import Mathlib.Algebra.Group.Nat.Defs
import Mathlib.Order.Defs.PartialOrder
import ReviewQueue.Proofs.Text.Utf8
import ReviewQueue.Time.Reading
import ReviewQueue.Time.Rfc3339

/-!
# Reading back stored timestamps

Instants are compared by their seconds since 1970, and within a second by their nanoseconds. A leap second has the seconds of the
second before it and a billion nanoseconds or more, so it comes between that second and the next.

A timestamp whose year has four digits is read back as it was stored, to the nanosecond and with its leap second if that ends a
minute; a leap second anywhere else is written as the second after it, and read back as that. A timestamp of any other year is
not read at all: the sign of its year moves the `T` from the place where it is looked for. Each reader of a field takes the
digits that the writer of the field put there and leaves what follows.
-/

namespace ReviewQueue

/-! ## The order of instants -/

namespace Timestamp

/-- The whole seconds since 1970-01-01, leap seconds not counted apart. -/
def unixSeconds (t : Timestamp) : Int :=
  ((t.date.number * 24 + t.time.hour) * 60 + t.time.minute) * 60 + t.time.second

/-- The nanoseconds since 1970-01-01, leap seconds not counted apart. -/
def unixNanos (t : Timestamp) : Int := t.unixSeconds * 1000000000 + t.time.nanos

/-- Whether an instant is the other or before it. -/
def NotAfter (s t : Timestamp) : Prop :=
  s.unixSeconds < t.unixSeconds ∨ s.unixSeconds = t.unixSeconds ∧ s.time.nanos ≤ t.time.nanos

/-- What is not after an instant is not after any later one. -/
theorem NotAfter.trans {s t u : Timestamp} (h : s.NotAfter t) (h' : t.NotAfter u) : s.NotAfter u := by
  unfold NotAfter at h h' ⊢
  omega

instance : Preorder Timestamp where
  le := NotAfter
  le_refl t := Or.inr ⟨rfl, Nat.le_refl _⟩
  le_trans _ _ _ := NotAfter.trans

instance (s t : Timestamp) : Decidable (s ≤ t) := inferInstanceAs (Decidable (_ ∨ _))

end Timestamp

/-! ## Fields -/

namespace Digits

/-- A text that does not go on with a digit. -/
def Ends (s : List Char) : Prop := ∀ c rest, s = c :: rest → c.isDigit = false

/-- Digits are over where a character is none. -/
theorem ends_cons {c : Char} {s : List Char} (h : c.isDigit = false) : Ends (c :: s) := by
  intro x rest e
  cases e
  exact h

/-- The last digit of a number is a digit. -/
theorem isDigit_last (n : Nat) : (last n).isDigit = true := by
  have h : ∀ d, d < 10 → (Char.ofNat (48 + d)).isDigit = true := by decide
  exact h (n % 10) (Nat.mod_lt _ (by omega))

/-- It has the value of the last place. -/
theorem toNat_last (n : Nat) : (last n).toNat - 48 = n % 10 := by
  have h : ∀ d, d < 10 → (Char.ofNat (48 + d)).toNat - 48 = d := by decide
  exact h (n % 10) (Nat.mod_lt _ (by omega))

/-- A number of fixed width has that many digits. -/
theorem length_fixed (width n : Nat) : (fixed width n).length = width := by
  induction width generalizing n with
  | zero => rfl
  | succ width ih => rw [fixed, List.length_append, ih, List.length_singleton]

/-- All of them are digits. -/
theorem isDigit_fixed {width n : Nat} : ∀ c ∈ fixed width n, c.isDigit = true := by
  induction width generalizing n with
  | zero => intro c hc; cases hc
  | succ width ih =>
    intro c hc
    rw [fixed, List.mem_append, List.mem_singleton] at hc
    rcases hc with hc | rfl
    · exact ih c hc
    · exact isDigit_last n

/-- Digits after a point and those left out of nine are nine together. -/
theorem scale_eq {width : Nat} (h : width ≤ 9) : 10 ^ width * 10 ^ (9 - width) = 1000000000 := by
  rw [← Nat.pow_add, Nat.add_sub_cancel' h]

/-- The value of more digits goes on from that of those before. -/
theorem value_append (a b : List Char) : value (a ++ b) = b.foldl (fun n c => 10 * n + (c.toNat - 48)) (value a) :=
  List.foldl_append

/-- The digits of a number of that many digits stand for it. -/
theorem value_fixed {width n : Nat} (h : n < 10 ^ width) : value (fixed width n) = n := by
  induction width generalizing n with
  | zero =>
    rw [Nat.pow_zero] at h
    rw [show n = 0 by omega]
    rfl
  | succ width ih =>
    rw [Nat.pow_succ] at h
    rw [fixed, value_append, ih (by omega), List.foldl_cons, List.foldl_nil, toNat_last]
    omega

/-- A span of digits is taken up to what ends it. -/
theorem span_append {most : Nat} {digits rest : List Char} (hd : ∀ c ∈ digits, c.isDigit = true) (hlen : digits.length ≤ most)
    (hrest : digits.length = most ∨ Ends rest) : span most (digits ++ rest) = (digits, rest) := by
  induction digits generalizing most with
  | nil =>
    cases most with
    | zero => rfl
    | succ most =>
      cases rest with
      | nil => rfl
      | cons c rest =>
        have hc : c.isDigit = false := by
          rcases hrest with h | h
          · cases h
          · exact h c rest rfl
        simp [span, hc]
  | cons c digits ih =>
    cases most with
    | zero => cases hlen
    | succ most =>
      have hc := hd c (by simp)
      have htail : span most (digits ++ rest) = (digits, rest) :=
        ih (fun x hx => hd x (by simp [hx])) (by simpa using hlen) (by simpa using hrest)
      simp [span, hc, htail]

/-- A number of at least one digit starts with a digit. -/
theorem fixed_eq_cons {width : Nat} (hw : 0 < width) (n : Nat) :
    ∃ c digits, fixed width n = c :: digits ∧ c.isDigit = true := by
  have hlen := length_fixed width n
  cases hf : fixed width n with
  | nil => rw [hf] at hlen; simp at hlen; omega
  | cons c digits => exact ⟨c, digits, rfl, isDigit_fixed c (by rw [hf]; simp)⟩

/-- A number written with all the digits that can be read is read back. -/
theorem read?_fixed {width n : Nat} (hw : 0 < width) (h : n < 10 ^ width) (rest : List Char) :
    read? width (fixed width n ++ rest) = some (n, rest) := by
  have hlen := length_fixed width n
  have hvalue := value_fixed h
  obtain ⟨c, digits, hf, -⟩ := fixed_eq_cons hw n
  unfold read?
  rw [span_append isDigit_fixed (by omega) (Or.inl hlen)]
  rw [hf] at hvalue ⊢
  simp only [hvalue]

/-- A number is read back by a reader of any count of digits, if no digit follows. -/
theorem readAll?_fixed {width n : Nat} (hw : 0 < width) (h : n < 10 ^ width) {rest : List Char} (hrest : Ends rest) :
    readAll? (fixed width n ++ rest) = some (n, rest) := by
  have hlen := length_fixed width n
  have hvalue := value_fixed h
  obtain ⟨c, digits, hf, -⟩ := fixed_eq_cons hw n
  unfold readAll? read?
  rw [span_append isDigit_fixed (by rw [List.length_append]; omega) (Or.inr hrest)]
  rw [hf] at hvalue ⊢
  simp only [hvalue]

end Digits

/-- A digit is no blank. -/
theorem isBlank_of_isDigit {c : Char} (h : c.isDigit = true) : Blank.isBlank c = false := by
  have hc := Utf8.toNat_of_isDigit h
  unfold Blank.isBlank
  simp
  omega

/-- Where there is no blank nothing is skipped. -/
theorem skip_of_not_blank {c : Char} (h : Blank.isBlank c = false) (s : List Char) : Blank.skip (c :: s) = c :: s := by
  rw [Blank.skip, List.dropWhile_cons, h]
  rfl

/-- Where blanks may stand, nothing is skipped if none do. -/
theorem gap_of_not_blank {loose : Bool} {c : Char} (h : Blank.isBlank c = false) (s : List Char) :
    (if loose = true then Blank.skip (c :: s) else c :: s) = c :: s := by
  rw [skip_of_not_blank h, ite_self]

/-- So nothing is skipped before a number. -/
theorem skip_fixed {width n : Nat} (hw : 0 < width) (rest : List Char) :
    Blank.skip (Digits.fixed width n ++ rest) = Digits.fixed width n ++ rest := by
  obtain ⟨c, digits, hf, hc⟩ := Digits.fixed_eq_cons hw n
  rw [hf, List.cons_append, skip_of_not_blank (isBlank_of_isDigit hc)]

namespace Date

/-- A date is real if its year, its month and its day are within their bounds. -/
theorem isReal_iff {year : Int} {month day : Nat} : isReal year month day = true ↔
    firstYear ≤ year ∧ year ≤ lastYear ∧ 1 ≤ month ∧ month ≤ 12 ∧ 1 ≤ day ∧ day ≤ daysOfMonth year month := by
  simp only [isReal, Bool.and_eq_true, decide_eq_true_eq, and_assoc]

/-- A month has between one day and thirty-one. -/
theorem daysOfMonth_bounds (year : Int) (month : Nat) : 1 ≤ daysOfMonth year month ∧ daysOfMonth year month ≤ 31 := by
  unfold daysOfMonth
  repeat' split
  all_goals omega

/-- The bounds of the month and the day of a date. -/
theorem bounds (d : Date) : 1 ≤ d.month ∧ d.month ≤ 12 ∧ 1 ≤ d.day ∧ d.day ≤ 31 := by
  obtain ⟨-, -, hmonth, hmonth', hday, hday'⟩ := isReal_iff.mp d.real
  exact ⟨hmonth, hmonth', hday, Nat.le_trans hday' (daysOfMonth_bounds d.year d.month).2⟩

/-- The bounds of the year of a date. -/
theorem year_bounds (d : Date) : -1000000 < d.year ∧ d.year < 1000000 := by
  obtain ⟨hfirst, hlast, -⟩ := isReal_iff.mp d.real
  unfold firstYear at hfirst
  unfold lastYear at hlast
  omega

end Date

namespace Timestamp

/-- The year of a timestamp has four digits. -/
def HasPlainYear (t : Timestamp) : Prop := 0 ≤ t.date.year ∧ t.date.year ≤ 9999

instance (t : Timestamp) : Decidable t.HasPlainYear := inferInstanceAs (Decidable (_ ∧ _))

/-- A leap second, if the instant is in one, ends a minute. -/
def LeapsLast (t : Timestamp) : Prop := t.time.nanos < 1000000000 ∨ t.time.second = 59

instance (t : Timestamp) : Decidable t.LeapsLast := inferInstanceAs (Decidable (_ ∨ _))

/-- An instant that the text stored for it names: its year has four digits, and a leap second ends a minute. -/
def IsPlain (t : Timestamp) : Prop := t.HasPlainYear ∧ t.LeapsLast

instance (t : Timestamp) : Decidable t.IsPlain := inferInstanceAs (Decidable (_ ∧ _))

/-- A year of four digits is read as it was written. -/
theorem readYear?_fixed {n : Nat} (h : n < 10000) (rest : List Char) :
    readYear? (Digits.fixed 4 n ++ rest) = some ((n : Int), rest) := by
  have hread := Digits.read?_fixed (show 0 < 4 by omega) h rest
  unfold readYear?
  rw [skip_fixed (by omega)]
  obtain ⟨c, digits, hf, hc⟩ := Digits.fixed_eq_cons (show 0 < 4 by omega) n
  rw [hf, List.cons_append] at hread ⊢
  split
  next heq => cases heq; cases hc
  next heq => cases heq; cases hc
  next => rw [hread, Option.map_some]

/-- The sign of a year with as many digits as it has, four at least. -/
theorem yearDigits_of_far {year : Int} (hfar : ¬(0 ≤ year ∧ year ≤ 9999)) (h0 : -1000000 < year) (h1 : year < 1000000) :
    ∃ width, 4 ≤ width ∧ year.natAbs < 10 ^ width ∧ (year < 0 ∨ 5 ≤ width) ∧
      yearDigits year = (if year < 0 then '-' else '+') :: Digits.fixed width year.natAbs := by
  unfold yearDigits
  rw [if_neg hfar]
  by_cases hfour : year.natAbs < 10000
  · exact ⟨4, by omega, hfour, by omega, by simp only [hfour, if_true]⟩
  · by_cases hfive : year.natAbs < 100000
    · exact ⟨5, by omega, hfive, by omega, by simp only [hfour, hfive, if_true, if_false]⟩
    · exact ⟨6, by omega, by omega, by omega, by simp only [hfour, hfive, if_false]⟩

/-- A year is read back, with its sign if it has one. -/
theorem readYear?_yearDigits {year : Int} (h0 : -1000000 < year) (h1 : year < 1000000) {rest : List Char}
    (hrest : Digits.Ends rest) : readYear? (yearDigits year ++ rest) = some (year, rest) := by
  by_cases hplain : 0 ≤ year ∧ year ≤ 9999
  · have hread := readYear?_fixed (show year.toNat < 10000 by omega) rest
    rw [Int.toNat_of_nonneg hplain.1] at hread
    unfold yearDigits
    rw [if_pos hplain, hread]
  · obtain ⟨width, hw, hsize, -, hdigits⟩ := yearDigits_of_far hplain h0 h1
    have hread := Digits.readAll?_fixed (by omega) hsize hrest
    rw [hdigits]
    unfold readYear?
    by_cases hneg : year < 0
    · rw [if_pos hneg, List.cons_append, skip_of_not_blank (show Blank.isBlank '-' = false by decide)]
      simp only [hread, Option.map_some]
      rw [show -(year.natAbs : Int) = year by omega]
    · rw [if_neg hneg, List.cons_append, skip_of_not_blank (show Blank.isBlank '+' = false by decide)]
      simp only [hread, Option.map_some]
      rw [show (year.natAbs : Int) = year by omega]

/-- Two digits are read as they were written. -/
theorem readPair?_fixed {n : Nat} (h : n < 100) (rest : List Char) :
    readPair? (Digits.fixed 2 n ++ rest) = some (n, rest) := by
  unfold readPair?
  rw [skip_fixed (by omega), Digits.read?_fixed (by omega) h]

theorem after?_cons (c : Char) (rest : List Char) : Mark.after? c (c :: rest) = some rest := by
  rw [Mark.after?, if_pos rfl]

/-- A date is read back. -/
theorem readDate?_dateDigits {loose : Bool} (d : Date) (rest : List Char) :
    readDate? loose (dateDigits d ++ rest) = some (⟨d.year, d.month, d.day⟩, rest) := by
  obtain ⟨-, hmonth, -, hday⟩ := d.bounds
  obtain ⟨h0, h1⟩ := d.year_bounds
  unfold readDate? dateDigits
  have hgap : ∀ s, (if loose = true then Blank.skip ('-' :: s) else '-' :: s) = '-' :: s := gap_of_not_blank (by decide)
  simp only [List.append_assoc, List.cons_append, bind, Option.bind, pure, hgap,
    readYear?_yearDigits h0 h1 (Digits.ends_cons (c := '-') rfl), after?_cons,
    readPair?_fixed (show d.month < 100 by omega), readPair?_fixed (show d.day < 100 by omega)]

/-- A fraction is written as nothing, or as a point and digits that stand for the nanoseconds, scaled by those left out. -/
theorem fraction_cases {nanos : Nat} (h : nanos < 1000000000) : nanos = 0 ∧ fraction nanos = [] ∨
    ∃ width n, width ∈ [3, 6, 9] ∧ n < 10 ^ width ∧ n * 10 ^ (9 - width) = nanos ∧
      fraction nanos = '.' :: Digits.fixed width n := by
  unfold fraction
  split
  next hzero => exact Or.inl ⟨hzero, rfl⟩
  next =>
    refine Or.inr ?_
    split
    next => exact ⟨3, nanos / 1000000, by simp, by omega, by omega, rfl⟩
    next =>
      split
      next => exact ⟨6, nanos / 1000, by simp, by omega, by omega, rfl⟩
      next => exact ⟨9, nanos, by simp, by omega, by omega, rfl⟩

/-- Up to nine digits after a point are read as nanoseconds, if no digit follows. -/
theorem readFraction?_digits {width n : Nat} (hw : 0 < width) (hw' : width ≤ 9) (hn : n < 10 ^ width) {rest : List Char}
    (hrest : Digits.Ends rest) : readFraction? ('.' :: (Digits.fixed width n ++ rest)) = some (n * 10 ^ (9 - width), rest) := by
  have hdrop : rest.dropWhile Char.isDigit = rest := by
    cases rest with
    | nil => rfl
    | cons c rest => rw [List.dropWhile_cons, hrest c rest rfl]; rfl
  have hlen := Digits.length_fixed width n
  obtain ⟨c, digits, hf, -⟩ := Digits.fixed_eq_cons hw n
  have hspan : Digits.span 9 (Digits.fixed width n ++ rest) = (Digits.fixed width n, rest) :=
    Digits.span_append Digits.isDigit_fixed (by omega) (Or.inr hrest)
  have hv := Digits.value_fixed hn
  rw [hf] at hspan hv hlen ⊢
  simp only [readFraction?, readNanos?]
  rw [hspan]
  simp only [hv, hlen, Nat.pow_eq, hdrop]

/-- No fraction is read where there is no point. -/
theorem readFraction?_none {rest : List Char} (hpoint : ∀ r, rest ≠ '.' :: r) : readFraction? rest = some (0, rest) := by
  unfold readFraction?
  split
  next r => exact absurd rfl (hpoint r)
  next => rfl

/-- A fraction is read back, if no digit follows. -/
theorem readFraction?_fraction {nanos : Nat} (h : nanos < 1000000000) {rest : List Char} (hrest : Digits.Ends rest)
    (hpoint : ∀ r, rest ≠ '.' :: r) : readFraction? (fraction nanos ++ rest) = some (nanos, rest) := by
  obtain ⟨rfl, hnone⟩ | ⟨width, n, hwidth, hn, hval, hdigits⟩ := fraction_cases h
  · rw [hnone, List.nil_append, readFraction?_none hpoint]
  · have hw : 0 < width ∧ width ≤ 9 := by
      simp only [List.mem_cons, List.not_mem_nil, or_false] at hwidth
      omega
    rw [hdigits, List.cons_append, readFraction?_digits hw.1 hw.2 hn hrest, hval]

/-- The fields of a time of day are read, up to what follows its fraction. -/
theorem readTime?_fields {loose : Bool} {hour minute second nanos : Nat} {tail rest : List Char} (hhour : hour < 100)
    (hminute : minute < 100) (hsecond : second < 100) (htail : readFraction? tail = some (nanos, rest)) :
    readTime? loose (Digits.fixed 2 hour ++ ':' :: (Digits.fixed 2 minute ++ ':' :: (Digits.fixed 2 second ++ tail))) =
      some (⟨hour, minute, second, nanos⟩, rest) := by
  have hgap : ∀ s, (if loose = true then Blank.skip (':' :: s) else ':' :: s) = ':' :: s := gap_of_not_blank (by decide)
  unfold readTime?
  simp only [bind, Option.bind, pure, hgap, readPair?_fixed hhour, after?_cons, readPair?_fixed hminute,
    readPair?_fixed hsecond, htail]

/-- The seconds that are written for a time of day: 60 in a leap second. -/
def shownSecond (t : TimeOfDay) : Nat := if 1000000000 ≤ t.nanos then t.second + 1 else t.second

/-- The nanoseconds that are written for a time of day. -/
def shownNanos (t : TimeOfDay) : Nat := if 1000000000 ≤ t.nanos then t.nanos - 1000000000 else t.nanos

/-- The bounds of the fields of a time of day. -/
theorem timeOfDay_bounds (t : TimeOfDay) : t.hour < 24 ∧ t.minute < 60 ∧ t.second < 60 ∧ t.nanos < 2000000000 := by
  have hreal := t.real
  simp only [TimeOfDay.isReal, Bool.and_eq_true, decide_eq_true_eq] at hreal
  exact ⟨hreal.1.1.1, hreal.1.1.2, hreal.1.2, hreal.2⟩

/-- A time of day is written as the seconds and nanoseconds that are shown. -/
theorem timeDigits_eq (t : TimeOfDay) : timeDigits t = Digits.fixed 2 t.hour ++ ':' :: Digits.fixed 2 t.minute ++ ':' ::
    Digits.fixed 2 (shownSecond t) ++ fraction (shownNanos t) := by
  unfold timeDigits shownSecond shownNanos
  simp only

/-- The instant that is read back from what is written: a leap second that does not end a minute has become the next second. -/
def readBack (t : Timestamp) : Timestamp :=
  if h : 1000000000 ≤ t.time.nanos ∧ t.time.second ≠ 59 then
    ⟨t.date, t.time.hour, t.time.minute, t.time.second + 1, t.time.nanos - 1000000000, by
      obtain ⟨hhour, hminute, hsecond, hnanos⟩ := timeOfDay_bounds t.time
      simp only [TimeOfDay.isReal, Bool.and_eq_true, decide_eq_true_eq]
      omega⟩
  else t

@[simp] theorem date_readBack (t : Timestamp) : t.readBack.date = t.date := by
  unfold readBack
  split <;> rfl

/-- A timestamp is read back as it is unless it is in a leap second within a minute. -/
theorem readBack_of_leapsLast {t : Timestamp} (h : t.LeapsLast) : t.readBack = t := by
  unfold LeapsLast at h
  exact dif_neg (by omega)

/-- No timestamp that is read back is in such a leap second. -/
theorem leapsLast_readBack (t : Timestamp) : t.readBack.LeapsLast := by
  unfold readBack LeapsLast
  split
  next =>
    have hnanos := (timeOfDay_bounds t.time).2.2.2
    exact Or.inl (by simp only; omega)
  next => omega

/-- An instant is read back as itself just if a leap second ends its minute. -/
theorem readBack_eq_iff {t : Timestamp} : t.readBack = t ↔ t.LeapsLast :=
  ⟨fun h => h ▸ t.leapsLast_readBack, readBack_of_leapsLast⟩

/-- A leap second within a minute. -/
def midMinute : Timestamp := ⟨⟨2024, 1, 2, by decide⟩, ⟨3, 4, 30, 1500000000, by decide⟩⟩

example : midMinute.readBack = ⟨⟨2024, 1, 2, by decide⟩, ⟨3, 4, 31, 500000000, by decide⟩⟩ := by decide

/-- What is read back is shown alike. -/
theorem shown_readBack (t : Timestamp) : t.readBack.time.hour = t.time.hour ∧ t.readBack.time.minute = t.time.minute ∧
    shownSecond t.readBack.time = shownSecond t.time ∧ shownNanos t.readBack.time = shownNanos t.time := by
  have hnanos := (timeOfDay_bounds t.time).2.2.2
  unfold readBack shownSecond shownNanos
  split
  next h => simp only [h.1, if_true, if_neg (show ¬1000000000 ≤ t.time.nanos - 1000000000 by omega), and_self]
  next => exact ⟨rfl, rfl, rfl, rfl⟩

/-- A time of day is read back in the fields that are written. -/
theorem readTime?_timeDigits {loose : Bool} (t : TimeOfDay) {rest : List Char} (hrest : Digits.Ends rest)
    (hpoint : ∀ r, rest ≠ '.' :: r) :
    readTime? loose (timeDigits t ++ rest) = some (⟨t.hour, t.minute, shownSecond t, shownNanos t⟩, rest) := by
  obtain ⟨hh, hm, hs, hn⟩ := timeOfDay_bounds t
  have hsecond : shownSecond t < 100 := by unfold shownSecond; split <;> omega
  have hnanos : shownNanos t < 1000000000 := by unfold shownNanos; split <;> omega
  rw [timeDigits_eq]
  simp only [List.append_assoc, List.cons_append]
  exact readTime?_fields (by omega) (by omega) hsecond (readFraction?_fraction hnanos hrest hpoint)

/-- The fields that are written for a timestamp name it, if a leap second ends its minute. -/
theorem ofFields?_shown_of_leapsLast {t : Timestamp} (h : t.LeapsLast) :
    ofFields? ⟨t.date.year, t.date.month, t.date.day⟩ ⟨t.time.hour, t.time.minute, shownSecond t.time, shownNanos t.time⟩ 0 =
      some t := by
  obtain ⟨hh, hm, hs, hn⟩ := timeOfDay_bounds t.time
  unfold LeapsLast at h
  have hdate : Date.of? t.date.year t.date.month t.date.day = some t.date := by rw [Date.of?, dif_pos t.date.real]
  have hof : TimeOfDay.of? t.time.hour t.time.minute t.time.second t.time.nanos = some t.time := by
    rw [TimeOfDay.of?, dif_pos t.time.real]
  have hclock : TimeOfDay.ofClock? t.time.hour t.time.minute (shownSecond t.time) (shownNanos t.time) = some t.time := by
    unfold TimeOfDay.ofClock? shownSecond shownNanos
    by_cases hleap : 1000000000 ≤ t.time.nanos
    · have hsecond : t.time.second = 59 := by omega
      rw [if_pos hleap, if_pos hleap, if_pos (by omega), Nat.add_sub_cancel' hleap, ← hsecond, hof]
    · rw [if_neg hleap, if_neg hleap, if_neg (by omega), if_pos (by omega), hof]
  have hlocal : ofLocal? t.date t.time 0 = some t := by
    unfold ofLocal?
    have hshift : (((t.time.hour * 60 + t.time.minute - 0 : Int)) % 1440).toNat = t.time.hour * 60 + t.time.minute := by omega
    simp only [hshift]
    rw [show (t.time.hour * 60 + t.time.minute) / 60 = t.time.hour by omega,
      show (t.time.hour * 60 + t.time.minute) % 60 = t.time.minute by omega, hof]
    simp only
    rw [if_neg (by omega), if_neg (by omega)]
  unfold ofFields?
  simp only [hdate, hclock, bind, Option.bind]
  rw [if_pos (by decide), hlocal]

/-- The fields that are written for a timestamp name what is read back. -/
theorem ofFields?_shown (t : Timestamp) :
    ofFields? ⟨t.date.year, t.date.month, t.date.day⟩ ⟨t.time.hour, t.time.minute, shownSecond t.time, shownNanos t.time⟩ 0 =
      some t.readBack := by
  have hshown := ofFields?_shown_of_leapsLast t.leapsLast_readBack
  obtain ⟨hhour, hminute, hsecond, hfraction⟩ := t.shown_readBack
  rwa [date_readBack, hhour, hminute, hsecond, hfraction] at hshown

/-- Fields name no leap second but one that ends a minute: second 60 alone stands for one, and an offset leaves the seconds. -/
theorem leapsLast_of_ofFields? {d : DateFields} {fields : TimeFields} {offset : Int} {t : Timestamp}
    (h : ofFields? d fields offset = some t) : t.LeapsLast := by
  have hof : ∀ {hour minute second nanos : Nat} {time : TimeOfDay}, TimeOfDay.of? hour minute second nanos = some time →
      time.second = second ∧ time.nanos = nanos := by
    intro hour minute second nanos time h
    unfold TimeOfDay.of? at h
    split at h
    · cases h
      exact ⟨rfl, rfl⟩
    · cases h
  simp only [ofFields?, Option.bind_eq_bind, Option.bind_eq_some_iff] at h
  obtain ⟨date, -, clock, hclock, h⟩ := h
  have hclock : clock.nanos < 1000000000 ∨ clock.second = 59 := by
    unfold TimeOfDay.ofClock? at hclock
    split at hclock
    · exact Or.inr (hof hclock).1
    · split at hclock
      next hnanos => exact Or.inl (by rw [(hof hclock).2]; exact hnanos)
      next => cases hclock
  have htime : t.time.second = clock.second ∧ t.time.nanos = clock.nanos := by
    split at h
    next =>
      unfold ofLocal? at h
      simp only at h
      split at h
      · cases h
      next time htime =>
        split at h
        · obtain ⟨_, -, rfl⟩ := Option.map_eq_some_iff.mp h
          exact hof htime
        · split at h
          · obtain ⟨_, -, rfl⟩ := Option.map_eq_some_iff.mp h
            exact hof htime
          · cases h
            exact hof htime
    next => cases h
  unfold LeapsLast
  rw [htime.1, htime.2]
  exact hclock

/-- A date in writing holds digits, dashes and perhaps a plus. -/
theorem dateDigits_chars (d : Date) : ∀ c ∈ dateDigits d, c.isDigit = true ∨ c = '-' ∨ c = '+' := by
  have hyear : ∀ c ∈ yearDigits d.year, c.isDigit = true ∨ c = '-' ∨ c = '+' := by
    intro c hc
    by_cases hplain : 0 ≤ d.year ∧ d.year ≤ 9999
    · unfold yearDigits at hc
      rw [if_pos hplain] at hc
      exact Or.inl (Digits.isDigit_fixed c hc)
    · obtain ⟨width, -, -, -, hdigits⟩ := yearDigits_of_far hplain d.year_bounds.1 d.year_bounds.2
      rw [hdigits, List.mem_cons] at hc
      rcases hc with rfl | hc
      · split
        · exact Or.inr (Or.inl rfl)
        · exact Or.inr (Or.inr rfl)
      · exact Or.inl (Digits.isDigit_fixed c hc)
  intro c hc
  unfold dateDigits at hc
  simp only [List.append_assoc, List.cons_append, List.mem_append, List.mem_cons] at hc
  rcases hc with hc | rfl | hc | rfl | hc
  · exact hyear c hc
  · exact Or.inr (Or.inl rfl)
  · exact Or.inl (Digits.isDigit_fixed c hc)
  · exact Or.inr (Or.inl rfl)
  · exact Or.inl (Digits.isDigit_fixed c hc)

/-- A date in writing has ten characters if its year has four digits, and more than ten if not. -/
theorem length_dateDigits (d : Date) :
    if 0 ≤ d.year ∧ d.year ≤ 9999 then (dateDigits d).length = 10 else 10 < (dateDigits d).length := by
  split
  next hplain => simp [dateDigits, yearDigits, hplain, Digits.length_fixed]
  next hfar =>
    obtain ⟨width, hw, -, -, hdigits⟩ := yearDigits_of_far hfar d.year_bounds.1 d.year_bounds.2
    simp [dateDigits, hdigits, Digits.length_fixed]
    omega

/-- Each character of a date in writing is one byte. -/
theorem encode_dateDigits (d : Date) : Utf8.encode (dateDigits d) = (dateDigits d).map fun c => .ofNat c.toNat := by
  refine Utf8.encode_ascii fun c hc => ?_
  rcases dateDigits_chars d c hc with hd | rfl | rfl
  · have hrange := Utf8.toNat_of_isDigit hd
    omega
  · decide
  · decide

/-- The byte after a date whose year has four digits is the tenth, counted from 0. -/
theorem byte_ten_of_plain {d : Date} (h0 : 0 ≤ d.year) (h1 : d.year ≤ 9999) (rest : List Char) :
    (Utf8.encode (dateDigits d ++ rest))[10]? = (Utf8.encode rest).head? := by
  have hlen := length_dateDigits d
  rw [if_pos ⟨h0, h1⟩] at hlen
  rw [Utf8.encode_append, encode_dateDigits, List.getElem?_append_right (by rw [List.length_map]; omega), List.length_map, hlen,
    List.head?_eq_getElem?]

/-- The tenth byte of a stored timestamp is the letter `T` just if its year has four digits. -/
theorem stored_byte_ten (t : Timestamp) : (bytesOf t.stored)[10]? = some 0x54 ↔ t.HasPlainYear := by
  unfold bytesOf stored written
  rw [String.toList_ofList, List.append_assoc]
  by_cases hplain : t.HasPlainYear
  · rw [byte_ten_of_plain hplain.1 hplain.2]
    exact iff_of_true rfl hplain
  · have hlen := length_dateDigits t.date
    rw [if_neg (show ¬(0 ≤ t.date.year ∧ t.date.year ≤ 9999) from hplain)] at hlen
    rw [Utf8.encode_append, encode_dateDigits, List.getElem?_append_left (by rw [List.length_map]; omega), List.getElem?_map]
    refine iff_of_false (fun h => ?_) hplain
    obtain ⟨c, hc, hletter⟩ := Option.map_eq_some_iff.mp h
    rcases dateDigits_chars t.date c (List.mem_of_getElem? hc) with hd | rfl | rfl
    · have hrange := Utf8.toNat_of_isDigit hd
      have hcode := congrArg UInt8.toNat hletter
      rw [Utf8.toNat_ofNat_of_lt (by omega), show (0x54 : UInt8).toNat = 84 from rfl] at hcode
      omega
    · exact absurd hletter (by decide)
    · exact absurd hletter (by decide)

/-- A timestamp whose year has four digits is read back from a table. -/
theorem ofStored?_stored {t : Timestamp} (h : t.HasPlainYear) :
    ofStored? (bytesOf t.stored) t.stored.toList = some t.readBack := by
  have hzone : ∀ r, ['+', '0', '0', ':', '0', '0'] ≠ '.' :: r := by intro r hr; cases hr
  unfold ofStored? readStored?
  rw [(stored_byte_ten t).mpr h]
  unfold stored written
  rw [String.toList_ofList, List.append_assoc]
  simp only [bind, Option.bind, pure, readDate?_dateDigits, if_true, List.cons_append, after?_cons,
    readTime?_timeDigits t.time (Digits.ends_cons (by decide)) hzone]
  have hoffset : readOffset? true (Blank.skip ['+', '0', '0', ':', '0', '0']) = some (0, []) := by decide
  rw [hoffset]
  exact ofFields?_shown t

/-- A timestamp of any other year is not read back: the `T` is not where it is looked for, and no hour starts with it. -/
theorem ofStored?_stored_far {t : Timestamp} (h : ¬t.HasPlainYear) : ofStored? (bytesOf t.stored) t.stored.toList = none := by
  have htime : ∀ s, readTime? false (Blank.skip ('T' :: s)) = none := by
    intro s
    have hskip : Blank.skip ('T' :: s) = 'T' :: s := skip_of_not_blank (by decide) s
    have hhour : readPair? ('T' :: s) = none := by
      rw [readPair?, hskip]
      rfl
    rw [hskip, readTime?, hhour]
    rfl
  have hten := mt (stored_byte_ten t).mp h
  unfold ofStored? readStored?
  simp only [hten, if_false]
  unfold stored written
  rw [String.toList_ofList, List.append_assoc, List.cons_append]
  simp only [bind, Option.bind, readDate?_dateDigits, htime]

end Timestamp
end ReviewQueue
