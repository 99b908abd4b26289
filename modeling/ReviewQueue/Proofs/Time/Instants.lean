import Mathlib.Data.List.Chain
import ReviewQueue.Proofs.Number.Rounding
import ReviewQueue.Proofs.Text.Numerals
import ReviewQueue.Proofs.Time.Writings
import ReviewQueue.Time.JulianDay

/-!
# The instants of times in writing

However an instant is written, the same whole milliseconds are calculated for it, and instants are ordered by these. They are off by
half a millisecond at most; halfway between two milliseconds it can be either of them, as rounding of the numbers on the way has it.
A timestamp that a clock showed is stored in one of these ways, so the texts of timestamps that are more than a millisecond apart are
ordered as the timestamps are. Each reader of a field of the text takes the bytes that the writer of the field put there and leaves
what follows.
-/

namespace ReviewQueue

namespace Digits

/-- The bytes of the lowest digits of a number. -/
def bytes (width n : Nat) : Bytes := (fixed width n).map fun c => .ofNat c.toNat

/-- The bytes of a number of fixed width are its digits. -/
theorem encode_fixed (width n : Nat) : Utf8.encode (fixed width n) = bytes width n := by
  refine Utf8.encode_ascii fun c hc => ?_
  have hd := Utf8.toNat_of_isDigit (isDigit_fixed c hc)
  omega

theorem encode_point (width n : Nat) : Utf8.encode ('.' :: fixed width n) = 0x2E :: bytes width n := by
  rw [← encode_fixed]
  rfl

theorem length_bytes (width n : Nat) : (bytes width n).length = width := by
  rw [bytes, List.length_map, length_fixed]

theorem isDigit_of_mem_bytes {width n : Nat} {b : UInt8} (h : b ∈ bytes width n) : Numeral.isDigit b = true := by
  obtain ⟨c, hc, rfl⟩ := List.mem_map.mp h
  exact (Numeral.byte_of_isDigit (isDigit_fixed c hc)).1

/-- They spell the number. -/
theorem digitsValue_bytes {width n : Nat} (h : n < 10 ^ width) : Numeral.digitsValue (bytes width n) = n := by
  rw [bytes, Numeral.digitsValue_map isDigit_fixed, value_fixed h]

/-- The first two of four digits are those of the hundreds. -/
theorem bytes_four (n : Nat) : bytes 4 n = bytes 2 (n / 100) ++ bytes 2 (n % 100) := by
  have hlast : ∀ {a b : Nat}, a % 10 = b % 10 → last a = last b := fun h => by rw [last, last, h]
  simp only [bytes, fixed, List.nil_append, List.map_append, List.append_assoc]
  rw [hlast (show n / 10 / 10 / 10 % 10 = n / 100 / 10 % 10 by omega), hlast (show n / 10 / 10 % 10 = n / 100 % 10 by omega),
    hlast (show n / 10 % 10 = n % 100 / 10 % 10 by omega), hlast (show n % 10 = n % 100 % 10 by omega)]

/-- Digits up to what is none are read as one number. -/
theorem readDigits_bytes (width n : Nat) {rest : Bytes} (hrest : ∀ b ∈ rest.head?, Numeral.isDigit b = false) :
    Numeral.readDigits (bytes width n ++ rest) = (bytes width n, rest) := by
  have hall : ∀ x ∈ bytes width n, Numeral.isDigit x = true := fun x hx => isDigit_of_mem_bytes hx
  unfold Numeral.readDigits
  rw [List.takeWhile_append_of_pos hall, List.dropWhile_append_of_pos hall]
  cases rest with
  | nil => simp
  | cons b rest =>
    have hb := hrest b rfl
    rw [List.takeWhile_cons_of_neg (by simp [hb]), List.dropWhile_cons_of_neg (by simp [hb]), List.append_nil]

end Digits

namespace Timestamp

/-- Whether a clock shows a timestamp within the years 1 to 9998. A clock counts seconds, so it shows no leap second. -/
structure IsReading (t : Timestamp) : Prop where
  year : 1 ≤ t.date.year ∧ t.date.year ≤ 9998
  nanos : t.time.nanos < 1000000000

instance (t : Timestamp) : Decidable t.IsReading :=
  decidable_of_iff (_ ∧ _) ⟨fun h => ⟨h.1, h.2⟩, fun h => ⟨h.year, h.nanos⟩⟩

/-- The times of a list are shown by a clock one after the other, each at least three milliseconds after the one before. -/
structure Advance (ts : List Timestamp) : Prop where
  readings : ∀ t ∈ ts, t.IsReading
  apart : ts.IsChain fun s t => s.unixNanos + 3000000 ≤ t.unixNanos

end Timestamp

namespace JulianDay

/-! ## Milliseconds -/

/-- A number of digits is calculated without an error. -/
theorem isNat_foldl_withDigit {digits : Bytes} (hdigits : ∀ b ∈ digits, Numeral.isDigit b = true) {x : Double} {a : Nat}
    (hx : x.IsNat a) (h : (a + 1) * 10 ^ digits.length ≤ 10 ^ 9) :
    (digits.foldl withDigit x).IsNat (digits.foldl (fun n b => 10 * n + Numeral.digitValue b) a) := by
  induction digits generalizing x a with
  | nil => exact hx
  | cons b digits ih =>
    obtain ⟨hlow, hhigh⟩ := Numeral.toNat_of_isDigit (hdigits b (by simp))
    have hpos : 0 < 10 ^ digits.length := Nat.pow_pos (by decide)
    have hsize : (a + 1) * 10 ≤ 10 ^ 9 := by
      refine le_trans ?_ h
      rw [List.length_cons, Nat.pow_succ, Nat.mul_comm (10 ^ _), ← Nat.mul_assoc]
      exact Nat.le_mul_of_pos_right _ hpos
    have htens : (x.mul (.ofInt 10)).IsNat (a * 10) := hx.mul (Double.isNat_ofInt (n := 10) (by omega)) (by omega)
    have hbyte : ((x.mul (.ofInt 10)).add (.ofInt b.toNat)).IsNat (10 * a + Numeral.digitValue b + 0x30) := by
      rw [show 10 * a + Numeral.digitValue b + 0x30 = a * 10 + b.toNat by unfold Numeral.digitValue; omega]
      exact htens.add (Double.isNat_ofInt (by omega)) (by omega)
    have hdigit : (withDigit x b).IsNat (10 * a + Numeral.digitValue b) :=
      hbyte.sub (Double.isNat_ofInt (n := 0x30) (by omega)) (by unfold Numeral.digitValue; omega)
    refine ih (fun c hc => hdigits c (by simp [hc])) hdigit ?_
    calc (10 * a + Numeral.digitValue b + 1) * 10 ^ digits.length
        ≤ (a + 1) * 10 * 10 ^ digits.length := Nat.mul_le_mul_right _ (by unfold Numeral.digitValue; omega)
      _ = (a + 1) * 10 ^ (b :: digits).length := by rw [List.length_cons, Nat.pow_succ, Nat.mul_assoc, Nat.mul_comm 10]
      _ ≤ 10 ^ 9 := h

/-- So is what the number is divided by. -/
theorem isNat_foldl_tens (digits : Bytes) {x : Double} {a : Nat} (hx : x.IsNat a) (h : a * 10 ^ digits.length ≤ 10 ^ 9) :
    (digits.foldl (fun x _ => x.mul (.ofInt 10)) x).IsNat (a * 10 ^ digits.length) := by
  induction digits generalizing x a with
  | nil => simpa using hx
  | cons b digits ih =>
    have hpos : 0 < 10 ^ digits.length := Nat.pow_pos (by decide)
    rw [List.length_cons, Nat.pow_succ, Nat.mul_comm (10 ^ _), ← Nat.mul_assoc] at h ⊢
    have hsize : a * 10 ≤ a * 10 * 10 ^ digits.length := Nat.le_mul_of_pos_right _ hpos
    exact ih (hx.mul (Double.isNat_ofInt (n := 10) (by omega)) (by omega)) h

/-- Seconds and nanoseconds in milliseconds, as they are calculated. -/
def millisNear (second nanos : Nat) : Int :=
  rounded (((Double.ofInt second).add (.ofFraction false nanos 1000000000)).mul (.ofInt 1000))

/-- However a fraction of a second is written, the same is calculated. -/
theorem millis?_bytes {width n : Nat} (second : Nat) (hwidth : width ≤ 9) (hn : n < 10 ^ width) :
    millis? second (Digits.bytes width n) = some (millisNear second (n * 10 ^ (9 - width))) := by
  have hscale := Digits.scale_eq hwidth
  have hmost : 10 ^ width ≤ 10 ^ 9 := Nat.pow_le_pow_right (by decide) hwidth
  have hnumber : ((Digits.bytes width n).foldl withDigit .zero).IsNat n := by
    have hfold := isNat_foldl_withDigit (fun b (hb : b ∈ Digits.bytes width n) => Digits.isDigit_of_mem_bytes hb)
      Double.isNat_zero (by rw [Digits.length_bytes]; omega)
    rwa [← Numeral.digitsValue.eq_def, Digits.digitsValue_bytes hn] at hfold
  have hdivisor : (scale (Digits.bytes width n)).IsNat (10 ^ width) := by
    have hfold := isNat_foldl_tens (Digits.bytes width n) (Double.isNat_ofInt (n := 1) (by decide))
      (by rw [Digits.length_bytes]; omega)
    rwa [Digits.length_bytes, Nat.one_mul] at hfold
  have hquotient := hnumber.div_eq hdivisor (Nat.pow_pos (by decide))
  have hnanos : Double.ofFraction false n (10 ^ width) = .ofFraction false (n * 10 ^ (9 - width)) 1000000000 := by
    refine Double.ofFraction_congr false (Nat.pow_pos (by decide)) (by decide) ?_
    have hpow : ((10 ^ width : Nat) : ℚ) * (10 ^ (9 - width) : Nat) = (1000000000 : Nat) := by exact_mod_cast hscale
    have hpos : ((10 ^ width : Nat) : ℚ) ≠ 0 := by exact_mod_cast (Nat.pow_pos (by decide) : 0 < 10 ^ width).ne'
    rw [div_eq_div_iff hpos (by norm_num), ← hpow]
    push_cast
    ring
  unfold millis? millisNear
  rw [if_neg (by rw [hdivisor.isInfinite_eq_false (by omega)]; exact Bool.false_ne_true), hquotient, hnanos]

/-- A number is rounded to one that is less than half of one away from it, or hardly more. -/
theorem rounded_bounds {x : Double} (hx : x.magnitude ≤ 60001) :
    (rounded x : ℚ) ≤ x.magnitude + 1 / 2 + 1 / 1000000000 ∧ x.magnitude - 1 / 2 - 1 / 1000000000 < rounded x := by
  have hhalf : (Double.ofFraction false 1 2).magnitude = (1 : Nat) / (2 : Nat) :=
    Double.magnitude_ofFraction_of_grid false (by decide) (m := 1) (by decide) (e := -1) (by decide) (by decide) (by norm_num)
  have hmore := Double.abs_magnitude_add_sub_le (x := x) (y := .ofFraction false 1 2) (e := 16) (by decide) (by decide)
    (by rw [hhalf]; norm_num; linarith)
  rw [hhalf, abs_le] at hmore
  norm_num at hmore
  obtain ⟨hlow, hhigh⟩ := Double.truncate_bounds (x := x.add (.ofFraction false 1 2)) rfl
  unfold rounded
  constructor <;> linarith [hmore.1, hmore.2]

/-- The milliseconds that are rounded are off by less than a nanosecond: each of the three numbers on the way is nearest to what it
stands for. -/
theorem abs_millis_sub_lt {second nanos : Nat} (hsecond : second < 60) (hnanos : nanos < 1000000000) :
    |((((Double.ofInt second).add (.ofFraction false nanos 1000000000)).mul (.ofInt 1000)).magnitude -
      (second * 1000 + nanos / 1000000))| < 1 / 10000000 := by
  have hs : (second : ℚ) ≤ 59 := by exact_mod_cast Nat.lt_succ_iff.mp hsecond
  have hn : (nanos : ℚ) / (1000000000 : Nat) < 1 := by
    rw [div_lt_one (by norm_num)]
    exact_mod_cast hnanos
  have hfraction := Double.abs_magnitude_ofFraction_sub_le false nanos (d := 1000000000) (by decide) (e := 0) (by decide)
    (by decide) (by simpa using hn)
  have hwhole : (Double.ofInt second).magnitude = second := Double.isNat_ofInt (by omega)
  have hthousand : (Double.ofInt 1000).magnitude = (1000 : Nat) := Double.isNat_ofInt (n := 1000) (by decide)
  generalize Double.ofFraction false nanos 1000000000 = fraction at hfraction ⊢
  rw [abs_le] at hfraction
  norm_num at hfraction hn
  have hsum := Double.abs_magnitude_add_sub_le (x := .ofInt second) (y := fraction) (e := 6) (by decide) (by decide)
    (by rw [hwhole]; norm_num; linarith [hfraction.2])
  rw [hwhole, abs_le] at hsum
  generalize (Double.ofInt second).add fraction = sum at hsum ⊢
  norm_num at hsum
  have hproduct := Double.abs_magnitude_mul_sub_le (x := sum) (y := .ofInt 1000) (e := 16) (by decide) (by decide)
    (by rw [hthousand]; norm_num; linarith [hfraction.2, hsum.2])
  rw [hthousand, abs_le] at hproduct
  norm_num at hproduct
  rw [abs_lt]
  constructor <;> linarith [hfraction.1, hfraction.2, hsum.1, hsum.2, hproduct.1, hproduct.2]

/-- What is calculated is a millisecond that is nearest: a time that is no half of a millisecond is rounded right. -/
theorem millisNear_near {second nanos : Nat} (hsecond : second < 60) (hnanos : nanos < 1000000000) :
    second * 1000000000 + nanos ≤ millisNear second nanos * 1000000 + 500000 ∧
      millisNear second nanos * 1000000 ≤ second * 1000000000 + nanos + 500000 := by
  have hs : (second : ℚ) ≤ 59 := by exact_mod_cast Nat.lt_succ_iff.mp hsecond
  have hn : (nanos : ℚ) < 1000000000 := by exact_mod_cast hnanos
  have hmillis := abs_lt.mp (abs_millis_sub_lt hsecond hnanos)
  unfold millisNear
  generalize ((Double.ofInt second).add (.ofFraction false nanos 1000000000)).mul (.ofInt 1000) = millis at hmillis ⊢
  obtain ⟨hhigh, hlow⟩ := rounded_bounds (x := millis) (by linarith [hmillis.2])
  have habove : ((second * 1000000000 + nanos : Int) : ℚ) < (rounded millis * 1000000 + 500000 + 1 : Int) := by
    push_cast
    linarith [hmillis.1]
  have hbelow : ((rounded millis * 1000000 : Int) : ℚ) < (second * 1000000000 + nanos + 500000 + 1 : Int) := by
    push_cast
    linarith [hmillis.2]
  exact ⟨Int.lt_add_one_iff.mp (by exact_mod_cast habove), Int.lt_add_one_iff.mp (by exact_mod_cast hbelow)⟩

/-- Whole seconds are calculated without an error. -/
theorem millisNear_zero {second : Nat} (h : second < 60) : millisNear second 0 = second * 1000 := by
  have hnear := millisNear_near h (show 0 < 1000000000 by decide)
  omega

/-! ## Instants -/

/-- An instant in nanoseconds since 1970-01-01 as a text is ordered that names it: whole minutes are exact, and the rest of a minute
is rounded to milliseconds. -/
def ofNanos (n : Int) : Int :=
  unixStart + n / 60000000000 * 60000 + millisNear (n % 60000000000 / 1000000000).toNat (n % 1000000000).toNat

/-- It is a millisecond that is nearest to the instant. -/
theorem ofNanos_near (n : Int) :
    n ≤ (ofNanos n - unixStart) * 1000000 + 500000 ∧ (ofNanos n - unixStart) * 1000000 ≤ n + 500000 := by
  have hnear := millisNear_near (show (n % 60000000000 / 1000000000).toNat < 60 by omega)
    (show (n % 1000000000).toNat < 1000000000 by omega)
  unfold ofNanos
  omega

/-- Instants more than a millisecond apart keep their order. -/
theorem ofNanos_lt {m n : Int} (h : m + 1000000 < n) : ofNanos m < ofNanos n := by
  have hm := ofNanos_near m
  have hn := ofNanos_near n
  omega

/-- Where the clock advances, so do the instants. -/
theorem pairwise_ofNanos {ts : List Timestamp} (h : Timestamp.Advance ts) :
    (ts.map fun t => ofNanos t.unixNanos).Pairwise (· < ·) := by
  have htrans : IsTrans Timestamp fun s t => s.unixNanos + 3000000 ≤ t.unixNanos := ⟨fun s t u hst htu => by omega⟩
  rw [List.pairwise_map]
  exact (List.isChain_iff_pairwise.mp h.apart).imp fun hst => ofNanos_lt (by omega)

/-! ## Days -/

/-- The days up to a year, which starts in March, counted by leap years since 4716 BC and by eras of four hundred years. -/
theorem daysBefore_eq (y : Int) : 36525 * (y + 4716) / 100 - y / 100 + y / 100 / 4 =
    y / 400 * 146097 + ((y - y / 400 * 400) * 365 + (y - y / 400 * 400) / 4 - (y - y / 400 * 400) / 100) + 1722519 := by
  have hleap : 36525 * (y + 4716) / 100 = 365 * y + y / 4 + 1722519 := by omega
  have hfours : (y - y / 400 * 400) / 4 = y / 4 - 100 * (y / 400) := by omega
  have hcenturies : (y - y / 400 * 400) / 100 = y / 100 - 4 * (y / 400) := by omega
  omega

/-- The days of the count are the days of the calendar. -/
theorem ofDay_eq (d : Date) : ofDay d.year d.month d.day = unixStart + d.number * millisOfDay := by
  obtain ⟨hfirst, hlast, -, -⟩ := d.bounds
  unfold ofDay Date.number millisOfDay unixStart
  generalize d.month = month at hfirst hlast ⊢
  by_cases hm : month ≤ 2
  · have hyears := daysBefore_eq (d.year - 1)
    simp only [if_pos hm]
    have hmonths : (306001 * (month + 12 + 1) / 10000 : Nat) = (153 * ((month : Int) + 9) + 2) / 5 + 122 := by omega
    omega
  · have hyears := daysBefore_eq d.year
    simp only [if_neg hm]
    have hmonths : (306001 * (month + 1) / 10000 : Nat) = (153 * ((month : Int) - 3) + 2) / 5 + 122 := by omega
    omega

/-! ## Reading -/

/-- Two digits within their bounds are read as they were written. -/
theorem pair?_bytes {low high n : Nat} (hlow : low ≤ n) (hhigh : n ≤ high) (h : n < 100) (rest : Bytes) :
    pair? low high (Digits.bytes 2 n ++ rest) = some (n, rest) := by
  have hvalue := Digits.digitsValue_bytes (show n < 10 ^ 2 from h)
  have hdigit : ∀ b ∈ Digits.bytes 2 n, Numeral.isDigit b = true := fun b hb => Digits.isDigit_of_mem_bytes hb
  obtain ⟨a, b, hab⟩ := List.length_eq_two.mp (Digits.length_bytes 2 n)
  rw [hab] at hvalue hdigit ⊢
  simp only [List.cons_append, List.nil_append, pair?, hdigit a (by simp), hdigit b (by simp), hvalue, Bool.and_self, if_true]
  rw [if_pos ⟨hlow, hhigh⟩]

/-- A byte that is there is read. -/
theorem byte?_cons (b : UInt8) (rest : Bytes) : byte? b (b :: rest) = some rest := by rw [byte?, if_pos rfl]

theorem encode_colon (s : List Char) : Utf8.encode (':' :: s) = 0x3A :: Utf8.encode s := rfl

/-- The bytes of an offset. -/
theorem encode_offset (behind : Bool) (hours minutes : Nat) (real : minutes < 60 ∧ hours * 60 + minutes ≤ 840) :
    Utf8.encode (Zone.offset behind hours minutes real).chars =
      (if behind then 0x2D else 0x2B) :: (Digits.bytes 2 hours ++ 0x3A :: Digits.bytes 2 minutes) := by
  have hsign : ∀ s, Utf8.encode ((if behind then '-' else '+') :: s) = (if behind then 0x2D else 0x2B) :: Utf8.encode s := by
    intro s
    cases behind <;> rfl
  simp only [Zone.chars, hsign, Utf8.encode_append, encode_colon, Digits.encode_fixed]

/-- No zone starts with a digit or a point. -/
theorem head_zone {z : Zone} {b : UInt8} (h : b ∈ (Utf8.encode z.chars).head?) : Numeral.isDigit b = false ∧ b ≠ 0x2E := by
  cases z with
  | missing => cases h
  | universal =>
    cases h
    decide
  | offset behind hours minutes real =>
    cases behind <;> cases h <;> decide

/-- A zone is read up to the end. -/
theorem offset?_zone (z : Zone) : offset? (Utf8.encode z.chars) = some z.ahead := by
  cases z with
  | missing | universal => decide
  | offset behind hours minutes real =>
    have hhours := fun rest => pair?_bytes (Nat.zero_le _) (show hours ≤ 14 by omega) (show hours < 100 by omega) rest
    have hminutes := pair?_bytes (Nat.zero_le _) (show minutes ≤ 59 by omega) (show minutes < 100 by omega) []
    rw [List.append_nil] at hminutes
    have hskip : ∀ b, b = 0x2D ∨ b = 0x2B → ∀ s, skip (b :: s) = b :: s := by
      rintro b (rfl | rfl) s <;> rfl
    have hend : skip [] = [] := rfl
    rw [encode_offset]
    unfold Zone.ahead offset?
    cases behind
    · simp [hskip, hhours, hminutes, byte?_cons, hend]
    · simp [hskip, hhours, hminutes, byte?_cons, hend]

/-- Seconds and their fraction are read up to the zone. -/
theorem seconds?_written (w : Writing) :
    seconds? (0x3A :: (Digits.bytes 2 w.second ++ (Utf8.encode w.point ++ Utf8.encode w.zone.chars))) =
      some (millisNear w.second w.fraction, Utf8.encode w.zone.chars) := by
  obtain ⟨-, -, hsecond⟩ := w.clock
  have hfits := w.fits
  have hpair := fun rest => pair?_bytes (Nat.zero_le _) (show w.second ≤ 59 by omega) (show w.second < 100 by omega) rest
  have hread : Numeral.readDigits (Digits.bytes w.width w.digits ++ Utf8.encode w.zone.chars) =
      (Digits.bytes w.width w.digits, Utf8.encode w.zone.chars) := Digits.readDigits_bytes _ _ fun b hb => (head_zone hb).1
  have hmillis := millis?_bytes w.second w.short hfits
  rw [← Writing.fraction.eq_def] at hmillis
  unfold seconds? Writing.point
  by_cases hnone : w.width = 0
  · have hzero : w.fraction = 0 := by
      rw [hnone, Nat.pow_zero] at hfits
      rw [Writing.fraction, show w.digits = 0 by omega, Nat.zero_mul]
    simp only [bind, Option.bind, hpair, if_pos hnone, show Utf8.encode [] = [] from rfl, List.nil_append, hzero,
      millisNear_zero hsecond]
    split
    next rest heq => exact absurd rfl (head_zone (z := w.zone) (by rw [heq]; rfl)).2
    next => rfl
  · simp only [bind, Option.bind, hpair, if_neg hnone, Digits.encode_point, List.cons_append, hread]
    cases hbytes : Digits.bytes w.width w.digits with
    | nil =>
      have hlength := Digits.length_bytes w.width w.digits
      rw [hbytes] at hlength
      exact absurd hlength.symm hnone
    | cons b rest =>
      rw [hbytes] at hmillis
      simp only [hmillis, Option.map_some]

/-- The bytes of a time of day and a zone. -/
theorem encode_timeChars (w : Writing) : Utf8.encode w.timeChars =
    Digits.bytes 2 w.hour ++ (0x3A :: (Digits.bytes 2 w.minute ++ (0x3A :: (Digits.bytes 2 w.second ++
      (Utf8.encode w.point ++ Utf8.encode w.zone.chars))))) := by
  simp only [Writing.timeChars, Utf8.encode_append, encode_colon, Digits.encode_fixed]

/-- A time of day is read up to the end, as milliseconds since midnight of universal time. -/
theorem time?_written (w : Writing) : time? (Utf8.encode w.timeChars) =
    some (w.hour * 3600000 + w.minute * 60000 + millisNear w.second w.fraction - w.zone.ahead * 60000) := by
  obtain ⟨hhour, hminute, -⟩ := w.clock
  rw [encode_timeChars]
  unfold time?
  simp only [bind, Option.bind, pure, pair?_bytes (Nat.zero_le _) (show w.hour ≤ 24 by omega) (show w.hour < 100 by omega),
    pair?_bytes (Nat.zero_le _) (show w.minute ≤ 59 by omega) (show w.minute < 100 by omega), byte?_cons, seconds?_written,
    offset?_zone]

/-- The bytes of a time: a date, the letter `T` or a blank, a time of day and a zone. -/
theorem bytesOf_text (w : Writing) : bytesOf w.text =
    Digits.bytes 2 (w.date.year.toNat / 100) ++ (Digits.bytes 2 (w.date.year.toNat % 100) ++ (0x2D ::
      (Digits.bytes 2 w.date.month ++ (0x2D :: (Digits.bytes 2 w.date.day ++
        ((if w.blank then 0x20 else 0x54) :: Utf8.encode w.timeChars)))))) := by
  obtain ⟨hfirst, hlast⟩ := w.year
  have hdash : ∀ s, Utf8.encode ('-' :: s) = 0x2D :: Utf8.encode s := fun _ => rfl
  have hbetween : ∀ s, Utf8.encode ((if w.blank then ' ' else 'T') :: s) = (if w.blank then 0x20 else 0x54) :: Utf8.encode s := by
    intro s
    cases w.blank <;> rfl
  unfold bytesOf Writing.text Timestamp.dateDigits Timestamp.yearDigits
  rw [String.toList_ofList, if_pos (by omega)]
  simp only [Utf8.encode_append, hdash, hbetween, Digits.encode_fixed, Digits.bytes_four, List.append_assoc, List.cons_append]

/-- A time of day comes right after the letter or the blank. -/
theorem dropWhile_timeChars (w : Writing) : ((if w.blank then 0x20 else 0x54) :: Utf8.encode w.timeChars).dropWhile
    (fun b => Numeral.isBlank b || b = 0x54) = Utf8.encode w.timeChars := by
  obtain ⟨a, b, hab⟩ := List.length_eq_two.mp (Digits.length_bytes 2 w.hour)
  have ha : Numeral.isDigit a = true := Digits.isDigit_of_mem_bytes (show a ∈ Digits.bytes 2 w.hour by simp [hab])
  rw [encode_timeChars, hab, List.dropWhile_cons_of_pos (by cases w.blank <;> decide), List.cons_append,
    List.dropWhile_cons_of_neg]
  simp [Numeral.isBlank_of_isDigit ha, Numeral.ne_of_isDigit ha (show Numeral.isDigit 0x54 = false by decide)]

/-- The instant of a time consists of its day and minute and of the rest of the minute. -/
theorem ofNanos_nanos (w : Writing) : ofNanos w.nanos = unixStart + w.date.number * millisOfDay +
    (w.hour * 3600000 + w.minute * 60000 + millisNear w.second w.fraction - w.zone.ahead * 60000) := by
  obtain ⟨-, -, hsecond⟩ := w.clock
  have hfraction := w.fraction_lt
  have hminutes : w.nanos / 60000000000 = (w.date.number * 24 + w.hour) * 60 + w.minute - w.zone.ahead := by
    unfold Writing.nanos
    omega
  have hrest : (w.nanos % 60000000000 / 1000000000).toNat = w.second ∧ (w.nanos % 1000000000).toNat = w.fraction := by
    unfold Writing.nanos
    omega
  rw [ofNanos, hminutes, hrest.1, hrest.2]
  unfold millisOfDay
  omega

/-- A time is read as the instant that it names. -/
theorem dated?_text (w : Writing) : dated? (bytesOf w.text) = some (ofNanos w.nanos) := by
  obtain ⟨hyear, hyear'⟩ := w.year
  obtain ⟨hmonth, hmonth', hday, hday'⟩ := w.date.bounds
  have hcentury := fun rest => pair?_bytes (Nat.zero_le _)
    (show w.date.year.toNat / 100 ≤ 99 by omega) (show w.date.year.toNat / 100 < 100 by omega) rest
  obtain ⟨a, b, hab⟩ := List.length_eq_two.mp (Digits.length_bytes 2 (w.date.year.toNat / 100))
  have ha : Numeral.isDigit a = true :=
    Digits.isDigit_of_mem_bytes (show a ∈ Digits.bytes 2 (w.date.year.toNat / 100) by simp [hab])
  have hsame : 1 * ((w.date.year.toNat / 100 * 100 + w.date.year.toNat % 100 : Nat) : Int) = w.date.year := by omega
  rw [bytesOf_text]
  rw [hab] at hcentury ⊢
  unfold dated?
  split
  next sign rest hsign =>
    split at hsign
    next heq => exact absurd (List.cons.inj heq).1 (Numeral.ne_of_isDigit ha (by decide))
    next =>
      cases hsign
      simp only [hcentury, bind, Option.bind, byte?_cons, pair?_bytes (Nat.zero_le _) (show w.date.year.toNat % 100 ≤ 99 by omega)
        (show w.date.year.toNat % 100 < 100 by omega), pair?_bytes hmonth hmonth' (show w.date.month < 100 by omega),
        pair?_bytes hday hday' (show w.date.day < 100 by omega), dropWhile_timeChars, hsame]
      split
      next hnil =>
        rw [encode_timeChars] at hnil
        simp at hnil
      next =>
        simp only [time?_written, Option.map_some, if_pos (show -4713 ≤ w.date.year by omega), ofDay_eq, ofNanos_nanos]

/-- No byte of a time ends the text before its end. -/
theorem takeWhile_text (w : Writing) : (bytesOf w.text).takeWhile (· ≠ 0) = bytesOf w.text := by
  have hbytes : ∀ {width n : Nat}, ∀ b ∈ Digits.bytes width n, b ≠ 0 := fun b hb =>
    Numeral.ne_of_isDigit (Digits.isDigit_of_mem_bytes hb) (by decide)
  have hpoint : ∀ b ∈ Utf8.encode w.point, b ≠ 0 := by
    unfold Writing.point
    split
    · exact fun b hb => nomatch hb
    · rw [Digits.encode_point, List.forall_mem_cons]
      exact ⟨by decide, hbytes⟩
  have hzone : ∀ b ∈ Utf8.encode w.zone.chars, b ≠ 0 := by
    cases w.zone with
    | missing => exact fun b hb => nomatch hb
    | universal => exact fun b hb => by cases List.mem_singleton.mp hb; decide
    | offset behind hours minutes real =>
      rw [encode_offset, List.forall_mem_cons, List.forall_mem_append, List.forall_mem_cons]
      exact ⟨by split <;> decide, hbytes, by decide, hbytes⟩
  have hall : ∀ b ∈ bytesOf w.text, b ≠ 0 := by
    rw [bytesOf_text, encode_timeChars]
    simp only [List.forall_mem_append, List.forall_mem_cons]
    exact ⟨hbytes, hbytes, by decide, hbytes, by decide, hbytes, by split <;> decide, hbytes, by decide, hbytes, by decide, hbytes,
      hpoint, hzone⟩
  rw [List.takeWhile_eq_self_iff]
  exact fun b hb => decide_eq_true (hall b hb)

/-- A time of these years lies within the count. -/
theorem ofNanos_bounds (w : Writing) : 0 ≤ ofNanos w.nanos ∧ ofNanos w.nanos ≤ lastMilli := by
  obtain ⟨hyear, hyear'⟩ := w.year
  obtain ⟨hmonth, hmonth', hday, hday'⟩ := w.date.bounds
  obtain ⟨hhour, hminute, hsecond⟩ := w.clock
  obtain ⟨hbehind, hahead⟩ := w.zone.ahead_bounds
  have hfraction := w.fraction_lt
  have hnumber : -719468 ≤ w.date.number ∧ w.date.number ≤ 2932593 := by
    rw [Date.number_eq]
    unfold Date.count
    simp only
    omega
  have hnanos : -62167305600000000000 ≤ w.nanos ∧ w.nanos ≤ 253376200000000000000 := by
    unfold Writing.nanos
    omega
  have hnear := ofNanos_near w.nanos
  unfold unixStart at hnear
  unfold lastMilli
  omega

/-- However an instant is written, it is ordered in the same way. -/
theorem ofCell?_text (w : Writing) (now : Int) : ofCell? now (.ofString w.text) = some (ofNanos w.nanos) := by
  obtain ⟨hfirst, hlast⟩ := ofNanos_bounds w
  unfold ofCell? Cell.ofString ofText?
  simp only [takeWhile_text, dated?_text, Option.filter_some, hfirst, hlast]
  rfl

/-- A timestamp that a clock showed is stored in one of these ways. -/
theorem exists_writing {t : Timestamp} (h : t.IsReading) : ∃ w : Writing, w.text = t.stored ∧ w.nanos = t.unixNanos := by
  obtain ⟨hhour, hminute, hsecond, -⟩ := Timestamp.timeOfDay_bounds t.time
  have hclock : t.time.hour < 24 ∧ t.time.minute < 60 ∧ t.time.second < 60 := ⟨hhour, hminute, hsecond⟩
  have htext : t.stored = String.ofList (Timestamp.dateDigits t.date ++ 'T' :: (Digits.fixed 2 t.time.hour ++
      ':' :: (Digits.fixed 2 t.time.minute ++ ':' :: (Digits.fixed 2 t.time.second ++ (Timestamp.fraction t.time.nanos ++
        ['+', '0', '0', ':', '0', '0']))))) := by
    have hleap : ¬1000000000 ≤ t.time.nanos := by have hnanos := h.nanos; omega
    simp only [Timestamp.stored, Timestamp.written, Timestamp.timeDigits, if_neg hleap, List.append_assoc, List.cons_append]
  rw [htext]
  -- the digits are those of the fraction that is written, in universal time
  have hwriting : ∀ width n, width ≤ 9 → n < 10 ^ width → n * 10 ^ (9 - width) = t.time.nanos →
      (if width = 0 then [] else '.' :: Digits.fixed width n) = Timestamp.fraction t.time.nanos → ∃ w : Writing,
        w.text = String.ofList (Timestamp.dateDigits t.date ++ 'T' :: (Digits.fixed 2 t.time.hour ++
          ':' :: (Digits.fixed 2 t.time.minute ++ ':' :: (Digits.fixed 2 t.time.second ++ (Timestamp.fraction t.time.nanos ++
            ['+', '0', '0', ':', '0', '0']))))) ∧ w.nanos = t.unixNanos := by
    intro width n hshort hfits hvalue hpoint
    refine ⟨⟨t.date, false, t.time.hour, t.time.minute, t.time.second, width, n, .offset false 0 0 (by decide), h.year, hclock,
      hshort, hfits⟩, ?_, ?_⟩
    · rw [← hpoint]
      rfl
    · simp only [Writing.nanos, Writing.fraction, hvalue, Zone.ahead, Timestamp.unixNanos, Timestamp.unixSeconds]
      omega
  obtain ⟨hzero, hnone⟩ | ⟨width, n, hwidth, hdigits, hvalue, hfraction⟩ := Timestamp.fraction_cases h.nanos
  · exact hwriting 0 0 (by decide) (by decide) (by rw [hzero, Nat.zero_mul]) hnone.symm
  · simp only [List.mem_cons, List.not_mem_nil, or_false] at hwidth
    exact hwriting width n (by omega) hdigits hvalue (by rw [hfraction, if_neg (by omega)])

/-- A timestamp that a clock showed is stored as the instant that it is. -/
theorem ofCell?_stored {t : Timestamp} (h : t.IsReading) (now : Int) :
    ofCell? now (.ofString t.stored) = some (ofNanos t.unixNanos) := by
  obtain ⟨w, htext, hnanos⟩ := exists_writing h
  rw [← htext, ofCell?_text, hnanos]

end JulianDay
end ReviewQueue
