import Mathlib.Tactic.IntervalCases
import ReviewQueue.Proofs.Time.Stored

/-!
# Times in writing

The same instant can be written in many ways: with a `T` or a blank, with a fraction of any length up to nine digits, in
universal time or with the offset of a place, which may put it on another day. A `Writing` is any of these, and names one
instant. The reader of tables reads it as that instant.
-/

namespace ReviewQueue

/-- How the zone of a time is written. -/
inductive Zone where
  /-- Nothing is written, which means universal time. -/
  | missing
  | universal
  /-- The hours and minutes by which a place is ahead of universal time, or behind it, 14 hours at most. -/
  | offset (behind : Bool) (hours minutes : Nat) (real : minutes < 60 ∧ hours * 60 + minutes ≤ 840)

namespace Zone

/-- The minutes by which clocks of a zone are ahead of universal time. -/
def ahead : Zone → Int
  | missing | universal => 0
  | offset behind hours minutes _ => if behind then -(hours * 60 + minutes : Nat) else (hours * 60 + minutes : Nat)

/-- A zone as it is written. -/
def chars : Zone → List Char
  | missing => []
  | universal => ['Z']
  | offset behind hours minutes _ =>
    (if behind then '-' else '+') :: (Digits.fixed 2 hours ++ ':' :: Digits.fixed 2 minutes)

/-- A zone is fourteen hours from universal time at most. -/
theorem ahead_bounds (z : Zone) : -840 ≤ z.ahead ∧ z.ahead ≤ 840 := by
  cases z with
  | missing | universal => exact ⟨by decide, by decide⟩
  | offset behind hours minutes real =>
    unfold ahead
    split <;> omega

/-- What a zone starts with is neither a digit nor a point. -/
theorem chars_eq_cons {z : Zone} {c : Char} {rest : List Char} (h : z.chars = c :: rest) : c = 'Z' ∨ c = '-' ∨ c = '+' := by
  cases z with
  | missing => cases h
  | universal =>
    cases h
    exact Or.inl rfl
  | offset behind hours minutes real =>
    cases h
    cases behind
    · exact Or.inr (Or.inr rfl)
    · exact Or.inr (Or.inl rfl)

/-- A zone does not start with a digit, -/
theorem ends_chars (z : Zone) : Digits.Ends z.chars := by
  intro c rest h
  rcases chars_eq_cons h with rfl | rfl | rfl <;> rfl

/-- nor with a point, -/
theorem chars_ne_point (z : Zone) : ∀ rest, z.chars ≠ '.' :: rest := by
  intro rest h
  rcases chars_eq_cons h with hc | hc | hc <;> cases hc

/-- nor with a blank. -/
theorem skip_chars (z : Zone) : Blank.skip z.chars = z.chars := by
  cases h : z.chars with
  | nil => rfl
  | cons c rest =>
    have hblank : Blank.isBlank c = false := by rcases chars_eq_cons h with rfl | rfl | rfl <;> decide
    exact skip_of_not_blank hblank rest

end Zone

/-- A time in writing: a day of the years 1 to 9998, a `T` or a blank, a time of day that is no leap second, perhaps a point and
up to nine digits, and a zone. -/
structure Writing where
  date : Date
  blank : Bool
  hour : Nat
  minute : Nat
  second : Nat
  /-- The count of digits after the point; there is no point if there is none. -/
  width : Nat
  /-- The number that these digits stand for. -/
  digits : Nat
  zone : Zone
  year : 1 ≤ date.year ∧ date.year ≤ 9998
  clock : hour < 24 ∧ minute < 60 ∧ second < 60
  short : width ≤ 9
  fits : digits < 10 ^ width

namespace Writing

/-- The nanoseconds that the digits after the point stand for. -/
def fraction (w : Writing) : Nat := w.digits * 10 ^ (9 - w.width)

/-- The instant that is written, in nanoseconds since 1970-01-01 in universal time. -/
def nanos (w : Writing) : Int :=
  (((w.date.number * 24 + w.hour) * 60 + w.minute - w.zone.ahead) * 60 + w.second) * 1000000000 + w.fraction

/-- The point and what follows it up to the zone. -/
def point (w : Writing) : List Char := if w.width = 0 then [] else '.' :: Digits.fixed w.width w.digits

/-- The time of day and the zone. -/
def timeChars (w : Writing) : List Char :=
  Digits.fixed 2 w.hour ++ ':' :: (Digits.fixed 2 w.minute ++ ':' :: (Digits.fixed 2 w.second ++ (w.point ++ w.zone.chars)))

/-- The text of a time. -/
def text (w : Writing) : String :=
  String.ofList (Timestamp.dateDigits w.date ++ (if w.blank then ' ' else 'T') :: w.timeChars)

/-- A fraction is less than a second. -/
theorem fraction_lt (w : Writing) : w.fraction < 1000000000 := by
  unfold fraction
  rw [← Digits.scale_eq w.short]
  exact Nat.mul_lt_mul_of_pos_right w.fits (Nat.pow_pos (by omega))

end Writing

/-! ## The calendar -/

namespace Date

/-- The number of a day as the leap years before it count it, its year starting in March. -/
def count (year : Int) (month day : Nat) : Int :=
  let march := if month ≤ 2 then year - 1 else year
  let fromMarch : Int := if month ≤ 2 then month + 9 else month - 3
  365 * march + march / 4 - march / 100 + march / 400 + (153 * fromMarch + 2) / 5 + day - 719469

theorem number_eq (d : Date) : d.number = count d.year d.month d.day := by
  unfold number count
  simp only
  omega

/-- The day after is counted one more. -/
theorem count_add_one (year : Int) (month day : Nat) : count year month (day + 1) = count year month day + 1 := by
  unfold count
  simp only
  omega

/-- After the last day of a month comes the first of the next one. -/
theorem count_month (year : Int) (month : Nat) (h : 1 ≤ month) (h' : month < 12) :
    count year (month + 1) 1 = count year month (daysOfMonth year month) + 1 := by
  by_cases hfebruary : month = 2
  · -- the one month that a leap year makes longer
    subst hfebruary
    unfold count daysOfMonth isLeapYear
    simp only [decide_eq_true_eq, Bool.and_eq_true, Bool.or_eq_true, Nat.reduceAdd, Nat.reduceLeDiff, if_true, if_false]
    split <;> omega
  · unfold count daysOfMonth
    interval_cases month <;> simp at hfebruary ⊢ <;> omega

/-- After the last day of a year comes the first of the next one. -/
theorem count_year (year : Int) : count (year + 1) 1 1 = count year 12 31 + 1 := by
  unfold count
  simp only [Nat.reduceLeDiff, if_true, if_false]
  omega

/-- The numbers of a real date are a date. -/
theorem of?_eq {year : Int} {month day : Nat} (h : isReal year month day = true) : of? year month day = some ⟨year, month, day, h⟩ :=
  dif_pos h

/-- The day after has the next number. -/
theorem exists_next (d : Date) (h : d.year < lastYear) : ∃ e, d.next? = some e ∧ e.number = d.number + 1 := by
  obtain ⟨hfirst, hlast, hmonth, hmonth', hday, hday'⟩ := isReal_iff.mp d.real
  have hdays := daysOfMonth_bounds d.year (d.month + 1)
  unfold next?
  simp only [number_eq]
  split
  next hmore =>
    have hreal : isReal d.year d.month (d.day + 1) = true := isReal_iff.mpr ⟨hfirst, hlast, hmonth, hmonth', by omega, hmore⟩
    exact ⟨_, of?_eq hreal, count_add_one _ _ _⟩
  next hmore =>
    have hfull : d.day = daysOfMonth d.year d.month := by omega
    split
    next hmonth'' =>
      have hreal : isReal d.year (d.month + 1) 1 = true :=
        isReal_iff.mpr ⟨hfirst, hlast, by omega, by omega, Nat.le_refl 1, hdays.1⟩
      refine ⟨_, of?_eq hreal, ?_⟩
      rw [hfull]
      exact count_month d.year d.month hmonth hmonth''
    next hmonth'' =>
      have hreal : isReal (d.year + 1) 1 1 = true :=
        isReal_iff.mpr ⟨by omega, by omega, by omega, by omega, Nat.le_refl 1, (daysOfMonth_bounds _ _).1⟩
      have hdecember : d.month = 12 := by omega
      refine ⟨_, of?_eq hreal, ?_⟩
      rw [hfull, hdecember]
      exact count_year d.year

/-- The day before has the number before. -/
theorem exists_previous (d : Date) (h : firstYear < d.year) : ∃ e, d.previous? = some e ∧ e.number = d.number - 1 := by
  obtain ⟨hfirst, hlast, hmonth, hmonth', hday, hday'⟩ := isReal_iff.mp d.real
  unfold previous?
  simp only [number_eq]
  split
  next hmore =>
    have hreal : isReal d.year d.month (d.day - 1) = true := isReal_iff.mpr ⟨hfirst, hlast, hmonth, hmonth', by omega, by omega⟩
    have hcount := count_add_one d.year d.month (d.day - 1)
    rw [Nat.sub_add_cancel hday] at hcount
    exact ⟨_, of?_eq hreal, by simp only; omega⟩
  next hmore =>
    have hone : d.day = 1 := by omega
    split
    next hmonth'' =>
      have hreal : isReal d.year (d.month - 1) (daysOfMonth d.year (d.month - 1)) = true :=
        isReal_iff.mpr ⟨hfirst, hlast, by omega, by omega, (daysOfMonth_bounds _ _).1, Nat.le_refl _⟩
      have hcount := count_month d.year (d.month - 1) (by omega) (by omega)
      rw [Nat.sub_add_cancel hmonth] at hcount
      exact ⟨_, of?_eq hreal, by simp only [hone]; omega⟩
    next hmonth'' =>
      have hreal : isReal (d.year - 1) 12 31 = true :=
        isReal_iff.mpr ⟨by omega, by omega, by omega, by omega, by omega, Nat.le_refl 31⟩
      have hjanuary : d.month = 1 := by omega
      have hcount := count_year (d.year - 1)
      rw [Int.sub_add_cancel] at hcount
      exact ⟨_, of?_eq hreal, by simp only [hone, hjanuary]; omega⟩

end Date

namespace Timestamp

/-- The instant at which clocks of an offset show a day and a time is as much earlier as they are ahead. -/
theorem exists_ofLocal (date : Date) (time : TimeOfDay) (offset : Int) (hyear : Date.firstYear < date.year ∧ date.year < Date.lastYear)
    (hoffset : -1440 < offset ∧ offset < 1440) : ∃ t, ofLocal? date time offset = some t ∧
      t.unixNanos = (Timestamp.mk date time).unixNanos - offset * 60000000000 := by
  obtain ⟨hhour, hminute, hsecond, hnanos⟩ := timeOfDay_bounds time
  obtain ⟨e, he, hbefore⟩ := date.exists_previous hyear.1
  obtain ⟨f, hf, hafter⟩ := date.exists_next hyear.2
  unfold ofLocal?
  generalize hminutes : ((time.hour : Int) * 60 + time.minute - offset) = minutes
  have hreal : TimeOfDay.isReal ((minutes % 1440).toNat / 60) ((minutes % 1440).toNat % 60) time.second time.nanos = true := by
    simp only [TimeOfDay.isReal, Bool.and_eq_true, decide_eq_true_eq]
    omega
  simp only [TimeOfDay.of?, dif_pos hreal, he, hf, Option.map_some]
  split
  next => exact ⟨_, rfl, by simp only [unixNanos, unixSeconds]; omega⟩
  next =>
    split
    next => exact ⟨_, rfl, by simp only [unixNanos, unixSeconds]; omega⟩
    next => exact ⟨_, rfl, by simp only [unixNanos, unixSeconds]; omega⟩

/-- The hours and minutes of an offset are read to the end. -/
theorem readHoursMinutes?_fixed {hours minutes : Nat} (hhours : hours < 100) (hminutes : minutes < 60) :
    readHoursMinutes? true (Digits.fixed 2 hours ++ ':' :: Digits.fixed 2 minutes) = some (hours * 60 + minutes, []) := by
  have htwo : ∀ n, Digits.fixed 2 n = [Digits.last (n / 10), Digits.last n] := fun _ => rfl
  have htens : ∀ d, d < 6 → (decide ('0' ≤ Digits.last d) && decide (Digits.last d ≤ '5')) = true := by decide
  have hvalue := Digits.value_fixed (show hours < 10 ^ 2 from hhours)
  have hvalue' := Digits.value_fixed (show minutes < 10 ^ 2 by omega)
  have hdigit := Digits.isDigit_last
  have hcolon : ∀ n, (Digits.last n = ':') = False := fun n => eq_false fun h => by
    have hd := hdigit n
    rw [h] at hd
    cases hd
  have hdrop : (':' :: Digits.fixed 2 minutes).dropWhile (fun c => decide (c = ':') || Blank.isBlank c) = Digits.fixed 2 minutes := by
    rw [List.dropWhile_cons_of_pos (by decide), htwo, List.dropWhile_cons_of_neg]
    simp [isBlank_of_isDigit (hdigit _), hcolon]
  rw [htwo] at hvalue hvalue' hdrop
  rw [htwo hours, htwo minutes]
  simp only [List.cons_append, List.nil_append, readHoursMinutes?, hdigit, Bool.and_self, if_true, hdrop,
    htens (minutes / 10) (by omega), hvalue, hvalue']

/-- A zone is read to the end, if anything is written. -/
theorem readOffset?_chars (z : Zone) :
    z.chars = [] ∧ z.ahead = 0 ∨ readOffset? true z.chars = some (z.ahead, []) := by
  cases z with
  | missing => exact Or.inl ⟨rfl, rfl⟩
  | universal => exact Or.inr rfl
  | offset behind hours minutes real =>
    have hread := readHoursMinutes?_fixed (show hours < 100 by omega) real.1
    refine Or.inr ?_
    unfold Zone.chars Zone.ahead readOffset?
    cases behind <;> simp [sign?, hread]

end Timestamp

namespace Writing

/-- The fraction is read as it was written. -/
theorem readFraction?_point (w : Writing) : Timestamp.readFraction? (w.point ++ w.zone.chars) = some (w.fraction, w.zone.chars) := by
  have hfits := w.fits
  unfold point fraction
  split
  next hnone =>
    rw [hnone, Nat.pow_zero] at hfits
    rw [show w.digits = 0 by omega, Nat.zero_mul, List.nil_append]
    exact Timestamp.readFraction?_none w.zone.chars_ne_point
  next hsome => exact Timestamp.readFraction?_digits (Nat.pos_of_ne_zero hsome) w.short hfits w.zone.ends_chars

/-- The day and the time of day that are written, as the clocks of the zone show them. -/
theorem readStored?_text (w : Writing) : Timestamp.readStored? (bytesOf w.text) w.text.toList =
    some (⟨w.date.year, w.date.month, w.date.day⟩, ⟨w.hour, w.minute, w.second, w.fraction⟩, w.zone.chars) := by
  obtain ⟨hhour, hminute, hsecond⟩ := w.clock
  have htime : Timestamp.readTime? false w.timeChars = some (⟨w.hour, w.minute, w.second, w.fraction⟩, w.zone.chars) :=
    Timestamp.readTime?_fields (by omega) (by omega) (by omega) w.readFraction?_point
  have hten : ∀ rest, (Utf8.encode (Timestamp.dateDigits w.date ++ rest))[10]? = (Utf8.encode rest).head? := fun rest =>
    Timestamp.byte_ten_of_plain (Int.le_trans (by decide) w.year.1) (Int.le_trans w.year.2 (by decide)) rest
  have hletter : (Utf8.encode ('T' :: w.timeChars)).head? = some 0x54 := rfl
  have hblank : (Utf8.encode (' ' :: w.timeChars)).head? ≠ some 0x54 := by
    rw [show (Utf8.encode (' ' :: w.timeChars)).head? = some 0x20 from rfl]
    decide
  have hskip : Blank.skip (' ' :: w.timeChars) = w.timeChars := by
    rw [Blank.skip, List.dropWhile_cons_of_pos (by decide)]
    exact skip_fixed (by omega) _
  unfold Timestamp.readStored? bytesOf text
  rw [String.toList_ofList, hten]
  cases w.blank
  · simp only [bind, Option.bind, pure, Timestamp.readDate?_dateDigits, Bool.false_eq_true, if_false, hletter, if_true,
      Timestamp.after?_cons, htime]
  · simp only [bind, Option.bind, pure, Timestamp.readDate?_dateDigits, if_true, hblank, if_false, hskip, htime]

/-- The instant that is written is read from a table. -/
theorem exists_ofStored (w : Writing) :
    ∃ t, Timestamp.ofStored? (bytesOf w.text) w.text.toList = some t ∧ t.unixNanos = w.nanos := by
  obtain ⟨hhour, hminute, hsecond⟩ := w.clock
  obtain ⟨hfirst, hlast⟩ := w.year
  obtain ⟨hbehind, hahead⟩ := w.zone.ahead_bounds
  have hfraction := w.fraction_lt
  have hreal : TimeOfDay.isReal w.hour w.minute w.second w.fraction = true := by
    simp [TimeOfDay.isReal, hhour, hminute, hsecond, show w.fraction < 2000000000 by omega]
  obtain ⟨t, ht, hnanos⟩ := Timestamp.exists_ofLocal w.date ⟨w.hour, w.minute, w.second, w.fraction, hreal⟩ w.zone.ahead
    ⟨by unfold Date.firstYear; omega, by unfold Date.lastYear; omega⟩ ⟨by omega, by omega⟩
  have hfields : Timestamp.ofFields? ⟨w.date.year, w.date.month, w.date.day⟩ ⟨w.hour, w.minute, w.second, w.fraction⟩ w.zone.ahead =
      some t := by
    have hclock : TimeOfDay.ofClock? w.hour w.minute w.second w.fraction = some ⟨w.hour, w.minute, w.second, w.fraction, hreal⟩ := by
      rw [TimeOfDay.ofClock?, if_neg (by omega), if_pos hfraction, TimeOfDay.of?, dif_pos hreal]
    unfold Timestamp.ofFields?
    simp only [Date.of?_eq w.date.real, hclock, bind, Option.bind]
    rw [if_pos (by omega), ht]
  refine ⟨t, ?_, ?_⟩
  · unfold Timestamp.ofStored?
    simp only [w.readStored?_text, bind, Option.bind, w.zone.skip_chars]
    rcases Timestamp.readOffset?_chars w.zone with ⟨hnone, hzero⟩ | hoffset
    · rw [hzero] at hfields
      simp only [hnone, if_true, hfields]
      rfl
    · simp only [hoffset, hfields]
  · rw [hnanos]
    unfold nanos Timestamp.unixNanos Timestamp.unixSeconds
    simp only
    omega

/-- A text names one instant. -/
theorem nanos_eq_of_text {w w' : Writing} (h : w.text = w'.text) : w.nanos = w'.nanos := by
  obtain ⟨t, ht, hnanos⟩ := w.exists_ofStored
  obtain ⟨t', ht', hnanos'⟩ := w'.exists_ofStored
  rw [h, ht'] at ht
  cases ht
  exact hnanos.symm.trans hnanos'

end Writing
end ReviewQueue
