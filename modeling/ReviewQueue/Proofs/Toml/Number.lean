import ReviewQueue.Proofs.Time.Stored
import ReviewQueue.Toml.Document

/-!
# Reading back integers

The decimal digits of an integer of 64 bits without a sign are read as that integer, if the line ends behind them. Such digits could
start a date, a time or a number with a fraction; none of these is read, for want of the dash, colon, point or exponent that would
have to follow.
-/

namespace ReviewQueue.Toml

/-- Decimal digits, at least one. -/
structure IsNumeral (ds : List Char) : Prop where
  ne_nil : ds ≠ []
  digits : ∀ c ∈ ds, c.isDigit = true

theorem isNumeral_toDigits (n : Nat) : IsNumeral (Nat.toDigits 10 n) where
  ne_nil := Nat.toDigits_ne_nil
  digits _ hc := Nat.isDigit_of_mem_toDigits (by decide) (by decide) hc

/-- Only the digits of zero start with a zero. -/
theorem toDigits_ne_zero {n : Nat} (hn : 0 < n) (t : List Char) : Nat.toDigits 10 n ≠ '0' :: t := by
  induction n using Nat.strongRecOn generalizing t with
  | ind n ih =>
    have hdigit : ∀ d, d < 10 → 0 < d → Nat.digitChar d ≠ '0' := by decide
    intro h
    rw [Nat.toDigits_eq_if (by decide)] at h
    split at h
    next hsmall => exact hdigit n hsmall hn (List.cons.inj h).1
    next hlarge =>
      obtain ⟨c, ds, hds⟩ := List.exists_cons_of_ne_nil (Nat.toDigits_ne_nil (n := n / 10) (b := 10))
      rw [hds, List.cons_append] at h
      rw [(List.cons.inj h).1] at hds
      exact ih (n / 10) (by omega) (by omega) ds hds

/-- The value of decimal digits is the number they stand for. -/
theorem valueIn_toDigits (n : Nat) : valueIn 10 (Nat.toDigits 10 n) = n := by
  have hfold : ∀ (ds : List Char) (start : Nat), (∀ c ∈ ds, c.isDigit = true) →
      ds.foldl (fun n c => 10 * n + (Digits.hexValue? c).getD 0) start = Nat.ofDigitChars 10 ds start := by
    intro ds
    induction ds with
    | nil => intro start _; rfl
    | cons c ds ih =>
      intro start hds
      have hc : (Digits.hexValue? c).getD 0 = c.toNat - '0'.toNat := by
        rw [Digits.hexValue?, if_pos (hds c (by simp))]
        rfl
      rw [List.foldl_cons, hc, Nat.ofDigitChars_cons]
      exact ih _ fun x hx => hds x (by simp [hx])
  rw [valueIn, hfold _ 0 (isNumeral_toDigits n).digits, Nat.ofDigitChars_ten_toDigits]

section

variable {ds : List Char} (rest : List Char)

/-- Behind digits, there is nothing but digits and the end of the line. -/
theorem after?_digits (hds : ∀ c ∈ ds, c.isDigit = true) (mark : Char) (hmark : mark.isDigit = false) (hline : mark ≠ '\n') :
    Mark.after? mark (ds ++ '\n' :: rest) = none := by
  cases ds with
  | nil => rw [List.nil_append, Mark.after?, if_neg hline.symm]
  | cons c ds =>
    rw [List.cons_append, Mark.after?, if_neg]
    rintro rfl
    exact Bool.false_ne_true (hmark.symm.trans (hds _ (by simp)))

/-- What is left of digits after some of them are digits. -/
theorem exists_of_readWidth? {width n : Nat} {s : List Char} (hds : ∀ c ∈ ds, c.isDigit = true)
    (h : readWidth? width (ds ++ '\n' :: rest) = some (n, s)) : ∃ es, s = es ++ '\n' :: rest ∧ ∀ c ∈ es, c.isDigit = true := by
  have hsplit : ds ++ '\n' :: rest = ds.take width ++ (ds.drop width ++ '\n' :: rest) := by
    rw [← List.append_assoc, List.take_append_drop]
  have hends : (ds.take width).length = width ∨ Digits.Ends (ds.drop width ++ '\n' :: rest) := by
    by_cases hlong : width ≤ ds.length
    · exact Or.inl (List.length_take_of_le hlong)
    · rw [List.drop_of_length_le (by omega)]
      exact Or.inr (Digits.ends_cons (by decide))
  have hspan := Digits.span_append (fun c hc => hds c (List.mem_of_mem_take hc)) (List.length_take_le _ _) hends
  rw [← hsplit] at hspan
  unfold readWidth? at h
  rw [hspan] at h
  simp only [Option.ite_none_right_eq_some, Option.some.injEq, Prod.mk.injEq] at h
  exact ⟨ds.drop width, h.2.2.symm, fun c hc => hds c (List.mem_of_mem_drop hc)⟩

theorem exists_of_readPair? {low high n : Nat} {s : List Char} (hds : ∀ c ∈ ds, c.isDigit = true)
    (h : readPair? low high (ds ++ '\n' :: rest) = some (n, s)) : ∃ es, s = es ++ '\n' :: rest ∧ ∀ c ∈ es, c.isDigit = true := by
  unfold readPair? at h
  split at h
  next heq =>
    simp only [Option.ite_none_right_eq_some, Option.some.injEq, Prod.mk.injEq] at h
    obtain ⟨-, -, rfl⟩ := h
    exact exists_of_readWidth? rest hds heq
  next => cases h

/-- Digits are no date and no time of day. -/
theorem afterMoment?_digits (hds : ∀ c ∈ ds, c.isDigit = true) : afterMoment? (ds ++ '\n' :: rest) = none := by
  have hdate : afterDate? (ds ++ '\n' :: rest) = none := by
    unfold afterDate?
    cases hyear : readWidth? 4 (ds ++ '\n' :: rest) with
    | none => rfl
    | some found =>
      obtain ⟨es, hs, hes⟩ := exists_of_readWidth? (s := found.2) rest hds hyear
      simp only [bind, Option.bind, hs, after?_digits rest hes '-' (by decide) (by decide)]
  have htime : afterTime? (ds ++ '\n' :: rest) = none := by
    unfold afterTime?
    cases hhour : readPair? 0 23 (ds ++ '\n' :: rest) with
    | none => rfl
    | some found =>
      obtain ⟨es, hs, hes⟩ := exists_of_readPair? (s := found.2) rest hds hhour
      simp only [bind, Option.bind, hs, after?_digits rest hes ':' (by decide) (by decide)]
  unfold afterMoment?
  rw [hdate, htime]

/-- A digit without an underscore behind it is read in front of the digits that follow, if any do. -/
theorem readDigits?_cons {c : Char} (hc : c.isDigit = true) {s : List Char} (hs : ∀ t, s ≠ '_' :: t) :
    readDigits? Char.isDigit (c :: s) =
      some (((readDigits? Char.isDigit s).map fun (ds, rest) => (c :: ds, rest)).getD ([c], s)) := by
  rw [readDigits?, if_pos hc]
  · cases readDigits? Char.isDigit s with
    | none => rfl
    | some found => rfl
  · exact hs

/-- Digits are read up to the end of the line. -/
theorem readDigits?_numeral (hds : IsNumeral ds) : readDigits? Char.isDigit (ds ++ '\n' :: rest) = some (ds, '\n' :: rest) := by
  obtain ⟨hne, hdigits⟩ := hds
  induction ds with
  | nil => exact absurd rfl hne
  | cons c ds ih =>
    have hc := hdigits c (by simp)
    cases ds with
    | nil =>
      have hend : readDigits? Char.isDigit ('\n' :: rest) = none := by
        unfold readDigits?
        rw [if_neg (by decide)]
      rw [List.cons_append, List.nil_append, readDigits?_cons hc (by simp), hend]
      rfl
    | cons d ds =>
      have hd : d ≠ '_' := by
        rintro rfl
        exact absurd (hdigits '_' (by simp)) (by decide)
      have htail := ih (by simp) fun x hx => hdigits x (by simp [hx])
      rw [List.cons_append, readDigits?_cons hc (by simp [hd]), htail]
      rfl

/-- A number starts with a digit. -/
theorem exists_head {ds : List Char} (hds : IsNumeral ds) (rest : List Char) :
    ∃ c t, ds ++ rest = c :: t ∧ c.isDigit = true := by
  obtain ⟨c, t, rfl⟩ := List.exists_cons_of_ne_nil hds.ne_nil
  exact ⟨c, t ++ rest, rfl, hds.digits c (by simp)⟩

theorem readSign_digit {c : Char} (hc : c.isDigit = true) (s : List Char) : readSign (c :: s) = (1, c :: s) := by
  unfold readSign
  split
  next heq =>
    cases heq
    exact absurd hc (by decide)
  next heq =>
    cases heq
    exact absurd hc (by decide)
  next => rfl

theorem readSign_numeral (hds : IsNumeral ds) : readSign (ds ++ '\n' :: rest) = (1, ds ++ '\n' :: rest) := by
  obtain ⟨c, t, h, hc⟩ := exists_head hds ('\n' :: rest)
  rw [h, readSign_digit hc]

/-- Digits are not one of the words for a number. -/
theorem afterSpecial?_numeral (hds : IsNumeral ds) : afterSpecial? (ds ++ '\n' :: rest) = none := by
  obtain ⟨c, t, h, hc⟩ := exists_head hds ('\n' :: rest)
  unfold afterSpecial?
  rw [readSign_numeral rest hds, h]
  split
  next heq =>
    cases heq
    exact absurd hc (by decide)
  next heq =>
    cases heq
    exact absurd hc (by decide)
  next => rfl

/-- The digits of a number are read up to the end of the line, none of them being a zero in front. -/
theorem readDecimal?_toDigits (n : Nat) :
    readDecimal? (Nat.toDigits 10 n ++ '\n' :: rest) = some (Nat.toDigits 10 n, '\n' :: rest) := by
  rcases Nat.eq_zero_or_pos n with rfl | hn
  · rfl
  · unfold readDecimal?
    split
    next heq =>
      obtain ⟨c, t, hds⟩ := List.exists_cons_of_ne_nil (Nat.toDigits_ne_nil (n := n) (b := 10))
      rw [hds, List.cons_append] at heq
      rw [(List.cons.inj heq).1] at hds
      exact absurd hds (toDigits_ne_zero hn t)
    next => exact readDigits?_numeral rest (isNumeral_toDigits n)

/-- The digits of a number have neither fraction nor exponent. -/
theorem afterFloat?_toDigits (n : Nat) : afterFloat? (Nat.toDigits 10 n ++ '\n' :: rest) = none := by
  have hfraction : readFraction? ('\n' :: rest) = none := rfl
  have hexponent : readExponent? ('\n' :: rest) = none := by
    rw [readExponent?, if_neg (by decide)]
  unfold afterFloat?
  simp only [readSign_numeral rest (isNumeral_toDigits n), readDecimal?_toDigits, bind, Option.bind, hfraction, hexponent,
    Bool.not_false, if_true]

/-- The letter of a base follows no digit of a decimal number. -/
theorem numeral_ne_based (hds : IsNumeral ds) {letter : Char} (hletter : letter.isDigit = false) (hline : letter ≠ '\n')
    (s : List Char) :
    ds ++ '\n' :: rest ≠ '0' :: letter :: s := by
  obtain ⟨c, es, rfl⟩ := List.exists_cons_of_ne_nil hds.ne_nil
  intro h
  cases es with
  | nil => exact hline (List.cons.inj (List.cons.inj h).2).1.symm
  | cons d es =>
    have hd := hds.digits d (by simp)
    rw [(List.cons.inj (List.cons.inj h).2).1] at hd
    exact Bool.false_ne_true (hletter.symm.trans hd)

/-- A number of 64 bits with a sign is read back from its digits. -/
theorem readInteger?_toDigits {n : Nat} (hn : (n : Int) ≤ Int64.maxValue.toInt) :
    readInteger? (Nat.toDigits 10 n ++ '\n' :: rest) = some ((n : Int), '\n' :: rest) := by
  have hds := isNumeral_toDigits n
  have hfit : fit? (1 * (n : Int)) = some (n : Int) := by
    rw [Int.one_mul, fit?, if_pos ⟨Int.le_trans (by decide) (Int.natCast_nonneg n), hn⟩]
  unfold readInteger?
  split
  next heq => exact absurd heq (numeral_ne_based rest hds (by decide) (by decide) _)
  next heq => exact absurd heq (numeral_ne_based rest hds (by decide) (by decide) _)
  next heq => exact absurd heq (numeral_ne_based rest hds (by decide) (by decide) _)
  next =>
    simp only [readSign_numeral rest hds, readDecimal?_toDigits, valueIn_toDigits, hfit, bind, Option.bind, pure]

/-- A number of 64 bits with a sign is read back as a value. -/
theorem readValue?_toDigits (depth : Nat) {n : Nat} (hn : (n : Int) ≤ Int64.maxValue.toInt) :
    readValue? depth (Nat.toDigits 10 n ++ '\n' :: rest) = some (.int n, '\n' :: rest) := by
  have hds := isNumeral_toDigits n
  have hnumber : readNumber? (Nat.toDigits 10 n ++ '\n' :: rest) = some (.int n, '\n' :: rest) := by
    unfold readNumber?
    rw [afterMoment?_digits rest hds.digits, afterFloat?_toDigits, afterSpecial?_numeral rest hds, readInteger?_toDigits rest hn]
    rfl
  obtain ⟨c, t, h, hc⟩ := exists_head hds ('\n' :: rest)
  have hne : ∀ x : Char, x.isDigit = false → c ≠ x := by
    rintro x hx rfl
    exact Bool.false_ne_true (hx.symm.trans hc)
  rw [h] at hnumber ⊢
  unfold readValue?
  rw [if_neg (by simp [hne]), if_neg (hne _ (by decide)), if_neg (hne _ (by decide)), if_pos (by simp [hc]), hnumber]

end

end ReviewQueue.Toml
