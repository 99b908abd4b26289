import Mathlib.Data.List.TakeWhile
import ReviewQueue.Proofs.Text.Utf8
import ReviewQueue.Store.Cell
import ReviewQueue.Text.Fields

/-!
# Reading back numerals

The text of an integer spells that integer. So a text that is compared with numbers equals the one it was written for, if that is
one of 64 bits.
-/

namespace ReviewQueue

namespace Numeral

/-- The bytes of the decimal digits of a number. -/
def digitBytes (n : Nat) : Bytes := (Nat.toDigits 10 n).map fun c => .ofNat c.toNat

/-- A digit as a byte: its class and its value. -/
theorem byte_of_isDigit {c : Char} (h : c.isDigit = true) :
    isDigit (.ofNat c.toNat) = true ∧ (UInt8.ofNat c.toNat).toNat = c.toNat := by
  have hc := Utf8.toNat_of_isDigit h
  have hbyte : (UInt8.ofNat c.toNat).toNat = c.toNat := Utf8.toNat_ofNat_of_lt (by omega)
  refine ⟨?_, hbyte⟩
  unfold isDigit
  simp only [Bool.and_eq_true, decide_eq_true_eq, UInt8.le_iff_toNat_le, hbyte]
  exact hc

theorem isDigit_of_mem {n : Nat} {b : UInt8} (h : b ∈ digitBytes n) : isDigit b = true := by
  obtain ⟨c, hc, rfl⟩ := List.mem_map.mp h
  exact (byte_of_isDigit (Nat.isDigit_of_mem_toDigits (by decide) (by decide) hc)).1

theorem digitBytes_ne_nil (n : Nat) : digitBytes n ≠ [] := by
  unfold digitBytes
  rw [Ne, List.map_eq_nil_iff]
  exact Nat.toDigits_ne_nil

/-- Digits stand for the same number as bytes and as characters. -/
theorem digitsValue_map {digits : List Char} (h : ∀ c ∈ digits, c.isDigit = true) :
    digitsValue (digits.map fun c => .ofNat c.toNat) = Digits.value digits := by
  unfold digitsValue Digits.value
  rw [List.foldl_map]
  generalize 0 = start
  induction digits generalizing start with
  | nil => rfl
  | cons c digits ih =>
    rw [List.foldl_cons, List.foldl_cons, digitValue, (byte_of_isDigit (h c (by simp))).2]
    exact ih (fun x hx => h x (by simp [hx])) _

/-- The digits of a number stand for it. -/
theorem digitsValue_digitBytes (n : Nat) : digitsValue (digitBytes n) = n := by
  have hvalue : Digits.value (Nat.toDigits 10 n) = Nat.ofDigitChars 10 (Nat.toDigits 10 n) 0 := rfl
  unfold digitBytes
  rw [digitsValue_map fun c hc => Nat.isDigit_of_mem_toDigits (by decide) (by decide) hc, hvalue, Nat.ofDigitChars_ten_toDigits]

/-- All digits are read, and nothing is left. -/
theorem readDigits_digitBytes (n : Nat) : readDigits (digitBytes n) = (digitBytes n, []) := by
  have hall : ∀ b ∈ digitBytes n, isDigit b = true := fun b hb => isDigit_of_mem hb
  unfold readDigits
  rw [List.takeWhile_eq_self_iff.mpr hall, List.dropWhile_eq_nil_iff.mpr hall]

theorem ne_of_isDigit {b x : UInt8} (h : isDigit b = true) (hx : isDigit x = false) : b ≠ x := by
  rintro rfl
  exact Bool.false_ne_true (hx.symm.trans h)

theorem toNat_of_isDigit {b : UInt8} (h : isDigit b = true) : 0x30 ≤ b.toNat ∧ b.toNat ≤ 0x39 := by
  simpa [isDigit, UInt8.le_iff_toNat_le] using h

/-- A digit is no blank. -/
theorem isBlank_of_isDigit {b : UInt8} (h : isDigit b = true) : isBlank b = false := by
  have hdigit := toNat_of_isDigit h
  simp only [isBlank, ne_of_isDigit h (show isDigit 0x20 = false by decide), decide_false, Bool.false_or,
    Bool.and_eq_false_iff, decide_eq_false_iff_not, UInt8.le_iff_toNat_le, UInt8.reduceToNat]
  omega

/-- A digit is no blank and no sign. -/
theorem readSign_digitBytes (n : Nat) :
    (digitBytes n).dropWhile isBlank = digitBytes n ∧ readSign (digitBytes n) = (false, digitBytes n) := by
  obtain ⟨b, rest, hb⟩ := List.exists_cons_of_ne_nil (digitBytes_ne_nil n)
  have hdigit : isDigit b = true := isDigit_of_mem (n := n) (b := b) (by simp [hb])
  rw [hb]
  constructor
  · exact List.dropWhile_cons_of_neg (by simp [isBlank_of_isDigit hdigit])
  · unfold readSign
    split
    next h => exact absurd (List.cons.inj h).1 (ne_of_isDigit hdigit (by decide))
    next h => exact absurd (List.cons.inj h).1 (ne_of_isDigit hdigit (by decide))
    next => rfl

/-- A sign and digits are a numeral without a point. -/
theorem read?_digits {s : Bytes} (negative : Bool) (n : Nat)
    (hs : readSign (s.dropWhile isBlank) = (negative, digitBytes n)) :
    read? s = some ⟨negative, digitBytes n, [], 0, true⟩ := by
  unfold read?
  simp [hs, readDigits_digitBytes, readDecimals, readExponent?, digitBytes_ne_nil]

/-- The text of an integer is a numeral of that integer. -/
theorem exists_read?_toString (n : Int) :
    ∃ u, read? (bytesOf (toString n)) = some u ∧ u.isInteger = true ∧ u.integer = n := by
  have hdigits : ∀ n : Nat, Utf8.encode (toString n).toList = digitBytes n := by
    intro n
    rw [Nat.toString_eq_ofList_toDigits, String.toList_ofList]
    refine Utf8.encode_ascii fun c hc => ?_
    have hd := Utf8.toNat_of_isDigit (Nat.isDigit_of_mem_toDigits (by decide) (by decide) hc)
    omega
  cases n with
  | ofNat n =>
    have hbytes : bytesOf (toString (Int.ofNat n)) = digitBytes n := hdigits n
    obtain ⟨hblank, hsign⟩ := readSign_digitBytes n
    refine ⟨_, by rw [hbytes, read?_digits false n (by rw [hblank]; exact hsign)], rfl, ?_⟩
    exact congrArg Int.ofNat (digitsValue_digitBytes n)
  | negSucc n =>
    have hbytes : bytesOf (toString (Int.negSucc n)) = 0x2D :: digitBytes (n + 1) := by
      show Utf8.encode ("-" ++ toString (n + 1)).toList = _
      rw [String.toList_append, Utf8.encode_append, hdigits]
      rfl
    refine ⟨_, by rw [hbytes, read?_digits true (n + 1) rfl], rfl, ?_⟩
    simp only [integer, if_true, digitsValue_digitBytes]
    omega

end Numeral

/-- The text of an integer of 64 bits is that integer as a number. -/
theorem Cell.asNumber_toString {n : Int} (h : Int64.minValue.toInt ≤ n ∧ n ≤ Int64.maxValue.toInt) :
    (Cell.ofString (toString n)).asNumber = .int n := by
  obtain ⟨u, hread, hinteger, rfl⟩ := Numeral.exists_read?_toString n
  simp only [ofString, asNumber, hread, Option.map_some, Option.getD_some, ofNumeral]
  rw [if_pos ⟨hinteger, h⟩]

end ReviewQueue
