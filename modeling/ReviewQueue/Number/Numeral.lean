import ReviewQueue.Number.Double
import ReviewQueue.Text.Utf8

/-!
# Numerals

How a text spells a number, and how a number with a point is spelled. Reading and writing use products of 64 bits, so a numeral of
many digits need not be read as the number nearest to it, and 15 digits are written.
-/

namespace ReviewQueue

/-- A number as a text spells it. -/
structure Numeral where
  negative : Bool
  /-- The digits before the point. -/
  whole : Bytes
  /-- The digits after the point. -/
  decimals : Bytes
  exponent : Int
  /-- Whether there is neither a point nor an exponent. -/
  isInteger : Bool
  deriving DecidableEq, Repr

namespace Numeral

/-! ## Reading -/

/-- A blank of a numeral: a space, or one of tab, newline, vertical tab, form feed and return. -/
def isBlank (b : UInt8) : Bool := b = 0x20 || (0x09 ≤ b && b ≤ 0x0D)

/-- A decimal digit. -/
def isDigit (b : UInt8) : Bool := 0x30 ≤ b && b ≤ 0x39

/-- The value of a digit. -/
def digitValue (b : UInt8) : Nat := b.toNat - 0x30

/-- The number some digits stand for. -/
def digitsValue (digits : Bytes) : Nat := digits.foldl (fun n b => 10 * n + digitValue b) 0

/-- Whether a text starts with a minus, and what follows its sign. -/
def readSign : Bytes → Bool × Bytes
  | 0x2D :: rest => (true, rest)
  | 0x2B :: rest => (false, rest)
  | rest => (false, rest)

/-- The digits a text starts with and what follows them. -/
def readDigits (s : Bytes) : Bytes × Bytes := (s.takeWhile isDigit, s.dropWhile isDigit)

/-- The digits after a point, whether there is a point, and what follows. -/
def readDecimals : Bytes → Bytes × Bool × Bytes
  | 0x2E :: rest => ((readDigits rest).1, true, (readDigits rest).2)
  | rest => ([], false, rest)

/-- The number of an exponent. Past 9999 it says no more than that it is great. -/
def exponentValue (digits : Bytes) : Nat := digits.foldl (fun n b => if n < 10000 then 10 * n + digitValue b else 10000) 0

/-- The exponent a text starts with, 0 if there is none, whether there is one, and what follows it. -/
def readExponent? : Bytes → Option (Int × Bool × Bytes)
  | b :: rest =>
    if b = 0x65 ∨ b = 0x45 then
      let (negative, rest) := readSign rest
      match readDigits rest with
      | ([], _) => none
      | (digits, rest) => some (if negative then -exponentValue digits else exponentValue digits, true, rest)
    else some (0, false, b :: rest)
  | [] => some (0, false, [])

/-- The number that a whole text spells: blanks, a sign, digits with or without a point, an exponent, blanks. -/
def read? (s : Bytes) : Option Numeral := do
  let (negative, s) := readSign (s.dropWhile isBlank)
  let (whole, s) := readDigits s
  let (decimals, hasPoint, s) := readDecimals s
  if whole = [] ∧ decimals = [] then none
  let (exponent, hasExponent, s) ← readExponent? s
  if s.dropWhile isBlank ≠ [] then none
  return { negative, whole, decimals, exponent, isInteger := !hasPoint && !hasExponent }

/-- The integer of a numeral that has neither a point nor an exponent. -/
def integer (u : Numeral) : Int := if u.negative then -digitsValue u.whole else digitsValue u.whole

/-! ## The nearest number -/

/-- What the digits of a numeral add up to at most before the others are left out. -/
def mostDigits : Nat := (1 <<< 64 - 10) / 10

/-- The digits that are taken up, and how many are left out. -/
def takeUp (taken : Nat) : Bytes → Nat × Nat
  | [] => (taken, 0)
  | b :: rest => if taken < mostDigits then takeUp (10 * taken + digitValue b) rest else (taken, rest.length + 1)

/-- `n * 10 ^ e` with a smaller power of ten, while 64 bits suffice. -/
def raise (n : Nat) : Nat → Nat × Nat
  | 0 => (n, 0)
  | e + 1 => if n < (1 <<< 64 - 1) / 10 then raise (10 * n) e else (n, e + 1)

/-- `n / 10 ^ e` with a smaller power of ten, while nothing is lost. -/
def lower (n : Nat) : Nat → Nat × Nat
  | 0 => (n, 0)
  | e + 1 => if n % 10 = 0 then lower (n / 10) e else (n, e + 1)

/-- A power of ten, to 64 bits. -/
def power (e : Int) : Binary :=
  (if 0 ≤ e then Binary.mk (Nat.pow 10 e.toNat) 0 else (Binary.mk 1 0).div ⟨Nat.pow 10 (-e).toNat, 0⟩).round 64

/-- A number times a power of ten, to 64 bits. -/
def times (e : Int) (b : Binary) : Binary := (b.mul (power e)).round 64

/-- A number times `10 ^ e`, or over it, by hundreds, tens and ones of the exponent. -/
def scale (sign : Int) (e : Nat) (b : Binary) : Binary :=
  Nat.repeat (times sign) (e % 10) (Nat.repeat (times (sign * 10)) (e % 100 / 10) (Nat.repeat (times (sign * 100)) (e / 100) b))

/-- The last number that is finite. -/
def lastFinite : Binary := ⟨1 <<< 53 - 1, 971⟩

/-- The number that a numeral is read as. -/
def toDouble (u : Numeral) : Double :=
  let (whole, missing) := takeUp 0 u.whole
  let (digits, unread) := takeUp whole u.decimals
  let e : Int := u.exponent + missing - (u.decimals.length - unread : Nat)
  if digits = 0 then Double.ofBinary u.negative ⟨0, 0⟩
  else
    let (digits, rest) := if 0 ≤ e then raise digits e.toNat else lower digits (-e).toNat
    let size := if rest = 0 then ⟨digits, 0⟩ else scale (if 0 ≤ e then 1 else -1) rest ⟨digits, 0⟩
    if size.le lastFinite then Double.ofBinary u.negative size else ⟨u.negative, Double.infinite, Nat.le_refl _⟩

end Numeral

namespace Double

/-! ## Writing -/

/-- A number and the exponent it was scaled by, scaled further as long as `p` says so, at most `n` times. -/
def scaleWhile (p : Binary → Bool) (e : Int) : Nat → Binary × Int → Binary × Int
  | 0, x => x
  | n + 1, x => if p x.1 then scaleWhile p e n (Numeral.times e x.1, x.2 - e) else x

/-- A number as an integer of 18 or 19 digits times a power of ten. -/
def scaled (b : Binary) : Nat × Int :=
  let isLong := (Numeral.power 19).le b
  let (b, e) :=
    if isLong then
      scaleWhile (Numeral.power 19).le (-1) 10 (scaleWhile (Numeral.power 29).le (-10) 11
        (scaleWhile (Numeral.power 119).le (-100) 3 (b, 0)))
    else
      scaleWhile (!(Numeral.power 17).le ·) 1 10 (scaleWhile (!(Numeral.power 7).le ·) 10 11
        (scaleWhile (!(Numeral.power (-97)).le ·) 100 3 (b, 0)))
  (b.floor, e)

/-- How many digits are written. -/
def writtenDigits : Nat := 15

/-- The digits of a number that are written, without zeros at the end, and the power of ten of the first one. -/
def writing (b : Binary) : List Char × Int :=
  let (n, e) := scaled b
  let length := (Nat.toDigits 10 n).length
  let excess := length - writtenDigits
  -- of the digits that are left out the first one decides
  let rounded := (n / Nat.pow 10 excess) + (if 0 < excess ∧ 5 ≤ n / Nat.pow 10 (excess - 1) % 10 then 1 else 0)
  let digits := Nat.toDigits 10 rounded
  let carry : Int := digits.length - (length - excess : Nat)
  ((digits.reverse.dropWhile (· = '0')).reverse, length + e + carry - 1)

/-- Digits before and after a point; at least one on either side. -/
def pointed (whole decimals : List Char) : String := String.ofList (whole ++ '.' :: (if decimals = [] then ['0'] else decimals))

/-- The text of a number. -/
def text (x : Double) : String :=
  if x.place = 0 then "0.0"
  else
    let sign := if x.negative then "-" else ""
    if x.isInfinite then sign ++ "Inf"
    else
      let (digits, e) := writing x.size
      if e < -4 ∨ 14 < e then
        let exponent := toString e.natAbs
        sign ++ pointed (digits.take 1) (digits.drop 1) ++ (if e < 0 then "e-" else "e+") ++
          (if exponent.length < 2 then "0" ++ exponent else exponent)
      else if e < 0 then sign ++ pointed ['0'] (List.replicate (-e - 1).toNat '0' ++ digits)
      else sign ++ pointed ((digits.take (e.toNat + 1)).rightpad (e.toNat + 1) '0') (digits.drop (e.toNat + 1))

end Double
end ReviewQueue
