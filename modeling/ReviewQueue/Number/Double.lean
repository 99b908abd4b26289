/-!
# Floating-point numbers

The numbers of 64 bits that a table can hold beside integers. Those that are not negative are counted upwards from zero, so each
is its place in their order, and the one after the last that is finite is infinity. Results of calculations are rounded to the
nearest of them, and to the even one of two that are equally near. Not-a-number is none of them: it becomes null in a table.
-/

namespace ReviewQueue

/-- The number `digits * 2 ^ exponent`. -/
structure Binary where
  digits : Nat
  exponent : Int
  deriving DecidableEq, Repr

/-- `n / d`, rounded to the nearest integer, and to the even one of two. -/
def roundRatio (n d : Nat) : Nat :=
  let quotient := n / d
  let rest := 2 * (n % d)
  if d < rest ∨ rest = d ∧ quotient % 2 = 1 then quotient + 1 else quotient

/-- The exponent of the greatest power of two that is at most `n / d`. -/
def floorLog (n d : Nat) : Int := if d ≤ n then (n / d).log2 else -((d - 1) / n).log2 - 1

namespace Binary

/-- A number in units of `2 ^ e`, rounded. -/
def inUnits (b : Binary) (e : Int) : Nat := roundRatio (b.digits <<< (b.exponent - e).toNat) (1 <<< (e - b.exponent).toNat)

/-- A number rounded to some count of bits. -/
def round (bits : Nat) (b : Binary) : Binary :=
  let excess := b.digits.log2 + 1 - bits
  ⟨roundRatio b.digits (1 <<< excess), b.exponent + excess⟩

/-- The product of two numbers. -/
def mul (a b : Binary) : Binary := ⟨a.digits * b.digits, a.exponent + b.exponent⟩

/-- A number from which the quotient of two is rounded right to 64 bits: 66 of its bits, and one more for what is left of it. -/
def div (a b : Binary) : Binary :=
  let places := 66 + b.digits.log2
  let wide := a.digits <<< places
  ⟨2 * (wide / b.digits) + (if wide % b.digits = 0 then 0 else 1), a.exponent - b.exponent - places - 1⟩

/-- Whether a number is at most another. -/
def le (a b : Binary) : Bool :=
  let e := min a.exponent b.exponent
  a.inUnits e ≤ b.inUnits e

/-- A number as a fraction: what is above the bar. -/
def numerator (b : Binary) : Nat := b.digits <<< b.exponent.toNat

/-- A number as a fraction: what is below the bar. -/
def denominator (b : Binary) : Nat := 1 <<< (-b.exponent).toNat

theorem denominator_pos (b : Binary) : 0 < b.denominator := by
  rw [denominator, Nat.one_shiftLeft]
  exact Nat.two_pow_pos _

/-- A number without what comes after its point. -/
def floor (b : Binary) : Nat := b.numerator / b.denominator

end Binary

/-- A floating-point number of 64 bits. -/
structure Double where
  negative : Bool
  /-- How many numbers there are from zero to it, without its sign. -/
  place : Nat
  place_le : place ≤ 2047 <<< 52
  deriving DecidableEq, Repr

namespace Double

/-- The place of infinity. -/
def infinite : Nat := 2047 <<< 52

/-- Zero. -/
def zero : Double := ⟨false, 0, Nat.zero_le _⟩

/-- Whether a number is infinity or the opposite of it. -/
def isInfinite (x : Double) : Bool := x.place = infinite

/-- The number nearest to a fraction, with a sign. Past the last number that is infinity. -/
def ofFraction (negative : Bool) (n d : Nat) : Double where
  negative := negative
  place :=
    if n = 0 then 0
    else
      -- the unit of the last of 53 bits; near zero there are fewer
      let e := max (floorLog n d - 52) (-1074)
      min ((e + 1074).toNat <<< 52 + roundRatio (n <<< (-e).toNat) (d <<< e.toNat)) infinite
  place_le := by
    split
    · exact Nat.zero_le _
    · exact Nat.min_le_right ..

/-- The number nearest to one that may have more bits, with a sign. -/
def ofBinary (negative : Bool) (b : Binary) : Double := ofFraction negative b.numerator b.denominator

/-- A number without its sign. Infinity counts as `2 ^ 1024`, which is greater than all others. -/
def size (x : Double) : Binary :=
  let scale := x.place >>> 52 - 1
  ⟨x.place - scale <<< 52, (scale : Int) - 1074⟩

/-- The number nearest to an integer. -/
def ofInt (n : Int) : Double := ofFraction (n < 0) n.natAbs 1

/-- A number as a fraction: what is above the bar. -/
def numerator (x : Double) : Int := if x.negative then -x.size.numerator else x.size.numerator

/-- A number as a fraction: what is below the bar. -/
def denominator (x : Double) : Nat := x.size.denominator

theorem denominator_pos (x : Double) : 0 < x.denominator := x.size.denominator_pos

/-- A number without what comes after its point. -/
def truncate (x : Double) : Int := if x.negative then -x.size.floor else x.size.floor

/-- The integer that a number is, if it is one and lies between the least and the greatest integer of 64 bits. -/
def toInt? (x : Double) : Option Int :=
  if x.truncate * x.denominator = x.numerator ∧ Int64.minValue.toInt < x.truncate ∧ x.truncate < Int64.maxValue.toInt then
    some x.truncate
  else none

/-- The place of a number among all. Zero has one place, with a sign or without. -/
def order (x : Double) : Int := if x.negative then -x.place else x.place

/-- Whether an integer is at most a number. -/
def leOfInt (n : Int) (x : Double) : Bool := n * x.denominator ≤ x.numerator

/-- Whether a number is at most an integer. -/
def leToInt (x : Double) (n : Int) : Bool := x.numerator ≤ n * x.denominator

/-- The sum of two numbers that are not negative. -/
def add (x y : Double) : Double :=
  ofFraction false (x.size.numerator * y.denominator + y.size.numerator * x.denominator) (x.denominator * y.denominator)

/-- The difference of two numbers that are not negative, the second being at most the first. -/
def sub (x y : Double) : Double :=
  ofFraction false (x.size.numerator * y.denominator - y.size.numerator * x.denominator) (x.denominator * y.denominator)

/-- The product of two numbers that are not negative. -/
def mul (x y : Double) : Double := ofFraction false (x.size.numerator * y.size.numerator) (x.denominator * y.denominator)

/-- The quotient of two numbers that are not negative, the divisor being finite and not zero. -/
def div (x y : Double) : Double := ofFraction false (x.size.numerator * y.denominator) (x.denominator * y.size.numerator)

end Double
end ReviewQueue
