import ReviewQueue.Store.Cell
import ReviewQueue.Time.Timestamp

/-!
# Julian days

For ordering, a cell is taken as an instant in whole milliseconds since noon of 1 January 4713 BC (the 24th of November -4713 in
the Gregorian calendar). Cells that are no instant have none. The texts admitted are a date, a date and a time, a time alone
(on 2000-01-01), a number of days, or a word for the present. Seconds and days are floating-point numbers on the way, so a time
halfway between two milliseconds may become either.
-/

namespace ReviewQueue.JulianDay

/-- The milliseconds of a day. -/
def millisOfDay : Int := 86400000

/-- The milliseconds from the start of the count to 1970-01-01. -/
def unixStart : Int := 210866760000000

/-- The last millisecond that counts, at the end of the year 9999. -/
def lastMilli : Int := 464269060799999

/-- The instant of a timestamp. -/
def ofTimestamp (t : Timestamp) : Int := unixStart + t.unixMillis

/-- Read two digits that stand for a number from `low` to `high`. -/
def pair? (low high : Nat) : Bytes → Option (Nat × Bytes)
  | a :: b :: rest =>
    if Numeral.isDigit a && Numeral.isDigit b then
      let n := Numeral.digitsValue [a, b]
      if low ≤ n ∧ n ≤ high then some (n, rest) else none
    else none
  | _ => none

/-- Read one byte. -/
def byte? (b : UInt8) : Bytes → Option Bytes
  | x :: rest => if x = b then some rest else none
  | [] => none

/-- A text without the blanks it starts with. -/
def skip (s : Bytes) : Bytes := s.dropWhile Numeral.isBlank

/-- Read an offset up to the end of the text, in minutes; nothing and `Z` are no offset. -/
def offset? (s : Bytes) : Option Int :=
  match skip s with
  | [] => some 0
  | b :: rest =>
    if b = 0x5A ∨ b = 0x7A then (if skip rest = [] then some 0 else none)
    else if b = 0x2B ∨ b = 0x2D then do
      let (hours, rest) ← pair? 0 14 rest
      let rest ← byte? 0x3A rest
      let (minutes, rest) ← pair? 0 59 rest
      let size : Int := hours * 60 + minutes
      if skip rest = [] then some (if b = 0x2D then -size else size) else none
    else none

/-- A number rounded to an integer, a half upwards. -/
def rounded (x : Double) : Int := (x.add (.ofFraction false 1 2)).truncate

/-- A number of digits with one more digit: ten times the number and the byte of the digit, less the byte of zero. -/
def withDigit (x : Double) (digit : UInt8) : Double := ((x.mul (.ofInt 10)).add (.ofInt digit.toNat)).sub (.ofInt 0x30)

/-- What the digits after a point are divided by. -/
def scale (digits : Bytes) : Double := digits.foldl (fun x _ => x.mul (.ofInt 10)) (.ofInt 1)

/-- Seconds with digits after a point, in milliseconds. So many digits that both parts of the quotient are infinite are none. -/
def millis? (seconds : Nat) (digits : Bytes) : Option Int :=
  let number := digits.foldl withDigit .zero
  if (scale digits).isInfinite then if number.isInfinite then none else some (seconds * 1000)
  else some (rounded (((Double.ofInt seconds).add (number.div (scale digits))).mul (.ofInt 1000)))

/-- Read seconds after a colon, if there is one, as milliseconds. -/
def seconds? : Bytes → Option (Int × Bytes)
  | 0x3A :: rest => do
    let (seconds, rest) ← pair? 0 59 rest
    match rest with
    | 0x2E :: rest' =>
      match Numeral.readDigits rest' with
      | ([], _) => some (seconds * 1000, rest)
      | (digits, rest) => (millis? seconds digits).map (·, rest)
    | rest => some (seconds * 1000, rest)
  | rest => some (0, rest)

/-- Read a time of day and an offset up to the end of the text, as milliseconds since midnight of universal time. -/
def time? (s : Bytes) : Option Int := do
  let (hours, s) ← pair? 0 24 s
  let s ← byte? 0x3A s
  let (minutes, s) ← pair? 0 59 s
  let (millis, s) ← seconds? s
  let offset ← offset? s
  return hours * 3600000 + minutes * 60000 + millis - offset * 60000

/-- The instant at which a day starts; a day past the end of its month is one of the next month. -/
def ofDay (year : Int) (month day : Nat) : Int :=
  let (year, month) := if month ≤ 2 then (year - 1, month + 12) else (year, month)
  let century := year / 100
  let days : Int := 36525 * (year + 4716) / 100 + (306001 * (month + 1) / 10000 : Nat) + day + 2 - century + century / 4
  (2 * days - 3049) * (millisOfDay / 2)

/-- Read a date and, if more follows, a time. -/
def dated? (s : Bytes) : Option Int := do
  let (sign, s) : Int × Bytes := match s with
    | 0x2D :: rest => (-1, rest)
    | rest => (1, rest)
  let (century, s) ← pair? 0 99 s
  let (year, s) ← pair? 0 99 s
  let s ← byte? 0x2D s
  let (month, s) ← pair? 1 12 s
  let s ← byte? 0x2D s
  let (day, s) ← pair? 1 31 s
  let year := sign * ((century * 100 + year : Nat) : Int)
  let start := ofDay year month day
  let instant ← match s.dropWhile (fun b => Numeral.isBlank b || b = 0x54) with
    | [] => some start
    | s => (time? s).map (start + ·)
  if -4713 ≤ year then some instant else none

/-- The instant of a number of days. -/
def ofDays? (x : Double) : Option Int :=
  -- the number of days has a half, so twice the number is compared
  if (x.negative = false ∨ x.place = 0) ∧ 2 * x.numerator < 10746969 * x.denominator then some (rounded (x.mul (.ofInt millisOfDay)))
  else none

/-- Whether a text is one of the words for the present, in any case. -/
def isPresent (s : Bytes) : Bool :=
  let folded := s.map fun b => if 0x41 ≤ b && b ≤ 0x5A then b + 0x20 else b
  folded = bytesOf "now" || folded = bytesOf "subsec" || folded = bytesOf "subsecond"

/-- The instant of a text; it ends at the first byte 0. -/
def ofText? (now : Int) (bytes : Bytes) : Option Int :=
  let s := bytes.takeWhile (· ≠ 0)
  match dated? s with
  | some instant => some instant
  | none => match time? s with
    | some instant => some (ofDay 2000 1 1 + instant)
    | none => if isPresent s then some now else (Numeral.read? s).bind fun u => ofDays? u.toDouble

/-- The instant of a cell, the present being `now`. It lies between the start of the count and the end of the year 9999. -/
def ofCell? (now : Int) (cell : Cell) : Option Int :=
  let instant := match cell with
    | .null => none
    | .int n => ofDays? (.ofInt n)
    | .real x => ofDays? x
    | .text s | .blob s => ofText? now s
  instant.filter fun n => 0 ≤ n && n ≤ lastMilli

end ReviewQueue.JulianDay
