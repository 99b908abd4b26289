/-!
# Fields of a text

What the texts of dates, times and numbers are made of. Between two fields there are blanks, the characters of Unicode's property
White_Space, or one fixed character, a mark. Decimal numbers are written with a fixed count of digits, zeros in front, and read
digit by digit up to a greatest count. A hexadecimal digit has a value; how many stand together is for the reader of a format.
-/

namespace ReviewQueue.Blank

/-- Whether a character has the property White_Space. -/
def isBlank (c : Char) : Bool :=
  let n := c.toNat
  (0x09 ≤ n && n ≤ 0x0D) || n = 0x20 || n = 0x85 || n = 0xA0 || n = 0x1680 || (0x2000 ≤ n && n ≤ 0x200A) ||
    n = 0x2028 || n = 0x2029 || n = 0x202F || n = 0x205F || n = 0x3000

/-- A text without the blanks it starts with. -/
def skip (s : List Char) : List Char := s.dropWhile isBlank

end ReviewQueue.Blank

namespace ReviewQueue.Mark

/-- The rest of a text after the mark `c`, if the text starts with it. -/
def after? (c : Char) : List Char → Option (List Char)
  | [] => none
  | x :: rest => if x = c then some rest else none

end ReviewQueue.Mark

namespace ReviewQueue.Digits

/-- The last decimal digit of a number. -/
def last (n : Nat) : Char := Char.ofNat (48 + n % 10)

/-- The lowest `width` digits of a number, highest first. -/
def fixed : Nat → Nat → List Char
  | 0, _ => []
  | width + 1, n => fixed width (n / 10) ++ [last n]

/-- The number some digits stand for. -/
def value (digits : List Char) : Nat := digits.foldl (fun n c => 10 * n + (c.toNat - 48)) 0

/-- The value of a hexadecimal digit, in either case. -/
def hexValue? (c : Char) : Option Nat :=
  if c.isDigit then some (c.toNat - 0x30)
  else if 'a' ≤ c && c ≤ 'f' then some (c.toNat - 0x57)
  else if 'A' ≤ c && c ≤ 'F' then some (c.toNat - 0x37)
  else none

/-- The digits a text starts with, at most `most` of them, and what follows. -/
def span : Nat → List Char → List Char × List Char
  | 0, s => ([], s)
  | _ + 1, [] => ([], [])
  | most + 1, c :: s =>
    if c.isDigit then
      let (digits, rest) := span most s
      (c :: digits, rest)
    else ([], c :: s)

/-- Read a number of one to `most` digits. -/
def read? (most : Nat) (s : List Char) : Option (Nat × List Char) :=
  match span most s with
  | ([], _) => none
  | (digits, rest) => some (value digits, rest)

/-- Read a number of any count of digits. -/
def readAll? (s : List Char) : Option (Nat × List Char) := read? s.length s

end ReviewQueue.Digits
