import ReviewQueue.Text.Fields
import ReviewQueue.Time.Date
import ReviewQueue.Toml.Line

/-!
# Numbers and times of TOML

Integers in four bases, numbers with a fraction or an exponent, and dates and times. Of all but the integers only the extent
counts: where they end, and that they are one.
-/

namespace ReviewQueue.Toml

/-- Digits with underscores between any two of them; the digits without the underscores, and what follows. -/
def readDigits? (isDigit : Char → Bool) : List Char → Option (List Char × List Char)
  | [] => none
  | c :: rest =>
    if isDigit c then
      match rest with
      | '_' :: rest' => (readDigits? isDigit rest').map fun (digits, rest) => (c :: digits, rest)
      | rest => match readDigits? isDigit rest with
        | some (digits, rest) => some (c :: digits, rest)
        | none => some ([c], rest)
    else none

/-- The value of digits in a base. -/
def valueIn (base : Nat) (digits : List Char) : Nat :=
  digits.foldl (fun n c => base * n + (Digits.hexValue? c).getD 0) 0

/-- The sign a text starts with and what follows it. -/
def readSign : List Char → Int × List Char
  | '-' :: rest => (-1, rest)
  | '+' :: rest => (1, rest)
  | rest => (1, rest)

/-- Read a decimal number; a zero in front stands alone. -/
def readDecimal? : List Char → Option (List Char × List Char)
  | '0' :: rest => some (['0'], rest)
  | rest => readDigits? Char.isDigit rest

/-- An integer of 64 bits. -/
def fit? (n : Int) : Option Int := if Int64.minValue.toInt ≤ n ∧ n ≤ Int64.maxValue.toInt then some n else none

/-- Read an integer: decimal with a sign or without, or a base and digits of it. -/
def readInteger? (s : List Char) : Option (Int × List Char) :=
  match s with
  | '0' :: 'x' :: rest => based 16 (Digits.hexValue? · |>.isSome) rest
  | '0' :: 'o' :: rest => based 8 (fun c => '0' ≤ c && c ≤ '7') rest
  | '0' :: 'b' :: rest => based 2 (fun c => c = '0' || c = '1') rest
  | s => do
    let (sign, s) := readSign s
    let (digits, s) ← readDecimal? s
    return (← fit? (sign * valueIn 10 digits), s)
where
  based (base : Nat) (isDigit : Char → Bool) (s : List Char) : Option (Int × List Char) := do
    let (digits, s) ← readDigits? isDigit s
    return (← fit? (valueIn base digits), s)

/-- Read a fraction after its point. -/
def readFraction? : List Char → Option (List Char × List Char)
  | '.' :: rest => readDigits? Char.isDigit rest
  | _ => none

/-- Read an exponent after its letter. -/
def readExponent? : List Char → Option (Int × List Char)
  | c :: rest =>
    if c = 'e' ∨ c = 'E' then do
      let (sign, rest) := readSign rest
      let (digits, rest) ← readDigits? Char.isDigit rest
      return (sign * valueIn 10 digits, rest)
    else none
  | [] => none

/-- Whether `digits * 10 ^ exponent` is too large for a number of 64 bits with a fraction: it would be rounded up past the
greatest one. -/
def isTooLarge (digits : Nat) (exponent : Int) : Bool :=
  if digits = 0 then false
  else if 400 < exponent then true
  else
    let limit := Nat.pow 2 1024 - Nat.pow 2 970
    if 0 ≤ exponent then limit ≤ digits * Nat.pow 10 exponent.toNat
    else if Nat.log2 digits < (-exponent).toNat * 3 then false
    else limit * Nat.pow 10 (-exponent).toNat ≤ digits

/-- The text after a number with a fraction, an exponent or both. -/
def afterFloat? (s : List Char) : Option (List Char) := do
  let (sign, s) := readSign s
  let (whole, s) ← readDecimal? s
  let (decimals, s, found) := match readFraction? s with
    | some (decimals, s) => (decimals, s, true)
    | none => ([], s, false)
  let (exponent, s, found) := match readExponent? s with
    | some (exponent, s) => (exponent, s, true)
    | none => (0, s, found)
  if !found then none
  else if sign = 1 ∧ isTooLarge (valueIn 10 (whole ++ decimals)) (exponent - decimals.length) then none
  else some s

/-- The text after `inf` or `nan`, with a sign or without. -/
def afterSpecial? (s : List Char) : Option (List Char) :=
  match (readSign s).2 with
  | 'i' :: 'n' :: 'f' :: rest => some rest
  | 'n' :: 'a' :: 'n' :: rest => some rest
  | _ => none

/-- Read `width` digits. -/
def readWidth? (width : Nat) (s : List Char) : Option (Nat × List Char) :=
  match Digits.span width s with
  | (digits, rest) => if digits.length = width then some (Digits.value digits, rest) else none

/-- Read two digits that stand for a number from `low` to `high`. -/
def readPair? (low high : Nat) (s : List Char) : Option (Nat × List Char) :=
  match readWidth? 2 s with
  | some (n, rest) => if low ≤ n ∧ n ≤ high then some (n, rest) else none
  | none => none

/-- The text after a date. -/
def afterDate? (s : List Char) : Option (List Char) := do
  let (year, s) ← readWidth? 4 s
  let s ← Mark.after? '-' s
  let (month, s) ← readPair? 1 12 s
  let s ← Mark.after? '-' s
  let (day, s) ← readPair? 1 31 s
  if day ≤ Date.daysOfMonth year month then some s else none

/-- The text after a time of day. -/
def afterTime? (s : List Char) : Option (List Char) := do
  let (_, s) ← readPair? 0 23 s
  let s ← Mark.after? ':' s
  let (_, s) ← readPair? 0 59 s
  let s ← Mark.after? ':' s
  let (_, s) ← readPair? 0 60 s
  match s with
  | '.' :: c :: rest => return if c.isDigit then rest.dropWhile Char.isDigit else s
  | s => return s

/-- The text after an offset, which may be missing. -/
def afterOffset (s : List Char) : List Char :=
  match s with
  | [] => []
  | c :: rest =>
    if c = 'Z' ∨ c = 'z' then rest
    else if c = '+' ∨ c = '-' then
      (do
        let (_, rest) ← readPair? 0 23 rest
        let rest ← Mark.after? ':' rest
        let (_, rest) ← readPair? 0 59 rest
        return rest : Option (List Char)).getD s
    else s

/-- The text after a date, a time, or a date and a time with an offset or without. -/
def afterMoment? (s : List Char) : Option (List Char) :=
  match afterDate? s with
  | none => afterTime? s
  | some rest =>
    match rest with
    | c :: later => if c = 'T' ∨ c = 't' ∨ c = ' ' then ((afterTime? later).map afterOffset).getD rest else rest
    | [] => some []

end ReviewQueue.Toml
