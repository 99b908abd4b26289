import ReviewQueue.Text.Fields
import ReviewQueue.Text.Utf8
import ReviewQueue.Time.Timestamp

/-!
# Reading timestamps

Timestamps are read more freely than they are written: fields may have fewer digits and blanks before them, a year may have a
sign and then any number of digits, a fraction any number of digits of which nine count, an offset several spellings. Two readers
are built from the same fields: `ofEntity?` for the text of an entity and `ofStored?` for the text in a table.
-/

namespace ReviewQueue.Timestamp

/-- The fields of a date, not yet known to name a day. -/
structure DateFields where
  year : Int
  month : Nat
  day : Nat
  deriving DecidableEq, Repr

/-- The fields of a time of day, not yet known to name one. -/
structure TimeFields where
  hour : Nat
  minute : Nat
  second : Nat
  nanos : Nat
  deriving DecidableEq, Repr

/-- Read a year after blanks: up to four digits, or a sign and any number of digits. -/
def readYear? (s : List Char) : Option (Int × List Char) :=
  match Blank.skip s with
  | '-' :: rest => (Digits.readAll? rest).map fun (n, rest) => (-(n : Int), rest)
  | '+' :: rest => (Digits.readAll? rest).map fun (n, rest) => ((n : Int), rest)
  | rest => (Digits.read? 4 rest).map fun (n, rest) => ((n : Int), rest)

/-- Read a number of one or two digits after blanks. -/
def readPair? (s : List Char) : Option (Nat × List Char) := Digits.read? 2 (Blank.skip s)

/-- Read `year-month-day`. With `loose`, blanks may stand before the dashes too. -/
def readDate? (loose : Bool) (s : List Char) : Option (DateFields × List Char) := do
  let gap := fun s => if loose then Blank.skip s else s
  let (year, s) ← readYear? s
  let s ← Mark.after? '-' (gap s)
  let (month, s) ← readPair? s
  let s ← Mark.after? '-' (gap s)
  let (day, s) ← readPair? s
  return (⟨year, month, day⟩, s)

/-- Read the digits of a fraction as nanoseconds; those after the ninth do not count. -/
def readNanos? (s : List Char) : Option (Nat × List Char) :=
  match Digits.span 9 s with
  | ([], _) => none
  | (digits, rest) => some (Digits.value digits * Nat.pow 10 (9 - digits.length), rest.dropWhile Char.isDigit)

/-- Read a fraction, if there is a point. -/
def readFraction? : List Char → Option (Nat × List Char)
  | '.' :: rest => readNanos? rest
  | rest => some (0, rest)

/-- Read `hour:minute:second` and a fraction. With `loose`, blanks may stand before the colons too. -/
def readTime? (loose : Bool) (s : List Char) : Option (TimeFields × List Char) := do
  let gap := fun s => if loose then Blank.skip s else s
  let (hour, s) ← readPair? s
  let s ← Mark.after? ':' (gap s)
  let (minute, s) ← readPair? s
  let s ← Mark.after? ':' (gap s)
  let (second, s) ← readPair? s
  let (nanos, s) ← readFraction? s
  return (⟨hour, minute, second, nanos⟩, s)

/-- The sign of an offset; U+2212 is a minus too. -/
def sign? (c : Char) : Option Int :=
  if c = '+' then some 1 else if c = '-' ∨ c = '\u2212' then some (-1) else none

/-- Read the hours and minutes of an offset, as minutes. Colons and blanks may stand between the two; with `short` the minutes may
be missing at the end of the text. -/
def readHoursMinutes? (short : Bool) : List Char → Option (Nat × List Char)
  | a :: b :: rest =>
    if a.isDigit && b.isDigit then
      let hours := Digits.value [a, b]
      match rest.dropWhile (fun c => c = ':' || Blank.isBlank c) with
      | [] => if short then some (hours * 60, []) else none
      | [_] => none
      | c :: d :: rest =>
        if '0' ≤ c && c ≤ '5' && d.isDigit then some (hours * 60 + Digits.value [c, d], rest) else none
    else none
  | _ => none

/-- Read an offset from universal time, in minutes: `Z`, or a sign, hours and minutes. -/
def readOffset? (short : Bool) : List Char → Option (Int × List Char)
  | [] => none
  | c :: rest =>
    if c = 'Z' ∨ c = 'z' then some (0, rest)
    else match sign? c with
      | none => none
      | some sign => (readHoursMinutes? short rest).map fun (n, rest) => (sign * n, rest)

/-- The instant some fields and an offset name, if they name one. -/
def ofFields? (d : DateFields) (t : TimeFields) (offset : Int) : Option Timestamp := do
  let date ← Date.of? d.year d.month d.day
  let time ← TimeOfDay.ofClock? t.hour t.minute t.second t.nanos
  if offset.natAbs < 1440 then ofLocal? date time offset else none

/-- The rest of a text after the letters of `UTC`, in either case. -/
def afterUtc? : List Char → Option (List Char)
  | a :: b :: c :: rest => if a.toUpper = 'U' ∧ b.toUpper = 'T' ∧ c.toUpper = 'C' then some rest else none
  | _ => none

/-- Read the timestamp of an entity: date, one of `T`, `t` and space, time, offset, blanks. -/
def ofEntity? (s : List Char) : Option Timestamp := do
  let (date, s) ← readDate? true s
  let s ← match s with
    | c :: rest => if c = 'T' ∨ c = 't' ∨ c = ' ' then some rest else none
    | [] => none
  let (time, s) ← readTime? true s
  let s := Blank.skip s
  let (offset, s) ← match afterUtc? s with
    | some rest => some (0, rest)
    | none => readOffset? false s
  if Blank.skip s = [] then ofFields? date time offset else none

/-- Read the day and the time in a table: the two stand apart by a `T` if that is the byte after ten, else by any blanks. -/
def readStored? (bytes : Bytes) (s : List Char) : Option (DateFields × TimeFields × List Char) := do
  let (date, s) ← readDate? false s
  let s ← if bytes[10]? = some 0x54 then Mark.after? 'T' s else some (Blank.skip s)
  let (time, s) ← readTime? false s
  return (date, time, s)

/-- Read the timestamp in a table, given as bytes and as characters: with an offset, or without one in universal time. -/
def ofStored? (bytes : Bytes) (s : List Char) : Option Timestamp := do
  let (date, time, s) ← readStored? bytes s
  match readOffset? true (Blank.skip s) with
  | some (offset, []) => ofFields? date time offset
  | _ => if s = [] then ofFields? date time 0 else none

end ReviewQueue.Timestamp
