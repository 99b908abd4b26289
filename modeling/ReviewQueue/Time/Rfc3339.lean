import ReviewQueue.Text.Fields
import ReviewQueue.Time.Timestamp

/-!
# Timestamps in writing

A timestamp is written as `YYYY-MM-DDThh:mm:ss`, a fraction of three, six or nine digits (the fewest that are exact, none if
there is none) and a zone. A leap second is written `:60`. Years outside 0 to 9999 carry a sign.
-/

namespace ReviewQueue.Timestamp

/-- A year: four digits, or a sign and as many digits as it has, four at least. -/
def yearDigits (year : Int) : List Char :=
  if 0 ≤ year ∧ year ≤ 9999 then Digits.fixed 4 year.toNat
  else
    let size := year.natAbs
    let width := if size < 10000 then 4 else if size < 100000 then 5 else 6
    (if year < 0 then '-' else '+') :: Digits.fixed width size

/-- The nanoseconds within a second: the shortest of no, three, six and nine digits that is exact. -/
def fraction (nanos : Nat) : List Char :=
  if nanos = 0 then []
  else if nanos % 1000000 = 0 then '.' :: Digits.fixed 3 (nanos / 1000000)
  else if nanos % 1000 = 0 then '.' :: Digits.fixed 6 (nanos / 1000)
  else '.' :: Digits.fixed 9 nanos

/-- A date in writing. -/
def dateDigits (d : Date) : List Char :=
  yearDigits d.year ++ '-' :: Digits.fixed 2 d.month ++ '-' :: Digits.fixed 2 d.day

/-- A time of day in writing; a leap second is second 60. -/
def timeDigits (t : TimeOfDay) : List Char :=
  let leap := 1000000000 ≤ t.nanos
  Digits.fixed 2 t.hour ++ ':' :: Digits.fixed 2 t.minute ++ ':' ::
    Digits.fixed 2 (if leap then t.second + 1 else t.second) ++
    fraction (if leap then t.nanos - 1000000000 else t.nanos)

/-- A timestamp in writing, with the given spelling of the zone. -/
def written (zone : List Char) (t : Timestamp) : List Char := dateDigits t.date ++ 'T' :: timeDigits t.time ++ zone

/-- The form a timestamp has in a table. -/
def stored (t : Timestamp) : String := String.ofList (t.written ['+', '0', '0', ':', '0', '0'])

/-- The form a timestamp has in an entity. -/
def shown (t : Timestamp) : String := String.ofList (t.written ['Z'])

end ReviewQueue.Timestamp
