import ReviewQueue.Time.Date

/-!
# Timestamps

An instant in universal time, to the nanosecond: a day and a time of day. A leap second is the second after `:59` of any minute
and is kept as that second with a billion nanoseconds or more. Other seconds can have that many nanoseconds too; no text names such
an instant.
-/

namespace ReviewQueue

namespace TimeOfDay

/-- Whether the fields name a time of day. -/
def isReal (hour minute second nanos : Nat) : Bool :=
  hour < 24 && minute < 60 && second < 60 && nanos < 2000000000

end TimeOfDay

/-- A time of day. -/
structure TimeOfDay where
  hour : Nat
  minute : Nat
  second : Nat
  nanos : Nat
  real : TimeOfDay.isReal hour minute second nanos = true
  deriving DecidableEq, Repr

/-- An instant, as the day and the time of day in universal time. -/
structure Timestamp where
  date : Date
  time : TimeOfDay
  deriving DecidableEq, Repr

namespace TimeOfDay

/-- The time of day of some fields, if there is one. -/
def of? (hour minute second nanos : Nat) : Option TimeOfDay :=
  if h : isReal hour minute second nanos = true then some ⟨hour, minute, second, nanos, h⟩ else none

/-- The time of day a clock shows: second 60 stands for a leap second. -/
def ofClock? (hour minute second nanos : Nat) : Option TimeOfDay :=
  if second = 60 then of? hour minute 59 (1000000000 + nanos)
  else if nanos < 1000000000 then of? hour minute second nanos
  else none

end TimeOfDay

namespace Timestamp

/-- The start of 1970-01-01. -/
def epoch : Timestamp := ⟨⟨1970, 1, 1, by decide⟩, ⟨0, 0, 0, 0, by decide⟩⟩

instance : Inhabited Timestamp := ⟨epoch⟩

/-- The instant at which clocks ahead of universal time by `offset` minutes show a day and a time. The offset is less than a
day, so the day moves by one at most. -/
def ofLocal? (date : Date) (time : TimeOfDay) (offset : Int) : Option Timestamp :=
  let minutes : Int := time.hour * 60 + time.minute - offset
  let shifted := (minutes % 1440).toNat
  match TimeOfDay.of? (shifted / 60) (shifted % 60) time.second time.nanos with
  | none => none
  | some time =>
    if minutes < 0 then date.previous?.map (⟨·, time⟩)
    else if 1440 ≤ minutes then date.next?.map (⟨·, time⟩)
    else some ⟨date, time⟩

/-- The instant some seconds after 1970-01-01, and some nanoseconds after that: a billion of them or more name a leap second,
which only the last second of a minute can be. -/
def ofUnix? (seconds : Int) (nanos : Nat) : Option Timestamp :=
  match Date.ofNumber? (seconds / 86400) with
  | none => none
  | some date =>
    let rest := (seconds % 86400).toNat
    if 1000000000 ≤ nanos ∧ rest % 60 ≠ 59 then none
    else (TimeOfDay.of? (rest / 3600) (rest / 60 % 60) (rest % 60) nanos).map (⟨date, ·⟩)

/-- The whole milliseconds since 1970-01-01, leap seconds not counted apart. -/
def unixMillis (t : Timestamp) : Int :=
  ((t.date.number * 24 + t.time.hour) * 60 + t.time.minute) * 60000 + t.time.second * 1000 + (t.time.nanos / 1000000 : Nat)

end Timestamp
end ReviewQueue
