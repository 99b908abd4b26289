import ReviewQueue.Text.Fields
import ReviewQueue.Toml.Number
import ReviewQueue.Toml.Quoted

/-!
# TOML documents

A document is a tree of tables, written line by line: a header opens a table, and the lines after it give its entries. Nothing
may be given twice; a table that was only implied by a longer name may be opened once, and one that was made by a dotted key may
only be extended by dotted keys. Of the values only texts and integers are kept; of the others it counts that they are neither.
-/

namespace ReviewQueue.Toml

/-- A value of an entry. -/
inductive Value where
  | text (s : String)
  | int (n : Int)
  /-- A value of any other kind. -/
  | other
  deriving DecidableEq, Repr

/-- What a name stands for. -/
inductive Item where
  | value (v : Value)
  /-- A table; `implied` if no header opened it, `dotted` if a dotted key made it. -/
  | table (implied dotted : Bool) (entries : List (String × Item))
  /-- Tables under one name, of which only the last can still change. -/
  | tables (last : List (String × Item))
  deriving Repr

/-- The names of a table, with what they stand for. -/
abbrev Entries := List (String × Item)

namespace Entries

/-- The entries with a name standing for something else. -/
def replace (es : Entries) (key : String) (item : Item) : Entries :=
  es.map fun (k, old) => (k, if k = key then item else old)

/-- Change the entries of the table that a path leads to; tables on the way are implied if they are not there. A dotted path passes
only through implied tables. `change` is told whether a dotted key made the table. -/
def alter (dotted : Bool) (change : Bool → Entries → Option Entries) : List String → Bool → Entries → Option Entries
  | [], made, es => change made es
  | key :: path, _, es =>
    match es.lookup key with
    | none => (alter dotted change path dotted []).map fun inner => es ++ [(key, .table true dotted inner)]
    | some (.value _) => none
    | some (.tables last) => (alter dotted change path false last).map fun inner => replace es key (.tables inner)
    | some (.table implied made inner) =>
      if dotted && !implied then none
      else (alter dotted change path made inner).map fun inner => replace es key (.table implied made inner)

/-- Give a value to a new name. -/
def give (key : String) (v : Value) (es : Entries) : Option Entries :=
  if (es.lookup key).isSome then none else some (es ++ [(key, .value v)])

/-- Give a value to a dotted key. A table made by dotted keys gets entries by dotted keys only, any other by plain ones only. -/
def enter (path : List String) (key : String) (v : Value) (made : Bool) (es : Entries) : Option Entries :=
  alter true (fun made es => if made = path.isEmpty then none else give key v es) path made es

/-- Open a table by its header. -/
def openTable (path : List String) (key : String) (es : Entries) : Option Entries :=
  alter false (fun _ es =>
    match es.lookup key with
    | none => some (es ++ [(key, .table false false [])])
    | some (.table true false inner) => some (replace es key (.table false false inner))
    | _ => none) path false es

/-- Open one more of the tables under one name. -/
def openNext (path : List String) (key : String) (es : Entries) : Option Entries :=
  alter false (fun _ es =>
    match es.lookup key with
    | none => some (es ++ [(key, .tables [])])
    | some (.tables _) => some (replace es key (.tables []))
    | _ => none) path false es

end Entries

/-! ## Keys -/

/-- A character of a key without quotes. -/
def isKeyChar (c : Char) : Bool := c.isAlphanum || c = '-' || c = '_'

/-- Read a key without dots. -/
def readSimpleKey? : List Char → Option (String × List Char)
  | [] => none
  | c :: s =>
    if c = '"' ∨ c = '\'' then (readQuotedLine? (c :: s)).map fun (text, rest) => (String.ofList text, rest)
    else if isKeyChar c then some (String.ofList ((c :: s).takeWhile isKeyChar), (c :: s).dropWhile isKeyChar)
    else none

/-- Read a key: names between dots, with blanks around them. The fuel bounds their number. -/
def readKeyWithin? : Nat → List Char → Option (List String × List Char)
  | 0, _ => none
  | fuel + 1, s => do
    let (name, s) ← readSimpleKey? (skipBlanks s)
    match skipBlanks s with
    | '.' :: rest => match readKeyWithin? fuel rest with
      | some (names, rest) => return (name :: names, rest)
      | none => none
    | rest => return ([name], rest)

/-- The number from which nesting is too deep. -/
def depthLimit : Nat := 80

/-- Read a key as a path and a last name. -/
def readKey? (s : List Char) : Option (List String × String × List Char) := do
  let (names, rest) ← readKeyWithin? (s.length + 1) s
  if depthLimit ≤ names.length then none
  else return (names.dropLast, ← names.getLast?, rest)

/-! ## Values -/

/-- Read values between commas up to a bracket. The fuel bounds their number. -/
def afterValues? (value : List Char → Option (Value × List Char)) : Nat → List Char → Option (List Char)
  | 0, _ => none
  | fuel + 1, s =>
    match skipLines s with
    | ']' :: rest => some rest
    | s => do
      let (_, s) ← value s
      match skipLines s with
      | ',' :: rest => afterValues? value fuel rest
      | ']' :: rest => some rest
      | _ => none

/-- Read a key, an equals sign and a value. -/
def readEntry? (value : List Char → Option (Value × List Char)) (s : List Char) :
    Option (List String × String × Value × List Char) := do
  let (path, key, s) ← readKey? s
  let s ← Mark.after? '=' s
  let (v, s) ← value (skipBlanks s)
  return (path, key, v, s)

/-- Read entries between commas up to a brace, all on one line. The fuel bounds their number. -/
def afterEntries? (value : List Char → Option (Value × List Char)) : Nat → Entries → List Char → Option (List Char)
  | 0, _, _ => none
  | fuel + 1, es, s => do
    let (path, key, v, s) ← readEntry? value s
    let es ← es.enter path key v false
    match skipBlanks s with
    | ',' :: rest => afterEntries? value fuel es rest
    | '\x7d' :: rest => some rest
    | _ => none

/-- Read a value that is a number or a time. -/
def readNumber? (s : List Char) : Option (Value × List Char) :=
  match afterMoment? s with
  | some rest => some (.other, rest)
  | none => match (afterFloat? s).or (afterSpecial? s) with
    | some rest => some (.other, rest)
    | none => (readInteger? s).map fun (n, rest) => (.int n, rest)

/-- Read a value in which at most `depth` brackets may be open at a time. -/
def readValue? : Nat → List Char → Option (Value × List Char)
  | _, [] => none
  | depth, c :: s =>
    if c = '"' ∨ c = '\'' then (readQuoted? (c :: s)).map fun (text, rest) => (.text (String.ofList text), rest)
    else if c = '[' then
      match depth with
      | 0 => none
      | depth + 1 => (afterValues? (readValue? depth) (s.length + 1) s).map (.other, ·)
    else if c = '\x7b' then
      match depth with
      | 0 => none
      | depth + 1 =>
        match skipBlanks s with
        | '\x7d' :: rest => some (.other, rest)
        | s => (afterEntries? (readValue? depth) (s.length + 1) [] s).map (.other, ·)
    else if c = '+' ∨ c = '-' ∨ c.isDigit then readNumber? (c :: s)
    else match c :: s with
      | 't' :: 'r' :: 'u' :: 'e' :: rest => some (.other, rest)
      | 'f' :: 'a' :: 'l' :: 's' :: 'e' :: rest => some (.other, rest)
      | s => (afterSpecial? s).map (.other, ·)

/-! ## Lines -/

/-- A document as far as it is read: its entries and the table that the lines are about. -/
structure Document where
  entries : Entries := []
  opened : List String := []
  deriving Repr

namespace Document

/-- Read a line with an entry. -/
def readEntryLine? (d : Document) (s : List Char) : Option (Document × List Char) := do
  let (path, key, v, s) ← readEntry? (readValue? (depthLimit - 1)) s
  let s ← lineEnd? s
  return ({ d with entries := ← d.entries.alter false (Entries.enter path key v) d.opened false }, s)

/-- Read a line with a header. -/
def readHeader? (d : Document) (s : List Char) : Option (Document × List Char) := do
  match s with
  | '[' :: s =>
    let (path, key, s) ← readKey? s
    let s ← lineEnd? (← Mark.after? ']' (← Mark.after? ']' s))
    return (⟨← d.entries.openNext path key, path ++ [key]⟩, s)
  | s =>
    let (path, key, s) ← readKey? s
    let s ← lineEnd? (← Mark.after? ']' s)
    return (⟨← d.entries.openTable path key, path ++ [key]⟩, s)

/-- Read lines to the end. The fuel bounds their number. -/
def readLines? : Nat → Document → List Char → Option Document
  | 0, _, _ => none
  | fuel + 1, d, s =>
    match skipBlanks s with
    | [] => some d
    | c :: s =>
      if c = '#' ∨ c = '\n' ∨ c = '\r' then do
        readLines? fuel d (← lineEnd? (c :: s))
      else do
        let (d, s) ← if c = '[' then d.readHeader? s else d.readEntryLine? (c :: s)
        readLines? fuel d s

/-- A text without the mark of its byte order. -/
def skipMark : List Char → List Char
  | '\uFEFF' :: s => s
  | s => s

/-- Read a document. -/
def read? (s : List Char) : Option Document := readLines? (s.length + 1) {} (skipMark s)

/-- What a name stands for at the top. -/
def item? (d : Document) (key : String) : Option Item := d.entries.lookup key

end Document
end ReviewQueue.Toml
