import ReviewQueue.Number.Numeral

/-!
# Cells

What a table holds at a row and a column. A cell has a type of its own, whatever its column; on the way into a column it is
brought to the column's kind where that can be done. Cells of all types stand in one order, in which numbers are numbers,
whether they are integers or have a point.
-/

namespace ReviewQueue

/-- A value in a table. A text is bytes that are meant to be UTF-8. -/
inductive Cell where
  | null
  | int (n : Int)
  | real (x : Double)
  | text (bytes : Bytes)
  | blob (bytes : Bytes)
  deriving DecidableEq, Repr, Inhabited

namespace Cell

/-- The cell of a string. -/
def ofString (s : String) : Cell := .text (bytesOf s)

@[simp] theorem ofString_ne_null (s : String) : ofString s ≠ .null := Cell.noConfusion

/-- A cell or null. -/
def ofOption {α : Type} (write : α → Cell) : Option α → Cell
  | none => .null
  | some a => write a

/-- The name of a cell's type. -/
def typeName : Cell → String
  | null => "Null"
  | int _ => "Integer"
  | real _ => "Real"
  | text _ => "Text"
  | blob _ => "Blob"

/-! ## Kinds -/

/-- What a column is for: the key that numbers the rows, integers and other numbers, numbers with a point, texts, or whatever is
given. -/
inductive Kind where
  | key | integer | real | text | blob
  deriving DecidableEq, Repr, Inhabited

/-- Whether a column is for numbers. -/
def Kind.isNumeric : Kind → Bool
  | .key | .integer | .real => true
  | .text | .blob => false

/-- The kind to which a cell is brought that is sought in a column: a number is sought as it is. -/
def Kind.sought : Kind → Kind
  | .real => .integer
  | k => k

/-- The cell of a number with a point: an integer if it is one of 64 bits. -/
def ofDouble (x : Double) : Cell :=
  match x.toInt? with
  | some n => .int n
  | none => .real x

/-- The cell of a numeral. -/
def ofNumeral (u : Numeral) : Cell :=
  if u.isInteger ∧ Int64.minValue.toInt ≤ u.integer ∧ u.integer ≤ Int64.maxValue.toInt then .int u.integer else ofDouble u.toDouble

/-- A cell as a number, if it is one or a text that spells one. -/
def asNumber : Cell → Cell
  | .real x => ofDouble x
  | .text s => ((Numeral.read? s).map ofNumeral).getD (.text s)
  | c => c

/-- A cell as a text, if it is a number. -/
def asText : Cell → Cell
  | .int n => .ofString (toString n)
  | .real x => .ofString x.text
  | c => c

/-- An integer as a number with a point. -/
def withPoint : Cell → Cell
  | .int n => .real (.ofInt n)
  | c => c

/-- A cell brought to a kind. -/
def asKind : Kind → Cell → Cell
  | .key, c | .integer, c => c.asNumber
  | .real, c => c.asNumber.withPoint
  | .text, c => c.asText
  | .blob, c => c

@[simp] theorem asKind_null (k : Kind) : asKind k .null = .null := by cases k <;> rfl

@[simp] theorem asKind_key_int (n : Int) : asKind .key (.int n) = .int n := rfl

@[simp] theorem asKind_integer_int (n : Int) : asKind .integer (.int n) = .int n := rfl

@[simp] theorem asKind_text_ofString (s : String) : asKind .text (ofString s) = ofString s := rfl

/-! ## Order -/

/-- The place of a cell's type among the types. -/
def rank : Cell → Nat
  | null => 0
  | int _ => 1
  | real _ => 1
  | text _ => 2
  | blob _ => 3

/-- The order of cells: null, numbers by size, texts by bytes, blobs by bytes. -/
def le : Cell → Cell → Bool
  | int m, int n => m ≤ n
  | int m, real y => Double.leOfInt m y
  | real x, int n => x.leToInt n
  | real x, real y => x.order ≤ y.order
  | text a, text b => a ≤ b
  | blob a, blob b => a ≤ b
  | a, b => a.rank ≤ b.rank

/-- Whether two cells stand at one place in the order. -/
def equal : Cell → Cell → Bool
  | int m, real y => Double.leOfInt m y && y.leToInt m
  | real x, int n => x.leToInt n && Double.leOfInt n x
  | real x, real y => x.order = y.order
  | a, b => a = b

/-- Whether two cells are equal and not null. -/
def same (a b : Cell) : Bool := a ≠ .null && a.equal b

end Cell
end ReviewQueue
