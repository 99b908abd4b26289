/-!
# Lines of a TOML document

Blanks, comments and the ends of lines. A line ends with a newline, with a return and a newline, or with the document; before
that there may be blanks and a comment.
-/

namespace ReviewQueue.Toml

/-- A blank within a line. -/
def isBlank (c : Char) : Bool := c = ' ' || c = '\t'

/-- A character that may stand for itself: no control character but the tab. -/
def isPlain (c : Char) : Bool := c = '\t' || (0x20 ≤ c.toNat && c.toNat ≠ 0x7F)

/-- A text without the blanks it starts with. -/
def skipBlanks (s : List Char) : List Char := s.dropWhile isBlank

/-- The text after a newline. -/
def newline? : List Char → Option (List Char)
  | '\n' :: rest => some rest
  | '\r' :: '\n' :: rest => some rest
  | _ => none

/-- A text without the comment it starts with. -/
def skipComment : List Char → List Char
  | '#' :: rest => rest.dropWhile isPlain
  | s => s

/-- The text after the end of the line. -/
def lineEnd? (s : List Char) : Option (List Char) :=
  match skipComment (skipBlanks s) with
  | [] => some []
  | rest => newline? rest

/-- A text without the blanks, comments and ends of lines it starts with. The fuel bounds the number of lines. -/
def skipLinesWithin : Nat → List Char → List Char
  | 0, s => s
  | fuel + 1, s =>
    match newline? (skipComment (skipBlanks s)) with
    | some rest => skipLinesWithin fuel rest
    | none => skipBlanks s

/-- A text without the blanks, comments and ends of lines it starts with. -/
def skipLines (s : List Char) : List Char := skipLinesWithin s.length s

end ReviewQueue.Toml
