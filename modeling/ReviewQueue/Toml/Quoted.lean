import ReviewQueue.Text.Fields
import ReviewQueue.Toml.Line

/-!
# Quoted texts

A text is quoted in one of four styles: basic and literal, on one line or on several. Basic styles have escapes; literal ones have
none, so that some texts have no literal form. Writing takes the first style in which the text can be read at a glance, and
otherwise a basic one with escapes.
-/

namespace ReviewQueue.Toml

/-- The character that the letter after a backslash stands for. -/
def escapeOf? : Char → Option Char
  | 'b' => some '\x08'
  | 't' => some '\t'
  | 'n' => some '\n'
  | 'f' => some '\x0c'
  | 'r' => some '\r'
  | '"' => some '"'
  | '\\' => some '\\'
  | _ => none

/-- Read a number of `width` hexadecimal digits. -/
def readHex? : Nat → Nat → List Char → Option (Nat × List Char)
  | 0, n, s => some (n, s)
  | _ + 1, _, [] => none
  | width + 1, n, c :: rest => do readHex? width (16 * n + (← Digits.hexValue? c)) rest

/-- Reading digits leaves no more than there was. -/
theorem readHex?_length {width n m : Nat} {s rest : List Char} (h : readHex? width n s = some (m, rest)) :
    rest.length ≤ s.length := by
  induction width generalizing n s with
  | zero =>
    obtain ⟨-, rfl⟩ := by simpa [readHex?] using h
    exact Nat.le_refl _
  | succ width ih =>
    cases s with
    | nil => simp [readHex?] at h
    | cons c s =>
      rw [readHex?] at h
      obtain ⟨v, -, h⟩ := Option.bind_eq_some_iff.mp h
      exact Nat.le_succ_of_le (ih h)

/-- The character of a number, if it has one. -/
def charOf? (n : Nat) : Option Char := if n.isValidChar then some (Char.ofNat n) else none

/-- Read a character of `width` hexadecimal digits. -/
def readCode? (width : Nat) (s : List Char) : Option (Char × List Char) := do
  let (n, rest) ← readHex? width 0 s
  return (← charOf? n, rest)

/-- Read what follows a backslash. -/
def readEscape? : List Char → Option (Char × List Char)
  | [] => none
  | 'u' :: rest => readCode? 4 rest
  | 'U' :: rest => readCode? 8 rest
  | c :: rest => (escapeOf? c).map (·, rest)

/-- Nor does reading a code. -/
theorem readCode?_length {width : Nat} {s rest : List Char} {c : Char} (h : readCode? width s = some (c, rest)) :
    rest.length ≤ s.length := by
  obtain ⟨⟨n, r⟩, hr, h⟩ := Option.bind_eq_some_iff.mp h
  obtain ⟨d, -, h⟩ := Option.bind_eq_some_iff.mp h
  obtain ⟨-, rfl⟩ := by simpa using h
  exact readHex?_length hr

/-- Reading an escape leaves less than there was. -/
theorem readEscape?_length {s rest : List Char} {c : Char} (h : readEscape? s = some (c, rest)) : rest.length < s.length := by
  match s with
  | [] => simp [readEscape?] at h
  | x :: s =>
    rw [List.length_cons, Nat.lt_succ_iff]
    unfold readEscape? at h
    split at h
    · simp at *
    next heq =>
      obtain ⟨-, rfl⟩ := List.cons.inj heq
      exact readCode?_length h
    next heq =>
      obtain ⟨-, rfl⟩ := List.cons.inj heq
      exact readCode?_length h
    next heq =>
      obtain ⟨-, rfl⟩ := List.cons.inj heq
      obtain ⟨d, -, h⟩ := Option.map_eq_some_iff.mp h
      obtain ⟨-, rfl⟩ := by simpa using h
      exact Nat.le_refl _

/-- A text read with one more character in front. -/
def prepend (c : Char) : List Char × List Char → List Char × List Char := fun (text, rest) => (c :: text, rest)

/-! ## Reading -/

/-- Read a basic text on one line, up to its quote. -/
def readBasic? : List Char → Option (List Char × List Char)
  | [] => none
  | c :: s =>
    if c = '"' then some ([], s)
    else if c = '\\' then
      match h : readEscape? s with
      | none => none
      | some (c, rest) =>
        have : rest.length < s.length + 1 := Nat.lt_succ_of_lt (readEscape?_length h)
        (readBasic? rest).map (prepend c)
    else if isPlain c then (readBasic? s).map (prepend c)
    else none
termination_by s => s.length

/-- Read a literal text on one line, up to its quote. -/
def readLiteral? : List Char → Option (List Char × List Char)
  | [] => none
  | c :: s =>
    if c = '\'' then some ([], s)
    else if isPlain c then (readLiteral? s).map (prepend c)
    else none

/-- The end of a text on several lines, three quotes; up to two before them belong to the text. -/
def closing? (quote : Char) : List Char → Option (List Char × List Char)
  | a :: b :: c :: s =>
    if a = quote ∧ b = quote ∧ c = quote then
      match s with
      | d :: e :: rest =>
        if d = quote then (if e = quote then some ([quote, quote], rest) else some ([quote], e :: rest)) else some ([], s)
      | [d] => if d = quote then some ([quote], []) else some ([], [d])
      | [] => some ([], [])
    else none
  | _ => none

/-- A text without the blanks and newlines it starts with. -/
def skipGap : List Char → List Char
  | [] => []
  | '\r' :: '\n' :: rest => skipGap rest
  | c :: rest => if isBlank c || c = '\n' then skipGap rest else c :: rest

/-- The text after a line broken by a backslash: the blanks and newlines that follow are skipped. -/
def brokenLine? (s : List Char) : Option (List Char) := (newline? (skipBlanks s)).map skipGap

/-- So does reading a newline. -/
theorem newline?_length {s rest : List Char} (h : newline? s = some rest) : rest.length < s.length := by
  unfold newline? at h
  split at h
  · obtain rfl := Option.some.inj h
    exact Nat.lt_succ_self _
  · obtain rfl := Option.some.inj h
    exact Nat.lt_succ_of_lt (Nat.lt_succ_self _)
  · exact nomatch h

theorem length_dropWhile_le {α : Type} (p : α → Bool) (s : List α) : (s.dropWhile p).length ≤ s.length :=
  (List.dropWhile_suffix p).length_le

theorem length_skipGap_le (s : List Char) : (skipGap s).length ≤ s.length := by
  fun_induction skipGap s with
  | case1 => exact Nat.le_refl _
  | case2 rest ih => exact Nat.le_succ_of_le (Nat.le_succ_of_le ih)
  | case3 c rest _ _ ih => exact Nat.le_succ_of_le ih
  | case4 c rest => exact Nat.le_refl _

/-- So does reading over a line that is broken. -/
theorem brokenLine?_length {s rest : List Char} (h : brokenLine? s = some rest) : rest.length < s.length := by
  obtain ⟨r, hr, rfl⟩ := Option.map_eq_some_iff.mp h
  exact Nat.lt_of_le_of_lt (length_skipGap_le _)
    (Nat.lt_of_lt_of_le (newline?_length hr) (length_dropWhile_le _ _))

/-- Read a basic text on several lines, up to its quotes. -/
def readLines? : List Char → Option (List Char × List Char)
  | [] => none
  | c :: s =>
    match closing? '"' (c :: s) with
    | some found => some found
    | none =>
      if c = '\\' then
        match h : brokenLine? s with
        | some rest =>
          have : rest.length < s.length + 1 := Nat.lt_succ_of_lt (brokenLine?_length h)
          readLines? rest
        | none =>
          match h : readEscape? s with
          | none => none
          | some (c, rest) =>
            have : rest.length < s.length + 1 := Nat.lt_succ_of_lt (readEscape?_length h)
            (readLines? rest).map (prepend c)
      else
        match h : newline? (c :: s) with
        | some rest =>
          have : rest.length < s.length + 1 := newline?_length h
          (readLines? rest).map (prepend '\n')
        | none => if isPlain c then (readLines? s).map (prepend c) else none
termination_by s => s.length

/-- Read a literal text on several lines, up to its quotes. -/
def readLiteralLines? : List Char → Option (List Char × List Char)
  | [] => none
  | c :: s =>
    match closing? '\'' (c :: s) with
    | some found => some found
    | none =>
      match h : newline? (c :: s) with
      | some rest =>
        have : rest.length < s.length + 1 := newline?_length h
        (readLiteralLines? rest).map (prepend '\n')
      | none => if isPlain c then (readLiteralLines? s).map (prepend c) else none
termination_by s => s.length

/-- A text without the newline it starts with. -/
def skipNewline (s : List Char) : List Char := (newline? s).getD s

/-- Read a text in one of the styles for one line. -/
def readQuotedLine? : List Char → Option (List Char × List Char)
  | '"' :: s => readBasic? s
  | '\'' :: s => readLiteral? s
  | _ => none

/-- Read a text in any style. -/
def readQuoted? : List Char → Option (List Char × List Char)
  | '"' :: '"' :: '"' :: s => readLines? (skipNewline s)
  | '\'' :: '\'' :: '\'' :: s => readLiteralLines? (skipNewline s)
  | s => readQuotedLine? s

/-! ## Writing -/

/-- How a text is quoted. -/
inductive Style where
  | basic | literal | lines | literalLines
  deriving DecidableEq, Repr

/-- A control character that has to be escaped in every style: all but tab and newline. -/
def isControl (c : Char) : Bool := (c.toNat < 0x20 && c ≠ '\t' && c ≠ '\n') || c.toNat = 0x7F

/-- The length of the longest run of a character, `run` of which stand before the text. -/
def longestRun (x : Char) : Nat → List Char → Nat
  | run, [] => run
  | run, c :: s => if c = x then longestRun x (run + 1) s else max run (longestRun x 0 s)

/-- The style for a text. -/
def Style.ofText (s : List Char) : Style :=
  let controls := s.any isControl
  let backslashes := s.contains '\\'
  let lines := s.contains '\n'
  if !controls && !backslashes && !s.contains '"' && !lines then .basic
  else if !controls && !s.contains '\'' && !lines then .literal
  else if !controls && !backslashes && longestRun '"' 0 s ≤ 2 then .lines
  else if !controls && longestRun '\'' 0 s ≤ 2 then .literalLines
  else if lines then .lines
  else .basic

/-- The letter that stands for a character after a backslash; quotes are not among them. -/
def letterOf? : Char → Option Char
  | '\x08' => some 'b'
  | '\t' => some 't'
  | '\n' => some 'n'
  | '\x0c' => some 'f'
  | '\r' => some 'r'
  | '\\' => some '\\'
  | _ => none

/-- The upper-case hexadecimal digit of a number below 16. -/
def hexDigit (n : Nat) : Char := Char.ofNat (if n < 10 then 0x30 + n else 0x37 + n)

/-- A control character by its number. -/
def writeCode (c : Char) : List Char :=
  ['\\', 'u', '0', '0', hexDigit (c.toNat / 16), hexDigit (c.toNat % 16)]

/-- The inside of a basic text. Up to `most` quotes in a row stand for themselves; `run` of them were written just before. A newline
stands for itself on several lines. -/
def writeInside (lines : Bool) (most : Nat) : Nat → List Char → List Char
  | _, [] => []
  | run, c :: s =>
    if c = '"' then
      if run < most then '"' :: writeInside lines most (run + 1) s else '\\' :: '"' :: writeInside lines most 0 s
    else if c = '\n' ∧ lines then '\n' :: writeInside lines most 0 s
    else match letterOf? c with
      | some letter => '\\' :: letter :: writeInside lines most 0 s
      | none =>
        if isControl c then writeCode c ++ writeInside lines most 0 s else c :: writeInside lines most 0 s

/-- The newline that a text on several lines starts with, if it has one itself. -/
def leading (s : List Char) : List Char := if s.contains '\n' then ['\n'] else []

/-- A text in a style. -/
def Style.write (style : Style) (s : List Char) : List Char :=
  match style with
  | .basic => '"' :: writeInside false 0 0 s ++ ['"']
  | .literal => '\'' :: s ++ ['\'']
  | .lines => ['"', '"', '"'] ++ leading s ++ writeInside true 2 0 s ++ ['"', '"', '"']
  | .literalLines => ['\'', '\'', '\''] ++ leading s ++ s ++ ['\'', '\'', '\'']

/-- A text, quoted. -/
def writeQuoted (s : List Char) : List Char := (Style.ofText s).write s

end ReviewQueue.Toml
