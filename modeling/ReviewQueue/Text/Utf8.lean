/-!
# UTF-8

A stored text is a string of bytes and need not be well formed. `Utf8.scan` cuts it into pieces: whole characters, broken
sequences and an end inside a sequence. Reading a text (`decode`) and showing it with replacement characters (`lossy`) are both
read off the pieces, so they agree on where a text is broken.
-/

namespace ReviewQueue

/-- A string of bytes, such as a stored text or a path. -/
abbrev Bytes := List UInt8

namespace Utf8

/-- A continuation byte: `0x80` to `0xBF`. -/
def isTail (b : UInt8) : Bool := 0x80 ≤ b && b ≤ 0xBF

/-- The second byte a three-byte sequence may have: overlong forms and surrogates are excluded. -/
def isSecondOfThree (a b : UInt8) : Bool :=
  if a = 0xE0 then 0xA0 ≤ b && b ≤ 0xBF
  else if a = 0xED then 0x80 ≤ b && b ≤ 0x9F
  else isTail b

/-- The second byte a four-byte sequence may have: overlong forms and numbers above `0x10FFFF` are excluded. -/
def isSecondOfFour (a b : UInt8) : Bool :=
  if a = 0xF0 then 0x90 ≤ b && b ≤ 0xBF
  else if a = 0xF4 then 0x80 ≤ b && b ≤ 0x8F
  else isTail b

/-- A piece of a byte string: a character, a broken sequence of one to three bytes, or an end inside a sequence. -/
inductive Piece where
  | whole (c : Char)
  | broken (length : Nat)
  | cut
  deriving DecidableEq, Repr

/-- The character of a two-byte sequence. -/
def two (a b : UInt8) : Char := Char.ofNat ((a.toNat - 0xC0) * 64 + (b.toNat - 0x80))

/-- The character of a three-byte sequence. -/
def three (a b c : UInt8) : Char :=
  Char.ofNat ((a.toNat - 0xE0) * 4096 + (b.toNat - 0x80) * 64 + (c.toNat - 0x80))

/-- The character of a four-byte sequence. -/
def four (a b c d : UInt8) : Char :=
  Char.ofNat ((a.toNat - 0xF0) * 262144 + (b.toNat - 0x80) * 4096 + (c.toNat - 0x80) * 64 + (d.toNat - 0x80))

/-- The pieces of a byte string. A sequence breaks before the first byte that cannot continue it, and that byte starts the
next piece, so every broken piece is as long as it can be. -/
def scan : Bytes → List Piece
  | [] => []
  | a :: rest =>
    if a < 0x80 then .whole (Char.ofNat a.toNat) :: scan rest
    else if a < 0xC2 then .broken 1 :: scan rest
    else if a < 0xE0 then
      match rest with
      | [] => [.cut]
      | b :: rest₁ => if isTail b then .whole (two a b) :: scan rest₁ else .broken 1 :: scan (b :: rest₁)
    else if a < 0xF0 then
      match rest with
      | [] => [.cut]
      | b :: rest₁ =>
        if isSecondOfThree a b then
          match rest₁ with
          | [] => [.cut]
          | c :: rest₂ => if isTail c then .whole (three a b c) :: scan rest₂ else .broken 2 :: scan (c :: rest₂)
        else .broken 1 :: scan (b :: rest₁)
    else if a < 0xF5 then
      match rest with
      | [] => [.cut]
      | b :: rest₁ =>
        if isSecondOfFour a b then
          match rest₁ with
          | [] => [.cut]
          | c :: rest₂ =>
            if isTail c then
              match rest₂ with
              | [] => [.cut]
              | d :: rest₃ => if isTail d then .whole (four a b c d) :: scan rest₃ else .broken 3 :: scan (d :: rest₃)
            else .broken 2 :: scan (c :: rest₂)
        else .broken 1 :: scan (b :: rest₁)
    else .broken 1 :: scan rest

/-- The bytes of a character. -/
def encodeChar (c : Char) : Bytes :=
  let n := c.toNat
  if n < 0x80 then [.ofNat n]
  else if n < 0x800 then [.ofNat (0xC0 + n / 64), .ofNat (0x80 + n % 64)]
  else if n < 0x10000 then [.ofNat (0xE0 + n / 4096), .ofNat (0x80 + n / 64 % 64), .ofNat (0x80 + n % 64)]
  else [.ofNat (0xF0 + n / 262144), .ofNat (0x80 + n / 4096 % 64), .ofNat (0x80 + n / 64 % 64), .ofNat (0x80 + n % 64)]

/-- The bytes of a text. -/
def encode (s : List Char) : Bytes := s.flatMap encodeChar

/-- Where and how a text stops being UTF-8. -/
inductive Break where
  /-- A sequence of `length` bytes from byte `start` that nothing can continue. -/
  | invalid (length start : Nat)
  /-- The text ends inside the sequence that starts at byte `start`. -/
  | incomplete (start : Nat)
  deriving DecidableEq, Repr

/-- A break as it is reported. -/
def Break.message : Break → String
  | .invalid length start => s!"invalid utf-8 sequence of {length} bytes from index {start}"
  | .incomplete start => s!"incomplete utf-8 byte sequence from index {start}"

/-- The characters of some pieces, the first of which starts at byte `start`, or the first break. -/
def Piece.readAll (start : Nat) : List Piece → Except Break (List Char)
  | [] => .ok []
  | .whole c :: rest => (readAll (start + (encodeChar c).length) rest).map (c :: ·)
  | .broken length :: _ => .error (.invalid length start)
  | .cut :: _ => .error (.incomplete start)

/-- Read a text: its characters if it is well formed, else its first break. -/
def decode (bytes : Bytes) : Except Break String := (Piece.readAll 0 (scan bytes)).map String.ofList

/-- The character a piece is shown as: a broken one is replaced. -/
def Piece.shown : Piece → Char
  | .whole c => c
  | _ => '\uFFFD'

/-- A text with every broken piece replaced by U+FFFD. -/
def lossy (bytes : Bytes) : String := String.ofList ((scan bytes).map Piece.shown)

end Utf8

/-- The bytes of a string. -/
def bytesOf (s : String) : Bytes := Utf8.encode s.toList

end ReviewQueue
