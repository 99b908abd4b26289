import ReviewQueue.Text.Utf8

/-!
# Reading back UTF-8

The bytes of a text are read as that text again. The bytes of one character are cut off as one whole piece, whatever
follows them. The other way round, bytes that are read as a text are the bytes of that text, so no two byte strings are
read as the same one.
-/

namespace ReviewQueue.Utf8

/-- A number below 256 is kept by the byte it makes. -/
theorem toNat_ofNat_of_lt {n : Nat} (h : n < 256) : (UInt8.ofNat n).toNat = n := by
  rw [UInt8.toNat_ofNat', Nat.mod_eq_of_lt h]

/-- A continuation byte, by its number. -/
theorem isTail_iff {b : UInt8} : isTail b = true ↔ 0x80 ≤ b.toNat ∧ b.toNat ≤ 0xBF := by
  simp only [isTail, Bool.and_eq_true, decide_eq_true_eq, UInt8.le_iff_toNat_le, UInt8.reduceToNat]

/-- The second byte of three is a continuation byte, and neither makes an overlong form nor a surrogate. -/
theorem isSecondOfThree_iff {a b : UInt8} : isSecondOfThree a b = true ↔
    0x80 ≤ b.toNat ∧ b.toNat ≤ 0xBF ∧ (a.toNat = 0xE0 → 0xA0 ≤ b.toNat) ∧ (a.toNat = 0xED → b.toNat ≤ 0x9F) := by
  unfold isSecondOfThree isTail
  simp only [← UInt8.toNat_inj, UInt8.le_iff_toNat_le, UInt8.reduceToNat]
  split
  · simp only [Bool.and_eq_true, decide_eq_true_eq]
    omega
  · split <;> simp only [Bool.and_eq_true, decide_eq_true_eq] <;> omega

/-- The second byte of four is a continuation byte, and neither makes an overlong form nor a number past the last
character. -/
theorem isSecondOfFour_iff {a b : UInt8} : isSecondOfFour a b = true ↔
    0x80 ≤ b.toNat ∧ b.toNat ≤ 0xBF ∧ (a.toNat = 0xF0 → 0x90 ≤ b.toNat) ∧ (a.toNat = 0xF4 → b.toNat ≤ 0x8F) := by
  unfold isSecondOfFour isTail
  simp only [← UInt8.toNat_inj, UInt8.le_iff_toNat_le, UInt8.reduceToNat]
  split
  · simp only [Bool.and_eq_true, decide_eq_true_eq]
    omega
  · split <;> simp only [Bool.and_eq_true, decide_eq_true_eq] <;> omega

/-! ## Characters that are cut off -/

variable {a b d e : UInt8} (rest : Bytes)

/-- A byte below 128 is a character by itself. -/
theorem scan_one (ha : a < 0x80) : scan (a :: rest) = .whole (Char.ofNat a.toNat) :: scan rest := by
  rw [scan.eq_def]
  exact if_pos ha

/-- A sequence of two bytes is cut off whole. -/
theorem scan_two (ha : ¬a < 0xC2) (ha' : a < 0xE0) (hb : isTail b = true) :
    scan (a :: b :: rest) = .whole (two a b) :: scan rest := by
  have h80 : ¬a < 0x80 := fun h => ha (UInt8.lt_trans h (by decide))
  rw [scan.eq_def]
  simp only [if_neg h80, if_neg ha, if_pos ha', if_pos hb]

/-- A sequence of three bytes is cut off whole. -/
theorem scan_three (ha : ¬a < 0xE0) (ha' : a < 0xF0) (hb : isSecondOfThree a b = true) (hd : isTail d = true) :
    scan (a :: b :: d :: rest) = .whole (three a b d) :: scan rest := by
  have h80 : ¬a < 0x80 := fun h => ha (UInt8.lt_trans h (by decide))
  have hC2 : ¬a < 0xC2 := fun h => ha (UInt8.lt_trans h (by decide))
  rw [scan.eq_def]
  simp only [if_neg h80, if_neg hC2, if_neg ha, if_pos ha', if_pos hb, if_pos hd]

/-- A sequence of four bytes is cut off whole. -/
theorem scan_four (ha : ¬a < 0xF0) (ha' : a < 0xF5) (hb : isSecondOfFour a b = true) (hd : isTail d = true)
    (he : isTail e = true) : scan (a :: b :: d :: e :: rest) = .whole (four a b d e) :: scan rest := by
  have h80 : ¬a < 0x80 := fun h => ha (UInt8.lt_trans h (by decide))
  have hC2 : ¬a < 0xC2 := fun h => ha (UInt8.lt_trans h (by decide))
  have hE0 : ¬a < 0xE0 := fun h => ha (UInt8.lt_trans h (by decide))
  rw [scan.eq_def]
  simp only [if_neg h80, if_neg hC2, if_neg hE0, if_neg ha, if_pos ha', if_pos hb, if_pos hd, if_pos he]

/-! ## The bytes of a character -/

/-- A character is no surrogate. -/
theorem toNat_valid (c : Char) : c.toNat < 0xD800 ∨ (0xDFFF < c.toNat ∧ c.toNat < 0x110000) := c.valid

/-- The bytes of a character above 127 and below 2048 are a sequence of two. -/
theorem encodeChar_of_two {c : Char} (h : 0x80 ≤ c.toNat) (h' : c.toNat < 0x800) :
    ∃ a b, encodeChar c = [a, b] ∧ ¬a < 0xC2 ∧ a < 0xE0 ∧ isTail b = true ∧ two a b = c := by
  have ha : (UInt8.ofNat (0xC0 + c.toNat / 64)).toNat = 0xC0 + c.toNat / 64 := toNat_ofNat_of_lt (by omega)
  have hb : (UInt8.ofNat (0x80 + c.toNat % 64)).toNat = 0x80 + c.toNat % 64 := toNat_ofNat_of_lt (by omega)
  refine ⟨.ofNat (0xC0 + c.toNat / 64), .ofNat (0x80 + c.toNat % 64), ?_, ?_, ?_, ?_, ?_⟩
  · rw [encodeChar, if_neg (by omega), if_pos h']
  · simp only [UInt8.lt_iff_toNat_lt, ha, UInt8.reduceToNat]
    omega
  · simp only [UInt8.lt_iff_toNat_lt, ha, UInt8.reduceToNat]
    omega
  · rw [isTail_iff, hb]
    omega
  · have hn : (0xC0 + c.toNat / 64 - 0xC0) * 64 + (0x80 + c.toNat % 64 - 0x80) = c.toNat := by omega
    rw [two, ha, hb, hn, Char.ofNat_toNat]

/-- The bytes of a character above 2047 and below 65536 are a sequence of three. -/
theorem encodeChar_of_three {c : Char} (h : 0x800 ≤ c.toNat) (h' : c.toNat < 0x10000) :
    ∃ a b d, encodeChar c = [a, b, d] ∧ ¬a < 0xE0 ∧ a < 0xF0 ∧ isSecondOfThree a b = true ∧ isTail d = true ∧
      three a b d = c := by
  have hc := toNat_valid c
  have ha : (UInt8.ofNat (0xE0 + c.toNat / 4096)).toNat = 0xE0 + c.toNat / 4096 := toNat_ofNat_of_lt (by omega)
  have hb : (UInt8.ofNat (0x80 + c.toNat / 64 % 64)).toNat = 0x80 + c.toNat / 64 % 64 := toNat_ofNat_of_lt (by omega)
  have hd : (UInt8.ofNat (0x80 + c.toNat % 64)).toNat = 0x80 + c.toNat % 64 := toNat_ofNat_of_lt (by omega)
  refine ⟨.ofNat (0xE0 + c.toNat / 4096), .ofNat (0x80 + c.toNat / 64 % 64), .ofNat (0x80 + c.toNat % 64), ?_, ?_, ?_, ?_,
    ?_, ?_⟩
  · rw [encodeChar, if_neg (by omega), if_neg (by omega), if_pos h']
  · simp only [UInt8.lt_iff_toNat_lt, ha, UInt8.reduceToNat]
    omega
  · simp only [UInt8.lt_iff_toNat_lt, ha, UInt8.reduceToNat]
    omega
  · -- overlong forms and surrogates have other second bytes
    rw [isSecondOfThree_iff, ha, hb]
    omega
  · rw [isTail_iff, hd]
    omega
  · have hn : (0xE0 + c.toNat / 4096 - 0xE0) * 4096 + (0x80 + c.toNat / 64 % 64 - 0x80) * 64 +
        (0x80 + c.toNat % 64 - 0x80) = c.toNat := by omega
    rw [three, ha, hb, hd, hn, Char.ofNat_toNat]

/-- The bytes of a character above 65535 are a sequence of four. -/
theorem encodeChar_of_four {c : Char} (h : 0x10000 ≤ c.toNat) :
    ∃ a b d e, encodeChar c = [a, b, d, e] ∧ ¬a < 0xF0 ∧ a < 0xF5 ∧ isSecondOfFour a b = true ∧ isTail d = true ∧
      isTail e = true ∧ four a b d e = c := by
  have hc := toNat_valid c
  have ha : (UInt8.ofNat (0xF0 + c.toNat / 262144)).toNat = 0xF0 + c.toNat / 262144 := toNat_ofNat_of_lt (by omega)
  have hb : (UInt8.ofNat (0x80 + c.toNat / 4096 % 64)).toNat = 0x80 + c.toNat / 4096 % 64 := toNat_ofNat_of_lt (by omega)
  have hd : (UInt8.ofNat (0x80 + c.toNat / 64 % 64)).toNat = 0x80 + c.toNat / 64 % 64 := toNat_ofNat_of_lt (by omega)
  have he : (UInt8.ofNat (0x80 + c.toNat % 64)).toNat = 0x80 + c.toNat % 64 := toNat_ofNat_of_lt (by omega)
  refine ⟨.ofNat (0xF0 + c.toNat / 262144), .ofNat (0x80 + c.toNat / 4096 % 64), .ofNat (0x80 + c.toNat / 64 % 64),
    .ofNat (0x80 + c.toNat % 64), ?_, ?_, ?_, ?_, ?_, ?_, ?_⟩
  · rw [encodeChar, if_neg (by omega), if_neg (by omega), if_neg (by omega)]
  · simp only [UInt8.lt_iff_toNat_lt, ha, UInt8.reduceToNat]
    omega
  · simp only [UInt8.lt_iff_toNat_lt, ha, UInt8.reduceToNat]
    omega
  · -- overlong forms and numbers past the last character have other second bytes
    rw [isSecondOfFour_iff, ha, hb]
    omega
  · rw [isTail_iff, hd]
    omega
  · rw [isTail_iff, he]
    omega
  · have hn : (0xF0 + c.toNat / 262144 - 0xF0) * 262144 + (0x80 + c.toNat / 4096 % 64 - 0x80) * 4096 +
        (0x80 + c.toNat / 64 % 64 - 0x80) * 64 + (0x80 + c.toNat % 64 - 0x80) = c.toNat := by omega
    rw [four, ha, hb, hd, he, hn, Char.ofNat_toNat]

/-- The bytes of a character are one whole piece, whatever follows. -/
theorem scan_encodeChar (c : Char) : scan (encodeChar c ++ rest) = .whole c :: scan rest := by
  by_cases h1 : c.toNat < 0x80
  · have ha : (UInt8.ofNat c.toNat).toNat = c.toNat := toNat_ofNat_of_lt (by omega)
    have hlt : UInt8.ofNat c.toNat < 0x80 := UInt8.lt_iff_toNat_lt.mpr (by rw [ha]; exact h1)
    rw [encodeChar, if_pos h1, List.singleton_append, scan_one rest hlt, ha, Char.ofNat_toNat]
  by_cases h2 : c.toNat < 0x800
  · obtain ⟨a, b, hbytes, ha, ha', hb, htwo⟩ := encodeChar_of_two (Nat.le_of_not_lt h1) h2
    rw [hbytes, ← htwo]
    exact scan_two rest ha ha' hb
  by_cases h3 : c.toNat < 0x10000
  · obtain ⟨a, b, d, hbytes, ha, ha', hb, hd, hthree⟩ := encodeChar_of_three (Nat.le_of_not_lt h2) h3
    rw [hbytes, ← hthree]
    exact scan_three rest ha ha' hb hd
  · obtain ⟨a, b, d, e, hbytes, ha, ha', hb, hd, he, hfour⟩ := encodeChar_of_four (Nat.le_of_not_lt h3)
    rw [hbytes, ← hfour]
    exact scan_four rest ha ha' hb hd he

/-- The bytes of a text are those of its first character and then of the rest. -/
theorem encode_cons (c : Char) (s : List Char) : encode (c :: s) = encodeChar c ++ encode s := List.flatMap_cons

/-- The bytes of a text are cut into its characters. -/
theorem scan_encode (s : List Char) : scan (encode s) = s.map .whole := by
  induction s with
  | nil => rw [encode, List.flatMap_nil, scan, List.map_nil]
  | cons c s ih =>
    rw [encode_cons, scan_encodeChar, ih, List.map_cons]

/-- Whole characters are read as they are. -/
theorem readAll_whole (s : List Char) (start : Nat) : Piece.readAll start (s.map .whole) = .ok s := by
  induction s generalizing start with
  | nil => rfl
  | cons c s ih =>
    rw [List.map_cons, Piece.readAll, ih]
    rfl

/-- The bytes of a string are read as that string. -/
@[simp] theorem decode_bytesOf (s : String) : decode (bytesOf s) = .ok s := by
  unfold decode bytesOf
  rw [scan_encode, readAll_whole]
  exact congrArg Except.ok (String.ofList_toList)

/-! ## Bytes that are read -/

/-- The number of a character that is none of a surrogate is kept. -/
theorem toNat_ofNat_of_valid {n : Nat} (h : n < 0xD800 ∨ 0xDFFF < n ∧ n < 0x110000) : (Char.ofNat n).toNat = n := by
  have hn : n.isValidChar := h
  unfold Char.ofNat
  rw [dif_pos hn]
  rfl

/-- A byte that is a character by itself is the byte of that character. -/
theorem encodeChar_one (ha : a < 0x80) : encodeChar (Char.ofNat a.toNat) = [a] := by
  have hlt : a.toNat < 0x80 := ha
  unfold encodeChar
  rw [toNat_ofNat_of_valid (by omega), if_pos hlt, UInt8.ofNat_toNat]

/-- The two bytes that make a character are its bytes. -/
theorem encodeChar_two (ha : ¬a < 0xC2) (ha' : a < 0xE0) (hb : isTail b = true) :
    encodeChar (two a b) = [a, b] := by
  have hb := isTail_iff.mp hb
  simp only [UInt8.lt_iff_toNat_lt, UInt8.reduceToNat] at ha ha'
  unfold encodeChar two
  rw [toNat_ofNat_of_valid (by omega)]
  simp only
  generalize hn : (a.toNat - 0xC0) * 64 + (b.toNat - 0x80) = n
  rw [if_neg (by omega), if_pos (by omega)]
  have h1 : 0xC0 + n / 64 = a.toNat := by omega
  have h2 : 0x80 + n % 64 = b.toNat := by omega
  rw [h1, h2, UInt8.ofNat_toNat, UInt8.ofNat_toNat]

/-- So are three. -/
theorem encodeChar_three {a b c : UInt8} (ha : ¬a < 0xE0) (ha' : a < 0xF0) (hb : isSecondOfThree a b = true)
    (hc : isTail c = true) : encodeChar (three a b c) = [a, b, c] := by
  have hb := isSecondOfThree_iff.mp hb
  have hc := isTail_iff.mp hc
  simp only [UInt8.lt_iff_toNat_lt, UInt8.reduceToNat] at ha ha'
  unfold encodeChar three
  rw [toNat_ofNat_of_valid (by omega)]
  simp only
  generalize hn : (a.toNat - 0xE0) * 4096 + (b.toNat - 0x80) * 64 + (c.toNat - 0x80) = n
  rw [if_neg (by omega), if_neg (by omega), if_pos (by omega)]
  have h1 : 0xE0 + n / 4096 = a.toNat := by omega
  have h2 : 0x80 + n / 64 % 64 = b.toNat := by omega
  have h3 : 0x80 + n % 64 = c.toNat := by omega
  rw [h1, h2, h3, UInt8.ofNat_toNat, UInt8.ofNat_toNat, UInt8.ofNat_toNat]

/-- So are four. -/
theorem encodeChar_four {a b c d : UInt8} (ha : ¬a < 0xF0) (ha' : a < 0xF5) (hb : isSecondOfFour a b = true)
    (hc : isTail c = true) (hd : isTail d = true) : encodeChar (four a b c d) = [a, b, c, d] := by
  have hb := isSecondOfFour_iff.mp hb
  have hc := isTail_iff.mp hc
  have hd := isTail_iff.mp hd
  simp only [UInt8.lt_iff_toNat_lt, UInt8.reduceToNat] at ha ha'
  unfold encodeChar four
  rw [toNat_ofNat_of_valid (by omega)]
  simp only
  generalize hn : (a.toNat - 0xF0) * 262144 + (b.toNat - 0x80) * 4096 + (c.toNat - 0x80) * 64 + (d.toNat - 0x80) = n
  rw [if_neg (by omega), if_neg (by omega), if_neg (by omega)]
  have h1 : 0xF0 + n / 262144 = a.toNat := by omega
  have h2 : 0x80 + n / 4096 % 64 = b.toNat := by omega
  have h3 : 0x80 + n / 64 % 64 = c.toNat := by omega
  have h4 : 0x80 + n % 64 = d.toNat := by omega
  rw [h1, h2, h3, h4, UInt8.ofNat_toNat, UInt8.ofNat_toNat, UInt8.ofNat_toNat, UInt8.ofNat_toNat]

/-- What is read of pieces the first of which is a character starts with that character. -/
theorem readAll_whole_cons {start : Nat} {c : Char} {pieces : List Piece} {s : List Char}
    (h : Piece.readAll start (.whole c :: pieces) = .ok s) :
    ∃ start' rest, s = c :: rest ∧ Piece.readAll start' pieces = .ok rest := by
  rw [Piece.readAll] at h
  cases hrest : Piece.readAll (start + (encodeChar c).length) pieces with
  | error b =>
    rw [hrest] at h
    cases h
  | ok rest =>
    rw [hrest] at h
    cases h
    exact ⟨_, rest, rfl, hrest⟩

/-- The characters that are read of some bytes have these bytes. The cases are those of `scan`: where it finds a whole
character it took the bytes of that character, and elsewhere nothing is read. -/
theorem encode_of_readAll {bytes : Bytes} {start : Nat} {s : List Char} (h : Piece.readAll start (scan bytes) = .ok s) :
    encode s = bytes := by
  fun_induction scan bytes generalizing start s
  all_goals try (cases h; done)
  case case1 =>
    cases h
    rfl
  case case2 a rest ha ih =>
    obtain ⟨start', s', rfl, h'⟩ := readAll_whole_cons h
    rw [encode_cons, ih h', encodeChar_one ha]
    rfl
  case case5 a _ ha ha' b rest hb ih =>
    obtain ⟨start', s', rfl, h'⟩ := readAll_whole_cons h
    rw [encode_cons, ih h', encodeChar_two ha ha' hb]
    rfl
  case case9 a _ _ ha ha' b hb c rest hc ih =>
    obtain ⟨start', s', rfl, h'⟩ := readAll_whole_cons h
    rw [encode_cons, ih h', encodeChar_three ha ha' hb hc]
    rfl
  case case15 a _ _ _ ha ha' b hb c hc d rest hd ih =>
    obtain ⟨start', s', rfl, h'⟩ := readAll_whole_cons h
    rw [encode_cons, ih h', encodeChar_four ha ha' hb hc hd]
    rfl

/-- Bytes that are read as a string are the bytes of that string. -/
theorem bytesOf_of_decode {bytes : Bytes} {s : String} (h : decode bytes = .ok s) : bytesOf s = bytes := by
  unfold decode at h
  cases hread : Piece.readAll 0 (scan bytes) with
  | error b =>
    rw [hread] at h
    cases h
  | ok chars =>
    rw [hread] at h
    cases h
    exact (congrArg encode String.toList_ofList).trans (encode_of_readAll hread)

/-! ## Texts of one byte a character -/

theorem toNat_of_isDigit {c : Char} (h : c.isDigit = true) : 48 ≤ c.toNat ∧ c.toNat ≤ 57 := by
  simp only [Char.isDigit, Bool.and_eq_true, decide_eq_true_eq] at h
  exact ⟨h.1, h.2⟩

/-- A text of characters below 128 has a byte for each. -/
theorem encode_ascii {s : List Char} (h : ∀ c ∈ s, c.toNat < 0x80) : encode s = s.map fun c => .ofNat c.toNat := by
  induction s with
  | nil => rfl
  | cons c s ih =>
    rw [encode_cons, ih fun x hx => h x (by simp [hx]), encodeChar, if_pos (h c (by simp))]
    rfl

/-- The bytes of texts that follow each other follow each other. -/
theorem encode_append (s s' : List Char) : encode (s ++ s') = encode s ++ encode s' := List.flatMap_append

end ReviewQueue.Utf8
