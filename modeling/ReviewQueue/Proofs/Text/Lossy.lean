import Mathlib.Data.List.Basic
import Mathlib.Tactic.Tauto
import ReviewQueue.Proofs.Text.Utf8

/-!
# Showing a text

A text is shown with a replacement character for each of its broken pieces. An ASCII byte is a piece of its own wherever it
stands, for no sequence goes on with it. So what stands before such a byte is shown as if it stood alone, and so is what stands
after it. A text that is shown without a replacement character is the text that is shown.
-/

namespace ReviewQueue.Utf8

/-- The character that stands for a broken piece. -/
def replacement : Char := '\uFFFD'

/-- The bytes of a text as it is shown. -/
def mend (bytes : Bytes) : Bytes := bytesOf (lossy bytes)

/-- A text is shown piece by piece. -/
theorem toList_lossy (bytes : Bytes) : (lossy bytes).toList = (scan bytes).map Piece.shown := String.toList_ofList

/-- The bytes of a string are shown as that string. -/
theorem lossy_bytesOf (s : String) : lossy (bytesOf s) = s := by
  have hshown : Piece.shown ∘ Piece.whole = id := rfl
  unfold lossy bytesOf
  rw [scan_encode, List.map_map, hshown, List.map_id, String.ofList_toList]

/-- What is shown is shown the same again. -/
theorem lossy_mend (bytes : Bytes) : lossy (mend bytes) = lossy bytes := lossy_bytesOf _

/-! ## An ASCII byte is a piece of its own -/

section

variable {x : UInt8}

/-- A byte below 128 continues nothing: -/
theorem isTail_of_ascii (hx : x < 0x80) : isTail x = false := by
  have hlt : x.toNat < 0x80 := hx
  rw [Bool.eq_false_iff, Ne, isTail_iff]
  omega

/-- not as the second of three, -/
theorem isSecondOfThree_of_ascii (a : UInt8) (hx : x < 0x80) : isSecondOfThree a x = false := by
  have hlt : x.toNat < 0x80 := hx
  rw [Bool.eq_false_iff]
  intro h
  have hbounds := isSecondOfThree_iff.mp h
  omega

/-- nor as the second of four. -/
theorem isSecondOfFour_of_ascii (a : UInt8) (hx : x < 0x80) : isSecondOfFour a x = false := by
  have hlt : x.toNat < 0x80 := hx
  rw [Bool.eq_false_iff]
  intro h
  have hbounds := isSecondOfFour_iff.mp h
  omega

/-- So it is a character by itself wherever it stands. -/
theorem scan_ascii (hx : x < 0x80) (rest : Bytes) : scan (x :: rest) = .whole (Char.ofNat x.toNat) :: scan rest := by
  rw [scan.eq_def]
  exact if_pos hx

/-- Showing goes through at an ASCII byte. The cases are those of `scan`: where it ran out of bytes inside a sequence it finds
the sequence broken now, and both are shown alike. -/
theorem shown_append_ascii (hx : x < 0x80) (bytes rest : Bytes) :
    (scan (bytes ++ x :: rest)).map Piece.shown = (scan bytes).map Piece.shown ++ (scan (x :: rest)).map Piece.shown := by
  have htail := isTail_of_ascii hx
  fun_induction scan bytes
  case case1 => rfl
  case case4 | case7 | case8 | case12 | case13 | case14 =>
    simp only [List.cons_append, List.nil_append]
    rw [scan.eq_def]
    simp [*, isSecondOfThree_of_ascii, isSecondOfFour_of_ascii, Piece.shown]
  all_goals
    simp only [List.cons_append] at *
    rw [scan.eq_def]
    simp [*]

/-- What stands before and after an ASCII byte is shown apart. -/
theorem mend_append_ascii (hx : x < 0x80) (bytes rest : Bytes) : mend (bytes ++ x :: rest) = mend bytes ++ x :: mend rest := by
  unfold mend bytesOf
  rw [toList_lossy, toList_lossy, toList_lossy, shown_append_ascii hx, scan_ascii hx, encode_append, List.map_cons, encode_cons]
  simp only [Piece.shown, encodeChar_one hx, List.singleton_append]

@[simp] theorem mend_nil : mend [] = [] := rfl

/-- ASCII bytes are shown as they are. -/
theorem mend_of_ascii {bytes : Bytes} (h : ∀ b ∈ bytes, b < 0x80) : mend bytes = bytes := by
  induction bytes with
  | nil => rfl
  | cons b rest ih =>
    have hgo : mend ([] ++ b :: rest) = mend [] ++ b :: mend rest := mend_append_ascii (h b (by simp)) [] rest
    rw [mend_nil, List.nil_append, List.nil_append, ih fun y hy => h y (by simp [hy])] at hgo
    exact hgo

end

/-! ## Where nothing is replaced -/

/-- Pieces none of which is shown as a replacement are characters. -/
theorem readAll_of_shown {pieces : List Piece} (h : replacement ∉ pieces.map Piece.shown) (start : Nat) :
    Piece.readAll start pieces = .ok (pieces.map Piece.shown) := by
  induction pieces generalizing start with
  | nil => rfl
  | cons piece pieces ih =>
    rw [List.map_cons, List.mem_cons, not_or] at h
    cases piece with
    | whole c =>
      rw [Piece.readAll, ih h.2]
      rfl
    | broken length => exact absurd rfl h.1
    | cut => exact absurd rfl h.1

/-- A text that is shown without a replacement character is read as what is shown. -/
theorem decode_of_lossy {bytes : Bytes} (h : replacement ∉ (lossy bytes).toList) : decode bytes = .ok (lossy bytes) := by
  rw [toList_lossy] at h
  unfold decode
  rw [readAll_of_shown h]
  rfl

/-- Bytes that are shown without a replacement character are those of the text they are shown as. -/
theorem mend_eq_self {bytes : Bytes} (h : replacement ∉ (lossy bytes).toList) : mend bytes = bytes :=
  bytesOf_of_decode (decode_of_lossy h)

theorem encodeChar_replacement : encodeChar replacement = [0xEF, 0xBF, 0xBD] := by decide

/-- What is shown as ASCII is ASCII, and is shown as it is. -/
theorem mend_eq_iff {bytes s : Bytes} (hs : ∀ b ∈ s, b < 0x80) : mend bytes = s ↔ bytes = s := by
  constructor
  · rintro rfl
    refine (mend_eq_self fun hreplaced => ?_).symm
    -- the replacement character is written with other bytes
    have hmem : (0xEF : UInt8) ∈ mend bytes :=
      List.mem_flatMap.mpr ⟨replacement, hreplaced, by rw [encodeChar_replacement]; simp⟩
    exact absurd (hs _ hmem) (by decide)
  · rintro rfl
    exact mend_of_ascii hs

/-! ## No ASCII byte comes into a text -/

/-- The bytes of a character of a text are bytes of the text. -/
theorem encodeChar_subset {bytes : Bytes} {c : Char} (h : .whole c ∈ scan bytes) : encodeChar c ⊆ bytes := by
  fun_induction scan bytes
  case case2 a rest ha ih =>
    rcases List.mem_cons.mp h with h | h
    · rw [Piece.whole.inj h, encodeChar_one ha]
      exact (List.prefix_append [a] rest).subset
    · exact List.Subset.trans (ih h) (List.suffix_append [a] rest).subset
  case case5 a _ ha ha' b rest hb ih =>
    rcases List.mem_cons.mp h with h | h
    · rw [Piece.whole.inj h, encodeChar_two ha ha' hb]
      exact (List.prefix_append [a, b] rest).subset
    · exact List.Subset.trans (ih h) (List.suffix_append [a, b] rest).subset
  case case9 a _ _ ha ha' b hb c rest hc ih =>
    rcases List.mem_cons.mp h with h | h
    · rw [Piece.whole.inj h, encodeChar_three ha ha' hb hc]
      exact (List.prefix_append [a, b, c] rest).subset
    · exact List.Subset.trans (ih h) (List.suffix_append [a, b, c] rest).subset
  case case15 a _ _ _ ha ha' b hb c hc d rest hd ih =>
    rcases List.mem_cons.mp h with h | h
    · rw [Piece.whole.inj h, encodeChar_four ha ha' hb hc hd]
      exact (List.prefix_append [a, b, c, d] rest).subset
    · exact List.Subset.trans (ih h) (List.suffix_append [a, b, c, d] rest).subset
  -- the other pieces are no characters, and what follows them is a part of the text
  all_goals simp only [List.mem_cons, List.not_mem_nil, reduceCtorEq, false_or] at h
  all_goals
    rename_i ih
    intro y hy
    have hmem := ih h hy
    simp only [List.mem_cons] at hmem ⊢
    tauto

/-- An ASCII byte of a text as it is shown is one of the text. -/
theorem mem_of_mem_mend {x : UInt8} {bytes : Bytes} (hx : x < 0x80) (h : x ∈ mend bytes) : x ∈ bytes := by
  obtain ⟨c, hc, hxc⟩ := List.mem_flatMap.mp h
  rw [toList_lossy] at hc
  obtain ⟨piece, hpiece, rfl⟩ := List.mem_map.mp hc
  have hother : x ∉ encodeChar replacement := by
    rw [encodeChar_replacement]
    rintro h
    simp only [List.mem_cons, List.not_mem_nil, or_false] at h
    rcases h with rfl | rfl | rfl <;> exact absurd hx (by decide)
  cases piece with
  | whole c => exact encodeChar_subset hpiece hxc
  | broken length => exact absurd hxc hother
  | cut => exact absurd hxc hother

end ReviewQueue.Utf8
