import Mathlib.Data.List.TakeWhile
import ReviewQueue.Path
import ReviewQueue.Proofs.Text.Lossy

/-!
# The last segment of a path

A path whose bytes are UTF-8 is read as a text and written as it again, to the byte. Other paths are only shown as texts.
Cutting a path at its slashes and showing it go together: the pieces of a path as it is shown are the pieces of the path, each as
it is shown. An empty piece, a dot and two dots are shown as themselves, and nothing else is shown like them. So a path as it is
shown has the same name as the path. Which piece the name comes from is said on the bytes: what is left of the path once the
slashes and the dots at its end are dropped.
-/

namespace ReviewQueue.Path

open Utf8 (mend)

/-! ## Paths that are texts -/

/-- A path that is written as a text is read as that text. -/
theorem toText?_ofString (s : String) : (ofString s).toText? = some s := by
  unfold toText? ofString
  rw [Utf8.decode_bytesOf]
  rfl

/-- A path that is read as a text is the path that is written as that text. -/
theorem ofString_of_toText? {p : Path} {s : String} (h : p.toText? = some s) : ofString s = p := by
  unfold toText? at h
  cases hread : Utf8.decode p.bytes with
  | error b =>
    rw [hread] at h
    cases h
  | ok text =>
    rw [hread] at h
    cases h
    exact congrArg Path.mk (Utf8.bytesOf_of_decode hread)

/-! ## Cutting -/

theorem slash_lt : slash < 0x80 := by decide

theorem lt_of_mem_dot : ∀ b ∈ dot, b < 0x80 := List.forall_mem_singleton.mpr (by decide)

theorem lt_of_mem_dotDot : ∀ b ∈ dotDot, b < 0x80 :=
  List.forall_mem_cons.mpr ⟨by decide, List.forall_mem_singleton.mpr (by decide)⟩

/-- Without a slash there is one piece. -/
theorem cut_of_not_mem {piece : Bytes} (h : slash ∉ piece) : cut piece = [piece] := by
  induction piece with
  | nil => rfl
  | cons b piece ih =>
    rw [List.mem_cons, not_or] at h
    rw [cut, if_neg (Ne.symm h.1), ih h.2]

/-- The piece before the first slash is cut off. -/
theorem cut_append_of_not_mem {piece : Bytes} (h : slash ∉ piece) (rest : Bytes) :
    cut (piece ++ slash :: rest) = piece :: cut rest := by
  induction piece with
  | nil => rfl
  | cons b piece ih =>
    rw [List.mem_cons, not_or] at h
    rw [List.cons_append, cut, if_neg (Ne.symm h.1), ih h.2]

/-- Induction on the pieces of a byte string. -/
theorem pieces_induction {P : Bytes → Prop} (last : ∀ piece, slash ∉ piece → P piece)
    (more : ∀ piece rest, slash ∉ piece → P rest → P (piece ++ slash :: rest)) (bytes : Bytes) : P bytes := by
  by_cases h : slash ∈ bytes
  · obtain ⟨piece, rest, heq, hpiece⟩ := List.eq_append_cons_of_mem h
    rw [heq]
    exact more piece rest hpiece (pieces_induction last more rest)
  · exact last bytes h
  termination_by bytes.length
  decreasing_by
    rw [heq, List.length_append, List.length_cons]
    omega

/-- The pieces on both sides of a slash are cut off by themselves. -/
theorem cut_append (bytes rest : Bytes) : cut (bytes ++ slash :: rest) = cut bytes ++ cut rest := by
  induction bytes using pieces_induction with
  | last piece h => rw [cut_append_of_not_mem h, cut_of_not_mem h, List.singleton_append]
  | more piece bytes h ih =>
    rw [List.append_assoc, List.cons_append, cut_append_of_not_mem h, cut_append_of_not_mem h, ih, List.cons_append]

/-- There is always a piece. -/
theorem cut_ne_nil (bytes : Bytes) : cut bytes ≠ [] := by
  induction bytes using pieces_induction with
  | last piece h => simp [cut_of_not_mem h]
  | more piece bytes h ih => simp [cut_append_of_not_mem h]

/-! ## Cutting what is shown -/

/-- The pieces of a path as it is shown are the pieces of the path, each as it is shown. -/
theorem cut_mend (bytes : Bytes) : cut (mend bytes) = (cut bytes).map mend := by
  have hnone : ∀ {piece}, slash ∉ piece → slash ∉ mend piece := fun h hm => h (Utf8.mem_of_mem_mend slash_lt hm)
  induction bytes using pieces_induction with
  | last piece h => rw [cut_of_not_mem h, cut_of_not_mem (hnone h), List.map_singleton]
  | more piece bytes h ih =>
    rw [Utf8.mend_append_ascii slash_lt, cut_append_of_not_mem h, cut_append_of_not_mem (hnone h), ih, List.map_cons]

/-- Nothing but the empty piece is shown as empty, -/
theorem mend_eq_nil_iff {bytes : Bytes} : mend bytes = [] ↔ bytes = [] := Utf8.mend_eq_iff (by simp)

/-- nothing but a dot as a dot, -/
theorem mend_eq_dot_iff {bytes : Bytes} : mend bytes = dot ↔ bytes = dot := Utf8.mend_eq_iff lt_of_mem_dot

/-- and nothing but two dots as two dots. -/
theorem mend_eq_dotDot_iff {bytes : Bytes} : mend bytes = dotDot ↔ bytes = dotDot := Utf8.mend_eq_iff lt_of_mem_dotDot

/-- The path that is written as a path is shown. -/
def mended (p : Path) : Path := ofString p.display

@[simp] theorem bytes_mended (p : Path) : p.mended.bytes = mend p.bytes := rfl

/-- So a piece is one that does not count if it is so as it is shown. -/
theorem isBlank_mend (piece : Bytes) : isBlank (mend piece) = isBlank piece := by
  unfold isBlank
  simp only [mend_eq_nil_iff, mend_eq_dot_iff]

/-- The pieces that count are the same ones as they are shown. -/
theorem trimEnd_map_mend (pieces : List Bytes) : trimEnd (pieces.map mend) = (trimEnd pieces).map mend := by
  have hblank : isBlank ∘ mend = isBlank := funext isBlank_mend
  unfold trimEnd
  rw [← List.map_reverse, List.dropWhile_map, hblank, List.map_reverse]

/-- A path as it is shown starts where the path does, and has its pieces as they are shown. -/
theorem split_mended (p : Path) : p.mended.split = (p.split.1, p.split.2.map mend) := by
  unfold split
  rw [bytes_mended, cut_mend]
  cases cut p.bytes with
  | nil => rfl
  | cons first rest =>
    simp only [List.map_cons, mend_eq_nil_iff, mend_eq_dot_iff]
    split
    · split <;> rfl
    · split <;> rfl

/-- The last piece of a path as it is shown is the last piece, as it is shown. -/
theorem fileName?_mended (p : Path) : p.mended.fileName? = p.fileName?.map mend := by
  unfold fileName?
  rw [split_mended, trimEnd_map_mend, List.getLast?_map]
  cases (trimEnd p.split.2).getLast? with
  | none => rfl
  | some piece =>
    simp only [Option.map_some, mend_eq_dotDot_iff]
    split <;> rfl

/-- A path as it is shown has the name of the path. -/
theorem displayName_mended (p : Path) : p.mended.displayName = p.displayName := by
  unfold displayName
  rw [fileName?_mended, bytes_mended]
  cases p.fileName? with
  | none => exact Utf8.lossy_mend p.bytes
  | some piece => exact Utf8.lossy_mend piece

/-! ## What the name is -/

/-- What does not count at the end of a path: slashes, each alone or with one dot behind it. -/
inductive Trailing : Bytes → Prop where
  | nil : Trailing []
  | alone {tail : Bytes} : Trailing tail → Trailing (slash :: tail)
  | dotted {tail : Bytes} : Trailing tail → Trailing (slash :: (dot ++ tail))

/-- A path is a directory, a segment in it and an end that does not count. As much as can be dropped at the end is dropped: the
segment is empty or a dot only if nothing stands before it. -/
structure EndsIn (p : Path) (dir segment tail : Bytes) : Prop where
  bytes_eq : p.bytes = dir ++ segment ++ tail
  dir_eq : dir = [] ∨ ∃ above, dir = above ++ [slash]
  not_mem : slash ∉ segment
  trailing : Trailing tail
  dropped : segment = [] ∨ segment = dot → dir = []

/-- The pieces that do not count are the empty one and the dot. -/
theorem isBlank_iff {piece : Bytes} : isBlank piece = true ↔ piece = [] ∨ piece = dot := by
  unfold isBlank
  rw [Bool.or_eq_true, decide_eq_true_eq, decide_eq_true_eq]

theorem slash_not_mem_dot : slash ∉ dot := by decide

/-- An end that does not count has blank pieces only. -/
theorem Trailing.cut_append {tail : Bytes} (h : Trailing tail) {segment : Bytes} (hs : slash ∉ segment) :
    ∃ blanks, cut (segment ++ tail) = segment :: blanks ∧ ∀ piece ∈ blanks, isBlank piece = true := by
  induction h generalizing segment with
  | nil => exact ⟨[], by rw [List.append_nil, cut_of_not_mem hs], by simp⟩
  | alone _ ih =>
    have hempty : slash ∉ ([] : Bytes) := List.not_mem_nil
    obtain ⟨blanks, hcut, hblanks⟩ := ih hempty
    refine ⟨[] :: blanks, ?_, ?_⟩
    · rw [cut_append_of_not_mem hs, ← hcut, List.nil_append]
    · exact List.forall_mem_cons.mpr ⟨by decide, hblanks⟩
  | dotted _ ih =>
    obtain ⟨blanks, hcut, hblanks⟩ := ih slash_not_mem_dot
    refine ⟨dot :: blanks, ?_, ?_⟩
    · rw [cut_append_of_not_mem hs, hcut]
    · exact List.forall_mem_cons.mpr ⟨by decide, hblanks⟩

/-- Every path ends in a segment. -/
theorem exists_endsIn (p : Path) : ∃ dir segment tail, p.EndsIn dir segment tail := by
  obtain ⟨bytes⟩ := p
  induction bytes using pieces_induction with
  | last piece h => exact ⟨[], piece, [], by simp, Or.inl rfl, h, .nil, fun _ => rfl⟩
  | more piece rest h ih =>
    obtain ⟨dir, segment, tail, hrest⟩ := ih
    have hbytes : rest = dir ++ segment ++ tail := hrest.bytes_eq
    by_cases hblank : segment = [] ∨ segment = dot
    · -- nothing but blank pieces stands after the slash
      have hdir := hrest.dropped hblank
      subst hdir
      refine ⟨[], piece, slash :: (segment ++ tail), by rw [hbytes]; rfl, Or.inl rfl, h, ?_, fun _ => rfl⟩
      rcases hblank with rfl | rfl
      · exact .alone hrest.trailing
      · exact .dotted hrest.trailing
    · refine ⟨piece ++ slash :: dir, segment, tail, by simp [hbytes], Or.inr ?_, hrest.not_mem, hrest.trailing,
        fun hs => absurd hs hblank⟩
      rcases hrest.dir_eq with rfl | ⟨above, rfl⟩
      · exact ⟨piece, rfl⟩
      · exact ⟨piece ++ slash :: above, by simp⟩

/-- The last piece that is left is the last one that counts. -/
theorem getLast?_trimEnd (pieces : List Bytes) : (trimEnd pieces).getLast? = pieces.reverse.find? (!isBlank ·) := by
  unfold trimEnd
  rw [List.getLast?_reverse, ← List.find?_not_eq_head?_dropWhile]

/-- The start of a path does not count: its last segment is the last piece that is not blank. -/
theorem find?_split (p : Path) : p.split.2.reverse.find? (!isBlank ·) = (cut p.bytes).reverse.find? (!isBlank ·) := by
  unfold split
  cases hcut : cut p.bytes with
  | nil => exact absurd hcut (cut_ne_nil p.bytes)
  | cons first rest =>
    have hblank : isBlank first = true → (first :: rest).reverse.find? (!isBlank ·) = rest.reverse.find? (!isBlank ·) := by
      intro h
      simp [List.find?_append, h]
    dsimp only
    split
    next hfirst =>
      split
      next hbytes =>
        rw [hbytes] at hcut
        cases hcut
        rfl
      next => exact (hblank (isBlank_iff.mpr (Or.inl hfirst))).symm
    next =>
      split
      next hfirst => exact (hblank (isBlank_iff.mpr (Or.inr hfirst))).symm
      next => rfl

/-- The last segment that counts is the one that a path ends in, unless that is blank or leads up. -/
theorem EndsIn.fileName?_eq {p : Path} {dir segment tail : Bytes} (h : p.EndsIn dir segment tail) :
    p.fileName? = if segment = dotDot ∨ segment = dot ∨ segment = [] then none else some segment := by
  obtain ⟨blanks, hcut, hblanks⟩ := h.trailing.cut_append h.not_mem
  have hnone : blanks.reverse.find? (!isBlank ·) = none := by
    rw [List.find?_eq_none]
    intro piece hp
    simp [hblanks piece (List.mem_reverse.mp hp)]
  have hlast : (cut p.bytes).reverse.find? (!isBlank ·) = if isBlank segment then none else some segment := by
    rw [h.bytes_eq, List.append_assoc]
    cases hs : isBlank segment with
    | true =>
      rw [h.dropped (isBlank_iff.mp hs), List.nil_append, hcut]
      simp [List.find?_append, hnone, hs]
    | false =>
      rcases h.dir_eq with hdir | ⟨above, hdir⟩
      · rw [hdir, List.nil_append, hcut]
        simp [List.find?_append, hnone, hs]
      · rw [hdir, List.append_assoc, List.singleton_append, cut_append, hcut]
        simp [List.find?_append, hnone, hs]
  unfold fileName?
  rw [getLast?_trimEnd, find?_split, hlast]
  by_cases hs : isBlank segment = true
  · rw [if_pos hs, if_pos (Or.inr (isBlank_iff.mp hs).symm)]
  · rw [if_neg hs]
    rw [isBlank_iff, or_comm] at hs
    simp only [hs, or_false]

/-- The name of a path is the segment that it ends in, and the whole path if that is blank or leads up. -/
theorem EndsIn.displayName_eq {p : Path} {dir segment tail : Bytes} (h : p.EndsIn dir segment tail) :
    p.displayName = if segment = dotDot ∨ segment = dot ∨ segment = [] then p.display else Utf8.lossy segment := by
  unfold displayName
  rw [h.fileName?_eq]
  split <;> rfl

/-- The dots at the end lead up and are not dropped. -/
example : (ofString "/work/..").displayName = "/work/.." := by decide +kernel

end ReviewQueue.Path
