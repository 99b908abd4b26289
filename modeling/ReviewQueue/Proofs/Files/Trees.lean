import Mathlib.Data.List.Induction
import ReviewQueue.Files.Opening
import ReviewQueue.Proofs.Text.Segments

/-!
# Trees that grow

Making directories adds directories and nothing else, so a path that led somewhere leads there still. A path that led nowhere for
want of a directory may lead somewhere afterwards; but unless it goes up again by two dots, it does not come to anything that was
there before. Nothing goes where an empty file is made for a database. Bytes that are written to a file are what is found at its
path. That whatever is there lies in a directory holds at the start and is kept by making directories and by writing files.
-/

namespace ReviewQueue

/-- An entry that is put in place of those of its name is found under it, and what other names find stays. -/
theorem lookup_put {α β : Type} [BEq α] [LawfulBEq α] [DecidableEq α] (xs : List (α × β)) (a : α) (b : β) (key : α) :
    List.lookup key ((a, b) :: xs.filter (·.1 ≠ a)) = if key = a then some b else List.lookup key xs := by
  rw [List.lookup_cons]
  by_cases h : key = a
  · simp [h]
  · rw [if_neg h, beq_false_of_ne h]
    induction xs with
    | nil => rfl
    | cons x xs ih =>
      obtain ⟨x, y⟩ := x
      by_cases hx : x = a
      · subst hx
        simp only [ne_eq, not_true_eq_false, decide_false, Bool.false_eq_true, not_false_eq_true, List.filter_cons_of_neg,
          List.lookup_cons, beq_false_of_ne h]
        exact ih
      · simp only [ne_eq, hx, not_false_eq_true, decide_true, List.filter_cons_of_pos, List.lookup_cons]
        cases key == x with
        | true => rfl
        | false => exact ih

/-- A node that is put somewhere is what is found there, and other places are left. -/
theorem FileSystem.node?_put (fs : FileSystem) (place : Place) (node : Node) (p : Place) :
    (fs.put place node).node? p = if p = place then some node else fs.node? p := lookup_put ..

namespace FileSystem

/-! ## Following paths -/

/-- The pieces of a path, followed from a place. -/
def followPieces (fs : FileSystem) (pieces : List Bytes) (start : Place) : Except FileFault Place := pieces.foldlM fs.step start

/-- The place where a path starts. -/
def startOf (fs : FileSystem) (p : Path) : Place := if p.bytes.head? = some Path.slash then [] else fs.here

/-- The fault of a path that cannot be followed in any tree. -/
def pathFault? (p : Path) : Option FileFault :=
  if p.bytes.contains 0 then some .nul
  else if p.bytes = [] then some .notFound
  else if pathLimit ≤ p.bytes.length then some .nameTooLong
  else none

/-- A path without a fault of its own is followed piece by piece. -/
theorem follow_eq (fs : FileSystem) (p : Path) :
    fs.follow p = match pathFault? p with
      | some f => .error f
      | none => fs.followPieces (Path.cut p.bytes) (fs.startOf p) := by
  unfold follow pathFault?
  split
  · rfl
  split
  · rfl
  split
  · rfl
  · rfl

theorem followPieces_cons (fs : FileSystem) (piece : Bytes) (pieces : List Bytes) (start : Place) :
    fs.followPieces (piece :: pieces) start = (fs.step start piece).bind (fs.followPieces pieces) := rfl

/-- A step depends on nothing but what lies where it starts. -/
theorem step_congr {fs fs' : FileSystem} {place : Place} (h : fs'.node? place = fs.node? place) (piece : Bytes) :
    fs'.step place piece = fs.step place piece := by
  unfold step
  rw [h]

/-- What a piece of a path leads out of is a directory. -/
theorem directory_of_step {fs : FileSystem} {place next : Place} {piece : Bytes} (h : fs.step place piece = .ok next) :
    fs.node? place = some .directory := by
  unfold step at h
  split at h
  · cases h
  next hnode => exact hnode
  · cases h

/-- A step that does not lead up leads further down or nowhere else. -/
theorem prefix_of_step {fs : FileSystem} {place next : Place} {piece : Bytes} (h : fs.step place piece = .ok next)
    (hpiece : piece ≠ Path.dotDot) : place <+: next := by
  unfold step at h
  split at h
  · cases h
  next =>
    rw [if_neg hpiece] at h
    split at h
    · cases h
      exact List.prefix_refl _
    split at h
    · cases h
    · cases h
      exact List.prefix_append _ _
  · cases h

/-- Without two dots a path leads to a place below its start. -/
theorem prefix_of_followPieces {fs : FileSystem} {pieces : List Bytes} {start place : Place}
    (h : fs.followPieces pieces start = .ok place) (hpieces : Path.dotDot ∉ pieces) : start <+: place := by
  induction pieces generalizing start with
  | nil =>
    cases h
    exact List.prefix_refl _
  | cons piece pieces ih =>
    rw [List.mem_cons, not_or] at hpieces
    rw [followPieces_cons] at h
    cases hstep : fs.step start piece with
    | error f =>
      rw [hstep] at h
      cases h
    | ok next =>
      rw [hstep] at h
      exact (prefix_of_step hstep (Ne.symm hpieces.1)).trans (ih h hpieces.2)

/-! ## Keeping directories -/

/-- Every directory of a tree is one of another tree, and relative paths start at the same place. -/
structure KeepsDirectories (fs fs' : FileSystem) : Prop where
  here : fs'.here = fs.here
  directory : ∀ place, fs.node? place = some .directory → fs'.node? place = some .directory

section

variable {fs fs' : FileSystem}

/-- A path that led somewhere leads there still. -/
theorem KeepsDirectories.followPieces (h : KeepsDirectories fs fs') {pieces : List Bytes} {start place : Place}
    (hok : fs.followPieces pieces start = .ok place) : fs'.followPieces pieces start = .ok place := by
  induction pieces generalizing start with
  | nil => exact hok
  | cons piece pieces ih =>
    rw [followPieces_cons] at hok ⊢
    cases hstep : fs.step start piece with
    | error f =>
      rw [hstep] at hok
      cases hok
    | ok next =>
      have hnode := directory_of_step hstep
      rw [step_congr ((h.directory start hnode).trans hnode.symm), hstep]
      rw [hstep] at hok
      exact ih hok

/-- A path that led somewhere leads there still. -/
theorem KeepsDirectories.follow (h : KeepsDirectories fs fs') {p : Path} {place : Place} (hok : fs.follow p = .ok place) :
    fs'.follow p = .ok place := by
  rw [follow_eq] at hok ⊢
  cases hfault : pathFault? p with
  | some f =>
    rw [hfault] at hok
    cases hok
  | none =>
    rw [hfault] at hok
    have hstart : fs'.startOf p = fs.startOf p := by rw [startOf, startOf, h.here]
    simp only [hstart]
    exact h.followPieces hok

/-! ## Growing -/

/-- A tree has all that another has, and perhaps more directories. -/
structure Grows (fs fs' : FileSystem) : Prop where
  here : fs'.here = fs.here
  kept : ∀ place node, fs.node? place = some node → fs'.node? place = some node
  added : ∀ place node, fs.node? place = none → fs'.node? place = some node → node = .directory

theorem Grows.refl (fs : FileSystem) : fs.Grows fs where
  here := rfl
  kept _ _ h := h
  added place node hnone h := by
    rw [hnone] at h
    cases h

theorem Grows.trans {fs'' : FileSystem} (h : fs.Grows fs') (h' : fs'.Grows fs'') : fs.Grows fs'' where
  here := h'.here.trans h.here
  kept place node hnode := h'.kept place node (h.kept place node hnode)
  added place node hnone hnode := by
    cases hbetween : fs'.node? place with
    | none => exact h'.added place node hbetween hnode
    | some other =>
      rw [h'.kept place other hbetween] at hnode
      cases hnode
      exact h.added place _ hnone hbetween

theorem Grows.keepsDirectories (h : fs.Grows fs') : KeepsDirectories fs fs' := ⟨h.here, fun place => h.kept place .directory⟩

/-- A path that leads nowhere for another reason than a missing directory still does so, for the same reason. -/
theorem Grows.followPieces_error (h : fs.Grows fs') {pieces : List Bytes} {start : Place} {f : FileFault}
    (herror : fs.followPieces pieces start = .error f) (hf : f ≠ .notFound) : fs'.followPieces pieces start = .error f := by
  induction pieces generalizing start with
  | nil => cases herror
  | cons piece pieces ih =>
    rw [followPieces_cons] at herror ⊢
    cases hnode : fs.node? start with
    | none =>
      have hstep : fs.step start piece = .error .notFound := by
        unfold step
        rw [hnode]
      rw [hstep] at herror
      cases herror
      exact absurd rfl hf
    | some node =>
      rw [step_congr ((h.kept start node hnode).trans hnode.symm)]
      cases hstep : fs.step start piece with
      | error f' =>
        rw [hstep] at herror
        exact herror
      | ok next =>
        rw [hstep] at herror
        exact ih herror

/-- A path that led nowhere for another reason than a missing directory does so still. -/
theorem Grows.follow_error (h : fs.Grows fs') {p : Path} {f : FileFault} (herror : fs.follow p = .error f) (hf : f ≠ .notFound) :
    fs'.follow p = .error f := by
  rw [follow_eq] at herror ⊢
  cases hfault : pathFault? p with
  | some f' =>
    rw [hfault] at herror
    exact herror
  | none =>
    rw [hfault] at herror
    have hstart : fs'.startOf p = fs.startOf p := by rw [startOf, startOf, h.here]
    simp only [hstart]
    exact h.followPieces_error herror hf

/-- What is found at a path is found there when a tree has grown. -/
theorem Grows.find?_eq_some (h : fs.Grows fs') {p : Path} {node : Node} (hp : fs.find? p = some node) :
    fs'.find? p = some node := by
  unfold find? at hp ⊢
  cases hplace : fs.follow p with
  | error f =>
    rw [hplace] at hp
    cases hp
  | ok place =>
    rw [hplace] at hp
    rw [h.keepsDirectories.follow hplace]
    exact h.kept place node hp

/-- Nothing is read at a path that leads nowhere. -/
theorem readText?_of_error {p : Path} {f : FileFault} (h : fs.follow p = .error f) : fs.readText? p = none := by
  rw [readText?, find?, h]

/-- The text of what lies at a place, if that is a file. -/
def textAt (fs : FileSystem) (place : Place) : Option String :=
  match fs.node? place with
  | some (.file bytes) => (Utf8.decode bytes).toOption
  | _ => none

/-- What is read at a path is the text at the place it leads to. -/
theorem readText?_of_ok {p : Path} {place : Place} (h : fs.follow p = .ok place) : fs.readText? p = fs.textAt place := by
  unfold readText? find?
  rw [h]
  rfl

/-- A tree that grows has no other files than before. -/
theorem Grows.textAt (h : fs.Grows fs') (place : Place) : fs'.textAt place = fs.textAt place := by
  unfold FileSystem.textAt
  cases hnode : fs.node? place with
  | some node => rw [h.kept place node hnode]
  | none =>
    cases hnode' : fs'.node? place with
    | none => rfl
    | some node => rw [h.added place node hnode hnode']

/-- The text at a path stays when a tree grows, unless a directory was missing on the path. -/
theorem Grows.readText?_eq (h : fs.Grows fs') {p : Path} (hp : fs.follow p ≠ .error .notFound) :
    fs'.readText? p = fs.readText? p := by
  cases hfollow : fs.follow p with
  | ok place => rw [readText?_of_ok hfollow, readText?_of_ok (h.keepsDirectories.follow hfollow), h.textAt]
  | error f =>
    have hf : f ≠ .notFound := by
      rintro rfl
      exact hp hfollow
    rw [readText?_of_error hfollow, readText?_of_error (h.follow_error hfollow hf)]

/-- Whatever lies in a tree lies in a directory, the root apart. -/
def IsTree (fs : FileSystem) : Prop := ∀ x ∈ fs.nodes, x.1 = [] ∨ fs.node? x.1.dropLast = some .directory

instance (fs : FileSystem) : Decidable fs.IsTree := inferInstanceAs (Decidable (∀ _ ∈ _, _))

/-- What lies somewhere lies in a directory. -/
theorem IsTree.directory (h : fs.IsTree) {place : Place} {name : Bytes} {node : Node}
    (hnode : fs.node? (place ++ [name]) = some node) : fs.node? place = some .directory := by
  obtain ⟨before, after, hnodes, -⟩ := List.lookup_eq_some_iff.mp hnode
  have hparent := h (place ++ [name], node) (by rw [hnodes]; simp)
  rw [List.dropLast_concat] at hparent
  rcases hparent with hroot | hparent
  · exact absurd hroot (by simp)
  · exact hparent

/-- Nothing lies below a place where nothing is. -/
theorem IsTree.none_of_prefix (h : fs.IsTree) {place below : Place} (hnone : fs.node? place = none) (hbelow : place <+: below) :
    fs.node? below = none := by
  obtain ⟨names, rfl⟩ := hbelow
  induction names using List.reverseRecOn with
  | nil => rwa [List.append_nil]
  | append_singleton names name ih =>
    cases hnode : fs.node? (place ++ (names ++ [name])) with
    | none => rfl
    | some node =>
      rw [← List.append_assoc] at hnode
      rw [h.directory hnode] at ih
      cases ih

/-- Where pieces led nowhere for want of a directory and now lead somewhere without going up, there was nothing. -/
theorem Grows.none_of_followPieces (h : fs.Grows fs') (htree : fs.IsTree) {pieces : List Bytes} {start place : Place}
    (hpieces : Path.dotDot ∉ pieces) (herror : fs.followPieces pieces start = .error .notFound)
    (hok : fs'.followPieces pieces start = .ok place) : fs.node? place = none := by
  induction pieces generalizing start with
  | nil => cases herror
  | cons piece pieces ih =>
    cases hnode : fs.node? start with
    | none => exact htree.none_of_prefix hnode (prefix_of_followPieces hok hpieces)
    | some node =>
      rw [List.mem_cons, not_or] at hpieces
      rw [followPieces_cons] at herror hok
      rw [step_congr ((h.kept start node hnode).trans hnode.symm)] at hok
      cases hstep : fs.step start piece with
      | error f =>
        rw [hstep] at hok
        cases hok
      | ok next =>
        rw [hstep] at herror hok
        exact ih hpieces.2 herror hok

/-- The text at a path stays when a tree grows, if the path does not go up again. -/
theorem Grows.readText?_of_isTree (h : fs.Grows fs') (htree : fs.IsTree) {p : Path} (hp : Path.dotDot ∉ Path.cut p.bytes) :
    fs'.readText? p = fs.readText? p := by
  by_cases herror : fs.follow p = .error .notFound
  · rw [readText?_of_error herror]
    cases hok : fs'.follow p with
    | error f => exact readText?_of_error hok
    | ok place =>
      have hnone : fs.node? place = none := by
        rw [follow_eq] at herror hok
        cases hfault : pathFault? p with
        | some f =>
          rw [hfault] at hok
          cases hok
        | none =>
          rw [hfault] at herror hok
          have hstart : fs'.startOf p = fs.startOf p := by rw [startOf, startOf, h.here]
          simp only [hstart] at hok
          exact h.none_of_followPieces htree hp herror hok
      rw [readText?_of_ok hok, h.textAt]
      unfold FileSystem.textAt
      rw [hnone]
  · exact h.readText?_eq herror

/-! ## Making directories and writing files -/

/-- A directory is made where a path leads to nothing. -/
theorem exists_of_makeDirectory {p : Path} (h : fs.makeDirectory p = .ok fs') :
    ∃ place, fs.follow (bare p) = .ok place ∧ fs.node? place = none ∧ fs' = fs.put place .directory := by
  unfold makeDirectory at h
  cases hplace : fs.follow (bare p) with
  | error f =>
    rw [hplace] at h
    cases h
  | ok place =>
    simp only [hplace, bind, Except.bind] at h
    cases hnode : fs.node? place with
    | some node =>
      rw [hnode] at h
      cases h
    | none =>
      rw [hnode] at h
      cases h
      exact ⟨place, rfl, hnode, rfl⟩

/-- A file is written where a path leads to no directory. -/
theorem exists_of_write {p : Path} {bytes : Bytes} (h : fs.write p bytes = .ok fs') :
    ∃ place, fs.follow p = .ok place ∧ fs.node? place ≠ some .directory ∧ fs' = fs.put place (.file bytes) := by
  unfold write at h
  cases hplace : fs.follow (bare p) with
  | error f =>
    rw [hplace] at h
    cases h
  | ok place =>
    simp only [hplace, bind, Except.bind] at h
    split at h
    · cases h
    next hnode =>
      split at h
      next hbare =>
        cases h
        rw [hbare] at hplace
        exact ⟨place, hplace, hnode, rfl⟩
      · cases h

/-- What making one directory does, and does not undo, is done by making a directory and its parents, whether all of them can be
made or not. -/
theorem makeDirectoriesWithin_induction {R : FileSystem → FileSystem → Prop} (hrefl : ∀ fs, R fs fs)
    (htrans : ∀ {fs fs' fs''}, R fs fs' → R fs' fs'' → R fs fs'')
    (hmake : ∀ {fs fs' p}, fs.makeDirectory p = .ok fs' → R fs fs') (fs : FileSystem) (fuel : Nat) (p : Path) :
    R fs (fs.makeDirectoriesWithin fuel p).1 := by
  induction fuel generalizing p with
  | zero => exact hrefl fs
  | succ fuel ih =>
    unfold makeDirectoriesWithin
    split
    · exact hrefl fs
    split
    next hmade => exact hmake hmade
    next =>
      split
      · exact hrefl fs
      next parent _ =>
        have hparent := ih parent
        split
        next heq =>
          rw [heq] at hparent
          exact hparent
        next heq =>
          rw [heq] at hparent
          split
          next hmade => exact htrans hparent (hmake hmade)
          next => exact hparent
    next => exact hrefl fs

/-- Making one directory lets the tree grow. -/
theorem grows_of_makeDirectory {p : Path} (h : fs.makeDirectory p = .ok fs') : fs.Grows fs' := by
  obtain ⟨place, -, hnode, rfl⟩ := exists_of_makeDirectory h
  refine ⟨rfl, fun other node hother => ?_, fun other node hother hadded => ?_⟩
  · have hne : other ≠ place := by
      rintro rfl
      rw [hnode] at hother
      cases hother
    rw [node?_put, if_neg hne, hother]
  · rw [node?_put, hother] at hadded
    split at hadded
    · cases hadded
      rfl
    · cases hadded

/-- So does making all that a path needs, even if that fails on the way. -/
theorem grows_makeDirectories (fs : FileSystem) (p : Path) : fs.Grows (fs.makeDirectories p).1 :=
  makeDirectoriesWithin_induction Grows.refl Grows.trans grows_of_makeDirectory fs _ p

/-- A file takes the place of no directory, so all directories stay. -/
theorem keepsDirectories_of_write {p : Path} {bytes : Bytes} (h : fs.write p bytes = .ok fs') : fs.KeepsDirectories fs' := by
  obtain ⟨place, -, hnode, rfl⟩ := exists_of_write h
  refine ⟨rfl, fun other hother => ?_⟩
  have hne : other ≠ place := by
    rintro rfl
    exact hnode hother
  rw [node?_put, if_neg hne, hother]

/-- What was written to a file is found at its path. -/
theorem find?_of_write {p : Path} {bytes : Bytes} (h : fs.write p bytes = .ok fs') : fs'.find? p = some (.file bytes) := by
  have hkeeps := keepsDirectories_of_write h
  obtain ⟨place, hplace, -, rfl⟩ := exists_of_write h
  unfold find?
  rw [hkeeps.follow hplace]
  exact (node?_put ..).trans (if_pos rfl)

/-- The bytes that were written with their directory are found at their path. -/
theorem find?_of_writeWithParents {p : Path} {bytes : Bytes} (h : fs.writeWithParents p bytes = (fs', none)) :
    fs'.find? p = some (.file bytes) := by
  unfold FileSystem.writeWithParents at h
  split at h
  next => cases h
  next =>
    split at h
    next => cases h
    next hwritten =>
      cases h
      exact find?_of_write hwritten

/-! ## Trees stay trees -/

/-- A directory of a tree lies in a directory, the root apart. -/
theorem IsTree.parent (h : fs.IsTree) {place : Place} (hnode : fs.node? place = some .directory) :
    place = [] ∨ fs.node? place.dropLast = some .directory := by
  rcases List.eq_nil_or_concat' place with rfl | ⟨parent, name, rfl⟩
  · exact .inl rfl
  · rw [List.dropLast_concat]
    exact .inr (h.directory hnode)

/-- In a tree, pieces lead to places in directories. -/
theorem IsTree.parent_of_followPieces (h : fs.IsTree) {pieces : List Bytes} {start place : Place}
    (hstart : start = [] ∨ fs.node? start.dropLast = some .directory) (hok : fs.followPieces pieces start = .ok place) :
    place = [] ∨ fs.node? place.dropLast = some .directory := by
  induction pieces generalizing start with
  | nil =>
    cases hok
    exact hstart
  | cons piece pieces ih =>
    rw [followPieces_cons] at hok
    cases hstep : fs.step start piece with
    | error f =>
      rw [hstep] at hok
      cases hok
    | ok next =>
      rw [hstep] at hok
      refine ih ?_ hok
      have hnode := directory_of_step hstep
      unfold step at hstep
      rw [hnode] at hstep
      dsimp only at hstep
      split at hstep
      · cases hstep
        exact hstart
      split at hstep
      · cases hstep
        rcases hstart with rfl | hparent
        · exact .inl rfl
        · exact h.parent hparent
      split at hstep
      · cases hstep
      · cases hstep
        rw [List.dropLast_concat]
        exact .inr hnode

/-- In a tree, a path leads to a place in a directory. -/
theorem IsTree.parent_of_follow (h : fs.IsTree) {p : Path} {place : Place} (hok : fs.follow p = .ok place) :
    place = [] ∨ fs.node? place.dropLast = some .directory := by
  rw [follow_eq] at hok
  cases hfault : pathFault? p with
  | some f =>
    rw [hfault] at hok
    cases hok
  | none =>
    rw [hfault] at hok
    cases hpieces : Path.cut p.bytes with
    | nil => exact absurd hpieces (Path.cut_ne_nil _)
    | cons piece pieces =>
      simp only [hpieces] at hok
      refine h.parent_of_followPieces ?_ hok
      rw [followPieces_cons] at hok
      cases hstep : fs.step (fs.startOf p) piece with
      | error f =>
        rw [hstep] at hok
        cases hok
      | ok next => exact h.parent (directory_of_step hstep)

/-- A tree stays one when something is put into a directory that is there, in the place of no directory. -/
theorem IsTree.put (h : fs.IsTree) {place : Place} (hparent : place = [] ∨ fs.node? place.dropLast = some .directory)
    (hnode : fs.node? place ≠ some .directory) (node : Node) : (fs.put place node).IsTree := by
  have hkept : ∀ other, fs.node? other = some .directory → (fs.put place node).node? other = some .directory := by
    intro other hother
    rw [node?_put, if_neg, hother]
    rintro rfl
    exact hnode hother
  intro x hx
  rcases List.mem_cons.mp hx with rfl | hx
  · exact hparent.imp_right (hkept _)
  · exact (h x (List.mem_filter.mp hx).1).imp_right (hkept _)

/-- A tree stays one where a directory is made. -/
theorem IsTree.makeDirectory (h : fs.IsTree) {p : Path} (hmade : fs.makeDirectory p = .ok fs') : fs'.IsTree := by
  obtain ⟨place, hplace, hnode, rfl⟩ := exists_of_makeDirectory hmade
  exact h.put (h.parent_of_follow hplace) (by rw [hnode]; nofun) _

/-- It stays one where all are made that a path needs. -/
theorem IsTree.makeDirectories (h : fs.IsTree) (p : Path) : (fs.makeDirectories p).1.IsTree :=
  makeDirectoriesWithin_induction (R := fun fs fs' => fs.IsTree → fs'.IsTree) (fun _ => id) (fun h h' => h' ∘ h)
    (fun hmade h => h.makeDirectory hmade) fs _ p h

/-- It stays one where a file is written. -/
theorem IsTree.write (h : fs.IsTree) {p : Path} {bytes : Bytes} (hwritten : fs.write p bytes = .ok fs') : fs'.IsTree := by
  obtain ⟨place, hplace, hnode, rfl⟩ := exists_of_write hwritten
  exact h.put (h.parent_of_follow hplace) hnode _

/-- The directories on the way to a place are a tree. -/
theorem isTree_initial (here : Place) : (initial here).IsTree := by
  have hnode : ∀ n, n ≤ here.length → (initial here).node? (here.take n) = some .directory := by
    intro n hn
    cases hlookup : (initial here).node? (here.take n) with
    | none =>
      have hnone := List.lookup_eq_none_iff.mp hlookup (here.take n, .directory)
        (List.mem_map.mpr ⟨n, List.mem_range.mpr (Nat.lt_succ_of_le hn), rfl⟩)
      simp at hnone
    | some node =>
      obtain ⟨before, after, hnodes, -⟩ := List.lookup_eq_some_iff.mp hlookup
      have hmem : (here.take n, node) ∈ (initial here).nodes := by
        rw [hnodes]
        simp
      obtain ⟨m, -, hm⟩ := List.mem_map.mp hmem
      exact congrArg some (congrArg Prod.snd hm).symm
  intro x hx
  obtain ⟨n, hn, rfl⟩ := List.mem_map.mp hx
  rw [List.mem_range] at hn
  right
  rw [List.dropLast_eq_take, List.length_take, List.take_take]
  exact hnode _ (by omega)

end

end FileSystem

/-- Nothing goes where a file is made. -/
theorem Disk.kept_of_touch {d d' : Disk} {path : Path} {place : Place} (h : d.touch path place = .ok d') :
    d'.locks = d.locks ∧ ∀ other node, d.files.node? other = some node → d'.files.node? other = some node := by
  unfold touch at h
  split at h
  · cases h
  split at h
  · cases h
  · cases h
    exact ⟨rfl, fun _ _ hnode => hnode⟩
  next hnone =>
    split at h
    · cases h
      refine ⟨rfl, fun other node hnode => ?_⟩
      rw [FileSystem.node?_put, if_neg, hnode]
      rintro rfl
      rw [hnone] at hnode
      cases hnode
    · cases h

end ReviewQueue
