import ReviewQueue.Proofs.Files.Trees
import ReviewQueue.Settings.Environment

/-!
# How opening ends

Opening a database ends with a handle or with an error, except that it is aborted if the time to wait is longer than can be asked
for. That is found out late: the path has been followed by then, so only a path that leads to no place for a database gives an
error first, and the directories and the empty file that were made on the way stay.
-/

namespace ReviewQueue

/-- A handle to what is at a path, with a time to wait, or an error. -/
def Opening.Answers (path : Path) (busyTimeoutMs : Nat) (opening : Opening) : Prop :=
  (∃ handle, opening = .opened handle ∧ handle.path = some path ∧ handle.busyTimeoutMs = busyTimeoutMs) ∨
    ∃ error, opening = .failed error

namespace Disk

/-- The disk once there is what a path asks for: its directory is there, and the file that it names, unless the database lies in no
file. None if the path cannot be read or there is not what it asks for. -/
def reach? (d : Disk) (path : Path) : Option Disk :=
  match d.files.makeDirectories (path.parent?.getD ⟨[]⟩) with
  | (_, some _) => none
  | (files, none) =>
    if path.bytes.any (· = 0) then none
    else (Location.ofPath path).toOption.bind fun l => (ready { d with files } path l).toOption

/-- How opening at a path may end: with an answer, if the time to wait can be asked for. Otherwise it is aborted as soon as the path
has led to a place for a database. Nothing is logged then, and all that lay on the disk is still there, as are the locks. If the path
leads to no such place there is an error. -/
structure Ends (d : Disk) (path : Path) (busyTimeoutMs : Nat) (result : Opening × Disk × List LogLine) : Prop where
  answered : busyTimeoutMs ≤ longestWait → result.1.Answers path busyTimeoutMs
  aborted : longestWait < busyTimeoutMs → (d.reach? path).isSome →
    result.1 = .aborted ∧ result.2.2 = [] ∧ result.2.1.locks = d.locks ∧
      ∀ place node, d.files.node? place = some node → result.2.1.files.node? place = some node
  refused : longestWait < busyTimeoutMs → d.reach? path = none → ∃ error, result.1 = .failed error

variable {d d' : Disk} {path : Path}

/-- Nothing goes while it is made sure that there is what a location asks for. -/
theorem kept_of_ready {l : Location} (h : d.ready path l = .ok d') :
    d'.locks = d.locks ∧ ∀ place node, d.files.node? place = some node → d'.files.node? place = some node := by
  unfold ready at h
  split at h
  · cases h
    exact ⟨rfl, fun _ _ hnode => hnode⟩
  · dsimp only at h
    split at h
    · split at h
      · cases h
      · exact kept_of_touch h
    · split at h
      · cases h
      · cases h
      · cases h
        exact ⟨rfl, fun _ _ hnode => hnode⟩

/-- Nothing goes while a path is followed. -/
theorem kept_of_reach? (h : d.reach? path = some d') :
    d'.locks = d.locks ∧ ∀ place node, d.files.node? place = some node → d'.files.node? place = some node := by
  have hgrows := d.files.grows_makeDirectories (path.parent?.getD ⟨[]⟩)
  unfold reach? at h
  split at h
  · cases h
  next files hmade =>
    rw [hmade] at hgrows
    split at h
    · cases h
    · obtain ⟨l, -, hfound⟩ := Option.bind_eq_some_iff.mp h
      cases hready : ready { d with files } path l with
      | error f =>
        rw [hready] at hfound
        cases hfound
      | ok left =>
        rw [hready] at hfound
        cases hfound
        obtain ⟨hlocks, hkept⟩ := kept_of_ready hready
        exact ⟨hlocks, fun place node hnode => hkept place node (hgrows.kept place node hnode)⟩

/-! ## Answers -/

/-- A database is opened at its path, or it is said why not. -/
theorem finish_answers (handle : Handle) (path : Path) (answer : Except StoreError Unit) (log : List LogLine) :
    (finish handle path answer log).1.Answers path handle.busyTimeoutMs := by
  cases answer with
  | error e => exact .inr ⟨e, rfl⟩
  | ok => exact .inl ⟨_, rfl, rfl, rfl⟩

/-- So it is where no file is named, -/
theorem openOwn_answers (path : Path) (l : Location) (busyTimeoutMs : Nat) :
    (openOwn path l busyTimeoutMs).1.Answers path busyTimeoutMs := by
  unfold openOwn
  split
  · exact finish_answers ..
  · exact finish_answers ..

/-- where the file is only read, -/
theorem openViewed_answers (d : Disk) (path : Path) (l : Location) (place : Place) (busyTimeoutMs : Nat) :
    (d.openViewed path l place busyTimeoutMs).1.Answers path busyTimeoutMs := by
  unfold openViewed
  split
  · exact .inr ⟨_, rfl⟩
  · split
    · exact .inr ⟨_, rfl⟩
    · exact finish_answers ..

/-- where its locks are not seen, -/
theorem openBlind_answers (d : Disk) (path : Path) (place : Place) (busyTimeoutMs : Nat) :
    (d.openBlind path place busyTimeoutMs).1.Answers path busyTimeoutMs := by
  unfold openBlind
  split
  · exact .inr ⟨_, rfl⟩
  · split
    · exact .inr ⟨_, rfl⟩
    · split <;> exact finish_answers ..

/-- and where it is shared. -/
theorem openShared_answers (d : Disk) (path : Path) (place : Place) (busyTimeoutMs : Nat) :
    (d.openShared path place busyTimeoutMs).1.Answers path busyTimeoutMs := by
  unfold openShared
  split
  · exact .inr ⟨_, rfl⟩
  · exact finish_answers ..

/-- Whatever a location asks for, opening it once it is ready is answered. -/
theorem openReady_answers (d : Disk) (path : Path) (l : Location) (busyTimeoutMs : Nat) :
    (d.openReady path l busyTimeoutMs).1.Answers path busyTimeoutMs := by
  unfold openReady
  dsimp only
  split
  · exact openOwn_answers ..
  · split
    · exact openViewed_answers ..
    · split
      · exact openBlind_answers ..
      · exact openShared_answers ..

/-! ## Endings -/

/-- What a path names is opened once it is ready; if it cannot be read or does not get ready there is an error. -/
theorem openNamed_eq (d : Disk) (path : Path) (busyTimeoutMs : Nat) :
    match (Location.ofPath path).toOption.bind fun l => (d.ready path l).toOption with
    | none => ∃ error, d.openNamed path busyTimeoutMs = (.failed error, d, [])
    | some d' => ∃ l, d.openNamed path busyTimeoutMs =
        if longestWait < busyTimeoutMs then (.aborted, d', []) else d'.openReady path l busyTimeoutMs := by
  unfold openNamed
  cases hread : Location.ofPath path with
  | error f => exact ⟨_, rfl⟩
  | ok l =>
    cases hready : d.ready path l with
    | error f =>
      simp only [Except.toOption, Option.bind_some, hready, bind, Except.bind]
      exact ⟨_, rfl⟩
    | ok d' =>
      simp only [Except.toOption, Option.bind_some, hready, bind, Except.bind, pure, Except.pure]
      exact ⟨l, rfl⟩

/-- Where the path leads to no place for a database, opening fails and nothing is logged. -/
theorem openAt_of_reach?_eq_none (busyTimeoutMs : Nat) (h : d.reach? path = none) :
    ∃ error d', d.openAt path busyTimeoutMs = (.failed error, d', []) := by
  unfold reach? at h
  unfold openAt
  dsimp only
  split
  next files f _ => exact ⟨_, _, rfl⟩
  next files hmade =>
    simp only [hmade] at h
    split
    next position _ => exact ⟨_, _, rfl⟩
    next hnul =>
      rw [← List.findIdx?_isSome, hnul, if_neg (by decide)] at h
      have hopen := openNamed_eq { d with files } path busyTimeoutMs
      rw [h] at hopen
      obtain ⟨error, hopen⟩ := hopen
      exact ⟨error, _, hopen⟩

/-- Where the path leads to a place, opening is aborted or answered, as the time to wait is. -/
theorem openAt_of_reach?_eq_some (busyTimeoutMs : Nat) (h : d.reach? path = some d') :
    if longestWait < busyTimeoutMs then d.openAt path busyTimeoutMs = (.aborted, d', [])
      else (d.openAt path busyTimeoutMs).1.Answers path busyTimeoutMs := by
  unfold reach? at h
  unfold openAt
  split at h
  · cases h
  next files hmade =>
    dsimp only at h ⊢
    rw [← List.findIdx?_isSome] at h
    cases hnul : path.bytes.findIdx? (· = 0) with
    | some position =>
      rw [hnul] at h
      cases h
    | none =>
      rw [hnul, if_neg (by decide)] at h
      have hopen := openNamed_eq { d with files } path busyTimeoutMs
      rw [h] at hopen
      obtain ⟨l, hopen⟩ := hopen
      simp only [hmade, hopen]
      split
      next => rfl
      next => exact openReady_answers ..

/-- Opening at a path ends as it may. -/
theorem openAt_ends (d : Disk) (path : Path) (busyTimeoutMs : Nat) :
    d.Ends path busyTimeoutMs (d.openAt path busyTimeoutMs) := by
  cases hreach : d.reach? path with
  | none =>
    obtain ⟨error, left, hopen⟩ := openAt_of_reach?_eq_none busyTimeoutMs hreach
    rw [hopen]
    refine ⟨fun _ => .inr ⟨error, rfl⟩, fun _ hsome => ?_, fun _ _ => ⟨error, rfl⟩⟩
    rw [hreach] at hsome
    cases hsome
  | some left =>
    have hopen := openAt_of_reach?_eq_some busyTimeoutMs hreach
    refine ⟨fun hwait => ?_, fun hwait _ => ?_, fun _ hnone => ?_⟩
    · rwa [if_neg (Nat.not_lt.mpr hwait)] at hopen
    · rw [if_pos hwait] at hopen
      rw [hopen]
      exact ⟨rfl, rfl, kept_of_reach? hreach⟩
    · rw [hreach] at hnone
      cases hnone

end Disk

namespace Environment

/-- How opening ends, for every environment, all settings and all that may lie on the disk: with a handle or an error if the time to
wait can be asked for, which is up to 2147483647 milliseconds, and never with a handle if it cannot. This holds for settings that
are given and for those that are loaded from the file. -/
theorem opening_ends (e : Environment) (d : Disk) :
    (∀ s : Settings, d.Ends (e.databasePath s) s.busyTimeoutMs (d.openAt (e.databasePath s) s.busyTimeoutMs)) ∧
    ∃ result, e.openDatabase d = (result.1, result.2.1, (e.loadSettings d.files).2 ++ result.2.2) ∧
      d.Ends (e.defaultPath d.files).1 (e.loadSettings d.files).1.busyTimeoutMs result :=
  ⟨fun _ => d.openAt_ends .., _, rfl, d.openAt_ends ..⟩

/-- An environment that names nothing but a home directory. -/
def namesHome : Environment := { home := .ofString "/h" }

/-- A disk with nothing on it. -/
def emptyDisk : Disk := { files := .initial [] }

/-- Settings with the longest time to wait that can be asked for. -/
def longestWait : Settings := { busyTimeoutMs := 2147483647 }

/-- Settings with a time to wait that is one millisecond too long. -/
def overlongWait : Settings := { busyTimeoutMs := 2147483648 }

/-- On a disk with nothing on it the longest time to wait gives an answer, and one millisecond more aborts the opening. -/
theorem opening_ends_longestWait :
    (emptyDisk.openAt (namesHome.databasePath longestWait) longestWait.busyTimeoutMs).1.Answers
        (namesHome.databasePath longestWait) longestWait.busyTimeoutMs ∧
      (emptyDisk.openAt (namesHome.databasePath overlongWait) overlongWait.busyTimeoutMs).1 = .aborted := by
  obtain ⟨hends, -⟩ := opening_ends namesHome emptyDisk
  have hreach : (emptyDisk.reach? (namesHome.databasePath overlongWait)).isSome := by decide +kernel
  exact ⟨(hends longestWait).answered (by decide), ((hends overlongWait).aborted (by decide) hreach).1⟩

/-- A disk with nothing on it but these settings, as they are saved. -/
def overlongDisk : Disk := { files := (namesHome.saveSettings emptyDisk.files overlongWait).1 }

/-- The settings are saved and loaded without a warning, and opening is aborted by them. -/
theorem opening_ends_overlongWait :
    (namesHome.saveSettings emptyDisk.files overlongWait).2 = none ∧
      namesHome.loadSettings overlongDisk.files = (overlongWait, []) ∧ (namesHome.openDatabase overlongDisk).1 = .aborted := by
  refine ⟨?_, ?_, ?_⟩ <;> decide +kernel

end Environment
end ReviewQueue
