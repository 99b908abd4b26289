import ReviewQueue.Store.Connection
import ReviewQueue.Store.Schema

/-!
# Faults that waiting helps against

Of all faults only the lock of another connection passes by itself. Nothing that is read from a row is such a fault, and no
statement runs into one once it has the lock, whatever the tables and whatever is asked.
-/

namespace ReviewQueue

/-- What is answered is no fault that waiting may help against. -/
def NeverWaits {α : Type} (x : Except Fault α) : Prop := ∀ f, x = .error f → f.isContention = false

namespace NeverWaits

variable {α β : Type} {x : Except Fault α}

/-- What succeeds did not wait. -/
theorem ok (a : α) : NeverWaits (.ok a) := fun _ h => by cases h

/-- A fault that is not the lock is none of waiting. -/
theorem error {f : Fault} (h : f.isContention = false) : NeverWaits (.error f : Except Fault α) := fun _ hf => by
  cases hf
  exact h

/-- What follows an answer does not wait if neither part does. -/
theorem bind (hx : NeverWaits x) {next : α → Except Fault β} (hnext : ∀ a, NeverWaits (next a)) : NeverWaits (x >>= next) := by
  cases x with
  | error f => exact error (hx f rfl)
  | ok a => exact hnext a

/-- What is made of it waits no more than it. -/
theorem map (hx : NeverWaits x) (g : α → β) : NeverWaits (x.map g) := by
  cases x with
  | error f => exact error (hx f rfl)
  | ok a => exact ok (g a)

/-- Reading several things in turn does not wait if reading each does not. -/
theorem mapM {next : α → Except Fault β} (hnext : ∀ a, NeverWaits (next a)) (as : List α) : NeverWaits (as.mapM next) := by
  induction as with
  | nil => exact ok []
  | cons a as ih =>
    rw [List.mapM_cons]
    exact (hnext a).bind fun _ => ih.bind fun _ => ok _

/-- Neither does taking them up one after the other. -/
theorem foldlM {next : β → α → Except Fault β} (hnext : ∀ b a, NeverWaits (next b a)) (as : List α) (b : β) :
    NeverWaits (as.foldlM next b) := by
  induction as generalizing b with
  | nil => exact ok b
  | cons a as ih =>
    rw [List.foldlM_cons]
    exact (hnext b a).bind ih

/-- The first of some faults is reported, if there is one. -/
theorem ofFaults {faults : List Fault} (hfaults : ∀ f ∈ faults, f.isContention = false) (hx : NeverWaits x) :
    NeverWaits (match faults with
      | f :: _ => .error f
      | [] => x) := by
  cases faults with
  | nil => exact hx
  | cons f faults => exact error (hfaults f (by simp))

end NeverWaits

/-! ## Reading rows -/

namespace Record

/-- A cell that is no integer is of the wrong type, which waiting does not mend. -/
theorem int_neverWaits (r : Record) (i : Nat) : NeverWaits (r.int i) := by
  unfold int
  split
  · exact .ok _
  · exact .error rfl

/-- Neither does it mend bytes that are no text. -/
theorem textAndBytes_neverWaits (r : Record) (i : Nat) : NeverWaits (r.textAndBytes i) := by
  unfold textAndBytes
  split
  · split
    · exact .ok _
    · exact .error rfl
  · exact .error rfl

theorem text_neverWaits (r : Record) (i : Nat) : NeverWaits (r.text i) := (r.textAndBytes_neverWaits i).map _

/-- Nor a text that is no timestamp. -/
theorem timestamp_neverWaits (r : Record) (i : Nat) : NeverWaits (r.timestamp i) := by
  refine (r.textAndBytes_neverWaits i).bind fun _ => ?_
  dsimp only
  split
  · exact .ok _
  · exact .error rfl

/-- Nor a word that is no status. -/
theorem status_neverWaits (r : Record) (i : Nat) : NeverWaits (r.status i) := by
  refine (r.text_neverWaits i).bind fun _ => ?_
  split
  · exact .ok _
  · exact .error rfl

/-- Null is read without a look at the kind. -/
theorem nullable_neverWaits {α : Type} {read : Record → Nat → Except Fault α} (hread : ∀ r i, NeverWaits (read r i)) (r : Record)
    (i : Nat) : NeverWaits (nullable read r i) := by
  unfold nullable
  split
  · exact .ok _
  · exact (hread r i).map some

end Record

open Record in
/-- A row is read cell by cell. -/
theorem Repo.ofRecord_neverWaits (r : Record) : NeverWaits (ofRecord r) :=
  (int_neverWaits r 0).bind fun _ => (text_neverWaits r 1).bind fun _ => (text_neverWaits r 2).bind fun _ =>
    (timestamp_neverWaits r 3).bind fun _ => .ok _

open Record in
theorem Commit.ofRecord_neverWaits (r : Record) : NeverWaits (ofRecord r) :=
  (int_neverWaits r 0).bind fun _ => (int_neverWaits r 1).bind fun _ => (text_neverWaits r 2).bind fun _ =>
    (text_neverWaits r 3).bind fun _ => (text_neverWaits r 4).bind fun _ => (timestamp_neverWaits r 5).bind fun _ =>
      (timestamp_neverWaits r 6).bind fun _ => .ok _

open Record in
theorem Job.ofRecord_neverWaits (r : Record) : NeverWaits (ofRecord r) :=
  (int_neverWaits r 0).bind fun _ => (int_neverWaits r 1).bind fun _ => (nullable_neverWaits int_neverWaits r 2).bind fun _ =>
    (text_neverWaits r 3).bind fun _ => (text_neverWaits r 4).bind fun _ => (status_neverWaits r 5).bind fun _ =>
      (timestamp_neverWaits r 6).bind fun _ => (nullable_neverWaits timestamp_neverWaits r 7).bind fun _ =>
        (nullable_neverWaits timestamp_neverWaits r 8).bind fun _ => (nullable_neverWaits text_neverWaits r 9).bind fun _ =>
          (nullable_neverWaits text_neverWaits r 10).bind fun _ => .ok _

open Record in
theorem Review.ofRecord_neverWaits (r : Record) : NeverWaits (ofRecord r) :=
  (int_neverWaits r 0).bind fun _ => (int_neverWaits r 1).bind fun _ => (text_neverWaits r 2).bind fun _ =>
    (text_neverWaits r 3).bind fun _ => (text_neverWaits r 4).bind fun _ => (timestamp_neverWaits r 5).bind fun _ => .ok _

open Record in
theorem Response.ofRecord_neverWaits (r : Record) : NeverWaits (ofRecord r) :=
  (int_neverWaits r 0).bind fun _ => (int_neverWaits r 1).bind fun _ => (text_neverWaits r 2).bind fun _ =>
    (text_neverWaits r 3).bind fun _ => (timestamp_neverWaits r 4).bind fun _ => .ok _

/-! ## The faults that layouts show -/

namespace Database

variable {db : Database}

/-- A table is there or not. -/
theorem need_neverWaits (db : Database) (name : String) : NeverWaits (db.need name) := by
  unfold need
  split
  · exact .error rfl
  · exact .ok _

/-- A name that means no column is a fault of the statement. -/
theorem isContention_unknown {l : Layout} {names : List String} : ∀ f ∈ l.unknown names, f.isContention = false := by
  intro f hf
  unfold Layout.unknown at hf
  obtain ⟨name, -, hname⟩ := List.mem_filterMap.mp hf
  split at hname <;> cases hname
  rfl

/-- What layouts show of a statement is what they show of its table. -/
theorem isContention_faultsOn {table : String} {faults : Layout → List Fault}
    (h : ∀ l, ∀ f ∈ faults l, f.isContention = false) : ∀ f ∈ db.faultsOn table faults, f.isContention = false := by
  unfold faultsOn
  split
  · intro f hf
    cases List.mem_singleton.mp hf
    rfl
  · exact h _

/-- A reference without a table, or to one without a key, is a fault of the layouts. -/
theorem isContention_faultyReferences {l : Layout} {p : Column → Bool} :
    ∀ f ∈ db.faultyReferences l p, f.isContention = false := by
  intro f hf
  obtain ⟨⟨c, parent⟩, -, hfault⟩ := List.mem_filterMap.mp hf
  simp only [referenceFault?] at hfault
  repeat' split at hfault
  all_goals cases hfault
  all_goals rfl

/-- A reference to a table without a key is a mismatch. -/
theorem isContention_faultyChildren {l : Layout} {p : Column → Bool} :
    ∀ f ∈ db.faultyChildren l p, f.isContention = false := by
  intro f hf
  unfold faultyChildren at hf
  split at hf
  · cases hf
  · obtain ⟨_, -, rfl⟩ := List.mem_map.mp hf
    rfl

/-- The version is read from the rows of its table. -/
theorem recordedVersion_neverWaits (db : Database) : NeverWaits db.recordedVersion := by
  unfold recordedVersion
  repeat' split
  all_goals first
    | exact .ok _
    | exact .error rfl

end Database

open Database in
/-- The faults of an insertion that the layouts show are no contention. -/
theorem Insertion.isContention_faults {s : Insertion} {g : Guard} {db : Database} :
    ∀ f ∈ s.faults g db, f.isContention = false := by
  refine isContention_faultsOn fun l => ?_
  simp only [List.forall_mem_append]
  refine ⟨⟨⟨fun f hf => ?_, fun f hf => ?_⟩, fun f hf => ?_⟩, isContention_unknown⟩
  · obtain ⟨x, -, hx⟩ := List.mem_filterMap.mp hf
    split at hx <;> cases hx
    rfl
  · repeat' split at hf
    all_goals first
      | cases List.mem_singleton.mp hf; rfl
      | cases hf
  · split at hf
    · rcases List.mem_append.mp hf with hf | hf
      · exact isContention_faultyReferences f hf
      · exact isContention_faultyChildren f hf
    · cases hf

open Database in
/-- Nor are those of a change. -/
theorem Change.isContention_faults {s : Change} {g : Guard} {db : Database} :
    ∀ f ∈ s.faults g db, f.isContention = false := by
  refine isContention_faultsOn fun l => ?_
  simp only [List.forall_mem_append]
  refine ⟨⟨⟨isContention_unknown, isContention_unknown⟩, fun f hf => ?_⟩, isContention_unknown⟩
  split at hf
  · rcases List.mem_append.mp hf with hf | hf
    · exact isContention_faultyReferences f hf
    · split at hf
      · exact isContention_faultyChildren f hf
      · cases hf
  · cases hf

open Database in
/-- A query only reads. -/
theorem Query.run_neverWaits (q : Query) (db : Database) : NeverWaits (q.run db) := by
  refine .ofFaults (isContention_faultsOn fun l => ?_) ((db.need_neverWaits _).bind fun _ => .ok _)
  simp only [List.forall_mem_append]
  exact ⟨isContention_unknown, isContention_unknown⟩

/-! ## The faults that rows show -/

/-- What stops a row for its cells is their own fault. -/
theorem Layout.isContention_stop? {l : Layout} {g : Guard} {cells : List (String × Cell)} {columns : List Column} {f : Fault}
    (h : l.stop? g cells columns = some (.refused f)) : f.isContention = false := by
  unfold stop? at h
  split at h
  next c hc =>
    by_cases hskip : c.onNull = .skip
    · rw [if_pos hskip] at h
      cases h
    · rw [if_neg hskip] at h
      cases h
      rfl
  next =>
    obtain ⟨c, -, hc⟩ := Option.map_eq_some_iff.mp h
    cases hc
    rfl

/-- A row that is not put is one too many. -/
theorem Table.isContention_place {t : Table} {r : Row} {hr : r.Shaped t.layout} {clause : Column → Clause}
    {columns : List Column} {f : Fault} (h : t.place r hr clause columns = .error (.refused f)) : f.isContention = false := by
  unfold place at h
  split at h
  next c hc =>
    by_cases hskip : clause c = .skip
    · rw [if_pos hskip] at h
      cases h
    · rw [if_neg hskip] at h
      cases h
      rfl
  next => cases h

namespace Insertion

variable {s : Insertion} {g : Guard} {t : Table}

/-- Finding a number does not wait. -/
theorem number_neverWaits (s : Insertion) (t : Table) : NeverWaits (s.number t) := by
  unfold number
  repeat' split
  all_goals first
    | exact .ok _
    | exact .error rfl

/-- A row that cannot be added has a wrong number, a cell that is wrong by itself, or one too many. -/
theorem isContention_addTo {f : Fault} (h : s.addTo g t = .error (.refused f)) : f.isContention = false := by
  unfold addTo at h
  split at h
  next hnumber =>
    cases h
    exact s.number_neverWaits t f hnumber
  next id _ =>
    split at h
    next stop hstop =>
      cases h
      exact Layout.isContention_stop? hstop
    next =>
      cases hplace : t.place (s.row t.layout id) (s.row_shaped ..) s.clause (t.layout.rivalries s.isUnless) with
      | error stop =>
        rw [hplace] at h
        cases h
        exact Table.isContention_place hplace
      | ok u =>
        rw [hplace] at h
        cases h

/-- An insertion that runs does not wait. -/
theorem run_neverWaits (s : Insertion) (g : Guard) (db : Database) : NeverWaits (s.run g db) := by
  refine (db.need_neverWaits _).bind fun t => ?_
  cases hadd : s.addTo g t with
  | error stop =>
    cases stop with
    | refused f => exact .error (isContention_addTo hadd)
    | skipped => exact .ok _
  | ok v =>
    dsimp only
    repeat' split
    all_goals first
      | exact .ok _
      | exact .error rfl

end Insertion

namespace Change

variable {s : Change} {g : Guard} {t : Table}

/-- A row that cannot be changed has a wrong number, a cell that is wrong by itself, or one too many. -/
theorem isContention_changeRow {r : Row} {hr : r.Shaped t.layout} {f : Fault}
    (h : s.changeRow g t r hr = .error (.refused f)) : f.isContention = false := by
  unfold changeRow at h
  split at h
  next f' hnumber =>
    cases h
    unfold number at hnumber
    repeat' split at hnumber
    all_goals cases hnumber
    rfl
  next id _ =>
    split at h
    next stop hstop =>
      cases h
      exact Layout.isContention_stop? hstop
    next =>
      cases hplace : (t.remove (·.id = r.id)).place { r.given t.layout s.cells with id } (hr.mapCells _) (·.onRepeat)
          (s.rivalries t.layout) with
      | error stop =>
        cases (congrArg (Except.map ({ r.given t.layout s.cells with id }, ·)) hplace).symm.trans h
        exact Table.isContention_place hplace
      | ok u => cases (congrArg (Except.map ({ r.given t.layout s.cells with id }, ·)) hplace).symm.trans h

/-- Nor does changing the next row. -/
theorem changeNext_neverWaits (s : Change) (g : Guard) (done : List Row × Table) (id : Int) :
    NeverWaits (s.changeNext g done id) := by
  unfold changeNext
  split
  · exact .ok _
  · split
    next hrow => exact .error (isContention_changeRow hrow)
    · exact .ok _
    · exact .ok _

/-- A change that runs does not wait. -/
theorem run_neverWaits (s : Change) (g : Guard) (db : Database) : NeverWaits (s.run g db) := by
  refine (db.need_neverWaits _).bind fun t => (NeverWaits.foldlM (s.changeNext_neverWaits g) _ _).bind fun _ => ?_
  dsimp only
  split
  · exact .error rfl
  · exact .ok _

end Change

/-! ## Statements on a connection -/

namespace Connection

variable {c : Connection}

/-- What a statement did is kept, or refused for a reference that was put off. -/
theorem keep_neverWaits {α : Type} {x : Except Fault (α × Database)} (hx : NeverWaits x) (c : Connection) (owed : Int)
    (answers : Bool) : NeverWaits (c.keep owed answers x) := by
  cases x with
  | error f => exact .error (hx f rfl)
  | ok v =>
    unfold keep
    dsimp only
    repeat' split
    all_goals first
      | exact .ok _
      | exact .error rfl

/-- Adding a row within a transaction runs into the lock of another connection only if there is one. -/
theorem insertWithin_neverWaits (hlock : c.locked = false) (s : Insertion) : NeverWaits (c.insertWithin s) := by
  unfold insertWithin write
  rw [hlock, if_neg Bool.false_ne_true]
  exact .ofFaults Insertion.isContention_faults (s.run_neverWaits _ _)

/-- So does changing rows within one. -/
theorem changeWithin_neverWaits (hlock : c.locked = false) (s : Change) : NeverWaits (c.changeWithin s) := by
  unfold changeWithin write
  rw [hlock, if_neg Bool.false_ne_true]
  exact .ofFaults Change.isContention_faults (s.run_neverWaits _ _)

/-- A statement that adds a row runs into the lock of another connection only if there is one. -/
theorem insert_neverWaits (hlock : c.locked = false) (s : Insertion) : NeverWaits (c.insert s) :=
  keep_neverWaits (insertWithin_neverWaits hlock s) c _ _

/-- So does one that changes rows. -/
theorem change_neverWaits (hlock : c.locked = false) (s : Change) : NeverWaits (c.change s) :=
  keep_neverWaits (changeWithin_neverWaits hlock s) c _ _

/-- What is looked up is found or not, lock or no lock. -/
theorem first_neverWaits {α : Type} {read : Record → Except Fault α} (hread : ∀ r, NeverWaits (read r)) (c : Connection)
    (q : Query) : NeverWaits (c.first q read) := by
  refine (q.run_neverWaits _).bind fun records => ?_
  split
  · exact .ok _
  · exact (hread _).bind fun _ => .ok _

/-- A statement that is right in its layout waits for the lock of another connection before anything else. -/
theorem insert_of_locked {s : Insertion} (hlock : c.locked = true) (hfaults : s.faults c.guard c.database = []) :
    c.insert s = .error .locked := by
  unfold insert insertWithin write
  rw [hfaults, hlock]
  rfl

end Connection
end ReviewQueue
