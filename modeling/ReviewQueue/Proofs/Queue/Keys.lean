import ReviewQueue.Proofs.Queue.Entities
import ReviewQueue.Proofs.Queue.Footprint
import ReviewQueue.Proofs.Store.Queries

/-!
# Rows that are there once

A repository is there once for each path, and a commit once for each hash. Both are asked for alike: the row is looked up, added
if it is missing, and looked up again. So the two are treated as one here: an entry has a key, the key finds its row, and a
statement for an entry does the same whichever of the two it is.
-/

namespace ReviewQueue

/-- What finds the one row of a repository or of a commit: the column that tells the rows apart, and the text that the row has
there. -/
structure Key where
  isPath : Bool
  text : String
  deriving DecidableEq, Repr

/-- Two texts are not stored as one cell. -/
theorem Cell.ofString_inj {s s' : String} (h : ofString s = ofString s') : s = s' := by
  have hread := Utf8.decode_bytesOf s
  rw [Cell.text.inj h, Utf8.decode_bytesOf] at hread
  exact (Except.ok.inj hread).symm

namespace Key

/-- The key of a repository. -/
def path (shown : String) : Key := ⟨true, shown⟩

/-- The key of a commit. -/
def hash (sha : String) : Key := ⟨false, sha⟩

/-- The layout of the table in which the row is. -/
def layout (k : Key) : Layout := if k.isPath then .repos else .commits

/-- The column that tells the rows apart. -/
def column (k : Key) : Column := .textUnique (if k.isPath then "root_path" else "sha")

/-- The cell of the row in that column. -/
def cell (k : Key) : Cell := .ofString k.text

/-- The columns that are asked for. -/
def columns (k : Key) : List String := if k.isPath then Repo.columns else Commit.columns

/-- What a record is read as. -/
def answer (k : Key) (r : Record) : Except Fault Answer :=
  if k.isPath then (Repo.ofRecord r).map .repo else (Commit.ofRecord r).map .commit

/-- Look the row up. -/
def look (k : Key) (c : Connection) : Except Fault (Option Answer) :=
  c.first ⟨k.layout.name, k.columns, [(k.column.name, k.cell)]⟩ k.answer

/-- Whether a row has the key. -/
def Names (k : Key) (r : Row) : Prop := r.cell k.column.name = k.cell

instance (k : Key) (r : Row) : Decidable (k.Names r) := inferInstanceAs (Decidable (_ = _))

/-- The rows that have the key. -/
def rows (k : Key) (db : Database) : List Row := (db.rows k.layout.name).filter (k.Names ·)

/-- No row has the key. -/
def Lacks (k : Key) (db : Database) : Prop := k.rows db = []

/-- One row has the key, and is read as `x`. -/
def Has (k : Key) (db : Database) (x : Answer) : Prop :=
  ∃ r, k.rows db = [r] ∧ k.answer (r.record (k.layout.pick k.columns)) = .ok x

/-! ## What the two have in common -/

/-- The table of a key is one of the current ones. -/
theorem layout_mem (k : Key) : k.layout ∈ Layout.current := by
  unfold layout
  cases k.isPath <;> simp [Layout.current]

/-- It is not one that resolutions write to. -/
theorem layout_name_ne (k : Key) : k.layout.name ≠ "review_jobs" ∧ k.layout.name ≠ "reviews" := by
  unfold layout
  cases k.isPath <;> decide

theorem column_mem (k : Key) : k.column ∈ k.layout.columns := by
  unfold column layout
  cases k.isPath <;> decide

/-- The column of a key is not the number of its row. -/
theorem column_isKey (k : Key) : k.column.isKey = false := by
  unfold column
  cases k.isPath <;> rfl

/-- No other column tells rows apart, but for the number. -/
theorem eq_column (k : Key) : ∀ x ∈ k.layout.columns, x.unique = true → x.isKey = false → x = k.column := by
  unfold column layout
  cases k.isPath <;> decide

/-- The column of a key is found under its name. -/
theorem column?_eq (k : Key) : k.layout.column? k.column.name = some k.column := by
  unfold column layout
  cases k.isPath <;> decide

/-- A query for a key names columns that are there. -/
theorem knows_columns (k : Key) : (k.layout.knows k.columns && k.layout.knows [k.column.name]) = true := by
  unfold column layout columns
  cases k.isPath <;> decide

theorem layout_distinct (k : Key) : k.layout.distinct = true := by
  unfold layout
  cases k.isPath <;> decide

/-- Keys of one table are of one kind. -/
theorem isPath_eq_of_layout {k k' : Key} (h : k.layout.name = k'.layout.name) : k.isPath = k'.isPath := by
  unfold layout at h
  cases hk : k.isPath <;> cases hk' : k'.isPath <;> simp_all [Layout.repos, Layout.commits]

/-- Keys that are stored alike have the same text. -/
theorem text_eq_of_cell {k k' : Key} (h : k.cell = k'.cell) : k.text = k'.text := Cell.ofString_inj h

/-- A key is lacking if no row has it. -/
theorem lacks_iff {k : Key} {db : Database} : k.Lacks db ↔ ∀ r ∈ db.rows k.layout.name, ¬k.Names r := by
  unfold Lacks rows
  simp only [List.filter_eq_nil_iff, decide_eq_true_eq]

/-- The rows of a key depend on its table alone. -/
theorem rows_congr {k : Key} {db db' : Database} (h : db'.table? k.layout.name = db.table? k.layout.name) :
    k.rows db' = k.rows db := by
  unfold rows
  rw [Database.rows_congr h]

/-! ## Looking up -/

/-- The query of a key asks for the rows that have it. -/
theorem hasAll_eq (k : Key) (r : Row) : r.hasAll k.layout [(k.column.name, k.cell)] = decide (k.Names r) := by
  have hrank : 2 ≤ (k.cell.asKind k.column.kind.sought).rank := Nat.le_refl 2
  rw [Row.hasAll_singleton k.column?_eq k.column_isKey r hrank]
  rfl

/-- What is looked up under a key is read from the first row that has it. -/
theorem first_eq {α : Type} {c : Connection} (hdb : c.database.IsCurrent) (k : Key) (read : Record → Except Fault α) :
    c.first ⟨k.layout.name, k.columns, [(k.column.name, k.cell)]⟩ read = match (k.rows c.database).head? with
      | none => .ok none
      | some r => (read (r.record (k.layout.pick k.columns))).map some := by
  obtain ⟨t, ht, hl⟩ := hdb k.layout k.layout_mem
  have hknown : (Query.mk k.layout.name k.columns [(k.column.name, k.cell)]).isKnown t.layout = true := by
    rw [hl]
    exact Query.isKnown_of_names [k.column.name] rfl k.knows_columns
  have hfound : (Query.mk k.layout.name k.columns [(k.column.name, k.cell)]).found t =
      (k.rows c.database).map (·.record (k.layout.pick k.columns)) := by
    unfold Query.found rows
    simp only [hl, hasAll_eq, Database.rows_of_table? ht]
  rw [Connection.first_eq ht hknown, hfound, List.head?_map]
  cases (k.rows c.database).head? <;> rfl

/-- Looking for a key answers the first row that has it. -/
theorem look_eq {c : Connection} (hdb : c.database.IsCurrent) (k : Key) : k.look c = match (k.rows c.database).head? with
    | none => .ok none
    | some r => (k.answer (r.record (k.layout.pick k.columns))).map some := k.first_eq hdb k.answer

/-- A key that no row has is not found. -/
theorem look_of_lacks {c : Connection} {k : Key} (hdb : c.database.IsCurrent) (h : k.Lacks c.database) : k.look c = .ok none := by
  rw [look_eq hdb, h]
  rfl

/-- A key that a row has is found, as what the row is read as. -/
theorem look_of_has {c : Connection} {k : Key} {x : Answer} (hdb : c.database.IsCurrent) (h : k.Has c.database x) :
    k.look c = .ok (some x) := by
  obtain ⟨r, hr, hx⟩ := h
  rw [look_eq hdb, hr]
  simp only [List.head?_cons, hx, Except.map]

/-- What is read of the one row is one answer. -/
theorem Has.inj {k : Key} {db : Database} {x y : Answer} (hx : k.Has db x) (hy : k.Has db y) : x = y := by
  obtain ⟨r, hr, hx⟩ := hx
  obtain ⟨r', hr', hy⟩ := hy
  rw [hr] at hr'
  cases hr'
  rw [hx] at hy
  exact Except.ok.inj hy

/-- A key with an answer is not lacking. -/
theorem Has.not_lacks {k : Key} {db : Database} {x : Answer} (h : k.Has db x) : ¬k.Lacks db := by
  obtain ⟨r, hr, -⟩ := h
  unfold Lacks
  rw [hr]
  simp

/-- What a key has is decided by its rows. -/
theorem Has.congr {k : Key} {db db' : Database} {x : Answer} (h : k.Has db x) (hsame : k.rows db' = k.rows db) : k.Has db' x := by
  unfold Has
  rw [hsame]
  exact h

end Key

/-- What is to be there once: the repository of a path, or a commit. -/
inductive Entry where
  | repo (path : Path)
  | commit (info : CommitInfo)
  deriving DecidableEq, Repr

namespace Entry

def key : Entry → Key
  | repo path => .path path.display
  | commit info => .hash info.sha

/-- The operation that asks for an entry. -/
def operation : Entry → Operation
  | repo path => .registerRepo path
  | commit info => .storeCommit info

/-- The call that looked in vain for the row. -/
def adding : Entry → Call
  | repo path => .registering path
  | commit info => .storing info

/-- The call that is to find the row. -/
def added : Entry → Call
  | repo path => .registered path
  | commit info => .stored info

/-- The statement that adds the row. -/
def insertion (now : Timestamp) : Entry → Insertion
  | repo path => Connection.registration now path
  | commit info => Connection.storing now info

/-- What the row is read as if this entry added it under a number, at a plain time. -/
def entity (id : Int) (now : Timestamp) : Entry → Answer
  | repo path => .repo ⟨id, path.display, path.displayName, now⟩
  | commit info => .commit ⟨id, info.repoId, info.sha, info.author, info.subject, info.timestamp.readBack, now⟩

/-- Whether the row of an entry can be added and read back: a commit has to be of a repository that is there, and of a
year of four digits. -/
def Ready (db : Database) : Entry → Prop
  | repo _ => True
  | commit info => info.timestamp.HasPlainYear ∧ ∃ r ∈ db.rows "repos", r.id = info.repoId

instance (e : Entry) (db : Database) : Decidable (e.Ready db) :=
  match e with
  | repo _ => inferInstanceAs (Decidable True)
  | commit _ => inferInstanceAs (Decidable (_ ∧ _))

/-- Whether the row of an entry can be added: a commit has to be of a repository that is there. -/
def HasParent (db : Database) : Entry → Prop
  | repo _ => True
  | commit info => ∃ r ∈ db.rows "repos", r.id = info.repoId

/-- An entry that is ready to be added has the row that it refers to. -/
theorem Ready.hasParent {e : Entry} {db : Database} (h : e.Ready db) : e.HasParent db := by
  cases e with
  | repo path => trivial
  | commit info => exact h.2

end Entry

/-- The entry that an operation asks for. -/
def Operation.entry? : Operation → Option Entry
  | .registerRepo path => some (.repo path)
  | .storeCommit info => some (.commit info)
  | _ => none

/-- The entry that a call of which nothing was run yet asks for. -/
def Call.asks? : Call → Option Entry
  | asked op => op.entry?
  | _ => none

/-- The key of the entry that an operation asks for. -/
def Operation.key? (op : Operation) : Option Key := op.entry?.map (·.key)

namespace Entry

/-- A call for an entry is at one of its three statements. -/
theorem call_cases {call : Call} {e : Entry} (h : call.operation.entry? = some e) :
    call = .asked e.operation ∨ call = e.adding ∨ call = e.added := by
  cases call with
  | asked op => cases op <;> cases h <;> exact Or.inl rfl
  | registering | storing =>
    cases h
    exact Or.inr (Or.inl rfl)
  | registered | stored =>
    cases h
    exact Or.inr (Or.inr rfl)
  | refusing => cases h

theorem entry?_operation (e : Entry) : e.operation.entry? = some e := by cases e <;> rfl

theorem operation_adding (e : Entry) : e.adding.operation = e.operation := by cases e <;> rfl

theorem operation_added (e : Entry) : e.added.operation = e.operation := by cases e <;> rfl

/-! ## The lookups of a call -/

section

variable {c : Connection} {now : Timestamp} {e : Entry}

/-- A lookup that finds a repository or a commit finds it under its key. -/
theorem look_map {α : Type} (q : Query) (read : Record → Except Fault α) (f : α → Answer) :
    c.first q (fun r => (read r).map f) = (c.first q read).map (Option.map f) := by
  unfold Connection.first
  cases q.run c.database with
  | error fault => rfl
  | ok records =>
    simp only [bind, Except.bind]
    cases records.head? with
    | none => rfl
    | some r =>
      simp only
      cases read r <;> rfl

/-- A path is looked up as the repository at its root. -/
theorem look_repo (c : Connection) (path : Path) :
    (repo path).key.look c = (c.repoAt path.display).map (Option.map .repo) := look_map _ _ _

/-- A hash is looked up as its commit. -/
theorem look_commit (c : Connection) (info : CommitInfo) :
    (commit info).key.look c = (c.commitOf info.sha).map (Option.map .commit) := look_map _ _ _

/-- The first statement of a call answers the row, or goes on to add it. -/
theorem run_asked (c : Connection) (now : Timestamp) (e : Entry) :
    (Call.asked e.operation).run c now = match e.key.look c with
      | .error f => (.answered (.error (.ofFault f)), c.database)
      | .ok (some x) => (.answered (.ok x), c.database)
      | .ok none => (.next e.adding, c.database) := by
  cases e with
  | repo path =>
    simp only [look_repo, operation, Call.run]
    cases c.repoAt path.display with
    | error f => rfl
    | ok found => cases found <;> rfl
  | commit info =>
    simp only [look_commit, operation, Call.run]
    cases c.commitOf info.sha with
    | error f => rfl
    | ok found => cases found <;> rfl

/-- The second one adds the row, or finds it there. -/
theorem run_adding (c : Connection) (now : Timestamp) (e : Entry) :
    e.adding.run c now = match c.insert (e.insertion now) with
      | .error f => (.answered (.error (.ofFault f)), c.database)
      | .ok (_, db) => (.next e.added, db) := by
  cases e <;> rfl

/-- The last one answers the row. -/
theorem run_added (c : Connection) (now : Timestamp) (e : Entry) :
    e.added.run c now = match e.key.look c with
      | .error f => (.answered (.error (.ofFault f)), c.database)
      | .ok (some x) => (.answered (.ok x), c.database)
      | .ok none => (.answered (.error (.ofFault .noRow)), c.database) := by
  cases e with
  | repo path =>
    simp only [look_repo, added, Call.run, Connection.registeredRepo, bind, Except.bind]
    cases c.repoAt path.display with
    | error f => rfl
    | ok found => cases found <;> rfl
  | commit info =>
    simp only [look_commit, added, Call.run, Connection.storedCommit, bind, Except.bind]
    cases c.commitOf info.sha with
    | error f => rfl
    | ok found => cases found <;> rfl

end

/-! ## The statement that adds the row -/

/-- An entry is added to the table of its key. -/
theorem insertion_table (e : Entry) (now : Timestamp) : (e.insertion now).table = e.key.layout.name := by cases e <;> rfl

/-- Only an entry adds a row to a table in which rows have keys. -/
theorem exists_of_insertion? {call : Call} {now : Timestamp} {s : Insertion} {k : Key} (h : call.insertion? now = some s)
    (hs : s.table = k.layout.name) : ∃ e : Entry, call = e.adding ∧ s = e.insertion now := by
  cases call with
  | asked op =>
    have hother : s.table = "review_jobs" ∨ s.table = "responses" := by
      cases op <;> cases h <;> simp [Connection.queueing, Connection.responding]
    rw [hs] at hother
    rcases hother with hother | hother
    · exact absurd hother k.layout_name_ne.1
    · unfold Key.layout at hother
      exact absurd hother (by cases k.isPath <;> decide)
  | registering path =>
    cases h
    exact ⟨.repo path, rfl, rfl⟩
  | storing info =>
    cases h
    exact ⟨.commit info, rfl, rfl⟩
  | _ => cases h

/-- The new row has the key of its entry. -/
theorem cellFor_insertion (e : Entry) (now : Timestamp) : Layout.cellFor (e.insertion now).cells e.key.column = e.key.cell := by
  cases e with
  | repo path => exact Layout.cellFor_cons (c := .textUnique "root_path") (by decide) (by decide) _ _
  | commit info =>
    simp [Layout.cellFor, insertion, key, Connection.storing, Key.hash, Key.column, Key.cell, Column.answersTo, foldedName,
      Column.textUnique]

/-- The statement that adds an entry fits the current layout. -/
theorem faults_insertion {db : Database} (hdb : db.IsCurrent) (g : Guard) (e : Entry) (now : Timestamp) :
    (e.insertion now).faults g db = [] := by
  have hrepos : (Layout.repos.knows ["root_path", "name", "created_at"] && Layout.repos.knows [] &&
    Insertion.isTarget .repos "root_path") = true := by decide
  have hcommits : (Layout.commits.knows ["repo_id", "sha", "author", "subject", "timestamp", "created_at"] &&
    Layout.commits.knows [] && Insertion.isTarget .commits "sha") = true := by decide
  cases e with
  | repo path => exact hdb.faults_eq_nil (l := .repos) (by simp [Layout.current]) rfl (by decide) hrepos
  | commit info => exact hdb.faults_eq_nil (l := .commits) (by simp [Layout.current]) rfl (by decide) hcommits

/-- The cells of an entry stop no row. -/
theorem cellStop?_insertion (g : Guard) (e : Entry) (now : Timestamp) : (e.insertion now).cellStop? g e.key.layout = none := by
  refine Insertion.cellStop?_eq_none ?_
  cases e <;>
    simp [key, insertion, Key.path, Key.hash, Key.layout, Layout.repos, Layout.commits, Layout.cellFor,
      Connection.registration, Connection.storing, Column.answersTo, foldedName, Column.textRequired, Column.textUnique,
      Column.linkRequired, Column.key, Column.admits, Column.isKey]

/-- An entry gets the next number. -/
theorem number_insertion (e : Entry) (now : Timestamp) {t : Table} (hl : t.layout = e.key.layout) :
    (e.insertion now).number t = .ok t.nextId := by
  refine Insertion.number_eq_nextId (.key "id") ?_ ?_
  · rw [hl]
    cases e <;> rfl
  · cases e <;>
      simp [insertion, Layout.cellFor, Column.settle, Column.fallback, Connection.registration, Connection.storing,
        Column.answersTo, foldedName, Column.key, Column.isKey]

/-- The tables of keys refuse what breaks their rules. -/
theorem isStrict_key (k : Key) : k.layout.isStrict = true := by
  unfold Key.layout
  cases k.isPath <;> decide

/-- A cell is the same as that of a key if it is that. -/
theorem same_cell (k : Key) (x : Cell) : Cell.same x k.cell = decide (x = k.cell) :=
  Cell.same_eq (show 2 ≤ k.cell.rank from Nat.le_refl 2)

/-- The row of an entry has no rival exactly if no row that is there has the key. -/
theorem rival?_insertion (e : Entry) (now : Timestamp) {t : Table} (hl : t.layout = e.key.layout) :
    let s := e.insertion now
    t.rival? (s.row t.layout t.nextId) s.clause (t.layout.rivalries s.isUnless) = none ↔ ∀ r ∈ t.rows, ¬e.key.Names r := by
  intro s
  rw [Insertion.rival?_nextId_eq_none_iff (by rw [hl]; exact isStrict_key e.key) (by rw [hl]; exact e.key.layout_distinct), hl]
  constructor
  · intro h r hr hnames
    have hapart := h e.key.column e.key.column_mem rfl e.key.column_isKey r hr
    rw [e.cellFor_insertion, same_cell, decide_eq_false_iff_not] at hapart
    exact hapart hnames
  · intro h x hx hu hk r hr
    rw [e.key.eq_column x hx hu hk, e.cellFor_insertion, same_cell, decide_eq_false_iff_not]
    exact h r hr

/-- The row that is added for an entry has its key. -/
theorem names_row (e : Entry) (now : Timestamp) (id : Int) : e.key.Names ((e.insertion now).row e.key.layout id) :=
  (Insertion.cell_row e.key.layout_distinct id e.key.column_mem e.key.column_isKey).trans (e.cellFor_insertion now)

/-- The row that an entry adds has no other key. -/
theorem key_eq_of_names {e : Entry} {now : Timestamp} {id : Int} {k : Key} (hl : e.key.layout.name = k.layout.name)
    (h : k.Names ((e.insertion now).row e.key.layout id)) : e.key = k := by
  have hpath := Key.isPath_eq_of_layout hl
  have hcolumn : e.key.column = k.column := by
    unfold Key.column
    rw [hpath]
  have hown := e.names_row now id
  unfold Key.Names at h hown
  rw [hcolumn, h] at hown
  have htext := Key.text_eq_of_cell hown
  obtain ⟨isPath, text⟩ := k
  cases hkey : e.key with
  | mk isPath' text' =>
    rw [hkey] at hpath htext
    rw [show isPath' = isPath from hpath, show text = text' from htext]

variable {c : Connection} {now : Timestamp} {e : Entry}

/-- What the statement does is kept. -/
theorem insert_eq_within (hdb : c.database.IsCurrent) : c.insert (e.insertion now) = c.insertWithin (e.insertion now) := by
  refine Connection.insert_eq_insertWithin fun t ht => ?_
  rw [insertion_table] at ht
  rw [hdb.layout_eq e.key.layout_mem ht]
  exact isStrict_key e.key

/-- A row that is there stays, and none is added. -/
theorem insert_of_taken (hdb : c.database.IsCurrent) (hlock : c.locked = false) (h : ¬e.key.Lacks c.database) :
    c.insert (e.insertion now) = .ok (none, c.database) := by
  obtain ⟨t, ht, hl⟩ := hdb e.key.layout e.key.layout_mem
  have ht' : c.database.table? (e.insertion now).table = some t := by rw [insertion_table, ht]
  have hcells : (e.insertion now).cellStop? c.guard t.layout = none := by rw [hl]; exact cellStop?_insertion _ e now
  rw [insert_eq_within hdb, Connection.insertWithin_eq (faults_insertion hdb c.guard e now) hlock]
  cases hrival : t.rival? ((e.insertion now).row t.layout t.nextId) (e.insertion now).clause
      (t.layout.rivalries (e.insertion now).isUnless) with
  | none =>
    rw [Key.lacks_iff, Database.rows_of_table? ht] at h
    exact absurd ((e.rival?_insertion now hl).mp hrival) h
  | some x =>
    obtain ⟨hx, hunique, hk, -⟩ := Insertion.rival?_nextId_eq_some (by rw [hl]; exact e.key.layout_distinct) hrival
    rw [hl] at hx
    have hignored : (e.insertion now).isUnless x = true := by
      rw [e.key.eq_column x hx hunique hk]
      cases e <;> exact decide_eq_true rfl
    have hclause : (e.insertion now).clause x = .skip := if_pos hignored
    rw [Insertion.run_of_rival ht' (e.number_insertion now hl) hcells hrival, if_pos hclause]

/-- A row that is missing is added, under the next number. -/
theorem insert_of_lacks (hdb : c.database.IsCurrent) (hlock : c.locked = false) (now : Timestamp)
    (hparent : e.HasParent c.database) (h : e.key.Lacks c.database) : ∃ a t new db, c.insert (e.insertion now) = .ok (some a, db) ∧
      c.database.table? e.key.layout.name = some t ∧ t.layout = e.key.layout ∧
      (e.insertion now).Adds c.guard c.database t new t.nextId db := by
  obtain ⟨t, ht, hl⟩ := hdb e.key.layout e.key.layout_mem
  have ht' : c.database.table? (e.insertion now).table = some t := by rw [insertion_table, ht]
  have hcells : (e.insertion now).cellStop? c.guard t.layout = none := by rw [hl]; exact cellStop?_insertion _ e now
  have hstrict : t.layout.isStrict = true := by rw [hl]; exact isStrict_key e.key
  rw [Key.lacks_iff, Database.rows_of_table? ht] at h
  -- the one reference is that of a commit to its repository, which is in another table
  have hrefs : ∀ db' new, (e.insertion now).Adds c.guard c.database t new t.nextId db' → ∀ x ∈ t.layout.references,
      db'.refers x.2 (((e.insertion now).row t.layout t.nextId).get x.1) = true := by
    intro db' new hadds x hx
    rw [hl] at hx ⊢
    cases e with
    | repo path => cases hx
    | commit info =>
      obtain ⟨r, hr, hid⟩ := hparent
      have hrow := (Connection.storing_holds now info t.nextId).repoId
      have hreferences : (commit info).key.layout.references = [(.linkRequired "repo_id" "repos", "repos")] :=
        (by decide : Layout.commits.references = [(.linkRequired "repo_id" "repos", "repos")])
      rw [hreferences] at hx
      cases List.mem_singleton.mp hx
      have hsame : db'.table? "repos" = c.database.table? "repos" := hadds.table?_of_ne (show "repos" ≠ "commits" by decide)
      have hget : (((commit info).insertion now).row (commit info).key.layout t.nextId).get (.linkRequired "repo_id" "repos") =
          .int r.id := by
        rw [hid]
        exact hrow
      rw [hget]
      exact Database.refers_of_mem (by rw [Database.rows_congr hsame]; exact hr)
  obtain ⟨new, hadds, hrun⟩ := Insertion.exists_adds (g := c.guard) ht' hstrict (e.number_insertion now hl) hcells
    ((e.rival?_insertion now hl).mpr h) hrefs
  rw [insert_eq_within hdb, Connection.insertWithin_eq (faults_insertion hdb c.guard e now) hlock]
  exact ⟨_, t, new, _, hrun, ht, hl, hadds⟩

end Entry
end ReviewQueue
