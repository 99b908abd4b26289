import ReviewQueue.Proofs.Queue.Answers
import ReviewQueue.Proofs.Queue.Integrity

/-!
# What is stored is found

Repositories, commits, reviews and responses are stored for good. The row of such an entity is the only one with its number
and, where no two entities may share a path, a hash or a job, the only one with that. So every lookup that can reach the row
answers what is read from it.
-/

namespace ReviewQueue

/-- What the queue keeps as it is once it is stored. A job is none of this: it changes. -/
inductive Entity where
  | repo (x : Repo)
  | commit (x : Commit)
  | review (x : Review)
  | response (x : Response)
  deriving DecidableEq, Repr

namespace Entity

def id : Entity → Int
  | repo x => x.id
  | commit x => x.id
  | review x => x.id
  | response x => x.id

/-- The four kinds of entities. -/
inductive Kind where
  | repo | commit | review | response
  deriving DecidableEq, Repr

def kind : Entity → Kind
  | repo _ => .repo
  | commit _ => .commit
  | review _ => .review
  | response _ => .response

/-- The layout of the table in which entities of a kind are stored. -/
def Kind.layout : Kind → Layout
  | repo => .repos
  | commit => .commits
  | review => .reviews
  | response => .responses

/-- The name of the table in which an entity is stored. -/
def table (x : Entity) : String := x.kind.layout.name

/-- The column by which an entity is looked up besides its number, and its cell there. But for responses no two entities
have the same. -/
def sought : Entity → Column × Cell
  | repo x => (.textUnique "root_path", .ofString x.rootPath)
  | commit x => (.textUnique "sha", .ofString x.sha)
  | review x => ({ Column.linkRequired "job_id" "review_jobs" with unique := true }, .int x.jobId)
  | response x => (.linkRequired "commit_id" "commits", .int x.commitId)

/-- Whether a row is read as an entity. -/
def ReadFrom (r : Row) : Entity → Prop
  | repo x => Repo.ofRecord (Repo.recordOf r) = .ok x
  | commit x => Commit.ofRecord (Commit.recordOf r) = .ok x
  | review x => Review.ofRecord (Review.recordOf r) = .ok x
  | response x => Response.ofRecord (Response.recordOf r) = .ok x

/-- Whether a row is what the queue writes for an entity. -/
def WrittenTo (r : Row) : Entity → Prop
  | repo x => r.HoldsRepo x
  | commit x => r.HoldsCommit x
  | review x => r.HoldsReview x
  | response x => r.HoldsResponse x

/-- Whether an entity is stored: a row of its table is read as it. -/
def Stored (db : Database) (x : Entity) : Prop := ∃ r ∈ db.rows x.table, x.ReadFrom r

/-- Whether two entities are of one kind and have the same number or, where no two may share it, the same path, hash or
job. -/
def Matches (x y : Entity) : Prop := x.kind = y.kind ∧ (x.id = y.id ∨ x.kind ≠ .response ∧ x.sought = y.sought)

theorem Kind.layout_mem (k : Kind) : k.layout ∈ Layout.entities := by cases k <;> simp [layout, Layout.entities]

/-! ## What a row says of its entity -/

/-- What is read from a row has the number and the cell that were written. -/
theorem eq_of_written {r : Row} {x y : Entity} (hkind : x.kind = y.kind) (hy : y.WrittenTo r) (hx : x.ReadFrom r) :
    r.id = x.id ∧ r.cell x.sought.1.name = x.sought.2 := by
  cases x with
  | repo x =>
    obtain y | y | y | y := y <;> cases hkind
    have hid : (Repo.recordOf r).int 0 = .ok y.id := Record.int_eq (congrArg Cell.int hy.id)
    have hroot : (Repo.recordOf r).text 1 = .ok y.rootPath := Record.text_eq hy.rootPath
    have hread : Repo.ofRecord (Repo.recordOf r) = .ok x := hx
    simp only [Repo.ofRecord, bind, Except.bind, hid, hroot] at hread
    repeat' split at hread
    all_goals cases hread
    exact ⟨hy.id, hy.rootPath⟩
  | commit x =>
    obtain y | y | y | y := y <;> cases hkind
    have hid : (Commit.recordOf r).int 0 = .ok y.id := Record.int_eq (congrArg Cell.int hy.id)
    have hrepo : (Commit.recordOf r).int 1 = .ok y.repoId := Record.int_eq hy.repoId
    have hsha : (Commit.recordOf r).text 2 = .ok y.sha := Record.text_eq hy.sha
    have hread : Commit.ofRecord (Commit.recordOf r) = .ok x := hx
    simp only [Commit.ofRecord, bind, Except.bind, hid, hrepo, hsha] at hread
    repeat' split at hread
    all_goals cases hread
    exact ⟨hy.id, hy.sha⟩
  | review x =>
    obtain y | y | y | y := y <;> cases hkind
    have hid : (Review.recordOf r).int 0 = .ok y.id := Record.int_eq (congrArg Cell.int hy.id)
    have hjob : (Review.recordOf r).int 1 = .ok y.jobId := Record.int_eq hy.jobId
    have hread : Review.ofRecord (Review.recordOf r) = .ok x := hx
    simp only [Review.ofRecord, bind, Except.bind, hid, hjob] at hread
    repeat' split at hread
    all_goals cases hread
    exact ⟨hy.id, hy.jobId⟩
  | response x =>
    obtain y | y | y | y := y <;> cases hkind
    have hid : (Response.recordOf r).int 0 = .ok y.id := Record.int_eq (congrArg Cell.int hy.id)
    have hcommit : (Response.recordOf r).int 1 = .ok y.commitId := Record.int_eq hy.commitId
    have hread : Response.ofRecord (Response.recordOf r) = .ok x := hx
    simp only [Response.ofRecord, bind, Except.bind, hid, hcommit] at hread
    repeat' split at hread
    all_goals cases hread
    exact ⟨hy.id, hy.commitId⟩

end Entity

/-- Every row of the tables that only grow is what the queue writes for some entity. -/
def Database.Written (db : Database) : Prop :=
  ∀ k : Entity.Kind, ∀ r ∈ db.rows k.layout.name, ∃ y : Entity, y.kind = k ∧ y.WrittenTo r

namespace Database

/-- The rows of a name have different numbers. -/
theorem nodup_ids (db : Database) (name : String) : ((db.rows name).map (·.id)).Nodup := by
  unfold rows
  cases db.table? name with
  | none => exact List.nodup_nil
  | some t => exact (List.pairwise_map.mpr t.ascending).imp Int.ne_of_lt

/-- Rows that are kept and added to leave what the queue writes. -/
theorem Written.of_gains {db db' : Database} (h : db.Written)
    (hgains : ∀ k : Entity.Kind, db.Gains db' k.layout.name fun r => ∃ y : Entity, y.kind = k ∧ y.WrittenTo r) : db'.Written := by
  intro k r hr
  rcases (hgains k).added r hr with hr | hnew
  · exact h k r hr
  · exact hnew

/-- What is known of a database after every run: it is intact, and its rows are what the queue wrote. -/
structure Kept (db : Database) : Prop where
  intact : db.Intact
  written : db.Written

end Database

/-- What the next statement of a call adds to a table of entities that stay is what the queue writes for one. -/
theorem Call.run_gains_written {c : Connection} (hdb : c.database.IsCurrent) (now : Timestamp) (call : Call) (k : Entity.Kind) :
    c.database.Gains (call.run c now).2 k.layout.name fun r => ∃ y : Entity, y.kind = k ∧ y.WrittenTo r := by
  obtain ⟨hrepos, hcommits, hresponses, hreviews⟩ := call.run_gains hdb now
  cases k with
  | repo =>
    refine hrepos.mono ?_
    rintro r ⟨path, id, rfl⟩
    exact ⟨.repo _, rfl, Connection.registration_holds now path id⟩
  | commit =>
    refine hcommits.mono ?_
    rintro r ⟨info, id, rfl⟩
    exact ⟨.commit _, rfl, Connection.storing_holds now info id⟩
  | review =>
    refine hreviews.mono ?_
    rintro r ⟨job, text, id, rfl⟩
    exact ⟨.review _, rfl, Connection.reviewing_holds now job id text⟩
  | response =>
    refine hresponses.mono ?_
    rintro r ⟨reply, id, rfl⟩
    exact ⟨.response _, rfl, Connection.responding_holds now reply id⟩

namespace Site

/-- A database just installed is kept. -/
theorem fresh_kept : fresh.database.Kept := by
  have hempty : ∀ l ∈ Layout.entities, fresh.database.rows l.name = [] := by decide
  refine ⟨fresh_intact, fun k r hr => ?_⟩
  rw [hempty _ k.layout_mem] at hr
  cases hr

/-- So it is after an action, -/
theorem step_kept {w : Site} (h : w.database.Kept) (a : Action) : (w.step a).1.database.Kept := by
  rw [step_database]
  exact ⟨(Call.run_intact (c := w.connection a) h.intact rfl a.now (w.call a)).1,
    h.written.of_gains (Call.run_gains_written (c := w.connection a) h.intact.isCurrent a.now (w.call a))⟩

/-- and after a run. -/
theorem after_kept {w : Site} (h : w.database.Kept) (as : List Action) : (w.after as).database.Kept := by
  induction as generalizing w with
  | nil => exact h
  | cons a as ih => exact ih (step_kept h a)

/-- A row of an entity that stays is there after every further run. -/
theorem mem_rows_after {w : Site} (h : w.database.Kept) (k : Entity.Kind) {r : Row} (hr : r ∈ w.database.rows k.layout.name)
    (as : List Action) : r ∈ (w.after as).database.rows k.layout.name := by
  induction as generalizing w with
  | nil => exact hr
  | cons a as ih =>
    refine ih (step_kept h a) ?_
    rw [step_database]
    exact (Call.run_gains_written (c := w.connection a) h.intact.isCurrent a.now (w.call a) k).kept r hr

end Site

namespace Entity

variable {db : Database} {x y : Entity} {r r' : Row}

/-- What is stored stays stored. -/
theorem Stored.after {w : Site} (h : w.database.Kept) (hx : x.Stored w.database) (as : List Action) :
    x.Stored (w.after as).database := by
  obtain ⟨r, hr, hread⟩ := hx
  exact ⟨r, Site.mem_rows_after h x.kind hr as, hread⟩

/-- A row is read as one entity of a kind. -/
theorem ReadFrom.inj (hx : x.ReadFrom r) (hy : y.ReadFrom r) (hkind : x.kind = y.kind) : x = y := by
  cases x <;> cases y <;> cases hkind <;> exact congrArg _ (Except.ok.inj (hx.symm.trans hy))

/-- An entity has the number of its row. -/
theorem ReadFrom.id_eq (hdb : db.Kept) (hr : r ∈ db.rows x.table) (hx : x.ReadFrom r) : r.id = x.id := by
  obtain ⟨y, hkind, hy⟩ := hdb.written x.kind r hr
  exact (eq_of_written hkind.symm hy hx).1

/-- What an entity is sought by is in its row. -/
theorem ReadFrom.cell_eq (hdb : db.Kept) (hr : r ∈ db.rows x.table) (hx : x.ReadFrom r) :
    r.cell x.sought.1.name = x.sought.2 := by
  obtain ⟨y, hkind, hy⟩ := hdb.written x.kind r hr
  exact (eq_of_written hkind.symm hy hx).2

/-- A row that has the path, the hash or the job of an entity is the row of the entity. -/
theorem ReadFrom.eq_of_cell (hdb : db.Kept) (hr : r ∈ db.rows x.table) (hx : x.ReadFrom r) (hkind : x.kind ≠ .response)
    (hr' : r' ∈ db.rows x.table) : r'.cell x.sought.1.name = x.sought.2 ↔ r' = r := by
  have hown := hx.cell_eq hdb hr
  have hnodup : ((db.rows x.table).map (·.cell x.sought.1.name)).Nodup := by
    cases x with
    | repo x => exact hdb.intact.nodup_cells (l := .repos) (c := .textUnique "root_path") (by decide) (by decide) rfl rfl rfl
    | commit x => exact hdb.intact.nodup_cells (l := .commits) (c := .textUnique "sha") (by decide) (by decide) rfl rfl rfl
    | review x =>
      exact hdb.intact.nodup_cells (l := .reviews) (c := { Column.linkRequired "job_id" "review_jobs" with unique := true })
        (by decide) (by decide) rfl rfl rfl
    | response x => exact absurd rfl hkind
  constructor
  · intro h
    exact List.inj_on_of_nodup_map hnodup hr' hr (h.trans hown.symm)
  · rintro rfl
    exact hown

/-- Two entities that are stored are one if they have the same number or share what tells one from another. -/
theorem Stored.eq_of_matches (hdb : db.Kept) (hx : x.Stored db) (hy : y.Stored db) (h : x.Matches y) : x = y := by
  obtain ⟨r, hr, hread⟩ := hx
  obtain ⟨r', hr', hread'⟩ := hy
  obtain ⟨hkind, hsame⟩ := h
  have htable : y.table = x.table := congrArg (fun k : Kind => k.layout.name) hkind.symm
  have hid := hread.id_eq hdb hr
  have hid' := hread'.id_eq hdb hr'
  have hcell' := hread'.cell_eq hdb hr'
  rw [htable] at hr'
  have hrow : r' = r := by
    rcases hsame with hsame | ⟨hother, hsame⟩
    · exact Database.rows_eq_of_id_eq hr' hr (by rw [hid, hid', hsame])
    · rw [← hsame] at hcell'
      exact (hread.eq_of_cell hdb hr hother hr').mp hcell'
  rw [hrow] at hread'
  exact hread.inj hread' hkind

end Entity

/-! ## Lookups -/

namespace Connection

variable {c : Connection} {l : Layout} {r : Row} {columns : List String} {α : Type} {read : Record → Except Fault α} {a : α}

/-- In the current layout the only row that has the cells of a query is the one that is read. -/
theorem first_of_only {q : Query} (hdb : c.database.IsCurrent) (hl : l ∈ Layout.current) (hname : l.name = q.table)
    (hq : q.isKnown l = true) (hr : r ∈ c.database.rows q.table)
    (honly : ∀ y ∈ c.database.rows q.table, y.hasAll l q.having = true ↔ y = r)
    (hread : read (r.record (l.pick q.columns)) = .ok a) : c.first q read = .ok (some a) := by
  obtain ⟨t, ht, rfl⟩ := hdb l hl
  rw [hname] at ht
  rw [Database.rows_of_table? ht] at hr honly
  have hfound : q.found t = [r.record (t.layout.pick q.columns)] := by
    unfold Query.found
    rw [Table.filter_eq_singleton hr honly]
    rfl
  rw [first_eq ht hq, hfound]
  simp only [List.head?_cons, hread, Except.map]

/-- A row is found by its number. -/
theorem first_of_id (hdb : c.database.IsCurrent) (hl : l ∈ Layout.entities)
    (hknown : (l.knows columns && l.knows ["id"]) = true) (hr : r ∈ c.database.rows l.name)
    (hread : read (r.record (l.pick columns)) = .ok a) : c.first ⟨l.name, columns, [("id", .int r.id)]⟩ read = .ok (some a) := by
  have hkey : ∀ l ∈ Layout.entities, l.column? "id" = some (.key "id") := by decide
  refine first_of_only hdb (List.mem_cons_of_mem _ hl) rfl (Query.isKnown_of_names ["id"] rfl hknown) hr (fun y hy => ?_) hread
  rw [Row.hasAll_cons (hkey l hl), Row.has_key rfl, Row.hasAll_nil, Bool.and_true, decide_eq_true_eq]
  exact ⟨fun h => Database.rows_eq_of_id_eq hy hr h, fun h => by rw [h]⟩

/-- A row is found by a cell that no other row has. -/
theorem first_of_cell (col : Column) {cell : Cell} (hdb : c.database.IsCurrent) (hl : l ∈ Layout.current)
    (hcol : l.column? col.name = some col) (hk : col.isKey = false) (hcell : cell.asKind col.kind.sought = cell)
    (hsame : ∀ y ∈ c.database.rows l.name, Cell.same (y.cell col.name) cell = decide (y.cell col.name = cell))
    (hknown : (l.knows columns && l.knows [col.name]) = true) (hr : r ∈ c.database.rows l.name)
    (honly : ∀ y ∈ c.database.rows l.name, y.cell col.name = cell ↔ y = r)
    (hread : read (r.record (l.pick columns)) = .ok a) : c.first ⟨l.name, columns, [(col.name, cell)]⟩ read = .ok (some a) := by
  refine first_of_only hdb hl rfl (Query.isKnown_of_names [col.name] rfl hknown) hr (fun y hy => ?_) hread
  rw [Row.hasAll_cons hcol, Row.hasAll_nil, Bool.and_true, Row.has, Row.get_of_isKey_false y hk, hcell, hsame y hy,
    decide_eq_true_eq]
  exact honly y hy

end Connection

namespace Entity

/-- What the operations answer that look for an entity, on a connection at a time, if they reach it: by its number, by its path,
hash or job, in the list of its commit, as the review of a hash, or because it is to be there. Then the first statement of the
call answers it, so that no other handle comes in between. -/
def FoundOn (c : Connection) (now : Timestamp) : Entity → Prop
  | repo x => c.findRepo x.id = .ok (some x) ∧ ∀ path : Path, path.display = x.rootPath →
      c.findRepoByPath path = .ok (some x) ∧ c.registerRepo now path = ⟨.ok x, c, []⟩ ∧
      (Call.asked (.registerRepo path)).run c now = (.answered (.ok (.repo x)), c.database)
  | commit x => c.findCommit x.id = .ok (some x) ∧ c.findCommitBySha x.sha = .ok (some x) ∧
      ∀ info : CommitInfo, info.sha = x.sha → c.storeCommit now info = ⟨.ok x, c, []⟩ ∧
        (Call.asked (.storeCommit info)).run c now = (.answered (.ok (.commit x)), c.database)
  | review x => c.findReviewByJob x.jobId = .ok (some x) ∧
      ∀ sha y, c.findReviewBySha now sha = .ok (some y) → y.id = x.id ∨ y.jobId = x.jobId → y = x
  | response x => ∀ xs, c.listResponses x.commitId = .ok xs → xs.filter (·.id = x.id) = [x]

variable {c : Connection}

/-- A repository that is stored is found. -/
theorem Stored.repo_found {x : Repo} (hdb : c.database.Kept) (hx : (repo x).Stored c.database) (now : Timestamp) :
    (repo x).FoundOn c now := by
  obtain ⟨r, hr, hread⟩ := hx
  have hid : r.id = x.id := hread.id_eq hdb hr
  have hbyId : c.first ⟨"repos", Repo.columns, [("id", .int r.id)]⟩ Repo.ofRecord = .ok (some x) :=
    Connection.first_of_id (l := .repos) hdb.intact.isCurrent (by decide) (by decide) hr hread
  have hbyPath : c.repoAt x.rootPath = .ok (some x) :=
    Connection.first_of_cell (l := .repos) (.textUnique "root_path") hdb.intact.isCurrent (by decide) (by decide) rfl rfl
      (fun _ _ => Cell.same_eq le_rfl) (by decide) hr (fun y hy => hread.eq_of_cell hdb hr nofun hy) hread
  rw [hid] at hbyId
  refine ⟨congrArg liftFault hbyId, fun path hpath => ?_⟩
  rw [← hpath] at hbyPath
  refine ⟨congrArg liftFault hbyPath, ?_, ?_⟩
  · unfold Connection.registerRepo
    rw [hbyPath]
  · simp only [Call.run, hbyPath]

/-- So is a commit. -/
theorem Stored.commit_found {x : Commit} (hdb : c.database.Kept) (hx : (commit x).Stored c.database) (now : Timestamp) :
    (commit x).FoundOn c now := by
  obtain ⟨r, hr, hread⟩ := hx
  have hid : r.id = x.id := hread.id_eq hdb hr
  have hbyId : c.first ⟨"commits", Commit.columns, [("id", .int r.id)]⟩ Commit.ofRecord = .ok (some x) :=
    Connection.first_of_id (l := .commits) hdb.intact.isCurrent (by decide) (by decide) hr hread
  have hbySha : c.commitOf x.sha = .ok (some x) :=
    Connection.first_of_cell (l := .commits) (.textUnique "sha") hdb.intact.isCurrent (by decide) (by decide) rfl rfl
      (fun _ _ => Cell.same_eq le_rfl) (by decide) hr (fun y hy => hread.eq_of_cell hdb hr nofun hy) hread
  rw [hid] at hbyId
  refine ⟨congrArg liftFault hbyId, congrArg liftFault hbySha, fun info hsha => ?_⟩
  rw [← hsha] at hbySha
  constructor
  · unfold Connection.storeCommit
    rw [hbySha]
  · simp only [Call.run, hbySha]

/-- The review that is found for a hash is stored. -/
theorem stored_of_findReviewBySha (hdb : c.database.IsCurrent) {now : Timestamp} {sha : String} {y : Review}
    (h : c.findReviewBySha now sha = .ok (some y)) : (review y).Stored c.database := by
  rcases Connection.findReviewBySha_cases hdb now sha with hnone | ⟨r, hr, hfound⟩
  · cases hnone.symm.trans h
  · rw [hfound] at h
    refine ⟨r, hr, ?_⟩
    cases hread : Review.ofRecord (Review.recordOf r) with
    | error f =>
      rw [hread] at h
      cases h
    | ok v =>
      rw [hread] at h
      cases h
      exact hread

/-- So is a review. -/
theorem Stored.review_found {x : Review} (hdb : c.database.Kept) (hx : (review x).Stored c.database) (now : Timestamp) :
    (review x).FoundOn c now := by
  obtain ⟨r, hr, hread⟩ := hx
  have hbyJob : c.first ⟨"reviews", Review.columns, [("job_id", .int x.jobId)]⟩ Review.ofRecord = .ok (some x) :=
    Connection.first_of_cell (l := .reviews) { Column.linkRequired "job_id" "review_jobs" with unique := true }
      hdb.intact.isCurrent (by decide) (by decide) rfl rfl (fun y hy => hdb.intact.same_int (l := .reviews)
        (c := { Column.linkRequired "job_id" "review_jobs" with unique := true }) (by decide) (by decide) rfl rfl rfl hy _)
      (by decide) hr
      (fun y hy => hread.eq_of_cell hdb hr nofun hy) hread
  refine ⟨congrArg liftFault hbyJob, fun sha y hy hsame => ?_⟩
  have hmatches : (review y).Matches (review x) :=
    ⟨rfl, hsame.imp_right fun hjob => ⟨by simp [kind], by simp only [sought, hjob]⟩⟩
  exact review.inj ((stored_of_findReviewBySha hdb.intact.isCurrent hy).eq_of_matches hdb ⟨r, hr, hread⟩ hmatches)

/-- The responses that are listed for a commit are read from the rows that have its number, in the order of the rows. -/
theorem forall₂_of_listResponses (hdb : c.database.Intact) {commitId : Int} {xs : List Response}
    (h : c.listResponses commitId = .ok xs) : List.Forall₂ (fun r x => (response x).ReadFrom r)
      ((c.database.rows "responses").filter (·.cell "commit_id" = .int commitId)) xs := by
  obtain ⟨t, ht, hl⟩ := hdb.isCurrent.responses
  let q : Query := ⟨"responses", Response.columns, [("commit_id", .int commitId)]⟩
  have hknown : q.isKnown t.layout = true := by
    rw [hl]
    exact Query.isKnown_of_names ["commit_id"] rfl (by decide)
  have hcommit : Layout.responses.column? "commit_id" = some (.linkRequired "commit_id" "commits") := by decide
  have hhas : ∀ r ∈ t.rows, r.hasAll .responses q.having = decide (r.cell "commit_id" = .int commitId) := by
    intro r hr
    rw [← Database.rows_of_table? ht] at hr
    rw [Row.hasAll_cons hcommit, Row.hasAll_nil, Bool.and_true]
    exact hdb.same_int (l := .responses) (c := .linkRequired "commit_id" "commits") (by decide) (by decide) rfl rfl rfl hr _
  have hfound : q.found t = ((c.database.rows "responses").filter (·.cell "commit_id" = .int commitId)).map
      Response.recordOf := by
    unfold Query.found
    rw [Database.rows_of_table? ht, hl, List.filter_congr hhas]
    rfl
  -- the rows are found in the order of their numbers, so sorting them leaves them
  have hsorted : ((q.found t).mergeSort fun a b => (a.at_ 0).2.le (b.at_ 0).2) = q.found t := by
    refine List.mergeSort_of_pairwise ?_
    rw [hfound, List.pairwise_map, Database.rows_of_table? ht]
    refine (t.ascending.filter _).imp fun {a b} hab => ?_
    exact decide_eq_true (Int.le_of_lt hab)
  have hrun : (Query.mk "responses" Response.columns [("commit_id", .int commitId)]).run c.database = .ok (q.found t) :=
    Query.run_eq ht hknown
  unfold Connection.listResponses at h
  simp only [hrun, bind, Except.bind, hsorted] at h
  cases hread : (q.found t).mapM Response.ofRecord with
  | error f =>
    rw [hread] at h
    cases h
  | ok ys =>
    rw [hread] at h
    cases h
    rw [hfound] at hread
    exact List.forall₂_map_left_iff.mp (forall₂_of_mapM hread)

/-- So is a response. -/
theorem Stored.response_found {x : Response} (hdb : c.database.Kept) (hx : (response x).Stored c.database) (now : Timestamp) :
    (response x).FoundOn c now := by
  intro xs hxs
  have hall := forall₂_of_listResponses hdb.intact hxs
  obtain ⟨r, hr, hread⟩ := hx
  have hcell : r.cell "commit_id" = .int x.commitId := hread.cell_eq hdb hr
  obtain ⟨y, hy, hready⟩ := exists_of_forall₂ hall (List.mem_filter.mpr ⟨hr, decide_eq_true hcell⟩)
  cases response.inj (hready.inj hread rfl)
  have hids : xs.map (·.id) = ((c.database.rows "responses").filter (·.cell "commit_id" = .int x.commitId)).map (·.id) :=
    map_eq_of_forall₂ hall fun r hr y hy => hy.id_eq hdb (List.mem_filter.mp hr).1
  have hnodup : (xs.map (·.id)).Nodup := by
    rw [hids]
    exact (c.database.nodup_ids "responses").sublist (List.filter_sublist.map _)
  have hsame : xs.filter (·.id = x.id) = xs.filter (· = x) := List.filter_congr fun y hy' => by
    rw [Bool.eq_iff_iff, decide_eq_true_eq, decide_eq_true_eq]
    exact ⟨fun h => List.inj_on_of_nodup_map hnodup hy' hy h, fun h => by rw [h]⟩
  rw [hsame, List.filter_eq, List.count_eq_one_of_mem hnodup.of_map hy]
  rfl

/-- What is stored is found. -/
theorem Stored.found {x : Entity} (hdb : c.database.Kept) (hx : x.Stored c.database) (now : Timestamp) : x.FoundOn c now := by
  cases x with
  | repo x => exact hx.repo_found hdb now
  | commit x => exact hx.commit_found hdb now
  | review x => exact hx.review_found hdb now
  | response x => exact hx.response_found hdb now

end Entity
end ReviewQueue
