import ReviewQueue.Proofs.Queue.Calls
import ReviewQueue.Proofs.Queue.Statements

/-!
# What a statement of the queue can do

All that the next statement of a call can do to the tables of jobs and of reviews, in the current layout. What holds
over whole runs is proved from these effects, one case for each, and nothing after this module looks into a statement
again.
-/

namespace ReviewQueue

namespace Database

/-- Every name means the same table in both. -/
def Agrees (db db' : Database) : Prop := ∀ name, db'.table? name = db.table? name

theorem Agrees.refl (db : Database) : db.Agrees db := fun _ => rfl

/-- What agrees with a database in the current layout is in it. -/
theorem Agrees.isCurrent {db db' : Database} (h : db.Agrees db') (hdb : db.IsCurrent) : db'.IsCurrent :=
  hdb.of_layouts fun name t ht => ⟨t, (h name).trans ht, rfl⟩

/-- Adding a row leaves the layouts. -/
theorem IsCurrent.of_adds {db db' : Database} {s : Insertion} {g : Guard} {t new : Table} {id : Int} (hdb : db.IsCurrent)
    (h : s.Adds g db t new id db') : db'.IsCurrent := by
  refine hdb.of_layouts ?_
  intro name u hu
  by_cases hn : name = s.table
  · subst hn
    cases hu.symm.trans h.table
    exact ⟨new, h.table?_self, h.layout_eq⟩
  · exact ⟨u, (h.table?_of_ne hn).trans hu, rfl⟩

/-- Changing rows leaves the layouts. -/
theorem IsCurrent.of_gives {db db' : Database} {s : Change} {t : Table} (hdb : db.IsCurrent) (h : s.Gives db t db') :
    db'.IsCurrent := by
  refine hdb.of_layouts ?_
  intro name u hu
  by_cases hn : name = s.table
  · subst hn
    cases hu.symm.trans h.table
    exact ⟨_, h.table?_self, rfl⟩
  · exact ⟨u, (h.table?_of_ne hn).trans hu, rfl⟩

/-- In the current layout an insertion whose names mean columns is not refused before it runs. -/
theorem IsCurrent.faults_eq_nil {db : Database} {s : Insertion} {g : Guard} {l : Layout} (hdb : db.IsCurrent)
    (hl : l ∈ Layout.current) (hname : s.table = l.name) (hkey : l.hasKey = true) (hs : s.isKnown l = true) :
    s.faults g db = [] := by
  obtain ⟨t, ht, rfl⟩ := hdb l hl
  have hparents : ∀ l ∈ Layout.current, ∀ x ∈ l.references, ∃ p ∈ Layout.current, p.name = x.2 ∧ p.hasKey = true := by decide
  refine Insertion.faults_eq_nil (t := t) (by rw [hname]; exact ht) hs hkey fun x hx => ?_
  obtain ⟨p, hp, hpname, hpkey⟩ := hparents t.layout hl x hx
  obtain ⟨u, hu, rfl⟩ := hdb p hp
  exact ⟨u, by rw [← hpname]; exact hu, hpkey⟩

end Database

/-- Whether an operation is there to change jobs. -/
def Operation.changesJobs : Operation → Bool
  | .enqueue _ | .claim _ | .complete .. | .fail .. | .resetStale => true
  | _ => false

open Connection in
/-- The effects of a statement of an operation, asked for on a connection at a time: what the call comes to and the
database after. -/
inductive Effect (c : Connection) (now : Timestamp) : Operation → Progress → Database → Prop where
  /-- Jobs and reviews stay as they are. -/
  | aside {op : Operation} {p : Progress} {db : Database} (changes : op.changesJobs = false)
      (same : ∀ name, name = "review_jobs" ∨ name = "reviews" → db.table? name = c.database.table? name)
      (current : db.IsCurrent) : Effect c now op p db
  /-- Nothing changes, and the call fails. A claim fails like this only for the lock. -/
  | refused {op : Operation} {e : StoreError} {db : Database} (agrees : c.database.Agrees db)
      (claim : ∀ worker, op = .claim worker → c.locked = true ∧ e = .busy .locked) : Effect c now op (.answered (.error e)) db
  /-- No running job has the number that is to fail. -/
  | missed {id : Int} {error : String} {db : Database} (agrees : c.database.Agrees db) :
      Effect c now (.fail id error) (.next (.refusing id error)) db
  /-- A job is added. It is there even if it cannot be read back. -/
  | enqueued {r : JobRequest} {t new : Table} {id : Int} {db : Database}
      (adds : (queueing now r).Adds c.guard c.database t new id db) :
      Effect c now (.enqueue r)
        (.answered ((liftFault (Job.ofRecord (Job.recordOf ((queueing now r).row .jobs id)))).map .job)) db
  /-- There is no queued job to claim. -/
  | waiting {worker : String} {t : Table} {db : Database} (unlocked : c.locked = false)
      (table : c.database.table? "review_jobs" = some t) (none_queued : ∀ r ∈ t.rows, ¬r.HasStatus .queued)
      (agrees : c.database.Agrees db) : Effect c now (.claim worker) (.answered (.ok .absent)) db
  /-- The first queued job is claimed. It is claimed even if it cannot be read back. -/
  | claimed {worker : String} {t : Table} {r : Row} {db : Database} (unlocked : c.locked = false)
      (takes : (claiming c.database now worker).Takes c.database t r db)
      (first : t.rows.find? (·.HasStatus .queued) = some r) :
      Effect c now (.claim worker) (.answered ((liftFault (Job.ofRecord
        (Job.recordOf (r.given .jobs (claiming c.database now worker).cells)))).map .job)) db
  /-- A running job fails. -/
  | failed {id : Int} {error : String} {t : Table} {r : Row} {db : Database}
      (takes : (finishing now id .failed (some error)).Takes c.database t r db) (number : r.id = id)
      (running : r.HasStatus .running) : Effect c now (.fail id error) (.answered (.ok .done)) db
  /-- A running job is done and its review added. -/
  | completed {id : Int} {text : ReviewText} {t reviews new : Table} {r : Row} {rid : Int} {done db : Database}
      {review : Review}
      (takes : (finishing now id .done none).Takes c.database t r done) (number : r.id = id) (running : r.HasStatus .running)
      (adds : (reviewing now id text).Adds c.guard done reviews new rid db)
      (reads : Review.ofRecord (((reviewing now id text).row .reviews rid).record (Layout.reviews.pick Review.columns)) =
        .ok review) : Effect c now (.complete id text) (.answered (.ok (.review review))) db
  /-- All running jobs are queued again. -/
  | requeued {t : Table} {n : Int} {db : Database} (gives : requeueing.Gives c.database t db) :
      Effect c now .resetStale (.answered (.ok (.number n))) db

/-- An effect leaves the layouts. -/
theorem Effect.isCurrent {c : Connection} {now : Timestamp} {op : Operation} {p : Progress} {db : Database}
    (h : Effect c now op p db) (hdb : c.database.IsCurrent) : db.IsCurrent := by
  cases h with
  | aside _ _ current => exact current
  | refused agrees _ => exact agrees.isCurrent hdb
  | missed agrees => exact agrees.isCurrent hdb
  | enqueued adds => exact hdb.of_adds adds
  | waiting _ _ _ agrees => exact agrees.isCurrent hdb
  | claimed _ takes _ => exact hdb.of_gives takes.toGives
  | failed takes _ _ => exact hdb.of_gives takes.toGives
  | completed takes _ _ adds _ => exact (hdb.of_gives takes.toGives).of_adds adds
  | requeued gives => exact hdb.of_gives gives

namespace Connection

variable {c : Connection} {now : Timestamp}

/-! ## Statements that add rows -/

/-- An insertion that succeeds leaves all tables but its own, and all layouts. -/
theorem insert_frame {s : Insertion} {a : Option Record} {db : Database} (hdb : c.database.IsCurrent)
    (h : c.insert s = .ok (a, db)) :
    (∀ name, name ≠ s.table → db.table? name = c.database.table? name) ∧ db.IsCurrent := by
  obtain ⟨db', hrun, rfl | rfl⟩ := exists_run_of_insert h
  · rcases Insertion.run_eq_ok hrun with ⟨-, rfl, -⟩ | ⟨t, new, id, hadds, -, -⟩
    · exact ⟨fun name _ => rfl, hdb⟩
    · exact ⟨fun name hn => hadds.table?_of_ne hn, hdb.of_adds hadds⟩
  · exact ⟨fun name _ => rfl, hdb⟩

/-- An insertion into a table other than those of jobs and reviews leaves both. -/
theorem insert_aside {s : Insertion} {a : Option Record} {db : Database} {op : Operation} {p : Progress}
    (hdb : c.database.IsCurrent) (h : c.insert s = .ok (a, db)) (hop : op.changesJobs = false)
    (hother : s.table ≠ "review_jobs" ∧ s.table ≠ "reviews") : Effect c now op p db := by
  obtain ⟨hsame, hcurrent⟩ := insert_frame hdb h
  refine .aside hop (fun name hname => hsame name ?_) hcurrent
  rcases hname with rfl | rfl
  · exact hother.1.symm
  · exact hother.2.symm

/-- An insertion that answers a row adds it, within a transaction. -/
theorem insertWithin_adds {s : Insertion} {record : Record} {db : Database} (h : c.insertWithin s = .ok (some record, db)) :
    ∃ t new id, s.Adds c.guard c.database t new id db ∧ record = (s.row t.layout id).record (t.layout.pick s.returning) := by
  rcases Insertion.run_eq_ok (run_of_insertWithin h) with ⟨hnone, -, -⟩ | ⟨t, new, id, hadds, ha, -⟩
  · cases hnone
  · exact ⟨t, new, id, hadds, Option.some.inj ha⟩

/-- An insertion into a current table that succeeds left its row out for a conflict that may be ignored, or added it. -/
theorem insert_cases {s : Insertion} {a : Option Record} {db : Database} (hdb : c.database.IsCurrent) {l : Layout}
    (hl : l ∈ Layout.current) (hname : s.table = l.name) (h : c.insert s = .ok (a, db)) :
    (a = none ∧ db = c.database ∧ ∃ t id x, c.database.table? s.table = some t ∧ s.number t = .ok id ∧
      t.rival? (s.row t.layout id) s.clause (t.layout.rivalries s.isUnless) = some x ∧ s.isUnless x = true) ∨
    ∃ t new id, s.Adds c.guard c.database t new id db ∧ a = some ((s.row t.layout id).record (t.layout.pick s.returning)) ∧
      (c.guard.references = true → s.missed c.database t new id ≤ s.mended c.database t id) := by
  have hstrict : ∀ t, c.database.table? s.table = some t → t.layout.isStrict = true := fun t ht =>
    hdb.isStrict hl (by rw [← hname]; exact ht)
  rcases Insertion.run_eq_ok (run_of_insert hstrict h) with ⟨ha, hsame, t, ht, hskipped⟩ | hadds
  · obtain ⟨id, x, hid, hx, hunless⟩ := Insertion.rival_of_skipped (hstrict t ht) hskipped
    exact Or.inl ⟨ha, hsame, t, id, x, ht, hid, hx, hunless⟩
  · exact Or.inr hadds

/-- An insertion into a current table without a conflict to ignore adds its row if it succeeds. -/
theorem insert_adds {s : Insertion} {a : Option Record} {db : Database} (hdb : c.database.IsCurrent) {l : Layout}
    (hl : l ∈ Layout.current) (hname : s.table = l.name) (hs : s.unlessIn = none) (h : c.insert s = .ok (a, db)) :
    ∃ t new id, s.Adds c.guard c.database t new id db ∧ a = some ((s.row t.layout id).record (t.layout.pick s.returning)) := by
  rcases insert_cases hdb hl hname h with ⟨-, -, _, _, _, -, -, -, hu⟩ | ⟨t, new, id, hadds, ha, -⟩
  · rw [Insertion.isUnless, hs] at hu
    cases hu
  · exact ⟨t, new, id, hadds, ha⟩

/-! ## Statements that change jobs -/

/-- What a statement does that takes jobs from one status to another: it waits for the lock or gives its cells. -/
theorem change_moves {s : Change} {source target : JobStatus} (hs : s.MovesJobs source target) {t : Table}
    (ht : c.database.table? "review_jobs" = some t) (hl : t.layout = .jobs) :
    c.change s = (if c.locked then .error .locked else
      .ok ((s.inPlace t).1.map (·.record (Layout.jobs.pick s.returning)), c.database.put (s.inPlace t).2)) ∧
    s.Gives c.database t (c.database.put (s.inPlace t).2) := by
  have htable : c.database.table? s.table = some t := by rw [hs.table, ht]
  refine ⟨?_, htable, rfl⟩
  have hplain : s.isPlain t.layout = true := by rw [hl]; exact hs.plain
  have hcells : s.cellStop? c.guard t.layout = none := by rw [hl]; exact hs.cells c.guard
  rw [change_eq_changeWithin htable hplain hcells, changeWithin_eq htable hplain hcells, hl]

/-- Such a statement does the same within a transaction. -/
theorem change_eq_within {s : Change} {source target : JobStatus} (hs : s.MovesJobs source target) (hdb : c.database.IsCurrent) :
    c.change s = c.changeWithin s := by
  obtain ⟨t, ht, hl⟩ := hdb.jobs
  exact change_eq_changeWithin (t := t) (by rw [hs.table, ht]) (by rw [hl]; exact hs.plain) (by rw [hl]; exact hs.cells c.guard)

/-- A change that chooses no row leaves every name its table. -/
theorem agrees_of_forall_not {s : Change} {t : Table} {db db' : Database} (h : s.Gives db t db')
    (hnone : ∀ r ∈ t.rows, r.hasAll t.layout s.having = false) : db.Agrees db' := by
  intro name
  rw [h.database, Change.inPlace_of_forall_not hnone]
  refine Database.table?_put_same ?_ name
  rw [show t.name = s.table from Database.name_of_table? h.table]
  exact h.table

/-- A claim chooses the first queued row alone. -/
theorem claiming_only {db : Database} {t : Table} {r : Row} (ht : db.table? "review_jobs" = some t) (hl : t.layout = .jobs)
    (hr : t.rows.find? (·.HasStatus .queued) = some r) (now : Timestamp) (worker : String) :
    ∀ x ∈ t.rows, x.hasAll t.layout (claiming db now worker).having = true ↔ x = r := by
  intro x hx
  have hmem := List.mem_of_find?_eq_some hr
  have hqueued : r.HasStatus .queued := by simpa using List.find?_some hr
  simp only [claiming, oldest_eq ht hl, hr, Option.map_some, Option.getD_some, hl, Row.hasAll_id_status, decide_eq_true_eq]
  refine ⟨fun h => Table.eq_of_id_eq hx hmem h.1, ?_⟩
  rintro rfl
  exact ⟨rfl, hqueued⟩

/-- A claim chooses no row if none is queued. -/
theorem claiming_none {db : Database} {t : Table} (ht : db.table? "review_jobs" = some t) (hl : t.layout = .jobs)
    (hr : t.rows.find? (·.HasStatus .queued) = none) (now : Timestamp) (worker : String) :
    ∀ x ∈ t.rows, x.hasAll t.layout (claiming db now worker).having = false := by
  intro x _
  simp only [claiming, oldest_eq ht hl, hr, Option.map_none, Option.getD_none, hl, Row.hasAll_null]

/-- A statement that takes the running job of a number to its end changes that job alone, if the lock is free. -/
theorem change_finishing_of_running {t : Table} {r : Row} (ht : c.database.table? "review_jobs" = some t) (hl : t.layout = .jobs)
    (hlock : c.locked = false) (hr : r ∈ t.rows) (hrun : r.HasStatus .running) (now : Timestamp) (target : JobStatus)
    (error : Option String) : ∃ record db, c.change (finishing now r.id target error) = .ok ([record], db) ∧
      (finishing now r.id target error).Takes c.database t r db := by
  obtain ⟨hchange, hgives⟩ := change_moves (finishing_moves now r.id target error) ht hl
  have honly : ∀ x ∈ t.rows, x.hasAll t.layout (finishing now r.id target error).having = true ↔ x = r := by
    intro x hx
    rw [hl, show x.hasAll .jobs (finishing now r.id target error).having = decide (x.id = r.id ∧ x.HasStatus .running) from
      x.hasAll_id_status r.id .running, decide_eq_true_eq]
    exact ⟨fun h => Table.eq_of_id_eq hx hr h.1, fun h => by rw [h]; exact ⟨rfl, hrun⟩⟩
  rw [hlock, if_neg Bool.false_ne_true, Change.inPlace_fst_of_only hr honly] at hchange
  exact ⟨_, _, hchange, hgives, hr, honly⟩

/-- A statement that takes the running job of a number to its end changes nothing if there is no such job, and the lock is
free. -/
theorem change_finishing_of_not_running {t : Table} {id : Int} (ht : c.database.table? "review_jobs" = some t)
    (hl : t.layout = .jobs) (hlock : c.locked = false) (hnot : ¬∃ r ∈ t.rows, r.id = id ∧ r.HasStatus .running)
    (now : Timestamp) (target : JobStatus) (error : Option String) :
    ∃ db, c.change (finishing now id target error) = .ok ([], db) ∧ c.database.Agrees db ∧
      db.indexes = c.database.indexes := by
  obtain ⟨hchange, hgives⟩ := change_moves (finishing_moves now id target error) ht hl
  have hnone : ∀ x ∈ t.rows, x.hasAll t.layout (finishing now id target error).having = false := by
    intro x hx
    rw [hl, show x.hasAll .jobs (finishing now id target error).having = decide (x.id = id ∧ x.HasStatus .running) from
      x.hasAll_id_status id .running, decide_eq_false_iff_not]
    exact fun h => hnot ⟨x, hx, h⟩
  refine ⟨_, ?_, agrees_of_forall_not hgives hnone, rfl⟩
  rw [hchange, hlock, if_neg Bool.false_ne_true, Change.inPlace_of_forall_not hnone, List.map_nil]

/-- What a statement does that takes the running job of a number to its end: it waits for the lock, changes that job
alone, or nothing because there is no such job. -/
theorem change_finishing {t : Table} (ht : c.database.table? "review_jobs" = some t) (hl : t.layout = .jobs)
    (now : Timestamp) (id : Int) (target : JobStatus) (error : Option String) :
    c.change (finishing now id target error) = .error .locked ∨
    (∃ r record db, c.change (finishing now id target error) = .ok ([record], db) ∧
      (finishing now id target error).Takes c.database t r db ∧ r.id = id ∧ r.HasStatus .running) ∨
    ∃ db, c.change (finishing now id target error) = .ok ([], db) ∧ c.database.Agrees db := by
  by_cases hlock : c.locked = true
  · exact Or.inl (by rw [(change_moves (finishing_moves now id target error) ht hl).1, if_pos hlock])
  · refine Or.inr ?_
    by_cases hex : ∃ r ∈ t.rows, r.id = id ∧ r.HasStatus .running
    · obtain ⟨r, hr, rfl, hrun⟩ := hex
      obtain ⟨record, db, hok, htakes⟩ := change_finishing_of_running ht hl (by simpa using hlock) hr hrun now target error
      exact Or.inl ⟨r, record, db, hok, htakes, rfl, hrun⟩
    · obtain ⟨db, hok, hagrees, -⟩ := change_finishing_of_not_running ht hl (by simpa using hlock) hex now target error
      exact Or.inr ⟨db, hok, hagrees⟩

/-! ## Completions -/

/-- A review is stored within a transaction as it would be alone. -/
theorem insert_reviewing (hdb : c.database.IsCurrent) (now : Timestamp) (id : Int) (text : ReviewText) :
    c.insert (reviewing now id text) = c.insertWithin (reviewing now id text) :=
  insert_eq_insertWithin fun _ ht => hdb.isStrict (l := .reviews) (by decide) ht

/-- In the current layout a completion puts no reference off. -/
theorem completionOwing_eq {done : Database} (hdb : c.database.IsCurrent) (hdone : done.IsCurrent) (now : Timestamp) (id : Int)
    (text : ReviewText) : c.completionOwing now id text done = 0 := by
  obtain ⟨t, ht, hl⟩ := hdb.jobs
  have hmoves := finishing_moves now id .done none
  have hplain := hmoves.plain
  simp only [Change.isPlain, Bool.and_eq_true] at hplain
  have hjob : (finishing now id .done none).owing c.guard c.database 0 = 0 :=
    Change.owing_eq (t := t) ht (by rw [hl]; exact hplain.1.1.1) (by rw [hl]; exact hmoves.cells c.guard)
  unfold completionOwing
  rw [hjob]
  exact Insertion.owing_eq_zero fun _ hu => hdone.isStrict (l := .reviews) (by decide) hu

/-- In the current layout a completion that finds the lock free takes its job to its end and stores the review. -/
theorem complete_eq (hdb : c.database.IsCurrent) (hlock : c.locked = false) (now : Timestamp) (id : Int) (text : ReviewText) :
    c.complete now id text = match (c.finish now id .done none).answer with
      | .error e => ⟨.error e, c, []⟩
      | .ok () => match (c.finish now id .done none).connection.storeReview now id text with
        | .error f => .refused c f
        | .ok (review, db) => ⟨.ok review, c.on db, [⟨.debug, "Job " ++ toString id ++ " done by " ++ text.agent⟩]⟩ := by
  obtain ⟨t, ht, hl⟩ := hdb.jobs
  obtain ⟨hchange, hgives⟩ := change_moves (c := c) (finishing_moves now id .done none) ht hl
  rw [hlock, if_neg Bool.false_ne_true] at hchange
  obtain ⟨rows, done, hchange, howing⟩ : ∃ rows done, c.change (finishing now id .done none) = .ok (rows, done) ∧
      c.completionOwing now id text done = 0 := ⟨_, _, hchange, completionOwing_eq hdb (hdb.of_gives hgives) now id text⟩
  unfold complete finish
  rw [hlock, if_neg Bool.false_ne_true, ← change_eq_within (finishing_moves now id .done none) hdb, hchange]
  unfold finished
  by_cases hone : rows.length = 1
  · have hkept : ¬0 < c.completionOwing now id text (c.on done).database := by
      show ¬0 < c.completionOwing now id text done
      omega
    cases hstore : (c.on done).storeReview now id text <;> simp only [if_pos hone, if_neg hkept, hstore]
  · simp only [if_neg hone]

/-! ## The effects of the operations -/

/-- Queueing a job has its effect. -/
theorem enqueue_effect (hdb : c.database.IsCurrent) (r : JobRequest) :
    Effect c now (.enqueue r) (.answered (c.perform now (.enqueue r)).answer)
      (c.perform now (.enqueue r)).connection.database := by
  simp only [perform, Outcome.map, enqueue]
  cases hins : c.insert (queueing now r) with
  | error f => exact .refused (.refl _) fun _ h => by cases h
  | ok v =>
    obtain ⟨a, db⟩ := v
    obtain ⟨t, new, id, hadds, rfl⟩ := insert_adds (l := .jobs) hdb (by decide) rfl rfl hins
    obtain ⟨u, hu, hl⟩ := hdb.jobs
    cases hu.symm.trans hadds.table
    have heffect := Effect.enqueued hadds
    simp only [hl, show (queueing now r).returning = Job.columns from rfl, ← Job.recordOf.eq_def]
    cases hjob : Job.ofRecord (Job.recordOf ((queueing now r).row .jobs id)) with
    | error f =>
      rw [hjob] at heffect
      exact heffect
    | ok job =>
      rw [hjob] at heffect
      exact heffect

/-- So has claiming one. -/
theorem claim_effect (hdb : c.database.IsCurrent) (worker : String) :
    Effect c now (.claim worker) (.answered (c.perform now (.claim worker)).answer)
      (c.perform now (.claim worker)).connection.database := by
  obtain ⟨t, ht, hl⟩ := hdb.jobs
  obtain ⟨hchange, hgives⟩ := change_moves (claiming_moves c.database now worker) ht hl
  simp only [perform, Outcome.map, claim, hchange]
  by_cases hlock : c.locked = true
  · rw [if_pos hlock]
    exact .refused (.refl _) fun _ _ => ⟨hlock, rfl⟩
  · rw [if_neg hlock]
    have hunlocked : c.locked = false := by simpa using hlock
    cases hfirst : t.rows.find? (·.HasStatus .queued) with
    | none =>
      have hnone := claiming_none ht hl hfirst now worker
      have hagrees := agrees_of_forall_not hgives hnone
      rw [Change.inPlace_of_forall_not hnone] at hagrees ⊢
      refine .waiting hunlocked ht (fun r hr => ?_) hagrees
      simpa using List.find?_eq_none.mp hfirst r hr
    | some r =>
      have honly := claiming_only ht hl hfirst now worker
      have hmem := List.mem_of_find?_eq_some hfirst
      have heffect := Effect.claimed hunlocked ⟨hgives, hmem, honly⟩ hfirst
      rw [Change.inPlace_fst_of_only hmem honly, hl]
      simp only [List.map_cons, List.map_nil, show (claiming c.database now worker).returning = Job.columns from rfl,
        ← Job.recordOf.eq_def]
      cases hjob : Job.ofRecord (Job.recordOf (r.given .jobs (claiming c.database now worker).cells)) with
      | error f =>
        rw [hjob] at heffect
        exact heffect
      | ok job =>
        rw [hjob] at heffect
        exact heffect

/-- So has completing one. -/
theorem complete_effect (hdb : c.database.IsCurrent) (id : Int) (text : ReviewText) :
    Effect c now (.complete id text) (.answered (c.perform now (.complete id text)).answer)
      (c.perform now (.complete id text)).connection.database := by
  have refused : ∀ e, Effect c now (.complete id text) (.answered (.error e)) c.database := fun e =>
    .refused (.refl _) fun _ h => by cases h
  obtain ⟨t, ht, hl⟩ := hdb.jobs
  cases hlock : c.locked with
  | true =>
    simp only [perform, Outcome.map, complete, hlock, if_true]
    exact refused _
  | false =>
    simp only [perform, Outcome.map, complete_eq hdb hlock, finish]
    rcases change_finishing ht hl now id .done none with
      hchange | ⟨r, record, done, hchange, htakes, hid, hrun⟩ | ⟨done, hchange, -⟩
    · rw [hchange]
      exact refused _
    · rw [hchange]
      simp only [finished, List.length_cons, List.length_nil, Nat.zero_add, if_true, storeReview, bind, Except.bind]
      cases hins : (c.on done).insertWithin (reviewing now id text) with
      | error f => exact refused _
      | ok v =>
        obtain ⟨_ | record, db⟩ := v
        · exact refused _
        obtain ⟨reviews, new, rid, hadds, rfl⟩ := insertWithin_adds hins
        -- the table of reviews is the same before the job is done and after
        have hreviews : reviews.layout = .reviews := by
          obtain ⟨u, hu, hul⟩ := hdb.reviews
          have hsame : done.table? "reviews" = c.database.table? "reviews" :=
            htakes.table?_of_ne (show "reviews" ≠ "review_jobs" by decide)
          cases hu.symm.trans (hsame.symm.trans hadds.table)
          exact hul
        simp only [hreviews, show (reviewing now id text).returning = Review.columns from rfl]
        cases hreads : Review.ofRecord (((reviewing now id text).row .reviews rid).record
            (Layout.reviews.pick Review.columns)) with
        | error f => exact refused _
        | ok review => exact .completed htakes hid hrun hadds hreads
    · rw [hchange]
      exact refused _

/-- So has queueing the running jobs again. -/
theorem resetStale_effect (hdb : c.database.IsCurrent) :
    Effect c now .resetStale (.answered (c.perform now .resetStale).answer)
      (c.perform now .resetStale).connection.database := by
  obtain ⟨t, ht, hl⟩ := hdb.jobs
  obtain ⟨hchange, hgives⟩ := change_moves requeueing_moves ht hl
  simp only [perform, Outcome.map, resetStale, hchange]
  by_cases hlock : c.locked = true
  · rw [if_pos hlock]
    exact .refused (.refl _) fun _ h => by cases h
  · rw [if_neg hlock]
    exact .requeued hgives

end Connection

/-- The next statement of a call has one of the effects. -/
theorem Call.run_effect {c : Connection} (hdb : c.database.IsCurrent) (now : Timestamp) (call : Call) :
    Effect c now call.operation (call.run c now).1 (call.run c now).2 := by
  cases call with
  | asked op =>
    cases op with
    | enqueue r => exact Connection.enqueue_effect hdb r
    | claim worker => exact Connection.claim_effect hdb worker
    | complete id text => exact Connection.complete_effect hdb id text
    | resetStale => exact Connection.resetStale_effect hdb
    | fail id error =>
      obtain ⟨t, ht, hl⟩ := hdb.jobs
      simp only [operation, run]
      rcases Connection.change_finishing ht hl now id .failed (some error) with
        hchange | ⟨r, record, db, hchange, htakes, hid, hrun⟩ | ⟨db, hchange, hagrees⟩ <;> rw [hchange]
      · exact .refused (.refl _) fun _ h => by cases h
      · exact .failed htakes hid hrun
      · exact .missed hagrees
    | addResponse reply =>
      have responses : "responses" ≠ "review_jobs" ∧ "responses" ≠ "reviews" := by decide
      simp only [operation, run, Connection.perform, Outcome.map, Connection.addResponse]
      split
      next => exact .aside rfl (fun _ _ => rfl) hdb
      next hins => exact Connection.insert_aside hdb hins rfl responses
      next hins => exact Connection.insert_aside hdb hins rfl responses
    | registerRepo | storeCommit =>
      simp only [operation, run]
      split <;> exact .aside rfl (fun _ _ => rfl) hdb
    | _ => exact .aside rfl (fun _ _ => rfl) hdb
  | registering =>
    have repos : "repos" ≠ "review_jobs" ∧ "repos" ≠ "reviews" := by decide
    simp only [operation, run]
    split
    next => exact .aside rfl (fun _ _ => rfl) hdb
    next hins => exact Connection.insert_aside hdb hins rfl repos
  | storing =>
    have commits : "commits" ≠ "review_jobs" ∧ "commits" ≠ "reviews" := by decide
    simp only [operation, run]
    split
    next => exact .aside rfl (fun _ _ => rfl) hdb
    next hins => exact Connection.insert_aside hdb hins rfl commits
  | registered | stored => exact .aside rfl (fun _ _ => rfl) hdb
  | refusing => exact .refused (.refl _) fun _ h => by cases h

/-! ## The jobs after an effect -/

namespace Change.MovesJobs

variable {s : Change} {source target : JobStatus} {t : Table} {r : Row} {db db' : Database}

/-- The rows of jobs before and after a change. -/
theorem rows_eq (hs : s.MovesJobs source target) (h : s.Gives db t db') :
    db.rows "review_jobs" = t.rows ∧ db'.rows "review_jobs" = (s.inPlace t).2.rows := by
  rw [← hs.table]
  exact ⟨Database.rows_of_table? h.table, Database.rows_of_table? h.table?_self⟩

/-- A job after a change is a job before it, with the cells given if it was chosen. -/
theorem mem_rows (hs : s.MovesJobs source target) (hl : t.layout = .jobs) (h : s.Gives db t db') {x : Row} :
    x ∈ db'.rows "review_jobs" ↔
      ∃ r ∈ db.rows "review_jobs", x = if r.hasAll .jobs s.having then r.given .jobs s.cells else r := by
  obtain ⟨hbefore, hafter⟩ := hs.rows_eq h
  rw [hbefore, hafter, mem_inPlace, hl]

/-- The jobs of a status that a change neither takes nor gives are the same before and after it. -/
theorem mem_rows_status (hs : s.MovesJobs source target) (hl : t.layout = .jobs) (h : s.Gives db t db') (status : JobStatus)
    (hsource : status ≠ source) (htarget : status ≠ target) {x : Row} :
    x ∈ db'.rows "review_jobs" ∧ x.HasStatus status ↔ x ∈ db.rows "review_jobs" ∧ x.HasStatus status := by
  rw [hs.mem_rows hl h]
  constructor
  · rintro ⟨⟨r, hr, rfl⟩, hx⟩
    split at hx
    next hc => exact absurd (hx.inj (hs.gives r (hs.chooses r hc))) htarget
    next hc => rw [if_neg hc]; exact ⟨hr, hx⟩
  · rintro ⟨hr, hx⟩
    refine ⟨⟨x, hr, ?_⟩, hx⟩
    rw [if_neg fun hc => hsource (hx.inj (hs.chooses x hc))]

/-- The rows of a status that a change neither takes nor gives stay in their order. -/
theorem filter_status (hs : s.MovesJobs source target) (hl : t.layout = .jobs) (status : JobStatus)
    (hsource : status ≠ source) (htarget : status ≠ target) :
    (s.inPlace t).2.rows.filter (·.HasStatus status) = t.rows.filter (·.HasStatus status) := by
  rw [inPlace_snd_rows, hl]
  induction t.rows with
  | nil => rfl
  | cons r rows ih =>
    rw [List.map_cons, List.filter_cons, List.filter_cons, ih]
    by_cases hc : r.hasAll .jobs s.having = true
    · have hr := hs.chooses r hc
      have hbefore : ¬r.HasStatus status := fun h => hsource (h.inj hr)
      have hafter : ¬(r.given .jobs s.cells).HasStatus status := fun h => htarget (h.inj (hs.gives r hr))
      rw [if_pos hc, if_neg (by simpa using hafter), if_neg (by simpa using hbefore)]
    · rw [if_neg hc]

/-- A change that takes one job has it before and, with the cells given, after it; the others stay. -/
theorem mem_rows_takes (hs : s.MovesJobs source target) (hl : t.layout = .jobs) (h : s.Takes db t r db') :
    r ∈ db.rows "review_jobs" ∧ r.HasStatus source ∧ (r.given .jobs s.cells).HasStatus target ∧
      ∀ x, x ∈ db'.rows "review_jobs" ↔ x = r.given .jobs s.cells ∨ x ∈ db.rows "review_jobs" ∧ x ≠ r := by
  have hsource : r.HasStatus source := hs.chooses r (by rw [← hl]; exact (h.only r h.mem).mpr rfl)
  obtain ⟨hbefore, hafter⟩ := hs.rows_eq h.toGives
  refine ⟨by rw [hbefore]; exact h.mem, hsource, hs.gives r hsource, fun x => ?_⟩
  rw [hbefore, hafter, h.mem_rows, hl]

end Change.MovesJobs

/-- Whether the rows of all jobs fit their layout. -/
def Database.JobsFit (db : Database) : Prop := ∀ r ∈ db.rows "review_jobs", r.Fits .jobs

namespace Database.JobsFit

variable {db db' : Database} {t : Table}

/-- Whether the jobs fit depends on their table alone. -/
theorem congr (hf : db.JobsFit) (h : db'.table? "review_jobs" = db.table? "review_jobs") : db'.JobsFit := by
  unfold JobsFit
  rw [rows_congr h]
  exact hf

/-- Jobs that are changed fit. -/
theorem of_gives {s : Change} {source target : JobStatus} (hf : db.JobsFit) (hs : s.MovesJobs source target)
    (hl : t.layout = .jobs) (h : s.Gives db t db') : db'.JobsFit := by
  intro x hx
  obtain ⟨r, hr, rfl⟩ := (hs.mem_rows hl h).mp hx
  split
  · exact (hf r hr).given (by decide) fun c hc hk hg => (Change.of_cellStop? (hs.cells {}) hc hk hg).1
  · exact hf r hr

/-- So does one that is added. -/
theorem of_adds {s : Insertion} {g : Guard} {new : Table} {id : Int} (hf : db.JobsFit) (hs : s.table = "review_jobs")
    (hl : t.layout = .jobs) (h : s.Adds g db t new id db') : db'.JobsFit := by
  intro x hx
  rw [← hs, h.mem_rows_table (by rw [hl]; decide), hl, hs] at hx
  rcases hx with rfl | hx
  · exact Insertion.row_fits (by decide) (by rw [← hl]; exact h.cells) id
  · exact hf x hx

end Database.JobsFit

/-- An effect leaves rows of jobs that fit. -/
theorem Effect.jobsFit {c : Connection} {now : Timestamp} {op : Operation} {p : Progress} {db : Database}
    (h : Effect c now op p db) (hdb : c.database.IsCurrent) (hf : c.database.JobsFit) : db.JobsFit := by
  obtain ⟨u, hu, hl⟩ := hdb.jobs
  cases h with
  | aside _ same _ => exact hf.congr (same _ (Or.inl rfl))
  | refused agrees _ => exact hf.congr (agrees _)
  | missed agrees => exact hf.congr (agrees _)
  | waiting _ _ _ agrees => exact hf.congr (agrees _)
  | enqueued adds =>
    cases hu.symm.trans adds.table
    exact hf.of_adds rfl hl adds
  | claimed _ takes _ =>
    cases hu.symm.trans takes.table
    exact hf.of_gives (Connection.claiming_moves ..) hl takes.toGives
  | failed takes _ _ =>
    cases hu.symm.trans takes.table
    exact hf.of_gives (Connection.finishing_moves ..) hl takes.toGives
  | completed takes _ _ adds _ =>
    cases hu.symm.trans takes.table
    exact (hf.of_gives (Connection.finishing_moves ..) hl takes.toGives).congr
      (adds.table?_of_ne (show "review_jobs" ≠ "reviews" by decide))
  | requeued gives =>
    cases hu.symm.trans gives.table
    exact hf.of_gives Connection.requeueing_moves hl gives

namespace Site

variable {w : Site}

/-- What an action does to a site has one of the effects. -/
theorem step_effect (hw : w.database.IsCurrent) (a : Action) : Effect (w.connection a) a.now (w.call a).operation
    ((w.call a).run (w.connection a) a.now).1 (w.step a).1.database := by
  rw [step_database]
  exact Call.run_effect hw a.now (w.call a)

/-- The call that an action answers had one of the effects. -/
theorem step_event_effect (hw : w.database.IsCurrent) {a : Action} {e : Event} (he : (w.step a).2 = some e) :
    Effect (w.connection a) a.now e.operation (.answered e.answer) (w.step a).1.database := by
  obtain ⟨hanswer, -, hop⟩ := step_event.mp he
  rw [← hanswer, hop]
  exact step_effect hw a

/-- An action keeps the current layout, -/
theorem step_isCurrent (hw : w.database.IsCurrent) (a : Action) : (w.step a).1.database.IsCurrent :=
  (step_effect hw a).isCurrent hw

/-- and so does a run. -/
theorem after_isCurrent (hw : w.database.IsCurrent) (as : List Action) : (w.after as).database.IsCurrent := by
  induction as generalizing w with
  | nil => exact hw
  | cons a as ih => exact ih (step_isCurrent hw a)

end Site
end ReviewQueue
