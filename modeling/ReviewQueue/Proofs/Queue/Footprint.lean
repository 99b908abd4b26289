import ReviewQueue.Proofs.Queue.Effects

/-!
# What a statement of the queue writes

The next statement of a call adds one row, changes jobs, does both as a completion, or leaves the database as it is. So
it never does more than put tables in the place of those of their names, under the layouts that these have: the layouts, the
indexes and the version of a database outlast every statement.
-/

namespace ReviewQueue

namespace Connection

variable {c : Connection} {now : Timestamp} {id : Int} {text : ReviewText}

/-- A completion that succeeds made the change of its job and then added its review. -/
theorem exists_of_complete_isOk (h : (c.perform now (.complete id text)).answer.isOk = true) :
    ∃ rows done a, c.changeWithin (finishing now id .done none) = .ok (rows, done) ∧
      (c.on done).insertWithin (reviewing now id text) =
        .ok (some a, (c.perform now (.complete id text)).connection.database) := by
  revert h
  simp only [perform, Outcome.map, complete]
  split
  · intro h
    cases h
  cases hchange : c.changeWithin (finishing now id .done none) with
  | error f =>
    intro h
    cases h
  | ok changed =>
    obtain ⟨rows, done⟩ := changed
    unfold finished
    by_cases hrows : rows.length = 1
    · simp only [hrows, if_true, storeReview, bind, Except.bind]
      cases hinsert : (c.on done).insertWithin (reviewing now id text) with
      | error f =>
        intro h
        cases h
      | ok added =>
        obtain ⟨_ | record, db⟩ := added
        · intro h
          cases h
        · cases hread : Review.ofRecord record with
          | error f =>
            simp only [hread]
            intro h
            cases h
          | ok review =>
            by_cases howing : 0 < c.completionOwing now id text (c.on done).database
            · simp only [hread, if_pos howing]
              intro h
              cases h
            · simp only [hread, if_neg howing]
              exact fun _ => ⟨rows, done, record, rfl, hinsert⟩
    · simp only [if_neg hrows]
      intro h
      cases h

/-- A completion that fails leaves the database. -/
theorem database_of_complete_error (h : (c.perform now (.complete id text)).answer.isOk = false) :
    (c.perform now (.complete id text)).connection.database = c.database := by
  revert h
  simp only [perform, Outcome.map, complete]
  split
  · exact fun _ => rfl
  · split
    · exact fun _ => rfl
    · split
      · exact fun _ => rfl
      · split
        · exact fun _ => rfl
        · intro h
          cases h

/-! ## The database after an operation of one statement -/

/-- The database after an insertion: that of its answer, or the one before if it is refused. -/
def inserted (c : Connection) (s : Insertion) : Database :=
  match c.insert s with
  | .error _ => c.database
  | .ok (_, db) => db

/-- The database after a change: that of its answer, or the one before if it is refused. -/
def changed (c : Connection) (s : Change) : Database :=
  match c.change s with
  | .error _ => c.database
  | .ok (_, db) => db

/-- A job that cannot be read back is there all the same. -/
theorem database_enqueue (c : Connection) (now : Timestamp) (r : JobRequest) :
    (c.enqueue now r).connection.database = c.inserted (queueing now r) := by
  unfold enqueue inserted
  rcases c.insert (queueing now r) with f | ⟨_ | record, db⟩
  · rfl
  · rfl
  · dsimp only
    cases Job.ofRecord record <;> rfl

/-- A response that cannot be read back is there all the same. -/
theorem database_addResponse (c : Connection) (now : Timestamp) (reply : Reply) :
    (c.addResponse now reply).connection.database = c.inserted (responding now reply) := by
  unfold addResponse inserted
  rcases c.insert (responding now reply) with f | ⟨_ | record, db⟩ <;> rfl

/-- A job that is handed out but cannot be read is taken all the same. -/
theorem database_claim (c : Connection) (now : Timestamp) (worker : String) :
    (c.claim now worker).connection.database = c.changed (claiming c.database now worker) := by
  unfold claim changed
  rcases c.change (claiming c.database now worker) with f | ⟨_ | ⟨record, rows⟩, db⟩
  · rfl
  · rfl
  · dsimp only
    cases Job.ofRecord record <;> rfl

theorem database_resetStale (c : Connection) : c.resetStale.connection.database = c.changed requeueing := by
  unfold resetStale changed
  rcases c.change requeueing with f | ⟨rows, db⟩ <;> rfl

end Connection

namespace Call

/-- The row that the next statement of a call is there to add. The row of a review is none of these: it is added only if
its job is done by the same transaction. -/
def insertion? (now : Timestamp) : Call → Option Insertion
  | registering path => some (Connection.registration now path)
  | storing info => some (Connection.storing now info)
  | asked (.enqueue r) => some (Connection.queueing now r)
  | asked (.addResponse r) => some (Connection.responding now r)
  | _ => none

/-- The change of jobs that the next statement of a call is. -/
def change? (db : Database) (now : Timestamp) : Call → Option Change
  | asked (.claim worker) => some (Connection.claiming db now worker)
  | asked (.fail id error) => some (Connection.finishing now id .failed (some error))
  | asked .resetStale => some Connection.requeueing
  | _ => none

/-- The table to which the next statement of a call adds a row, as the outcome of the statement tells: an insertion that
was not refused and did not leave its row out for a conflict, or a completion that succeeded. -/
def stores? (c : Connection) (now : Timestamp) : Call → Option String
  | asked (.complete id text) => if (c.perform now (.complete id text)).answer.isOk then some "reviews" else none
  | call => (call.insertion? now).bind fun s => match c.insert s with
    | .ok (some _, _) => some s.table
    | _ => none

/-- What the next statement of a call does to the database. -/
inductive Acts (c : Connection) (now : Timestamp) : Call → Database → Prop where
  | nothing {call : Call} (silent : call.stores? c now = none) : Acts c now call c.database
  | inserts {call : Call} {s : Insertion} {a : Option Record} {db : Database} (statement : call.insertion? now = some s)
      (inserts : c.insert s = .ok (a, db)) (stores : call.stores? c now = a.map fun _ => s.table) : Acts c now call db
  | changes {call : Call} {s : Change} {rows : List Record} {db : Database} (statement : call.change? c.database now = some s)
      (changes : c.change s = .ok (rows, db)) (silent : call.stores? c now = none) : Acts c now call db
  | completes {id : Int} {text : ReviewText} {rows : List Record} {done db : Database} {a : Record}
      (changes : c.changeWithin (Connection.finishing now id .done none) = .ok (rows, done))
      (inserts : (c.on done).insertWithin (Connection.reviewing now id text) = .ok (some a, db))
      (stores : (asked (.complete id text)).stores? c now = some "reviews") : Acts c now (asked (.complete id text)) db

variable {c : Connection} {now : Timestamp}

/-- The change of a call takes jobs from one status to another. -/
theorem change?_moves {db : Database} {call : Call} {s : Change} (h : call.change? db now = some s) :
    ∃ source target, s.MovesJobs source target := by
  cases call with
  | asked op =>
    cases op with
    | claim worker =>
      cases h
      exact ⟨_, _, Connection.claiming_moves db now worker⟩
    | fail id error =>
      cases h
      exact ⟨_, _, Connection.finishing_moves now id .failed (some error)⟩
    | resetStale =>
      cases h
      exact ⟨_, _, Connection.requeueing_moves⟩
    | _ => cases h
  | _ => cases h

/-- The tables to which calls add rows by a statement of its own. -/
theorem insertion?_table {call : Call} {s : Insertion} (h : call.insertion? now = some s) :
    s.table ∈ ["repos", "commits", "review_jobs", "responses"] := by
  cases call with
  | asked op => cases op <;> cases h <;> simp [Connection.queueing, Connection.responding]
  | _ => cases h <;> simp [Connection.registration, Connection.storing]

/-- What a statement of its own stores is told by its insertion. -/
theorem stores?_eq {call : Call} {s : Insertion} (hs : call.insertion? now = some s) :
    call.stores? c now = match c.insert s with
      | .ok (some _, _) => some s.table
      | _ => none := by
  have hstores : call.stores? c now = (call.insertion? now).bind fun s => match c.insert s with
      | .ok (some _, _) => some s.table
      | _ => none := by
    cases call with
    | asked op =>
      cases op with
      | complete => cases hs
      | _ => rfl
    | _ => rfl
  rw [hstores, hs, Option.bind_some]

/-- A statement that is there to add a row does that, or nothing if it is refused. -/
theorem Acts.inserted {call : Call} {s : Insertion} (hs : call.insertion? now = some s) : call.Acts c now (c.inserted s) := by
  have hstores := stores?_eq (c := c) hs
  unfold Connection.inserted
  cases h : c.insert s with
  | error f =>
    rw [h] at hstores
    exact .nothing hstores
  | ok v =>
    obtain ⟨a, db⟩ := v
    rw [h] at hstores
    exact .inserts hs h (hstores.trans (by cases a <;> rfl))

/-- A statement that is there to change jobs does that, or nothing if it is refused. -/
theorem Acts.changed {call : Call} {s : Change} (hs : call.change? c.database now = some s) (hsilent : call.stores? c now = none) :
    call.Acts c now (c.changed s) := by
  unfold Connection.changed
  cases h : c.change s with
  | error f => exact .nothing hsilent
  | ok v => exact .changes hs h hsilent

/-- A completion adds its review, or does nothing. -/
theorem complete_acts (c : Connection) (now : Timestamp) (id : Int) (text : ReviewText) :
    (asked (.complete id text)).Acts c now (c.perform now (.complete id text)).connection.database := by
  have hstores : (asked (.complete id text)).stores? c now =
      if (c.perform now (.complete id text)).answer.isOk then some "reviews" else none := rfl
  cases hok : (c.perform now (.complete id text)).answer.isOk with
  | true =>
    obtain ⟨rows, done, a, hchange, hinsert⟩ := Connection.exists_of_complete_isOk hok
    exact .completes hchange hinsert (by rw [hstores, hok, if_pos rfl])
  | false =>
    rw [Connection.database_of_complete_error hok]
    exact .nothing (by rw [hstores, hok, if_neg Bool.false_ne_true])

/-! ## The database after a statement of a call -/

theorem database_registering (c : Connection) (now : Timestamp) (path : Path) :
    ((registering path).run c now).2 = c.inserted (Connection.registration now path) := by
  simp only [run, Connection.inserted]
  cases c.insert (Connection.registration now path) <;> rfl

theorem database_storing (c : Connection) (now : Timestamp) (info : CommitInfo) :
    ((storing info).run c now).2 = c.inserted (Connection.storing now info) := by
  simp only [run, Connection.inserted]
  cases c.insert (Connection.storing now info) <;> rfl

/-- Whether the call then goes on to say why it is refused does not matter here. -/
theorem database_fail (c : Connection) (now : Timestamp) (id : Int) (error : String) :
    ((asked (.fail id error)).run c now).2 = c.changed (Connection.finishing now id .failed (some error)) := by
  simp only [run, Connection.changed]
  cases c.change (Connection.finishing now id .failed (some error)) with
  | error f => rfl
  | ok v =>
    dsimp only
    split <;> rfl

/-- What the next statement of a call does is one of these. -/
theorem run_acts (c : Connection) (now : Timestamp) (call : Call) : call.Acts c now (call.run c now).2 := by
  cases call with
  | asked op =>
    cases op with
    | registerRepo | storeCommit =>
      simp only [run]
      split <;> exact .nothing rfl
    | enqueue r =>
      show Acts c now _ (c.enqueue now r).connection.database
      rw [c.database_enqueue]
      exact .inserted rfl
    | addResponse reply =>
      show Acts c now _ (c.addResponse now reply).connection.database
      rw [c.database_addResponse]
      exact .inserted rfl
    | claim worker =>
      show Acts c now _ (c.claim now worker).connection.database
      rw [c.database_claim]
      exact .changed rfl rfl
    | fail id error => exact database_fail c now id error ▸ .changed rfl rfl
    | resetStale =>
      show Acts c now _ c.resetStale.connection.database
      rw [c.database_resetStale]
      exact .changed rfl rfl
    | complete id text => exact complete_acts c now id text
    | _ => exact .nothing rfl
  | registering path => exact database_registering c now path ▸ .inserted rfl
  | storing info => exact database_storing c now info ▸ .inserted rfl
  | registered | stored | refusing => exact .nothing rfl

end Call

/-- A change of jobs in the current layout gives its cells. -/
theorem Connection.gives_of_change {c : Connection} {s : Change} {source target : JobStatus} {rows : List Record}
    {db : Database} (hdb : c.database.IsCurrent) (hs : s.MovesJobs source target) (h : c.change s = .ok (rows, db)) :
    ∃ t, c.database.table? "review_jobs" = some t ∧ t.layout = .jobs ∧ s.Gives c.database t db := by
  obtain ⟨t, ht, hl⟩ := hdb.jobs
  obtain ⟨hchange, hgives⟩ := change_moves hs ht hl
  rw [h] at hchange
  split at hchange
  · cases hchange
  · cases hchange
    exact ⟨t, ht, hl, hgives⟩

namespace Database

/-- A database comes from another by putting tables in the place of those of their names, under the layouts of these. The
table of versions is left. -/
inductive Rewrites (db : Database) : Database → Prop where
  | refl : Rewrites db db
  | put {db' : Database} {t u : Table} (before : Rewrites db db') (table : db'.table? t.name = some u)
      (layout : t.layout = u.layout) (version : t.name ≠ "schema_version") : Rewrites db (db'.put t)

namespace Rewrites

variable {db db' : Database}

/-- A row that is added rewrites its table. -/
theorem of_adds {s : Insertion} {g : Guard} {t new : Table} {id : Int} (h : s.Adds g db t new id db')
    (hs : s.table ≠ "schema_version") : db.Rewrites db' := by
  have hname : new.name = s.table := (congrArg Layout.name h.layout_eq).trans (name_of_table? h.table)
  rw [h.database]
  exact .put .refl (by rw [hname]; exact h.table) h.layout_eq (by rw [hname]; exact hs)

/-- So do cells that are given. -/
theorem of_gives {before : Database} {s : Change} {t : Table} (hbefore : before.Rewrites db) (h : s.Gives db t db')
    (hs : s.table ≠ "schema_version") : before.Rewrites db' := by
  have hname : (s.inPlace t).2.name = s.table := name_of_table? (t := t) h.table
  rw [h.database]
  exact .put (u := t) hbefore (by rw [hname]; exact h.table) rfl (by rw [hname]; exact hs)

theorem trans {db'' : Database} (h : db.Rewrites db') (h' : db'.Rewrites db'') : db.Rewrites db'' := by
  induction h' with
  | refl => exact h
  | put _ table layout version ih => exact .put ih table layout version

/-- Every name means a table of the same layout. -/
theorem layouts (h : db.Rewrites db') (name : String) : (db'.table? name).map (·.layout) = (db.table? name).map (·.layout) := by
  induction h with
  | refl => rfl
  | @put db' t u _ table layout _ ih =>
    rw [← ih]
    by_cases hn : name = t.name
    · rw [hn, table?_put_self table, table, Option.map_some, Option.map_some, layout]
    · rw [table?_put_of_ne hn]

/-- The indexes are left, -/
theorem indexes (h : db.Rewrites db') : db'.indexes = db.indexes := by
  induction h with
  | refl => rfl
  | put _ _ _ _ ih => exact ih

/-- and so is the version. -/
theorem versions (h : db.Rewrites db') : db'.table? "schema_version" = db.table? "schema_version" := by
  induction h with
  | refl => rfl
  | put _ _ _ version ih => exact (table?_put_of_ne version.symm).trans ih

end Rewrites
end Database

/-- An insertion that ran puts its table in its place at most. -/
theorem Insertion.run_rewrites {s : Insertion} {g : Guard} {a : Option Record} {db db' : Database}
    (h : s.run g db = .ok (a, db')) (hs : s.table ≠ "schema_version") : db.Rewrites db' := by
  rcases Insertion.run_eq_ok h with ⟨-, rfl, -⟩ | ⟨t, new, id, hadds, -, -⟩
  · exact .refl
  · exact .of_adds hadds hs

/-- So does one that was kept. -/
theorem Connection.insert_rewrites {c : Connection} {s : Insertion} {a : Option Record} {db : Database}
    (h : c.insert s = .ok (a, db)) (hs : s.table ≠ "schema_version") : c.database.Rewrites db := by
  obtain ⟨db', hrun, rfl | rfl⟩ := exists_run_of_insert h
  · exact Insertion.run_rewrites hrun hs
  · exact .refl

/-- Whatever the next statement of a call does, it puts tables in the place of those of their names. -/
theorem Call.run_rewrites {c : Connection} (hdb : c.database.IsCurrent) (now : Timestamp) (call : Call) :
    c.database.Rewrites (call.run c now).2 := by
  have hjobs : "review_jobs" ≠ "schema_version" := by decide
  have hacts := run_acts c now call
  generalize (call.run c now).2 = db at hacts ⊢
  cases hacts with
  | nothing => exact .refl
  | inserts statement inserts _ =>
    exact Connection.insert_rewrites inserts (ne_of_mem_of_not_mem (insertion?_table statement) (by decide))
  | changes statement changes _ =>
    obtain ⟨source, target, hs⟩ := change?_moves statement
    obtain ⟨t, -, -, hgives⟩ := Connection.gives_of_change hdb hs changes
    exact .of_gives .refl hgives (by rw [hs.table]; exact hjobs)
  | @completes id _ _ _ _ _ changes inserts _ =>
    have hs := Connection.finishing_moves now id .done none
    obtain ⟨t, -, -, hgives⟩ := Connection.gives_of_change hdb hs (Connection.change_eq_within hs hdb ▸ changes)
    exact (Database.Rewrites.of_gives .refl hgives hjobs).trans
      (Insertion.run_rewrites (Connection.run_of_insertWithin inserts) (show "reviews" ≠ "schema_version" by decide))

/-- So an action rewrites tables at most. -/
theorem Site.step_rewrites {w : Site} (hw : w.database.IsCurrent) (a : Action) : w.database.Rewrites (w.step a).1.database := by
  rw [step_database]
  exact Call.run_rewrites (c := w.connection a) hw a.now (w.call a)

end ReviewQueue
