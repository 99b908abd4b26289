import ReviewQueue.Proofs.Queue.Resolution

/-!
# The outcome of a resolution

Whether a job is taken to its end is read off its own row, the reviews of its number, the lock and the clock. If it is not, the
answer says why and nothing changes. If it is, its row gets the cells of the resolution, and a completion adds its review under the
next number.
-/

namespace ReviewQueue

/-- A way to take a job to its end. -/
inductive Resolution where
  | complete (text : ReviewText)
  | fail (error : String)
  deriving DecidableEq, Repr

namespace Resolution

/-- The operation that resolves the job of a number. -/
def operation (id : Int) : Resolution → Operation
  | complete text => .complete id text
  | fail error => .fail id error

/-- The status that the job is taken to. -/
def target : Resolution → JobStatus
  | complete _ => .done
  | fail _ => .failed

/-- The error that the job is left with. -/
def error? : Resolution → Option String
  | complete _ => none
  | fail error => some error

/-- What a resolution answers that succeeds; `number` is the next one of the reviews. -/
def answer (now : Timestamp) (id number : Int) : Resolution → Answer
  | complete text => .review ⟨number, id, text.agent, text.prompt, text.output, now.readBack⟩
  | fail _ => .done

/-- What a resolution logs that succeeds. -/
def log (id : Int) : Resolution → List LogLine
  | complete text => [⟨.debug, "Job " ++ toString id ++ " done by " ++ text.agent⟩]
  | fail error => [⟨.debug, "Job " ++ toString id ++ " failed: " ++ error⟩]

/-- The jobs after a resolution that succeeds. -/
def jobs (x : Resolution) (now : Timestamp) (id : Int) (t : Table) : Table :=
  t.modify (·.id = id) (Row.assign .jobs (Connection.finishing now id x.target x.error?).cells)

/-- The cells of the reviews that a resolution adds that succeeds. -/
def reviews (now : Timestamp) (id : Int) : Resolution → List (List (String × Cell))
  | complete text => [((Connection.reviewing now id text).row .reviews 0).cells]
  | fail _ => []

/-- Why the review of a completed job is not kept, if it is not. -/
def conflict? (now : Timestamp) (id : Int) (reviews : List Row) : Resolution → Option StoreError
  | complete _ =>
    if reviews.any (·.Reviews id) then some (.fault (.twiceIn "reviews" "job_id"))
    else if now.HasPlainYear then none
    else some (.fault (.unreadable 5 .notTimestamp))
  | fail _ => none

end Resolution

/-- Why the job of a number is not the running job that is to be taken to its end, if it is not. -/
def Connection.stuck? (c : Connection) (id : Int) (target : JobStatus) : Option StoreError :=
  match (c.database.rows "review_jobs").find? (·.id = id) with
  | none => some (.jobNotFound id)
  | some r => match (r.record [Column.status]).status 0 with
    | .error f => some (.ofFault f)
    | .ok s => if s = .running then none else some (.invalidTransition id s target)

/-- Why a resolution is refused, if it is. -/
def Resolution.refusal? (x : Resolution) (c : Connection) (now : Timestamp) (id : Int) : Option StoreError :=
  if c.locked then some (.busy .locked)
  else (c.stuck? id x.target).or (x.conflict? now id (c.database.rows "reviews"))

/-- What a resolution leaves of a database: of the jobs its own is changed and its review is added, if it succeeds. -/
structure Resolution.Leaves (x : Resolution) (now : Timestamp) (id : Int) (succeeds : Bool) (db db' : Database) : Prop where
  jobs : ∀ t, db.table? "review_jobs" = some t →
    db'.table? "review_jobs" = some (if succeeds then x.jobs now id t else t)
  reviews : ∀ t, db.table? "reviews" = some t →
    db'.table? "reviews" = some (t.addAll (if succeeds then x.reviews now id else []))
  others : ∀ name, name ≠ "review_jobs" → name ≠ "reviews" → db'.table? name = db.table? name
  indexes : db'.indexes = db.indexes

/-! ## How a resolution is decided, and what it does -/

namespace Connection

variable {c : Connection} {id : Int} {target : JobStatus}

/-- A job is not stuck exactly if it is running. -/
theorem stuck?_eq_none_iff : c.stuck? id target = none ↔ HasJob (c.database.rows "review_jobs") id .running := by
  unfold stuck?
  cases hfind : (c.database.rows "review_jobs").find? (fun r => decide (r.id = id)) with
  | none =>
    refine ⟨fun h => (by cases h), ?_⟩
    rintro ⟨r, hr, hid, -⟩
    simpa [hid] using List.find?_eq_none.mp hfind r hr
  | some r =>
    have hr := List.mem_of_find?_eq_some hfind
    have hid : r.id = id := by simpa using List.find?_some hfind
    have hrunning : HasJob (c.database.rows "review_jobs") id .running ↔ r.HasStatus .running := by
      refine ⟨?_, fun h => ⟨r, hr, hid, h⟩⟩
      rintro ⟨x, hx, hxid, h⟩
      rwa [Database.rows_eq_of_id_eq hr hx (hid.trans hxid.symm)]
    have hstatus : ∀ s, (r.record [Column.status]).status 0 = .ok s ↔ r.HasStatus s := fun s => Record.status_eq_ok_iff
    rw [hrunning, ← hstatus]
    cases hread : (r.record [Column.status]).status 0 with
    | error f => simp [hread]
    | ok s => simp [hread]

/-- The refusal of the first statement says how the job is stuck. -/
theorem refusal_of_stuck (hdb : c.database.IsCurrent) {e : StoreError} (h : c.stuck? id target = some e) :
    c.refusal id target = e := by
  unfold stuck? at h
  rw [refusal_eq hdb]
  cases hfind : (c.database.rows "review_jobs").find? (fun r => decide (r.id = id)) with
  | none =>
    rw [hfind] at h
    exact Option.some.inj h
  | some r =>
    rw [hfind] at h
    cases hread : (r.record [Column.status]).status 0 with
    | error f =>
      simp only [hread, Option.some.injEq] at h
      simp only [hread, h]
    | ok s =>
      simp only [hread] at h
      split at h
      · cases h
      · simp only [hread, Option.some.inj h]

/-- What is stuck depends on the row of the number alone. -/
theorem stuck?_congr {c' : Connection} (h : (c'.database.rows "review_jobs").find? (·.id = id) =
    (c.database.rows "review_jobs").find? (·.id = id)) : c'.stuck? id target = c.stuck? id target := by
  unfold stuck?
  rw [h]

/-- A job that is stuck is not taken to its end, and nothing changes. -/
theorem finish_of_stuck (hdb : c.database.IsCurrent) (hlock : c.locked = false) {e : StoreError}
    (h : c.stuck? id target = some e) (now : Timestamp) (error : Option String) :
    ∃ db, c.finish now id target error = ⟨.error e, c.on db, []⟩ ∧ c.database.Agrees db ∧
      db.indexes = c.database.indexes := by
  have hnot : ¬HasJob (c.database.rows "review_jobs") id .running := by
    intro hrun
    have hnone : c.stuck? id target = none := stuck?_eq_none_iff.mpr hrun
    cases h.symm.trans hnone
  obtain ⟨db, hfinish, hagrees, hindexes⟩ := finish_of_not_running hdb hlock hnot now target error
  have hrows : (c.on db).database.rows "review_jobs" = c.database.rows "review_jobs" := Database.rows_congr (hagrees _)
  have hstuck : (c.on db).stuck? id target = some e := (stuck?_congr (by rw [hrows])).trans h
  rw [refusal_of_stuck (c := c.on db) (hagrees.isCurrent hdb) hstuck] at hfinish
  exact ⟨db, hfinish, hagrees, hindexes⟩

/-- A job that is not stuck is taken to its end, and is still there. -/
theorem finish_of_not_stuck (hdb : c.database.IsCurrent) (hlock : c.locked = false) (h : c.stuck? id target = none)
    (now : Timestamp) (error : Option String) : ∃ db, c.finish now id target error = ⟨.ok (), c.on db, []⟩ ∧ db.IsCurrent ∧
      (∃ r ∈ db.rows "review_jobs", r.id = id) ∧
      (∀ t, c.database.table? "review_jobs" = some t →
        db.table? "review_jobs" = some (t.modify (·.id = id) (Row.assign .jobs (finishing now id target error).cells))) ∧
      (∀ name, name ≠ "review_jobs" → db.table? name = c.database.table? name) ∧ db.indexes = c.database.indexes := by
  obtain ⟨r, hr, rfl, hrun⟩ := stuck?_eq_none_iff.mp h
  obtain ⟨t, ht, hl⟩ := hdb.jobs
  rw [Database.rows_of_table? ht] at hr
  obtain ⟨record, db, hchange, htakes⟩ := change_finishing_of_running ht hl hlock hr hrun now target error
  have hafter := ((finishing_moves now r.id target error).mem_rows_takes hl htakes).2.2.2
  refine ⟨db, ?_, hdb.of_gives htakes.toGives, ⟨_, (hafter _).mpr (Or.inl rfl), rfl⟩, fun u hu => ?_,
    fun name => htakes.table?_of_ne, ?_⟩
  · unfold finish
    rw [hchange]
    rfl
  · cases ht.symm.trans hu
    have hchosen : ∀ x ∈ t.rows, x.hasAll t.layout (finishing now r.id target error).having = decide (x.id = r.id) := by
      intro x hx
      rw [Bool.eq_iff_iff, htakes.only x hx, decide_eq_true_eq]
      exact ⟨fun h => by rw [h], Table.eq_of_id_eq hx hr⟩
    refine htakes.table?_self.trans (congrArg some ?_)
    rw [← hl]
    exact Table.modify_congr hchosen _
  · rw [htakes.database]
    rfl

end Connection

namespace Resolution

variable {c : Connection} {now : Timestamp} {id : Int} {text : ReviewText} {t : Table}

/-- A review that is not kept is not stored. -/
theorem storeReview_of_conflict (hdb : c.database.IsCurrent) (hlock : c.locked = false)
    (hjob : ∃ r ∈ c.database.rows "review_jobs", r.id = id) (ht : c.database.table? "reviews" = some t) {e : StoreError}
    (h : (complete text).conflict? now id t.rows = some e) :
    ∃ f, c.storeReview now id text = .error f ∧ StoreError.ofFault f = e := by
  simp only [conflict?, List.any_eq_true, decide_eq_true_eq] at h
  unfold Connection.storeReview
  split at h
  next htaken =>
    cases h
    rw [Connection.insert_reviewing_of_taken hdb hlock ht htaken]
    exact ⟨_, rfl, rfl⟩
  next hfree =>
    split at h
    · cases h
    next hfar =>
      cases h
      obtain ⟨new, -, hinsert⟩ := Connection.insert_reviewing_of_free hdb hlock ht hjob
        (fun v hv hsame => hfree ⟨v, hv, hsame⟩) now text
      have hread := Review.ofRecord_recordOf_far (Connection.reviewing_holds now id t.nextId text) hfar
      simp only [hinsert, bind, Except.bind, hread]
      exact ⟨_, rfl, rfl⟩

/-- A review that is kept is stored under the next number. -/
theorem storeReview_of_no_conflict (hdb : c.database.IsCurrent) (hlock : c.locked = false)
    (hjob : ∃ r ∈ c.database.rows "review_jobs", r.id = id) (ht : c.database.table? "reviews" = some t)
    (h : (complete text).conflict? now id t.rows = none) : ∃ db,
      c.storeReview now id text = .ok (⟨t.nextId, id, text.agent, text.prompt, text.output, now.readBack⟩, db) ∧
      db.table? "reviews" = some (t.addAll ((complete text).reviews now id)) ∧
      (∀ name, name ≠ "reviews" → db.table? name = c.database.table? name) ∧ db.indexes = c.database.indexes := by
  simp only [conflict?, List.any_eq_true, decide_eq_true_eq] at h
  split at h
  · cases h
  next hfree =>
    split at h
    next hnow =>
      have hl : t.layout = .reviews := hdb.layout_eq (l := .reviews) (by simp [Layout.current]) ht
      obtain ⟨new, hadds, hinsert⟩ := Connection.insert_reviewing_of_free hdb hlock ht hjob
        (fun v hv hsame => hfree ⟨v, hv, hsame⟩) now text
      have hread := Review.ofRecord_recordOf_of_year (Connection.reviewing_holds now id t.nextId text) hnow
      have hgrown : new = t.grow ((Connection.reviewing now id text).row t.layout t.nextId).cells :=
        Table.eq_grow (hadds.inserted (by rw [hl]; decide))
      rw [hl] at hgrown
      refine ⟨c.database.put new, ?_, ?_, fun name => hadds.table?_of_ne, rfl⟩
      · unfold Connection.storeReview
        simp only [hinsert, bind, Except.bind, hread]
        rfl
      · exact hadds.table?_self.trans (congrArg some hgrown)
    · cases h

/-- A refusal leaves what every name means. -/
theorem Leaves.of_agrees {x : Resolution} {db db' : Database} (h : db.Agrees db') (hindexes : db'.indexes = db.indexes) :
    x.Leaves now id false db db' where
  jobs _ ht := (h _).trans ht
  reviews _ ht := (h _).trans ht
  others name _ _ := h name
  indexes := hindexes

/-- What a resolution does that is refused for a reason, or that succeeds if there is none: what it leaves, answers and logs. -/
def Does (x : Resolution) (c : Connection) (now : Timestamp) (id number : Int) (refusal : Option StoreError) : Prop :=
  ∃ db, x.Leaves now id refusal.isNone c.database db ∧
    c.perform now (x.operation id) = match refusal with
      | some e => ⟨.error e, c.on db, []⟩
      | none => ⟨.ok (x.answer now id number), c.on db, x.log id⟩

/-- A failure is refused exactly if its job is stuck. -/
theorem fail_does (hdb : c.database.IsCurrent) (hlock : c.locked = false) (now : Timestamp) (id number : Int) (error : String) :
    (fail error).Does c now id number (c.stuck? id .failed) := by
  cases hstuck : c.stuck? id .failed with
  | some e =>
    obtain ⟨db, hfinish, hagrees, hindexes⟩ := Connection.finish_of_stuck hdb hlock hstuck now (some error)
    refine ⟨db, .of_agrees hagrees hindexes, ?_⟩
    simp only [operation, Connection.perform, Connection.fail, hfinish]
    rfl
  | none =>
    obtain ⟨db, hfinish, -, -, hjobs, hothers, hindexes⟩ := Connection.finish_of_not_stuck hdb hlock hstuck now (some error)
    refine ⟨db, ⟨hjobs, fun u hu => ?_, fun name hn _ => hothers name hn, hindexes⟩, ?_⟩
    · exact (hothers _ (by decide)).trans hu
    · simp only [operation, Connection.perform, Connection.fail, hfinish]
      rfl

/-- A completion is refused if its job is stuck, and else if its review is not kept. -/
theorem complete_does (hdb : c.database.IsCurrent) (hlock : c.locked = false) (ht : c.database.table? "reviews" = some t)
    (now : Timestamp) (id : Int) (text : ReviewText) : (complete text).Does c now id t.nextId
      ((c.stuck? id .done).or ((complete text).conflict? now id t.rows)) := by
  cases hstuck : c.stuck? id .done with
  | some e =>
    obtain ⟨db, hfinish, -⟩ := Connection.finish_of_stuck hdb hlock hstuck now none
    have hrefused : (c.finish now id .done none).answer = .error e := by rw [hfinish]
    refine ⟨c.database, .of_agrees (.refl _) rfl, ?_⟩
    simp only [operation, Connection.perform, Connection.complete_of_refused hdb hlock hrefused]
    rfl
  | none =>
    obtain ⟨done, hfinish, hcurrent, hjob, hjobs, hothers, hindexes⟩ :=
      Connection.finish_of_not_stuck hdb hlock hstuck now none
    have hdone : done.table? "reviews" = some t := (hothers _ (by decide)).trans ht
    rw [Option.none_or]
    cases hconflict : (complete text).conflict? now id t.rows with
    | some e =>
      obtain ⟨f, hstore, rfl⟩ := storeReview_of_conflict (c := c.on done) hcurrent hlock hjob hdone hconflict
      refine ⟨c.database, .of_agrees (.refl _) rfl, ?_⟩
      simp only [operation, Connection.perform, Connection.complete_of_finished hdb hlock hfinish, hstore]
      rfl
    | none =>
      obtain ⟨db, hstore, hreviews, hsame, hindexed⟩ :=
        storeReview_of_no_conflict (c := c.on done) hcurrent hlock hjob hdone hconflict
      refine ⟨db, ⟨fun u hu => ?_, fun u hu => ?_, fun name hn hn' => ?_, hindexed.trans hindexes⟩, ?_⟩
      · exact (hsame _ (by decide)).trans (hjobs u hu)
      · cases ht.symm.trans hu
        exact hreviews
      · exact (hsame name hn').trans (hothers name hn)
      · simp only [operation, Connection.perform, Connection.complete_of_finished hdb hlock hfinish, hstore]
        rfl

/-- What a resolution answers, leaves and logs. -/
theorem does (hdb : c.database.IsCurrent) (ht : c.database.table? "reviews" = some t) (now : Timestamp) (id : Int)
    (x : Resolution) : x.Does c now id t.nextId (x.refusal? c now id) := by
  unfold refusal?
  split
  next hlock =>
    exact ⟨c.database, .of_agrees (.refl _) rfl,
      Connection.perform_of_locked hdb hlock now (by cases x <;> exact trivial)⟩
  next hlock =>
    rw [Database.rows_of_table? ht]
    cases x with
    | complete text => exact complete_does hdb (by simpa using hlock) ht now id text
    | fail error =>
      rw [show (fail error).conflict? now id t.rows = none from rfl, Option.or_none]
      exact fail_does hdb (by simpa using hlock) now id _ error

end Resolution

end ReviewQueue
