import ReviewQueue.Proofs.Queue.Claiming

/-!
# Recovery after a crash

The running jobs that a crash left behind are put back into the queue, each where it was, and nothing else is touched. From then
on claims hand out the jobs that are queued, those that waited and those that were put back alike: each claim takes the first
of them, until there is none.
-/

namespace ReviewQueue

/-- In one table the rows became what `f` makes of them, and all else is as it was. -/
structure Database.Becomes (db db' : Database) (name : String) (f : List Row → List Row) : Prop where
  layout : (db'.table? name).map (·.layout) = (db.table? name).map (·.layout)
  rows : db'.rows name = f (db.rows name)
  others : ∀ other, other ≠ name → db'.table? other = db.table? other
  indexes : db'.indexes = db.indexes

namespace Database

variable {db db' db'' : Database} {name : String} {f g : List Row → List Row}

/-- Databases that agree become one another where nothing is to be done. -/
theorem Becomes.of_agrees (h : db.Agrees db') (hindexes : db'.indexes = db.indexes) (hf : f (db.rows name) = db.rows name) :
    db.Becomes db' name f :=
  ⟨by rw [h name], (rows_congr (h name)).trans hf.symm, fun other _ => h other, hindexes⟩

/-- One change after the other is both. -/
theorem Becomes.trans (h : db.Becomes db' name f) (h' : db'.Becomes db'' name g) :
    db.Becomes db'' name fun rows => g (f rows) where
  layout := h'.layout.trans h.layout
  rows := by rw [h'.rows, h.rows]
  others other hn := (h'.others other hn).trans (h.others other hn)
  indexes := h'.indexes.trans h.indexes

/-- What a table becomes depends on its rows alone. -/
theorem Becomes.congr (h : db.Becomes db' name f) (hfg : f (db.rows name) = g (db.rows name)) : db.Becomes db' name g :=
  ⟨h.layout, h.rows.trans hfg, h.others, h.indexes⟩

/-- A database stays in the current layout. -/
theorem Becomes.isCurrent (h : db.Becomes db' name f) (hdb : db.IsCurrent) : db'.IsCurrent := by
  refine hdb.of_layouts fun other t ht => ?_
  by_cases hn : other = name
  · subst hn
    have hlayout := h.layout
    rw [ht] at hlayout
    exact Option.map_eq_some_iff.mp hlayout
  · exact ⟨t, (h.others other hn).trans ht, rfl⟩

end Database

/-! ## Putting jobs back -/

namespace Row

/-- A job that is put back into the queue. -/
def requeued (r : Row) : Row := r.put [("status", JobStatus.queued.cell), ("worker_id", .null), ("started_at", .null)]

/-- A job after the recovery: it was put back if it was running. -/
def recovered (r : Row) : Row := if r.HasStatus .running then r.requeued else r

variable {r : Row}

/-- The cells that queue a running job again are those of a job that waits. -/
theorem given_requeueing (r : Row) : r.given .jobs Connection.requeueing.cells = r.requeued := by
  refine given_eq_put (by decide) (by decide) ?_ r
  simp only [Connection.requeueing, List.forall_mem_cons]
  exact ⟨Layout.takes_text (by decide) rfl, Layout.takes_text (by decide) rfl, Layout.takes_text (by decide) rfl,
    List.forall_mem_nil _⟩

/-- A job that was queued again is queued. -/
theorem requeued_hasStatus (h : r.HasStatus .running) : r.requeued.HasStatus .queued := by
  rw [← given_requeueing]
  exact Connection.requeueing_moves.gives r h

/-- Null is read where null was put, whether there was a cell or not. -/
theorem cell_put_null {cells : List (String × Cell)} {name : String} (h : cells.lookup name = some .null) :
    (r.put cells).cell name = .null := by
  unfold cell
  rw [lookup_put, h]
  cases r.cells.lookup name <;> rfl

/-- A job that is put back has no worker and has not started, and keeps all that does not go with its status. -/
theorem requeued_cells (r : Row) : r.requeued.id = r.id ∧ r.requeued.cell "worker_id" = .null ∧
    r.requeued.cell "started_at" = .null ∧ ∀ name, name ∉ ["status", "worker_id", "started_at"] →
      r.requeued.cell name = r.cell name := by
  refine ⟨rfl, cell_put_null rfl, cell_put_null rfl, fun name hname => cell_put_of_none r ?_⟩
  rw [List.lookup_eq_none_iff]
  rintro ⟨other, x⟩ hx
  have hother : other ∈ ["status", "worker_id", "started_at"] := List.mem_map_of_mem (f := Prod.fst) hx
  rw [bne_iff_ne]
  rintro rfl
  exact hname hother

/-- After the recovery a job is queued if it was, or was running. -/
theorem recovered_hasStatus_queued : r.recovered.HasStatus .queued ↔ r.HasStatus .queued ∨ r.HasStatus .running := by
  unfold recovered
  split
  next h => exact ⟨fun _ => Or.inr h, fun _ => requeued_hasStatus h⟩
  next h => exact ⟨Or.inl, fun hr => hr.resolve_right h⟩

/-- After the recovery no job is running. -/
theorem recovered_not_running : ¬r.recovered.HasStatus .running := by
  unfold recovered
  split
  next h => exact fun hr => by cases hr.inj (requeued_hasStatus h)
  next h => exact h

/-- Recovery keeps the numbers. -/
theorem recovered_id (r : Row) : r.recovered.id = r.id := by
  unfold recovered
  split <;> rfl

end Row

namespace Connection

variable {c : Connection} {t : Table}

/-- Putting jobs back chooses those that are running. -/
theorem hasAll_requeueing (hl : t.layout = .jobs) (r : Row) : r.hasAll t.layout requeueing.having = decide (r.HasStatus .running) := by
  rw [hl]
  exact r.hasAll_status .running

/-- Queueing the running jobs again recovers each row. -/
theorem rows_requeueing (hl : t.layout = .jobs) : (requeueing.inPlace t).2.rows = t.rows.map Row.recovered := by
  rw [Change.inPlace_snd_rows]
  refine List.map_congr_left fun r _ => ?_
  rw [hasAll_requeueing hl, hl, Row.given_requeueing, Row.recovered]
  simp only [decide_eq_true_eq]

/-- Jobs that were put back are left by putting jobs back again. -/
theorem inPlace_requeueing_again (hl : t.layout = .jobs) :
    requeueing.inPlace (requeueing.inPlace t).2 = ([], (requeueing.inPlace t).2) := by
  refine Change.inPlace_of_forall_not fun r hr => ?_
  rw [rows_requeueing hl] at hr
  obtain ⟨x, -, rfl⟩ := List.mem_map.mp hr
  rw [hasAll_requeueing (t := (requeueing.inPlace t).2) hl]
  exact decide_eq_false Row.recovered_not_running

/-- What putting jobs back answers, and the database that it leaves. -/
theorem resetStale_eq (hlock : c.locked = false) (ht : c.database.table? "review_jobs" = some t) (hl : t.layout = .jobs) :
    ∃ log, c.resetStale =
        ⟨.ok (requeueing.inPlace t).1.length, c.on (c.database.put (requeueing.inPlace t).2), log⟩ ∧
      ((requeueing.inPlace t).1 = [] → log = []) := by
  obtain ⟨hchange, -⟩ := change_moves requeueing_moves ht hl
  rw [hlock, if_neg Bool.false_ne_true] at hchange
  unfold resetStale
  rw [hchange]
  simp only [List.length_map]
  exact ⟨_, rfl, fun hnone => by rw [hnone]; rfl⟩

/-- What putting jobs back answers, what it makes of the jobs, and that doing it again changes nothing. -/
theorem resetStale_becomes (hdb : c.database.IsCurrent) (hlock : c.locked = false) :
    c.resetStale.answer = .ok ((c.database.rows "review_jobs").filter (·.HasStatus .running)).length ∧
    c.resetStale.connection = c.on c.resetStale.connection.database ∧
    c.database.Becomes c.resetStale.connection.database "review_jobs" (List.map Row.recovered) ∧
    c.resetStale.connection.resetStale = ⟨.ok 0, c.resetStale.connection, []⟩ := by
  obtain ⟨t, ht, hl⟩ := hdb.jobs
  obtain ⟨-, hgives⟩ := change_moves (c := c) requeueing_moves ht hl
  obtain ⟨log, hreset, -⟩ := resetStale_eq hlock ht hl
  generalize hput : c.database.put (requeueing.inPlace t).2 = db at hgives hreset
  have hself : db.table? "review_jobs" = some (requeueing.inPlace t).2 := hgives.table?_self
  rw [hreset]
  refine ⟨?_, rfl, ⟨?_, ?_, fun other hn => hgives.table?_of_ne hn, ?_⟩, ?_⟩
  · rw [Database.rows_of_table? ht, Change.inPlace_fst, List.length_map]
    simp only [hasAll_requeueing hl]
  · rw [ht]
    exact congrArg (Option.map (·.layout)) hself
  · rw [Database.rows_of_table? ht]
    exact (Database.rows_of_table? hself).trans (rows_requeueing hl)
  · rw [← hput]
    rfl
  · obtain ⟨log', hagain, hlog⟩ := resetStale_eq (c := c.on db) hlock hself hl
    rw [inPlace_requeueing_again hl] at hagain hlog
    have hsame : db.put (requeueing.inPlace t).2 = db := by rw [← hput, Database.put_put rfl]
    refine hagain.trans ?_
    rw [hlog rfl]
    simp only [on, hsame]
    rfl

end Connection

/-! ## Handing out the queue -/

/-- A claim that was made: who made it, and when. -/
structure Claim where
  worker : String
  now : Timestamp
  deriving DecidableEq, Repr

/-- A queued job that is handed out to a claim. -/
def Row.handed (r : Row) (x : Claim) : Row :=
  r.put [("status", JobStatus.running.cell), ("worker_id", .ofString x.worker), ("started_at", .ofString x.now.stored)]

/-- Jobs once they were handed out to some claims: the first queued job to the first claim, and so on. -/
def handOut : List Row → List Claim → List Row
  | [], _ => []
  | r :: rows, [] => r :: rows
  | r :: rows, x :: claims =>
    if r.HasStatus .queued then r.handed x :: handOut rows claims else r :: handOut rows (x :: claims)

/-- What a claim is answered that finds a job first in the queue, or finds none. -/
def Claim.answer (x : Claim) : Option Row → Except StoreError Answer
  | none => .ok .absent
  | some r => (liftFault (Job.ofRecord (Job.recordOf (r.handed x)))).map .job

/-- What some claims are answered, one after the other, to which the jobs of a queue are handed out. -/
def handOutAnswers : List Row → List Claim → List (Except StoreError Answer)
  | _, [] => []
  | queue, x :: claims => x.answer queue.head? :: handOutAnswers queue.tail claims

/-- A job that was handed out is running, -/
theorem Row.handed_hasStatus {r : Row} (h : r.HasStatus .queued) (x : Claim) : (r.handed x).HasStatus .running := by
  have hgives := (Connection.claiming_moves .empty x.now x.worker).gives r h
  rw [Connection.given_claiming] at hgives
  exact hgives

/-- and not queued. -/
theorem Row.handed_not_queued {r : Row} (h : r.HasStatus .queued) (x : Claim) : ¬(r.handed x).HasStatus .queued := fun hr => by
  cases hr.inj (r.handed_hasStatus h x)

section

variable {rows : List Row}

theorem handOut_nil (rows : List Row) : handOut rows [] = rows := by cases rows <;> rfl

/-- The first claim takes the first queued job. -/
theorem handOut_cons_queued {r : Row} (h : r.HasStatus .queued) (rows : List Row) (x : Claim) (claims : List Claim) :
    handOut (r :: rows) (x :: claims) = r.handed x :: handOut rows claims := by
  rw [handOut, if_pos h]

/-- Jobs that are not queued are passed over. -/
theorem handOut_cons_other {r : Row} (h : ¬r.HasStatus .queued) (rows : List Row) (claims : List Claim) :
    handOut (r :: rows) claims = r :: handOut rows claims := by
  cases claims with
  | nil => rw [handOut, handOut_nil]
  | cons x claims => rw [handOut, if_neg h]

/-- Where no job is queued none is handed out. -/
theorem handOut_of_none (h : ∀ r ∈ rows, ¬r.HasStatus .queued) (claims : List Claim) : handOut rows claims = rows := by
  induction rows with
  | nil => rfl
  | cons r rows ih =>
    rw [List.forall_mem_cons] at h
    rw [handOut_cons_other h.1, ih h.2]

/-- Jobs that are not queued are passed over. -/
theorem handOut_append {passed : List Row} (h : ∀ r ∈ passed, ¬r.HasStatus .queued) (rows : List Row) (claims : List Claim) :
    handOut (passed ++ rows) claims = passed ++ handOut rows claims := by
  induction passed with
  | nil => rfl
  | cons r passed ih =>
    rw [List.forall_mem_cons] at h
    rw [List.cons_append, handOut_cons_other h.1, ih h.2, List.cons_append]

/-- The claims are served one by one. -/
theorem handOut_cons (rows : List Row) (x : Claim) (claims : List Claim) :
    handOut rows (x :: claims) = handOut (handOut rows [x]) claims := by
  induction rows with
  | nil => rfl
  | cons r rows ih =>
    by_cases h : r.HasStatus .queued
    · rw [handOut_cons_queued h, handOut_cons_queued h, handOut_cons_other (r.handed_not_queued h x), handOut_nil]
    · rw [handOut_cons_other h, handOut_cons_other h, handOut_cons_other h, ih]

/-- What is left in the queue: all but as many of the first jobs as there were claims. -/
theorem filter_queued_handOut (rows : List Row) (claims : List Claim) :
    (handOut rows claims).filter (·.HasStatus .queued) = (rows.filter (·.HasStatus .queued)).drop claims.length := by
  induction rows generalizing claims with
  | nil => simp [handOut]
  | cons r rows ih =>
    by_cases h : r.HasStatus .queued
    · cases claims with
      | nil => rw [handOut_nil, List.length_nil, List.drop_zero]
      | cons x claims =>
        rw [handOut_cons_queued h, List.filter_cons_of_neg (by simpa using r.handed_not_queued h x), ih,
          List.filter_cons_of_pos (by simpa using h), List.length_cons, List.drop_succ_cons]
    · rw [handOut_cons_other h, List.filter_cons_of_neg (by simpa using h), ih, List.filter_cons_of_neg (by simpa using h)]

/-- Where no job was running, those that are running then are the first of the queue, each with its claim. -/
theorem filter_running_handOut (hnone : ∀ r ∈ rows, ¬r.HasStatus .running) (claims : List Claim) :
    (handOut rows claims).filter (·.HasStatus .running) =
      List.zipWith Row.handed (rows.filter (·.HasStatus .queued)) claims := by
  induction rows generalizing claims with
  | nil => simp [handOut]
  | cons r rows ih =>
    have hrest := ih (List.forall_mem_cons.mp hnone).2
    have hr := (List.forall_mem_cons.mp hnone).1
    by_cases h : r.HasStatus .queued
    · cases claims with
      | nil =>
        rw [handOut_nil, List.zipWith_nil_right]
        exact List.filter_eq_nil_iff.mpr fun x hx => by simpa using hnone x hx
      | cons x claims =>
        rw [handOut_cons_queued h, List.filter_cons_of_pos (by simpa using r.handed_hasStatus h x), hrest,
          List.filter_cons_of_pos (by simpa using h), List.zipWith_cons_cons]
    · rw [handOut_cons_other h, List.filter_cons_of_neg (by simpa using hr), hrest,
        List.filter_cons_of_neg (by simpa using h)]

end

/-- A claim hands the first queued job out. -/
theorem Connection.claim_becomes {c : Connection} (hdb : c.database.IsCurrent) (hlock : c.locked = false) (x : Claim) :
    c.database.Becomes (c.claim x.now x.worker).connection.database "review_jobs" (handOut · [x]) ∧
      (c.perform x.now (.claim x.worker)).answer =
        x.answer ((c.database.rows "review_jobs").filter (·.HasStatus .queued)).head? := by
  obtain ⟨t, ht, -⟩ := hdb.jobs
  have hanswer : (c.perform x.now (.claim x.worker)).answer = (c.claim x.now x.worker).answer.map (.ofOption .job) := rfl
  rw [hanswer, List.head?_filter]
  by_cases hqueued : ∃ r ∈ c.database.rows "review_jobs", r.HasStatus .queued
  · obtain ⟨r, hr⟩ := Database.NextQueued.exists_of_queued ht hqueued
    obtain ⟨hsplices, hread⟩ :
        c.database.Splices (c.claim x.now x.worker).connection.database "review_jobs" [r] [r.handed x] ∧
          (c.claim x.now x.worker).answer = liftFault ((Job.ofRecord (Job.recordOf (r.handed x))).map some) :=
      claim_of_next hdb hlock x.now x.worker hr
    have hfind := hr.find?_eq ht
    obtain ⟨passed, rest, hbefore, hafter⟩ := hsplices.rows
    -- the rows that stand before the job have smaller numbers, so none of them is queued
    have hpassed : ∀ y ∈ passed, ¬y.HasStatus .queued := by
      intro y hy hyqueued
      have hasc := t.ascending
      rw [← Database.rows_of_table? ht, hbefore, List.append_assoc] at hasc
      have hlt := (List.pairwise_append.mp hasc).2.2 y hy r (by simp)
      have hle := hr.least y (by rw [hbefore]; simp [hy]) hyqueued
      omega
    refine ⟨⟨hsplices.layout, ?_, hsplices.others, hsplices.indexes⟩, ?_⟩
    · rw [hafter, hbefore, List.append_assoc, List.append_assoc, handOut_append hpassed, List.singleton_append,
        List.singleton_append, handOut_cons_queued hr.queued, handOut_nil]
    · rw [Database.rows_of_table? ht, hfind, hread]
      simp only [Claim.answer]
      cases Job.ofRecord (Job.recordOf (r.handed x)) <;> rfl
  · push Not at hqueued
    obtain ⟨db, hclaim, hagrees, hindexes⟩ := claim_of_none_queued hdb hlock x.now x.worker hqueued
    rw [hclaim]
    refine ⟨.of_agrees hagrees hindexes (handOut_of_none hqueued [x]), ?_⟩
    rw [List.find?_eq_none.mpr (by simpa using hqueued)]
    rfl

/-! ## Runs -/

/-- Who makes a claim, if an operation is one. -/
def Operation.worker? : Operation → Option String
  | .claim worker => some worker
  | _ => none

/-- A claim is one statement, so a call that is a claim has nothing behind it. -/
theorem Call.eq_asked_claim {call : Call} {worker : String} (h : call.operation.worker? = some worker) :
    call = .asked (.claim worker) := by
  cases call with
  | asked op => cases op <;> cases h; rfl
  | _ => cases h

namespace Site

/-- The claims that are made in the course of some actions, in their order. -/
def claims : Site → List Action → List Claim
  | _, [] => []
  | w, a :: as => ((w.call a).operation.worker?.map (Claim.mk · a.now)).toList ++ claims (w.step a).1 as

/-- Until the next write that is no claim: whatever else happens leaves the database. -/
def OnlyClaims : Site → List Action → Prop
  | _, [] => True
  | w, a :: as => ((w.call a).operation.worker? = none → (w.step a).1.database = w.database) ∧ OnlyClaims (w.step a).1 as

/-- What the claims of a run answer. -/
def claimAnswers (w : Site) (as : List Action) : List (Except StoreError Answer) :=
  ((w.history as).filter fun e => e.operation.worker?.isSome).map (·.answer)

section

variable {w : Site} {a : Action}

/-- The claims of a run are that of its first action, if it is one, and those of the rest. -/
theorem claims_cons (w : Site) (a : Action) (as : List Action) :
    w.claims (a :: as) = ((w.call a).operation.worker?.map (Claim.mk · a.now)).toList ++ (w.step a).1.claims as := rfl

/-- So are the answers. -/
theorem claimAnswers_cons (w : Site) (a : Action) (as : List Action) :
    w.claimAnswers (a :: as) =
      ((w.step a).2.toList.filter fun e => e.operation.worker?.isSome).map (·.answer) ++ (w.step a).1.claimAnswers as := by
  unfold claimAnswers
  rw [history, List.filter_append, List.map_append]

/-- A statement of another call answers no claim. -/
theorem filter_event_of_other (h : (w.call a).operation.worker? = none) :
    (w.step a).2.toList.filter (fun e => e.operation.worker?.isSome) = [] := by
  rw [List.filter_eq_nil_iff]
  intro e he
  have hop := (step_event.mp (Option.mem_toList.mp he)).2.2
  rw [hop, h]
  simp

/-- A claim is answered by its one statement. -/
theorem step_of_claim {worker : String} (h : (w.call a).operation.worker? = some worker) :
    (w.step a).1.database = ((w.connection a).claim a.now worker).connection.database ∧
      (w.step a).2 = some ⟨a.handle, .claim worker, ((w.connection a).perform a.now (.claim worker)).answer⟩ := by
  have hcall := Call.eq_asked_claim h
  rw [step_database, step_event?, hcall]
  exact ⟨rfl, rfl⟩

/-- While only claims write, they hand out the queue: the jobs become what is left of them, and each claim answers the job that
it took. -/
theorem hands_out (hdb : w.database.IsCurrent) {as : List Action} (hfree : ∀ a ∈ as, a.locked = false)
    (honly : w.OnlyClaims as) :
    w.database.Becomes (w.after as).database "review_jobs" (handOut · (w.claims as)) ∧
      w.claimAnswers as =
        handOutAnswers ((w.database.rows "review_jobs").filter (·.HasStatus .queued)) (w.claims as) := by
  induction as generalizing w with
  | nil => exact ⟨.of_agrees (.refl _) rfl (handOut_nil _), by cases (w.database.rows "review_jobs").filter _ <;> rfl⟩
  | cons a as ih =>
    rw [List.forall_mem_cons] at hfree
    obtain ⟨hquiet, hrest⟩ := honly
    rw [claimAnswers_cons, claims_cons]
    cases hworker : (w.call a).operation.worker? with
    | none =>
      have hsame := hquiet hworker
      have hlater := ih (by rw [hsame]; exact hdb) hfree.2 hrest
      rw [hsame] at hlater
      rw [filter_event_of_other hworker]
      exact hlater
    | some worker =>
      obtain ⟨hdatabase, hevent⟩ := step_of_claim hworker
      obtain ⟨hbecomes, hanswer⟩ := Connection.claim_becomes (c := w.connection a) hdb hfree.1 ⟨worker, a.now⟩
      have hnow : w.database.Becomes (w.step a).1.database "review_jobs" (handOut · [⟨worker, a.now⟩]) := by
        rw [hdatabase]
        exact hbecomes
      obtain ⟨hlater, hanswers⟩ := ih (hnow.isCurrent hdb) hfree.2 hrest
      refine ⟨(hnow.trans hlater).congr (handOut_cons _ _ _).symm, ?_⟩
      rw [hanswers, hnow.rows, filter_queued_handOut, hevent, List.length_singleton, List.drop_one]
      exact congrArg₂ List.cons hanswer rfl

end

end Site

open Row in
/-- Recovery is exact and is made once. A connection in the current layout finds the lock free and puts the running jobs back,
whatever the rows. In three parts:
1. The answer is the number of running jobs. Each of them is queued then, has no worker and has not started, and keeps its number
   and its other cells. All other rows are as they were, and so is everything else in the database.
2. Putting jobs back again directly afterwards answers 0 and changes nothing.
3. The queue is then made of the jobs that were queued and those that were running, in ascending order of their numbers. Until the
   next write that is no claim, whatever calls are under way and whichever handles act, the claims hand it out: the jobs that are
   running are the first of the queue, each with the claim that took it, the others are still queued, every other row is as it
   was, and each claim answers its job as it is read then, or that there is none once the queue is empty. -/
theorem recovery_exact (c : Connection) (hdb : c.database.IsCurrent) (hlock : c.locked = false) :
    let jobs := c.database.rows "review_jobs"
    let o := c.resetStale
    let queue := (jobs.filter fun r => r.HasStatus .queued ∨ r.HasStatus .running).map recovered
    (o.answer = .ok (jobs.filter (·.HasStatus .running)).length ∧ o.connection = c.on o.connection.database ∧
      c.database.Becomes o.connection.database "review_jobs" (List.map recovered) ∧
      ∀ r : Row, (¬r.HasStatus .running → r.recovered = r) ∧ (r.HasStatus .running → r.recovered.HasStatus .queued ∧
        r.recovered.id = r.id ∧ r.recovered.cell "worker_id" = .null ∧ r.recovered.cell "started_at" = .null ∧
        ∀ name, name ∉ ["status", "worker_id", "started_at"] → r.recovered.cell name = r.cell name)) ∧
    o.connection.resetStale = ⟨.ok 0, o.connection, []⟩ ∧
    (queue.map (·.id)).Pairwise (· < ·) ∧
    ∀ (calls : Nat → Option Call) (as : List Action), (∀ a ∈ as, a.locked = false) →
      let w : Site := ⟨o.connection.database, calls⟩
      w.OnlyClaims as →
        let later := (w.after as).database
        w.database.Becomes later "review_jobs" (handOut · (w.claims as)) ∧
        (later.rows "review_jobs").filter (·.HasStatus .running) = List.zipWith handed queue (w.claims as) ∧
        (later.rows "review_jobs").filter (·.HasStatus .queued) = queue.drop (w.claims as).length ∧
        w.claimAnswers as = handOutAnswers queue (w.claims as) := by
  intro jobs o queue
  obtain ⟨hanswer, hconnection, hbecomes, hagain⟩ := Connection.resetStale_becomes hdb hlock
  have hrows : o.connection.database.rows "review_jobs" = jobs.map recovered := hbecomes.rows
  have hqueue : (o.connection.database.rows "review_jobs").filter (·.HasStatus .queued) = queue := by
    rw [hrows, List.filter_map]
    simp only [Function.comp_def, recovered_hasStatus_queued]
    rfl
  have hnone : ∀ r ∈ o.connection.database.rows "review_jobs", ¬r.HasStatus .running := by
    rw [hrows]
    intro r hr
    obtain ⟨x, -, rfl⟩ := List.mem_map.mp hr
    exact recovered_not_running
  refine ⟨⟨hanswer, hconnection, hbecomes, fun r => ⟨fun hr => if_neg hr, fun hr => ?_⟩⟩, hagain, ?_,
    fun calls as hfree => ?_⟩
  · rw [recovered, if_pos hr]
    exact ⟨requeued_hasStatus hr, requeued_cells r⟩
  · obtain ⟨t, ht, -⟩ := hdb.jobs
    have hids : queue.map (·.id) = (jobs.filter fun r => r.HasStatus .queued ∨ r.HasStatus .running).map (·.id) := by
      rw [List.map_map]
      exact List.map_congr_left fun r _ => r.recovered_id
    rw [hids, List.pairwise_map, show jobs = t.rows from Database.rows_of_table? ht]
    exact t.ascending.filter _
  · intro w honly later
    obtain ⟨hlater, hanswers⟩ := Site.hands_out (w := w) (hbecomes.isCurrent hdb) hfree honly
    refine ⟨hlater, ?_, ?_, ?_⟩
    · rw [hlater.rows, filter_running_handOut hnone, hqueue]
    · rw [hlater.rows, filter_queued_handOut, hqueue]
    · rw [hanswers, hqueue]

/-- A job that is done, one that a worker left behind at a time that cannot be read, and one that waits. -/
def Database.crashedJobs : Database := Database.current.put
  ⟨.jobs, [Connection.jobWith 1 [("status", JobStatus.done.cell)],
    Connection.jobWith 3 [("status", JobStatus.running.cell), ("started_at", .blob [0xFF]), ("worker_id", .ofString "gone")],
    Connection.jobWith 4 []], by decide, by decide⟩

/-- Three claims take the job that was left behind, then the one that waited, and then find none. -/
theorem recovery_exact_crashedJobs :
    let o := (Connection.mk .crashedJobs true false).resetStale
    let w : Site := ⟨o.connection.database, fun _ => none⟩
    let as := [Action.mk 0 (.claim "w") .epoch false, ⟨1, .claim "v", .epoch, false⟩, ⟨0, .claim "w", .epoch, false⟩]
    Database.crashedJobs.IsCurrent ∧ w.OnlyClaims as ∧ o.answer = .ok 1 ∧ o.connection.resetStale.answer = .ok 0 ∧
    (((w.after as).database.rows "review_jobs").filter (·.HasStatus .running)).map (·.id) = [3, 4] ∧
    (w.claimAnswers as)[2]? = some (.ok .absent) := by
  intro o w as
  have hdb : Database.crashedJobs.IsCurrent := by decide
  have honly : w.OnlyClaims as := ⟨fun h => (Option.some_ne_none "w" h).elim, fun h => (Option.some_ne_none "v" h).elim,
    fun h => (Option.some_ne_none "w" h).elim, trivial⟩
  obtain ⟨⟨hanswer, -⟩, hagain, -, hclaims⟩ := recovery_exact ⟨.crashedJobs, true, false⟩ hdb rfl
  obtain ⟨-, hrunning, -, hanswers⟩ := hclaims (fun _ => none) as (by decide) honly
  refine ⟨hdb, honly, hanswer, congrArg Outcome.answer hagain, ?_, ?_⟩
  · rw [hrunning]
    rfl
  · rw [hanswers]
    rfl

end ReviewQueue
