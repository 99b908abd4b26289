import ReviewQueue.Proofs.Queue.Decoding
import ReviewQueue.Proofs.Queue.Effects
import ReviewQueue.Proofs.Store.Contention
import ReviewQueue.Proofs.Store.Splices

/-!
# What a claim moves

A claim moves the queued job of the smallest number and touches no other row. The job is moved before it is read, so a job
that cannot be read is moved all the same, and its fault is the answer. No other row has a part in either, whatever its cells
are.
-/

namespace ReviewQueue

/-- A row is that of the job that is next to be claimed: of the queued jobs it has the smallest number. -/
structure Database.NextQueued (db : Database) (r : Row) : Prop where
  mem : r ∈ db.rows "review_jobs"
  queued : r.HasStatus .queued
  least : ∀ x ∈ db.rows "review_jobs", x.HasStatus .queued → r.id ≤ x.id

/-- The first row of a table with some property has the smallest number of those with it. -/
theorem Table.le_of_find? {t : Table} {p : Row → Bool} {r : Row} (h : t.rows.find? p = some r) :
    ∀ x ∈ t.rows, p x = true → r.id ≤ x.id := by
  intro x hx hp
  obtain ⟨-, as, bs, hrows, has⟩ := List.find?_eq_some_iff_append.mp h
  have hasc := t.ascending
  rw [hrows] at hx hasc
  obtain ⟨-, hrest, -⟩ := List.pairwise_append.mp hasc
  rcases List.mem_append.mp hx with hx | hx
  · have hnot := has x hx
    simp [hp] at hnot
  · rcases List.mem_cons.mp hx with rfl | hx
    · exact Int.le_refl _
    · exact Int.le_of_lt ((List.pairwise_cons.mp hrest).1 x hx)

namespace Database.NextQueued

variable {db : Database} {r r' : Row}

/-- At most one job is next. -/
theorem unique (h : db.NextQueued r) (h' : db.NextQueued r') : r = r' := by
  have hle := h.least r' h'.mem h'.queued
  have hge := h'.least r h.mem h.queued
  exact rows_eq_of_id_eq h.mem h'.mem (Int.le_antisymm hle hge)

theorem of_find? {t : Table} (ht : db.table? "review_jobs" = some t) (h : t.rows.find? (·.HasStatus .queued) = some r) :
    db.NextQueued r := by
  refine ⟨?_, ?_, ?_⟩
  · rw [rows_of_table? ht]
    exact List.mem_of_find?_eq_some h
  · simpa using List.find?_some h
  · intro x hx hqueued
    rw [rows_of_table? ht] at hx
    exact Table.le_of_find? h x hx (decide_eq_true hqueued)

/-- Where some job is queued, one is next. -/
theorem exists_of_queued {t : Table} (ht : db.table? "review_jobs" = some t)
    (h : ∃ r ∈ db.rows "review_jobs", r.HasStatus .queued) : ∃ r, db.NextQueued r := by
  rw [rows_of_table? ht] at h
  have hfound : (t.rows.find? (·.HasStatus .queued)).isSome := by simpa [List.find?_isSome] using h
  obtain ⟨r, hr⟩ := Option.isSome_iff_exists.mp hfound
  exact ⟨r, of_find? ht hr⟩

/-- The job that is next is the first queued row. -/
theorem find?_eq {t : Table} (h : db.NextQueued r) (ht : db.table? "review_jobs" = some t) :
    t.rows.find? (·.HasStatus .queued) = some r := by
  have hmem := h.mem
  rw [rows_of_table? ht] at hmem
  have hfound : (t.rows.find? (·.HasStatus .queued)).isSome := by
    simpa [List.find?_isSome] using ⟨r, hmem, h.queued⟩
  obtain ⟨x, hx⟩ := Option.isSome_iff_exists.mp hfound
  rw [hx, unique (of_find? ht hx) h]

end Database.NextQueued

namespace Connection

variable {c : Connection}

/-- What a claim gives to its job: the status, the worker and the time. -/
theorem given_claiming (db : Database) (now : Timestamp) (worker : String) (r : Row) :
    r.given .jobs (claiming db now worker).cells =
      r.put [("status", JobStatus.running.cell), ("worker_id", .ofString worker), ("started_at", .ofString now.stored)] := by
  refine Row.given_eq_put (by decide) (by decide) ?_ r
  simp only [claiming, List.forall_mem_cons]
  exact ⟨Layout.takes_text (by decide) rfl, Layout.takes_text (by decide) rfl, Layout.takes_text (by decide) rfl,
    List.forall_mem_nil _⟩

/-- A claim that finds no job queued answers that there is none and changes nothing. -/
theorem claim_of_none_queued (hdb : c.database.IsCurrent) (hlock : c.locked = false) (now : Timestamp) (worker : String)
    (hnone : ∀ r ∈ c.database.rows "review_jobs", ¬r.HasStatus .queued) :
    ∃ db, c.claim now worker = ⟨.ok none, c.on db, []⟩ ∧ c.database.Agrees db ∧ db.indexes = c.database.indexes := by
  obtain ⟨t, ht, hl⟩ := hdb.jobs
  rw [Database.rows_of_table? ht] at hnone
  have hfind : t.rows.find? (·.HasStatus .queued) = none := List.find?_eq_none.mpr (by simpa using hnone)
  have hchosen := claiming_none ht hl hfind now worker
  obtain ⟨hchange, hgives⟩ := change_moves (claiming_moves c.database now worker) ht hl
  rw [hlock, if_neg Bool.false_ne_true] at hchange
  refine ⟨_, ?_, agrees_of_forall_not hgives hchosen, rfl⟩
  unfold claim
  rw [hchange, Change.inPlace_of_forall_not hchosen]
  rfl

/-- A claim moves the job that is next and answers it as it is read then. -/
theorem claim_of_next (hdb : c.database.IsCurrent) (hlock : c.locked = false) (now : Timestamp) (worker : String) {r : Row}
    (hr : c.database.NextQueued r) :
    let moved := r.put [("status", JobStatus.running.cell), ("worker_id", .ofString worker), ("started_at", .ofString now.stored)]
    c.database.Splices (c.claim now worker).connection.database "review_jobs" [r] [moved] ∧
      (c.claim now worker).answer = liftFault ((Job.ofRecord (Job.recordOf moved)).map some) := by
  intro moved
  obtain ⟨t, ht, hl⟩ := hdb.jobs
  have hfind := hr.find?_eq ht
  have hmem := List.mem_of_find?_eq_some hfind
  have honly := claiming_only ht hl hfind now worker
  obtain ⟨hchange, hgives⟩ := change_moves (claiming_moves c.database now worker) ht hl
  have htakes : (claiming c.database now worker).Takes c.database t r _ := ⟨hgives, hmem, honly⟩
  have hsplices := htakes.splices
  rw [hl, given_claiming] at hsplices
  rw [hlock, if_neg Bool.false_ne_true, Change.inPlace_fst_of_only hmem honly, hl, given_claiming] at hchange
  have hanswer : c.change (claiming c.database now worker) = .ok ([Job.recordOf moved], _) := hchange
  unfold claim
  rw [hanswer]
  cases hread : Job.ofRecord (Job.recordOf moved) with
  | error f =>
    simp only [hread]
    exact ⟨hsplices, rfl⟩
  | ok job =>
    simp only [hread]
    exact ⟨hsplices, rfl⟩

end Connection

/-- What a claim does, in three parts, for a connection in the current layout that finds the lock free, whatever the rows.
1. Where no job is queued, the answer is that there is none, and nothing changes.
2. Where some job is queued, the one of the smallest number has the status, the worker and the time put in place of the
   cells that it had there, and all else is as it was. The answer is the job that is read then; if it cannot be read, the
   answer is the fault of the first column that cannot.
3. The answer is the same wherever the same job is next: no other row has a part in it. -/
theorem claim_moves_next (c : Connection) (hdb : c.database.IsCurrent) (hlock : c.locked = false) (now : Timestamp)
    (worker : String) :
    let after := c.claim now worker
    ((∀ r ∈ c.database.rows "review_jobs", ¬r.HasStatus .queued) →
      after.answer = .ok none ∧ c.database.Agrees after.connection.database ∧
      after.connection.database.indexes = c.database.indexes) ∧
    ((∃ r ∈ c.database.rows "review_jobs", r.HasStatus .queued) → ∃ r, c.database.NextQueued r ∧
      let moved := r.put
        [("status", JobStatus.running.cell), ("worker_id", .ofString worker), ("started_at", .ofString now.stored)]
      c.database.Splices after.connection.database "review_jobs" [r] [moved] ∧
      ((∃ j, Job.ofRecord (Job.recordOf moved) = .ok j ∧ after.answer = .ok (some j)) ∨
        ∃ f, Job.FirstFault (Job.recordOf moved) f ∧ after.answer = .error (.fault f))) ∧
    (∀ other : Connection, other.database.IsCurrent → other.locked = false →
      ∀ r, c.database.NextQueued r → other.database.NextQueued r → (other.claim now worker).answer = after.answer) := by
  intro after
  refine ⟨?_, ?_, ?_⟩
  · intro hnone
    obtain ⟨db, hclaim, hagrees, hindexes⟩ := Connection.claim_of_none_queued hdb hlock now worker hnone
    have hafter : after = ⟨.ok none, c.on db, []⟩ := hclaim
    rw [hafter]
    exact ⟨rfl, hagrees, hindexes⟩
  · intro hsome
    obtain ⟨t, ht, -⟩ := hdb.jobs
    obtain ⟨r, hr⟩ := Database.NextQueued.exists_of_queued ht hsome
    obtain ⟨hsplices, hanswer⟩ := Connection.claim_of_next hdb hlock now worker hr
    refine ⟨r, hr, hsplices, ?_⟩
    simp only [after, hanswer]
    generalize r.put _ = moved
    cases hread : Job.ofRecord (Job.recordOf moved) with
    | ok j => exact Or.inl ⟨j, rfl, rfl⟩
    | error f =>
      refine Or.inr ⟨f, Job.ofRecord_eq_error_iff.mp hread, ?_⟩
      have hwaits : f.isContention = false := Job.ofRecord_neverWaits _ f hread
      simp [Except.map, liftFault, StoreError.ofFault, hwaits]
  · intro other hother hfree r hr hr'
    rw [(Connection.claim_of_next hother hfree now worker hr').2]
    exact (Connection.claim_of_next hdb hlock now worker hr).2.symm

/-- A database with a job of a status that is none, a queued job of which the time at which it was queued is no text, and a queued
job after it. -/
def Database.strayJobs : Database := Database.current.put
  ⟨.jobs, [Connection.jobWith 1 [("status", .ofString "lost")], Connection.jobWith 3 [("enqueued_at", .blob [0xFF])],
    Connection.jobWith 4 []], by decide, by decide⟩

/-- The queued job of the smallest number is moved, though it cannot be read. -/
theorem claim_moves_next_strayJobs :
    Database.strayJobs.IsCurrent ∧ (∃ r ∈ Database.strayJobs.rows "review_jobs", r.HasStatus .queued) ∧
    ∃ r, Database.strayJobs.NextQueued r ∧ Database.strayJobs.Splices
      ((Connection.mk Database.strayJobs true false).claim .epoch "w").connection.database "review_jobs" [r]
      [r.put [("status", JobStatus.running.cell), ("worker_id", .ofString "w"), ("started_at", .ofString Timestamp.epoch.stored)]] := by
  have hdb : Database.strayJobs.IsCurrent := by decide
  have hqueued : ∃ r ∈ Database.strayJobs.rows "review_jobs", r.HasStatus .queued := by decide
  obtain ⟨-, hsome, -⟩ := claim_moves_next ⟨Database.strayJobs, true, false⟩ hdb rfl .epoch "w"
  obtain ⟨r, hr, hsplices, -⟩ := hsome hqueued
  exact ⟨hdb, hqueued, r, hr, hsplices⟩

end ReviewQueue
