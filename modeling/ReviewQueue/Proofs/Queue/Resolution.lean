import ReviewQueue.Proofs.Queue.Lifecycle
import ReviewQueue.Proofs.Queue.Locked
import ReviewQueue.Proofs.Queue.Lookups
import ReviewQueue.Proofs.Queue.Resolving
import ReviewQueue.Proofs.Store.Splices

/-!
# How a resolution is decided

A job is taken to its end if it is running, and completed if it has no review besides. Otherwise the answer says how the job
stands: there is none of the number, or it has another status, or what is stored as its status is none. The cases exclude
each other, so each answer tells in which of them the job was.
-/

namespace ReviewQueue

/-- Whether one of some jobs has a number and a status. -/
def HasJob (jobs : List Row) (id : Int) (s : JobStatus) : Prop := ∃ r ∈ jobs, r.id = id ∧ r.HasStatus s

/-- What is answered when the job of a number is to be taken to its end, case by case; `free` is what is needed besides a
running job. A fault is one that no second try helps against. -/
inductive Verdict (jobs : List Row) (id : Int) (target : JobStatus) (free : Prop) {α : Type} : Except StoreError α → Prop where
  | resolved {a : α} (running : HasJob jobs id .running) (isFree : free) : Verdict jobs id target free (.ok a)
  | missing (none : ∀ r ∈ jobs, r.id ≠ id) : Verdict jobs id target free (.error (.jobNotFound id))
  | elsewhere {s : JobStatus} (ne : s ≠ .running) (job : HasJob jobs id s) :
      Verdict jobs id target free (.error (.invalidTransition id s target))
  | unreadable {f : Fault} (job : ∃ r ∈ jobs, r.id = id ∧ ∀ s, ¬r.HasStatus s) :
      Verdict jobs id target free (.error (.fault f))
  | taken {f : Fault} (running : HasJob jobs id .running) (isTaken : ¬free) : Verdict jobs id target free (.error (.fault f))

/-- Each answer is given exactly in its case. -/
structure Decides (jobs : List Row) (id : Int) (target : JobStatus) (free : Prop) {α : Type} (answer : Except StoreError α) :
    Prop where
  succeeds : (∃ a, answer = .ok a) ↔ HasJob jobs id .running ∧ free
  missing : answer = .error (.jobNotFound id) ↔ ∀ r ∈ jobs, r.id ≠ id
  elsewhere : ∀ s, answer = .error (.invalidTransition id s target) ↔ s ≠ .running ∧ HasJob jobs id s
  fault : (∃ f, answer = .error (.fault f)) ↔
    (∃ r ∈ jobs, r.id = id ∧ ∀ s, ¬r.HasStatus s) ∨ HasJob jobs id .running ∧ ¬free

section Verdict

variable {jobs : List Row} {id : Int} {target s s' : JobStatus} {free : Prop} {α : Type} {answer : Except StoreError α}

/-- A job has one status, if numbers tell jobs apart. -/
theorem HasJob.inj (hids : ∀ r ∈ jobs, ∀ x ∈ jobs, r.id = x.id → r = x) (h : HasJob jobs id s) (h' : HasJob jobs id s') :
    s = s' := by
  obtain ⟨r, hr, hid, hs⟩ := h
  obtain ⟨x, hx, hxid, hs'⟩ := h'
  rw [hids r hr x hx (hid.trans hxid.symm)] at hs
  exact hs.inj hs'

/-- A verdict is the answer of its case, and of no other: the cases exclude each other. -/
theorem Verdict.decides (hids : ∀ r ∈ jobs, ∀ x ∈ jobs, r.id = x.id → r = x) (h : Verdict jobs id target free answer) :
    Decides jobs id target free answer := by
  have hnone : ∀ {s}, (∀ r ∈ jobs, r.id ≠ id) → ¬HasJob jobs id s := fun hall ⟨r, hr, hid, _⟩ => hall r hr hid
  have hstray : ∀ {s}, (∃ r ∈ jobs, r.id = id ∧ ∀ s, ¬r.HasStatus s) → ¬HasJob jobs id s := by
    rintro s ⟨r, hr, hid, hno⟩ ⟨x, hx, hxid, hs⟩
    rw [hids x hx r hr (hxid.trans hid.symm)] at hs
    exact hno s hs
  cases h with
  | resolved running isFree =>
    refine ⟨⟨fun _ => ⟨running, isFree⟩, fun _ => ⟨_, rfl⟩⟩, ⟨fun h => (by cases h), fun h => absurd running (hnone h)⟩, ?_, ?_⟩
    · intro s
      exact ⟨fun h => (by cases h), fun ⟨hne, h⟩ => absurd (h.inj hids running) hne⟩
    · refine ⟨fun ⟨f, h⟩ => (by cases h), ?_⟩
      rintro (h | ⟨-, htaken⟩)
      · exact absurd running (hstray h)
      · exact absurd isFree htaken
  | missing none =>
    refine ⟨⟨fun ⟨a, h⟩ => (by cases h), fun h => absurd h.1 (hnone none)⟩, ⟨fun _ => none, fun _ => rfl⟩, ?_, ?_⟩
    · intro s
      exact ⟨fun h => (by cases h), fun h => absurd h.2 (hnone none)⟩
    · refine ⟨fun ⟨f, h⟩ => (by cases h), ?_⟩
      rintro (⟨r, hr, hid, -⟩ | ⟨h, -⟩)
      · exact absurd hid (none r hr)
      · exact absurd h (hnone none)
  | @elsewhere s ne job =>
    refine ⟨⟨fun ⟨a, h⟩ => (by cases h), fun h => absurd (job.inj hids h.1) ne⟩, ⟨fun h => (by cases h), ?_⟩, ?_, ?_⟩
    · exact fun h => absurd job (hnone h)
    · intro s'
      constructor
      · intro h
        cases h
        exact ⟨ne, job⟩
      · rintro ⟨-, h⟩
        rw [job.inj hids h]
    · refine ⟨fun ⟨f, h⟩ => (by cases h), ?_⟩
      rintro (h | ⟨h, -⟩)
      · exact absurd job (hstray h)
      · exact absurd (job.inj hids h) ne
  | unreadable job =>
    refine ⟨⟨fun ⟨a, h⟩ => (by cases h), fun h => absurd h.1 (hstray job)⟩, ⟨fun h => (by cases h), ?_⟩, ?_, ?_⟩
    · intro h
      obtain ⟨r, hr, hid, -⟩ := job
      exact absurd hid (h r hr)
    · intro s
      exact ⟨fun h => (by cases h), fun h => absurd h.2 (hstray job)⟩
    · exact ⟨fun _ => Or.inl job, fun _ => ⟨_, rfl⟩⟩
  | taken running isTaken =>
    refine ⟨⟨fun ⟨a, h⟩ => (by cases h), fun h => absurd h.2 isTaken⟩, ⟨fun h => (by cases h), ?_⟩, ?_, ?_⟩
    · exact fun h => absurd running (hnone h)
    · intro s
      exact ⟨fun h => (by cases h), fun ⟨hne, h⟩ => absurd (h.inj hids running) hne⟩
    · exact ⟨fun _ => Or.inr ⟨running, isTaken⟩, fun _ => ⟨_, rfl⟩⟩

end Verdict

namespace Connection

variable {c : Connection} {now : Timestamp} {id : Int} {target : JobStatus} {error : Option String} {text : ReviewText}

/-! ## The first statement -/

/-- The refusal says how the row of the number stands, if there is one. -/
theorem refusal_eq (hdb : c.database.IsCurrent) (id : Int) (target : JobStatus) : c.refusal id target =
    match (c.database.rows "review_jobs").find? (·.id = id) with
    | none => .jobNotFound id
    | some r => match (r.record [Column.status]).status 0 with
      | .error f => .ofFault f
      | .ok s => .invalidTransition id s target := by
  have hpick : Layout.jobs.pick ["status"] = [.status] := by decide
  unfold refusal
  rw [first_of_number hdb (by decide), hpick]
  cases (c.database.rows "review_jobs").find? (fun r => decide (r.id = id)) with
  | none => rfl
  | some r =>
    simp only
    cases (r.record [Column.status]).status 0 <;> rfl

/-- The refusal of a job that is not running says how the job stands. -/
theorem refusal_verdict {α : Type} {free : Prop} (hdb : c.database.IsCurrent)
    (hnot : ¬HasJob (c.database.rows "review_jobs") id .running) (target : JobStatus) :
    Verdict (c.database.rows "review_jobs") id target free (.error (c.refusal id target) : Except StoreError α) := by
  rw [refusal_eq hdb]
  cases hfind : (c.database.rows "review_jobs").find? (fun r => decide (r.id = id)) with
  | none =>
    refine .missing fun r hr hid => ?_
    simpa [hid] using List.find?_eq_none.mp hfind r hr
  | some r =>
    have hr := List.mem_of_find?_eq_some hfind
    have hid : r.id = id := by simpa using List.find?_some hfind
    have hstatus : ∀ s, (r.record [Column.status]).status 0 = .ok s ↔ r.HasStatus s := fun s => Record.status_eq_ok_iff
    cases hread : (r.record [Column.status]).status 0 with
    | ok s =>
      have hs := (hstatus s).mp hread
      simp only [hread]
      refine .elsewhere ?_ ⟨r, hr, hid, hs⟩
      rintro rfl
      exact hnot ⟨r, hr, hid, hs⟩
    | error f =>
      have hwaits : f.isContention = false := Record.status_neverWaits _ 0 f hread
      simp only [hread, StoreError.ofFault, hwaits]
      refine .unreadable ⟨r, hr, hid, fun s hs => ?_⟩
      rw [(hstatus s).mpr hs] at hread
      cases hread

/-- What is given to a job that is taken to its end: the status, the time and the error. -/
theorem given_finishing (now : Timestamp) (id : Int) (target : JobStatus) (error : Option String) (r : Row) :
    r.given .jobs (finishing now id target error).cells =
      r.put [("status", target.cell), ("finished_at", .ofString now.stored), ("error", .ofOption .ofString error)] := by
  refine Row.given_eq_put (by decide) (by decide) ?_ r
  simp only [finishing, List.forall_mem_cons]
  refine ⟨Layout.takes_text (by decide) rfl, Layout.takes_text (by decide) rfl, Layout.takes_text (by decide) ?_,
    List.forall_mem_nil _⟩
  cases error <;> rfl

/-- A running job is taken to its end, and nothing else changes. -/
theorem finish_of_running (hdb : c.database.IsCurrent) (hlock : c.locked = false) {r : Row}
    (hr : r ∈ c.database.rows "review_jobs") (hrun : r.HasStatus .running) (now : Timestamp) (target : JobStatus)
    (error : Option String) : ∃ db, c.finish now r.id target error = ⟨.ok (), c.on db, []⟩ ∧ db.IsCurrent ∧
      c.database.Splices db "review_jobs" [r] [r.put
        [("status", target.cell), ("finished_at", .ofString now.stored), ("error", .ofOption .ofString error)]] := by
  obtain ⟨t, ht, hl⟩ := hdb.jobs
  rw [Database.rows_of_table? ht] at hr
  obtain ⟨record, db, hchange, htakes⟩ := change_finishing_of_running ht hl hlock hr hrun now target error
  have hsplices := htakes.splices
  rw [hl, given_finishing] at hsplices
  refine ⟨db, ?_, hdb.of_gives htakes.toGives, hsplices⟩
  unfold finish
  rw [hchange]
  rfl

/-- A job that is not running is not taken to its end, and nothing changes. -/
theorem finish_of_not_running (hdb : c.database.IsCurrent) (hlock : c.locked = false)
    (hnot : ¬HasJob (c.database.rows "review_jobs") id .running) (now : Timestamp) (target : JobStatus) (error : Option String) :
    ∃ db, c.finish now id target error = ⟨.error ((c.on db).refusal id target), c.on db, []⟩ ∧ c.database.Agrees db ∧
      db.indexes = c.database.indexes := by
  obtain ⟨t, ht, hl⟩ := hdb.jobs
  rw [Database.rows_of_table? ht] at hnot
  obtain ⟨db, hchange, hagrees, hindexes⟩ := change_finishing_of_not_running ht hl hlock hnot now target error
  refine ⟨db, ?_, hagrees, hindexes⟩
  unfold finish
  rw [hchange]
  rfl

/-- What the first statement answers is the verdict on its job. -/
theorem finish_verdict (hdb : c.database.IsCurrent) (hlock : c.locked = false) (now : Timestamp) (id : Int) (target : JobStatus)
    (error : Option String) :
    Verdict (c.database.rows "review_jobs") id target True (c.finish now id target error).answer := by
  by_cases hrun : HasJob (c.database.rows "review_jobs") id .running
  · obtain ⟨r, hr, rfl, hstatus⟩ := hrun
    obtain ⟨db, hfinish, -⟩ := finish_of_running hdb hlock hr hstatus now target error
    rw [hfinish]
    exact .resolved ⟨r, hr, rfl, hstatus⟩ trivial
  · obtain ⟨db, hfinish, hagrees, -⟩ := finish_of_not_running hdb hlock hrun now target error
    rw [hfinish]
    have hrows : db.rows "review_jobs" = c.database.rows "review_jobs" := Database.rows_congr (hagrees _)
    rw [← hrows] at hrun ⊢
    exact refusal_verdict (c := c.on db) (hagrees.isCurrent hdb) hrun target

/-! ## Failing -/

/-- A failure is the first statement and a line of the log. -/
theorem fail_eq_finish (c : Connection) (now : Timestamp) (id : Int) (error : String) :
    (c.fail now id error).answer = (c.finish now id .failed (some error)).answer ∧
      (c.fail now id error).connection = (c.finish now id .failed (some error)).connection := by
  unfold fail
  dsimp only
  split <;> exact ⟨rfl, rfl⟩

/-- A job that fails changes in its status, its end and its error; a failure that is refused changes nothing. -/
theorem fail_frame (hdb : c.database.IsCurrent) (hlock : c.locked = false) (now : Timestamp) (id : Int) (error : String) :
    (∀ e, (c.fail now id error).answer = .error e → c.database.Agrees (c.fail now id error).connection.database ∧
      (c.fail now id error).connection.database.indexes = c.database.indexes) ∧
    ∀ a, (c.fail now id error).answer = .ok a → ∃ r, r.id = id ∧ r.HasStatus .running ∧
      c.database.Splices (c.fail now id error).connection.database "review_jobs" [r] [r.put
        [("status", JobStatus.failed.cell), ("finished_at", .ofString now.stored), ("error", .ofString error)]] := by
  obtain ⟨hanswer, hconnection⟩ := fail_eq_finish c now id error
  rw [hanswer, hconnection]
  by_cases hrun : HasJob (c.database.rows "review_jobs") id .running
  · obtain ⟨r, hr, rfl, hstatus⟩ := hrun
    obtain ⟨db, hfinish, -, hsplices⟩ := finish_of_running hdb hlock hr hstatus now .failed (some error)
    rw [hfinish]
    exact ⟨fun e h => (by cases h), fun _ _ => ⟨r, rfl, hstatus, hsplices⟩⟩
  · obtain ⟨db, hfinish, hagrees, hindexes⟩ := finish_of_not_running hdb hlock hrun now .failed (some error)
    rw [hfinish]
    exact ⟨fun _ _ => ⟨hagrees, hindexes⟩, fun a h => (by cases h)⟩

/-! ## Completing -/

/-- A completion whose first statement is refused is refused with the same error and leaves the connection. -/
theorem complete_of_refused (hdb : c.database.IsCurrent) (hlock : c.locked = false) {e : StoreError}
    (h : (c.finish now id .done none).answer = .error e) : c.complete now id text = ⟨.error e, c, []⟩ := by
  rw [complete_eq hdb hlock]
  simp only [h]

/-- A completion whose first statement took the job to its end stores the review, or leaves the connection. -/
theorem complete_of_finished (hdb : c.database.IsCurrent) (hlock : c.locked = false) {done : Connection} {log : List LogLine}
    (h : c.finish now id .done none = ⟨.ok (), done, log⟩) : c.complete now id text =
      match done.storeReview now id text with
      | .error f => .refused c f
      | .ok (review, db) => ⟨.ok review, c.on db, [⟨.debug, "Job " ++ toString id ++ " done by " ++ text.agent⟩]⟩ := by
  have hcomplete := complete_eq hdb hlock now id text
  rw [h] at hcomplete
  exact hcomplete

/-- A review that is stored is added with what was asked for, and is what is read back. -/
theorem storeReview_adds (hdb : c.database.IsCurrent) (hnow : now.IsPlain) {review : Review} {db : Database}
    (h : c.storeReview now id text = .ok (review, db)) : ∃ v : Row, c.database.Splices db "reviews" [] [v] ∧
      v.HoldsReview review ∧ review = ⟨v.id, id, text.agent, text.prompt, text.output, now⟩ := by
  unfold storeReview at h
  cases hinsert : c.insertWithin (reviewing now id text) with
  | error f =>
    rw [hinsert] at h
    cases h
  | ok added =>
    rw [← insert_reviewing hdb] at hinsert
    obtain ⟨a, added⟩ := added
    obtain ⟨t, new, rid, hadds, rfl⟩ := insert_adds hdb (l := .reviews) (by decide) rfl rfl hinsert
    rw [insert_reviewing hdb] at hinsert
    obtain ⟨u, hu, hl⟩ := hdb.reviews
    cases hu.symm.trans hadds.table
    have hholds := reviewing_holds now id rid text
    have hread := Review.ofRecord_recordOf hholds hnow
    unfold Review.recordOf at hread
    rw [hinsert] at h
    simp only [hl, bind, Except.bind, show (reviewing now id text).returning = Review.columns from rfl, hread] at h
    cases h
    have hsplices := hadds.splices (by rw [hl]; decide)
    rw [hl] at hsplices
    exact ⟨_, hsplices, hholds, rfl⟩

/-- What a completion answers is the verdict on its job and its review. -/
theorem complete_verdict (hdb : c.database.IsCurrent) (hlock : c.locked = false) (hnow : now.IsPlain) (id : Int)
    (text : ReviewText) : Verdict (c.database.rows "review_jobs") id .done
      (∀ v ∈ c.database.rows "reviews", ¬v.Reviews id) (c.complete now id text).answer := by
  by_cases hrun : HasJob (c.database.rows "review_jobs") id .running
  · have hjob := hrun
    obtain ⟨r, hr, rfl, hstatus⟩ := hrun
    have hok := complete_isOk_iff hdb hlock hnow hr hstatus text
    obtain ⟨done, hfinish, -⟩ := finish_of_running hdb hlock hr hstatus now .done none
    rw [complete_of_finished hdb hlock hfinish] at hok ⊢
    cases hstore : (c.on done).storeReview now r.id text with
    | error f =>
      have hwaits : f.isContention = false := storeReview_neverWaits (c := c.on done) hlock now r.id text f hstore
      rw [hstore] at hok
      have htaken : ¬∀ v ∈ c.database.rows "reviews", ¬v.Reviews r.id := by
        intro hfree
        obtain ⟨review, hreview⟩ := hok.mpr hfree
        cases hreview
      simp only [Outcome.refused, StoreError.ofFault, hwaits]
      exact .taken hjob htaken
    | ok stored =>
      rw [hstore] at hok
      exact .resolved hjob (hok.mp ⟨_, rfl⟩)
  · obtain ⟨db, hfinish, hagrees, -⟩ := finish_of_not_running hdb hlock hrun now .done none
    have hrows : db.rows "review_jobs" = c.database.rows "review_jobs" := Database.rows_congr (hagrees _)
    rw [complete_of_refused hdb hlock (by rw [hfinish])]
    rw [← hrows] at hrun ⊢
    exact refusal_verdict (c := c.on db) (hagrees.isCurrent hdb) hrun .done

/-- A job that is completed changes in its status, its end and its error, and its review is added; a completion that is
refused changes nothing. -/
theorem complete_frame (hdb : c.database.IsCurrent) (hlock : c.locked = false) (hnow : now.IsPlain) (id : Int)
    (text : ReviewText) :
    (∀ e, (c.complete now id text).answer = .error e → (c.complete now id text).connection = c) ∧
    ∀ review, (c.complete now id text).answer = .ok review → ∃ r v done, r.id = id ∧ r.HasStatus .running ∧
      c.database.Splices done "review_jobs" [r] [r.put
        [("status", JobStatus.done.cell), ("finished_at", .ofString now.stored), ("error", .null)]] ∧
      done.Splices (c.complete now id text).connection.database "reviews" [] [v] ∧ v.HoldsReview review ∧
      review = ⟨v.id, id, text.agent, text.prompt, text.output, now⟩ := by
  by_cases hrun : HasJob (c.database.rows "review_jobs") id .running
  · obtain ⟨r, hr, rfl, hstatus⟩ := hrun
    obtain ⟨done, hfinish, hcurrent, hsplices⟩ := finish_of_running hdb hlock hr hstatus now .done none
    rw [complete_of_finished hdb hlock hfinish]
    cases hstore : (c.on done).storeReview now r.id text with
    | error f => exact ⟨fun _ _ => rfl, fun review h => (by cases h)⟩
    | ok stored =>
      obtain ⟨review, db⟩ := stored
      refine ⟨fun e h => (by cases h), ?_⟩
      intro answered h
      cases h
      obtain ⟨v, hadded, hholds, hreview⟩ := storeReview_adds (c := c.on done) hcurrent hnow hstore
      exact ⟨r, v, done, rfl, hstatus, hsplices, hadded, hholds, hreview⟩
  · obtain ⟨db, hfinish, -⟩ := finish_of_not_running hdb hlock hrun now .done none
    rw [complete_of_refused hdb hlock (by rw [hfinish])]
    exact ⟨fun _ _ => rfl, fun review h => (by cases h)⟩

end Connection

/-- How resolutions are decided, in two parts, on a connection in the current layout that finds the lock free, whatever the
rows and the number.
1. A failure succeeds exactly if the job of the number is running, and each other answer is given exactly in its case. A
   refused one changes nothing; one that succeeds changes the job's status, end and error.
2. A completion succeeds exactly if, besides, no review has the number, as long as the clock shows a plain time: the review is
   read back before it is kept. A refused one changes nothing; one that succeeds changes the job's status and
   end, clears its error, and adds the review that it answers. -/
theorem resolution_decided (c : Connection) (hdb : c.database.IsCurrent) (hlock : c.locked = false) (now : Timestamp) (id : Int) :
    (∀ error : String,
      let after := c.fail now id error
      Decides (c.database.rows "review_jobs") id .failed True after.answer ∧
      (∀ e, after.answer = .error e → c.database.Agrees after.connection.database ∧
        after.connection.database.indexes = c.database.indexes) ∧
      ∀ a, after.answer = .ok a → ∃ r, r.id = id ∧ r.HasStatus .running ∧
        c.database.Splices after.connection.database "review_jobs" [r] [r.put
          [("status", JobStatus.failed.cell), ("finished_at", .ofString now.stored), ("error", .ofString error)]]) ∧
    (now.IsPlain → ∀ text : ReviewText,
      let after := c.complete now id text
      Decides (c.database.rows "review_jobs") id .done (∀ v ∈ c.database.rows "reviews", ¬v.Reviews id)
        after.answer ∧
      (∀ e, after.answer = .error e → after.connection = c) ∧
      ∀ review, after.answer = .ok review → ∃ r v done, r.id = id ∧ r.HasStatus .running ∧
        c.database.Splices done "review_jobs" [r] [r.put
          [("status", JobStatus.done.cell), ("finished_at", .ofString now.stored), ("error", .null)]] ∧
        done.Splices after.connection.database "reviews" [] [v] ∧ v.HoldsReview review ∧
        review = ⟨v.id, id, text.agent, text.prompt, text.output, now⟩) := by
  have hids : ∀ r ∈ c.database.rows "review_jobs", ∀ x ∈ c.database.rows "review_jobs", r.id = x.id → r = x :=
    fun _ hr _ hx => Database.rows_eq_of_id_eq hr hx
  constructor
  · intro error after
    have hverdict := Connection.finish_verdict hdb hlock now id .failed (some error)
    rw [← (Connection.fail_eq_finish c now id error).1] at hverdict
    exact ⟨hverdict.decides hids, Connection.fail_frame hdb hlock now id error⟩
  · intro hnow text after
    exact ⟨(Connection.complete_verdict hdb hlock hnow id text).decides hids,
      Connection.complete_frame hdb hlock hnow id text⟩

/-- The running job fails, is completed instead, and a job that is not there is neither. -/
theorem resolution_decided_oneRunning :
    Database.oneRunning.IsCurrent ∧ Timestamp.epoch.IsPlain ∧
    (∃ a, ((Connection.mk Database.oneRunning true false).fail .epoch 7 "gone").answer = .ok a) ∧
    (∃ review, ((Connection.mk Database.oneRunning true false).complete .epoch 7 ⟨"codex", "p", "o"⟩).answer = .ok review) ∧
    ((Connection.mk Database.oneRunning true false).fail .epoch 8 "gone").answer = .error (.jobNotFound 8) := by
  have hdb : Database.oneRunning.IsCurrent := by decide
  have hnow : Timestamp.epoch.IsPlain := by decide
  have hrun : HasJob (Database.oneRunning.rows "review_jobs") 7 .running := by
    unfold HasJob
    decide
  obtain ⟨hfail, hcomplete⟩ := resolution_decided ⟨Database.oneRunning, true, false⟩ hdb rfl .epoch 7
  obtain ⟨hmissing, -⟩ := resolution_decided ⟨Database.oneRunning, true, false⟩ hdb rfl .epoch 8
  refine ⟨hdb, hnow, ?_, ?_, ?_⟩
  · exact (hfail "gone").1.succeeds.mpr ⟨hrun, trivial⟩
  · exact (hcomplete hnow ⟨"codex", "p", "o"⟩).1.succeeds.mpr ⟨hrun, by decide⟩
  · exact (hmissing "gone").1.missing.mpr (by decide)

end ReviewQueue
