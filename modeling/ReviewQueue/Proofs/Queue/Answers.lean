import ReviewQueue.Proofs.Queue.Counting
import ReviewQueue.Proofs.Queue.Keys
import ReviewQueue.Proofs.Queue.Order
import ReviewQueue.Proofs.Queue.Readable
import ReviewQueue.Proofs.Queue.Resolving
import ReviewQueue.Proofs.Queue.Reviewed
import ReviewQueue.Proofs.Store.Queries

/-!
# Operations that always answer

Lookups other than those of commits, claims, resets and registering do not depend on numbers or hashes that may be
unknown, and all that they read can be read back. So they never answer an error while the lock is free, and a running job
can always be completed or failed.
-/

namespace ReviewQueue

/-- Whether an operation answers whatever it is asked with. -/
def Operation.alwaysAnswers : Operation → Bool
  | .registerRepo _ | .findRepoByPath _ | .findRepo _ | .claim _ | .resetStale | .counts | .findJob _ | .listJobs ..
  | .findReviewBySha _ | .findReviewByJob _ | .listResponses _ => true
  | _ => false

/-- Whether an operation takes the job of a number to its end. -/
def Operation.resolves (id : Int) : Operation → Bool
  | .complete job _ | .fail job _ => job = id
  | _ => false

theorem isOk_liftFault {α : Type} {x : Except Fault α} (h : ∃ a, x = .ok a) : (liftFault x).isOk = true := by
  obtain ⟨a, rfl⟩ := h
  rfl

theorem isOk_map {ε α β : Type} (f : α → β) (x : Except ε α) : (x.map f).isOk = x.isOk := by cases x <;> rfl

/-- The best of some candidates is one of them. -/
theorem Candidate.mem_of_best? {xs : List Candidate} {x : Candidate} (h : best? xs = some x) : x ∈ xs := by
  cases xs with
  | nil => cases h
  | cons first xs =>
    have hfold : ∀ (ys : List Candidate) (a : Candidate), ys.foldl (fun a b => if b.beats a then b else a) a ∈ a :: ys := by
      intro ys
      induction ys with
      | nil => simp
      | cons y ys ih =>
        intro a
        rw [List.foldl_cons]
        rcases List.mem_cons.mp (ih (if y.beats a then y else a)) with h | h
        · rw [h]
          split <;> simp
        · simp [h]
    cases h
    exact hfold xs first

namespace Connection

variable {c : Connection} {now : Timestamp}

/-- A candidate has the record of a review. -/
theorem record_of_mem_candidates {sha : String} {reviews jobs commits : Table} {x : Candidate}
    (h : x ∈ candidates now sha reviews jobs commits) :
    ∃ r ∈ reviews.rows, x.record = r.record (reviews.layout.pick Review.columns) := by
  unfold candidates at h
  split at h
  · simp only [List.mem_flatMap, List.mem_map] at h
    obtain ⟨r, hr, -, -, -, -, rfl⟩ := h
    exact ⟨r, hr, rfl⟩
  · cases h

/-! ## Lookups -/

/-- In the current layout the record of the best candidate for a hash is read. -/
theorem exists_candidates (hdb : c.database.IsCurrent) (now : Timestamp) (sha : String) : ∃ reviews jobs commits,
    c.database.table? "reviews" = some reviews ∧ reviews.layout = .reviews ∧
    c.database.table? "review_jobs" = some jobs ∧ c.database.table? "commits" = some commits ∧
    c.findReviewBySha now sha = match Candidate.best? (candidates now sha reviews jobs commits) with
      | none => .ok none
      | some best => liftFault ((Review.ofRecord best.record).map some) := by
  obtain ⟨reviews, hreviews, hrl⟩ := hdb.reviews
  obtain ⟨jobs, hjobs, hjl⟩ := hdb.jobs
  obtain ⟨commits, hcommits, hcl⟩ := hdb.commits
  have hfaults : candidateFaults .reviews .jobs .commits = [] := by decide
  refine ⟨reviews, jobs, commits, hreviews, hrl, hjobs, hcommits, ?_⟩
  unfold findReviewBySha
  simp only [Database.need_eq_ok.mpr hreviews, Database.need_eq_ok.mpr hjobs, Database.need_eq_ok.mpr hcommits, bind,
    Except.bind, hrl, hjl, hcl, hfaults]
  cases Candidate.best? (candidates now sha reviews jobs commits) with
  | none => rfl
  | some best => cases hread : Review.ofRecord best.record <;> simp only [hread] <;> rfl

/-- Looking for the review of a commit finds none or reads a row of reviews. -/
theorem findReviewBySha_cases (hdb : c.database.IsCurrent) (now : Timestamp) (sha : String) :
    c.findReviewBySha now sha = .ok none ∨ ∃ r ∈ c.database.rows "reviews",
      c.findReviewBySha now sha = liftFault ((Review.ofRecord (Review.recordOf r)).map some) := by
  obtain ⟨reviews, jobs, commits, hreviews, hrl, -, -, hfound⟩ := exists_candidates hdb now sha
  cases hbest : Candidate.best? (candidates now sha reviews jobs commits) with
  | none =>
    rw [hbest] at hfound
    exact Or.inl hfound
  | some best =>
    obtain ⟨r, hr, hrecord⟩ := record_of_mem_candidates (Candidate.mem_of_best? hbest)
    rw [hbest] at hfound
    rw [hrl] at hrecord
    simp only [hrecord, ← Review.recordOf.eq_def] at hfound
    exact Or.inr ⟨r, by rw [Database.rows_of_table? hreviews]; exact hr, hfound⟩

/-- In the current layout the first row is found if each row can be read. -/
theorem exists_first_of_current {α : Type} {read : Record → Except Fault α} {q : Query} {l : Layout}
    (hdb : c.database.IsCurrent) (hl : l ∈ Layout.current) (hname : l.name = q.table) (hq : q.isKnown l = true)
    (hread : ∀ r ∈ c.database.rows q.table, ∃ a, read (r.record (l.pick q.columns)) = .ok a) :
    ∃ a, c.first q read = .ok a := by
  obtain ⟨t, ht, rfl⟩ := hdb l hl
  rw [hname] at ht
  rw [Database.rows_of_table? ht] at hread
  exact exists_first ht hq hread

/-- In the current layout the rows of a query are all found, and each record is that of a row. -/
theorem exists_run_of_current {db : Database} {q : Query} {l : Layout} (hdb : db.IsCurrent) (hl : l ∈ Layout.current)
    (hname : l.name = q.table) (hq : q.isKnown l = true) : ∃ records, q.run db = .ok records ∧
      ∀ x ∈ records, ∃ r ∈ db.rows q.table, x = r.record (l.pick q.columns) := by
  obtain ⟨t, ht, rfl⟩ := hdb l hl
  rw [hname] at ht
  refine ⟨_, Query.run_eq ht hq, fun x hx => ?_⟩
  obtain ⟨r, hr, -, rfl⟩ := Query.mem_found.mp hx
  rw [Database.rows_of_table? ht]
  exact ⟨r, hr, rfl⟩

end Connection

namespace Database.Sound

variable {c : Connection} (h : c.database.Sound)
include h

/-- A path is looked up without fault, -/
theorem exists_repoAt (root : String) : ∃ a, c.repoAt root = .ok a :=
  Connection.exists_first_of_current h.current (l := .repos) (by simp [Layout.current]) rfl
    (Query.isKnown_of_names ["root_path"] rfl (by decide)) h.readable.repos

/-- a repository by its number, -/
theorem findRepo_isOk (id : Int) : (c.findRepo id).isOk = true :=
  isOk_liftFault (Connection.exists_first_of_current h.current (l := .repos) (by simp [Layout.current]) rfl
    (Query.isKnown_of_names ["id"] rfl (by decide)) h.readable.repos)

/-- and a review by its job. -/
theorem findReviewByJob_isOk (job : Int) : (c.findReviewByJob job).isOk = true :=
  isOk_liftFault (Connection.exists_first_of_current h.current (l := .reviews) (by simp [Layout.current]) rfl
    (Query.isKnown_of_names ["job_id"] rfl (by decide)) h.readable.reviews)

/-- A row of jobs is read as the job that it shows. -/
theorem exists_job {r : Row} (hr : r ∈ c.database.rows "review_jobs") : ∃ j, Job.ofRecord (Job.recordOf r) = .ok j := by
  obtain ⟨j, hj⟩ := h.readable.jobs r hr
  exact ⟨j, Job.ofRecord_recordOf hj.holds hj.times⟩

/-- So a job is looked up without error. -/
theorem findJob_isOk (id : Int) : (c.findJob id).isOk = true :=
  isOk_liftFault (Connection.exists_first_of_current h.current (l := .jobs) (by simp [Layout.current]) rfl
    (Query.isKnown_of_names ["id"] rfl (by decide)) fun _ => h.exists_job)

/-- Jobs are listed, -/
theorem listJobs_isOk (status : Option JobStatus) (limit : Nat) : (c.listJobs status limit).isOk = true := by
  rw [Connection.listJobs_eq h.current]
  refine isOk_liftFault (exists_mapM fun r hr => h.exists_job ?_)
  exact List.mem_of_mem_filter (List.mem_reverse.mp (List.mem_of_mem_take hr))

/-- they are counted, -/
theorem counts_isOk : c.counts.isOk = true := by
  obtain ⟨k, hk⟩ := (Connection.exists_counts_iff h.current).mpr fun r hr =>
    (h.readable.jobs r hr).imp' Job.status fun j hj => hj.holds.status
  rw [hk]
  rfl

/-- the responses to a commit are listed, -/
theorem listResponses_isOk (commitId : Int) : (c.listResponses commitId).isOk = true := by
  obtain ⟨records, hrun, hrecords⟩ := Connection.exists_run_of_current
    (q := ⟨"responses", Response.columns, [("commit_id", .int commitId)]⟩) h.current (l := .responses)
    (by simp [Layout.current]) rfl (Query.isKnown_of_names ["commit_id"] rfl (by decide))
  refine isOk_liftFault ?_
  simp only [hrun, bind, Except.bind]
  refine exists_mapM fun x hx => ?_
  obtain ⟨r, hr, rfl⟩ := hrecords x (List.mem_mergeSort.mp hx)
  exact h.readable.responses r hr

/-- and the review of a commit is looked up without error. -/
theorem findReviewBySha_isOk (now : Timestamp) (sha : String) : (c.findReviewBySha now sha).isOk = true := by
  rcases Connection.findReviewBySha_cases h.current now sha with hnone | ⟨r, hr, hfound⟩
  · rw [hnone]
    rfl
  · obtain ⟨review, hreview⟩ := h.readable.reviews r hr
    rw [hfound, hreview]
    rfl

/-! ## Registering -/

/-- The statement that registers a path is never refused: a path that is there is left as it is. -/
theorem exists_registration (hlock : c.locked = false) (now : Timestamp) (path : Path) :
    ∃ v, c.insert (Connection.registration now path) = .ok v := by
  by_cases hlacks : (Key.path path.display).Lacks c.database
  · obtain ⟨a, t, new, db, hinsert, -⟩ := Entry.insert_of_lacks (e := .repo path) h.current hlock now trivial hlacks
    exact ⟨_, hinsert⟩
  · exact ⟨_, Entry.insert_of_taken (e := .repo path) h.current hlock hlacks⟩

/-- A path whose row is there is found. -/
theorem exists_registeredRepo {root : String} (hrow : ∃ r ∈ c.database.rows "repos", r.cell "root_path" = .ofString root) :
    ∃ repo, c.registeredRepo root = .ok repo := by
  obtain ⟨found, hfound⟩ := h.exists_repoAt root
  unfold Connection.registeredRepo
  simp only [hfound, bind, Except.bind]
  cases found with
  | some repo => exact ⟨repo, rfl⟩
  | none =>
    obtain ⟨t, ht, hl⟩ := h.current.repos
    have hnone := (Connection.first_eq_none_iff (q := ⟨"repos", Repo.columns, [("root_path", .ofString root)]⟩) ht
      (by rw [hl]; exact Query.isKnown_of_names ["root_path"] rfl (by decide))).mp hfound
    obtain ⟨r, hr, hroot⟩ := hrow
    rw [Database.rows_of_table? ht] at hr
    have hcolumn : Layout.repos.column? "root_path" = some (.textUnique "root_path") := by decide
    have hhas : r.hasAll .repos [("root_path", .ofString root)] = true := by
      rw [Row.hasAll_singleton hcolumn (by decide) r (x := .ofString root) le_rfl]
      exact decide_eq_true hroot
    have hnot := hnone r hr
    rw [hl, hhas] at hnot
    cases hnot

/-- A claim answers without error. -/
theorem claim_isOk (hlock : c.locked = false) {now : Timestamp} (hnow : now.IsPlain) (worker : String) :
    (c.perform now (.claim worker)).answer.isOk = true :=
  (Call.run_effect h.current now (.asked (.claim worker))).claim_isOk_of_shows h.jobsFit hnow hlock
    fun r hr _ => h.readable.jobs r hr

/-- Queueing the running jobs again answers without error. -/
theorem resetStale_isOk (hlock : c.locked = false) : c.resetStale.answer.isOk = true := by
  obtain ⟨t, ht, hl⟩ := h.current.jobs
  have hchange := (Connection.change_moves Connection.requeueing_moves ht hl).1
  rw [hlock, if_neg Bool.false_ne_true] at hchange
  simp only [Connection.resetStale, hchange]
  rfl

/-- An operation of one statement that always answers does so without error, if the lock is free. -/
theorem perform_isOk (hlock : c.locked = false) {now : Timestamp} (hnow : now.IsPlain) {op : Operation}
    (hop : op.alwaysAnswers = true) (hone : ∀ path, op ≠ .registerRepo path) : (c.perform now op).answer.isOk = true := by
  cases op with
  | registerRepo path => exact absurd rfl (hone path)
  | claim worker => exact h.claim_isOk hlock hnow worker
  | resetStale => exact (isOk_map ..).trans (h.resetStale_isOk hlock)
  | findRepoByPath path => exact (isOk_map ..).trans (isOk_liftFault (h.exists_repoAt _))
  | findRepo id => exact (isOk_map ..).trans (h.findRepo_isOk id)
  | counts => exact (isOk_map ..).trans h.counts_isOk
  | findJob id => exact (isOk_map ..).trans (h.findJob_isOk id)
  | listJobs status limit => exact (isOk_map ..).trans (h.listJobs_isOk status limit)
  | findReviewBySha sha => exact (isOk_map ..).trans (h.findReviewBySha_isOk now sha)
  | findReviewByJob job => exact (isOk_map ..).trans (h.findReviewByJob_isOk job)
  | listResponses id => exact (isOk_map ..).trans (h.listResponses_isOk id)
  | _ => cases hop

end Database.Sound

/-! ## Calls -/

/-- The next statement of a call of an operation that always answers answers no error, if the lock is free. -/
theorem Call.run_isOk {c : Connection} {now : Timestamp} {call : Call} (h : c.database.Sound) (hlock : c.locked = false)
    (hnow : now.IsPlain) (hcall : call.FindsPath c.database) (hop : call.operation.alwaysAnswers = true)
    {answer : Except StoreError Answer} (hanswer : (call.run c now).1 = .answered answer) : answer.isOk = true := by
  cases call with
  | asked op =>
    by_cases hpath : ∃ path, op = .registerRepo path
    · obtain ⟨path, rfl⟩ := hpath
      obtain ⟨found, hfound⟩ := h.exists_repoAt path.display
      simp only [run, hfound] at hanswer
      cases found with
      | none => cases hanswer
      | some repo =>
        cases hanswer
        rfl
    · rw [← perform_of_run hanswer]
      exact h.perform_isOk hlock hnow hop fun path hp => hpath ⟨path, hp⟩
  | registering path =>
    obtain ⟨v, hins⟩ := h.exists_registration hlock now path
    simp only [run, hins] at hanswer
    cases hanswer
  | registered path =>
    cases hanswer
    exact (isOk_map ..).trans (isOk_liftFault (h.exists_registeredRepo (hcall path rfl)))
  | storing | stored | refusing => cases hop

/-- A call of an operation that always answers is answered without error when it runs to its end. -/
theorem Call.finish_isOk {c : Connection} {now : Timestamp} (call : Call) (h : c.database.Sound) (hlock : c.locked = false)
    (hnow : now.IsPlain) (hcall : call.FindsPath c.database) (hop : call.operation.alwaysAnswers = true) :
    (call.finish c now).1.isOk = true := by
  cases hrun : call.run c now with
  | mk p db =>
    have hp : (call.run c now).1 = p := congrArg Prod.fst hrun
    have hdb : (call.run c now).2 = db := congrArg Prod.snd hrun
    cases p with
    | answered answer =>
      rw [finish_of_answered hrun]
      exact run_isOk h hlock hnow hcall hop hp
    | next call' =>
      obtain ⟨hsame, hless⟩ := run_next hp
      rw [finish_of_next hrun]
      refine finish_isOk (c := c.on db) call' ?_ hlock hnow ?_ (by rw [hsame]; exact hop)
      · rw [← hdb]
        exact h.run hnow call
      · rw [← hdb]
        exact run_findsPath h.current hp
  termination_by call.ahead

/-- A running job has no review. -/
theorem Reviewed.not_reviews_of_running {db : Database} {es : List Event} (h : Reviewed db es) {r : Row}
    (hr : r ∈ db.rows "review_jobs") (hrun : r.HasStatus .running) : ∀ v ∈ db.rows "reviews", ¬v.Reviews r.id := by
  intro v hv hreviews
  obtain ⟨x, -, -, hjob⟩ := h.job v hv
  rw [(Row.reviews_iff hjob).mp hreviews] at hjob
  exact (h.none_of_running hr hrun).1 v hv hjob

/-- A call to complete or to fail a running job is answered by its first statement without error, if the lock is free
and the job has no review. -/
theorem Call.run_resolves {c : Connection} {now : Timestamp} {op : Operation} {r : Row} (hdb : c.database.IsCurrent)
    (hlock : c.locked = false) (hnow : now.IsPlain) (hr : r ∈ c.database.rows "review_jobs") (hrun : r.HasStatus .running)
    (hnone : ∀ v ∈ c.database.rows "reviews", ¬v.Reviews r.id) (hop : op.resolves r.id = true) :
    ∃ answer, ((asked op).run c now).1 = .answered answer ∧ answer.isOk = true := by
  cases op with
  | complete id text =>
    obtain rfl : id = r.id := of_decide_eq_true hop
    obtain ⟨review, hreview⟩ := (Connection.complete_isOk_iff hdb hlock hnow hr hrun text).mpr hnone
    refine ⟨_, rfl, ?_⟩
    simp only [Connection.perform, Outcome.map, isOk_map, hreview]
    rfl
  | fail id error =>
    obtain rfl : id = r.id := of_decide_eq_true hop
    exact ⟨_, Connection.run_fail_of_running hdb hlock hr hrun now error, rfl⟩
  | _ => cases hop

/-- No row becomes unreadable, in four parts, after every run of several handles from a database just installed in which
the clock shows plain times, whatever they asked for and whether it succeeded. The lock is free for what is asked
then.
1. Every row of jobs, repositories, reviews and responses can be read back.
2. An operation that always answers answers no error.
3. Nor does a call of such an operation under way, whatever other handles did since it was asked for.
4. A running job is completed with any text and failed with any message, by the first statement of the call. -/
theorem operations_answer (as : List Action) (hclock : ∀ a ∈ as, a.now.IsPlain) :
    let w := Site.fresh.after as
    let c : Connection := { database := w.database }
    w.database.Readable ∧
    (∀ (now : Timestamp) (op : Operation), now.IsPlain → op.alwaysAnswers = true →
      (c.perform now op).answer.isOk = true) ∧
    (∀ (a : Action) (e : Event), a.now.IsPlain → a.locked = false → (w.step a).2 = some e →
      e.operation.alwaysAnswers = true → e.answer.isOk = true) ∧
    ∀ r ∈ w.database.rows "review_jobs", r.HasStatus .running → ∀ op : Operation, op.resolves r.id = true →
      (∀ now : Timestamp, now.IsPlain → (c.perform now op).answer.isOk = true) ∧
      ∀ a : Action, a.now.IsPlain → a.locked = false → w.call a = .asked op →
        ∃ e, (w.step a).2 = some e ∧ e.operation = op ∧ e.answer.isOk = true := by
  intro w c
  have hw : w.Sound := Site.sound as hclock
  obtain ⟨-, -, hreviewed⟩ := Site.reviewed as
  refine ⟨hw.database.readable, fun now op hnow hop => ?_, fun a e hnow hlock he hop => ?_, fun r hr hrun op hop => ?_⟩
  · have hfinish := Call.finish_isOk (c := c) (.asked op) hw.database rfl hnow (Call.findsPath_asked op _) hop
    rw [Call.finish_asked] at hfinish
    exact hfinish
  · obtain ⟨hanswer, -, hoperation⟩ := Site.step_event.mp he
    rw [hoperation] at hop
    exact Call.run_isOk (c := w.connection a) hw.database hlock hnow (hw.findsPath a) hop hanswer
  · have hresolves : ∀ (c : Connection) (now : Timestamp), c.database = w.database → c.locked = false → now.IsPlain →
        ∃ answer, ((Call.asked op).run c now).1 = .answered answer ∧ answer.isOk = true := by
      intro c now hc hlock hnow
      rw [← hc] at hr
      exact Call.run_resolves (hc ▸ hw.database.current) hlock hnow hr hrun
        (hc ▸ hreviewed.not_reviews_of_running (hc ▸ hr) hrun) hop
    constructor
    · intro now hnow
      obtain ⟨answer, hanswer, hok⟩ := hresolves c now rfl rfl hnow
      rw [Call.perform_of_run hanswer]
      exact hok
    · intro a hnow hlock hcall
      obtain ⟨answer, hanswer, hok⟩ := hresolves (w.connection a) a.now rfl hlock hnow
      exact ⟨⟨a.handle, op, answer⟩, Site.step_event.mpr ⟨by rw [hcall]; exact hanswer, rfl, by rw [hcall]; rfl⟩, rfl, hok⟩

/-- A run in which calls fail: a commit of the year 12000 is stored and cannot be read back, and a job is refused for its
repository. One job is queued then, and claimed. -/
def Site.farCommit : List Action :=
  let far : Timestamp := ⟨⟨12000, 1, 1, by decide⟩, Timestamp.epoch.time⟩
  let far : CommitInfo := ⟨1, "\u0000", "author", "subject", far⟩
  [⟨0, .registerRepo ⟨bytesOf "/work"⟩, .epoch, false⟩, ⟨0, .version, .epoch, false⟩, ⟨0, .version, .epoch, false⟩,
    ⟨1, .storeCommit far, .epoch, false⟩, ⟨1, .version, .epoch, false⟩, ⟨1, .version, .epoch, false⟩,
    ⟨2, .enqueue ⟨7, none, "main", "codex"⟩, .epoch, false⟩, ⟨2, .enqueue ⟨1, some 1, "main", "codex"⟩, .epoch, false⟩,
    ⟨3, .claim "worker", .epoch, false⟩]

/-- Two calls of the run failed. After it jobs are counted and claimed, and the job that is running is completed. -/
theorem operations_answer_farCommit :
    let w := Site.fresh.after Site.farCommit
    let c : Connection := { database := w.database }
    ((Site.fresh.history Site.farCommit).filter fun e => !e.answer.isOk).length = 2 ∧
    (c.perform .epoch .counts).answer.isOk = true ∧
    (∃ e, (w.step ⟨3, .claim "worker", .epoch, false⟩).2 = some e ∧ e.answer.isOk = true) ∧
    ∃ r ∈ w.database.rows "review_jobs", r.HasStatus .running ∧
      (c.perform .epoch (.complete r.id ⟨"agent", "prompt", "output"⟩)).answer.isOk = true := by
  intro w c
  obtain ⟨-, hanswers, hcalls, hresolves⟩ := operations_answer Site.farCommit (by decide)
  have hclaim : (w.step ⟨3, .claim "worker", .epoch, false⟩).2.map (·.operation.alwaysAnswers) = some true := by
    decide +kernel
  obtain ⟨e, he, hop⟩ := Option.map_eq_some_iff.mp hclaim
  have hrunning : ∃ r ∈ w.database.rows "review_jobs", r.HasStatus .running := by decide +kernel
  obtain ⟨r, hr, hrun⟩ := hrunning
  refine ⟨by decide +kernel, hanswers .epoch .counts (by decide) rfl, ⟨e, he, hcalls _ e (by decide) rfl he hop⟩, r, hr,
    hrun, ?_⟩
  exact (hresolves r hr hrun (.complete r.id _) (decide_eq_true rfl)).1 .epoch (by decide)

end ReviewQueue
