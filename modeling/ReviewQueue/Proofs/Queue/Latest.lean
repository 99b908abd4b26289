import ReviewQueue.Proofs.Queue.Stored
import ReviewQueue.Proofs.Time.Instants

/-!
# The latest completion wins

A completion adds its review as the last row of reviews, and no other statement touches them. So the rows of reviews are the
completions of a run in their order. Of the reviews of a commit the one that is found is the one whose job finished last, by the
texts in which the times are stored. Where the clock goes ahead from one completion to the next, that is the last completion.
-/

namespace ReviewQueue

/-- The review that a call answered that completed a job. -/
def Event.review? (e : Event) : Option Review :=
  match e.operation, e.answer with
  | .complete .., .ok (.review v) => some v
  | _, _ => none

/-- A job that was completed: what the clock showed then, and the review that was answered. -/
structure Completed where
  time : Timestamp
  review : Review
  deriving DecidableEq, Repr

namespace Site

/-- The completions in the course of some actions, in their order. -/
def completions : Site → List Action → List Completed
  | _, [] => []
  | w, a :: as => ((w.step a).2.bind (·.review?)).toList.map (⟨a.now, ·⟩) ++ completions (w.step a).1 as

end Site

/-! ## The rows of reviews -/

/-- A row of reviews is what a completion left. -/
structure Row.Records (r : Row) (x : Completed) : Prop where
  reads : Review.ofRecord (Review.recordOf r) = .ok x.review
  job : r.cell "job_id" = .int x.review.jobId
  created : r.cell "created_at" = .ofString x.time.stored

/-- The row that is added when a job is completed is what the completion leaves. -/
theorem Connection.reviewing_records {now : Timestamp} {job id : Int} {text : ReviewText} {v : Review}
    (h : Review.ofRecord (Review.recordOf ((reviewing now job text).row .reviews id)) = .ok v) :
    ((reviewing now job text).row .reviews id).Records ⟨now, v⟩ := by
  have hholds := reviewing_holds now job id text
  let y : Entity := .review ⟨id, job, text.agent, text.prompt, text.output, now⟩
  have hwritten : v.jobId = job := by
    have hcell := (Entity.eq_of_written (x := .review v) (y := y) rfl hholds h).2
    exact Cell.int.inj (hcell.symm.trans hholds.jobId)
  exact ⟨h, hwritten ▸ hholds.jobId, hholds.createdAt⟩

/-- The row of a statement that adds an entity comes after the other rows. -/
theorem Database.Intact.rows_of_adds {db db' : Database} (h : db.Intact) {s : Insertion} {g : Guard} {t new : Table} {id : Int}
    (hs : s.AddsEntity) (hadds : s.Adds g db t new id db') : db'.rows s.table = db.rows s.table ++ [s.row t.layout id] := by
  cases (hs.number_eq h hadds.table).symm.trans hadds.number
  obtain ⟨l, hl, hname, -⟩ := hs
  have hgapless := h.gapless l hl t (by rw [← hname]; exact hadds.table)
  have hstrict := h.isCurrent.isStrict (List.mem_cons_of_mem _ hl) (by rw [← hname]; exact hadds.table)
  rw [rows_of_table? hadds.table, rows_of_table? hadds.table?_self]
  exact (hgapless.insert? (Insertion.row_id ..) (hadds.inserted hstrict)).1

/-- An effect adds the row of the job that it completes, if it completes one, after the other reviews. -/
theorem Effect.rows_reviews {c : Connection} {now : Timestamp} {op : Operation} {p : Progress} {db : Database}
    (h : Effect c now op p db) (hdb : c.database.Intact) (handle : Nat) :
    ∃ new, db.rows "reviews" = c.database.rows "reviews" ++ new ∧
      List.Forall₂ Row.Records new (((p.event? handle op).bind (·.review?)).toList.map (⟨now, ·⟩)) := by
  obtain ⟨u, hu, hl⟩ := hdb.isCurrent.jobs
  have reviewsApart : "reviews" ≠ "review_jobs" := by decide
  have stays : db.table? "reviews" = c.database.table? "reviews" → ((p.event? handle op).bind (·.review?)) = none →
      ∃ new, db.rows "reviews" = c.database.rows "reviews" ++ new ∧
        List.Forall₂ Row.Records new (((p.event? handle op).bind (·.review?)).toList.map (⟨now, ·⟩)) := by
    intro hsame hnone
    rw [hnone]
    exact ⟨[], by rw [Database.rows_congr hsame, List.append_nil], .nil⟩
  cases h with
  | aside changes same _ =>
    refine stays (same _ (Or.inr rfl)) ?_
    cases p with
    | next => rfl
    | answered answer => cases op <;> first | rfl | cases changes
  | refused agrees _ => exact stays (agrees _) (by cases op <;> rfl)
  | missed agrees => exact stays (agrees _) rfl
  | waiting _ _ _ agrees => exact stays (agrees _) rfl
  | enqueued adds => exact stays (adds.table?_of_ne reviewsApart) rfl
  | claimed _ takes _ => exact stays (takes.table?_of_ne reviewsApart) rfl
  | failed takes _ _ => exact stays (takes.table?_of_ne reviewsApart) rfl
  | requeued gives => exact stays (gives.table?_of_ne reviewsApart) rfl
  | completed takes number running adds reads =>
    cases hu.symm.trans takes.table
    have hdone := hdb.of_gives (Connection.finishing_moves ..) hl takes.toGives
    have hlayout := hdone.layout_eq (l := .reviews) (by simp [Layout.entities]) adds.table
    have hrows := hdone.rows_of_adds (Connection.reviewing_addsEntity ..) adds
    rw [hlayout] at hrows
    refine ⟨_, ?_, .cons (Connection.reviewing_records reads) .nil⟩
    rw [← Database.rows_congr (takes.table?_of_ne reviewsApart)]
    exact hrows

namespace Site

/-- The rows of reviews after a run are the completions of it, in their order. -/
theorem after_records {w : Site} (hw : w.database.Intact) {xs : List Completed}
    (h : List.Forall₂ Row.Records (w.database.rows "reviews") xs) (as : List Action) :
    List.Forall₂ Row.Records ((w.after as).database.rows "reviews") (xs ++ w.completions as) := by
  induction as generalizing w xs with
  | nil =>
    rw [completions, List.append_nil]
    exact h
  | cons a as ih =>
    have hintact : (w.step a).1.database.Intact := by
      rw [step_database]
      exact (Call.run_intact (c := w.connection a) hw rfl a.now (w.call a)).1
    obtain ⟨new, hrows, hnew⟩ := (step_effect hw.isCurrent a).rows_reviews (c := w.connection a) hw a.handle
    rw [← step_event?] at hnew
    rw [completions, ← List.append_assoc]
    refine ih hintact ?_
    rw [hrows]
    exact List.rel_append h hnew

theorem fresh_records (as : List Action) :
    List.Forall₂ Row.Records ((fresh.after as).database.rows "reviews") (fresh.completions as) := by
  have hnone : fresh.database.rows "reviews" = [] := by decide
  have hstart : List.Forall₂ Row.Records (fresh.database.rows "reviews") [] := by
    rw [hnone]
    exact .nil
  exact after_records fresh_intact hstart as

end Site

/-! ## The candidates for a hash -/

/-- Whether a number is that of a job of the commit that is stored under a hash. -/
def Database.IsJobOf (db : Database) (sha : String) (id : Int) : Prop :=
  ∃ j ∈ db.rows "review_jobs", j.id = id ∧
    ∃ w ∈ db.rows "commits", w.cell "sha" = .ofString sha ∧ j.cell "commit_id" = .int w.id

instance (db : Database) (sha : String) (id : Int) : Decidable (db.IsJobOf sha id) := by
  unfold Database.IsJobOf
  infer_instance

namespace Candidate

/-- Of candidates that finished one after the other the last one is the best. -/
theorem best?_eq_getLast? {xs : List Candidate} {times : List Int} (h : xs.map (·.finished) = times.map some)
    (hasc : times.Pairwise (· < ·)) : best? xs = xs.getLast? := by
  have hfold : ∀ (ys : List Candidate) (x : Candidate) (ts : List Int), (x :: ys).map (·.finished) = ts.map some →
      ts.Pairwise (· < ·) → some (ys.foldl (fun a b => if b.beats a then b else a) x) = (x :: ys).getLast? := by
    intro ys
    induction ys with
    | nil => exact fun x ts _ _ => rfl
    | cons y ys ih =>
      intro x ts hts hasc
      obtain _ | ⟨t, _ | ⟨u, ts⟩⟩ := ts
      · simp at hts
      · simp at hts
      · simp only [List.map_cons, List.cons.injEq] at hts
        have hlt : t < u := (List.pairwise_cons.mp hasc).1 u (by simp)
        have hbeats : y.beats x = true := by
          unfold beats
          rw [hts.1, hts.2.1]
          simp [hlt]
        rw [List.foldl_cons, if_pos hbeats, ih y (u :: ts) (by simp [hts]) (List.pairwise_cons.mp hasc).2,
          List.getLast?_cons_cons]
  cases xs with
  | nil => rfl
  | cons x xs => exact hfold xs x times h hasc

end Candidate

namespace Connection

/-- A number is compared with a cell as the number that the cell is or spells. -/
theorem joins_eq {a b : Column} (ha : a.kind.isNumeric = true) (n : Int) (y : Cell) :
    joins a (.int n) b y = Cell.same y.asNumber (.int n) := by
  unfold joins
  rw [ha, Bool.true_or, if_pos rfl]
  exact Cell.same_int_comm n _

/-- A column that refers to another table is compared with the number of a row there. -/
theorem joins_int {a b : Column} (ha : a.kind.isNumeric = true) (n : Int) {y : Cell} (hy : y = .null ∨ ∃ m, y = .int m) :
    joins a (.int n) b y = decide (y = .int n) := by
  rw [joins_eq ha]
  obtain rfl | ⟨m, rfl⟩ := hy
  · rfl
  · rw [show (Cell.int m).asNumber = .int m from rfl, Cell.same_int, decide_eq_decide, Cell.int.injEq]

end Connection

/-- A candidate is what a completion left. -/
structure Candidate.Records (a : Candidate) (x : Completed) : Prop where
  reads : Review.ofRecord a.record = .ok x.review
  finished : a.finished = some (JulianDay.ofNanos x.time.unixNanos)

/-- The job that a completion took to its end, by the row of reviews that it left: it is done and has the time. -/
theorem Reviewed.exists_job {db : Database} {es : List Event} (h : Reviewed db es) {r : Row} (hr : r ∈ db.rows "reviews")
    {x : Completed} (hx : r.Records x) : ∃ j ∈ db.rows "review_jobs", j.id = x.review.jobId ∧ j.HasStatus .done ∧
      j.cell "finished_at" = .ofString x.time.stored := by
  obtain ⟨j, hj, hdone, hjob⟩ := h.job r hr
  obtain ⟨v, hv, text, -, hreview, -⟩ := h.review j hj hdone
  cases h.distinct v hv r hr (hreview.job.trans hjob.symm)
  exact ⟨j, hj, Cell.int.inj (hjob.symm.trans hx.job), hdone, hreview.created.symm.trans hx.created⟩

namespace Connection

variable {db : Database} {j : Row}

/-- The column of reviews that refers to jobs. -/
def jobColumn : Column := { Column.linkRequired "job_id" "review_jobs" with unique := true }

/-- The candidate that a review of a job is. -/
def candidateOf (now : Timestamp) (v j : Row) : Candidate where
  record := Review.recordOf v
  finished := JulianDay.ofCell? (JulianDay.ofTimestamp now) (j.cell "finished_at")
  job := .int j.id

/-- In the current layout the candidates for a hash are the reviews with the done jobs they refer to, once for each row of the hash
that the job refers to. -/
theorem candidates_eq (hdb : db.IsCurrent) (now : Timestamp) (sha : String) {reviews jobs commits : Table}
    (hreviews : db.table? "reviews" = some reviews) (hjobs : db.table? "review_jobs" = some jobs)
    (hcommits : db.table? "commits" = some commits) : candidates now sha reviews jobs commits =
      (db.rows "reviews").flatMap fun v =>
        (((db.rows "review_jobs").filter fun j => j.hasAll .jobs [("status", JobStatus.done.cell)]).filter fun j =>
          joins (.key "id") (j.get (.key "id")) jobColumn (v.get jobColumn)).flatMap fun j =>
            (((db.rows "commits").filter fun w => w.hasAll .commits [("sha", .ofString sha)]).filter fun w => joins (.key "id")
              (w.get (.key "id")) (.link "commit_id" "commits") (j.get (.link "commit_id" "commits"))).map fun _ =>
                candidateOf now v j := by
  have hrl : reviews.layout = .reviews := hdb.layout_eq (l := .reviews) (by simp [Layout.current]) hreviews
  have hjl : jobs.layout = .jobs := hdb.layout_eq (l := .jobs) (by simp [Layout.current]) hjobs
  have hcl : commits.layout = .commits := hdb.layout_eq (l := .commits) (by simp [Layout.current]) hcommits
  have hcolumns : Layout.reviews.column? "job_id" = some jobColumn ∧ Layout.jobs.column? "id" = some (.key "id") ∧
      Layout.jobs.column? "commit_id" = some (.link "commit_id" "commits") ∧
      Layout.jobs.column? "finished_at" = some (.text "finished_at") ∧ Layout.commits.column? "id" = some (.key "id") := by
    decide
  obtain ⟨hc1, hc2, hc3, hc4, hc5⟩ := hcolumns
  unfold candidates
  simp only [hrl, hjl, hcl, hc1, hc2, hc3, hc4, hc5, ← Database.rows_of_table? hreviews, ← Database.rows_of_table? hjobs,
    ← Database.rows_of_table? hcommits]
  rfl

/-- The job of a review is the only one that is done and has the number that the review refers to. -/
theorem filter_done_eq (hj : j ∈ db.rows "review_jobs") (hdone : j.HasStatus .done) {r : Row} (hr : r.cell "job_id" = .int j.id) :
    ((db.rows "review_jobs").filter fun x => x.hasAll .jobs [("status", JobStatus.done.cell)]).filter
      (fun x => joins (.key "id") (x.get (.key "id")) jobColumn (r.get jobColumn)) = [j] := by
  have hget : r.get jobColumn = .int j.id := (Row.get_of_isKey_false r rfl).trans hr
  rw [List.filter_filter]
  refine Database.filter_rows_eq_singleton hj fun x hx => ?_
  rw [Row.get_of_isKey x rfl, hget, joins_int (by decide) _ (Or.inr ⟨_, rfl⟩), Row.hasAll_status, Bool.and_eq_true,
    decide_eq_true_eq, decide_eq_true_eq]
  constructor
  · rintro ⟨hid, -⟩
    exact Database.rows_eq_of_id_eq hx hj (Cell.int.inj hid).symm
  · rintro rfl
    exact ⟨rfl, hdone⟩

/-- The commit that is stored under a hash is found once for a job of it, and not for other jobs. -/
theorem map_wanted_eq (hdb : db.Intact) (hj : j ∈ db.rows "review_jobs") (sha : String) (a : Candidate) :
    (((db.rows "commits").filter fun w => w.hasAll .commits [("sha", .ofString sha)]).filter fun w =>
      joins (.key "id") (w.get (.key "id")) (.link "commit_id" "commits") (j.get (.link "commit_id" "commits"))).map (fun _ => a) =
      if db.IsJobOf sha j.id then [a] else [] := by
  have hlink : j.cell "commit_id" = .null ∨ ∃ n, j.cell "commit_id" = .int n := by
    obtain hnull | ⟨x, -, hx⟩ := hdb.null_or_parent (l := .jobs) (c := .link "commit_id" "commits")
      (by simp [Layout.entities]) (by decide) rfl rfl hj
    · exact Or.inl hnull
    · exact Or.inr ⟨x.id, hx⟩
  have hcommit : j.get (.link "commit_id" "commits") = j.cell "commit_id" := Row.get_of_isKey_false j rfl
  have hsha : ∀ w : Row, w.hasAll .commits [("sha", .ofString sha)] = decide (w.cell "sha" = .ofString sha) :=
    (Key.hash sha).hasAll_eq
  have hchosen : ∀ w : Row, (joins (.key "id") (w.get (.key "id")) (.link "commit_id" "commits")
      (j.get (.link "commit_id" "commits")) && w.hasAll .commits [("sha", .ofString sha)]) = true ↔
      w.cell "sha" = .ofString sha ∧ j.cell "commit_id" = .int w.id := by
    intro w
    rw [Row.get_of_isKey w rfl, hcommit, joins_int (by decide) _ hlink, hsha, Bool.and_eq_true, decide_eq_true_eq,
      decide_eq_true_eq, and_comm]
  rw [List.filter_filter]
  split
  next hof =>
    obtain ⟨x, hx, hid, w, hw, hsha, hcommit⟩ := hof
    cases Database.rows_eq_of_id_eq hx hj hid
    have honly : ∀ y ∈ db.rows "commits", y.cell "sha" = .ofString sha ∧ j.cell "commit_id" = .int y.id ↔ y = w := by
      intro y hy
      constructor
      · rintro ⟨-, h⟩
        exact Database.rows_eq_of_id_eq hy hw (Cell.int.inj (h.symm.trans hcommit))
      · rintro rfl
        exact ⟨hsha, hcommit⟩
    rw [Database.filter_rows_eq_singleton hw fun y hy => (hchosen y).trans (honly y hy)]
    rfl
  next hof =>
    have hnone : (db.rows "commits").filter _ = [] := List.filter_eq_nil_iff.mpr fun w hw hc =>
      hof ⟨j, hj, rfl, w, hw, (hchosen w).mp hc⟩
    rw [hnone]
    rfl

/-- The candidates for a hash are what the completions of jobs of its commit left, in their order. -/
theorem candidates_records {es : List Event} (hdb : db.Intact) (hrev : Reviewed db es) (now : Timestamp)
    (sha : String) {reviews jobs commits : Table} (hreviews : db.table? "reviews" = some reviews)
    (hjobs : db.table? "review_jobs" = some jobs) (hcommits : db.table? "commits" = some commits) {xs : List Completed}
    (hxs : List.Forall₂ Row.Records (db.rows "reviews") xs) (hclock : ∀ x ∈ xs, x.time.IsReading) :
    List.Forall₂ Candidate.Records (candidates now sha reviews jobs commits)
      (xs.filter fun x => db.IsJobOf sha x.review.jobId) := by
  rw [candidates_eq hdb.isCurrent now sha hreviews hjobs hcommits]
  refine forall₂_flatMap_filter hxs fun r hr x hx hrecords => ?_
  obtain ⟨j, hj, hid, hdone, hfinished⟩ := hrev.exists_job hr hrecords
  have hjob : r.cell "job_id" = .int j.id := by rw [hid, hrecords.job]
  rw [filter_done_eq hj hdone hjob, List.flatMap_singleton, map_wanted_eq hdb hj, hid]
  split
  next => exact .cons ⟨hrecords.reads, by rw [candidateOf, hfinished, JulianDay.ofCell?_stored (hclock x hx)]⟩ .nil
  next => exact .nil

end Connection

/-- A job was completed in the course of a run exactly if one of the completions is of the job. -/
theorem Site.exists_completes_iff (as : List Action) (id : Int) :
    (∃ e ∈ fresh.history as, e.completes id = true) ↔ ∃ x ∈ fresh.completions as, x.review.jobId = id := by
  obtain ⟨-, -, hrev⟩ := reviewed as
  have hrecords := fresh_records as
  constructor
  · rintro ⟨e, he, hcompletes⟩
    obtain ⟨j, hj, hid, hdone⟩ := hrev.event e he id hcompletes
    obtain ⟨r, hr, text, -, hreview, -⟩ := hrev.review j hj hdone
    obtain ⟨x, hx, hrx⟩ := exists_of_forall₂ hrecords hr
    exact ⟨x, hx, (Cell.int.inj (hrx.job.symm.trans hreview.job)).trans hid⟩
  · rintro ⟨x, hx, rfl⟩
    obtain ⟨r, hr, hrx⟩ := exists_of_forall₂ (R := fun (x : Completed) (r : Row) => r.Records x) hrecords.flip hx
    obtain ⟨j, hj, hid, hdone, -⟩ := hrev.exists_job hr hrx
    obtain ⟨-, -, -, e, -, hes, -⟩ := hrev.review j hj hdone
    have he := List.mem_filter.mp (hes ▸ List.mem_singleton_self e)
    exact ⟨e, he.1, hid ▸ he.2⟩

/-- Where the clock advances from one completion to the next, the review that is found for a hash is that of the last completion
of a job of its commit. -/
theorem Connection.findReviewBySha_eq {c : Connection} {es : List Event} (hdb : c.database.Intact) (hrev : Reviewed c.database es)
    {xs : List Completed} (hxs : List.Forall₂ Row.Records (c.database.rows "reviews") xs)
    (hclock : Timestamp.Advance (xs.map (·.time))) (now : Timestamp) (sha : String) : c.findReviewBySha now sha = .ok
      ((xs.filter fun x => c.database.IsJobOf sha x.review.jobId).map (·.review)).getLast? := by
  obtain ⟨reviews, jobs, commits, hreviews, -, hjobs, hcommits, hfound⟩ := exists_candidates hdb.isCurrent now sha
  have hcandidates := candidates_records hdb hrev now sha hreviews hjobs hcommits hxs fun x hx =>
    hclock.readings x.time (List.mem_map_of_mem hx)
  generalize candidates now sha reviews jobs commits = cs at hcandidates hfound
  generalize hys : (xs.filter fun x => c.database.IsJobOf sha x.review.jobId) = ys at hcandidates ⊢
  have hascending : ((ys.map (·.time)).map fun t => JulianDay.ofNanos t.unixNanos).Pairwise (· < ·) := by
    rw [← hys]
    exact (JulianDay.pairwise_ofNanos hclock).sublist ((List.filter_sublist.map _).map _)
  have hfinished : cs.map (·.finished) = ((ys.map (·.time)).map fun t => JulianDay.ofNanos t.unixNanos).map some := by
    rw [List.map_map, List.map_map]
    exact (map_eq_of_forall₂ hcandidates fun a _ x hax => hax.finished).symm
  have hread : ys.map (fun x => Except.ok x.review) = cs.map fun a => Review.ofRecord a.record :=
    map_eq_of_forall₂ hcandidates fun a _ x hax => hax.reads
  have hlast := congrArg List.getLast? hread
  rw [List.getLast?_map, List.getLast?_map] at hlast
  rw [hfound, Candidate.best?_eq_getLast? hfinished hascending, List.getLast?_map]
  cases hcs : cs.getLast? with
  | none =>
    rw [hcs, Option.map_none, Option.map_eq_none_iff] at hlast
    rw [hlast]
    rfl
  | some a =>
    rw [hcs, Option.map_some, Option.map_eq_some_iff] at hlast
    obtain ⟨x, hx, hax⟩ := hlast
    rw [hx]
    simp only [← hax]
    rfl

/-- The latest completion wins, in three parts, after every run of several handles from a database just installed in which the
clock advances from one completion to the next.
1. The review that is found for a hash is that of the last completion among the jobs of the commit that is stored under it,
   whatever else happened to these jobs and to others.
2. None is found if and only if no call completed such a job.
3. The review that is found is the one that is found by its job. -/
theorem latest_completion_wins (as : List Action) (hclock : Timestamp.Advance ((Site.fresh.completions as).map (·.time)))
    (sha : String) (now : Timestamp) (enforcing locked : Bool) :
    let db := (Site.fresh.after as).database
    let c : Connection := ⟨db, enforcing, locked⟩
    (c.findReviewBySha now sha = .ok
      (((Site.fresh.completions as).map (·.review)).filter fun v => db.IsJobOf sha v.jobId).getLast?) ∧
    (c.findReviewBySha now sha = .ok none ↔
      ∀ e ∈ Site.fresh.history as, ∀ id, e.completes id = true → ¬db.IsJobOf sha id) ∧
    ∀ v, c.findReviewBySha now sha = .ok (some v) → c.findReviewByJob v.jobId = .ok (some v) := by
  intro db c
  obtain ⟨-, -, hrev⟩ := Site.reviewed as
  have hkept : c.database.Kept := Site.after_kept Site.fresh_kept as
  have hfound : c.findReviewBySha now sha = .ok
      (((Site.fresh.completions as).filter fun x => db.IsJobOf sha x.review.jobId).map (·.review)).getLast? :=
    Connection.findReviewBySha_eq (c := c) hkept.intact hrev (Site.fresh_records as) hclock now sha
  refine ⟨?_, ?_, fun v hv => ?_⟩
  · rw [hfound, List.filter_map]
    rfl
  · rw [hfound, Except.ok.injEq, List.getLast?_eq_none_iff, List.map_eq_nil_iff, List.filter_eq_nil_iff]
    simp only [decide_eq_true_eq]
    constructor
    · intro hnone e he id hcompletes hof
      obtain ⟨x, hx, rfl⟩ := (Site.exists_completes_iff as id).mp ⟨e, he, hcompletes⟩
      exact hnone x hx hof
    · intro hnone x hx hof
      obtain ⟨e, he, hcompletes⟩ := (Site.exists_completes_iff as x.review.jobId).mpr ⟨x, hx, rfl⟩
      exact hnone e he _ hcompletes hof
  · exact ((Entity.stored_of_findReviewBySha hkept.intact.isCurrent hv).review_found hkept now).1

/-- A few milliseconds after the epoch. -/
def Timestamp.afterEpoch (millis : Fin 10) : Timestamp :=
  have hreal : ∀ m : Fin 10, TimeOfDay.isReal 0 0 0 (m * 1000000) = true := by decide
  ⟨epoch.date, ⟨0, 0, 0, millis * 1000000, hreal millis⟩⟩

/-- Two jobs of a commit are queued and claimed, and the one that was queued first is completed last. -/
def Site.outOfOrder : List Action :=
  let register : Action := ⟨0, .registerRepo (.ofString "/work"), .epoch, false⟩
  let store : Action := ⟨0, .storeCommit ⟨1, "abc", "author", "subject", .epoch⟩, .epoch, false⟩
  let enqueue : Action := ⟨0, .enqueue ⟨1, some 1, "abc", "codex"⟩, .epoch, false⟩
  [register, register, register, store, store, store, enqueue, enqueue,
    ⟨1, .claim "first", .epoch, false⟩, ⟨2, .claim "second", .epoch, false⟩,
    ⟨2, .complete 2 ⟨"codex", "prompt", "early"⟩, .afterEpoch 3, false⟩,
    ⟨1, .complete 1 ⟨"codex", "prompt", "late"⟩, .afterEpoch 6, false⟩]

/-- The review that was completed last is found, though its job was queued first. -/
theorem latest_completion_wins_outOfOrder :
    Connection.findReviewBySha ⟨(Site.fresh.after Site.outOfOrder).database, true, false⟩ .epoch "abc" =
      .ok (some ⟨2, 1, "codex", "prompt", "late", .afterEpoch 6⟩) ∧
    Connection.findReviewByJob ⟨(Site.fresh.after Site.outOfOrder).database, true, false⟩ 1 =
      .ok (some ⟨2, 1, "codex", "prompt", "late", .afterEpoch 6⟩) := by
  have hcompletions : Site.fresh.completions Site.outOfOrder =
      [⟨.afterEpoch 3, ⟨1, 2, "codex", "prompt", "early", .afterEpoch 3⟩⟩,
        ⟨.afterEpoch 6, ⟨2, 1, "codex", "prompt", "late", .afterEpoch 6⟩⟩] := by decide +kernel
  have hclock : Timestamp.Advance ((Site.fresh.completions Site.outOfOrder).map (·.time)) := by
    rw [hcompletions]
    exact ⟨by decide, by decide⟩
  have hof : (Site.fresh.after Site.outOfOrder).database.IsJobOf "abc" 1 := by decide +kernel
  have hlast : (((Site.fresh.completions Site.outOfOrder).map (·.review)).filter fun v =>
      (Site.fresh.after Site.outOfOrder).database.IsJobOf "abc" v.jobId).getLast? =
        some ⟨2, 1, "codex", "prompt", "late", .afterEpoch 6⟩ := by
    rw [hcompletions, List.map_cons, List.map_cons, List.map_nil, List.filter_cons,
      List.filter_cons_of_pos (by simpa using hof), List.filter_nil]
    split <;> rfl
  obtain ⟨hfound, -, hjob⟩ := latest_completion_wins Site.outOfOrder hclock "abc" .epoch true false
  rw [hlast] at hfound
  have hsame := hjob _ hfound
  exact ⟨hfound, hsame⟩

end ReviewQueue
