import ReviewQueue.Proofs.Queue.Effects
import ReviewQueue.Proofs.Queue.Entities

/-!
# Jobs that are done and their reviews

A review is stored in the same transaction that makes its job done, and by no other statement. So over every run a job
is done exactly if it has a review; there is one, with the text of the one call that completed the job and made at the
time at which it finished. Numbers of jobs are never given again, so a job that is queued has no review yet.
-/

namespace ReviewQueue

/-- Whether a call completed the job of a number. -/
def Event.completes (id : Int) (e : Event) : Bool :=
  e.answer.isOk && match e.operation with
    | .complete job _ => job = id
    | _ => false

/-- An operation that is not there to change jobs completes none. -/
theorem Event.completes_of_changesJobs {op : Operation} (h : op.changesJobs = false) {p : Progress} {handle : Nat} {e : Event}
    (he : e ∈ (p.event? handle op).toList) (id : Int) : e.completes id = false := by
  cases p with
  | next => cases he
  | answered answer =>
    cases List.mem_singleton.mp he
    cases op <;> simp_all [completes, Operation.changesJobs]

/-- A row of reviews is the review of a job with a text: it was made at the time at which the job finished. -/
structure Row.IsReview (v r : Row) (text : ReviewText) : Prop where
  job : v.cell "job_id" = .int r.id
  agent : v.cell "agent" = .ofString text.agent
  prompt : v.cell "prompt" = .ofString text.prompt
  output : v.cell "output" = .ofString text.output
  created : v.cell "created_at" = r.cell "finished_at"
  finished : ∃ t : Timestamp, r.cell "finished_at" = .ofString t.stored

/-- What holds of the jobs and reviews of a database after some calls. -/
structure Reviewed (db : Database) (es : List Event) : Prop where
  review : ∀ r ∈ db.rows "review_jobs", r.HasStatus .done → ∃ v ∈ db.rows "reviews", ∃ text e, v.IsReview r text ∧
    es.filter (·.completes r.id) = [e] ∧ e.operation = .complete r.id text
  job : ∀ v ∈ db.rows "reviews", ∃ r ∈ db.rows "review_jobs", r.HasStatus .done ∧ v.cell "job_id" = .int r.id
  distinct : ∀ v ∈ db.rows "reviews", ∀ v' ∈ db.rows "reviews", v.cell "job_id" = v'.cell "job_id" → v = v'
  event : ∀ e ∈ es, ∀ id, e.completes id = true → ∃ r ∈ db.rows "review_jobs", r.id = id ∧ r.HasStatus .done

namespace Connection

/-- A job that is taken to its end has the time of that. -/
theorem cell_finishing (now : Timestamp) (id : Int) (target : JobStatus) (error : Option String) {r : Row} (hr : r.Fits .jobs) :
    (r.given .jobs (finishing now id target error).cells).cell "finished_at" = .ofString now.stored := by
  refine (hr.cell_given (by decide) _ (.text "finished_at") (by decide) rfl).trans ?_
  simp [Layout.isGiven, Layout.cellFor, finishing, Column.answersTo, foldedName, Column.text]

end Connection

/-- The jobs that are done and the reviews are the same. -/
structure Database.SameDone (db db' : Database) : Prop where
  jobs : ∀ r, r ∈ db'.rows "review_jobs" ∧ r.HasStatus .done ↔ r ∈ db.rows "review_jobs" ∧ r.HasStatus .done
  reviews : db'.rows "reviews" = db.rows "reviews"

/-- A completion: a running job `r` is done as `r'` and its review `v` is added; the other jobs and reviews stay. -/
structure Completion (db db' : Database) (r r' v : Row) (text : ReviewText) : Prop where
  mem : r ∈ db.rows "review_jobs"
  running : r.HasStatus .running
  done : r'.HasStatus .done
  number : r'.id = r.id
  jobs : ∀ x, x ∈ db'.rows "review_jobs" ↔ x = r' ∨ x ∈ db.rows "review_jobs" ∧ x ≠ r
  reviews : ∀ x, x ∈ db'.rows "reviews" ↔ x = v ∨ x ∈ db.rows "reviews"
  review : v.IsReview r' text

/-- A job that is done is not the one that is completed. -/
theorem Completion.ne_of_done {db db' : Database} {r r' v x : Row} {text : ReviewText} (h : Completion db db' r r' v text)
    (hx : x.HasStatus .done) : x ≠ r := by
  intro hxr
  rw [hxr] at hx
  cases hx.inj h.running

/-- Tables that stay keep what is done. -/
theorem Database.SameDone.of_tables {db db' : Database} (hjobs : db'.table? "review_jobs" = db.table? "review_jobs")
    (hreviews : db'.table? "reviews" = db.table? "reviews") : db.SameDone db' where
  jobs r := by rw [rows_congr hjobs]
  reviews := rows_congr hreviews

/-- A change that neither takes done jobs nor makes jobs done keeps what is done. -/
theorem Database.SameDone.of_moves {db db' : Database} {s : Change} {source target : JobStatus} {t : Table}
    (hs : s.MovesJobs source target) (hl : t.layout = .jobs) (hg : s.Gives db t db') (hsource : .done ≠ source)
    (htarget : .done ≠ target) : db.SameDone db' where
  jobs r := hs.mem_rows_status hl hg .done hsource htarget
  reviews := by
    refine rows_congr (hg.table?_of_ne ?_)
    rw [hs.table]
    decide

open Connection in
/-- The two statements of a completion make one. -/
theorem Completion.of_statements {db done db' : Database} {now : Timestamp} {id rid : Int} {text : ReviewText} {g : Guard}
    {t rt new : Table} {r : Row} (hfit : db.JobsFit) (hl : t.layout = .jobs) (hrl : rt.layout = .reviews)
    (htakes : (finishing now id .done none).Takes db t r done) (hid : r.id = id) (hrun : r.HasStatus .running)
    (hadds : (reviewing now id text).Adds g done rt new rid db') :
    Completion db db' r (r.given .jobs (finishing now id .done none).cells) ((reviewing now id text).row .reviews rid) text := by
  obtain ⟨hr, -, hgiven, hrows⟩ := (finishing_moves now id .done none).mem_rows_takes hl htakes
  have hjobs : db'.rows "review_jobs" = done.rows "review_jobs" :=
    Database.rows_congr (hadds.table?_of_ne (show "review_jobs" ≠ "reviews" by decide))
  obtain ⟨-, hjob, hagent, hprompt, houtput, hcreated⟩ := reviewing_holds now id rid text
  have hfinished := cell_finishing now id .done none (hfit r hr)
  refine ⟨hr, hrun, hgiven, rfl, fun x => by rw [hjobs, hrows], fun v => ?_, ?_⟩
  · rw [← hrl, ← Database.rows_congr (htakes.table?_of_ne (show "reviews" ≠ "review_jobs" by decide))]
    exact hadds.mem_rows_table (by rw [hrl]; decide)
  · exact ⟨by rw [hjob, Row.given_id, hid], hagent, hprompt, houtput, by rw [hcreated, hfinished], now, hfinished⟩

/-- An effect keeps what is done and completes no job, or it completes one. -/
theorem Effect.sameDone_or_completion {c : Connection} {now : Timestamp} {op : Operation} {p : Progress} {db : Database}
    (h : Effect c now op p db) (hdb : c.database.IsCurrent) (hfit : c.database.JobsFit) :
    (c.database.SameDone db ∧ ∀ handle, ∀ e ∈ (p.event? handle op).toList, ∀ id, e.completes id = false) ∨
    ∃ r r' v text review, Completion c.database db r r' v text ∧ op = .complete r.id text ∧
      p = .answered (.ok (.review review)) := by
  obtain ⟨u, hu, hl⟩ := hdb.jobs
  have reviewsApart : "reviews" ≠ "review_jobs" := by decide
  cases h with
  | aside changes unchanged _ =>
    exact Or.inl ⟨.of_tables (unchanged _ (Or.inl rfl)) (unchanged _ (Or.inr rfl)), fun handle e he id =>
      Event.completes_of_changesJobs changes he id⟩
  | refused agrees _ =>
    exact Or.inl ⟨.of_tables (agrees _) (agrees _), by simp [Progress.event?, Event.completes, Except.isOk, Except.toBool]⟩
  | missed agrees => exact Or.inl ⟨.of_tables (agrees _) (agrees _), by simp [Progress.event?]⟩
  | waiting _ _ _ agrees =>
    exact Or.inl ⟨.of_tables (agrees _) (agrees _), by simp [Progress.event?, Event.completes]⟩
  | enqueued adds =>
    cases hu.symm.trans adds.table
    refine Or.inl ⟨⟨fun r => ⟨?_, ?_⟩, Database.rows_congr (adds.table?_of_ne reviewsApart)⟩,
      by simp [Progress.event?, Event.completes]⟩
    · rintro ⟨hr, hs⟩
      rcases (adds.mem_rows_table (by rw [hl]; decide)).mp hr with rfl | hr
      · rw [hl] at hs
        cases hs.inj (Connection.queueing_hasStatus ..)
      · exact ⟨hr, hs⟩
    · rintro ⟨hr, hs⟩
      exact ⟨(adds.mem_rows_table (by rw [hl]; decide)).mpr (Or.inr hr), hs⟩
  | claimed _ takes _ =>
    cases hu.symm.trans takes.table
    exact Or.inl ⟨.of_moves (Connection.claiming_moves ..) hl takes.toGives (by decide) (by decide),
      by simp [Progress.event?, Event.completes]⟩
  | failed takes _ _ =>
    cases hu.symm.trans takes.table
    exact Or.inl ⟨.of_moves (Connection.finishing_moves ..) hl takes.toGives (by decide) (by decide),
      by simp [Progress.event?, Event.completes]⟩
  | completed takes number running adds reads =>
    cases hu.symm.trans takes.table
    obtain ⟨v, hv, hvl⟩ := hdb.reviews
    have hsame := takes.table?_of_ne reviewsApart
    cases hv.symm.trans (hsame.symm.trans adds.table)
    refine Or.inr ⟨_, _, _, _, _, .of_statements hfit hl hvl takes number running adds, ?_, rfl⟩
    rw [number]
  | requeued gives =>
    cases hu.symm.trans gives.table
    exact Or.inl ⟨.of_moves Connection.requeueing_moves hl gives (by decide) (by decide),
      by simp [Progress.event?, Event.completes]⟩

namespace Reviewed

variable {db db' : Database} {es new : List Event}

/-- Where what is done is the same and no job was completed, nothing is different. -/
theorem congr (h : Reviewed db es) (hsame : db.SameDone db') (hnew : ∀ e ∈ new, ∀ id, e.completes id = false) :
    Reviewed db' (es ++ new) where
  review r hr hs := by
    have hold := (hsame.jobs r).mp ⟨hr, hs⟩
    obtain ⟨v, hv, text, e, hreview, hes, he⟩ := h.review r hold.1 hold.2
    have hnone : new.filter (·.completes r.id) = [] := List.filter_eq_nil_iff.mpr fun x hx => by simp [hnew x hx r.id]
    refine ⟨v, by rw [hsame.reviews]; exact hv, text, e, hreview, ?_, he⟩
    rw [List.filter_append, hes, hnone, List.append_nil]
  job v hv := by
    rw [hsame.reviews] at hv
    obtain ⟨r, hr, hs, hjob⟩ := h.job v hv
    exact ⟨r, ((hsame.jobs r).mpr ⟨hr, hs⟩).1, hs, hjob⟩
  distinct := by
    rw [hsame.reviews]
    exact h.distinct
  event e he id hc := by
    rcases List.mem_append.mp he with he | he
    · obtain ⟨r, hr, hid, hs⟩ := h.event e he id hc
      exact ⟨r, ((hsame.jobs r).mpr ⟨hr, hs⟩).1, hid, hs⟩
    · rw [hnew e he id] at hc
      cases hc

/-- A job that is not done has no review, and no call completed it. -/
theorem none_of_running (h : Reviewed db es) {r : Row} (hr : r ∈ db.rows "review_jobs") (hs : r.HasStatus .running) :
    (∀ v ∈ db.rows "reviews", v.cell "job_id" ≠ .int r.id) ∧ es.filter (·.completes r.id) = [] := by
  constructor
  · intro v hv hjob
    obtain ⟨x, hx, hdone, hxjob⟩ := h.job v hv
    have hid : x.id = r.id := by simpa using hxjob.symm.trans hjob
    rw [Database.rows_eq_of_id_eq hx hr hid] at hdone
    cases hdone.inj hs
  · refine List.filter_eq_nil_iff.mpr ?_
    intro e he hc
    obtain ⟨x, hx, hid, hdone⟩ := h.event e he r.id hc
    rw [Database.rows_eq_of_id_eq hx hr hid] at hdone
    cases hdone.inj hs

/-- A completion makes one more job done, adds its review and is the first completion of the job. -/
theorem complete (h : Reviewed db es) {r r' v : Row} {text : ReviewText} (hc : Completion db db' r r' v text) {e : Event}
    (he : e.operation = .complete r.id text) (hok : e.answer.isOk = true) : Reviewed db' (es ++ [e]) := by
  obtain ⟨hnoreview, hnoevent⟩ := h.none_of_running hc.mem hc.running
  have hcompletes : ∀ n, e.completes n = decide (r.id = n) := fun n => by simp [Event.completes, he, hok]
  have hjob : v.cell "job_id" = .int r.id := by rw [hc.review.job, hc.number]
  have hafter : r' ∈ db'.rows "review_jobs" := (hc.jobs r').mpr (Or.inl rfl)
  refine ⟨?_, ?_, ?_, ?_⟩
  · intro x hx hs
    rcases (hc.jobs x).mp hx with rfl | ⟨hx, hxr⟩
    · refine ⟨v, (hc.reviews v).mpr (Or.inl rfl), text, e, hc.review, ?_, by rw [he, hc.number]⟩
      rw [List.filter_append, hc.number, hnoevent, List.nil_append]
      simp [hcompletes]
    · have hne : r.id ≠ x.id := fun hn => hxr (Database.rows_eq_of_id_eq hx hc.mem hn.symm)
      obtain ⟨v', hv', text', e', hreview, hes, he'⟩ := h.review x hx hs
      refine ⟨v', (hc.reviews v').mpr (Or.inr hv'), text', e', hreview, ?_, he'⟩
      rw [List.filter_append, hes]
      simp [hcompletes, hne]
  · intro x hx
    rcases (hc.reviews x).mp hx with rfl | hx
    · exact ⟨r', hafter, hc.done, hc.review.job⟩
    · obtain ⟨y, hy, hs, hyjob⟩ := h.job x hx
      exact ⟨y, (hc.jobs y).mpr (Or.inr ⟨hy, hc.ne_of_done hs⟩), hs, hyjob⟩
  · intro x hx y hy hsame
    rcases (hc.reviews x).mp hx with rfl | hx <;> rcases (hc.reviews y).mp hy with rfl | hy
    · rfl
    · exact absurd (hsame.symm.trans hjob) (hnoreview y hy)
    · exact absurd (hsame.trans hjob) (hnoreview x hx)
    · exact h.distinct x hx y hy hsame
  · intro x hx n hn
    rcases List.mem_append.mp hx with hx | hx
    · obtain ⟨y, hy, hyid, hs⟩ := h.event x hx n hn
      exact ⟨y, (hc.jobs y).mpr (Or.inr ⟨hy, hc.ne_of_done hs⟩), hyid, hs⟩
    · cases List.mem_singleton.mp hx
      rw [hcompletes, decide_eq_true_eq] at hn
      exact ⟨r', hafter, hc.number.trans hn, hc.done⟩

end Reviewed

/-- An effect keeps what holds of jobs and reviews. -/
theorem Effect.reviewed {c : Connection} {now : Timestamp} {op : Operation} {p : Progress} {db : Database} {es : List Event}
    (h : Effect c now op p db) (hdb : c.database.IsCurrent) (hfit : c.database.JobsFit) (hrev : Reviewed c.database es)
    (handle : Nat) : Reviewed db (es ++ (p.event? handle op).toList) := by
  rcases h.sameDone_or_completion hdb hfit with ⟨hsame, hnew⟩ | ⟨r, r', v, text, review, hc, rfl, rfl⟩
  · exact hrev.congr hsame (hnew handle)
  · exact hrev.complete hc rfl rfl

/-- Jobs and reviews go together after every run. -/
theorem Site.reviewed (as : List Action) : (fresh.after as).database.IsCurrent ∧ (fresh.after as).database.JobsFit ∧
    Reviewed (fresh.after as).database (fresh.history as) := by
  have hjobs : Database.current.rows "review_jobs" = [] := by decide
  have hreviews : Database.current.rows "reviews" = [] := by decide
  refine run_induction (P := fun w es => w.database.IsCurrent ∧ w.database.JobsFit ∧ Reviewed w.database es)
    (fun _ => True) ⟨by decide, ?_, ?_⟩ ?_ as fun _ _ => trivial
  · intro r hr
    cases hjobs ▸ hr
  · refine ⟨?_, ?_, ?_, fun e he => by cases he⟩
    · intro r hr
      cases hjobs ▸ hr
    · intro v hv
      cases hreviews ▸ hv
    · intro v hv
      cases hreviews ▸ hv
  · rintro w es a - ⟨hdb, hfit, hrev⟩
    have heffect := step_effect hdb a
    rw [step_event?]
    exact ⟨heffect.isCurrent hdb, heffect.jobsFit hdb hfit, heffect.reviewed hdb hfit hrev a.handle⟩

/-- A job is done exactly if it has a review, in three parts, after every run of several handles from a database just
installed.
1. A job is done if and only if a row of reviews has its number.
2. If it is done there is one such row. It has the text of the one call that completed the job, and the time at which
   the job finished.
3. Every row of reviews has the number of a job. -/
theorem review_iff_done (as : List Action) :
    let db := (Site.fresh.after as).database
    (∀ r ∈ db.rows "review_jobs", r.HasStatus .done ↔ ∃ v ∈ db.rows "reviews", v.cell "job_id" = .int r.id) ∧
    (∀ r ∈ db.rows "review_jobs", r.HasStatus .done → ∃ v text e,
      (db.rows "reviews").filter (fun v => v.cell "job_id" = .int r.id) = [v] ∧ v.IsReview r text ∧
      (Site.fresh.history as).filter (·.completes r.id) = [e] ∧ e.operation = .complete r.id text) ∧
    ∀ v ∈ db.rows "reviews", ∃ r ∈ db.rows "review_jobs", v.cell "job_id" = .int r.id := by
  obtain ⟨-, -, hrev⟩ := Site.reviewed as
  refine ⟨fun r hr => ⟨fun hs => ?_, fun ⟨v, hv, hjob⟩ => ?_⟩, ?_, ?_⟩
  · obtain ⟨v, hv, text, e, hreview, -⟩ := hrev.review r hr hs
    exact ⟨v, hv, hreview.job⟩
  · obtain ⟨x, hx, hs, hxjob⟩ := hrev.job v hv
    have hid : x.id = r.id := by simpa using hxjob.symm.trans hjob
    rw [← Database.rows_eq_of_id_eq hx hr hid]
    exact hs
  · intro r hr hs
    obtain ⟨v, hv, text, e, hreview, hes, he⟩ := hrev.review r hr hs
    refine ⟨v, text, e, Database.filter_rows_eq_singleton hv fun x hx => ?_, hreview, hes, he⟩
    rw [decide_eq_true_eq]
    exact ⟨fun hjob => hrev.distinct x hx v hv (hjob.trans hreview.job.symm), fun h => by rw [h, hreview.job]⟩
  · intro v hv
    obtain ⟨r, hr, -, hjob⟩ := hrev.job v hv
    exact ⟨r, hr, hjob⟩

end ReviewQueue
