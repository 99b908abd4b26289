import ReviewQueue.Proofs.Queue.Claims
import ReviewQueue.Proofs.Queue.Reviewed
import ReviewQueue.Proofs.Time.Stored

/-!
# The columns of a job tell its history

The columns of a job are written by the statement that queues it and by those that move it. So its status and what is
known of the run say what each of them is: the worker and the start are those of the last claim that handed the job
out, and are gone once the job is queued again; the end and the error are those of the one call that took the job to
its end. Where clocks do not go back, the times of a job ascend.
-/

namespace ReviewQueue

/-! ## Where the rows of jobs come from -/

open Connection in
/-- Where a row of jobs after a statement comes from: it stayed, or it is the row that the operation gives. -/
inductive Row.ComesBy (c : Connection) (now : Timestamp) : Operation → Progress → Row → Prop where
  | stayed {op : Operation} {p : Progress} {r : Row} (before : r ∈ c.database.rows "review_jobs") : ComesBy c now op p r
  | queued {p : Progress} (request : JobRequest) (id : Int) :
      ComesBy c now (.enqueue request) p ((queueing now request).row .jobs id)
  | claimed {r : Row} (worker : String) (before : r ∈ c.database.rows "review_jobs") (status : r.HasStatus .queued) :
      ComesBy c now (.claim worker) (.answered ((liftFault (Job.ofRecord
        (Job.recordOf (r.given .jobs (claiming c.database now worker).cells)))).map .job))
        (r.given .jobs (claiming c.database now worker).cells)
  | failed {r : Row} (error : String) (before : r ∈ c.database.rows "review_jobs") (status : r.HasStatus .running) :
      ComesBy c now (.fail r.id error) (.answered (.ok .done)) (r.given .jobs (finishing now r.id .failed (some error)).cells)
  | completed {p : Progress} {r : Row} (text : ReviewText) (before : r ∈ c.database.rows "review_jobs")
      (status : r.HasStatus .running) :
      ComesBy c now (.complete r.id text) p (r.given .jobs (finishing now r.id .done none).cells)
  | requeued {p : Progress} {r : Row} (before : r ∈ c.database.rows "review_jobs") (status : r.HasStatus .running) :
      ComesBy c now .resetStale p (r.given .jobs requeueing.cells)

/-- Every row of jobs after an effect comes from one of these. -/
theorem Effect.comesBy {c : Connection} {now : Timestamp} {op : Operation} {p : Progress} {db : Database}
    (h : Effect c now op p db) (hdb : c.database.IsCurrent) {x : Row} (hx : x ∈ db.rows "review_jobs") :
    x.ComesBy c now op p := by
  obtain ⟨u, hu, hl⟩ := hdb.jobs
  have stays : db.table? "review_jobs" = c.database.table? "review_jobs" → x.ComesBy c now op p := by
    intro hsame
    rw [Database.rows_congr hsame] at hx
    exact .stayed hx
  cases h with
  | aside _ same _ => exact stays (same _ (Or.inl rfl))
  | refused agrees _ => exact stays (agrees _)
  | missed agrees => exact stays (agrees _)
  | waiting _ _ _ agrees => exact stays (agrees _)
  | enqueued adds =>
    cases hu.symm.trans adds.table
    rcases (adds.mem_rows_table (by rw [hl]; decide)).mp hx with rfl | hx
    · rw [hl]
      exact .queued ..
    · exact .stayed hx
  | claimed _ takes _ =>
    cases hu.symm.trans takes.table
    obtain ⟨hr, hqueued, -, hafter⟩ := (Connection.claiming_moves ..).mem_rows_takes hl takes
    rcases (hafter x).mp hx with rfl | ⟨hx, -⟩
    · exact .claimed _ hr hqueued
    · exact .stayed hx
  | failed takes number running =>
    cases hu.symm.trans takes.table
    obtain ⟨hr, -, -, hafter⟩ := (Connection.finishing_moves ..).mem_rows_takes hl takes
    subst number
    rcases (hafter x).mp hx with rfl | ⟨hx, -⟩
    · exact .failed _ hr running
    · exact .stayed hx
  | completed takes number running adds _ =>
    cases hu.symm.trans takes.table
    obtain ⟨hr, -, -, hafter⟩ := (Connection.finishing_moves ..).mem_rows_takes hl takes
    subst number
    rw [Database.rows_congr (adds.table?_of_ne (show "review_jobs" ≠ "reviews" by decide))] at hx
    rcases (hafter x).mp hx with rfl | ⟨hx, -⟩
    · exact .completed _ hr running
    · exact .stayed hx
  | requeued gives =>
    cases hu.symm.trans gives.table
    obtain ⟨r, hr, rfl⟩ := (Connection.requeueing_moves.mem_rows hl gives).mp hx
    split
    next hc => exact .requeued hr (Connection.requeueing_moves.chooses r hc)
    next => exact .stayed hr

/-! ## Handing out -/

namespace Site

/-- An action hands a job out to a worker: the job is queued before the worker's claim and running after it. -/
structure HandsOut (w : Site) (id : Int) (worker : String) (a : Action) : Prop where
  claims : (w.call a).operation = .claim worker
  queued : ∃ r ∈ w.database.rows "review_jobs", r.id = id ∧ r.HasStatus .queued
  running : ∃ r ∈ (w.step a).1.database.rows "review_jobs", r.id = id ∧ r.HasStatus .running

/-- The last action of a run that hands a job out does so to this worker and at this time. -/
def LastHandOut (w : Site) (as : List Action) (id : Int) (worker : String) (now : Timestamp) : Prop :=
  ∃ bs a cs, as = bs ++ a :: cs ∧ a.now = now ∧ (w.after bs).HandsOut id worker a ∧
    ∀ ds b es, cs = ds ++ b :: es → ∀ other, ¬(w.after (bs ++ a :: ds)).HandsOut id other b

namespace LastHandOut

variable {w : Site} {as : List Action} {a : Action} {id : Int} {worker : String} {now : Timestamp}

/-- An action that hands the job out is the last one that does. -/
theorem of_handsOut (h : (w.after as).HandsOut id worker a) : w.LastHandOut (as ++ [a]) id worker a.now := by
  refine ⟨as, a, [], rfl, rfl, h, ?_⟩
  intro ds b es hds
  simp at hds

/-- An action that does not hand the job out leaves the last one that did. -/
theorem snoc (h : w.LastHandOut as id worker now) (hno : ∀ other, ¬(w.after as).HandsOut id other a) :
    w.LastHandOut (as ++ [a]) id worker now := by
  obtain ⟨bs, b, cs, rfl, hnow, hout, hlater⟩ := h
  refine ⟨bs, b, cs ++ [a], by simp, hnow, hout, ?_⟩
  intro ds d es hds
  rcases List.eq_nil_or_concat es with rfl | ⟨es, e, rfl⟩
  · obtain ⟨rfl, hd⟩ := List.append_inj' hds rfl
    cases hd
    exact hno
  · refine hlater ds d es ?_
    rw [List.concat_eq_append, ← List.cons_append, ← List.append_assoc] at hds
    exact (List.append_inj' hds rfl).1

end LastHandOut

/-- A job that is not queued before an action is not handed out by it. -/
theorem not_handsOut {w : Site} {a : Action} {r : Row} (hr : r ∈ w.database.rows "review_jobs") (hs : ¬r.HasStatus .queued)
    (worker : String) : ¬w.HandsOut r.id worker a := by
  rintro ⟨-, ⟨x, hx, hid, hqueued⟩, -⟩
  rw [Database.rows_eq_of_id_eq hx hr hid] at hqueued
  exact hs hqueued

/-- A job the row of which stays is not handed out. -/
theorem not_handsOut_of_stays {w : Site} {a : Action} {r : Row} (hr : r ∈ w.database.rows "review_jobs")
    (hr' : r ∈ (w.step a).1.database.rows "review_jobs") (worker : String) : ¬w.HandsOut r.id worker a := by
  rintro ⟨-, ⟨x, hx, hid, hqueued⟩, y, hy, hyid, hrunning⟩
  rw [Database.rows_eq_of_id_eq hx hr hid] at hqueued
  rw [Database.rows_eq_of_id_eq hy hr' hyid] at hrunning
  cases hqueued.inj hrunning

/-- A job the row of which stays is not taken to its end. -/
theorem not_finishes_of_stays {w : Site} (hw : w.database.IsCurrent) {a : Action} {r : Row}
    (hr : r ∈ w.database.rows "review_jobs") (hr' : r ∈ (w.step a).1.database.rows "review_jobs") {e : Event}
    (he : (w.step a).2 = some e) : e.finishes r.id = false := by
  rw [← Bool.not_eq_true]
  intro hf
  obtain ⟨⟨x, hx, hid, hrunning⟩, y, hy, hyid, hended⟩ := (step_event_effect hw he).exists_of_finishes hw hf
  rw [Database.rows_eq_of_id_eq hx hr hid] at hrunning
  rw [Database.rows_eq_of_id_eq hy hr' hyid] at hended
  rcases hended with hended | hended <;> cases hrunning.inj hended

/-- A job that some call of a run took to its end has come to it. -/
theorem exists_ended {w : Site} (hw : w.database.IsCurrent) (as : List Action) {id : Int} {e : Event}
    (he : e ∈ w.history as) (hf : e.finishes id = true) :
    ∃ r ∈ (w.after as).database.rows "review_jobs", r.id = id ∧ r.IsEnded := by
  induction as generalizing w with
  | nil => cases he
  | cons a as ih =>
    rcases List.mem_append.mp he with he | he
    · have hev : (w.step a).2 = some e := Option.mem_toList.mp he
      obtain ⟨-, r, hr, hid, hended⟩ := (step_event_effect hw hev).exists_of_finishes hw hf
      exact ⟨r, after_ended (step_isCurrent hw a) as hr hended, hid, hended⟩
    · exact ih (step_isCurrent hw a) he

/-- No call of a run took a job to its end that is running. -/
theorem filter_finishes_of_running {w : Site} (hw : w.database.IsCurrent) {as : List Action} {r : Row}
    (hr : r ∈ (w.after as).database.rows "review_jobs") (hs : r.HasStatus .running) :
    (w.history as).filter (·.finishes r.id) = [] := by
  refine List.filter_eq_nil_iff.mpr ?_
  intro e he hf
  obtain ⟨x, hx, hid, hended⟩ := exists_ended hw as he hf
  rw [Database.rows_eq_of_id_eq hx hr hid] at hended
  rcases hended with hended | hended <;> cases hs.inj hended

end Site

/-! ## What the columns tell -/

namespace Job

/-- The worker and the start of a job are those of the last action that handed it out. -/
def TakenLast (j : Job) (as : List Action) : Prop :=
  ∃ worker now, Site.fresh.LastHandOut as j.id worker now ∧ j.workerId = some worker ∧ j.startedAt = some now

/-- What the columns of a job tell after some actions, by its status. -/
structure Tells (j : Job) (as : List Action) : Prop where
  queued : j.status = .queued → j.workerId = none ∧ j.startedAt = none ∧ j.finishedAt = none ∧ j.error = none
  running : j.status = .running → j.TakenLast as ∧ j.finishedAt = none ∧ j.error = none
  done : j.status = .done → j.TakenLast as ∧ j.finishedAt.isSome ∧ j.error = none
  failed : j.status = .failed → j.TakenLast as ∧ j.finishedAt.isSome ∧ ∃ text e,
    (Site.fresh.history as).filter (·.finishes j.id) = [e] ∧ e.operation = .fail j.id text ∧ j.error = some text

namespace Tells

variable {j : Job} {as : List Action} {a : Action}

/-- An action that neither hands a job out nor takes it to its end leaves what the columns tell. -/
theorem snoc (h : j.Tells as) (hout : ∀ worker, ¬(Site.fresh.after as).HandsOut j.id worker a)
    (hend : ∀ e, ((Site.fresh.after as).step a).2 = some e → e.finishes j.id = false) : j.Tells (as ++ [a]) := by
  have htaken : j.TakenLast as → j.TakenLast (as ++ [a]) := fun ⟨worker, now, hlast, hworker, hstarted⟩ =>
    ⟨worker, now, hlast.snoc hout, hworker, hstarted⟩
  have hnew : (((Site.fresh.after as).step a).2.toList).filter (·.finishes j.id) = [] := by
    refine List.filter_eq_nil_iff.mpr ?_
    intro e he
    rw [hend e (Option.mem_toList.mp he)]
    exact Bool.false_ne_true
  refine ⟨h.queued, fun hs => ?_, fun hs => ?_, fun hs => ?_⟩
  · obtain ⟨hlast, hrest⟩ := h.running hs
    exact ⟨htaken hlast, hrest⟩
  · obtain ⟨hlast, hrest⟩ := h.done hs
    exact ⟨htaken hlast, hrest⟩
  · obtain ⟨hlast, hfinished, text, e, hes, hrest⟩ := h.failed hs
    refine ⟨htaken hlast, hfinished, text, e, ?_, hrest⟩
    rw [Site.history_snoc, List.filter_append, hes, hnew, List.append_nil]

/-- A job that is queued again tells nothing of its last run. -/
theorem requeued (h : j.Tells as) (hs : j.status = .running) (bs : List Action) : j.requeued.Tells bs where
  queued _ := ⟨rfl, rfl, (h.running hs).2⟩
  running hs := by cases hs
  done hs := by cases hs
  failed hs := by cases hs

/-- A queued job that is handed out tells who took it, and when. -/
theorem claimedBy (h : j.Tells as) (hs : j.status = .queued) {worker : String}
    (hout : (Site.fresh.after as).HandsOut j.id worker a) : (j.claimedBy worker a.now).Tells (as ++ [a]) where
  queued hs := by cases hs
  running _ := ⟨⟨worker, a.now, .of_handsOut hout, rfl, rfl⟩, (h.queued hs).2.2⟩
  done hs := by cases hs
  failed hs := by cases hs

/-- A job that is done keeps telling who took it. -/
theorem completed (h : j.Tells as) (hs : j.status = .running)
    (hout : ∀ worker, ¬(Site.fresh.after as).HandsOut j.id worker a) (now : Timestamp) :
    (j.endedBy .done now none).Tells (as ++ [a]) where
  queued hs := by cases hs
  running hs := by cases hs
  done _ := by
    obtain ⟨⟨worker, start, hlast, hworker, hstarted⟩, -⟩ := h.running hs
    exact ⟨⟨worker, start, hlast.snoc hout, hworker, hstarted⟩, rfl, rfl⟩
  failed hs := by cases hs

/-- A job that fails tells the text of the call that made it fail, which is the first to take it to its end. -/
theorem failedWith (h : j.Tells as) (hs : j.status = .running)
    (hout : ∀ worker, ¬(Site.fresh.after as).HandsOut j.id worker a) (now : Timestamp) {error : String} {e : Event}
    (hbefore : (Site.fresh.history as).filter (·.finishes j.id) = []) (he : ((Site.fresh.after as).step a).2 = some e)
    (hop : e.operation = .fail j.id error) (hok : e.answer.isOk = true) :
    (j.endedBy .failed now (some error)).Tells (as ++ [a]) where
  queued hs := by cases hs
  running hs := by cases hs
  done hs := by cases hs
  failed _ := by
    obtain ⟨⟨worker, start, hlast, hworker, hstarted⟩, -⟩ := h.running hs
    refine ⟨⟨worker, start, hlast.snoc hout, hworker, hstarted⟩, rfl, error, e, ?_, hop, rfl⟩
    have hfinishes : e.finishes j.id = true := by simp [Event.finishes, hop, hok]
    show (Site.fresh.history (as ++ [a])).filter (·.finishes j.id) = [e]
    rw [Site.history_snoc, List.filter_append, hbefore, he, Option.toList_some, List.nil_append, List.filter_singleton, hfinishes]
    rfl

end Tells

/-- The columns of a job that was just queued tell that. -/
theorem tells_queued (request : JobRequest) (id : Int) (now : Timestamp) (as : List Action) :
    (request.queued id now).Tells as where
  queued _ := ⟨rfl, rfl, rfl, rfl⟩
  running hs := by cases hs
  done hs := by cases hs
  failed hs := by cases hs

/-! ## Times -/

/-- The times of a job ascend, wherever they are present. -/
structure TimesAscend (j : Job) : Prop where
  started : ∀ s, j.startedAt = some s → j.enqueuedAt ≤ s
  finished : ∀ t, j.finishedAt = some t → j.enqueuedAt ≤ t
  between : ∀ s t, j.startedAt = some s → j.finishedAt = some t → s ≤ t

/-- The times of a job are readings of a clock, and ascend if the readings do. -/
structure TimedBy (j : Job) (clock : List Timestamp) : Prop where
  enqueued : j.enqueuedAt ∈ clock
  started : ∀ s, j.startedAt = some s → s ∈ clock
  finished : ∀ t, j.finishedAt = some t → t ∈ clock
  ascend : clock.Pairwise (· ≤ ·) → j.TimesAscend

namespace TimedBy

variable {j : Job} {clock : List Timestamp} {now : Timestamp}

/-- Readings that ascend up to the last are not after it. -/
theorem le_last (h : (clock ++ [now]).Pairwise (· ≤ ·)) : clock.Pairwise (· ≤ ·) ∧ ∀ t ∈ clock, t ≤ now := by
  obtain ⟨hclock, -, hlast⟩ := List.pairwise_append.mp h
  exact ⟨hclock, fun t ht => hlast t ht now (List.mem_singleton_self now)⟩

/-- The clock is read once more. -/
theorem snoc (h : j.TimedBy clock) (now : Timestamp) : j.TimedBy (clock ++ [now]) where
  enqueued := List.mem_append_left _ h.enqueued
  started s hs := List.mem_append_left _ (h.started s hs)
  finished t ht := List.mem_append_left _ (h.finished t ht)
  ascend hclock := h.ascend (le_last hclock).1

/-- A job that has not ended starts at the last reading. -/
theorem claimedBy (h : j.TimedBy clock) (hend : j.finishedAt = none) (worker : String) (now : Timestamp) :
    (j.claimedBy worker now).TimedBy (clock ++ [now]) where
  enqueued := (h.snoc now).enqueued
  started s hs := by
    cases hs
    exact List.mem_append_right _ (List.mem_singleton_self now)
  finished := (h.snoc now).finished
  ascend hclock := by
    refine ⟨fun s hs => ?_, ((h.snoc now).ascend hclock).finished, fun s t _ ht => ?_⟩
    · cases hs
      exact (le_last hclock).2 _ h.enqueued
    · cases hend.symm.trans ht

/-- A job ends at the last reading. -/
theorem endedBy (h : j.TimedBy clock) (target : JobStatus) (now : Timestamp) (error : Option String) :
    (j.endedBy target now error).TimedBy (clock ++ [now]) where
  enqueued := (h.snoc now).enqueued
  started := (h.snoc now).started
  finished t ht := by
    cases ht
    exact List.mem_append_right _ (List.mem_singleton_self now)
  ascend hclock := by
    refine ⟨((h.snoc now).ascend hclock).started, fun t ht => ?_, fun s t hs ht => ?_⟩
    · cases ht
      exact (le_last hclock).2 _ h.enqueued
    · cases ht
      exact (le_last hclock).2 _ (h.started s hs)

/-- A job that is queued again has not started. -/
theorem requeued (h : j.TimedBy clock) : j.requeued.TimedBy clock where
  enqueued := h.enqueued
  started s hs := by cases hs
  finished := h.finished
  ascend hclock := ⟨fun s hs => (by cases hs), (h.ascend hclock).finished, fun s t hs _ => by cases hs⟩

/-- Times are of years that have four digits if the clock always showed such years. -/
theorem plain {as : List Action} (h : j.TimedBy (as.map (·.now))) (hclock : ∀ a ∈ as, a.now.IsPlain) :
    j.HasPlainTimes := by
  have hall : ∀ t ∈ as.map (·.now), t.IsPlain := List.forall_mem_map.mpr hclock
  exact ⟨hall _ h.enqueued, fun s hs => hall s (h.started s hs), fun t ht => hall t (h.finished t ht)⟩

end TimedBy

/-- A job is queued at the last reading. -/
theorem timedBy_queued (request : JobRequest) (id : Int) (clock : List Timestamp) (now : Timestamp) :
    (request.queued id now).TimedBy (clock ++ [now]) where
  enqueued := List.mem_append_right _ (List.mem_singleton_self now)
  started s hs := by cases hs
  finished t ht := by cases ht
  ascend _ := ⟨fun s hs => (by cases hs), fun t ht => (by cases ht), fun s t hs _ => by cases hs⟩

end Job

/-! ## Over runs -/

/-- A row holds a job that tells the history of a run. -/
structure Row.Tells (r : Row) (j : Job) (as : List Action) : Prop where
  holds : r.Holds j
  columns : j.Tells as
  times : j.TimedBy (as.map (·.now))

/-- The status of a row is that of the job it holds. -/
theorem Row.Holds.status_eq {r : Row} {j : Job} (h : r.Holds j) {s : JobStatus} (hs : r.HasStatus s) : j.status = s :=
  JobStatus.cell_inj (h.status.symm.trans hs)

/-- After an action every row of jobs tells the history if every row told it before. -/
theorem Site.tells_step {as : List Action} (a : Action)
    (h : ∀ r ∈ (fresh.after as).database.rows "review_jobs", ∃ j, r.Tells j as) :
    ∀ x ∈ ((fresh.after as).step a).1.database.rows "review_jobs", ∃ j, x.Tells j (as ++ [a]) := by
  intro x hx
  obtain ⟨hdb, hfit, -⟩ := Site.reviewed as
  have hcome := (step_effect hdb a).comesBy hdb hx
  generalize hop : ((fresh.after as).call a).operation = op at hcome
  generalize hp : (((fresh.after as).call a).run ((fresh.after as).connection a) a.now).1 = p at hcome
  have htimes : ∀ {j : Job}, j.TimedBy (as.map (·.now) ++ [a.now]) → j.TimedBy ((as ++ [a]).map (·.now)) := by
    intro j hj
    rw [List.map_append]
    exact hj
  have running : ∀ {r : Row} {j : Job}, r ∈ (fresh.after as).database.rows "review_jobs" → r.HasStatus .running →
      r.Holds j → ∀ worker, ¬(fresh.after as).HandsOut j.id worker a := by
    intro r j hr hs hholds
    rw [← hholds.id]
    refine not_handsOut hr ?_
    intro hqueued
    cases hqueued.inj hs
  cases hcome with
  | stayed before =>
    obtain ⟨j, hholds, hcolumns, htimed⟩ := h x before
    refine ⟨j, hholds, hcolumns.snoc ?_ ?_, htimes (htimed.snoc _)⟩
    · rw [← hholds.id]
      exact not_handsOut_of_stays before hx
    · rw [← hholds.id]
      exact fun e => not_finishes_of_stays hdb before hx
  | queued request id =>
    exact ⟨_, Connection.queueing_holds .., Job.tells_queued .., htimes (Job.timedBy_queued ..)⟩
  | @claimed r worker before status =>
    obtain ⟨j, hholds, hcolumns, htimed⟩ := h r before
    have hs := hholds.status_eq status
    have hout : (fresh.after as).HandsOut j.id worker a :=
      ⟨hop, ⟨r, before, hholds.id, status⟩, _, hx, hholds.id, (Connection.claiming_moves ..).gives r status⟩
    exact ⟨_, Connection.claiming_holds _ a.now worker hholds (hfit r before), hcolumns.claimedBy hs hout,
      htimes (htimed.claimedBy (hcolumns.queued hs).2.2.1 worker a.now)⟩
  | @failed r error before status =>
    obtain ⟨j, hholds, hcolumns, htimed⟩ := h r before
    have hnone := filter_finishes_of_running (show fresh.database.IsCurrent by decide) before status
    have hev : ((fresh.after as).step a).2 = some ⟨a.handle, .fail r.id error, .ok .done⟩ := step_event.mpr ⟨hp, rfl, hop.symm⟩
    rw [hholds.id] at hnone hev
    exact ⟨_, Connection.finishing_holds a.now r.id .failed (some error) hholds (hfit r before),
      hcolumns.failedWith (hholds.status_eq status) (running before status hholds) a.now hnone hev rfl rfl,
      htimes (htimed.endedBy ..)⟩
  | @completed _ r text before status =>
    obtain ⟨j, hholds, hcolumns, htimed⟩ := h r before
    exact ⟨_, Connection.finishing_holds a.now r.id .done none hholds (hfit r before),
      hcolumns.completed (hholds.status_eq status) (running before status hholds) a.now, htimes (htimed.endedBy ..)⟩
  | @requeued _ r before status =>
    obtain ⟨j, hholds, hcolumns, htimed⟩ := h r before
    exact ⟨_, Connection.requeueing_holds hholds (hfit r before), hcolumns.requeued (hholds.status_eq status) _,
      htimes (htimed.requeued.snoc _)⟩

/-- After every run every row of jobs holds a job that tells the history. -/
theorem Site.tells (as : List Action) : ∀ r ∈ (fresh.after as).database.rows "review_jobs", ∃ j, r.Tells j as := by
  induction as using List.reverseRecOn with
  | nil =>
    intro r hr
    have hjobs : fresh.database.rows "review_jobs" = [] := by decide
    cases hjobs ▸ hr
  | append_singleton as a ih =>
    rw [after_snoc]
    exact tells_step a ih

/-- An action that hands a job out answers the claim with it, as a job of this worker that started now, if clocks show years
of four digits. -/
theorem Site.event_of_handsOut {as : List Action} {a : Action} (hclock : ∀ x ∈ as ++ [a], x.now.IsPlain) {id : Int}
    {worker : String} (h : (fresh.after as).HandsOut id worker a) :
    ∃ j, ((fresh.after as).step a).2 = some ⟨a.handle, .claim worker, .ok (.job j)⟩ ∧ j.id = id ∧
      j.workerId = some worker ∧ j.startedAt = some a.now := by
  obtain ⟨hop, ⟨x, hx, hid, hqueued⟩, y, hy, rfl, hrunning⟩ := h
  obtain ⟨hdb, hfit, -⟩ := Site.reviewed as
  have hcome := (step_effect hdb a).comesBy hdb hy
  rw [hop] at hcome
  generalize hp : (((fresh.after as).call a).run ((fresh.after as).connection a) a.now).1 = p at hcome
  cases hcome with
  | stayed before =>
    -- then it would have been running before
    rw [Database.rows_eq_of_id_eq hx before hid] at hqueued
    cases hqueued.inj hrunning
  | @claimed r _ before status =>
    obtain ⟨j, hholds, -, htimed⟩ := Site.tells as r before
    have hplain := (htimed.plain fun b hb => hclock b (by simp [hb])).claimedBy (hclock a (by simp)) worker
    have hread := Job.ofRecord_recordOf
      (Connection.claiming_holds (fresh.after as).database a.now worker hholds (hfit r before)) hplain
    refine ⟨j.claimedBy worker a.now, step_event.mpr ⟨?_, rfl, hop.symm⟩, hholds.id.symm, rfl, rfl⟩
    rw [hp, show ((fresh.after as).connection a).database = (fresh.after as).database from rfl, hread]
    rfl

/-- An action that answers a claim with a job hands it out. -/
theorem Site.handsOut_of_event {w : Site} (hw : w.database.IsCurrent) {a : Action} {worker : String} {j : Job}
    (h : (w.step a).2 = some ⟨a.handle, .claim worker, .ok (.job j)⟩) : w.HandsOut j.id worker a := by
  obtain ⟨hbefore, hafter⟩ := (step_event_effect hw h).exists_of_claimed hw (j := j) rfl
  exact ⟨(step_event.mp h).2.2.symm, hbefore, hafter⟩

/-- The columns of jobs tell the truth, in two parts, after every run of several handles from a database just installed.
1. Every row of jobs holds a job, and its status says what the columns are. If it is queued, worker, start, end and error
   are null. If it is running, worker and start are those of the last action that handed the job out, and end and error
   are null. If it is done or failed, worker and start are still those, and the end is there; the error is null if it is
   done, and if it failed it is the text of the one call that took the job to its end. The times ascend wherever they are
   present if the clock never goes back in the course of the run. If the clock shows years of four digits, this job is
   what is read from the row.
2. If the clock shows years of four digits, the actions that hand a job out to a worker are those that answer the
   worker's claim with it. -/
theorem columns_tell_history (as : List Action) :
    (∀ r ∈ (Site.fresh.after as).database.rows "review_jobs", ∃ j, r.Holds j ∧ j.Tells as ∧
      ((as.map (·.now)).Pairwise (· ≤ ·) → j.TimesAscend) ∧
      ((∀ a ∈ as, a.now.IsPlain) → Job.ofRecord (Job.recordOf r) = .ok j)) ∧
    ∀ a, (∀ x ∈ as ++ [a], x.now.IsPlain) → ∀ id worker, (Site.fresh.after as).HandsOut id worker a ↔
      ∃ j, ((Site.fresh.after as).step a).2 = some ⟨a.handle, .claim worker, .ok (.job j)⟩ ∧ j.id = id ∧
        j.workerId = some worker ∧ j.startedAt = some a.now := by
  refine ⟨?_, ?_⟩
  · intro r hr
    obtain ⟨j, hholds, hcolumns, htimes⟩ := Site.tells as r hr
    exact ⟨j, hholds, hcolumns, htimes.ascend, fun hclock => Job.ofRecord_recordOf hholds (htimes.plain hclock)⟩
  · intro a hclock id worker
    constructor
    · exact Site.event_of_handsOut hclock
    · rintro ⟨j, hevent, rfl, -, -⟩
      exact Site.handsOut_of_event (Site.reviewed as).1 hevent

end ReviewQueue
