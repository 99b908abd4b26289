import ReviewQueue.Proofs.Queue.Effects

/-!
# The life of a job

A job is queued, claimed, and done or failed; a running job may be queued again. Each of these moves belongs to one
operation, and no operation does anything else to the row of a job. So a job that is done or failed stays as it is, and
it came to its end once.
-/

namespace ReviewQueue

/-- The moves of a job from one status to another, each with the operation that makes it. -/
inductive Job.Move (id : Int) : Operation → JobStatus → JobStatus → Prop where
  | claim (worker : String) : Move id (.claim worker) .queued .running
  | complete (text : ReviewText) : Move id (.complete id text) .running .done
  | fail (error : String) : Move id (.fail id error) .running .failed
  | resetStale : Move id .resetStale .running .queued

/-- What an operation may make of the row of a job: the same row, or a row of the same job that is to do the same, one
move further. -/
inductive Row.Follows (op : Operation) (r : Row) : Row → Prop where
  | same : Follows op r r
  | moved {r' : Row} {s s' : JobStatus} (move : Job.Move r.id op s s') (source : r.HasStatus s) (target : r'.HasStatus s')
      (number : r'.id = r.id) (fixed : ∀ name ∈ Job.fixedColumns, r'.cell name = r.cell name) : Follows op r r'

/-- What an operation keeps of the jobs: every row is followed by one, a claim changes one row at most, and a row is new
only if a job was queued. -/
structure Operation.KeepsJobs (op : Operation) (db db' : Database) : Prop where
  follows : ∀ r ∈ db.rows "review_jobs", ∃ r' ∈ db'.rows "review_jobs", r.Follows op r'
  one : (∃ worker, op = .claim worker) → ∀ r ∈ db.rows "review_jobs", ∀ x ∈ db.rows "review_jobs",
    r ∉ db'.rows "review_jobs" → x ∉ db'.rows "review_jobs" → r = x
  added : ∀ r' ∈ db'.rows "review_jobs", (∀ r ∈ db.rows "review_jobs", r.id ≠ r'.id) →
    (∃ request, op = .enqueue request) ∧ r'.HasStatus .queued

/-- Whether a row is that of a job that has come to its end. -/
def Row.IsEnded (r : Row) : Prop := r.HasStatus .done ∨ r.HasStatus .failed

/-- Whether a call took the job of a number to its end. -/
def Event.finishes (id : Int) (e : Event) : Bool :=
  e.answer.isOk && match e.operation with
    | .complete job _ | .fail job _ => job = id
    | _ => false

namespace Row

theorem Follows.id_eq {op : Operation} {r r' : Row} (h : r.Follows op r') : r'.id = r.id := by
  cases h with
  | same => rfl
  | moved _ _ _ number _ => exact number

/-- A row that has the status it had is the row it was. -/
theorem Follows.eq_of_status {op : Operation} {r r' : Row} (h : r.Follows op r') (hs : r'.cell "status" = r.cell "status") :
    r' = r := by
  cases h with
  | same => rfl
  | moved move source target _ _ =>
    have hsame := JobStatus.cell_inj (target.symm.trans (hs.trans source))
    cases move <;> cases hsame

/-- No move starts where a job has come to its end. -/
theorem Follows.eq_of_ended {op : Operation} {r r' : Row} (h : r.Follows op r') (hr : r.IsEnded) : r' = r := by
  cases h with
  | same => rfl
  | moved move source _ _ _ => rcases hr with hr | hr <;> cases move <;> cases source.inj hr

end Row

namespace Operation

variable {op : Operation} {db db' : Database}

/-- Nothing is asked of jobs that stay as they are. -/
theorem KeepsJobs.of_rows_eq (h : db'.rows "review_jobs" = db.rows "review_jobs") : op.KeepsJobs db db' where
  follows r hr := ⟨r, by rw [h]; exact hr, .same⟩
  one _ r hr _ _ hn _ := absurd (by rw [h]; exact hr) hn
  added r' hr' hnew := absurd rfl (hnew r' (by rw [← h]; exact hr'))

/-- What is kept up to a database in which jobs are the same is kept. -/
theorem KeepsJobs.congr {before after : Database} (h : op.KeepsJobs db db')
    (hbefore : before.rows "review_jobs" = db.rows "review_jobs") (hafter : after.rows "review_jobs" = db'.rows "review_jobs") :
    op.KeepsJobs before after := by
  obtain ⟨hfollows, hone, hadded⟩ := h
  refine ⟨?_, ?_, ?_⟩
  · rw [hbefore, hafter]
    exact hfollows
  · rw [hbefore, hafter]
    exact hone
  · rw [hbefore, hafter]
    exact hadded

/-- A change that takes jobs from one status to another keeps the jobs if it is the operation's move of each job it
chooses. -/
theorem KeepsJobs.of_gives {s : Change} {source target : JobStatus} {t : Table} (hs : s.MovesJobs source target)
    (hl : t.layout = .jobs) (hg : s.Gives db t db')
    (hmove : ∀ r ∈ db.rows "review_jobs", r.hasAll .jobs s.having = true → Job.Move r.id op source target)
    (hone : (∃ worker, op = .claim worker) → ∀ r ∈ db.rows "review_jobs", ∀ x ∈ db.rows "review_jobs",
      r.hasAll .jobs s.having = true → x.hasAll .jobs s.having = true → r = x) : op.KeepsJobs db db' := by
  have hstays : ∀ r ∈ db.rows "review_jobs", r.hasAll .jobs s.having ≠ true → r ∈ db'.rows "review_jobs" := fun r hr hc =>
    (hs.mem_rows hl hg).mpr ⟨r, hr, by rw [if_neg hc]⟩
  refine ⟨?_, ?_, ?_⟩
  · intro r hr
    by_cases hc : r.hasAll .jobs s.having = true
    · have hsource : r.HasStatus source := hs.chooses r hc
      refine ⟨r.given .jobs s.cells, (hs.mem_rows hl hg).mpr ⟨r, hr, by rw [if_pos hc]⟩, ?_⟩
      exact .moved (hmove r hr hc) hsource (hs.gives r hsource) rfl (hs.keeps r)
    · exact ⟨r, hstays r hr hc, .same⟩
  · intro hclaim r hr x hx hr' hx'
    refine hone hclaim r hr x hx ?_ ?_
    · exact Classical.byContradiction fun hc => hr' (hstays r hr hc)
    · exact Classical.byContradiction fun hc => hx' (hstays x hx hc)
  · intro r' hr' hnew
    obtain ⟨r, hr, rfl⟩ := (hs.mem_rows hl hg).mp hr'
    refine absurd ?_ (hnew r hr)
    split <;> rfl

/-- A change that takes one job keeps the jobs if it is the operation's move of it. -/
theorem KeepsJobs.of_takes {s : Change} {source target : JobStatus} {t : Table} {r : Row} (hs : s.MovesJobs source target)
    (hl : t.layout = .jobs) (h : s.Takes db t r db') (hmove : Job.Move r.id op source target) : op.KeepsJobs db db' := by
  have hrows := (hs.rows_eq h.toGives).1
  have honly : ∀ x ∈ db.rows "review_jobs", x.hasAll .jobs s.having = true → x = r := fun x hx hc =>
    (h.only x (by rw [← hrows]; exact hx)).mp (by rw [hl]; exact hc)
  refine .of_gives hs hl h.toGives (fun x hx hc => ?_) fun _ x hx y hy hxc hyc => ?_
  · rw [honly x hx hc]
    exact hmove
  · exact (honly x hx hxc).trans (honly y hy hyc).symm

/-- Queueing a job keeps the others and adds one that is queued. -/
theorem KeepsJobs.of_adds {request : JobRequest} {now : Timestamp} {g : Guard} {t new : Table} {id : Int}
    (hl : t.layout = .jobs) (h : (Connection.queueing now request).Adds g db t new id db') :
    (Operation.enqueue request).KeepsJobs db db' := by
  have hmem := fun x => h.mem_rows_table (by rw [hl]; decide) (x := x)
  refine ⟨fun r hr => ⟨r, (hmem r).mpr (Or.inr hr), .same⟩, fun ⟨_, h⟩ => (by cases h), fun r' hr' hnew => ?_⟩
  rcases (hmem r').mp hr' with rfl | hr'
  · refine ⟨⟨request, rfl⟩, ?_⟩
    rw [hl]
    exact Connection.queueing_hasStatus now request id
  · exact absurd rfl (hnew r' hr')

end Operation

namespace Effect

variable {c : Connection} {now : Timestamp} {op : Operation} {p : Progress} {db : Database}

/-- An effect keeps the jobs. -/
theorem keepsJobs (h : Effect c now op p db) (hdb : c.database.IsCurrent) : op.KeepsJobs c.database db := by
  obtain ⟨u, hu, hl⟩ := hdb.jobs
  cases h with
  | aside _ same _ => exact .of_rows_eq (Database.rows_congr (same _ (Or.inl rfl)))
  | refused agrees _ => exact .of_rows_eq (Database.rows_congr (agrees _))
  | missed agrees => exact .of_rows_eq (Database.rows_congr (agrees _))
  | waiting _ _ _ agrees => exact .of_rows_eq (Database.rows_congr (agrees _))
  | enqueued adds =>
    cases hu.symm.trans adds.table
    exact .of_adds hl adds
  | claimed _ takes _ =>
    cases hu.symm.trans takes.table
    exact .of_takes (Connection.claiming_moves ..) hl takes (.claim _)
  | failed takes number running =>
    cases hu.symm.trans takes.table
    exact .of_takes (Connection.finishing_moves ..) hl takes (by rw [number]; exact .fail _)
  | completed takes number running adds reads =>
    cases hu.symm.trans takes.table
    refine .congr (.of_takes (Connection.finishing_moves ..) hl takes ?_) rfl
      (Database.rows_congr (adds.table?_of_ne (show "review_jobs" ≠ "reviews" by decide)))
    rw [number]
    exact .complete _
  | requeued gives =>
    cases hu.symm.trans gives.table
    exact .of_gives Connection.requeueing_moves hl gives (fun _ _ _ => .resetStale) fun ⟨_, h⟩ => by cases h

/-- A statement that is not the last one of its call leaves the jobs. -/
theorem rows_of_next {call : Call} (h : Effect c now op (.next call) db) :
    db.rows "review_jobs" = c.database.rows "review_jobs" := by
  cases h with
  | aside _ same _ => exact Database.rows_congr (same _ (Or.inl rfl))
  | missed agrees => exact Database.rows_congr (agrees _)

/-- A call that takes a job to its end finds it running and leaves it ended. -/
theorem exists_of_finishes {e : Event} {id : Int} (h : Effect c now e.operation (.answered e.answer) db)
    (hdb : c.database.IsCurrent) (hf : e.finishes id = true) :
    (∃ r ∈ c.database.rows "review_jobs", r.id = id ∧ r.HasStatus .running) ∧
    ∃ r ∈ db.rows "review_jobs", r.id = id ∧ r.IsEnded := by
  obtain ⟨u, hu, hl⟩ := hdb.jobs
  obtain ⟨handle, operation, answer⟩ := e
  simp only [Event.finishes, Bool.and_eq_true] at hf
  cases h with
  | failed takes number running =>
    cases hu.symm.trans takes.table
    obtain ⟨hr, -, hstatus, hafter⟩ := (Connection.finishing_moves ..).mem_rows_takes hl takes
    have hid := number.trans (of_decide_eq_true hf.2)
    exact ⟨⟨_, hr, hid, running⟩, _, (hafter _).mpr (Or.inl rfl), hid, Or.inr hstatus⟩
  | completed takes number running adds reads =>
    cases hu.symm.trans takes.table
    obtain ⟨hr, -, hstatus, hafter⟩ := (Connection.finishing_moves ..).mem_rows_takes hl takes
    have hid := number.trans (of_decide_eq_true hf.2)
    rw [Database.rows_congr (adds.table?_of_ne (show "review_jobs" ≠ "reviews" by decide))]
    exact ⟨⟨_, hr, hid, running⟩, _, (hafter _).mpr (Or.inl rfl), hid, Or.inl hstatus⟩
  | aside changes _ _ => cases operation <;> simp_all [Operation.changesJobs]
  | refused _ _ => cases hf.1
  | _ => cases hf.2

end Effect

/-- A call that is run to its end keeps the layouts and the jobs. -/
theorem Call.finish_keepsJobs (c : Connection) (now : Timestamp) (call : Call) (hdb : c.database.IsCurrent) :
    (call.finish c now).2.IsCurrent ∧ call.operation.KeepsJobs c.database (call.finish c now).2 := by
  fun_induction Call.finish c now call with
  | case1 c call answer db heq =>
    have heffect := run_effect hdb now call
    rw [heq] at heffect
    exact ⟨heffect.isCurrent hdb, heffect.keepsJobs hdb⟩
  | case2 c call call' db heq ih =>
    have heffect := run_effect hdb now call
    rw [heq] at heffect
    obtain ⟨hcurrent, hkeeps⟩ := ih (heffect.isCurrent hdb)
    rw [(run_next (congrArg Prod.fst heq)).1] at hkeeps
    exact ⟨hcurrent, hkeeps.congr heffect.rows_of_next.symm rfl⟩

/-! ## Over runs -/

namespace Site

variable {w : Site}

/-- A job that has come to its end stays as it is. -/
theorem step_ended (hw : w.database.IsCurrent) (a : Action) {r : Row} (hr : r ∈ w.database.rows "review_jobs")
    (he : r.IsEnded) : r ∈ (w.step a).1.database.rows "review_jobs" := by
  obtain ⟨r', hr', hf⟩ := ((step_effect hw a).keepsJobs hw).follows r hr
  rw [← hf.eq_of_ended he]
  exact hr'

/-- Once a job has come to its end it stays as it is in every run. -/
theorem after_ended (hw : w.database.IsCurrent) (as : List Action) {r : Row} (hr : r ∈ w.database.rows "review_jobs")
    (he : r.IsEnded) : r ∈ (w.after as).database.rows "review_jobs" := by
  induction as generalizing w with
  | nil => exact hr
  | cons a as ih => exact ih (step_isCurrent hw a) (step_ended hw a hr he)

/-- Nothing takes a job to its end that has come to it. -/
theorem count_finishes_of_ended (hw : w.database.IsCurrent) (as : List Action) {r : Row}
    (hr : r ∈ w.database.rows "review_jobs") (he : r.IsEnded) : (w.history as).countP (·.finishes r.id) = 0 := by
  induction as generalizing w with
  | nil => rfl
  | cons a as ih =>
    rw [history, List.countP_append, ih (step_isCurrent hw a) (step_ended hw a hr he), Nat.add_zero]
    cases hev : (w.step a).2 with
    | none => rfl
    | some e =>
      refine List.countP_eq_zero.mpr ?_
      intro x hx hf
      cases List.mem_singleton.mp hx
      obtain ⟨⟨x, hx, hid, hrun⟩, -⟩ := (step_event_effect hw hev).exists_of_finishes hw hf
      rw [Database.rows_eq_of_id_eq hx hr hid] at hrun
      rcases he with he | he <;> cases he.inj hrun

/-- Over a run, at most one call takes a job to its end. -/
theorem count_finishes_le (hw : w.database.IsCurrent) (as : List Action) (id : Int) :
    (w.history as).countP (·.finishes id) ≤ 1 := by
  induction as generalizing w with
  | nil => exact Nat.zero_le 1
  | cons a as ih =>
    have hstep := step_isCurrent hw a
    rw [history, List.countP_append]
    cases hev : (w.step a).2 with
    | none => rw [Option.toList_none, List.countP_nil, Nat.zero_add]; exact ih hstep
    | some e =>
      rw [Option.toList_some, List.countP_singleton]
      split
      next hf =>
        obtain ⟨-, r, hr, rfl, he⟩ := (step_event_effect hw hev).exists_of_finishes hw hf
        have hnone := count_finishes_of_ended hstep as hr he
        omega
      next => rw [Nat.zero_add]; exact ih hstep

end Site

/-- The life of a job, in three parts, for a database in the current layout, whatever its rows.
1. Every operation, successful or not, on a connection that enforces references or not and finds the lock taken or not,
   keeps the layouts and the jobs, and a job that has the status it had has the row it had.
2. So does every statement of a call, whatever other calls are under way.
3. Over every run of several handles a job that is done or failed stays as it is, and at most one call takes it
   there. -/
theorem job_lifecycle (db : Database) (hdb : db.IsCurrent) :
    (∀ (enforcing locked : Bool) (now : Timestamp) (op : Operation),
      let after := ((Connection.mk db enforcing locked).perform now op).connection.database
      after.IsCurrent ∧ op.KeepsJobs db after ∧
      ∀ r ∈ db.rows "review_jobs", ∀ r' ∈ after.rows "review_jobs",
        r'.id = r.id → r'.cell "status" = r.cell "status" → r' = r) ∧
    (∀ (calls : Nat → Option Call) (a : Action),
      let w : Site := ⟨db, calls⟩
      (w.step a).1.database.IsCurrent ∧ (w.call a).operation.KeepsJobs db (w.step a).1.database) ∧
    (∀ (calls : Nat → Option Call) (as bs : List Action),
      let w : Site := ⟨db, calls⟩
      (∀ r ∈ (w.after as).database.rows "review_jobs", r.IsEnded → r ∈ (w.after (as ++ bs)).database.rows "review_jobs") ∧
      ∀ id, (w.history as).countP (·.finishes id) ≤ 1) := by
  refine ⟨?_, ?_, fun calls as bs => ⟨?_, ?_⟩⟩
  · intro enforcing locked now op
    have hfinish := Call.finish_keepsJobs ⟨db, enforcing, locked⟩ now (.asked op) hdb
    rw [Call.finish_asked] at hfinish
    refine ⟨hfinish.1, hfinish.2, fun r hr r' hr' hid hstatus => ?_⟩
    obtain ⟨x, hx, hf⟩ := hfinish.2.follows r hr
    rw [Database.rows_eq_of_id_eq hr' hx (hid.trans hf.id_eq.symm)] at hstatus ⊢
    exact hf.eq_of_status hstatus
  · intro calls a
    have hw : (Site.mk db calls).database.IsCurrent := hdb
    exact ⟨Site.step_isCurrent hw a, (Site.step_effect hw a).keepsJobs hw⟩
  · intro r hr he
    rw [Site.after_append]
    exact Site.after_ended (Site.after_isCurrent hdb as) bs hr he
  · exact Site.count_finishes_le hdb as

/-- A database with one running job. -/
def Database.oneRunning : Database := Database.current.put
  ⟨.jobs, [Connection.jobWith 7 [("status", JobStatus.running.cell)]], List.pairwise_singleton .., by decide⟩

/-- A running job fails, and does not fail again. -/
theorem job_lifecycle_oneRunning :
    Database.oneRunning.IsCurrent ∧
    (Operation.fail 7 "gone").KeepsJobs Database.oneRunning
      ((Connection.mk Database.oneRunning true false).perform .epoch (.fail 7 "gone")).connection.database ∧
    ((Site.quiet Database.oneRunning).history
      [⟨0, .fail 7 "gone", .epoch, false⟩, ⟨1, .fail 7 "late", .epoch, false⟩]).countP (·.finishes 7) ≤ 1 := by
  have hdb : Database.oneRunning.IsCurrent := by decide
  obtain ⟨hperform, -, hruns⟩ := job_lifecycle Database.oneRunning hdb
  exact ⟨hdb, (hperform true false .epoch (.fail 7 "gone")).2.1, (hruns (fun _ => none) _ []).2 7⟩

end ReviewQueue
