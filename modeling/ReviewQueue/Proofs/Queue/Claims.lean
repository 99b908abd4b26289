import ReviewQueue.Proofs.Queue.Lifecycle
import ReviewQueue.Proofs.Queue.Readback

/-!
# Claims

A job that was claimed is claimed again only if running jobs were queued again in between. Where that does not happen,
the jobs that are queued stand after all that are not: a new row goes to the end, because numbers leave no gap, and a
claim takes the first.
-/

namespace ReviewQueue

namespace Event

/-- The job that a call queued. -/
def enqueued? (e : Event) : Option Job :=
  match e.operation, e.answer with
  | .enqueue _, .ok (.job j) => some j
  | _, _ => none

/-- The job that a call claimed. -/
def claimed? (e : Event) : Option Job :=
  match e.operation, e.answer with
  | .claim _, .ok (.job j) => some j
  | _, _ => none

end Event

/-- The jobs that some calls queued, in the order of the calls. -/
def enqueues (es : List Event) : List Job := es.filterMap (·.enqueued?)

/-- The jobs that some calls claimed, in the order of the calls. -/
def claims (es : List Event) : List Job := es.filterMap (·.claimed?)

/-! ## One claim of a job -/

namespace Effect

variable {c : Connection} {now : Timestamp} {op : Operation} {p : Progress} {db : Database}

/-- A call that claims a job finds it queued and leaves it running. -/
theorem exists_of_claimed {e : Event} {j : Job} (h : Effect c now e.operation (.answered e.answer) db)
    (hdb : c.database.IsCurrent) (he : e.claimed? = some j) :
    (∃ r ∈ c.database.rows "review_jobs", r.id = j.id ∧ r.HasStatus .queued) ∧
    ∃ r ∈ db.rows "review_jobs", r.id = j.id ∧ r.HasStatus .running := by
  obtain ⟨u, hu, hl⟩ := hdb.jobs
  obtain ⟨handle, operation, answer⟩ := e
  cases h with
  | @claimed worker t r _ unlocked takes first =>
    cases hu.symm.trans takes.table
    obtain ⟨hr, hqueued, hrunning, hafter⟩ := (Connection.claiming_moves ..).mem_rows_takes hl takes
    cases hjob : Job.ofRecord (Job.recordOf (r.given .jobs (Connection.claiming c.database now worker).cells)) with
    | error f =>
      rw [hjob] at he
      cases he
    | ok job =>
      rw [hjob] at he
      cases he
      have hid := Job.id_of_ofRecord hjob
      exact ⟨⟨_, hr, hid.symm, hqueued⟩, _, (hafter _).mpr (Or.inl rfl), hid.symm, hrunning⟩
  | aside changes _ _ => cases operation <;> simp_all [Operation.changesJobs, Event.claimed?]
  | refused _ _ => cases operation <;> cases he
  | _ => cases he

/-- A job comes to be queued that was not only if running jobs are queued again. -/
theorem requeues (h : Effect c now op p db) (hdb : c.database.IsCurrent) {r r' : Row} (hr : r ∈ c.database.rows "review_jobs")
    (hr' : r' ∈ db.rows "review_jobs") (hid : r'.id = r.id) (hs : ¬r.HasStatus .queued) (hs' : r'.HasStatus .queued) :
    op = .resetStale ∧ r.HasStatus .running ∧ ∃ answer, p = .answered (.ok answer) := by
  obtain ⟨x, hx, hf⟩ := (h.keepsJobs hdb).follows r hr
  cases Database.rows_eq_of_id_eq hr' hx (hid.trans hf.id_eq.symm)
  cases hf with
  | same => exact absurd hs' hs
  | moved move source target number fixed =>
    cases hs'.inj target
    cases move
    refine ⟨rfl, source, ?_⟩
    cases h with
    | aside changes _ _ => cases changes
    | refused agrees _ =>
      -- the row is as it was, and it was not queued
      rw [Database.rows_congr (agrees "review_jobs")] at hr'
      rw [Database.rows_eq_of_id_eq hr' hr hid] at hs'
      exact absurd hs' hs
    | requeued gives => exact ⟨_, rfl⟩

end Effect

namespace Site

/-- If a job is not queued, and later is, then running jobs were queued again in between while it was running. -/
theorem exists_reset {w : Site} (hw : w.database.IsCurrent) (as : List Action) {r x : Row}
    (hr : r ∈ w.database.rows "review_jobs") (hs : ¬r.HasStatus .queued) (hx : x ∈ (w.after as).database.rows "review_jobs")
    (hid : x.id = r.id) (hq : x.HasStatus .queued) :
    ∃ bs m cs e, as = bs ++ m :: cs ∧ ((w.after bs).step m).2 = some e ∧ e.operation = .resetStale ∧ e.answer.isOk = true ∧
      ∃ y ∈ (w.after bs).database.rows "review_jobs", y.id = r.id ∧ y.HasStatus .running := by
  induction as generalizing w r with
  | nil =>
    rw [Database.rows_eq_of_id_eq hx hr hid] at hq
    exact absurd hq hs
  | cons a as ih =>
    have heffect := step_effect hw a
    obtain ⟨r', hr', hf⟩ := (heffect.keepsJobs hw).follows r hr
    by_cases hs' : r'.HasStatus .queued
    · obtain ⟨hop, hrun, answer, hanswer⟩ := heffect.requeues hw hr hr' hf.id_eq hs hs'
      refine ⟨[], a, as, ⟨a.handle, .resetStale, .ok answer⟩, rfl, ?_, rfl, rfl, r, hr, rfl, hrun⟩
      exact step_event.mpr ⟨hanswer, rfl, hop.symm⟩
    · obtain ⟨bs, m, cs, e, rfl, he, hop, hok, y, hy, hyid, hrun⟩ :=
        ih (step_isCurrent hw a) hr' hs' hx (hid.trans hf.id_eq.symm)
      exact ⟨a :: bs, m, cs, e, rfl, he, hop, hok, y, hy, hyid.trans hf.id_eq, hrun⟩

/-- Between two claims of one job running jobs were queued again while the job was running. -/
theorem exists_reset_between {w : Site} (hw : w.database.IsCurrent) {a b : Action} {bs : List Action} {e e' : Event}
    {j j' : Job} (he : (w.step a).2 = some e) (hj : e.claimed? = some j) (he' : (((w.step a).1.after bs).step b).2 = some e')
    (hj' : e'.claimed? = some j') (hid : j'.id = j.id) :
    ∃ cs m ds reset, bs = cs ++ m :: ds ∧ (((w.step a).1.after cs).step m).2 = some reset ∧ reset.operation = .resetStale ∧
      reset.answer.isOk = true ∧
      ∃ r ∈ ((w.step a).1.after cs).database.rows "review_jobs", r.id = j.id ∧ r.HasStatus .running := by
  have hw' := after_isCurrent (step_isCurrent hw a) bs
  obtain ⟨-, r, hr, hrid, hrun⟩ := (step_event_effect hw he).exists_of_claimed hw hj
  obtain ⟨⟨x, hx, hxid, hqueued⟩, -⟩ := (step_event_effect hw' he').exists_of_claimed hw' hj'
  rw [← hrid]
  have hnot : ¬r.HasStatus .queued := by
    intro h
    cases h.inj hrun
  exact exists_reset (step_isCurrent hw a) bs hr hnot hx (by rw [hxid, hid, hrid]) hqueued

end Site

/-! ## The jobs still queued -/

/-- The numbers of a table of jobs leave no gap, and the jobs that are queued stand after all that are not. -/
structure Table.QueuedLast (t : Table) (gone rest : List Row) : Prop where
  gapless : t.Gapless
  rows : t.rows = gone ++ rest
  gone : ∀ r ∈ gone, ¬r.HasStatus .queued
  rest : ∀ r ∈ rest, r.HasStatus .queued

namespace Table.QueuedLast

variable {t new : Table} {gone rest : List Row} {r : Row}

/-- The first queued job is the first of those that stand last. -/
theorem find?_eq (h : t.QueuedLast gone rest) : t.rows.find? (·.HasStatus .queued) = rest.head? := by
  have hgone : gone.find? (·.HasStatus .queued) = none := List.find?_eq_none.mpr fun x hx => by simpa using h.gone x hx
  rw [h.rows, List.find?_append, hgone, Option.none_or]
  cases hrest : rest with
  | nil => rfl
  | cons x xs =>
    have hx : x.HasStatus .queued := h.rest x (by simp [hrest])
    rw [List.find?_cons_of_pos (by simpa using hx), List.head?_cons]

/-- No job is queued exactly if none stands last. -/
theorem none_queued_iff (h : t.QueuedLast gone rest) : (∀ r ∈ t.rows, ¬r.HasStatus .queued) ↔ rest = [] := by
  constructor
  · intro hnone
    refine List.eq_nil_iff_forall_not_mem.mpr ?_
    intro x hx
    exact hnone x (by rw [h.rows]; exact List.mem_append_right _ hx) (h.rest x hx)
  · rintro rfl x hx
    rw [h.rows, List.append_nil] at hx
    exact h.gone x hx

/-- A queued job that goes to the end stands after all that are not queued. -/
theorem snoc (h : t.QueuedLast gone rest) (hrows : new.rows = t.rows ++ [r]) (hgapless : new.Gapless)
    (hr : r.HasStatus .queued) : new.QueuedLast gone (rest ++ [r]) where
  gapless := hgapless
  rows := by rw [hrows, h.rows, List.append_assoc]
  gone := h.gone
  rest x hx := by
    rcases List.mem_append.mp hx with hx | hx
    · exact h.rest x hx
    · cases List.mem_singleton.mp hx
      exact hr

/-- The first queued job is claimed. -/
theorem claim (h : t.QueuedLast gone (r :: rest)) {r' : Row} (hrows : new.rows = gone ++ r' :: rest) (hid : r'.id = r.id)
    (hr' : ¬r'.HasStatus .queued) : new.QueuedLast (gone ++ [r']) rest where
  gapless := by
    have hgapless := h.gapless
    unfold Gapless at hgapless ⊢
    rw [h.rows] at hgapless
    simpa [hrows, hid] using hgapless
  rows := by rw [hrows, List.append_assoc, List.singleton_append]
  gone x hx := by
    rcases List.mem_append.mp hx with hx | hx
    · exact h.gone x hx
    · cases List.mem_singleton.mp hx
      exact hr'
  rest x hx := h.rest x (by simp [hx])

/-- A change that takes no job from the queue and gives none to it leaves the order. -/
theorem of_moves (h : t.QueuedLast gone rest) {s : Change} {source target : JobStatus} (hs : s.MovesJobs source target)
    (hl : t.layout = .jobs) (hsource : source ≠ .queued) (htarget : target ≠ .queued) :
    let given := fun x : Row => if x.hasAll t.layout s.having then x.given t.layout s.cells else x
    (s.inPlace t).2.QueuedLast (gone.map given) (rest.map given) := by
  have hgiven : ∀ x : Row, x.hasAll t.layout s.having = true →
      ¬x.HasStatus .queued ∧ ¬(x.given t.layout s.cells).HasStatus .queued := by
    intro x hx
    rw [hl] at hx ⊢
    have hbefore := hs.chooses x hx
    exact ⟨fun hq => hsource (hbefore.inj hq), fun hq => htarget ((hs.gives x hbefore).inj hq)⟩
  refine ⟨Change.gapless_inPlace h.gapless s, ?_, ?_, ?_⟩
  · rw [Change.inPlace_snd_rows, h.rows, List.map_append]
  · intro x hx
    obtain ⟨y, hy, rfl⟩ := List.mem_map.mp hx
    split
    next hc => exact (hgiven y hc).2
    next => exact h.gone y hy
  · intro x hx
    obtain ⟨y, hy, rfl⟩ := List.mem_map.mp hx
    split
    next hc => exact absurd (h.rest y hy) (hgiven y hc).1
    next => exact h.rest y hy

end Table.QueuedLast

/-- A job that is added to numbers without a gap goes to the end and leaves none. -/
theorem Connection.queueing_last {now : Timestamp} {r : JobRequest} {g : Guard} {db db' : Database} {t new : Table} {id : Int}
    (h : (queueing now r).Adds g db t new id db') (hl : t.layout = .jobs) (hgapless : t.Gapless) :
    new.rows = t.rows ++ [(queueing now r).row .jobs id] ∧ new.Gapless := by
  have hnumber : id = t.nextId := by
    cases (queueing_number now r hl).symm.trans h.number
    rfl
  have hlast := hgapless.insert? (by rw [Insertion.row_id]; exact hnumber) (h.inserted (by rw [hl]; decide))
  rwa [hl] at hlast

/-- Whether the jobs of a database that are queued stand after all that are not. -/
def Database.QueuedLast (db : Database) : Prop :=
  ∃ t gone rest, db.table? "review_jobs" = some t ∧ t.QueuedLast gone rest

namespace Effect

variable {c : Connection} {now : Timestamp} {op : Operation} {p : Progress} {db : Database}

/-- A claim that finds the lock free takes the first queued job, and no other. -/
theorem claim_takes {worker : String} {answer : Except StoreError Answer}
    (h : Effect c now (.claim worker) (.answered answer) db) (hdb : c.database.IsCurrent) (hunlocked : c.locked = false)
    {t : Table} (ht : c.database.table? "review_jobs" = some t) {gone rest : List Row} {r : Row}
    (hlast : t.QueuedLast gone (r :: rest)) :
    ∃ r' t', r'.id = r.id ∧ r'.HasStatus .running ∧ db.table? "review_jobs" = some t' ∧ t'.rows = gone ++ r' :: rest := by
  obtain ⟨u, hu, hl⟩ := hdb.jobs
  cases hu.symm.trans ht
  cases h with
  | aside changes _ _ => cases changes
  | refused _ claim => cases (claim worker rfl).1.symm.trans hunlocked
  | waiting _ table none_queued _ =>
    cases ht.symm.trans table
    exact absurd (hlast.rest r (by simp)) (none_queued r (by rw [hlast.rows]; simp))
  | claimed _ takes first =>
    cases ht.symm.trans takes.table
    cases first.symm.trans hlast.find?_eq
    have hrows := takes.rows_append hlast.rows
    rw [hl] at hrows
    have hrunning := (Connection.claiming_moves c.database now worker).gives r (hlast.rest r (by simp))
    exact ⟨r.given .jobs (Connection.claiming c.database now worker).cells, _, rfl, hrunning, takes.table?_self, hrows⟩

/-- An effect leaves the queued jobs last, unless running jobs are queued again. -/
theorem queuedLast (h : Effect c now op p db) (hdb : c.database.IsCurrent) (hlast : c.database.QueuedLast) (handle : Nat)
    (hreset : ∀ e ∈ (p.event? handle op).toList, e.operation ≠ .resetStale) : db.QueuedLast := by
  obtain ⟨t, gone, rest, ht, hlast⟩ := hlast
  obtain ⟨u, hu, hl⟩ := hdb.jobs
  cases hu.symm.trans ht
  cases h with
  | aside _ same _ => exact ⟨t, gone, rest, (same _ (Or.inl rfl)).trans ht, hlast⟩
  | refused agrees _ => exact ⟨t, gone, rest, (agrees _).trans ht, hlast⟩
  | missed agrees => exact ⟨t, gone, rest, (agrees _).trans ht, hlast⟩
  | waiting _ _ _ agrees => exact ⟨t, gone, rest, (agrees _).trans ht, hlast⟩
  | @enqueued _ _ new _ _ adds =>
    cases ht.symm.trans adds.table
    obtain ⟨hrows, hgapless⟩ := Connection.queueing_last adds hl hlast.gapless
    exact ⟨new, gone, _, adds.table?_self, hlast.snoc hrows hgapless (Connection.queueing_hasStatus ..)⟩
  | @claimed worker _ r _ unlocked takes first =>
    cases ht.symm.trans takes.table
    rw [hlast.find?_eq] at first
    obtain ⟨rest, rfl⟩ := List.head?_eq_some_iff.mp first
    have hrows := takes.rows_append hlast.rows
    rw [hl] at hrows
    have hrunning := (Connection.claiming_moves c.database now worker).gives r (hlast.rest r (by simp))
    exact ⟨_, _, rest, takes.table?_self, hlast.claim hrows rfl fun hq => by cases hq.inj hrunning⟩
  | failed takes _ _ =>
    cases ht.symm.trans takes.table
    exact ⟨_, _, _, takes.table?_self, hlast.of_moves (Connection.finishing_moves ..) hl (by decide) (by decide)⟩
  | completed takes _ _ adds _ =>
    cases ht.symm.trans takes.table
    exact ⟨_, _, _, (adds.table?_of_ne (show "review_jobs" ≠ "reviews" by decide)).trans takes.table?_self,
      hlast.of_moves (Connection.finishing_moves ..) hl (by decide) (by decide)⟩
  | requeued _ => exact absurd rfl (hreset _ (List.mem_singleton.mpr rfl))

end Effect

/-- After a run in which running jobs are not queued again the queued jobs stand last. -/
theorem Site.queuedLast (as : List Action) (hreset : ∀ e ∈ fresh.history as, e.operation ≠ .resetStale) :
    (fresh.after as).database.IsCurrent ∧ (fresh.after as).database.QueuedLast := by
  have hjobs : Database.current.table? "review_jobs" = some (.empty .jobs) := by decide
  have hempty : (Table.empty .jobs).QueuedLast [] [] := by
    refine ⟨rfl, rfl, ?_, ?_⟩ <;> intro r hr <;> cases hr
  have hrun : (fresh.after as).database.IsCurrent ∧
      ((∀ e ∈ fresh.history as, e.operation ≠ .resetStale) → (fresh.after as).database.QueuedLast) := by
    refine run_induction (P := fun w es => w.database.IsCurrent ∧
      ((∀ e ∈ es, e.operation ≠ .resetStale) → w.database.QueuedLast)) (fun _ => True)
      ⟨by decide, fun _ => ⟨_, [], [], hjobs, hempty⟩⟩ ?_ as fun _ _ => trivial
    rintro w es a - ⟨hdb, hlast⟩
    have heffect := step_effect hdb a
    rw [step_event?]
    refine ⟨heffect.isCurrent hdb, fun hno => ?_⟩
    exact heffect.queuedLast hdb (hlast fun e he => hno e (List.mem_append_left _ he)) a.handle
      fun e he => hno e (List.mem_append_right _ he)
  exact ⟨hrun.1, hrun.2 hreset⟩

end ReviewQueue
