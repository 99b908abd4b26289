import ReviewQueue.Proofs.Queue.Claims

/-!
# The order of claims

As long as no running jobs are queued again, jobs are claimed in the order in which they were queued: the queued rows,
in the order of their numbers, hold the jobs that were queued less those that were claimed. A new row goes to the end,
because the numbers leave no gap, and a claim takes the first.
-/

namespace ReviewQueue

/-- A job is another one after some worker claimed it. -/
def Job.Claims (j q : Job) : Prop := ∃ worker now, j = q.claimedBy worker now

/-- What holds of the table of jobs after some calls none of which queued running jobs again. -/
structure InOrder (t : Table) (es : List Event) : Prop where
  gapless : t.Gapless
  /-- Every row was added by a call that succeeded. -/
  numbers : (enqueues es).map (·.id) = t.rows.map (·.id)
  /-- The jobs that were queued are those that were claimed and then those that are still queued. -/
  waiting : ∃ taken rest, enqueues es = taken ++ rest ∧ List.Forall₂ Job.Claims (claims es) taken ∧
    List.Forall₂ Row.Shows (t.rows.filter (·.HasStatus .queued)) rest

theorem enqueues_append (es es' : List Event) : enqueues (es ++ es') = enqueues es ++ enqueues es' := List.filterMap_append

theorem claims_append (es es' : List Event) : claims (es ++ es') = claims es ++ claims es' := List.filterMap_append

/-- Claiming a job leaves its number. -/
theorem Job.Claims.ids_eq {js qs : List Job} (h : List.Forall₂ Job.Claims js qs) : js.map (·.id) = qs.map (·.id) := by
  induction h with
  | nil => rfl
  | cons hclaims _ ih =>
    obtain ⟨worker, now, rfl⟩ := hclaims
    rw [List.map_cons, List.map_cons, ih]
    rfl

namespace InOrder

variable {t t' new : Table} {es : List Event}

/-- Where no job is queued or claimed and the queued rows are the same, nothing is different. -/
theorem congr (h : InOrder t es) (hids : t'.rows.map (·.id) = t.rows.map (·.id))
    (hqueued : t'.rows.filter (·.HasStatus .queued) = t.rows.filter (·.HasStatus .queued)) {es' : List Event}
    (henqueues : enqueues es' = []) (hclaims : claims es' = []) : InOrder t' (es ++ es') where
  gapless := by
    have hlength : t'.rows.length = t.rows.length := by simpa using congrArg List.length hids
    unfold Table.Gapless
    rw [hids, hlength]
    exact h.gapless
  numbers := by
    rw [enqueues_append, henqueues, List.append_nil, hids]
    exact h.numbers
  waiting := by
    rw [enqueues_append, claims_append, henqueues, hclaims, List.append_nil, List.append_nil, hqueued]
    exact h.waiting

/-- A job that is queued goes to the end. -/
theorem enqueue (h : InOrder t es) {r : Row} {j : Job} (hrows : new.rows = t.rows ++ [r]) (hgapless : new.Gapless)
    (hr : r.Shows j) (hqueued : r.HasStatus .queued) {es' : List Event} (henqueues : enqueues es' = [j])
    (hclaims : claims es' = []) : InOrder new (es ++ es') where
  gapless := hgapless
  numbers := by
    rw [enqueues_append, henqueues, hrows, List.map_append, List.map_append, h.numbers, List.map_singleton, List.map_singleton,
      hr.holds.id]
  waiting := by
    obtain ⟨taken, rest, heq, htaken, hrest⟩ := h.waiting
    have hlast : [r].filter (·.HasStatus .queued) = [r] := by simpa using hqueued
    refine ⟨taken, rest ++ [j], ?_, ?_, ?_⟩
    · rw [enqueues_append, henqueues, heq, List.append_assoc]
    · rw [claims_append, hclaims, List.append_nil]
      exact htaken
    · rw [hrows, List.filter_append, hlast]
      exact List.rel_append hrest (.cons hr .nil)

/-- A job that is claimed is the one that was queued first. -/
theorem claim (h : InOrder t es) {r r' : Row} {as bs : List Row} (hrows : t.rows = as ++ r :: bs)
    (hrows' : t'.rows = as ++ r' :: bs) (hid : r'.id = r.id) (has : ∀ x ∈ as, ¬x.HasStatus .queued)
    (hqueued : r.HasStatus .queued) (hrunning : ¬r'.HasStatus .queued) {es' : List Event} (henqueues : enqueues es' = [])
    (hclaims : ∀ j, r.Shows j → ∃ j', j'.Claims j ∧ claims es' = [j']) : InOrder t' (es ++ es') where
  gapless := by
    have hgapless := h.gapless
    unfold Table.Gapless at hgapless ⊢
    rw [hrows] at hgapless
    simpa [hrows', hid] using hgapless
  numbers := by
    rw [enqueues_append, henqueues, List.append_nil, h.numbers, hrows, hrows']
    simp [hid]
  waiting := by
    obtain ⟨taken, rest, heq, htaken, hrest⟩ := h.waiting
    have hnone : as.filter (·.HasStatus .queued) = [] := List.filter_eq_nil_iff.mpr fun x hx => by simpa using has x hx
    have hbefore : t.rows.filter (·.HasStatus .queued) = r :: bs.filter (·.HasStatus .queued) := by
      rw [hrows, List.filter_append, hnone, List.nil_append, List.filter_cons_of_pos (by simpa using hqueued)]
    have hafter : t'.rows.filter (·.HasStatus .queued) = bs.filter (·.HasStatus .queued) := by
      rw [hrows', List.filter_append, hnone, List.nil_append, List.filter_cons_of_neg (by simpa using hrunning)]
    rw [hbefore] at hrest
    cases hrest with
    | @cons _ j _ rest hr hrest =>
      obtain ⟨j', hj', hnew⟩ := hclaims j hr
      refine ⟨taken ++ [j], rest, ?_, ?_, ?_⟩
      · rw [enqueues_append, henqueues, List.append_nil, heq, List.append_assoc]
        rfl
      · rw [claims_append, hnew]
        exact List.rel_append htaken (.cons hj' .nil)
      · rw [hafter]
        exact hrest

/-- A queued row holds a job that can be read back. -/
theorem exists_shows (h : InOrder t es) {r : Row} (hr : r ∈ t.rows) (hs : r.HasStatus .queued) : ∃ j, r.Shows j := by
  obtain ⟨-, rest, -, -, hrest⟩ := h.waiting
  have hmem : r ∈ t.rows.filter (·.HasStatus .queued) := List.mem_filter.mpr ⟨hr, by simpa using hs⟩
  generalize t.rows.filter (·.HasStatus .queued) = rows at hmem hrest
  induction hrest with
  | nil => cases hmem
  | cons hshows _ ih =>
    rcases List.mem_cons.mp hmem with rfl | hmem
    · exact ⟨_, hshows⟩
    · exact ih hmem

/-- No row is queued exactly if every job that was queued was claimed. -/
theorem none_queued_iff (h : InOrder t es) :
    (∀ r ∈ t.rows, ¬r.HasStatus .queued) ↔ ∀ q ∈ enqueues es, ∃ j ∈ claims es, j.id = q.id := by
  obtain ⟨taken, rest, heq, htaken, hrest⟩ := h.waiting
  constructor
  · intro hnone q hq
    have hfilter : t.rows.filter (·.HasStatus .queued) = [] :=
      List.filter_eq_nil_iff.mpr fun x hx => by simpa using hnone x hx
    rw [hfilter] at hrest
    cases hrest
    rw [heq, List.append_nil] at hq
    have hmem : q.id ∈ (claims es).map (·.id) := by
      rw [Job.Claims.ids_eq htaken]
      exact List.mem_map_of_mem hq
    obtain ⟨j, hj, hid⟩ := List.mem_map.mp hmem
    exact ⟨j, hj, hid⟩
  · intro hall r hr hs
    -- a job that is still queued has a number that no claimed job has, since numbers tell rows apart
    have hnodup : (taken.map (·.id) ++ rest.map (·.id)).Nodup := by
      rw [← List.map_append, ← heq, h.numbers]
      refine List.Pairwise.imp (fun {a b} hlt e => ?_) (List.pairwise_map.mpr t.ascending)
      rw [e] at hlt
      exact Int.lt_irrefl _ hlt
    have hmem : r ∈ t.rows.filter (·.HasStatus .queued) := List.mem_filter.mpr ⟨hr, by simpa using hs⟩
    have hrest' : rest ≠ [] := by
      intro hnil
      rw [hnil, List.forall₂_nil_right_iff] at hrest
      rw [hrest] at hmem
      cases hmem
    obtain ⟨q, hq⟩ := List.exists_mem_of_ne_nil rest hrest'
    obtain ⟨j, hj, hid⟩ := hall q (by rw [heq]; simp [hq])
    have htaken' : q.id ∈ taken.map (·.id) := by
      rw [← Job.Claims.ids_eq htaken, ← hid]
      exact List.mem_map_of_mem hj
    exact (List.nodup_append.mp hnodup).2.2 _ htaken' _ (List.mem_map_of_mem hq) rfl

/-- The n-th job that was claimed is the n-th that was queued. -/
theorem exists_nth (h : InOrder t es) {n : Nat} {j : Job} (hn : (claims es)[n]? = some j) :
    ∃ q, (enqueues es)[n]? = some q ∧ j.Claims q := by
  obtain ⟨taken, rest, heq, htaken, -⟩ := h.waiting
  obtain ⟨hlt, rfl⟩ := List.getElem?_eq_some_iff.mp hn
  have hlt' : n < taken.length := by
    rw [← htaken.length_eq]
    exact hlt
  refine ⟨taken[n], ?_, htaken.get hlt hlt'⟩
  rw [heq, List.getElem?_append_left hlt', List.getElem?_eq_getElem hlt']

end InOrder

/-- What holds of a database after some calls none of which queued running jobs again. -/
def Database.InOrder (db : Database) (es : List Event) : Prop :=
  ∃ t, db.table? "review_jobs" = some t ∧ ReviewQueue.InOrder t es

namespace Effect

variable {c : Connection} {now : Timestamp} {op : Operation} {p : Progress} {db : Database} {es : List Event}

/-- A call that is not there to change jobs queues and claims none. -/
theorem no_jobs_of_changesJobs (h : op.changesJobs = false) (p : Progress) (handle : Nat) :
    enqueues (p.event? handle op).toList = [] ∧ claims (p.event? handle op).toList = [] := by
  cases p with
  | next => exact ⟨rfl, rfl⟩
  | answered answer =>
    cases op with
    | enqueue | claim => cases h
    | _ => exact ⟨rfl, rfl⟩

/-- A call that fails queues and claims no job that it could answer. -/
theorem no_jobs_of_error (op : Operation) (e : StoreError) (handle : Nat) :
    enqueues [⟨handle, op, .error e⟩] = [] ∧ claims [⟨handle, op, .error e⟩] = [] := by
  cases op <;> exact ⟨rfl, rfl⟩

/-- An effect keeps the order, if the clock shows a year of four digits and running jobs are not queued again. -/
theorem inOrder (h : Effect c now op p db) (hdb : c.database.IsCurrent) (hfit : c.database.JobsFit) (hnow : now.IsPlain)
    (hes : c.database.InOrder es) (handle : Nat) (hreset : ∀ e ∈ (p.event? handle op).toList, e.operation ≠ .resetStale) :
    db.InOrder (es ++ (p.event? handle op).toList) := by
  obtain ⟨t, ht, horder⟩ := hes
  obtain ⟨u, hu, hl⟩ := hdb.jobs
  cases hu.symm.trans ht
  cases h with
  | aside changes unchanged _ =>
    obtain ⟨henqueues, hclaims⟩ := no_jobs_of_changesJobs changes _ handle
    exact ⟨t, (unchanged _ (Or.inl rfl)).trans ht, horder.congr rfl rfl henqueues hclaims⟩
  | refused agrees _ =>
    obtain ⟨henqueues, hclaims⟩ := no_jobs_of_error _ _ handle
    exact ⟨t, (agrees _).trans ht, horder.congr rfl rfl henqueues hclaims⟩
  | missed agrees => exact ⟨t, (agrees _).trans ht, horder.congr rfl rfl rfl rfl⟩
  | waiting _ _ _ agrees => exact ⟨t, (agrees _).trans ht, horder.congr rfl rfl rfl rfl⟩
  | @enqueued request _ new id _ adds =>
    cases ht.symm.trans adds.table
    have hrow : ((Connection.queueing now request).row .jobs id).Shows (request.queued id now) :=
      ⟨Connection.queueing_holds now request id, request.queued_plain id hnow⟩
    obtain ⟨hrows, hgapless⟩ := Connection.queueing_last adds hl horder.gapless
    refine ⟨new, adds.table?_self, horder.enqueue hrows hgapless hrow (Connection.queueing_hasStatus ..) ?_ ?_⟩ <;>
      rw [Job.ofRecord_recordOf hrow.holds hrow.times] <;> rfl
  | @claimed worker _ r _ unlocked takes first =>
    cases ht.symm.trans takes.table
    obtain ⟨hqueued, as, bs, hrows, has⟩ := List.find?_eq_some_iff_append.mp first
    have hrows' := takes.rows_append hrows
    rw [hl] at hrows'
    have hrunning := (Connection.claiming_moves c.database now worker).gives r (of_decide_eq_true hqueued)
    refine ⟨_, takes.table?_self, horder.claim hrows hrows' rfl (fun x hx => by simpa using has x hx)
      (of_decide_eq_true hqueued) (fun h => by cases h.inj hrunning) ?_ fun j hj => ?_⟩
    · rfl
    · have hmem : r ∈ c.database.rows "review_jobs" := by rw [Database.rows_of_table? ht]; exact takes.mem
      have hholds := Connection.claiming_holds c.database now worker hj.holds (hfit r hmem)
      refine ⟨j.claimedBy worker now, ⟨worker, now, rfl⟩, ?_⟩
      rw [Job.ofRecord_recordOf hholds (hj.times.claimedBy hnow worker)]
      rfl
  | failed takes _ _ =>
    cases ht.symm.trans takes.table
    exact ⟨_, takes.table?_self, horder.congr (Change.inPlace_snd_ids ..)
      ((Connection.finishing_moves ..).filter_status hl .queued (by decide) (by decide)) rfl rfl⟩
  | completed takes _ _ adds _ =>
    cases ht.symm.trans takes.table
    refine ⟨_, (adds.table?_of_ne (show "review_jobs" ≠ "reviews" by decide)).trans takes.table?_self, ?_⟩
    exact horder.congr (Change.inPlace_snd_ids ..)
      ((Connection.finishing_moves ..).filter_status hl .queued (by decide) (by decide)) rfl rfl
  | requeued _ => exact absurd rfl (hreset _ (List.mem_singleton.mpr rfl))

/-- A claim answers that there is no job exactly if the lock is free and none is queued. -/
theorem absent_iff {worker : String} {answer : Except StoreError Answer} {t : Table}
    (h : Effect c now (.claim worker) (.answered answer) db) (ht : c.database.table? "review_jobs" = some t) :
    answer = .ok .absent ↔ c.locked = false ∧ ∀ r ∈ t.rows, ¬r.HasStatus .queued := by
  cases h with
  | aside changes _ _ => cases changes
  | refused _ claim =>
    have hlocked := (claim worker rfl).1
    refine ⟨fun h => (by cases h), fun h => ?_⟩
    rw [hlocked] at h
    cases h.1
  | waiting unlocked table none_queued _ =>
    cases ht.symm.trans table
    exact ⟨fun _ => ⟨unlocked, none_queued⟩, fun _ => rfl⟩
  | @claimed _ _ r _ unlocked takes first =>
    cases ht.symm.trans takes.table
    have hqueued : r.HasStatus .queued := by simpa using List.find?_some first
    refine ⟨fun h => ?_, fun h => absurd hqueued (h.2 r takes.mem)⟩
    cases hjob : Job.ofRecord (Job.recordOf (r.given .jobs (Connection.claiming c.database now worker).cells)) with
    | error f => rw [hjob] at h; cases h
    | ok j => rw [hjob] at h; cases h

/-- A claim that finds the lock free does not fail if the queued jobs can be read back. -/
theorem claim_isOk_of_shows {worker : String} {answer : Except StoreError Answer}
    (h : Effect c now (.claim worker) (.answered answer) db) (hfit : c.database.JobsFit) (hnow : now.IsPlain)
    (hunlocked : c.locked = false)
    (hshows : ∀ r ∈ c.database.rows "review_jobs", r.HasStatus .queued → ∃ j, r.Shows j) : answer.isOk = true := by
  cases h with
  | aside changes _ _ => cases changes
  | refused _ claim => cases (claim worker rfl).1.symm.trans hunlocked
  | waiting _ _ _ _ => rfl
  | @claimed _ _ r _ _ takes first =>
    have ht : c.database.table? "review_jobs" = some _ := takes.table
    have hmem : r ∈ c.database.rows "review_jobs" := by
      rw [Database.rows_of_table? ht]
      exact takes.mem
    obtain ⟨j, hj⟩ := hshows r hmem (by simpa using List.find?_some first)
    have hholds := Connection.claiming_holds c.database now worker hj.holds (hfit r hmem)
    rw [Job.ofRecord_recordOf hholds (hj.times.claimedBy hnow worker)]
    rfl

/-- A claim that finds the lock free does not fail while jobs are in order. -/
theorem claim_isOk {worker : String} {answer : Except StoreError Answer} {t : Table}
    (h : Effect c now (.claim worker) (.answered answer) db) (hfit : c.database.JobsFit) (hnow : now.IsPlain)
    (hunlocked : c.locked = false) (ht : c.database.table? "review_jobs" = some t)
    (horder : InOrder t es) : answer.isOk = true := by
  refine h.claim_isOk_of_shows hfit hnow hunlocked fun r hr hs => ?_
  rw [Database.rows_of_table? ht] at hr
  exact horder.exists_shows hr hs

end Effect

/-- After a run in which running jobs are not queued again, with a clock that shows years of four digits, jobs are in
order. -/
theorem Site.inOrder (as : List Action) (hclock : ∀ a ∈ as, a.now.IsPlain)
    (hreset : ∀ e ∈ fresh.history as, e.operation ≠ .resetStale) : (fresh.after as).database.IsCurrent ∧
    (fresh.after as).database.JobsFit ∧ (fresh.after as).database.InOrder (fresh.history as) := by
  have hjobs : Database.current.table? "review_jobs" = some (.empty .jobs) := by decide
  have hrun : (fresh.after as).database.IsCurrent ∧ (fresh.after as).database.JobsFit ∧
      ((∀ e ∈ fresh.history as, e.operation ≠ .resetStale) → (fresh.after as).database.InOrder (fresh.history as)) := by
    refine run_induction (P := fun w es => w.database.IsCurrent ∧ w.database.JobsFit ∧
      ((∀ e ∈ es, e.operation ≠ .resetStale) → w.database.InOrder es)) (·.now.IsPlain)
      ⟨by decide, ?_, fun _ => ?_⟩ ?_ as hclock
    · intro r hr
      have hnone : r ∈ Database.current.rows "review_jobs" := hr
      rw [Database.rows_of_table? hjobs] at hnone
      cases hnone
    · exact ⟨_, hjobs, rfl, rfl, [], [], rfl, .nil, .nil⟩
    · rintro w es a hnow ⟨hdb, hfit, horder⟩
      have heffect := step_effect hdb a
      rw [step_event?]
      refine ⟨heffect.isCurrent hdb, heffect.jobsFit hdb hfit, fun hno => ?_⟩
      exact heffect.inOrder hdb hfit hnow (horder fun e he => hno e (List.mem_append_left _ he)) a.handle
        fun e he => hno e (List.mem_append_right _ he)
  exact ⟨hrun.1, hrun.2.1, hrun.2.2 hreset⟩

/-- Claims over whole runs of several handles from a database just installed, in three parts.
1. If a job is claimed twice, then running jobs were queued again in between, and at that time the job was running.
2. In a run in which running jobs are not queued again, and in which the clock shows years of four digits, the claim
   that is the n-th to succeed answers the job that was the n-th to be queued, as a worker claimed it. A claim answers
   that there is none exactly if the lock is free and every job queued so far has been claimed, and fails only for the
   lock.
3. Whatever the clock shows, and so whether jobs can be read back or not, the jobs that are queued in such a run stand
   after all that are not. A claim that finds the lock free takes the first of them and answers that there is none
   exactly if none is left. -/
theorem claims_exclusive_in_order :
    (∀ (as bs : List Action) (a b : Action) (e e' : Event) (j j' : Job),
      ((Site.fresh.after as).step a).2 = some e → e.claimed? = some j →
      ((Site.fresh.after (as ++ a :: bs)).step b).2 = some e' → e'.claimed? = some j' → j'.id = j.id →
      ∃ cs m ds reset, bs = cs ++ m :: ds ∧ ((Site.fresh.after (as ++ a :: cs)).step m).2 = some reset ∧
        reset.operation = .resetStale ∧ reset.answer.isOk = true ∧
        ∃ r ∈ (Site.fresh.after (as ++ a :: cs)).database.rows "review_jobs", r.id = j.id ∧ r.HasStatus .running) ∧
    (∀ as : List Action, (∀ a ∈ as, a.now.IsPlain) →
      (∀ e ∈ Site.fresh.history as, e.operation ≠ .resetStale) →
      (∀ (n : Nat) (j : Job), (claims (Site.fresh.history as))[n]? = some j →
        ∃ q, (enqueues (Site.fresh.history as))[n]? = some q ∧ j.Claims q) ∧
      ∀ (a : Action) (e : Event) (worker : String), ((Site.fresh.after as).step a).2 = some e → e.operation = .claim worker →
        (e.answer = .ok .absent ↔ a.locked = false ∧
          ∀ q ∈ enqueues (Site.fresh.history as), ∃ j ∈ claims (Site.fresh.history as), j.id = q.id) ∧
        (a.now.IsPlain → a.locked = false → e.answer.isOk = true)) ∧
    (∀ as : List Action, (∀ e ∈ Site.fresh.history as, e.operation ≠ .resetStale) →
      ∃ gone rest, (Site.fresh.after as).database.rows "review_jobs" = gone ++ rest ∧ (∀ r ∈ gone, ¬r.HasStatus .queued) ∧
        (∀ r ∈ rest, r.HasStatus .queued) ∧
        ∀ (a : Action) (e : Event) (worker : String), ((Site.fresh.after as).step a).2 = some e → e.operation = .claim worker →
          (e.answer = .ok .absent ↔ a.locked = false ∧ rest = []) ∧
          (a.locked = false → ∀ r rest', rest = r :: rest' → ∃ r', r'.id = r.id ∧ r'.HasStatus .running ∧
            ((Site.fresh.after as).step a).1.database.rows "review_jobs" = gone ++ r' :: rest')) := by
  refine ⟨?_, ?_, ?_⟩
  · intro as bs a b e e' j j' he hj he' hj' hid
    obtain ⟨cs, m, ds, reset, hbs, hreset, hop, hok, hrun⟩ :=
      Site.exists_reset_between (Site.after_isCurrent (by decide) as) he hj (by rwa [Site.after_append] at he') hj' hid
    have hsite : Site.fresh.after (as ++ a :: cs) = (((Site.fresh.after as).step a).1).after cs := Site.after_append ..
    rw [← hsite] at hreset hrun
    exact ⟨cs, m, ds, reset, hbs, hreset, hop, hok, hrun⟩
  · intro as hclock hreset
    obtain ⟨hdb, hfit, t, ht, horder⟩ := Site.inOrder as hclock hreset
    refine ⟨fun n j hn => horder.exists_nth hn, ?_⟩
    rintro a ⟨handle, operation, answer⟩ worker he rfl
    have heffect := Site.step_event_effect hdb he
    rw [← horder.none_queued_iff]
    exact ⟨heffect.absent_iff ht, fun hnow hunlocked => heffect.claim_isOk hfit hnow hunlocked ht horder⟩
  · intro as hreset
    obtain ⟨hdb, t, gone, rest, ht, hlast⟩ := Site.queuedLast as hreset
    refine ⟨gone, rest, by rw [Database.rows_of_table? ht, hlast.rows], hlast.gone, hlast.rest, ?_⟩
    rintro a ⟨handle, operation, answer⟩ worker he rfl
    have heffect := Site.step_event_effect hdb he
    constructor
    · rw [← hlast.none_queued_iff]
      exact heffect.absent_iff ht
    · rintro hunlocked r rest rfl
      obtain ⟨r', t', hid, hrunning, ht', hrows⟩ := heffect.claim_takes hdb hunlocked ht hlast
      exact ⟨r', hid, hrunning, by rw [Database.rows_of_table? ht', hrows]⟩

/-- A run in which a repository is registered, two jobs are queued, and two workers claim; one of them finds the lock
taken first. -/
def Site.twoJobs : List Action :=
  [⟨0, .registerRepo ⟨bytesOf "/work"⟩, .epoch, false⟩, ⟨0, .version, .epoch, false⟩, ⟨0, .version, .epoch, false⟩,
    ⟨0, .enqueue ⟨1, none, "main", "codex"⟩, .epoch, false⟩, ⟨1, .enqueue ⟨1, none, "next", "codex"⟩, .epoch, false⟩,
    ⟨2, .claim "first", .epoch, false⟩, ⟨3, .claim "second", .epoch, true⟩, ⟨3, .claim "second", .epoch, false⟩]

/-- The second claim that succeeds answers the second job. -/
theorem claims_exclusive_in_order_twoJobs : ∃ j q, (claims (Site.fresh.history Site.twoJobs))[1]? = some j ∧
    (enqueues (Site.fresh.history Site.twoJobs))[1]? = some q ∧ j.Claims q ∧ q.id = 2 := by
  have hclaims : ((claims (Site.fresh.history Site.twoJobs))[1]?.map (·.id)) = some 2 := by decide +kernel
  obtain ⟨j, hj, hid⟩ := Option.map_eq_some_iff.mp hclaims
  obtain ⟨q, hq, hjq⟩ := (claims_exclusive_in_order.2.1 Site.twoJobs (by decide) (by decide +kernel)).1 1 j hj
  refine ⟨j, q, hj, hq, hjq, ?_⟩
  obtain ⟨worker, now, rfl⟩ := hjq
  exact hid

end ReviewQueue
