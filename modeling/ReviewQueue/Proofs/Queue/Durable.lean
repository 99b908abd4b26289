import ReviewQueue.Proofs.Migration.Openers
import ReviewQueue.Proofs.Queue.Stored

/-!
# What was answered stays

Every entity that a call answers is stored when it is answered: it was read from a row, whether the row was found, or was there
already, or was just added. The tables of repositories, commits, reviews and responses only grow, and opening a database
again leaves it. So what was answered once is what every later lookup finds.
-/

namespace ReviewQueue

/-- The entities in an answer that stay as they are. -/
def Answer.entities : Answer → List Entity
  | .repo x => [.repo x]
  | .commit x => [.commit x]
  | .review x => [.review x]
  | .response x => [.response x]
  | .responses xs => xs.map .response
  | _ => []

/-- Whether an operation only looks for entities that stay. -/
def Operation.looksUp : Operation → Bool
  | .findRepoByPath _ | .findRepo _ | .findCommitBySha _ | .findCommit _ | .findReviewBySha _ | .findReviewByJob _
  | .listResponses _ => true
  | _ => false

/-- What is mapped to something is itself something. -/
theorem exists_of_map_ok {ε α β : Type} {f : α → β} {x : Except ε α} {b : β} (h : x.map f = .ok b) :
    ∃ a, x = .ok a ∧ f a = b := by
  cases x with
  | error e => cases h
  | ok a =>
    cases h
    exact ⟨a, rfl, rfl⟩

/-- The one entity in an answer is made of what the call came to. -/
theorem Answer.forall_entities_of_map {ε α : Type} {x : Except ε α} {found : α → Answer} {entity : α → Entity}
    {answer : Answer} {p : Entity → Prop} (h : x.map found = .ok answer) (hentities : ∀ a, (found a).entities = [entity a])
    (hp : ∀ a, x = .ok a → p (entity a)) : ∀ y ∈ answer.entities, p y := by
  obtain ⟨a, ha, rfl⟩ := exists_of_map_ok h
  rw [hentities]
  exact List.forall_mem_singleton.mpr (hp a ha)

namespace Connection

variable {c : Connection} {now : Timestamp}

/-- What is found first was read from a row. -/
theorem exists_of_first {α : Type} {read : Record → Except Fault α} {q : Query} {l : Layout} {a : α}
    (hdb : c.database.IsCurrent) (hl : l ∈ Layout.current) (hname : l.name = q.table) (hq : q.isKnown l = true)
    (h : c.first q read = .ok (some a)) : ∃ r ∈ c.database.rows q.table, read (r.record (l.pick q.columns)) = .ok a := by
  obtain ⟨t, ht, rfl⟩ := hdb l hl
  rw [hname] at ht
  rw [first_eq ht hq] at h
  cases hx : (q.found t).head? with
  | none =>
    rw [hx] at h
    cases h
  | some x =>
    obtain ⟨r, hr, -, rfl⟩ := Query.mem_found.mp (List.mem_of_mem_head? hx)
    simp only [hx] at h
    obtain ⟨b, hread, hb⟩ := exists_of_map_ok h
    cases hb
    exact ⟨r, by rw [Database.rows_of_table? ht]; exact hr, hread⟩

/-- What is looked up under a key is stored. -/
theorem stored_of_look (hdb : c.database.IsCurrent) {k : Key} {x : Answer} (h : k.look c = .ok (some x)) :
    ∀ y ∈ x.entities, y.Stored c.database := by
  have hknown : (Query.mk k.layout.name k.columns [(k.column.name, k.cell)]).isKnown k.layout = true :=
    Query.isKnown_of_names [k.column.name] rfl k.knows_columns
  obtain ⟨r, hr, hread⟩ := exists_of_first hdb k.layout_mem rfl hknown h
  obtain ⟨isPath, text⟩ := k
  cases isPath with
  | true =>
    obtain ⟨repo, hrepo, rfl⟩ := exists_of_map_ok hread
    intro y hy
    cases List.mem_singleton.mp hy
    exact ⟨r, hr, hrepo⟩
  | false =>
    obtain ⟨commit, hcommit, rfl⟩ := exists_of_map_ok hread
    intro y hy
    cases List.mem_singleton.mp hy
    exact ⟨r, hr, hcommit⟩

/-- What a lookup answers is stored. -/
theorem stored_of_lookup {α : Type} {read : Record → Except Fault α} {q : Query} {found : α → Answer} {entity : α → Entity}
    {k : Entity.Kind} {answer : Answer} (hdb : c.database.IsCurrent)
    (h : (liftFault (c.first q read)).map (.ofOption found) = .ok answer) (hentities : ∀ a, (found a).entities = [entity a])
    (hname : k.layout.name = q.table) (hq : q.isKnown k.layout = true)
    (hread : ∀ a r, read (r.record (k.layout.pick q.columns)) = .ok a → (entity a).kind = k ∧ (entity a).ReadFrom r) :
    ∀ x ∈ answer.entities, x.Stored c.database := by
  obtain ⟨a, hfirst, rfl⟩ := exists_of_map_ok h
  cases a with
  | none => exact fun x hx => by cases hx
  | some a =>
    obtain ⟨r, hr, ha⟩ := exists_of_first hdb (List.mem_cons_of_mem _ k.layout_mem) hname hq (eq_ok_of_liftFault hfirst)
    obtain ⟨hkind, hreads⟩ := hread a r ha
    intro x hx
    have hx : x ∈ (found a).entities := hx
    rw [hentities] at hx
    cases List.mem_singleton.mp hx
    exact ⟨r, by rw [Entity.table, hkind, hname]; exact hr, hreads⟩

/-- The row of a response that is added is read as what is answered. -/
theorem stored_of_addResponse {reply : Reply} (hdb : c.database.IsCurrent) {x : Response}
    (h : (c.addResponse now reply).answer = .ok x) :
    (Entity.response x).Stored (c.addResponse now reply).connection.database := by
  unfold addResponse at h ⊢
  cases hinsert : c.insert (responding now reply) with
  | error f =>
    rw [hinsert] at h
    cases h
  | ok added =>
    obtain ⟨_ | record, db⟩ := added
    · rw [hinsert] at h
      cases h
    · simp only [hinsert] at h ⊢
      obtain ⟨t, new, id, hadds, hrecord⟩ := insert_adds hdb (l := .responses) (by decide) rfl rfl hinsert
      obtain ⟨u, hu, hl⟩ := hdb.responses
      cases hu.symm.trans hadds.table
      rw [hl] at hrecord
      cases hrecord
      exact ⟨_, (hadds.mem_rows_table (by rw [hl]; decide)).mpr (Or.inl rfl), by rw [hl]; exact eq_ok_of_liftFault h⟩

/-- The row of a review that is added is read as what is answered. -/
theorem stored_of_complete {id : Int} {text : ReviewText} (hdb : c.database.IsCurrent) {x : Review}
    (h : (c.complete now id text).answer = .ok x) :
    (Entity.review x).Stored (c.complete now id text).connection.database := by
  have heffect := Call.run_effect hdb now (.asked (.complete id text))
  have hanswer : ((Call.asked (.complete id text)).run c now).1 = .answered (.ok (.review x)) := by
    simp only [Call.run, perform, Outcome.map, h]
    rfl
  have hdatabase : ((Call.asked (.complete id text)).run c now).2 = (c.complete now id text).connection.database := rfl
  rw [hanswer, hdatabase] at heffect
  generalize (c.complete now id text).connection.database = db at heffect
  cases heffect with
  | aside changes _ _ => cases changes
  | completed takes _ _ adds reads =>
    obtain ⟨u, hu, hl⟩ := hdb.reviews
    have hsame := takes.table?_of_ne (show "reviews" ≠ "review_jobs" by decide)
    cases hu.symm.trans (hsame.symm.trans adds.table)
    exact ⟨_, (adds.mem_rows_table (by rw [hl]; decide)).mpr (Or.inl rfl), by rw [hl]; exact reads⟩

/-- The responses that are listed are stored. -/
theorem stored_of_listResponses {commitId : Int} (hdb : c.database.Intact) {xs : List Response}
    (h : c.listResponses commitId = .ok xs) : ∀ x ∈ xs, (Entity.response x).Stored c.database := by
  intro x hx
  obtain ⟨r, hr, hread⟩ := exists_of_forall₂ (Entity.forall₂_of_listResponses hdb h).flip hx
  exact ⟨r, (List.mem_filter.mp hr).1, hread⟩

end Connection

namespace Call

variable {c : Connection} {now : Timestamp} {answer : Answer}

/-- A call for a path or a hash answers what is stored. -/
theorem stored_of_entry (hdb : c.database.IsCurrent) {call : Call} {e : Entry} (he : call.operation.entry? = some e)
    (h : (call.run c now).1 = .answered (.ok answer)) : ∀ x ∈ answer.entities, x.Stored (call.run c now).2 := by
  rcases Entry.call_cases he with rfl | rfl | rfl
  · rw [Entry.run_asked] at h ⊢
    cases hlook : e.key.look c with
    | error f =>
      rw [hlook] at h
      cases h
    | ok found =>
      rw [hlook] at h
      cases found <;> cases h
      exact Connection.stored_of_look hdb hlook
  · rw [Entry.run_adding] at h
    split at h <;> cases h
  · rw [Entry.run_added] at h ⊢
    cases hlook : e.key.look c with
    | error f =>
      rw [hlook] at h
      cases h
    | ok found =>
      rw [hlook] at h
      cases found <;> cases h
      exact Connection.stored_of_look hdb hlook

/-- An entity that is looked up is stored. -/
theorem stored_of_looksUp (hintact : c.database.Intact) {op : Operation} (hop : op.looksUp = true)
    (h : (c.perform now op).answer = .ok answer) : ∀ x ∈ answer.entities, x.Stored c.database := by
  have hdb := hintact.isCurrent
  cases op with
  | findRepoByPath path =>
    exact Connection.stored_of_lookup (k := .repo) hdb h (fun _ => rfl) rfl
      (Query.isKnown_of_names ["root_path"] rfl (by decide)) fun _ _ hread => ⟨rfl, hread⟩
  | findRepo id =>
    exact Connection.stored_of_lookup (k := .repo) hdb h (fun _ => rfl) rfl
      (Query.isKnown_of_names ["id"] rfl (by decide)) fun _ _ hread => ⟨rfl, hread⟩
  | findCommitBySha sha =>
    exact Connection.stored_of_lookup (k := .commit) hdb h (fun _ => rfl) rfl
      (Query.isKnown_of_names ["sha"] rfl (by decide)) fun _ _ hread => ⟨rfl, hread⟩
  | findCommit id =>
    exact Connection.stored_of_lookup (k := .commit) hdb h (fun _ => rfl) rfl
      (Query.isKnown_of_names ["id"] rfl (by decide)) fun _ _ hread => ⟨rfl, hread⟩
  | findReviewByJob job =>
    exact Connection.stored_of_lookup (k := .review) hdb h (fun _ => rfl) rfl
      (Query.isKnown_of_names ["job_id"] rfl (by decide)) fun _ _ hread => ⟨rfl, hread⟩
  | findReviewBySha sha =>
    obtain ⟨found, hfound, rfl⟩ := exists_of_map_ok h
    cases found with
    | none => exact fun y hy => by cases hy
    | some x => exact List.forall_mem_singleton.mpr (Entity.stored_of_findReviewBySha hdb hfound)
  | listResponses id =>
    obtain ⟨xs, hxs, rfl⟩ := exists_of_map_ok h
    exact List.forall_mem_map.mpr (Connection.stored_of_listResponses hintact hxs)
  | _ => cases hop

/-- Every entity in an answer is stored when it is answered. -/
theorem run_stored (hintact : c.database.Intact) {call : Call} (h : (call.run c now).1 = .answered (.ok answer)) :
    ∀ x ∈ answer.entities, x.Stored (call.run c now).2 := by
  have hdb := hintact.isCurrent
  cases call with
  | asked op =>
    cases op with
    | registerRepo path => exact stored_of_entry hdb (e := .repo path) rfl h
    | storeCommit info => exact stored_of_entry hdb (e := .commit info) rfl h
    | complete id text =>
      exact Answer.forall_entities_of_map (Progress.answered.inj h) (fun _ => rfl)
        fun _ hx => Connection.stored_of_complete hdb hx
    | addResponse reply =>
      exact Answer.forall_entities_of_map (Progress.answered.inj h) (fun _ => rfl)
        fun _ hx => Connection.stored_of_addResponse hdb hx
    | findRepoByPath | findRepo | findCommitBySha | findCommit | findReviewByJob | findReviewBySha | listResponses =>
      exact stored_of_looksUp hintact rfl (Progress.answered.inj h)
    | enqueue | resetStale | counts | listJobs | version =>
      obtain ⟨_, -, rfl⟩ := exists_of_map_ok (Progress.answered.inj h)
      exact fun y hy => by cases hy
    | claim | findJob =>
      obtain ⟨found, -, rfl⟩ := exists_of_map_ok (Progress.answered.inj h)
      cases found <;> exact fun y hy => by cases hy
    | fail id error =>
      simp only [run] at h
      repeat' split at h
      all_goals cases h
      exact fun y hy => by cases hy
  | registering path => exact stored_of_entry hdb (e := .repo path) rfl h
  | registered path => exact stored_of_entry hdb (e := .repo path) rfl h
  | storing info => exact stored_of_entry hdb (e := .commit info) rfl h
  | stored info => exact stored_of_entry hdb (e := .commit info) rfl h
  | refusing id error => cases h

/-- A job that is queued is read from the row that is added for it. -/
theorem exists_row_of_enqueue (hdb : c.database.IsCurrent) {r : JobRequest} {j : Job}
    (h : ((asked (.enqueue r)).run c now).1 = .answered (.ok (.job j))) :
    ∃ r' ∈ ((asked (.enqueue r)).run c now).2.rows "review_jobs", Job.ofRecord (Job.recordOf r') = .ok j := by
  obtain ⟨u, hu, hl⟩ := hdb.jobs
  have heffect := run_effect hdb now (asked (.enqueue r))
  rw [h] at heffect
  generalize ((asked (.enqueue r)).run c now).2 = db at heffect
  generalize hp : Progress.answered (.ok (.job j)) = p at heffect
  cases heffect with
  | aside changes _ _ => cases changes
  | refused => cases hp
  | enqueued adds =>
    cases hu.symm.trans adds.table
    obtain ⟨k, hk, hkj⟩ := exists_of_map_ok (Progress.answered.inj hp).symm
    cases hkj
    exact ⟨_, (adds.mem_rows_table (by rw [hl]; decide)).mpr (Or.inl rfl), by rw [hl]; exact eq_ok_of_liftFault hk⟩

/-- A job that is handed out is read from the row that was changed for it. -/
theorem exists_row_of_claim (hdb : c.database.IsCurrent) {worker : String} {j : Job}
    (h : ((asked (.claim worker)).run c now).1 = .answered (.ok (.job j))) :
    ∃ r ∈ ((asked (.claim worker)).run c now).2.rows "review_jobs", Job.ofRecord (Job.recordOf r) = .ok j := by
  obtain ⟨u, hu, hl⟩ := hdb.jobs
  have heffect := run_effect hdb now (asked (.claim worker))
  rw [h] at heffect
  generalize ((asked (.claim worker)).run c now).2 = db at heffect
  generalize hp : Progress.answered (.ok (.job j)) = p at heffect
  cases heffect with
  | aside changes _ _ => cases changes
  | refused => cases hp
  | waiting => cases hp
  | claimed _ takes _ =>
    cases hu.symm.trans takes.table
    obtain ⟨k, hk, hkj⟩ := exists_of_map_ok (Progress.answered.inj hp).symm
    cases hkj
    obtain ⟨-, -, -, hrows⟩ := (Connection.claiming_moves ..).mem_rows_takes hl takes
    exact ⟨_, (hrows _).mpr (Or.inl rfl), eq_ok_of_liftFault hk⟩

/-- A job in an answer is read from a row when it is answered. -/
theorem exists_row_of_job (hdb : c.database.IsCurrent) {call : Call} {j : Job}
    (h : (call.run c now).1 = .answered (.ok (.job j))) :
    ∃ r ∈ (call.run c now).2.rows "review_jobs", Job.ofRecord (Job.recordOf r) = .ok j := by
  cases call with
  | asked op =>
    cases op with
    | enqueue r => exact exists_row_of_enqueue hdb h
    | claim worker => exact exists_row_of_claim hdb h
    | findJob id =>
      obtain ⟨found, hfound, hj⟩ := exists_of_map_ok (Progress.answered.inj h)
      cases found <;> cases hj
      exact Connection.exists_of_first hdb (l := .jobs) (by simp [Layout.current]) rfl
        (Query.isKnown_of_names ["id"] rfl (by decide)) (eq_ok_of_liftFault hfound)
    | registerRepo | storeCommit | fail =>
      simp only [run] at h
      repeat' split at h
      all_goals cases h
    | findRepoByPath | findRepo | findCommitBySha | findCommit | findReviewBySha | findReviewByJob =>
      obtain ⟨found, -, hj⟩ := exists_of_map_ok (Progress.answered.inj h)
      cases found <;> cases hj
    | _ =>
      obtain ⟨_, -, hj⟩ := exists_of_map_ok (Progress.answered.inj h)
      cases hj
  | registering | storing =>
    simp only [run] at h
    split at h <;> cases h
  | registered | stored =>
    obtain ⟨_, -, hj⟩ := exists_of_map_ok (Progress.answered.inj h)
    cases hj
  | refusing => cases h

end Call

namespace Openers

variable {o : Openers}

/-- The call that an action answers, if it answers one. A handle that is opening the database has none. -/
def event? (o : Openers) (a : Action) : Option Event :=
  match o.returned a.handle with
  | some (.ok ()) => (o.site.step a).2
  | _ => none

/-- Opening a database that is kept leaves it. -/
theorem step_site (h : o.site.database.Kept) (a : Action) :
    (o.step a).site = o.site ∨ o.returned a.handle = some (.ok ()) ∧ (o.step a).site = (o.site.step a).1 := by
  cases hr : o.returned a.handle with
  | some r =>
    cases r with
    | ok _ => exact Or.inr ⟨rfl, by rw [step_of_ok hr]⟩
    | error e =>
      refine Or.inl ?_
      unfold step
      rw [hr]
  | none =>
    refine Or.inl ?_
    have hversions : o.site.database.table? "schema_version" = some (Database.versions currentVersion) := by
      obtain ⟨t, ht, hl⟩ := h.intact.isCurrent .schemaVersion (by simp [Layout.current])
      have hrows := h.intact.version
      have ht : o.site.database.table? "schema_version" = some t := ht
      rw [Database.rows_of_table? ht] at hrows
      have hsame : t = Database.versions currentVersion := Table.ext hl hrows
      rw [ht, hsame]
    cases hlock : a.locked with
    | true =>
      have hturn : o.turn a = .refused ⟨o.site.database, false, a.locked⟩ .locked := Migration.turn_of_locked hlock
      rw [step_of_error hr (by rw [hturn]; rfl), hturn]
      rfl
    | false =>
      obtain ⟨t, ht, hl⟩ := h.intact.isCurrent.jobs
      have hturn : o.turn a = ⟨.ok .finished, ⟨o.site.database, false, a.locked⟩, []⟩ :=
        Migration.turn_eq_finished (c := ⟨o.site.database, false, a.locked⟩) hlock ht hl hversions
      rw [step_of_finished hr (by rw [hturn]), hturn]

/-- What comes of some actions is what comes of those of them that go on with calls. -/
theorem exists_site_after (h : o.site.database.Kept) (as : List Action) :
    ∃ bs, bs.Sublist as ∧ (o.after as).site = o.site.after bs := by
  induction as generalizing o with
  | nil => exact ⟨[], .slnil, rfl⟩
  | cons a as ih =>
    rcases step_site h a with hsame | ⟨-, hstep⟩
    · obtain ⟨bs, hsub, hafter⟩ := ih (o := o.step a) (by rw [hsame]; exact h)
      exact ⟨bs, hsub.cons a, by rw [after_cons, hafter, hsame]⟩
    · obtain ⟨bs, hsub, hafter⟩ := ih (o := o.step a) (by rw [hstep]; exact Site.step_kept h a)
      exact ⟨a :: bs, hsub.cons_cons a, by rw [after_cons, hafter, hstep]; rfl⟩

theorem after_append (o : Openers) (as bs : List Action) : o.after (as ++ bs) = (o.after as).after bs := List.foldl_append

/-- The call of an event was run by a handle that has opened the database. -/
theorem run_of_event {a : Action} {e : Event} (he : o.event? a = some e) :
    (o.step a).site.database = ((o.site.call a).run (o.site.connection a) a.now).2 ∧
      ((o.site.call a).run (o.site.connection a) a.now).1 = .answered e.answer := by
  unfold event? at he
  split at he
  next hr => exact ⟨by rw [step_of_ok hr, Site.step_database], (Site.step_event.mp he).1⟩
  next => cases he

/-! ## From a database just installed -/

/-- Whatever handles do with a database just installed, it is kept. -/
theorem after_kept (as : List Action) : ((start .current).after as).site.database.Kept := by
  obtain ⟨bs, -, hbs⟩ := exists_site_after (o := start .current) Site.fresh_kept as
  rw [hbs]
  exact Site.after_kept Site.fresh_kept bs

/-- What is stored stays stored, whoever opens the database again. -/
theorem stored_after {x : Entity} {as : List Action} (h : x.Stored ((start .current).after as).site.database)
    (bs : List Action) : x.Stored ((start .current).after (as ++ bs)).site.database := by
  obtain ⟨ds, -, hds⟩ := exists_site_after (after_kept as) bs
  rw [after_append, hds]
  exact h.after (after_kept as) ds

section Answered

variable {as : List Action} {a : Action} {e : Event} {answer : Answer}
  (he : ((start .current).after as).event? a = some e)
include he

/-- An answer has what is stored once the action of its call is over. -/
theorem stored_of_event (hanswer : e.answer = .ok answer) {x : Entity} (hx : x ∈ answer.entities) :
    x.Stored ((start .current).after (as ++ [a])).site.database := by
  obtain ⟨hdb, hrun⟩ := run_of_event he
  rw [hanswer] at hrun
  rw [after_append, show ((start .current).after as).after [a] = ((start .current).after as).step a from rfl, hdb]
  exact Call.run_stored (after_kept as).intact hrun x hx

/-- A job that is answered is the one that its number finds once the action of the call is over. -/
theorem findJob_of_event {j : Job} (hanswer : e.answer = .ok (.job j)) {c : Connection}
    (hc : c.database = ((start .current).after (as ++ [a])).site.database) : c.findJob j.id = .ok (some j) := by
  obtain ⟨hdb, hrun⟩ := run_of_event he
  rw [hanswer] at hrun
  obtain ⟨r, hr, hread⟩ := Call.exists_row_of_job (after_kept as).intact.isCurrent hrun
  rw [← hdb, show ((start .current).after as).step a = ((start .current).after as).after [a] from rfl, ← after_append,
    ← hc] at hr
  have hcurrent : c.database.IsCurrent := by
    rw [hc]
    exact (after_kept _).intact.isCurrent
  have hfound : c.first ⟨"review_jobs", Job.columns, [("id", .int r.id)]⟩ Job.ofRecord = .ok (some j) :=
    Connection.first_of_id (l := .jobs) hcurrent (by decide) (by decide) hr hread
  rw [← Job.id_of_ofRecord hread] at hfound
  exact congrArg liftFault hfound

end Answered

/-- A response that is stored is in the list of its commit, which is answered if the clock showed years of four digits. -/
theorem exists_listResponses_of_stored {as : List Action} (hclock : ∀ a ∈ as, a.now.IsPlain) {x : Response} {c : Connection}
    (hc : c.database = ((start .current).after as).site.database) (h : (Entity.response x).Stored c.database) :
    ∃ xs, c.listResponses x.commitId = .ok xs ∧ x ∈ xs := by
  obtain ⟨bs, hsub, hbs⟩ := exists_site_after (o := start .current) Site.fresh_kept as
  have hsound : c.database.Sound := by
    rw [hc, hbs]
    exact (Site.sound bs fun b hb => hclock b (hsub.subset hb)).database
  have hkept : c.database.Kept := by
    rw [hc]
    exact after_kept as
  have hfound := h.found hkept Timestamp.epoch
  cases hlist : c.listResponses x.commitId with
  | error f =>
    have hok := hsound.listResponses_isOk x.commitId
    rw [hlist] at hok
    cases hok
  | ok xs =>
    have hfilter : x ∈ xs.filter (·.id = x.id) := by
      rw [hfound xs hlist]
      exact List.mem_singleton.mpr rfl
    exact ⟨xs, rfl, List.mem_of_mem_filter hfilter⟩

end Openers

/-- What a call answers is what is stored, for good. Any number of handles open a database just installed, again or for the first
time, and use it, in any order of their turns and statements. A call of theirs was answered without error. In two parts:
1. A job in the answer is the one that its number finds directly afterwards.
2. A repository, a commit, a review or a response in the answer is found after everything that comes later, whatever the lock
   and the clock: by every lookup that reaches it and when it is asked for again. Whatever a later call answers that has its
   number, path, hash or job is it. And the list with a response is answered, if the clock showed years of four digits. -/
theorem answers_kept (as : List Action) (a : Action) (e : Event) (answer : Answer)
    (he : ((Openers.start .current).after as).event? a = some e) (hanswer : e.answer = .ok answer) :
    let o := Openers.start .current
    (∀ j, answer = .job j → ∀ c : Connection, c.database = (o.after (as ++ [a])).site.database →
      c.findJob j.id = .ok (some j)) ∧
    ∀ x ∈ answer.entities, ∀ bs : List Action,
      (∀ (c : Connection) (now : Timestamp), c.database = (o.after (as ++ a :: bs)).site.database → x.FoundOn c now) ∧
      (∀ b e' answer', (o.after (as ++ a :: bs)).event? b = some e' → e'.answer = .ok answer' →
        ∀ y ∈ answer'.entities, x.Matches y → y = x) ∧
      ((∀ b ∈ as ++ a :: bs, b.now.IsPlain) → ∀ y, x = .response y → ∀ c : Connection,
        c.database = (o.after (as ++ a :: bs)).site.database → ∃ ys, c.listResponses y.commitId = .ok ys ∧ y ∈ ys) := by
  intro o
  refine ⟨?_, fun x hx bs => ?_⟩
  · rintro j rfl c hc
    exact Openers.findJob_of_event he hanswer hc
  · have hkept : (o.after (as ++ a :: bs)).site.database.Kept := Openers.after_kept _
    have hthen : x.Stored (o.after (as ++ a :: bs)).site.database := by
      rw [List.append_cons]
      exact Openers.stored_after (Openers.stored_of_event he hanswer hx) bs
    refine ⟨fun c now hc => ?_, fun b e' answer' he' hanswer' y hy hmatches => ?_, ?_⟩
    · rw [← hc] at hthen hkept
      exact hthen.found hkept now
    · have hy := Openers.stored_of_event he' hanswer' hy
      exact ((Openers.stored_after hthen [b]).eq_of_matches (Openers.after_kept _) hy hmatches).symm
    · rintro hclock y rfl c hc
      rw [← hc] at hthen
      exact Openers.exists_listResponses_of_stored hclock hc hthen

/-- The action that goes on with registering a path. -/
def Openers.register : Action := ⟨0, .registerRepo (.ofString "/work"), .epoch, false⟩

/-- A handle opens the database and registers the path, but for its last statement. -/
def Openers.registering : List Action := [⟨0, .version, .epoch, false⟩, register, register]

/-- Another handle opens the database and stores a commit of the repository. -/
def Openers.storing : List Action :=
  let store : Action := ⟨1, .storeCommit ⟨1, "abc", "author", "subject", .epoch⟩, .epoch, false⟩
  [⟨1, .version, .epoch, false⟩, store, store]

/-- Whoever asks for the path after that, even while the lock is held, is answered the repository that was answered first. -/
theorem answers_kept_registering :
    ∃ e x, ((Openers.start .current).after Openers.registering).event? Openers.register = some e ∧ e.answer = .ok (.repo x) ∧
      ∀ (c : Connection) (now : Timestamp), c.database = ((Openers.start .current).after
        (Openers.registering ++ Openers.register :: Openers.storing)).site.database →
          c.registerRepo now (.ofString "/work") = ⟨.ok x, c, []⟩ := by
  have hevent : (((Openers.start .current).after Openers.registering).event? Openers.register).bind
      (fun e => e.answer.toOption) = some (.repo ⟨1, "/work", "work", .epoch⟩) := by decide +kernel
  obtain ⟨e, he, hx⟩ := Option.bind_eq_some_iff.mp hevent
  have hanswer : e.answer = .ok (.repo ⟨1, "/work", "work", .epoch⟩) := by
    cases hanswer : e.answer with
    | error f =>
      rw [hanswer] at hx
      cases hx
    | ok answer =>
      rw [hanswer] at hx
      cases hx
      rfl
  obtain ⟨-, hkept⟩ := answers_kept Openers.registering Openers.register e _ he hanswer
  obtain ⟨hfound, -⟩ := hkept _ (List.mem_singleton.mpr rfl) Openers.storing
  have hpath : (Path.ofString "/work").display = "/work" := by decide +kernel
  exact ⟨e, _, he, hanswer, fun c now hc => ((hfound c now hc).2 _ hpath).2.1⟩

end ReviewQueue
