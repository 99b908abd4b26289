import ReviewQueue.Proofs.Queue.Integrity
import ReviewQueue.Proofs.Queue.Lookups
import ReviewQueue.Proofs.Queue.Order
import ReviewQueue.Proofs.Store.Splices

/-!
# Counting jobs

Jobs are counted by groups of rows that have one cell as their status, and the count of a group takes the place of the count
of its status. No two groups have one cell, so nothing is lost: where every row has a status the counts are those of the
rows, and lists and lookups, which are other queries, answer the same jobs. Over a run the count of all jobs grows with each
job that is queued, and with nothing else.
-/

namespace ReviewQueue

namespace JobCounts

/-- Replacing the number of one status leaves those of the others. -/
theorem get_set (k : JobCounts) (status : JobStatus) (n : Nat) (s : JobStatus) :
    (k.set status n).get s = if s = status then n else k.get s := by
  cases status <;> cases s <;> rfl

/-- The total is that of the four statuses. -/
theorem total_eq (k : JobCounts) : k.total = k.get .queued + k.get .running + k.get .done + k.get .failed := rfl

end JobCounts

/-- Rows that each have a status are as many as those of the four statuses together. -/
theorem countP_statuses {rows : List Row} (h : ∀ r ∈ rows, ∃ s : JobStatus, r.HasStatus s) :
    rows.countP (fun r => r.HasStatus .queued) + rows.countP (fun r => r.HasStatus .running) +
      rows.countP (fun r => r.HasStatus .done) + rows.countP (fun r => r.HasStatus .failed) = rows.length := by
  induction rows with
  | nil => rfl
  | cons r rows ih =>
    obtain ⟨s, hs⟩ := h r (by simp)
    have hone : ∀ s', decide (r.HasStatus s') = decide (s = s') := fun s' =>
      decide_eq_decide.mpr ⟨hs.inj, fun heq => heq ▸ hs⟩
    have hrest := ih fun x hx => h x (by simp [hx])
    simp only [List.countP_cons, hone, List.length_cons]
    cases s <;> simp only [reduceCtorEq, decide_true, decide_false, if_true, Bool.false_eq_true, if_false] <;> omega

/-- The only member that a predicate holds of is the one that is found. -/
theorem find?_eq_some_of_unique {α : Type} {p : α → Bool} {as : List α} {a : α} (ha : a ∈ as) (hp : p a = true)
    (hunique : ∀ b ∈ as, p b = true → b = a) : as.find? p = some a := by
  obtain ⟨b, hb⟩ := Option.isSome_iff_exists.mp (List.find?_isSome.mpr ⟨a, ha, hp⟩)
  rw [hb, hunique b (List.mem_of_find?_eq_some hb) (List.find?_some hb)]

/-- The cell by which a record is put into its group. -/
def Record.firstCell (x : Record) : Cell := (x.at_ 0).2

namespace Connection

/-! ## Groups -/

/-- A record that is put among groups is one of them, or there is one of the same cell. -/
theorem place_cases (r : Record) (gs : List Record) :
    (∀ x, x ∈ groups.place r gs ↔ x = r ∨ x ∈ gs) ∨
    (∀ x, x ∈ groups.place r gs ↔ x ∈ gs) ∧ ∃ g ∈ gs, r.firstCell.equal g.firstCell = true := by
  induction gs with
  | nil => exact Or.inl fun x => by simp [groups.place]
  | cons g gs ih =>
    unfold groups.place
    split
    next hsame => exact Or.inr ⟨fun x => Iff.rfl, g, by simp, hsame⟩
    next =>
      split
      · exact Or.inl fun x => by rw [List.mem_cons]
      · rcases ih with hmem | ⟨hmem, x, hx, hsame⟩
        · exact Or.inl fun x => by rw [List.mem_cons, hmem, List.mem_cons, or_left_comm]
        · exact Or.inr ⟨fun x => by rw [List.mem_cons, hmem, List.mem_cons], x, by simp [hx], hsame⟩

/-- The groups of records are some of them, one for the cell of each. -/
theorem groups_spec (records : List Record) : (∀ g ∈ groups records, g ∈ records) ∧
    ∀ r ∈ records, ∃ g ∈ groups records, r.firstCell.equal g.firstCell = true := by
  induction records with
  | nil => exact ⟨fun _ h => h, fun _ h => by cases h⟩
  | cons r records ih =>
    obtain ⟨hsome, hall⟩ := ih
    rw [groups]
    rcases place_cases r (groups records) with hmem | ⟨hmem, g, hg, hsame⟩ <;>
      simp only [hmem, List.mem_cons, forall_eq_or_imp, exists_eq_or_imp, true_or, true_and]
    · refine ⟨fun x hx => Or.inr (hsome x hx), Or.inl (Cell.equal_self _), fun x hx => ?_⟩
      obtain ⟨g, hg, hsame⟩ := hall x hx
      exact Or.inr ⟨g, hg, hsame⟩
    · exact ⟨fun x hx => Or.inr (hsome x hx), ⟨g, hg, hsame⟩, hall⟩

/-- Some counts with that of a group in place, if the cell of the group is read as a status. -/
def tally (count : Cell → Nat) (k : JobCounts) (g : Record) : Except Fault JobCounts := do
  return k.set (← g.status 0) (count g.firstCell)

/-- What was tallied has a status in every group, and the counts are those of the groups, the later taking the place of
the earlier. As a count depends on the cell alone, it does not matter which. -/
theorem foldlM_tally {count : Cell → Nat} {gs : List Record} {k₀ k : JobCounts} (h : gs.foldlM (tally count) k₀ = .ok k) :
    (∀ a ∈ gs.map (·.firstCell), ∃ s : JobStatus, a = s.cell) ∧
    ∀ s : JobStatus, k.get s = if s.cell ∈ gs.map (·.firstCell) then count s.cell else k₀.get s := by
  induction gs generalizing k₀ with
  | nil =>
    cases h
    simp
  | cons g gs ih =>
    rw [List.foldlM_cons] at h
    cases hstatus : g.status 0 with
    | error f =>
      simp only [tally, hstatus] at h
      cases h
    | ok status =>
      have hcell : g.firstCell = status.cell := Record.status_eq_ok_iff.mp hstatus
      have hstep : tally count k₀ g = .ok (k₀.set status (count status.cell)) := by
        simp only [tally, hstatus, hcell]
        rfl
      rw [hstep] at h
      obtain ⟨hgroups, hget⟩ := ih h
      refine ⟨?_, fun s => ?_⟩
      · simp only [List.map_cons, List.mem_cons, forall_eq_or_imp]
        exact ⟨⟨status, hcell⟩, hgroups⟩
      · simp only [hget s, List.map_cons, List.mem_cons, hcell, JobCounts.get_set]
        by_cases hs : s = status
        · subst hs
          simp
        · have hne : s.cell ≠ status.cell := fun heq => hs (JobStatus.cell_inj heq)
          simp only [hne, false_or, if_neg hs]

/-! ## Counts -/

variable {c : Connection}

/-- In the current layout the statuses of all rows are put into groups, and each group counts the rows of its cell. -/
theorem counts_eq (hdb : c.database.IsCurrent) : c.counts =
    liftFault ((groups ((c.database.rows "review_jobs").map (·.record [.status]))).foldlM
      (tally fun a => (c.database.rows "review_jobs").countP fun r => (r.cell "status").equal a) {}) := by
  have hpick : Layout.jobs.pick ["status"] = [.status] := by decide
  have hall : ∀ r : Row, r.hasAll .jobs [] = true := fun _ => rfl
  unfold counts
  rw [run_jobs hdb (by decide), hpick, List.filter_eq_self.mpr fun r _ => hall r]
  simp only [bind, Except.bind, List.filter_map, List.length_map, ← List.countP_eq_length_filter]
  rfl

/-- A cell is the same as that of a status if it is that. -/
theorem equal_status (a : Cell) (s : JobStatus) : a.equal s.cell = decide (a = s.cell) :=
  Cell.equal_eq (show 2 ≤ s.cell.rank from Nat.le_refl 2)

/-- A group of the statuses of rows has the cell of a row. -/
theorem exists_row_of_group {rows : List Row} {g : Record} (h : g ∈ groups (rows.map (·.record [.status]))) :
    ∃ r ∈ rows, r.cell "status" = g.firstCell := by
  obtain ⟨r, hr, rfl⟩ := List.mem_map.mp ((groups_spec _).1 g h)
  exact ⟨r, hr, rfl⟩

/-- A row whose status is that of a group has it; each row is in a group. -/
theorem exists_group_of_row {rows : List Row} {r : Row} (h : r ∈ rows) :
    ∃ g ∈ groups (rows.map (·.record [.status])), (r.cell "status").equal g.firstCell = true :=
  (groups_spec _).2 _ (List.mem_map_of_mem h)

/-- Counting succeeds exactly if every row has one of the statuses. -/
theorem exists_counts_iff (hdb : c.database.IsCurrent) :
    (∃ k, c.counts = .ok k) ↔ ∀ r ∈ c.database.rows "review_jobs", ∃ s : JobStatus, r.HasStatus s := by
  rw [counts_eq hdb]
  constructor
  · rintro ⟨k, hk⟩ r hr
    obtain ⟨g, hg, hsame⟩ := exists_group_of_row hr
    obtain ⟨s, hs⟩ := (foldlM_tally (eq_ok_of_liftFault hk)).1 _ (List.mem_map_of_mem hg)
    rw [hs, equal_status, decide_eq_true_eq] at hsame
    exact ⟨s, hsame⟩
  · intro hstatus
    refine (Record.exists_foldlM (fun g hg k => ?_) _).imp fun k hk => congrArg liftFault hk
    obtain ⟨r, hr, hcell⟩ := exists_row_of_group hg
    obtain ⟨s, hs⟩ := hstatus r hr
    have hread : g.status 0 = .ok s := Record.status_eq (hcell.symm.trans hs)
    simp only [tally, hread]
    exact ⟨_, rfl⟩

/-- Every status is counted with the number of its rows, and a status that no row has with none. -/
theorem get_of_counts (hdb : c.database.IsCurrent) {k : JobCounts} (h : c.counts = .ok k) (s : JobStatus) :
    k.get s = (c.database.rows "review_jobs").countP fun r => r.HasStatus s := by
  rw [counts_eq hdb] at h
  obtain ⟨hgroups, hget⟩ := foldlM_tally (eq_ok_of_liftFault h)
  rw [hget s]
  split
  · simp only [equal_status]
    rfl
  next hnone =>
    have hzero : ∀ r ∈ c.database.rows "review_jobs", ¬decide (r.HasStatus s) = true := by
      intro r hr hs
      obtain ⟨g, hg, hsame⟩ := exists_group_of_row hr
      have hmem := List.mem_map_of_mem (f := (·.firstCell)) hg
      obtain ⟨s', hs'⟩ := hgroups _ hmem
      rw [hs', equal_status, of_decide_eq_true hs, decide_eq_true_eq] at hsame
      exact hnone (hsame ▸ hs' ▸ hmem)
    rw [List.countP_eq_zero.mpr hzero]
    cases s <;> rfl

theorem total_of_counts (hdb : c.database.IsCurrent) {k : JobCounts} (h : c.counts = .ok k) :
    k.total = (c.database.rows "review_jobs").length := by
  simp only [JobCounts.total_eq, get_of_counts hdb h]
  exact countP_statuses ((exists_counts_iff hdb).mp ⟨k, h⟩)

/-! ## Lists and lookups -/

/-- The jobs that the rows of jobs are read as, newest first. -/
def ReadsJobs (c : Connection) (js : List Job) : Prop :=
  List.Forall₂ (fun r j => Job.ofRecord (Job.recordOf r) = .ok j) (c.database.rows "review_jobs").reverse js

namespace ReadsJobs

variable {js : List Job} (h : c.ReadsJobs js)
include h

/-- A job that was read has the status of its row and no other, so those of a status are those of the rows of the status. -/
theorem filter (status : Option JobStatus) :
    List.Forall₂ (fun r j => Job.ofRecord (Job.recordOf r) = .ok j)
      ((c.database.rows "review_jobs").filter (·.isListed status)).reverse
      (js.filter fun j => status.all fun s => j.status = s) := by
  have hsame : ∀ (r : Row) (j : Job), Job.ofRecord (Job.recordOf r) = .ok j →
      (r.isListed status = true ↔ (status.all fun s => j.status = s) = true) := by
    intro r j hj
    have hstatus := Job.status_of_ofRecord hj
    cases status with
    | none => exact Iff.rfl
    | some s =>
      simp only [Row.isListed, Option.all_some, decide_eq_true_eq]
      exact ⟨hstatus.inj, fun heq => heq ▸ hstatus⟩
  rw [← List.filter_reverse]
  exact List.rel_filter (fun r j hj => hsame r j hj) h

/-- A list has the jobs of its status, newest first, as many as it may have. -/
theorem listJobs_eq (hdb : c.database.IsCurrent) (status : Option JobStatus) (limit : Nat) : c.listJobs status limit =
    .ok ((js.filter fun j => status.all fun s => j.status = s).take (min limit longestList)) := by
  rw [Connection.listJobs_eq hdb, mapM_of_forall₂ (List.forall₂_take _ (h.filter status))]
  rfl

theorem length_eq : js.length = (c.database.rows "review_jobs").length := by
  rw [← List.Forall₂.length_eq h, List.length_reverse]

/-- A list that may have as many jobs as any can have has all of its status, if there are no more jobs than that. -/
theorem listJobs_whole (hdb : c.database.IsCurrent) (hfits : (c.database.rows "review_jobs").length ≤ longestList)
    (status : Option JobStatus) {limit : Nat} (hlimit : longestList ≤ limit) :
    c.listJobs status limit = .ok (js.filter fun j => status.all fun s => j.status = s) := by
  have hfilter := List.length_filter_le (fun j : Job => status.all fun s => j.status = s) js
  rw [h.length_eq] at hfilter
  rw [h.listJobs_eq hdb, Nat.min_eq_right hlimit, List.take_of_length_le (Nat.le_trans hfilter hfits)]

/-- The job of a number is the one that is listed with this number. -/
theorem findJob_eq (hdb : c.database.IsCurrent) (id : Int) : c.findJob id = .ok (js.find? fun j => j.id = id) := by
  rw [Connection.findJob_eq hdb]
  have hrow : ∀ j ∈ js, ∃ r ∈ c.database.rows "review_jobs", Job.ofRecord (Job.recordOf r) = .ok j ∧ j.id = r.id := by
    intro j hj
    obtain ⟨r, hr, hread⟩ := exists_of_forall₂ h.flip hj
    exact ⟨r, List.mem_reverse.mp hr, hread, Job.id_of_ofRecord hread⟩
  cases hfind : (c.database.rows "review_jobs").find? (fun r => decide (r.id = id)) with
  | none =>
    have hnone : js.find? (fun j => decide (j.id = id)) = none := by
      refine List.find?_eq_none.mpr fun j hj hid => ?_
      obtain ⟨r, hr, -, hsame⟩ := hrow j hj
      rw [hsame] at hid
      exact List.find?_eq_none.mp hfind r hr hid
    rw [hnone]
  | some r =>
    have hr := List.mem_of_find?_eq_some hfind
    have hid : r.id = id := by simpa using List.find?_some hfind
    obtain ⟨j, hj, hread⟩ := exists_of_forall₂ h (List.mem_reverse.mpr hr)
    have hsome : js.find? (fun j => decide (j.id = id)) = some j := by
      refine find?_eq_some_of_unique hj (decide_eq_true ((Job.id_of_ofRecord hread).trans hid)) fun j' hj' hid' => ?_
      obtain ⟨r', hr', hread', hsame⟩ := hrow j' hj'
      obtain rfl : r' = r := Database.rows_eq_of_id_eq hr' hr (hsame.symm.trans ((of_decide_eq_true hid').trans hid.symm))
      exact Except.ok.inj (hread'.symm.trans hread)
    simp only [hsome, hread]
    rfl

/-- The jobs of a status are as many as its rows. -/
theorem countP_eq (s : JobStatus) : ((c.database.rows "review_jobs").countP fun r => r.HasStatus s) =
    (js.filter fun j => j.status = s).length := by
  have hlength := (h.filter (some s)).length_eq
  rw [List.length_reverse, ← List.countP_eq_length_filter] at hlength
  exact hlength

end ReadsJobs

/-- If all rows of jobs can be read, they are read as jobs, newest first. -/
theorem exists_readsJobs (h : ∀ r ∈ c.database.rows "review_jobs", ∃ j, Job.ofRecord (Job.recordOf r) = .ok j) :
    ∃ js, c.ReadsJobs js :=
  exists_forall₂ fun r hr => h r (List.mem_reverse.mp hr)

end Connection

/-! ## Over runs -/

namespace Effect

variable {c : Connection} {now : Timestamp} {op : Operation} {p : Progress} {db : Database}

/-- There is one row of jobs more after a call that queued a job, and otherwise there are as many as before, if the clock
shows a year of four digits: then the row that was added is read back, and the call answers it. -/
theorem length_jobs (h : Effect c now op p db) (hdb : c.database.IsCurrent) (hnow : now.IsPlain) (handle : Nat) :
    (db.rows "review_jobs").length = (c.database.rows "review_jobs").length + (enqueues (p.event? handle op).toList).length := by
  cases h with
  | aside changes same _ =>
    rw [(no_jobs_of_changesJobs changes _ handle).1, Database.rows_congr (same _ (Or.inl rfl))]
    rfl
  | @refused _ e _ agrees _ =>
    have hnone : enqueues ((Progress.answered (.error e)).event? handle op).toList = [] := (no_jobs_of_error op e handle).1
    rw [hnone, Database.rows_congr (agrees _)]
    rfl
  | missed agrees => exact congrArg List.length (Database.rows_congr (agrees _))
  | waiting _ _ _ agrees => exact congrArg List.length (Database.rows_congr (agrees _))
  | @enqueued request _ _ id _ adds =>
    have hread := Job.ofRecord_recordOf (Connection.queueing_holds now request id) (request.queued_plain id hnow)
    rw [hread]
    obtain ⟨u, hu, hl⟩ := hdb.jobs
    cases hu.symm.trans adds.table
    exact (adds.splices (by rw [hl]; decide)).length_rows
  | claimed _ takes _ => exact takes.toGives.length_rows
  | failed takes _ _ => exact takes.toGives.length_rows
  | completed takes _ _ adds _ =>
    rw [Database.rows_congr (adds.table?_of_ne (show "review_jobs" ≠ "reviews" by decide))]
    exact takes.toGives.length_rows
  | requeued gives => exact gives.length_rows

/-- Every row keeps to the statuses: what is queued, claimed, ended or queued again has one. -/
theorem exists_status (h : Effect c now op p db) (hdb : c.database.IsCurrent)
    (hall : ∀ r ∈ c.database.rows "review_jobs", ∃ s : JobStatus, r.HasStatus s) :
    ∀ r ∈ db.rows "review_jobs", ∃ s : JobStatus, r.HasStatus s := by
  intro x hx
  have hkeeps := h.keepsJobs hdb
  by_cases hold : ∃ r ∈ c.database.rows "review_jobs", r.id = x.id
  · obtain ⟨r, hr, hid⟩ := hold
    obtain ⟨r', hr', hf⟩ := hkeeps.follows r hr
    obtain rfl : x = r' := Database.rows_eq_of_id_eq hx hr' (hid.symm.trans hf.id_eq.symm)
    cases hf with
    | same => exact hall _ hr
    | moved _ _ target _ _ => exact ⟨_, target⟩
  · exact ⟨.queued, (hkeeps.added x hx fun r hr hid => hold ⟨r, hr, hid⟩).2⟩

end Effect

/-- If every row of jobs has a status, jobs can be counted after every run, and are as many more as were queued in its
course. -/
theorem Site.counts_conserved {w : Site} (hw : w.database.IsCurrent)
    (hstatus : ∀ r ∈ w.database.rows "review_jobs", ∃ s : JobStatus, r.HasStatus s) (as : List Action)
    (hclock : ∀ a ∈ as, a.now.IsPlain) :
    ∃ k, ({ database := (w.after as).database } : Connection).counts = .ok k ∧
      k.total = (w.database.rows "review_jobs").length + (enqueues (w.history as)).length := by
  obtain ⟨hdb, hstatus', hlength⟩ : (w.after as).database.IsCurrent ∧
      (∀ r ∈ (w.after as).database.rows "review_jobs", ∃ s : JobStatus, r.HasStatus s) ∧
      ((w.after as).database.rows "review_jobs").length =
        (w.database.rows "review_jobs").length + (enqueues (w.history as)).length := by
    refine run_induction (P := fun v es => v.database.IsCurrent ∧
      (∀ r ∈ v.database.rows "review_jobs", ∃ s : JobStatus, r.HasStatus s) ∧
      (v.database.rows "review_jobs").length = (w.database.rows "review_jobs").length + (enqueues es).length)
      (·.now.IsPlain) ⟨hw, hstatus, rfl⟩ ?_ as hclock
    rintro v es a hnow ⟨hdb, hstatus, hlength⟩
    have heffect := step_effect hdb a
    rw [step_event?]
    refine ⟨heffect.isCurrent hdb, heffect.exists_status hdb hstatus, ?_⟩
    have hstep := heffect.length_jobs hdb hnow a.handle
    rw [hstep, enqueues_append, List.length_append, ← Nat.add_assoc]
    exact congrArg (· + _) hlength
  obtain ⟨k, hk⟩ := (Connection.exists_counts_iff (c := { database := (w.after as).database }) hdb).mpr hstatus'
  exact ⟨k, hk, (Connection.total_of_counts hdb hk).trans hlength⟩

/-- After every run of an intact database jobs can be counted, whatever the clock shows, and are as many more as were stored in
its course. -/
theorem Site.counts_stored {w : Site} (hw : w.database.Intact) (as : List Action) :
    ∃ k, ({ database := (w.after as).database } : Connection).counts = .ok k ∧
      k.total = (w.database.rows "review_jobs").length + w.stored "review_jobs" as := by
  obtain ⟨hintact, hlength⟩ := after_intact hw as
  obtain ⟨k, hk⟩ := (Connection.exists_counts_iff (c := { database := (w.after as).database }) hintact.isCurrent).mpr
    fun _ => hintact.exists_status
  exact ⟨k, hk, (Connection.total_of_counts hintact.isCurrent hk).trans (hlength _)⟩

/-- Counting, listing and looking up jobs agree, whatever the rows of jobs hold, in four parts on every database of the
current layout and one on runs.
1. Counting succeeds exactly if every row has one of the statuses.
2. Then the count of a status is the number of its rows, and the total the number of all rows.
3. If moreover each row can be read as a job, there are the jobs read, newest first, and all three queries answer from
   them: a count is the number of those of the status, the total their number, a lookup finds the one of the number, and a
   list has those of its status, as many as it may have.
4. A list that may have as many jobs as any list can has all of them, unless there are more rows than that. This is so for
   the greatest limit, which is 2^64 - 1.
5. After every run of several handles from a database just installed counting succeeds. The total is the number of actions
   that stored a job, and if the clock shows years of four digits, so that jobs are read back when they are stored, it is
   the number of calls that queued a job and succeeded. -/
theorem counts_agree :
    (∀ c : Connection, c.database.IsCurrent →
      let jobs := c.database.rows "review_jobs"
      ((∃ k, c.counts = .ok k) ↔ ∀ r ∈ jobs, ∃ s : JobStatus, r.HasStatus s) ∧
      (∀ k, c.counts = .ok k → (∀ s, k.get s = jobs.countP fun r => r.HasStatus s) ∧ k.total = jobs.length) ∧
      ((∀ r ∈ jobs, ∃ j, Job.ofRecord (Job.recordOf r) = .ok j) → ∃ js k, c.ReadsJobs js ∧ c.counts = .ok k ∧
        (∀ s, k.get s = (js.filter fun j => j.status = s).length) ∧ k.total = js.length ∧
        (∀ id, c.findJob id = .ok (js.find? fun j => j.id = id)) ∧
        (∀ limit, c.listJobs none limit = .ok (js.take (min limit Connection.longestList)) ∧
          ∀ s, c.listJobs (some s) limit =
            .ok ((js.filter fun j => j.status = s).take (min limit Connection.longestList))) ∧
        (jobs.length ≤ Connection.longestList → ∀ limit, Connection.longestList ≤ limit →
          c.listJobs none limit = .ok js ∧ ∀ s, c.listJobs (some s) limit = .ok (js.filter fun j => j.status = s)))) ∧
    ∀ as : List Action, ∃ k, ({ database := (Site.fresh.after as).database } : Connection).counts = .ok k ∧
      k.total = Site.fresh.stored "review_jobs" as ∧
      ((∀ a ∈ as, a.now.IsPlain) → k.total = (enqueues (Site.fresh.history as)).length) := by
  constructor
  · intro c hdb jobs
    refine ⟨Connection.exists_counts_iff hdb, fun k hk => ⟨Connection.get_of_counts hdb hk, Connection.total_of_counts hdb hk⟩,
      fun hread => ?_⟩
    obtain ⟨js, hjs⟩ := Connection.exists_readsJobs hread
    obtain ⟨k, hk⟩ := (Connection.exists_counts_iff hdb).mpr fun r hr => (hread r hr).elim fun j hj =>
      ⟨j.status, Job.status_of_ofRecord hj⟩
    have hall : (js.filter fun j => (none : Option JobStatus).all fun s => j.status = s) = js :=
      List.filter_eq_self.mpr fun _ _ => rfl
    refine ⟨js, k, hjs, hk, fun s => ?_, ?_, hjs.findJob_eq hdb, fun limit => ⟨?_, fun s => hjs.listJobs_eq hdb (some s) limit⟩,
      fun hfits limit hlimit => ⟨?_, fun s => hjs.listJobs_whole hdb hfits (some s) hlimit⟩⟩
    · rw [Connection.get_of_counts hdb hk, hjs.countP_eq]
    · rw [Connection.total_of_counts hdb hk, hjs.length_eq]
    · rw [hjs.listJobs_eq hdb none, hall]
    · rw [hjs.listJobs_whole hdb hfits none hlimit, hall]
  · intro as
    have hnone : Site.fresh.database.rows "review_jobs" = [] := by decide
    obtain ⟨k, hk, hstored⟩ := Site.counts_stored Site.fresh_intact as
    rw [hnone, List.length_nil, Nat.zero_add] at hstored
    refine ⟨k, hk, hstored, fun hclock => ?_⟩
    obtain ⟨k', hk', hqueued⟩ := Site.counts_conserved Site.fresh_intact.isCurrent
      (fun _ => Site.fresh_intact.exists_status) as hclock
    rw [hnone, List.length_nil, Nat.zero_add] at hqueued
    cases hk.symm.trans hk'
    exact hqueued

/-- A database with a queued job and a running one. -/
def Database.queuedAndRunning : Database := Database.current.put
  ⟨.jobs, [Connection.jobWith 4 [], Connection.jobWith 7 [("status", JobStatus.running.cell)]], by decide, by decide⟩

/-- One of the jobs is counted as running, both are listed, and each is found in the list; and a run that queues two jobs
leaves two. -/
theorem counts_agree_queuedAndRunning :
    let c : Connection := { database := Database.queuedAndRunning }
    Database.queuedAndRunning.IsCurrent ∧
    (∃ js k, c.counts = .ok k ∧ k.get .running = 1 ∧ k.total = js.length ∧ c.listJobs none Connection.longestList = .ok js ∧
      c.findJob 7 = .ok (js.find? fun j => j.id = 7)) ∧
    ∃ k, ({ database := (Site.fresh.after Site.twoJobs).database } : Connection).counts = .ok k ∧ k.total = 2 := by
  intro c
  have hdb : Database.queuedAndRunning.IsCurrent := by decide
  have hread : ∀ r ∈ Database.queuedAndRunning.rows "review_jobs", faultOf? (Job.ofRecord (Job.recordOf r)) = none := by
    decide +kernel
  have hrunning : ((Database.queuedAndRunning.rows "review_jobs").countP fun r => r.HasStatus .running) = 1 := by decide +kernel
  have hfits : (Database.queuedAndRunning.rows "review_jobs").length ≤ Connection.longestList := by decide +kernel
  have hqueued : (enqueues (Site.fresh.history Site.twoJobs)).length = 2 := by decide +kernel
  obtain ⟨-, hcounts, hlists⟩ := counts_agree.1 c hdb
  obtain ⟨js, k, -, hk, -, hlength, hfind, -, hall⟩ := hlists fun r hr => faultOf?_eq_none_iff.mp (hread r hr)
  obtain ⟨k', hk', -, htotal⟩ := counts_agree.2 Site.twoJobs
  exact ⟨hdb, ⟨js, k, hk, ((hcounts k hk).1 .running).trans hrunning, hlength, (hall hfits _ (Nat.le_refl _)).1, hfind 7⟩,
    k', hk', (htotal (by decide)).trans hqueued⟩

end ReviewQueue
