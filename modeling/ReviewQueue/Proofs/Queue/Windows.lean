import ReviewQueue.Proofs.Queue.Counting
import ReviewQueue.Proofs.Queue.Locked

/-!
# Windows on the jobs

A list of jobs considers a window of the rows: those of its status that have the greatest numbers, as many as the list may
have. What stands outside the window has no part in the answer, readable or not, and a list that may have fewer jobs sees the
front of the same window.
-/

namespace ReviewQueue

/-- No list can have more jobs than a signed number of 64 bits can count. -/
theorem Connection.longestList_eq : longestList = 2 ^ 63 - 1 := by decide

/-- Of rows that stand by descending numbers those taken are the ones with fewer rows of greater numbers than are to be
taken. -/
theorem mem_take_of_descending {rows : List Row} (h : rows.Pairwise fun a b => b.id < a.id) (n : Nat) (r : Row) :
    r ∈ rows.take n ↔ r ∈ rows ∧ (rows.countP fun x => r.id < x.id) < n := by
  induction rows generalizing n with
  | nil => simp
  | cons x rows ih =>
    obtain ⟨hx, hrows⟩ := List.pairwise_cons.mp h
    have hgreater : r ∈ rows → ((x :: rows).countP fun y => decide (r.id < y.id)) =
        (rows.countP fun y => decide (r.id < y.id)) + 1 := fun hr =>
      List.countP_cons_of_pos (p := fun y : Row => decide (r.id < y.id)) (decide_eq_true (hx r hr))
    cases n with
    | zero => simp
    | succ n =>
      rw [List.take_succ_cons, List.mem_cons, List.mem_cons, ih hrows n]
      constructor
      · rintro (rfl | ⟨hr, hfew⟩)
        · have hnone : (rows.countP fun y => decide (r.id < y.id)) = 0 :=
            List.countP_eq_zero.mpr fun y hy hlt => Int.lt_asymm (hx y hy) (of_decide_eq_true hlt)
          rw [List.countP_cons_of_neg (by simp), hnone]
          exact ⟨Or.inl rfl, Nat.succ_pos n⟩
        · rw [hgreater hr]
          exact ⟨Or.inr hr, Nat.succ_lt_succ hfew⟩
      · rintro ⟨rfl | hr, hfew⟩
        · exact Or.inl rfl
        · rw [hgreater hr] at hfew
          exact Or.inr ⟨hr, Nat.lt_of_succ_lt_succ hfew⟩

namespace Database

/-- The rows that a list of jobs considers, greatest number first. -/
def window (db : Database) (status : Option JobStatus) (limit : Nat) : List Row :=
  ((db.rows "review_jobs").filter (·.isListed status)).reverse.take (min limit Connection.longestList)

variable {db : Database} {status : Option JobStatus} {limit : Nat}

theorem listed_descending (db : Database) (status : Option JobStatus) :
    ((db.rows "review_jobs").filter (·.isListed status)).reverse.Pairwise fun a b => b.id < a.id :=
  List.pairwise_reverse.mpr ((db.rows_ascending "review_jobs").filter _)

theorem window_descending (db : Database) (status : Option JobStatus) (limit : Nat) :
    (db.window status limit).Pairwise fun a b => b.id < a.id :=
  (db.listed_descending status).sublist (List.take_sublist _ _)

/-- A row is considered if it is of the status and fewer rows of that status have greater numbers than may be listed. -/
theorem mem_window {r : Row} : r ∈ db.window status limit ↔ r ∈ db.rows "review_jobs" ∧ r.isListed status = true ∧
    ((db.rows "review_jobs").countP fun x => x.isListed status && r.id < x.id) < min limit Connection.longestList := by
  have hcount : (((db.rows "review_jobs").filter (·.isListed status)).reverse.countP fun x => decide (r.id < x.id)) =
      (db.rows "review_jobs").countP fun x => x.isListed status && r.id < x.id := by
    rw [List.countP_reverse, List.countP_filter]
    exact List.countP_congr fun x _ => by rw [Bool.and_comm]
  unfold window
  rw [mem_take_of_descending (db.listed_descending status), hcount, List.mem_reverse, List.mem_filter, and_assoc]

/-- Where fewer jobs may be listed, the front of the window is considered. -/
theorem window_of_le {fewer : Nat} (h : fewer ≤ limit) : db.window status fewer = (db.window status limit).take fewer := by
  unfold window
  rw [List.take_take]
  congr 1
  omega

end Database

namespace Connection

variable {c : Connection} {status : Option JobStatus} {limit : Nat}

theorem listJobs_window (hdb : c.database.IsCurrent) (status : Option JobStatus) (limit : Nat) : c.listJobs status limit =
    liftFault ((c.database.window status limit).mapM fun r => Job.ofRecord (Job.recordOf r)) :=
  listJobs_eq hdb status limit

/-- A list succeeds with what the rows of its window are read as. -/
theorem listJobs_eq_ok_iff (hdb : c.database.IsCurrent) {js : List Job} : c.listJobs status limit = .ok js ↔
    List.Forall₂ (fun r j => Job.ofRecord (Job.recordOf r) = .ok j) (c.database.window status limit) js := by
  rw [listJobs_window hdb]
  refine ⟨fun h => forall₂_of_mapM (eq_ok_of_liftFault h), fun h => ?_⟩
  rw [mapM_of_forall₂ h]
  rfl

/-- A list fails with the fault of the first row of its window that cannot be read. -/
theorem listJobs_eq_error_iff (hdb : c.database.IsCurrent) {e : StoreError} : c.listJobs status limit = .error e ↔
    ∃ before r rest f, c.database.window status limit = before ++ r :: rest ∧
      (∀ x ∈ before, ∃ j, Job.ofRecord (Job.recordOf x) = .ok j) ∧ Job.FirstFault (Job.recordOf r) f ∧ e = .fault f := by
  have hlift : ∀ {x : Except Fault (List Job)}, liftFault x = .error e ↔ ∃ f, x = .error f ∧ e = .ofFault f := by
    intro x
    cases x <;> simp [liftFault, eq_comm]
  -- no fault of a row is one of waiting for the lock
  have hread : ∀ {r : Row} {f : Fault}, Job.ofRecord (Job.recordOf r) = .error f → StoreError.ofFault f = .fault f := by
    intro r f h
    rw [StoreError.ofFault, Job.ofRecord_neverWaits _ f h]
    rfl
  rw [listJobs_window hdb, hlift]
  constructor
  · rintro ⟨f, hf, rfl⟩
    obtain ⟨before, r, rest, hwindow, hbefore, hr⟩ := mapM_eq_error_iff.mp hf
    exact ⟨before, r, rest, f, hwindow, hbefore, Job.ofRecord_eq_error_iff.mp hr, hread hr⟩
  · rintro ⟨before, r, rest, f, hwindow, hbefore, hr, rfl⟩
    have hfault := Job.ofRecord_eq_error_iff.mpr hr
    exact ⟨f, mapM_eq_error_iff.mpr ⟨before, r, rest, hwindow, hbefore, hfault⟩, (hread hfault).symm⟩

/-- A list that may have fewer jobs has the first ones of a list that succeeds. -/
theorem listJobs_of_le (hdb : c.database.IsCurrent) {js : List Job} (h : c.listJobs status limit = .ok js) {fewer : Nat}
    (hfewer : fewer ≤ limit) : c.listJobs status fewer = .ok (js.take fewer) := by
  rw [listJobs_eq_ok_iff hdb, Database.window_of_le hfewer]
  exact List.forall₂_take _ ((listJobs_eq_ok_iff hdb).mp h)

end Connection

/-- A list of jobs is an exact window, whatever the rows of jobs hold, in six parts.
1. The window stands by descending numbers, and has the rows of the status for which fewer than `limit` rows of that status
   have greater numbers; more than 2^63 - 1 are never listed.
2. The list succeeds exactly if each row of the window can be read, and then has the jobs that these are read as, in their
   order.
3. It fails exactly if some row of the window cannot be read, with the fault of the first column that cannot be read in
   the first such row.
4. Another database that shows the same window is answered the same: a row outside it has no part in the answer.
5. Where the list succeeds, the list that may have fewer jobs does too, and has the first ones of it.
6. If every row can be read, all jobs are listed where 2^64 - 1 may be, unless there are more rows than one list can have.
   The jobs of a status are then listed as the first ones among all that have it. -/
theorem list_exact_window (c : Connection) (hdb : c.database.IsCurrent) (status : Option JobStatus) (limit : Nat) :
    let jobs := c.database.rows "review_jobs"
    let window := c.database.window status limit
    (window.Pairwise (fun a b => b.id < a.id) ∧ ∀ r, r ∈ window ↔ r ∈ jobs ∧ r.isListed status = true ∧
      (jobs.countP fun x => x.isListed status && r.id < x.id) < min limit (2 ^ 63 - 1)) ∧
    (∀ js, c.listJobs status limit = .ok js ↔
      List.Forall₂ (fun r j => Job.ofRecord (Job.recordOf r) = .ok j) window js) ∧
    (∀ e, c.listJobs status limit = .error e ↔ ∃ before r rest f, window = before ++ r :: rest ∧
      (∀ x ∈ before, ∃ j, Job.ofRecord (Job.recordOf x) = .ok j) ∧ Job.FirstFault (Job.recordOf r) f ∧ e = .fault f) ∧
    (∀ other : Connection, other.database.IsCurrent → other.database.window status limit = window →
      other.listJobs status limit = c.listJobs status limit) ∧
    (∀ js, c.listJobs status limit = .ok js → ∀ fewer ≤ limit, c.listJobs status fewer = .ok (js.take fewer)) ∧
    ((∀ r ∈ jobs, ∃ j, Job.ofRecord (Job.recordOf r) = .ok j) → jobs.length ≤ 2 ^ 63 - 1 →
      ∃ all, c.listJobs none (2 ^ 64 - 1) = .ok all ∧ all.length = jobs.length ∧
        ∀ s, c.listJobs (some s) limit = .ok ((all.filter fun j => j.status = s).take limit)) := by
  intro jobs window
  refine ⟨⟨c.database.window_descending status limit, fun r => ?_⟩, fun js => Connection.listJobs_eq_ok_iff hdb,
    fun e => Connection.listJobs_eq_error_iff hdb, fun other hother hsame => ?_,
    fun js hjs fewer => Connection.listJobs_of_le hdb hjs, fun hread hfits => ?_⟩
  · rw [← Connection.longestList_eq]
    exact Database.mem_window
  · rw [Connection.listJobs_window hother, hsame, Connection.listJobs_window hdb]
  · rw [← Connection.longestList_eq] at hfits
    obtain ⟨all, hall⟩ := Connection.exists_readsJobs hread
    have hnone : (all.filter fun j => (none : Option JobStatus).all fun s => j.status = s) = all :=
      List.filter_eq_self.mpr fun _ _ => rfl
    have hwhole := hall.listJobs_whole hdb hfits none (show Connection.longestList ≤ 2 ^ 64 - 1 by decide)
    rw [hnone] at hwhole
    refine ⟨all, hwhole, hall.length_eq, fun s => ?_⟩
    -- there are no more jobs of the status than one list can have
    have hlength := List.length_filter_le (fun j : Job => decide (j.status = s)) all
    rw [hall.length_eq] at hlength
    rw [hall.listJobs_eq hdb (some s)]
    refine congrArg Except.ok (List.take_eq_take_iff.mpr ?_)
    simp only [Option.all_some]
    have hfits : (c.database.rows "review_jobs").length ≤ Connection.longestList := hfits
    omega

/-- The database with a queued job and a running one, and before them a queued job whose time is no text. -/
def Database.strayOldest : Database := Database.current.put
  ⟨.jobs, Connection.jobWith 1 [("enqueued_at", .blob [0xFF])] :: Database.queuedAndRunning.rows "review_jobs",
    by decide, by decide⟩

/-- Two jobs are listed, newest first, where two may be, as if the oldest were not there, and one of them where one may be. Where
three may be, the oldest is in the window and the list fails, as does the list of the queued ones. Without the oldest all are
listed. -/
theorem list_exact_window_strayOldest :
    let c : Connection := { database := Database.strayOldest }
    let other : Connection := { database := Database.queuedAndRunning }
    Database.strayOldest.IsCurrent ∧ (Database.strayOldest.window none 2).map (·.id) = [7, 4] ∧
    (∃ js, c.listJobs none 2 = .ok js ∧ other.listJobs none 2 = .ok js ∧ c.listJobs none 1 = .ok (js.take 1)) ∧
    c.listJobs none 3 = .error (.fault (.badType "Blob" 6 "enqueued_at")) ∧
    c.listJobs (some .queued) 2 = .error (.fault (.badType "Blob" 6 "enqueued_at")) ∧
    ∃ all, other.listJobs none (2 ^ 64 - 1) = .ok all ∧ all.length = 2 := by
  intro c other
  have hdb : Database.strayOldest.IsCurrent := by decide
  have hother : Database.queuedAndRunning.IsCurrent := by decide
  have hreadable : ∀ rows : List Row, (∀ r ∈ rows, faultOf? (Job.ofRecord (Job.recordOf r)) = none) →
      ∀ r ∈ rows, ∃ j, Job.ofRecord (Job.recordOf r) = .ok j := fun _ h r hr => faultOf?_eq_none_iff.mp (h r hr)
  have hread := hreadable (Database.strayOldest.window none 2) (by decide +kernel)
  have hnewest := hreadable (Database.strayOldest.window (some .queued) 1) (by decide +kernel)
  have hall := hreadable (Database.queuedAndRunning.rows "review_jobs") (by decide +kernel)
  have hfault : Job.FirstFault (Job.recordOf (Connection.jobWith 1 [("enqueued_at", .blob [0xFF])]))
      (.badType "Blob" 6 "enqueued_at") :=
    ⟨6, by decide +kernel, by decide +kernel⟩
  obtain ⟨-, hok, -, hsame, hfewer, -⟩ := list_exact_window c hdb none 2
  obtain ⟨-, -, herror, -⟩ := list_exact_window c hdb none 3
  obtain ⟨-, -, hqueued, -⟩ := list_exact_window c hdb (some .queued) 2
  obtain ⟨-, -, -, -, -, hwhole⟩ := list_exact_window other hother none 2
  obtain ⟨js, hjs⟩ := exists_forall₂ hread
  have hlist := (hok js).mpr hjs
  have hequal := hsame other hother (by decide +kernel)
  obtain ⟨all, hlisted, hlength, -⟩ := hwhole hall (by decide +kernel)
  refine ⟨hdb, by decide +kernel, ⟨js, hlist, hequal.trans hlist, hfewer js hlist 1 (by decide)⟩, (herror _).mpr ?_,
    (hqueued _).mpr ?_, all, hlisted, hlength⟩
  · exact ⟨Database.strayOldest.window none 2, _, [], _, by decide +kernel, hread, hfault, rfl⟩
  · exact ⟨Database.strayOldest.window (some .queued) 1, _, [], _, by decide +kernel, hnewest, hfault, rfl⟩

end ReviewQueue
