import ReviewQueue.Proofs.Queue.Latest

/-!
# The review of the job that finished last

The finish times of jobs are texts, and may be written in any zone. Of the reviews of a commit the one is found whose job finished
last as an instant, to the millisecond or so, however the times are written. The reviews of other jobs are not looked at.
-/

namespace ReviewQueue

/-- A cell of a row refers to the row of a number: it is that number, or a text that spells it. -/
def Row.RefersTo (r : Row) (column : String) (id : Int) : Prop := Cell.same (r.cell column).asNumber (.int id) = true

instance (r : Row) (column : String) (id : Int) : Decidable (r.RefersTo column id) := inferInstanceAs (Decidable (_ = true))

/-- A job finished at an instant, in nanoseconds since 1970-01-01: its row has that instant in writing. -/
def Row.FinishedAt (j : Row) (n : Int) : Prop := ∃ w : Writing, j.cell "finished_at" = .ofString w.text ∧ w.nanos = n

/-- A row is that of a job which is done and belongs to a commit that is stored under a hash. -/
structure Database.IsDoneJob (db : Database) (sha : String) (j : Row) : Prop where
  mem : j ∈ db.rows "review_jobs"
  done : j.HasStatus .done
  commit : ∃ w ∈ db.rows "commits", w.cell "sha" = .ofString sha ∧ j.RefersTo "commit_id" w.id

/-- A row is that of a review of a job. -/
def Database.IsReviewOf (db : Database) (v j : Row) : Prop := v ∈ db.rows "reviews" ∧ v.RefersTo "job_id" j.id

/-- A job finished at one instant. -/
theorem Row.FinishedAt.inj {j : Row} {m n : Int} (hm : j.FinishedAt m) (hn : j.FinishedAt n) : m = n := by
  obtain ⟨w, hcell, rfl⟩ := hm
  obtain ⟨w', hcell', rfl⟩ := hn
  exact Writing.nanos_eq_of_text (Cell.ofString_inj (hcell.symm.trans hcell'))

/-- The finish time of a job is read as the instant at which it finished. -/
theorem Row.FinishedAt.exists_timestamp {j : Row} {n : Int} (h : j.FinishedAt n) :
    ∃ t, (Job.recordOf j).timestamp 8 = .ok t ∧ t.unixNanos = n := by
  obtain ⟨w, hcell, rfl⟩ := h
  obtain ⟨t, ht, hnanos⟩ := w.exists_ofStored
  have hat : ((Job.recordOf j).at_ 8).2 = .ofString w.text := by
    rw [Job.recordOf_eq]
    exact hcell
  refine ⟨t, ?_, hnanos⟩
  unfold Record.timestamp
  rw [Record.textAndBytes_eq hat]
  simp only [bind, Except.bind, ht]

/-- It is ordered by the milliseconds of that instant. -/
theorem Row.FinishedAt.ofCell?_eq {j : Row} {n : Int} (h : j.FinishedAt n) (now : Int) :
    JulianDay.ofCell? now (j.cell "finished_at") = some (JulianDay.ofNanos n) := by
  obtain ⟨w, hcell, rfl⟩ := h
  rw [hcell, JulianDay.ofCell?_text]

namespace Candidate

/-- A candidate is that of an instant and of a job. -/
structure At (a : Candidate) (instant id : Int) : Prop where
  finished : a.finished = some instant
  job : a.job = .int id

variable {a b : Candidate} {s t m n : Int}

theorem At.inj (h : a.At s m) (h' : a.At t n) : s = t ∧ m = n :=
  ⟨Option.some.inj (h.finished.symm.trans h'.finished), Cell.int.inj (h.job.symm.trans h'.job)⟩

/-- The later instant goes before, and at one instant the greater number. -/
theorem At.beats_iff (ha : a.At s m) (hb : b.At t n) : a.beats b = true ↔ t < s ∨ s = t ∧ n < m := by
  unfold beats
  rw [ha.finished, ha.job, hb.finished, hb.job]
  simp [Cell.le]

/-- Of two candidates the one is kept that the other does not go before. -/
theorem At.le_kept (ha : a.At s m) (hb : b.At t n) : ∃ u k, (if b.beats a then b else a).At u k ∧
    (s < u ∨ s = u ∧ m ≤ k) ∧ (t < u ∨ t = u ∧ n ≤ k) := by
  have hbeats := hb.beats_iff ha
  split
  next h =>
    have hlater := hbeats.mp h
    exact ⟨t, n, hb, by omega, by omega⟩
  next h =>
    have hnot := mt hbeats.mpr h
    exact ⟨s, m, ha, by omega, by omega⟩

/-- So no candidate goes before the one that is kept in the end. -/
theorem At.le_foldl {xs : List Candidate} (hplaced : ∀ x ∈ a :: xs, ∃ t n, x.At t n)
    (h : (xs.foldl (fun a b => if b.beats a then b else a) a).At s m) (hmem : b ∈ a :: xs) (hb : b.At t n) :
    t < s ∨ t = s ∧ n ≤ m := by
  induction xs generalizing a b t n with
  | nil =>
    cases List.mem_singleton.mp hmem
    obtain ⟨rfl, rfl⟩ := hb.inj h
    omega
  | cons x xs ih =>
    rw [List.foldl_cons] at h
    obtain ⟨ta, na, ha⟩ := hplaced a (by simp)
    obtain ⟨tx, nx, hx⟩ := hplaced x (by simp)
    obtain ⟨u, k, hkept, hle, hle'⟩ := ha.le_kept hx
    have hrest : ∀ y ∈ (if x.beats a then x else a) :: xs, ∃ t n, y.At t n := by
      intro y hy
      rcases List.mem_cons.mp hy with rfl | hy
      · exact ⟨u, k, hkept⟩
      · exact hplaced y (by simp [hy])
    have hfirst := ih hrest h (by simp) hkept
    rcases List.mem_cons.mp hmem with rfl | hmem
    · obtain ⟨rfl, rfl⟩ := hb.inj ha
      omega
    · rcases List.mem_cons.mp hmem with rfl | hmem
      · obtain ⟨rfl, rfl⟩ := hb.inj hx
        omega
      · exact ih hrest h (by simp [hmem]) hb

/-- There is a best candidate unless there is none. -/
theorem eq_nil_of_best? {xs : List Candidate} (h : best? xs = none) : xs = [] := by
  cases xs with
  | nil => rfl
  | cons x xs => cases h

/-- No candidate is later than the best. -/
theorem At.le_best {xs : List Candidate} (hplaced : ∀ x ∈ xs, ∃ t n, x.At t n) (h : best? xs = some a) (ha : a.At s m)
    (hmem : b ∈ xs) (hb : b.At t n) : t < s ∨ t = s ∧ n ≤ m := by
  cases xs with
  | nil => cases h
  | cons x xs =>
    cases h
    exact At.le_foldl hplaced ha hmem hb

end Candidate

namespace Connection

variable {c : Connection} {db : Database}

theorem candidateOf_at {j : Row} {n : Int} (h : j.FinishedAt n) (now : Timestamp) (v : Row) :
    (candidateOf now v j).At (JulianDay.ofNanos n) j.id := ⟨h.ofCell?_eq _, rfl⟩

/-- The candidates for a hash are the reviews of the done jobs of its commit. -/
theorem mem_candidates (hdb : db.IsCurrent) (now : Timestamp) (sha : String) {reviews jobs commits : Table}
    (hreviews : db.table? "reviews" = some reviews) (hjobs : db.table? "review_jobs" = some jobs)
    (hcommits : db.table? "commits" = some commits) {a : Candidate} :
    a ∈ candidates now sha reviews jobs commits ↔ ∃ v j, db.IsReviewOf v j ∧ db.IsDoneJob sha j ∧ a = candidateOf now v j := by
  have hkey : ∀ r : Row, r.get (.key "id") = .int r.id := fun r => Row.get_of_isKey r rfl
  have hjob : ∀ r : Row, r.get jobColumn = r.cell "job_id" := fun r => Row.get_of_isKey_false r rfl
  have hcommit : ∀ r : Row, r.get (.link "commit_id" "commits") = r.cell "commit_id" := fun r => Row.get_of_isKey_false r rfl
  have hsha : ∀ w : Row, w.hasAll .commits [("sha", .ofString sha)] = decide (w.cell "sha" = .ofString sha) :=
    (Key.hash sha).hasAll_eq
  rw [candidates_eq hdb now sha hreviews hjobs hcommits]
  simp only [List.mem_flatMap, List.mem_map, List.mem_filter, hkey, hjob, hcommit, hsha, Row.hasAll_status,
    joins_eq (show (Column.key "id").kind.isNumeric = true from rfl), ← Row.RefersTo.eq_def, decide_eq_true_eq]
  constructor
  · rintro ⟨v, hv, j, ⟨⟨hj, hdone⟩, href⟩, w, ⟨⟨hw, hwsha⟩, hcommit⟩, rfl⟩
    exact ⟨v, j, ⟨hv, href⟩, ⟨hj, hdone, w, hw, hwsha, hcommit⟩, rfl⟩
  · rintro ⟨v, j, ⟨hv, href⟩, ⟨hj, hdone, w, hw, hwsha, hcommit⟩, rfl⟩
    exact ⟨v, hv, j, ⟨⟨hj, hdone⟩, href⟩, w, ⟨⟨hw, hwsha⟩, hcommit⟩, rfl⟩

/-- The review of a hash is that of a done job of its commit, if there is one, and no other such job finished later. -/
theorem findReviewBySha_spec (hdb : c.database.IsCurrent) (now : Timestamp) (sha : String)
    (htimes : ∀ j, c.database.IsDoneJob sha j → ∃ n, j.FinishedAt n) :
    (c.findReviewBySha now sha = .ok none ∧ ∀ v j, c.database.IsReviewOf v j → ¬c.database.IsDoneJob sha j) ∨
    ∃ v j n, c.database.IsReviewOf v j ∧ c.database.IsDoneJob sha j ∧ j.FinishedAt n ∧
      c.findReviewBySha now sha = liftFault ((Review.ofRecord (Review.recordOf v)).map some) ∧
      ∀ u k m, c.database.IsReviewOf u k → c.database.IsDoneJob sha k → k.FinishedAt m →
        JulianDay.ofNanos m < JulianDay.ofNanos n ∨ JulianDay.ofNanos m = JulianDay.ofNanos n ∧ k.id ≤ j.id := by
  obtain ⟨reviews, jobs, commits, hreviews, -, hjobs, hcommits, hfound⟩ := exists_candidates hdb now sha
  have hmem := fun a => mem_candidates hdb now sha hreviews hjobs hcommits (a := a)
  cases hbest : Candidate.best? (candidates now sha reviews jobs commits) with
  | none =>
    rw [hbest] at hfound
    refine Or.inl ⟨hfound, fun v j hv hj => ?_⟩
    have hthere := (hmem _).mpr ⟨v, j, hv, hj, rfl⟩
    rw [Candidate.eq_nil_of_best? hbest] at hthere
    cases hthere
  | some best =>
    have hplaced : ∀ x ∈ candidates now sha reviews jobs commits, ∃ t n, x.At t n := by
      intro x hx
      obtain ⟨v, j, -, hj, rfl⟩ := (hmem x).mp hx
      obtain ⟨n, hn⟩ := htimes j hj
      exact ⟨_, _, candidateOf_at hn now v⟩
    obtain ⟨v, j, hv, hj, rfl⟩ := (hmem best).mp (Candidate.mem_of_best? hbest)
    obtain ⟨n, hn⟩ := htimes j hj
    rw [hbest] at hfound
    refine Or.inr ⟨v, j, n, hv, hj, hn, hfound, fun u k m hu hk hm => ?_⟩
    exact (candidateOf_at hn now v).le_best hplaced hbest ((hmem _).mpr ⟨u, k, hu, hk, rfl⟩) (candidateOf_at hm now u)

end Connection

/-- Whatever review is read from a row refers to the job of the row. -/
theorem Review.jobId_of_ofRecord {v : Row} {x : Review} (h : ofRecord (recordOf v) = .ok x) : v.cell "job_id" = .int x.jobId := by
  have hat : ((recordOf v).at_ 1).2 = v.cell "job_id" := rfl
  cases hjob : v.cell "job_id" with
  | int n =>
    have hint : (recordOf v).int 1 = .ok n := Record.int_eq (hat.trans hjob)
    unfold ofRecord at h
    simp only [bind, Except.bind, hint] at h
    repeat' split at h
    all_goals cases h
    rfl
  | _ =>
    have hint : (recordOf v).int 1 = .error ((recordOf v).badType 1) := by
      unfold Record.int
      rw [hat, hjob]
    unfold ofRecord at h
    simp only [bind, Except.bind, hint] at h
    split at h <;> cases h

/-- The review that is found for a hash, where each done job of its commit has its finish time in writing: a date of the years 1 to
9998, a time of day with up to nine digits of a fraction, in any zone. In four parts:
1. None is found exactly if no done job of the commit has a review.
2. Otherwise the one that is looked at, and is found if it can be read, is that of a done job of the commit. Each other such job
   that has a review finished less than two milliseconds after this one, and has a smaller number if both finished at one
   instant.
3. A review that is found is that of a done job of the commit.
4. The finish time of such a job is read as the instant by which it is compared. -/
theorem latest_instant_wins (c : Connection) (now : Timestamp) (sha : String) (hdb : c.database.IsCurrent)
    (htimes : ∀ j, c.database.IsDoneJob sha j → ∃ n, j.FinishedAt n) :
    (c.findReviewBySha now sha = .ok none ↔ ∀ v j, c.database.IsReviewOf v j → ¬c.database.IsDoneJob sha j) ∧
    ((∃ v j, c.database.IsReviewOf v j ∧ c.database.IsDoneJob sha j) →
      ∃ v j n, c.database.IsReviewOf v j ∧ c.database.IsDoneJob sha j ∧ j.FinishedAt n ∧
        c.findReviewBySha now sha = liftFault ((Review.ofRecord (Review.recordOf v)).map some) ∧
        ∀ u k m, c.database.IsReviewOf u k → c.database.IsDoneJob sha k → k.FinishedAt m → k ≠ j →
          m < n + 2000000 ∧ (m = n → k.id < j.id)) ∧
    (∀ x, c.findReviewBySha now sha = .ok (some x) → ∃ v j, c.database.IsReviewOf v j ∧ c.database.IsDoneJob sha j ∧
      Review.ofRecord (Review.recordOf v) = .ok x ∧ x.jobId = j.id) ∧
    ∀ j n, c.database.IsDoneJob sha j → j.FinishedAt n → ∃ t, (Job.recordOf j).timestamp 8 = .ok t ∧ t.unixNanos = n := by
  have hspec := Connection.findReviewBySha_spec hdb now sha htimes
  refine ⟨⟨fun hnone => ?_, fun hnone => ?_⟩, fun ⟨v, j, hv, hj⟩ => ?_, fun x hx => ?_, fun j n _ hn => hn.exists_timestamp⟩
  · rcases hspec with ⟨-, hno⟩ | ⟨v, j, n, -, -, -, hfound, -⟩
    · exact hno
    · rw [hfound] at hnone
      cases hread : Review.ofRecord (Review.recordOf v) <;> rw [hread] at hnone <;> cases hnone
  · rcases hspec with ⟨hfound, -⟩ | ⟨v, j, n, hv, hj, -⟩
    · exact hfound
    · exact absurd hj (hnone v j hv)
  · rcases hspec with ⟨-, hno⟩ | ⟨v, j, n, hv, hj, hn, hfound, hbest⟩
    · exact absurd hj (hno v j hv)
    · refine ⟨v, j, n, hv, hj, hn, hfound, fun u k m hu hk hm hother => ?_⟩
      have hid : k.id ≠ j.id := fun hid => hother (Database.rows_eq_of_id_eq hk.mem hj.mem hid)
      have hle := hbest u k m hu hk hm
      constructor
      · have hnear := JulianDay.ofNanos_near m
        have hnear' := JulianDay.ofNanos_near n
        omega
      · rintro rfl
        omega
  · rcases hspec with ⟨hfound, -⟩ | ⟨v, j, n, hv, hj, -, hfound, -⟩
    · cases hfound.symm.trans hx
    · rw [hfound] at hx
      cases hread : Review.ofRecord (Review.recordOf v) with
      | error f =>
        rw [hread] at hx
        cases hx
      | ok y =>
        rw [hread] at hx
        cases hx
        have hrefers : Cell.same (v.cell "job_id").asNumber (.int j.id) = true := hv.2
        rw [Review.jobId_of_ofRecord hread, show (Cell.int x.jobId).asNumber = .int x.jobId from rfl, Cell.same_int] at hrefers
        exact ⟨v, j, hv, hj, hread, of_decide_eq_true hrefers⟩

/-- Ten o'clock and a fraction, seven hours behind universal time. -/
def Writing.pacific : Writing :=
  ⟨⟨2024, 1, 1, by decide⟩, true, 10, 0, 0, 9, 123456789, .offset true 7 0 (by decide), by decide, by decide, by decide, by decide⟩

/-- Twelve o'clock of the same day in universal time. -/
def Writing.noon : Writing :=
  ⟨⟨2024, 1, 1, by decide⟩, false, 12, 0, 0, 0, 0, .offset false 0 0 (by decide), by decide, by decide, by decide, by decide⟩

/-- A commit with two done jobs, of which the first finished later, though its time comes first as a text. -/
def Database.twoZones : Database :=
  let commit : Row := (Connection.storing .epoch ⟨1, "tz123", "ada", "s", .epoch⟩).row .commits 1
  let done (id : Int) (w : Writing) : Row := ((Connection.queueing .epoch ⟨1, some 1, "tz123", "codex"⟩).row .jobs id).put
    [("status", JobStatus.done.cell), ("finished_at", .ofString w.text)]
  ((Database.current.put ⟨.commits, [commit], by decide, by decide⟩).put
    ⟨.jobs, [done 1 .pacific, done 2 .noon], by decide, by decide⟩).put
    ⟨.reviews, [(Connection.reviewing .epoch 1 ⟨"codex", "p", "pacific"⟩).row .reviews 1,
      (Connection.reviewing .epoch 2 ⟨"codex", "p", "utc"⟩).row .reviews 2], by decide, by decide⟩

/-- The review of the first job is found. -/
theorem latest_instant_wins_twoZones :
    Writing.pacific.text = "2024-01-01 10:00:00.123456789-07:00" ∧ Writing.noon.text = "2024-01-01T12:00:00+00:00" ∧
    (∀ j, Database.twoZones.IsDoneJob "tz123" j → ∃ n, j.FinishedAt n) ∧
    Connection.findReviewBySha { database := .twoZones } .epoch "tz123" =
      .ok (some ⟨1, 1, "codex", "p", "pacific", .epoch⟩) := by
  have hrows : ∀ j ∈ Database.twoZones.rows "review_jobs", j.id = 1 ∧ j.cell "finished_at" = .ofString Writing.pacific.text ∨
      j.id = 2 ∧ j.cell "finished_at" = .ofString Writing.noon.text := by decide +kernel
  have htimes : ∀ j ∈ Database.twoZones.rows "review_jobs", j.id = 1 ∧ j.FinishedAt Writing.pacific.nanos ∨
      j.id = 2 ∧ j.FinishedAt Writing.noon.nanos := fun j hj =>
    (hrows j hj).imp (fun h => ⟨h.1, .pacific, h.2, rfl⟩) fun h => ⟨h.1, .noon, h.2, rfl⟩
  have hfinished : ∀ j, Database.twoZones.IsDoneJob "tz123" j → ∃ n, j.FinishedAt n := fun j hj =>
    (htimes j hj.mem).elim (fun h => ⟨_, h.2⟩) fun h => ⟨_, h.2⟩
  obtain ⟨-, hsome, -⟩ := latest_instant_wins { database := .twoZones } .epoch "tz123" (by decide) hfinished
  have hfirst : ∃ v ∈ Database.twoZones.rows "reviews", ∃ j ∈ Database.twoZones.rows "review_jobs", j.HasStatus .done ∧
      (∃ w ∈ Database.twoZones.rows "commits", w.cell "sha" = .ofString "tz123" ∧ j.RefersTo "commit_id" w.id) ∧
      v.RefersTo "job_id" j.id ∧ j.id = 1 := by decide +kernel
  have hread : ∀ v ∈ Database.twoZones.rows "reviews", v.RefersTo "job_id" 1 →
      Review.ofRecord (Review.recordOf v) = .ok ⟨1, 1, "codex", "p", "pacific", .epoch⟩ := by decide +kernel
  obtain ⟨u, hu, k, hk, hdone, hcommit, hrefers, hkid⟩ := hfirst
  have hkjob : Database.twoZones.IsDoneJob "tz123" k := ⟨hk, hdone, hcommit⟩
  obtain ⟨v, j, n, hv, hj, hn, hfound, hbest⟩ := hsome ⟨u, k, ⟨hu, hrefers⟩, hkjob⟩
  have hjid : j.id = 1 := by
    rcases htimes j hj.mem with h | ⟨hid, hnoon⟩
    · exact h.1
    · rcases htimes k hk with ⟨-, hpacific⟩ | h
      · have hlater := (hbest u k _ ⟨hu, hrefers⟩ hkjob hpacific (fun hsame => by rw [hsame] at hkid; omega)).1
        rw [hn.inj hnoon] at hlater
        exact absurd hlater (by decide)
      · omega
  refine ⟨by decide +kernel, by decide +kernel, hfinished, ?_⟩
  rw [hfound, hread v hv.1 (by rw [← hjid]; exact hv.2)]
  rfl

end ReviewQueue
