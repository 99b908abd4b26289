import ReviewQueue.Proofs.Migration.Turns
import ReviewQueue.Proofs.Queue.Resolving
import ReviewQueue.Proofs.Queue.Reviewed
import ReviewQueue.Proofs.Store.Queries

/-!
# Reviews of no job

An old database may hold reviews of jobs that are not there. They are kept, and from then on no statement adds a review
but for a job that it makes done. So a job that is not done has a review only if that was one of no job and the number was
given to the job since; such a job cannot be completed.
-/

namespace ReviewQueue

/-- What holds of the reviews of a database after some calls on an old one: each is of a done job, unless it was a review of
no job before, and those that were there are kept. -/
structure Database.KeepsReviews (old db : Database) : Prop where
  job : ∀ v ∈ db.rows "reviews", (v ∈ old.rows "reviews" ∧ ∀ x ∈ old.rows "review_jobs", ¬v.Reviews x.id) ∨
    ∃ r ∈ db.rows "review_jobs", r.HasStatus .done ∧ v.Reviews r.id
  kept : ∀ v ∈ old.rows "reviews", v ∈ db.rows "reviews"

namespace Database.KeepsReviews

variable {old db db' : Database}

/-- Nothing is different where what is done is the same. -/
theorem congr (h : old.KeepsReviews db) (hsame : db.SameDone db') : old.KeepsReviews db' where
  job v hv := by
    rw [hsame.reviews] at hv
    rcases h.job v hv with hold | ⟨r, hr, hs, hjob⟩
    · exact Or.inl hold
    · exact Or.inr ⟨r, ((hsame.jobs r).mpr ⟨hr, hs⟩).1, hs, hjob⟩
  kept v hv := by
    rw [hsame.reviews]
    exact h.kept v hv

/-- The review that a completion adds is of the job that it makes done. -/
theorem complete (h : old.KeepsReviews db) {r r' v : Row} {text : ReviewText} (hc : Completion db db' r r' v text) :
    old.KeepsReviews db' where
  job x hx := by
    rcases (hc.reviews x).mp hx with rfl | hx
    · exact Or.inr ⟨r', (hc.jobs r').mpr (Or.inl rfl), hc.done, (Row.reviews_iff hc.review.job).mpr rfl⟩
    · rcases h.job x hx with hold | ⟨y, hy, hs, hjob⟩
      · exact Or.inl hold
      · exact Or.inr ⟨y, (hc.jobs y).mpr (Or.inr ⟨hy, hc.ne_of_done hs⟩), hs, hjob⟩
  kept x hx := (hc.reviews x).mpr (Or.inr (h.kept x hx))

/-- A review of a job that is not done was there before, and then no job had the number. -/
theorem of_not_done (h : old.KeepsReviews db) {r v : Row} (hr : r ∈ db.rows "review_jobs") (hs : ¬r.HasStatus .done)
    (hv : v ∈ db.rows "reviews") (hjob : v.Reviews r.id) :
    v ∈ old.rows "reviews" ∧ ∀ x ∈ old.rows "review_jobs", x.id ≠ r.id := by
  rcases h.job v hv with ⟨hold, hnone⟩ | ⟨x, hx, hdone, hxjob⟩
  · exact ⟨hold, fun x hx hid => hnone x hx (hid ▸ hjob)⟩
  · rw [rows_eq_of_id_eq hx hr (hxjob.inj hjob)] at hdone
    exact absurd hdone hs

/-- A job that is not done has no review exactly if none of those that were there has its number. -/
theorem none_iff (h : old.KeepsReviews db) {r : Row} (hr : r ∈ db.rows "review_jobs") (hs : ¬r.HasStatus .done) :
    (∀ v ∈ db.rows "reviews", ¬v.Reviews r.id) ↔ ∀ v ∈ old.rows "reviews", ¬v.Reviews r.id :=
  ⟨fun hnone v hv => hnone v (h.kept v hv), fun hnone v hv hjob => hnone v (h.of_not_done hr hs hv hjob).1 hjob⟩

end Database.KeepsReviews

/-- Every run keeps the reviews. -/
theorem Site.after_keepsReviews {w : Site} {old : Database} (hdb : w.database.IsCurrent) (hfit : w.database.JobsFit)
    (h : old.KeepsReviews w.database) (as : List Action) :
    (w.after as).database.IsCurrent ∧ old.KeepsReviews (w.after as).database := by
  induction as generalizing w with
  | nil => exact ⟨hdb, h⟩
  | cons a as ih =>
    have heffect := step_effect hdb a
    refine ih (heffect.isCurrent hdb) (heffect.jobsFit hdb hfit) ?_
    rcases heffect.sameDone_or_completion hdb hfit with ⟨hsame, -⟩ | ⟨r, r', v, text, review, hc, -, -⟩
    · exact h.congr hsame
    · exact h.complete hc

/-- No review is found for a job exactly if none has its number. -/
theorem Connection.findReviewByJob_eq_none_iff {c : Connection} (hdb : c.database.IsCurrent) (id : Int) :
    c.findReviewByJob id = .ok none ↔ ∀ v ∈ c.database.rows "reviews", ¬v.Reviews id := by
  obtain ⟨t, ht, hl⟩ := hdb.reviews
  let q : Query := ⟨"reviews", Review.columns, [("job_id", .int id)]⟩
  have hknown : q.isKnown t.layout = true := by
    rw [hl]
    exact Query.isKnown_of_names ["job_id"] rfl (by decide)
  have hjob : Layout.reviews.column? "job_id" = some { Column.linkRequired "job_id" "review_jobs" with unique := true } := by
    decide
  have hhas : ∀ v : Row, v.hasAll t.layout q.having = decide (v.Reviews id) := by
    intro v
    rw [hl, Row.hasAll_cons hjob, Row.hasAll_nil, Bool.and_true]
    exact Bool.decide_eq_true.symm
  have hlift : ∀ x : Except Fault (Option Review), liftFault x = .ok none ↔ x = .ok none := by
    rintro (f | a) <;> simp [liftFault]
  unfold findReviewByJob
  rw [hlift, first_eq_none_iff ht hknown, Database.rows_of_table? ht]
  simp only [hhas, decide_eq_false_iff_not]

namespace Database

/-- A database that was brought forward is current. -/
theorem BroughtForward.isCurrent {db db' : Database} {t : Table} (h : db.BroughtForward t db') (hdb : db.IsLegacy t) :
    db'.IsCurrent ∧ db'.JobsFit := by
  obtain ⟨u, hu, hul, hufits, -⟩ := h.jobs
  have hmore : ∀ l ∈ Layout.current, l = .jobs ∨ l = .schemaVersion ∨ l ∈ Layout.besideJobs := by decide
  constructor
  · intro l hl
    rcases hmore l hl with rfl | rfl | hl
    · exact ⟨u, hu, hul⟩
    · exact ⟨_, h.version, rfl⟩
    · cases hold : db.table? l.name with
      | none => exact ⟨_, h.made l hl hold, rfl⟩
      | some x => exact ⟨x, h.kept l hl x hold, hdb.others l (List.mem_cons_of_mem _ hl) x hold⟩
  · intro r hr
    rw [rows_of_table? hu] at hr
    rw [← hul]
    exact hufits r hr

/-- The reviews of a database that was brought forward are those that were there. -/
theorem BroughtForward.rows_reviews {db db' : Database} {t : Table} (h : db.BroughtForward t db') :
    db'.rows "reviews" = db.rows "reviews" := by
  have hmem : Layout.reviews ∈ Layout.besideJobs := by decide
  cases hold : db.table? "reviews" with
  | none =>
    have hmade : db'.table? "reviews" = some (.empty .reviews) := h.made .reviews hmem hold
    unfold rows
    rw [hold, hmade]
    rfl
  | some x =>
    have hkept : db'.table? "reviews" = some x := h.kept .reviews hmem x hold
    rw [rows_of_table? hkept, rows_of_table? hold]

/-- The jobs of a database that was brought forward have the numbers of the old ones. -/
theorem BroughtForward.forall_id_iff {db db' : Database} {t : Table} (h : db.BroughtForward t db') (p : Int → Prop) :
    (∀ x ∈ db'.rows "review_jobs", p x.id) ↔ ∀ x ∈ t.rows, p x.id := by
  obtain ⟨u, hu, -, -, hrows⟩ := h.jobs
  rw [rows_of_table? hu, hrows]
  simp only [List.forall_mem_map]
  rfl

/-- A job that is brought forward has the status that it had. -/
theorem BroughtForward.exists_of_status {db db' : Database} {t : Table} (h : db.BroughtForward t db') {x : Row}
    (hx : x ∈ t.rows) {s : JobStatus} (hs : x.HasStatus s) : ∃ x' ∈ db'.rows "review_jobs", x'.id = x.id ∧ x'.HasStatus s := by
  obtain ⟨x', hx', hid, hcells⟩ := h.cells x hx
  exact ⟨x', hx', hid, (hcells Column.status (by decide) rfl).trans hs⟩

/-- The table of versions of an old database is the one of the layout. -/
theorem IsLegacy.hasPlainVersions {db : Database} {t : Table} (h : db.IsLegacy t) : db.HasPlainVersions := by
  intro v hv
  rw [h.others .schemaVersion (by simp) v hv]
  rfl

/-- An old database is brought forward if the status of each job is one of the four words. -/
theorem IsLegacy.exists_broughtForward {db : Database} {t : Table} (h : db.IsLegacy t) (hknown : ∀ r ∈ t.rows, r.HasKnownStatus)
    (enforcing : Bool) : ∃ db', db.BroughtForward t db' ∧ (Connection.mk db enforcing false).migrate.answer = .ok () ∧
      (Connection.mk db enforcing false).migrate.connection.database = db' := by
  obtain ⟨db', hforward, hanswer, hconnection⟩ := (Migration.turn_eq h false).1 hknown
  obtain ⟨log, hmigrate⟩ := Connection.migrate_eq (c := ⟨db, enforcing, false⟩) h.hasPlainVersions
  rw [hmigrate]
  exact ⟨db', hforward, by rw [hanswer]; rfl, by rw [hconnection]⟩

end Database

/-- What becomes of the reviews of an old database, each of which is of a done job or of no job, after it was brought forward
and any run of several handles. The migration succeeds, and of each job that is not done then:
1. A review of it is one of those that were there, and no old job had its number.
2. Nothing is found as its review exactly if none of those that were there has its number.
3. If it is running, it is completed by whom the lock is free for exactly if none of those that were there has its number. -/
theorem migrate_orphans (db : Database) (t : Table) (h : db.IsLegacy t) (hknown : ∀ r ∈ t.rows, r.HasKnownStatus)
    (hreviews : ∀ v ∈ db.rows "reviews", (∃ r ∈ t.rows, r.HasStatus .done ∧ v.Reviews r.id) ∨ ∀ r ∈ t.rows, ¬v.Reviews r.id)
    (enforcing : Bool) (as : List Action) :
    let o := (Connection.mk db enforcing false).migrate
    let c : Connection := ⟨((Site.quiet o.connection.database).after as).database, true, false⟩
    o.answer = .ok () ∧
    ∀ r ∈ c.database.rows "review_jobs", ¬r.HasStatus .done →
      (∀ v ∈ c.database.rows "reviews", v.Reviews r.id → v ∈ db.rows "reviews" ∧ ∀ x ∈ t.rows, x.id ≠ r.id) ∧
      (c.findReviewByJob r.id = .ok none ↔ ∀ v ∈ db.rows "reviews", ¬v.Reviews r.id) ∧
      (r.HasStatus .running → ∀ (now : Timestamp) (text : ReviewText), now.IsPlain →
        ((∃ review, (c.complete now r.id text).answer = .ok review) ↔ ∀ v ∈ db.rows "reviews", ¬v.Reviews r.id)) := by
  obtain ⟨db', hforward, hanswer, hdatabase⟩ := h.exists_broughtForward hknown enforcing
  obtain ⟨hcurrent, hfit⟩ := hforward.isCurrent h
  have hsame := hforward.rows_reviews
  have hstart : db'.KeepsReviews db' := by
    refine ⟨fun v hv => ?_, fun v hv => hv⟩
    rcases hreviews v (by rw [← hsame]; exact hv) with ⟨r, hr, hs, hjob⟩ | hnone
    · obtain ⟨r', hr', hid, hs'⟩ := hforward.exists_of_status hr hs
      exact Or.inr ⟨r', hr', hs', hid ▸ hjob⟩
    · exact Or.inl ⟨hv, (hforward.forall_id_iff (¬v.Reviews ·)).mpr hnone⟩
  intro o c
  have hrun := Site.after_keepsReviews (w := .quiet db') hcurrent hfit hstart as
  rw [show Site.quiet db' = .quiet o.connection.database from by rw [hdatabase]] at hrun
  obtain ⟨hdb, hkeeps⟩ := hrun
  refine ⟨hanswer, fun r hr hs => ⟨fun v hv hjob => ?_, ?_, fun hrunning now text hnow => ?_⟩⟩
  · obtain ⟨hold, hnone⟩ := hkeeps.of_not_done hr hs hv hjob
    rw [hsame] at hold
    exact ⟨hold, (hforward.forall_id_iff (· ≠ r.id)).mp hnone⟩
  · rw [Connection.findReviewByJob_eq_none_iff hdb, hkeeps.none_iff hr hs, hsame]
  · rw [Connection.complete_isOk_iff hdb rfl hnow hr hrunning text, hkeeps.none_iff hr hs, hsame]

/-- The running job of an old database is completed after the migration: the review that was left behind has another
number. -/
theorem migrate_orphans_oneOldJob :
    let o := (Connection.mk .oneOldJob true false).migrate
    let c : Connection := ⟨((Site.quiet o.connection.database).after []).database, true, false⟩
    o.answer = .ok () ∧ c.findReviewByJob 3 = .ok none ∧
    ∃ review, (c.complete .epoch 3 ⟨"codex", "p", "o"⟩).answer = .ok review := by
  have hknown : ∀ r ∈ Table.oneOldJob.rows, r.HasKnownStatus := by
    intro r hr
    cases List.mem_singleton.mp hr
    exact ⟨.running, by decide⟩
  have hreviews : ∀ v ∈ Database.oneOldJob.rows "reviews",
      (∃ r ∈ Table.oneOldJob.rows, r.HasStatus .done ∧ v.Reviews r.id) ∨ ∀ r ∈ Table.oneOldJob.rows, ¬v.Reviews r.id := by
    intro v hv
    cases List.mem_singleton.mp hv
    exact Or.inr (by decide)
  have hapart : ∀ v ∈ Database.oneOldJob.rows "reviews", ¬v.Reviews 3 := by decide
  obtain ⟨hanswer, hjobs⟩ := migrate_orphans .oneOldJob .oneOldJob Database.isLegacy_oneOldJob hknown hreviews true []
  have hrunning : ∃ r ∈ ((Site.quiet (Connection.mk .oneOldJob true false).migrate.connection.database).after []).database.rows
      "review_jobs", r.id = 3 ∧ r.HasStatus .running := by decide +kernel
  obtain ⟨r, hr, hid, hs⟩ := hrunning
  obtain ⟨-, hfind, hcomplete⟩ := hjobs r hr fun hdone => by cases hdone.inj hs
  rw [hid] at hfind hcomplete
  exact ⟨hanswer, hfind.mpr hapart, (hcomplete hs .epoch ⟨"codex", "p", "o"⟩ (by decide)).mpr hapart⟩

/-- The next job gets the number of the review that was left behind, so the review is found as its own while the job is
running, and the job cannot be completed. -/
theorem migrate_orphans_adopted :
    let o := (Connection.mk .orphanReview true false).migrate
    let register : Action := ⟨0, .registerRepo (.ofString "/work"), .epoch, false⟩
    let c : Connection := ⟨((Site.quiet o.connection.database).after [register, register, register,
      ⟨0, .enqueue ⟨1, none, "main", "codex"⟩, .epoch, false⟩, ⟨0, .claim "w", .epoch, false⟩]).database, true, false⟩
    Database.orphanReview.IsLegacy (.empty .oldJobs) ∧ o.answer = .ok () ∧
    ((c.database.rows "review_jobs").filter (·.HasStatus .running)).map (·.id) = [1] ∧
    (c.findReviewByJob 1).map (·.map (·.output)) = .ok (some "o") ∧
    (c.complete .epoch 1 ⟨"codex", "p", "o"⟩).answer = .error (.fault (.twiceIn "reviews" "job_id")) :=
  ⟨Database.isLegacy_orphanReview, by decide +kernel⟩

end ReviewQueue
