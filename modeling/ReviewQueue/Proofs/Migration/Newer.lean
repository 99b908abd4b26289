import ReviewQueue.Proofs.Migration.Turns

/-!
# Newer databases

A database in which a version past the current one is recorded is left alone, unless its jobs have the column by which old
databases are told: that column counts for more than what is recorded. The version is lowered then, and what else the jobs
held is gone.
-/

namespace ReviewQueue

/-- Where a version is recorded, the table of versions is listed under its name. -/
theorem Database.spelling_of_recordedVersion {db : Database} {version : Int} (h : db.recordedVersion = .ok version)
    (hversion : version ≠ 0) : db.versionsLayout.spelling = "schema_version" := by
  unfold versionsLayout
  cases hv : db.table? "schema_version" with
  | none => rfl
  | some v =>
    by_contra hs
    cases h.symm.trans (recordedVersion_eq_zero hv hs)
    exact hversion rfl

namespace Migration

/-- The warning that a database is newer than what is supported. -/
def newerWarning (version : Int) : LogLine := ⟨.warn, "Database schema version " ++ toString version ++
  " is newer than supported version " ++ toString currentVersion⟩

/-- Jobs of the old kind count as version 1, whatever is recorded. -/
theorem detect_of_isOld {db : Database} (h : isOld db = true) : detect db = .ok 1 := by
  unfold detect
  rw [if_pos h]

/-- A turn leaves a newer database alone and warns of it. -/
theorem turn_of_newer {c : Connection} {version : Int} (hlock : c.locked = false) (hdetect : detect c.database = .ok version)
    (hnewer : currentVersion < version) : turn c = ⟨.ok .finished, c, [newerWarning version]⟩ := by
  unfold turn
  rw [hlock, if_neg Bool.false_ne_true]
  simp only [hdetect]
  rw [if_pos (Int.le_of_lt hnewer), if_neg (Int.ne_of_gt hnewer)]
  rfl

/-- A turn that succeeds on jobs of the old kind makes the step. -/
theorem again_of_isOld {c : Connection} {last : Turn} (hold : isOld c.database = true) (h : (turn c).answer = .ok last) :
    (turn c).answer = .ok .again := by
  have hdetect := detect_of_isOld hold
  have hturned := turned c
  generalize turn c = o at h hturned ⊢
  cases hturned with
  | refused => cases h
  | reached detected reached =>
    cases hdetect.symm.trans detected
    exact absurd reached (by decide)
  | installed detected _ => cases hdetect.symm.trans detected
  | stepped _ _ _ => rfl

end Migration

/-- Bringing forward a database in which a newer version is recorded, in two parts, whatever its tables.
1. If no job column is called `commit_sha`, it succeeds with a warning and leaves everything as it was, but that
   references are enforced.
2. If one is, the database counts as one of version 1: wherever the migration succeeds, what is recorded afterwards is
   the current version and no longer the newer one. -/
theorem migrate_newer (db : Database) (version : Int) (hversion : db.recordedVersion = .ok version)
    (hnewer : currentVersion < version) (enforcing : Bool) :
    let o := (Connection.mk db enforcing false).migrate
    (Migration.isOld db = false → o = ⟨.ok (), ⟨db, true, false⟩, [Migration.newerWarning version]⟩) ∧
    (Migration.isOld db = true → db.HasPlainVersions → o.answer = .ok () →
      o.connection.database.recordedVersion = .ok currentVersion) := by
  refine ⟨fun hplain => ?_, fun hold hv hok => ?_⟩
  · have hturn : Migration.turn ⟨db, false, false⟩ = ⟨.ok .finished, ⟨db, false, false⟩, [Migration.newerWarning version]⟩ :=
      Migration.turn_of_newer rfl ((Migration.detect_of_not_isOld hplain).trans hversion) hnewer
    rw [Connection.migrate_of_not_again (by rw [hturn]; exact fun h => by cases h), hturn]
    rfl
  · obtain ⟨log, hmigrate⟩ := Connection.migrate_eq (c := ⟨db, enforcing, false⟩) hv
    rw [hmigrate] at hok ⊢
    cases hfirst : (Migration.turn ⟨db, false, false⟩).answer with
    | error e =>
      rw [hfirst] at hok
      cases hok
    | ok last =>
      have hagain := Migration.again_of_isOld hold hfirst
      obtain ⟨-, made, hmade, -, hrecorded, -⟩ := Migration.of_again (c := ⟨db, false, false⟩) hv hagain
      have hversion := Database.spelling_of_recordedVersion hversion (by rintro rfl; exact absurd hnewer (by decide))
      rw [hmade]
      exact Database.recordedVersion_eq_of_spelling hrecorded hversion

/-- The layout of jobs with one more column, as a version to come may have it. -/
def Layout.widerJobs (column : String) : Layout where
  name := "review_jobs"
  columns := Layout.jobs.columns ++ [.textRequired column]
  spelled := Layout.jobs_isLower

/-- A database of version 7 with one job, which has a cell in the column that version 7 knows. -/
def Database.newer (column : String) : Database :=
  (Database.current.put (Database.versions 7)).put ⟨.widerJobs column, [⟨1, [("repo_id", .int 1), ("commit_id", .null),
    ("git_ref", .ofString "main"), ("agent", .ofString "codex"), ("status", JobStatus.queued.cell),
    ("enqueued_at", .ofString "2030-01-02 00:00:05"), ("started_at", .null), ("finished_at", .null), ("worker_id", .null),
    ("error", .null), (column, .ofString "abc123")]⟩], List.pairwise_singleton .., List.forall_mem_singleton.mpr rfl⟩

/-- A database of version 7 whose jobs have a priority is left alone. -/
theorem migrate_newer_priority : (Database.newer "priority").recordedVersion = .ok 7 ∧
    (Connection.mk (.newer "priority") true false).migrate.answer = .ok () ∧
    (Connection.mk (.newer "priority") true false).migrate.connection.database = .newer "priority" := by
  have hversion : (Database.newer "priority").recordedVersion = .ok 7 := by decide +kernel
  have hmigrate := (migrate_newer (.newer "priority") 7 hversion (by decide) true).1 (by decide)
  rw [hmigrate]
  exact ⟨hversion, rfl, rfl⟩

/-- A database of version 7 whose jobs have a column `commit_sha` is taken for an old one. The migration succeeds, records
version 2, and the reference of the job is lost. -/
theorem migrate_newer_commitSha :
    let o := (Connection.mk (.newer "commit_sha") true false).migrate
    (Database.newer "commit_sha").recordedVersion = .ok 7 ∧ o.answer = .ok () ∧ o.connection.database ≠ .newer "commit_sha" ∧
    o.connection.database.recordedVersion = .ok 2 ∧
    ((Database.newer "commit_sha").rows "review_jobs").map (·.cell "git_ref") = [.ofString "main"] ∧
    (o.connection.database.rows "review_jobs").map (·.cell "git_ref") = [.ofString "abc123"] := by
  decide +kernel

end ReviewQueue
