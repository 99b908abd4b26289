import ReviewQueue.Proofs.Migration.Legacy

/-!
# Turns of a migration

All that a turn can do to a database, whatever its tables. A turn that fails leaves the connection as it found it. The one
step there is leaves jobs in the current layout and the current version recorded, so the turn after it changes nothing, even
where it does not find the version because the table of versions has its name in another spelling. So a migration fails in its
first turn, or because the lock was taken after that, or not at all.
-/

namespace ReviewQueue

namespace Database

/-- Every name means a table of the same layout in both, or none in either. -/
def SameLayouts (db db' : Database) : Prop := ∀ name, (db'.table? name).map (·.layout) = (db.table? name).map (·.layout)

theorem SameLayouts.refl (db : Database) : db.SameLayouts db := fun _ => rfl

theorem SameLayouts.trans {db db' db'' : Database} (h : db.SameLayouts db') (h' : db'.SameLayouts db'') : db.SameLayouts db'' :=
  fun name => (h' name).trans (h name)

/-- A table of the one is a table of the other under the same layout. -/
theorem SameLayouts.exists {db db' : Database} (h : db.SameLayouts db') {name : String} {t : Table}
    (ht : db.table? name = some t) : ∃ t', db'.table? name = some t' ∧ t'.layout = t.layout := by
  have hl := h name
  rw [ht, Option.map_some] at hl
  exact Option.map_eq_some_iff.mp hl

/-- Adding a row leaves the layouts. -/
theorem SameLayouts.of_run {s : Insertion} {g : Guard} {db db' : Database} {a : Option Record} (h : s.run g db = .ok (a, db')) :
    db.SameLayouts db' := by
  rcases Insertion.run_eq_ok h with ⟨-, rfl, -⟩ | ⟨t, new, id, hadds, -, -⟩
  · exact .refl _
  · intro name
    by_cases hn : name = s.table
    · rw [hn, hadds.table?_self, hadds.table, Option.map_some, Option.map_some, hadds.layout_eq]
    · rw [hadds.table?_of_ne hn]

/-- Making what is missing of the current version makes the tables that are not there, without rows. -/
theorem table?_of_withCurrent {db db' : Database} (h : db.withCurrent = .ok db') (name : String) :
    db'.table? name = (db.table? name).or ((Layout.current.find? (·.name = name)).map .empty) := by
  rw [eq_of_withCurrent h, table?_addIndexes, table?_foldl_create]

/-- Making what is missing of the current version keeps the tables that are there. -/
theorem table?_withCurrent {db db' : Database} (h : db.withCurrent = .ok db') {name : String} {t : Table}
    (ht : db.table? name = some t) : db'.table? name = some t := by
  rw [table?_of_withCurrent h, ht, Option.some_or]

/-- Whether the table of versions, if there is one, has the columns of its layout, whatever versions it holds. Its name may have
another spelling. -/
def HasPlainVersions (db : Database) : Prop := ∀ v, db.table? "schema_version" = some v → v.layout.IsVersions

/-- The layout of the table of versions that is there or would be made. -/
def versionsLayout (db : Database) : Layout := ((db.table? "schema_version").map (·.layout)).getD .schemaVersion

theorem HasPlainVersions.isVersions {db : Database} (hv : db.HasPlainVersions) : db.versionsLayout.IsVersions := by
  unfold versionsLayout
  cases hdb : db.table? "schema_version" with
  | none => rfl
  | some v => exact hv v hdb

/-- Once what is missing is made, the table of versions is there. -/
theorem exists_versions_of_withCurrent {db db' : Database} (h : db.withCurrent = .ok db') :
    ∃ v, db'.table? "schema_version" = some v ∧ v.layout = db.versionsLayout := by
  unfold versionsLayout
  cases hdb : db.table? "schema_version" with
  | none => exact ⟨_, by rw [table?_of_withCurrent h, hdb, Option.none_or]; rfl, rfl⟩
  | some v => exact ⟨v, table?_withCurrent h hdb, rfl⟩

end Database

namespace Migration

/-! ## The step -/

/-- The rows that are written anew leave the layouts. -/
theorem sameLayouts_foldlM {olds : List Record} {db db' : Database}
    (h : olds.foldlM (fun db old => do return (← (renewal old).run guard db).2) db = .ok db') : db.SameLayouts db' := by
  induction olds generalizing db with
  | nil =>
    cases h
    exact .refl _
  | cons old olds ih =>
    rw [List.foldlM_cons] at h
    simp only [bind, Except.bind, pure, Except.pure] at h ih
    cases hrun : (renewal old).run guard db with
    | error f =>
      rw [hrun] at h
      cases h
    | ok v =>
      rw [hrun] at h
      exact (Database.SameLayouts.of_run hrun).trans (ih h)

/-- Whatever jobs are written anew from, they stand in the current layout then, and the table of versions in its own. -/
theorem layouts_of_renewJobs {db db' : Database} (hv : db.HasPlainVersions) (h : renewJobs db = .ok db') :
    (∃ u, db'.table? "review_jobs" = some u ∧ u.layout = .jobs) ∧
    ∃ v, db'.table? "schema_version" = some v ∧ v.layout = db.versionsLayout := by
  unfold renewJobs at h
  simp only [bind, Except.bind, ← prepared.eq_def] at h
  cases hjobs : (Query.mk "review_jobs" oldColumns []).run (prepared db) with
  | error f =>
    rw [hjobs] at h
    cases h
  | ok jobs =>
    rw [hjobs] at h
    simp only at h
    split at h
    · cases h
    next last hlast =>
      cases h
      have hsame := sameLayouts_foldlM hlast
      have hscratch : (prepared db).table? scratch = some (.empty (.jobsNamed scratch)) := by rw [table?_prepared, if_pos rfl]
      have hversions : (prepared db).table? "schema_version" =
          (db.table? "schema_version").or (some (.empty .schemaVersion)) := by
        rw [table?_prepared, if_neg (by decide), if_pos rfl]
      obtain ⟨u, hu, hul⟩ := hsame.exists hscratch
      have hplain : ∃ v, (prepared db).table? "schema_version" = some v ∧ v.layout = db.versionsLayout := by
        unfold Database.versionsLayout
        rw [hversions]
        cases hold : db.table? "schema_version" with
        | none => exact ⟨_, rfl, rfl⟩
        | some v => exact ⟨v, rfl, rfl⟩
      obtain ⟨v, hpv, hvl⟩ := hplain
      obtain ⟨w, hw, hwl⟩ := hsame.exists hpv
      obtain ⟨jobs, hjobs, hjobsl, -⟩ := table?_swapped_jobs hu hul
      refine ⟨⟨jobs, hjobs, hjobsl⟩, w, ?_, hwl.trans hvl⟩
      refine (table?_swapped (by decide) (by decide) fun x hx => ?_).trans hw
      cases hw.symm.trans hx
      rw [hwl, hvl]
      exact hv.isVersions.sparesTable scratch

/-- Whatever the step starts from, if it succeeds jobs stand in the current layout, and the table of versions in its own, and
what was missing is made. -/
theorem layouts_of_renameReference {db db' : Database} (hv : db.HasPlainVersions) (h : (renameReference db).1 = .ok db') :
    (∃ u, db'.table? "review_jobs" = some u ∧ u.layout = .jobs) ∧
    (∃ v, db'.table? "schema_version" = some v ∧ v.layout = db.versionsLayout) ∧
    ∃ renewed : Database, renewed.withCurrent = .ok db' := by
  unfold renameReference at h
  cases hbefore : db.violations "reviews" with
  | error f =>
    rw [hbefore] at h
    cases h
  | ok before =>
    rw [hbefore] at h
    cases hrenewed : renewJobs db with
    | error f =>
      rw [hrenewed] at h
      cases h
    | ok renewed =>
      obtain ⟨⟨u, hu, hul⟩, v, hv, hvl⟩ := layouts_of_renewJobs hv hrenewed
      rw [hrenewed] at h
      cases hmade : renewed.withCurrent with
      | error f =>
        simp only [Except.bind, hmade, liftFault, bind] at h
        cases h
      | ok made =>
        simp only [Except.bind, hmade, liftFault, bind] at h
        cases hafter : made.violations "reviews" with
        | error f =>
          rw [hafter] at h
          cases h
        | ok after =>
          rw [hafter] at h
          simp only at h
          split at h
          · cases h
            exact ⟨⟨u, Database.table?_withCurrent hmade hu, hul⟩, ⟨v, Database.table?_withCurrent hmade hv, hvl⟩, renewed,
              hmade⟩
          · cases h

/-! ## Turns -/

/-- What a turn can lead to. -/
inductive Turned (c : Connection) : Outcome Turn → Prop where
  /-- The turn fails, and nothing is changed. -/
  | refused {e : StoreError} {log : List LogLine} : Turned c ⟨.error e, c, log⟩
  /-- The version is the current one or a newer one, and nothing is changed. -/
  | reached {version : Int} {log : List LogLine} (detected : detect c.database = .ok version)
      (reached : currentVersion ≤ version) : Turned c ⟨.ok .finished, c, log⟩
  /-- No version was recorded, and what was missing of the current one is made. -/
  | installed {db : Database} {log : List LogLine} (detected : detect c.database = .ok 0)
      (installs : c.database.install = .ok db) : Turned c ⟨.ok .finished, c.on db, log⟩
  /-- The step from version 1 is made, and version 2 recorded. -/
  | stepped {stepped db : Database} {log : List LogLine} (detected : detect c.database = .ok 1)
      (steps : (renameReference c.database).1 = .ok stepped) (records : stepped.recordVersion 2 = .ok db) :
      Turned c ⟨.ok .again, c.on db, log⟩

/-- A turn is one of these. -/
theorem turned (c : Connection) : Turned c (turn c) := by
  unfold turn
  split
  · exact .refused
  · cases hdetect : detect c.database with
    | error f => exact .refused
    | ok version =>
      simp only
      split
      next hreached => exact .reached hdetect hreached
      next =>
        split
        next hzero =>
          subst hzero
          cases hinstall : c.database.install with
          | error f => exact .refused
          | ok db => exact .installed hdetect hinstall
        next =>
          cases hstep : steps.find? (·.source = version) with
          | none => exact .refused
          | some step =>
            have honly : step = ⟨1, "rename review_jobs.commit_sha to git_ref", renameReference⟩ :=
              List.mem_singleton.mp (List.mem_of_find?_eq_some hstep)
            have hversion : step.source = version := by simpa using List.find?_some hstep
            subst honly hversion
            simp only
            cases happly : renameReference c.database with
            | mk result log =>
              cases result with
              | error e => exact .refused
              | ok stepped =>
                simp only
                cases hrecord : stepped.recordVersion (1 + 1) with
                | error f => exact .refused
                | ok db => exact .stepped hdetect (by rw [happly]) hrecord

/-- A turn that fails leaves the connection as it found it. -/
theorem connection_of_error {c : Connection} {e : StoreError} (h : (turn c).answer = .error e) : (turn c).connection = c := by
  have hturned := turned c
  generalize turn c = o at h hturned
  cases hturned with
  | refused => rfl
  | _ => cases h

/-- The lock is for the turn to wait for. -/
theorem turn_of_locked {c : Connection} (h : c.locked = true) : turn c = .refused c .locked := by
  unfold turn
  rw [if_pos h]

/-- A turn leaves the lock to whoever has it. -/
theorem locked_turn (c : Connection) : (turn c).connection.locked = c.locked := by
  have hturned := turned c
  generalize turn c = o at hturned
  cases hturned with
  | _ => rfl

/-- A turn and those after it, the lock staying as it is. -/
theorem turns_succ (n : Nat) (c : Connection) : turns (n + 1) c =
    match (turn c).answer with
    | .error e => ⟨.error e, (turn c).connection, (turn c).log⟩
    | .ok .finished => ⟨.ok (), (turn c).connection, (turn c).log⟩
    | .ok .again => { turns n (turn c).connection with log := (turn c).log ++ (turns n (turn c).connection).log } := by
  unfold turns
  rw [locked_turn]
  rfl

/-- What a turn detects where jobs are not of the old kind is what is recorded. -/
theorem detect_of_not_isOld {db : Database} (h : isOld db = false) : detect db = db.recordedVersion := by
  unfold detect
  rw [h, if_neg Bool.false_ne_true]

/-- Jobs in the current layout are not of the old kind. -/
theorem isOld_of_jobs {db : Database} {t : Table} (ht : db.table? "review_jobs" = some t) (hl : t.layout = .jobs) :
    isOld db = false := by
  unfold isOld
  rw [ht, Option.any_some, hl]
  decide

/-- Whether nothing is left for a turn to change: the current version or a newer one is detected, or none is and installing does
nothing. -/
def IsSettled (db : Database) : Prop :=
  (∃ version, detect db = .ok version ∧ currentVersion ≤ version) ∨ detect db = .ok 0 ∧ db.install = .ok db

/-- A turn that has nothing to change finishes and leaves the connection. -/
theorem turn_of_isSettled {c : Connection} (hlock : c.locked = false) (h : IsSettled c.database) :
    ∃ log, turn c = ⟨.ok .finished, c, log⟩ := by
  unfold turn
  rw [hlock, if_neg Bool.false_ne_true]
  rcases h with ⟨version, hdetect, hreached⟩ | ⟨hdetect, hinstall⟩
  · simp only [hdetect]
    rw [if_pos hreached]
    exact ⟨_, rfl⟩
  · simp only [hdetect, hinstall]
    rw [if_neg (by decide), if_pos trivial]
    exact ⟨_, rfl⟩

/-- Nothing is left where the current version alone is in the table of versions, in whatever spelling, and installing again does
nothing. -/
theorem isSettled_of_versions {db : Database} {l : Layout} {hl : l.IsVersions} (hold : isOld db = false)
    (hv : db.table? "schema_version" = some (Database.versionsIn l hl currentVersion)) (hinstall : db.install = .ok db) :
    IsSettled db := by
  by_cases hs : l.spelling = "schema_version"
  · refine Or.inl ⟨currentVersion, ?_, Int.le_refl _⟩
    rw [detect_of_not_isOld hold, Database.recordedVersion_eq_of_spelling hv hs]
  · refine Or.inr ⟨?_, hinstall⟩
    rw [detect_of_not_isOld hold, Database.recordedVersion_eq_zero hv hs]

/-- A turn that made the step found the lock free, and left jobs in the current layout, version 2 alone recorded and nothing to
install. -/
theorem of_again {c : Connection} (hv : c.database.HasPlainVersions) (h : (turn c).answer = .ok .again) :
    c.locked = false ∧ ∃ db, (turn c).connection = c.on db ∧ (∃ t, db.table? "review_jobs" = some t ∧ t.layout = .jobs) ∧
      db.table? "schema_version" = some (Database.versionsIn c.database.versionsLayout hv.isVersions currentVersion) ∧
      db.install = .ok db := by
  have hlock : c.locked = false := by
    cases hlocked : c.locked with
    | false => rfl
    | true =>
      rw [turn_of_locked hlocked] at h
      cases h
  refine ⟨hlock, ?_⟩
  have hturned := turned c
  generalize turn c = o at h hturned
  cases hturned with
  | @stepped _ db _ detected steps records =>
    obtain ⟨⟨u, hu, hul⟩, ⟨v, hthere, hvl⟩, renewed, hmade⟩ := layouts_of_renameReference hv steps
    have hplain : v.layout.IsVersions := by
      rw [hvl]
      exact hv.isVersions
    obtain ⟨_, hrecord, hversion, hothers, -⟩ := Database.recordVersion_eq hthere hplain 2
    cases hrecord.symm.trans records
    cases (Database.recordVersion_eq_put hthere hplain 2).symm.trans records
    exact ⟨_, rfl, ⟨u, by rw [hothers _ (by decide), hu], hul⟩, hversion.trans (congrArg some (Table.ext hvl rfl)),
      Database.install_of_recorded hmade hthere hplain⟩
  | _ => cases h

/-- After the step the next turn changes nothing. -/
theorem turn_after_again {c : Connection} (hv : c.database.HasPlainVersions) (h : (turn c).answer = .ok .again) :
    ∃ log, turn (turn c).connection = ⟨.ok .finished, (turn c).connection, log⟩ := by
  obtain ⟨hlock, db, hconnection, ⟨t, ht, hl⟩, hversion, hinstall⟩ := of_again hv h
  rw [hconnection]
  exact turn_of_isSettled hlock (isSettled_of_versions (isOld_of_jobs ht hl) hversion hinstall)

end Migration

namespace Connection

variable {c : Connection}

/-- A migration is two turns, the second one only if the first one made the step. -/
theorem migrateAmid_eq (c : Connection) (lock : Nat → Bool) : c.migrateAmid lock =
    { Migration.turnsAmid lock 2 { c with enforcing := false } with
      connection := { (Migration.turnsAmid lock 2 { c with enforcing := false }).connection with enforcing := true } } := rfl

/-- A migration whose first turn does not make the step is that turn, with references enforced afterwards. -/
theorem migrate_of_not_again (h : (Migration.turn { c with enforcing := false }).answer ≠ .ok .again) :
    c.migrate = ⟨(Migration.turn { c with enforcing := false }).answer.map fun _ => (),
      { (Migration.turn { c with enforcing := false }).connection with enforcing := true },
      (Migration.turn { c with enforcing := false }).log⟩ := by
  have hmigrate : c.migrate = { Migration.turns 2 { c with enforcing := false } with connection :=
      { (Migration.turns 2 { c with enforcing := false }).connection with enforcing := true } } := rfl
  rw [hmigrate, Migration.turns_succ]
  cases hfirst : (Migration.turn { c with enforcing := false }).answer with
  | error e => simp only [Except.map]
  | ok last =>
    cases last with
    | again => exact absurd hfirst h
    | finished => simp only [Except.map]

/-- A migration is its first turn, with references enforced afterwards: if another turn follows, that one changes nothing. -/
theorem migrate_eq (hv : c.database.HasPlainVersions) : ∃ log,
    c.migrate = ⟨(Migration.turn { c with enforcing := false }).answer.map fun _ => (),
      { (Migration.turn { c with enforcing := false }).connection with enforcing := true }, log⟩ := by
  by_cases hagain : (Migration.turn { c with enforcing := false }).answer = .ok .again
  · have hmigrate : c.migrate = { Migration.turns 2 { c with enforcing := false } with connection :=
        { (Migration.turns 2 { c with enforcing := false }).connection with enforcing := true } } := rfl
    obtain ⟨log, hlast⟩ := Migration.turn_after_again (c := { c with enforcing := false }) hv hagain
    rw [hmigrate]
    simp only [Migration.turns_succ, hagain, hlast, Except.map]
    exact ⟨_, rfl⟩
  · exact ⟨_, migrate_of_not_again hagain⟩

/-- Whatever happens to the lock, a migration is one that finds it all the time as its first turn did, unless that turn made the
step and the next one finds the lock taken: then the migration is refused, though it has left the database as it would have. -/
theorem migrateAmid_cases (hv : c.database.HasPlainVersions) (lock : Nat → Bool) :
    c.migrateAmid lock = { c with locked := lock 0 }.migrate ∨
    lock 0 = false ∧ lock 1 = true ∧ { c with locked := false }.migrate.answer = .ok () ∧
      (c.migrateAmid lock).answer = .error (.busy .locked) ∧
      (c.migrateAmid lock).connection = { { c with locked := false }.migrate.connection with locked := true } := by
  have hsteady : { c with locked := lock 0 }.migrate = c.migrateAmid fun _ => lock 0 := rfl
  by_cases hagain : (Migration.turn { c with enforcing := false, locked := lock 0 }).answer = .ok .again
  · have hfree : lock 0 = false := (Migration.of_again (c := { c with enforcing := false, locked := lock 0 }) hv hagain).1
    obtain ⟨log, heq⟩ := migrate_eq (c := { c with locked := lock 0 }) hv
    rw [hfree] at hagain heq hsteady
    cases hnext : lock 1 with
    | false =>
      refine Or.inl ?_
      rw [hfree, hsteady, migrateAmid_eq, migrateAmid_eq]
      simp only [Migration.turnsAmid, hfree, hagain, hnext, Nat.zero_add]
    | true =>
      have hrefused := Migration.turn_of_locked
        (c := { (Migration.turn { c with enforcing := false, locked := false }).connection with locked := true }) rfl
      refine Or.inr ⟨hfree, rfl, ?_, ?_, ?_⟩
      · simp only [heq, hagain, Except.map]
      · rw [migrateAmid_eq]
        simp only [Migration.turnsAmid, hfree, hagain, hnext, Nat.zero_add, hrefused]
        rfl
      · rw [migrateAmid_eq]
        simp only [heq, Migration.turnsAmid, hfree, hagain, hnext, Nat.zero_add, hrefused, Outcome.refused]
  · refine Or.inl ?_
    rw [hsteady, migrateAmid_eq, migrateAmid_eq]
    cases hfirst : (Migration.turn { c with enforcing := false, locked := lock 0 }).answer with
    | error e => simp only [Migration.turnsAmid, hfirst]
    | ok last =>
      cases last with
      | again => exact absurd hfirst hagain
      | finished => simp only [Migration.turnsAmid, hfirst]

end Connection
end ReviewQueue
