import ReviewQueue.Proofs.Migration.Newer

/-!
# Migrating again

A migration that succeeds leaves a database for which nothing is left to do, whatever its tables were, so whoever opens it
afterwards leaves it alone. The next migration finds that the current version is recorded, or finds none recorded, where the
table of versions is not listed under its name, and nothing missing that it would make.
-/

namespace ReviewQueue

/-- A connection that sees the lock as it sees it. -/
theorem Connection.withLocked_eq {c : Connection} {locked : Bool} (h : c.locked = locked) : { c with locked := locked } = c := by
  subst h
  rfl

namespace Migration

/-- What is detected from the current version on is what is recorded: an old database counts as version 1. -/
theorem recordedVersion_of_detect {db : Database} {version : Int} (h : detect db = .ok version)
    (hreached : currentVersion ≤ version) : db.recordedVersion = .ok version := by
  cases hold : isOld db with
  | false => rw [← detect_of_not_isOld hold, h]
  | true =>
    cases (detect_of_isOld hold).symm.trans h
    exact absurd hreached (by decide)

/-- Where no version is detected, jobs are not of the old kind. -/
theorem not_isOld_of_detect {db : Database} (h : detect db = .ok 0) : isOld db = false := by
  cases hold : isOld db with
  | false => rfl
  | true => cases (detect_of_isOld hold).symm.trans h

/-- Whether the current version alone is in the table of versions, which has a given layout, and nothing else is left to do. -/
structure IsBrought (l : Layout) (hl : l.IsVersions) (db : Database) : Prop where
  notOld : isOld db = false
  versions : db.table? "schema_version" = some (Database.versionsIn l hl currentVersion)
  install : db.install = .ok db

theorem IsBrought.isSettled {l : Layout} {hl : l.IsVersions} {db : Database} (h : IsBrought l hl db) : IsSettled db :=
  isSettled_of_versions h.notOld h.versions h.install

/-- Installing leaves the current version alone in the table of versions, and makes no jobs of the old kind. -/
theorem isBrought_of_install {db db' : Database} (hv : db.HasPlainVersions) (hold : isOld db = false)
    (h : db.install = .ok db') : IsBrought db.versionsLayout hv.isVersions db' := by
  unfold Database.install at h
  cases hmade : db.withCurrent with
  | error f =>
    rw [hmade] at h
    cases h
  | ok made =>
    rw [hmade] at h
    have htable := Database.table?_of_withCurrent hmade
    obtain ⟨v, hthere, hvl⟩ := Database.exists_versions_of_withCurrent hmade
    have hplain : v.layout.IsVersions := hvl ▸ hv.isVersions
    obtain ⟨recorded, hrecord, hversion, hothers, -⟩ := Database.recordVersion_eq hthere hplain currentVersion
    cases hrecord.symm.trans h
    cases (Database.recordVersion_eq_put hthere hplain currentVersion).symm.trans h
    refine ⟨?_, hversion.trans (congrArg some (Table.ext hvl rfl)), Database.install_of_recorded hmade hthere hplain⟩
    cases hdb : db.table? "review_jobs" with
    | none => exact isOld_of_jobs (by rw [hothers _ (by decide), htable, hdb, Option.none_or]; rfl) rfl
    | some t =>
      unfold isOld at hold ⊢
      rw [hothers _ (by decide), Database.table?_withCurrent hmade hdb, ← hdb]
      exact hold

/-- A turn that succeeds where a version is detected leaves one from the current one on as it is, and brings a lower one forward. -/
theorem of_turn {c : Connection} {last : Turn} (hv : c.database.HasPlainVersions) (h : (turn c).answer = .ok last) :
    (∃ version, detect c.database = .ok version ∧ currentVersion ≤ version ∧ (turn c).connection = c) ∨
    (∃ version, detect c.database = .ok version ∧ version < currentVersion) ∧
      IsBrought c.database.versionsLayout hv.isVersions (turn c).connection.database := by
  have hturned := turned c
  have hagain := of_again (c := c) hv
  generalize turn c = o at h hturned hagain ⊢
  cases hturned with
  | refused => cases h
  | reached detected reached => exact Or.inl ⟨_, detected, reached, rfl⟩
  | installed detected installs =>
    exact Or.inr ⟨⟨_, detected, by decide⟩, isBrought_of_install hv (not_isOld_of_detect detected) installs⟩
  | stepped detected _ _ =>
    obtain ⟨-, db, hconnection, ⟨t, ht, hl⟩, hversion, hinstall⟩ := hagain rfl
    rw [hconnection]
    exact Or.inr ⟨⟨_, detected, by decide⟩, isOld_of_jobs ht hl, hversion, hinstall⟩

/-- A turn that succeeds leaves nothing to do. -/
theorem isSettled_of_turn {c : Connection} {last : Turn} (hv : c.database.HasPlainVersions) (h : (turn c).answer = .ok last) :
    IsSettled (turn c).connection.database := by
  rcases of_turn hv h with ⟨version, hdetect, hreached, hconnection⟩ | ⟨-, hbrought⟩
  · rw [hconnection]
    exact Or.inl ⟨version, hdetect, hreached⟩
  · exact hbrought.isSettled

/-- A turn that succeeds found the lock free, and leaves it so. -/
theorem locked_of_turn {c : Connection} {last : Turn} (h : (turn c).answer = .ok last) : c.locked = false := by
  cases hlock : c.locked with
  | false => rfl
  | true =>
    rw [turn_of_locked hlock] at h
    cases h

/-- Two turns are all that a migration can take: with more allowed it comes to the same. -/
theorem turnsAmid_eq {c : Connection} (hv : c.database.HasPlainVersions) (lock : Nat → Bool) (n : Nat) :
    turnsAmid lock (n + 2) c = turnsAmid lock 2 c := by
  cases hfirst : (turn { c with locked := lock 0 }).answer with
  | error e => simp only [turnsAmid, hfirst]
  | ok last =>
    cases last with
    | finished => simp only [turnsAmid, hfirst]
    | again =>
      have hfree : (turn { c with locked := lock 0 }).connection.locked = false :=
        (locked_turn _).trans (locked_of_turn hfirst)
      obtain ⟨log, hlast⟩ := turn_after_again (c := { c with locked := lock 0 }) hv hfirst
      cases hnext : lock 1 with
      | true =>
        have hrefused := turn_of_locked (c := { (turn { c with locked := lock 0 }).connection with locked := true }) rfl
        simp only [turnsAmid, hfirst, Nat.zero_add, hnext, hrefused, Outcome.refused]
      | false => simp only [turnsAmid, hfirst, Nat.zero_add, hnext, Connection.withLocked_eq hfree, hlast]

end Migration

/-- A migration for which nothing is left to do succeeds and leaves the connection, but that references are enforced. -/
theorem Connection.migrate_of_isSettled {c : Connection} (hlock : c.locked = false) (h : Migration.IsSettled c.database) :
    c.migrate.answer = .ok () ∧ c.migrate.connection = { c with enforcing := true } := by
  obtain ⟨log, hturn⟩ := Migration.turn_of_isSettled (c := { c with enforcing := false }) hlock h
  rw [migrate_of_not_again (by rw [hturn]; exact fun hagain => by cases hagain), hturn]
  exact ⟨rfl, rfl⟩

/-- Migrating again, in four parts, whatever the tables of the database and whoever else takes the lock between two turns, if the
table of versions, should there be one, has the columns of its layout. Its name may have any spelling.
1. The turns come to an end: however many more were allowed, they would come to the same.
2. If the migration succeeds and the table of versions is not there or has the name that the program writes, the version recorded
   after it is the current one or a newer one.
3. A second migration then succeeds too, and leaves the connection as the first one left it.
4. If a lower version was detected before the first one, the table of versions holds the current one alone afterwards, whatever it
   held before. -/
theorem migrate_again (db : Database) (hv : db.HasPlainVersions) (enforcing : Bool) (lock : Nat → Bool) :
    let o := (Connection.mk db enforcing false).migrateAmid lock
    (∀ n, 2 ≤ n → Migration.turnsAmid lock n ⟨db, false, false⟩ = Migration.turnsAmid lock 2 ⟨db, false, false⟩) ∧
    (o.answer = .ok () →
      (db.versionsLayout.spelling = "schema_version" →
        ∃ version, o.connection.database.recordedVersion = .ok version ∧ 2 ≤ version) ∧
      (o.connection.migrate.answer = .ok () ∧ o.connection.migrate.connection = o.connection) ∧
      ∀ version, Migration.detect db = .ok version → version < 2 →
        ∃ v, o.connection.database.table? "schema_version" = some v ∧ v.layout = db.versionsLayout ∧ v.rows = [⟨2, []⟩]) := by
  intro o
  refine ⟨fun n hn => ?_, fun hok => ?_⟩
  · obtain ⟨k, rfl⟩ := Nat.exists_eq_add_of_le' hn
    exact Migration.turnsAmid_eq (c := ⟨db, false, false⟩) hv lock k
  · have ho : o = (Connection.mk db enforcing (lock 0)).migrate := by
      rcases Connection.migrateAmid_cases (c := ⟨db, enforcing, false⟩) hv lock with h | ⟨-, -, -, hbusy, -⟩
      · exact h
      · cases hbusy.symm.trans hok
    obtain ⟨log, hmigrate⟩ := Connection.migrate_eq (c := ⟨db, enforcing, lock 0⟩) hv
    rw [ho, hmigrate] at hok ⊢
    cases hfirst : (Migration.turn ⟨db, false, lock 0⟩).answer with
    | error e =>
      rw [hfirst] at hok
      cases hok
    | ok last =>
      have hlock : (Migration.turn ⟨db, false, lock 0⟩).connection.locked = false :=
        (Migration.locked_turn _).trans (Migration.locked_of_turn hfirst)
      have hsettled := Migration.isSettled_of_turn (c := ⟨db, false, lock 0⟩) hv hfirst
      refine ⟨fun hs => ?_, Connection.migrate_of_isSettled (c := ⟨_, true, _⟩) hlock hsettled, fun version hdetect hlower => ?_⟩
      · rcases Migration.of_turn (c := ⟨db, false, lock 0⟩) hv hfirst with ⟨version, hdetect, hreached, hconnection⟩ | ⟨-, hbrought⟩
        · rw [hconnection]
          exact ⟨version, Migration.recordedVersion_of_detect hdetect hreached, hreached⟩
        · exact ⟨2, Database.recordedVersion_eq_of_spelling hbrought.versions hs, Int.le_refl _⟩
      · rcases Migration.of_turn (c := ⟨db, false, lock 0⟩) hv hfirst with ⟨v, hdetected, hreached, -⟩ | ⟨-, hbrought⟩
        · cases hdetect.symm.trans hdetected
          exact absurd hlower (Int.not_lt.mpr hreached)
        · exact ⟨_, hbrought.versions, rfl, rfl⟩

/-- An old database with one job in which versions were recorded that it does not have. -/
def Database.strayVersions : Database := { Database.oneOldJob with
  tables := ⟨.schemaVersion, [⟨-3, []⟩, ⟨7, []⟩], by decide, by decide⟩ :: Database.oneOldJob.tables }

/-- The stray versions give way to the current one, and a second migration changes nothing. -/
theorem migrate_again_strayVersions :
    let o := (Connection.mk .strayVersions true false).migrate
    Database.strayVersions.recordedVersion = .ok 7 ∧ o.answer = .ok () ∧
    (∃ v, o.connection.database.table? "schema_version" = some v ∧ v.layout = .schemaVersion ∧ v.rows = [⟨2, []⟩]) ∧
    o.connection.migrate.answer = .ok () ∧ o.connection.migrate.connection = o.connection := by
  have hv : Database.strayVersions.HasPlainVersions := by
    intro v h
    cases h
    rfl
  have hok : (Connection.mk .strayVersions true false).migrate.answer = .ok () := by decide +kernel
  obtain ⟨-, hlast⟩ := migrate_again .strayVersions hv true fun _ => false
  obtain ⟨-, hsecond, hlower⟩ := hlast hok
  exact ⟨by decide, hok, hlower 1 (by decide) (by decide), hsecond⟩

/-- A database of nothing but a table of versions, without rows and with its name in capitals. -/
def Database.capitalVersions : Database where
  tables := [.empty (.ofSpelling "Schema_Version" Layout.schemaVersion.columns)]
  indexes := []

/-- Its migration succeeds and leaves version 2 in that table, yet no version is recorded afterwards. -/
theorem migrate_again_capitalVersions :
    let o := (Connection.mk .capitalVersions true false).migrate
    Database.capitalVersions.HasPlainVersions ∧ o.answer = .ok () ∧
    o.connection.database.rows "schema_version" = [⟨2, []⟩] ∧ o.connection.database.recordedVersion = .ok 0 := by
  refine ⟨fun v h => ?_, by decide +kernel, by decide +kernel, by decide +kernel⟩
  have hfound : Database.capitalVersions.table? "schema_version" =
      some (.empty (.ofSpelling "Schema_Version" Layout.schemaVersion.columns)) := by decide +kernel
  cases hfound.symm.trans h
  rfl

end ReviewQueue
