import ReviewQueue.Proofs.Migration.Newer

/-!
# Installing over a partial store

Where no version is recorded everything that is missing is made, and what is there stays, whatever it is. Tables never stand in
the way; an index does whose name is free and whose column the table does not have. Whether one does can be told beforehand, since
each index is made or not whatever becomes of the others, and where one does all is as it was.
-/

namespace ReviewQueue

namespace Database

/-! ## Indexes over what is there -/

/-- Whether the indexes that have the names of current ones are those, on columns that are there. -/
def IndexesFitCurrent (db : Database) : Prop := ∀ x ∈ db.indexes, ∀ i ∈ Index.current, x.name = i.name →
  x = i ∧ ∃ t, db.table? i.table = some t ∧ (t.layout.column? i.column).isSome

section

variable {db : Database} {i : Index}

/-- Where the indexes fit, one can be taken exactly if its table, if there is one, has the column. -/
theorem takes_iff (h : db.IndexesFitCurrent) (hi : i ∈ Index.current) :
    db.Takes i ↔ ∀ t, db.table? i.table = some t → (t.layout.column? i.column).isSome := by
  refine ⟨fun htakes t ht => ?_, Or.inr⟩
  rcases htakes with ⟨x, hx, hname⟩ | hcolumn
  · obtain ⟨-, u, hu, hcolumn⟩ := h x hx i hi hname
    cases ht.symm.trans hu
    exact hcolumn
  · exact hcolumn t ht

/-- The first index that cannot be taken is the fault. -/
theorem withCurrent_of_not_takes {before after : List Index} (hcurrent : Index.current = before ++ i :: after)
    (hbefore : ∀ x ∈ before, db.Takes x) (h : ¬db.Takes i) : db.withCurrent = .error (.noColumn i.column) := by
  have hmem : (∀ x ∈ before, x ∈ Index.current) ∧ i ∈ Index.current := by
    rw [hcurrent]
    exact ⟨fun x hx => List.mem_append_left _ hx, List.mem_append_right _ List.mem_cons_self⟩
  have hsome : Index.current.findSome? (Layout.current.foldl create db).indexFault? = some (.noColumn i.column) := by
    have hnone : before.findSome? (Layout.current.foldl create db).indexFault? = none :=
      List.findSome?_eq_none_iff.mpr fun x hx => (db.indexFault?_of_created (hmem.1 x hx)).1 (hbefore x hx)
    rw [hcurrent, List.findSome?_append, hnone, List.findSome?_cons, (db.indexFault?_of_created hmem.2).2 h]
    rfl
  unfold withCurrent
  rw [foldlM_createIndex_eq pairwise_names_current fun _ _ => rfl, hsome]

/-- If not every index can be taken there is a first one that cannot. -/
theorem exists_first_not_takes (h : ¬∀ i ∈ Index.current, db.Takes i) :
    ∃ before i after, Index.current = before ++ i :: after ∧ (∀ x ∈ before, db.Takes x) ∧ ¬db.Takes i := by
  classical
  have hsome : (Index.current.find? fun i => ¬db.Takes i).isSome := by simpa [List.find?_isSome] using h
  obtain ⟨i, hi⟩ := Option.isSome_iff_exists.mp hsome
  obtain ⟨hnot, before, after, hcurrent, hbefore⟩ := List.find?_eq_some_iff_append.mp hi
  exact ⟨before, i, after, hcurrent, fun x hx => by simpa using hbefore x hx, by simpa using hnot⟩

end

/-! ## Installing -/

/-- What installing makes of a database: what is there stays, what is missing is made, and the current version alone is
recorded. -/
structure InstalledOver (db db' : Database) : Prop where
  kept : ∀ name t, name ≠ "schema_version" → db.table? name = some t → db'.table? name = some t
  made : ∀ l ∈ Layout.current, l ≠ .schemaVersion → db.table? l.name = none → db'.table? l.name = some (.empty l)
  others : ∀ name, (∀ l ∈ Layout.current, l.name ≠ name) → db.table? name = none → db'.table? name = none
  version : db'.table? "schema_version" = some (versions currentVersion)
  indexes : db'.indexes = db.indexes ++ Index.current.filter fun i => !db.indexes.any (·.name = i.name)

/-- Whether no version is recorded: the table of versions is missing, or is the one of the layout and has no row. -/
def HasNoVersion (db : Database) : Prop := ∀ v, db.table? "schema_version" = some v → v = .empty .schemaVersion

section

variable {db db' : Database}

/-- The table of versions that is there or would be made is the one of the layout. -/
theorem HasNoVersion.versionsLayout_eq (h : db.HasNoVersion) : db.versionsLayout = .schemaVersion := by
  unfold versionsLayout
  cases hv : db.table? "schema_version" with
  | none => rfl
  | some v => rw [h v hv]; rfl

theorem HasNoVersion.recordedVersion (h : db.HasNoVersion) : db.recordedVersion = .ok 0 := by
  unfold Database.recordedVersion listed?
  cases hv : db.table? "schema_version" with
  | none => rfl
  | some v =>
    rw [h v hv]
    rfl

/-- Every current index is there after the installation, by its name. -/
theorem InstalledOver.index_name (h : db.InstalledOver db') {i : Index} (hi : i ∈ Index.current) :
    ∃ x ∈ db'.indexes, x.name = i.name := by
  rw [h.indexes]
  by_cases hname : ∃ x ∈ db.indexes, x.name = i.name
  · obtain ⟨x, hx, hxname⟩ := hname
    exact ⟨x, List.mem_append_left _ hx, hxname⟩
  · exact ⟨i, List.mem_append_right _ (List.mem_filter.mpr ⟨hi, by simpa using hname⟩), rfl⟩

/-- Where the indexes fit, each current index itself is there after the installation. -/
theorem InstalledOver.index_mem (h : db.InstalledOver db') (hfit : db.IndexesFitCurrent) {i : Index} (hi : i ∈ Index.current) :
    i ∈ db'.indexes := by
  rw [h.indexes]
  exact mem_addIndexes hi fun x hx hname => (hfit x hx i hi hname).1

/-- Installing succeeds if every index can be taken. -/
theorem install_of_takes (hv : db.HasNoVersion) (h : ∀ i ∈ Index.current, db.Takes i) :
    ∃ db', db.install = .ok db' ∧ db.InstalledOver db' := by
  have hmade := withCurrent_of_takes h
  generalize hmadeTo : (Layout.current.foldl create db).addIndexes Index.current = made at hmade
  have htable := table?_of_withCurrent hmade
  obtain ⟨v, hmadev, hvl⟩ := exists_versions_of_withCurrent hmade
  rw [hv.versionsLayout_eq] at hvl
  obtain ⟨db', hrecord, hversion, hothers, hindexes⟩ := recordVersion_eq hmadev (by rw [hvl]; rfl) currentVersion
  refine ⟨db', ?_, ?_⟩
  · unfold install
    rw [hmade]
    exact hrecord
  · refine ⟨fun name t hn ht => ?_, fun l hl hne hnone => ?_, fun name hname hnone => ?_,
      hversion.trans (congrArg some (Table.ext hvl rfl)), ?_⟩
    · rw [hothers name hn, table?_withCurrent hmade ht]
    · have hnames : ∀ l ∈ Layout.current, (l ≠ .schemaVersion → l.name ≠ "schema_version") ∧
          Layout.current.find? (·.name = l.name) = some l := by decide
      obtain ⟨hn, hfind⟩ := hnames l hl
      rw [hothers _ (hn hne), htable, hnone, Option.none_or, hfind, Option.map_some]
    · have hfind : Layout.current.find? (·.name = name) = none :=
        List.find?_eq_none.mpr fun l hl => by simpa using hname l hl
      have hn : name ≠ "schema_version" := fun hn => hname .schemaVersion (by decide) hn.symm
      rw [hothers name hn, htable, hnone, hfind]
      rfl
    · rw [hindexes, ← hmadeTo, indexes_addIndexes, indexes_foldl_create]

/-- Installing fails with the first index that cannot be taken. -/
theorem install_of_not_takes {before after : List Index} {i : Index} (hcurrent : Index.current = before ++ i :: after)
    (hbefore : ∀ x ∈ before, db.Takes x) (h : ¬db.Takes i) : db.install = .error (.noColumn i.column) := by
  unfold install
  rw [withCurrent_of_not_takes hcurrent hbefore h]
  rfl

end

end Database

namespace Migration

variable {c : Connection}

/-- A turn that detects no version installs what is missing. -/
theorem turn_of_installed {db : Database} (hlock : c.locked = false) (hdetect : detect c.database = .ok 0)
    (hinstall : c.database.install = .ok db) : (turn c).answer = .ok .finished ∧ (turn c).connection = c.on db := by
  unfold turn
  rw [hlock, if_neg Bool.false_ne_true]
  simp only [hdetect]
  rw [if_neg (by decide), if_pos trivial, hinstall]
  exact ⟨rfl, rfl⟩

/-- A turn that detects no version and cannot install what is missing leaves the connection. -/
theorem turn_of_not_installed {f : Fault} (hlock : c.locked = false) (hdetect : detect c.database = .ok 0)
    (hinstall : c.database.install = .error f) :
    (turn c).answer = .error (.migration 0 (.ofFault f)) ∧ (turn c).connection = c := by
  unfold turn
  rw [hlock, if_neg Bool.false_ne_true]
  simp only [hdetect]
  rw [if_neg (by decide), if_pos trivial, hinstall]
  exact ⟨rfl, rfl⟩

end Migration

/-- A migration where no version is detected installs what is missing, or fails and leaves the database. -/
theorem Connection.migrate_of_zero {c : Connection} (hlock : c.locked = false) (hdetect : Migration.detect c.database = .ok 0) :
    (∀ db, c.database.install = .ok db →
      c.migrate.answer = .ok () ∧ c.migrate.connection = { c with database := db, enforcing := true }) ∧
    ∀ f, c.database.install = .error f →
      c.migrate.answer = .error (.migration 0 (.ofFault f)) ∧ c.migrate.connection = { c with enforcing := true } := by
  refine ⟨fun db hinstall => ?_, fun f hinstall => ?_⟩
  · obtain ⟨hanswer, hconnection⟩ := Migration.turn_of_installed (c := { c with enforcing := false }) hlock hdetect hinstall
    rw [migrate_of_not_again (by rw [hanswer]; exact fun h => by cases h), hanswer, hconnection]
    exact ⟨rfl, rfl⟩
  · obtain ⟨hanswer, hconnection⟩ := Migration.turn_of_not_installed (c := { c with enforcing := false }) hlock hdetect hinstall
    rw [migrate_of_not_again (by rw [hanswer]; exact fun h => by cases h), hanswer, hconnection]
    exact ⟨rfl, rfl⟩

/-- Migrating a database that may have any tables, of any columns and rows, in which no version is recorded and whose jobs have
no column `commit_sha`, on a connection that finds the lock free. In four parts:
1. It succeeds if and only if every current index can be taken: there is one of its name, or its table is missing or has its
   column.
2. Where no other indexes have the names of the current ones, that is to say that jobs, if there are any, have the columns
   `status`, `repo_id` and `git_ref`, and commits, if there are any, the column `sha`. All current indexes are there afterwards.
3. If it succeeds, every table but the one of versions is the one that it was, the tables that were missing are there and empty,
   there is no other table, the current version alone is recorded, and each current index is there by its name.
4. If it fails, the database is as it was, and the error is that of the first index that cannot be taken. -/
theorem migrate_partial (db : Database) (hversion : db.HasNoVersion) (hnew : Migration.isOld db = false) (enforcing : Bool) :
    let o := (Connection.mk db enforcing false).migrate
    (o.answer = .ok () ↔ ∀ i ∈ Index.current, db.Takes i) ∧
    (db.IndexesFitCurrent →
      (o.answer = .ok () ↔
        (∀ t, db.table? "review_jobs" = some t →
          ∀ name ∈ ["status", "repo_id", "git_ref"], (t.layout.column? name).isSome) ∧
        ∀ t, db.table? "commits" = some t → (t.layout.column? "sha").isSome) ∧
      (o.answer = .ok () → ∀ i ∈ Index.current, i ∈ o.connection.database.indexes)) ∧
    (o.answer = .ok () → db.InstalledOver o.connection.database ∧
      ∀ i ∈ Index.current, ∃ x ∈ o.connection.database.indexes, x.name = i.name) ∧
    (o.answer ≠ .ok () → o.connection = ⟨db, true, false⟩ ∧ ∃ before i after, Index.current = before ++ i :: after ∧
      (∀ x ∈ before, db.Takes x) ∧ ¬db.Takes i ∧ o.answer = .error (.migration 0 (.fault (.noColumn i.column)))) := by
  intro o
  have hdetect : Migration.detect db = .ok 0 := (Migration.detect_of_not_isOld hnew).trans hversion.recordedVersion
  obtain ⟨hok, herror⟩ := Connection.migrate_of_zero (c := ⟨db, enforcing, false⟩) rfl hdetect
  have hinstalled : (∀ i ∈ Index.current, db.Takes i) → o.answer = .ok () ∧ db.InstalledOver o.connection.database := by
    intro htakes
    obtain ⟨db', hinstall, hover⟩ := Database.install_of_takes hversion htakes
    obtain ⟨hanswer, hconnection⟩ := hok db' hinstall
    exact ⟨hanswer, by rw [show o.connection.database = db' from congrArg Connection.database hconnection]; exact hover⟩
  have hrefused : (¬∀ i ∈ Index.current, db.Takes i) → o.connection = ⟨db, true, false⟩ ∧
      ∃ before i after, Index.current = before ++ i :: after ∧ (∀ x ∈ before, db.Takes x) ∧ ¬db.Takes i ∧
        o.answer = .error (.migration 0 (.fault (.noColumn i.column))) := by
    intro hnot
    obtain ⟨before, i, after, hcurrent, hbefore, hi⟩ := Database.exists_first_not_takes hnot
    obtain ⟨hanswer, hconnection⟩ := herror _ (Database.install_of_not_takes hcurrent hbefore hi)
    exact ⟨hconnection, before, i, after, hcurrent, hbefore, hi, hanswer⟩
  have hiff : o.answer = .ok () ↔ ∀ i ∈ Index.current, db.Takes i := by
    refine ⟨fun hanswer => ?_, fun htakes => (hinstalled htakes).1⟩
    by_contra hnot
    obtain ⟨-, before, i, after, -, -, -, herrors⟩ := hrefused hnot
    cases hanswer.symm.trans herrors
  refine ⟨hiff, fun hfit => ⟨?_, fun hanswer i => (hinstalled (hiff.mp hanswer)).2.index_mem hfit⟩, fun hanswer => ?_,
    fun hanswer => hrefused (mt hiff.mpr hanswer)⟩
  · have hcolumns : (∀ i ∈ Index.current, db.Takes i) ↔
        ∀ i ∈ Index.current, ∀ t, db.table? i.table = some t → (t.layout.column? i.column).isSome :=
      forall₂_congr fun i hi => Database.takes_iff hfit hi
    rw [hiff, hcolumns]
    simp only [Index.current, List.forall_mem_cons, List.not_mem_nil, false_implies, implies_true, and_true]
    constructor
    · rintro ⟨hstatus, hrepo, href, hsha⟩
      exact ⟨fun t ht => ⟨hstatus t ht, hrepo t ht, href t ht⟩, hsha⟩
    · rintro ⟨hjobs, hsha⟩
      exact ⟨fun t ht => (hjobs t ht).1, fun t ht => (hjobs t ht).2.1, fun t ht => (hjobs t ht).2.2, hsha⟩
  · obtain ⟨-, hover⟩ := hinstalled (hiff.mp hanswer)
    exact ⟨hover, fun i => hover.index_name⟩

/-- Jobs of the given columns, with one row, beside a table of versions without a row. -/
def Database.fewColumns (columns : List Column) : Database where
  tables := [.empty .schemaVersion, ⟨{ name := "review_jobs", columns, spelled := Layout.jobs_isLower },
    [⟨7, (columns.filter (!·.isKey)).map fun c => (c.name, .blob [0xFF])⟩], List.pairwise_singleton ..,
    List.forall_mem_singleton.mpr (by simp [Row.Shaped, Layout.cellNames, Function.comp_def])⟩]
  indexes := []

/-- Over jobs that have the three columns, and another, the store is installed and their one row is kept. Over jobs that have only
one of them the second index fails, and nothing is made. -/
theorem migrate_partial_fewColumns :
    let enough := Database.fewColumns [.text "git_ref", .text "Repo_ID", .text "status", .textUnique "sha"]
    let few := Database.fewColumns [.text "status"]
    let o := (Connection.mk enough true false).migrate
    enough.HasNoVersion ∧ Migration.isOld enough = false ∧ few.HasNoVersion ∧ Migration.isOld few = false ∧ o.answer = .ok () ∧
    (o.connection.database.rows "review_jobs").map (·.id) = [7] ∧
    (∀ l ∈ [Layout.repos, .commits, .reviews, .responses], o.connection.database.table? l.name = some (.empty l)) ∧
    (Connection.mk few true false).migrate.answer = .error (.migration 0 (.fault (.noColumn "repo_id"))) ∧
    (Connection.mk few true false).migrate.connection.database = few := by
  intro enough few o
  have hversion : ∀ columns, (Database.fewColumns columns).HasNoVersion := by
    intro columns v hv
    cases hv
    rfl
  have hfit : ∀ columns, (Database.fewColumns columns).IndexesFitCurrent := fun columns x hx => by cases hx
  have hold : Migration.isOld enough = false ∧ Migration.isOld few = false := by decide
  obtain ⟨-, hiff, hinstalled, -⟩ := migrate_partial enough (hversion _) hold.1 true
  have hok : o.answer = .ok () := by
    refine (hiff (hfit _)).1.mpr ⟨fun t ht => ?_, fun t ht => by cases ht⟩
    cases ht
    decide
  obtain ⟨⟨hkept, hmade, -⟩, -⟩ := hinstalled hok
  refine ⟨hversion _, hold.1, hversion _, hold.2, hok, ?_, fun l hl => ?_, ?_⟩
  · rw [Database.rows_of_table? (hkept "review_jobs" _ (by decide) rfl)]
    rfl
  · have hmissing : ∀ l ∈ [Layout.repos, .commits, .reviews, .responses], l ∈ Layout.current ∧ l ≠ .schemaVersion ∧
        enough.table? l.name = none := by decide
    obtain ⟨hcurrent, hne, hnone⟩ := hmissing l hl
    exact hmade l hcurrent hne hnone
  · obtain ⟨-, -, -, hrefused⟩ := migrate_partial few (hversion _) hold.2 true
    have herror : (Connection.mk few true false).migrate.answer = .error (.migration 0 (.fault (.noColumn "repo_id"))) := by
      decide +kernel
    have hleft := (hrefused (by rw [herror]; exact fun h => by cases h)).1
    exact ⟨herror, congrArg Connection.database hleft⟩

end ReviewQueue
