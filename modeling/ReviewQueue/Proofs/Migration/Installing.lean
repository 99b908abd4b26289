import ReviewQueue.Proofs.Queue.Statements
import ReviewQueue.Proofs.Store.Layouts
import ReviewQueue.Store.Migration

/-!
# Installing the current layout

Making the tables and indexes that are missing keeps those that are there, and fails only where a table from before has not the
column of an index. Recording a version keeps every table but the one of versions. A database that holds the current tables and
the current version needs no turn but the last.
-/

namespace ReviewQueue

/-- Whether the columns of a table are those of the table of versions. Its name may be spelled in any way. -/
def Layout.IsVersions (l : Layout) : Prop := l.columns = Layout.schemaVersion.columns

/-- Versions refer to nothing. -/
theorem Layout.IsVersions.sparesTable {l : Layout} (h : l.IsVersions) (name : String) : l.sparesTable name := by
  unfold Layout.sparesTable
  rw [h]
  simp [Layout.schemaVersion, Column.key, Column.parentName]

namespace Database

/-- The current indexes have different names. -/
theorem pairwise_names_current : Index.current.Pairwise (·.name ≠ ·.name) := by decide

/-- Whether an index is there by its name, or can be made: its table is missing, and would be made, or has the column. -/
def Takes (db : Database) (i : Index) : Prop :=
  (∃ x ∈ db.indexes, x.name = i.name) ∨ ∀ t, db.table? i.table = some t → (t.layout.column? i.column).isSome

section

variable {db db' : Database} {i : Index}

/-- Once the current tables are there, what stands in the way of a current index is only that a table from before has not the
column. -/
theorem indexFault?_of_created (db : Database) (hi : i ∈ Index.current) :
    (db.Takes i → (Layout.current.foldl create db).indexFault? i = none) ∧
    (¬db.Takes i → (Layout.current.foldl create db).indexFault? i = some (.noColumn i.column)) := by
  have hlayouts : ∀ i ∈ Index.current, ∃ l, Layout.current.find? (·.name = i.table) = some l ∧
      (l.column? i.column).isSome := by decide
  obtain ⟨l, hl, hlcolumn⟩ := hlayouts i hi
  have htable := table?_foldl_create Layout.current db i.table
  rw [hl, Option.map_some] at htable
  have hany : db.indexes.any (·.name = i.name) = true ↔ ∃ x ∈ db.indexes, x.name = i.name := by simp
  unfold indexFault?
  rw [indexes_foldl_create, htable]
  by_cases hname : db.indexes.any (·.name = i.name) = true
  · exact ⟨fun _ => if_pos hname, fun h => (h (Or.inl (hany.mp hname))).elim⟩
  · rw [if_neg hname]
    cases ht : db.table? i.table with
    | none =>
      refine ⟨fun _ => if_pos hlcolumn, fun h => (h (Or.inr fun t hu => ?_)).elim⟩
      cases ht.symm.trans hu
    | some t =>
      have htakes : db.Takes i ↔ (t.layout.column? i.column).isSome := by
        refine ⟨fun h => ?_, fun hcolumn => Or.inr fun u hu => by cases ht.symm.trans hu; exact hcolumn⟩
        exact h.elim (fun hthere => absurd (hany.mpr hthere) hname) (· t ht)
      exact ⟨fun h => if_pos (htakes.mp h), fun h => if_neg (mt htakes.mpr h)⟩

/-- What is missing is made if every index can be taken. -/
theorem withCurrent_of_takes (h : ∀ i ∈ Index.current, db.Takes i) :
    db.withCurrent = .ok ((Layout.current.foldl create db).addIndexes Index.current) := by
  have hnone : Index.current.findSome? (Layout.current.foldl create db).indexFault? = none :=
    List.findSome?_eq_none_iff.mpr fun i hi => (db.indexFault?_of_created hi).1 (h i hi)
  unfold withCurrent
  rw [foldlM_createIndex_eq pairwise_names_current fun _ _ => rfl, hnone]

/-- What is missing was made if that succeeded. -/
theorem eq_of_withCurrent (h : db.withCurrent = .ok db') : db' = (Layout.current.foldl create db).addIndexes Index.current := by
  unfold withCurrent at h
  rw [foldlM_createIndex_eq pairwise_names_current fun _ _ => rfl] at h
  split at h
  · exact (Except.ok.inj h).symm
  · cases h

end

/-- Whether those of the current tables that are there have their layouts. -/
def FitsCurrent (db : Database) : Prop := ∀ l ∈ Layout.current, ∀ t, db.table? l.name = some t → t.layout = l

/-- The tables that are missing are made, empty, and the indexes too, unless others have their names. -/
theorem withCurrent_eq {db : Database} (h : db.FitsCurrent)
    (hindexes : ∀ x ∈ db.indexes, ∀ i ∈ Index.current, x.name = i.name → x = i) :
    ∃ db', db.withCurrent = .ok db' ∧ db'.IsCurrent ∧
      (∀ name, db'.table? name = (db.table? name).or ((Layout.current.find? (·.name = name)).map .empty)) ∧
      ∀ i ∈ Index.current, i ∈ db'.indexes := by
  have htakes : ∀ i ∈ Index.current, db.Takes i := by
    have hlayout : ∀ i ∈ Index.current, ∃ l ∈ Layout.current, l.name = i.table ∧ (l.column? i.column).isSome := by decide
    intro i hi
    obtain ⟨l, hl, hname, hcolumn⟩ := hlayout i hi
    refine Or.inr fun t ht => ?_
    rw [h l hl t (hname ▸ ht)]
    exact hcolumn
  have htable := table?_foldl_create Layout.current db
  refine ⟨_, withCurrent_of_takes htakes, fun l hl => ?_, htable, fun i hi => mem_addIndexes hi fun x hx => ?_⟩
  · rw [table?_addIndexes, htable]
    cases ht : db.table? l.name with
    | some t => exact ⟨t, rfl, h l hl t ht⟩
    | none =>
      have hfind : ∀ l ∈ Layout.current, Layout.current.find? (·.name = l.name) = some l := by decide
      exact ⟨.empty l, by rw [hfind l hl]; rfl, rfl⟩
  · rw [indexes_foldl_create] at hx
    exact hindexes x hx i hi

/-- Where nothing is missing, nothing is made. -/
theorem withCurrent_eq_self {db : Database} (htables : ∀ l ∈ Layout.current, (db.table? l.name).isSome)
    (hindexes : ∀ i ∈ Index.current, ∃ x ∈ db.indexes, x.name = i.name) : db.withCurrent = .ok db := by
  have hcreate : ∀ ls : List Layout, (∀ l ∈ ls, (db.table? l.name).isSome) → ls.foldl create db = db := by
    intro ls hls
    induction ls with
    | nil => rfl
    | cons l ls ih =>
      obtain ⟨hl, hls⟩ := List.forall_mem_cons.mp hls
      rw [List.foldl_cons, show db.create l = db from if_pos hl]
      exact ih hls
  have hadd : db.addIndexes Index.current = db := by
    have hnone : (Index.current.filter fun i => !db.indexes.any (·.name = i.name)) = [] :=
      List.filter_eq_nil_iff.mpr fun i hi => by simpa using hindexes i hi
    unfold addIndexes
    rw [hnone, List.append_nil]
  rw [withCurrent_of_takes fun i hi => Or.inl (hindexes i hi), hcreate _ htables, hadd]

/-! ## The version -/

/-- A table of versions with one version alone. -/
def versionsIn (l : Layout) (hl : l.IsVersions) (version : Int) : Table :=
  ⟨l, [⟨version, []⟩], List.pairwise_singleton .., fun r hr => by
    rw [List.mem_singleton.mp hr, Row.Shaped, Layout.cellNames, hl]
    rfl⟩

/-- The table of versions, as it is installed, with one version alone. -/
def versions (version : Int) : Table := versionsIn .schemaVersion rfl version

section

variable {db : Database} {v : Table}

/-- The table of versions is found where it was when it has one version alone. -/
theorem table?_put_versionsIn (hv : db.table? "schema_version" = some v) (hl : v.layout.IsVersions) (version : Int) :
    (db.put (versionsIn v.layout hl version)).table? "schema_version" = some (versionsIn v.layout hl version) := by
  have hname : (versionsIn v.layout hl version).name = "schema_version" := name_of_table? (t := v) hv
  rw [← hname]
  exact table?_put_self (u := v) (by rw [hname]; exact hv)

/-- It is found there when it is empty. -/
theorem table?_put_empty (hv : db.table? "schema_version" = some v) :
    (db.put (.empty v.layout)).table? "schema_version" = some (.empty v.layout) := by
  have hname : v.layout.name = "schema_version" := name_of_table? hv
  rw [← hname]
  exact table?_put_self (t := .empty v.layout) (u := v) (by rw [← hname] at hv; exact hv)

/-- A removal without a condition empties the table of versions. -/
theorem run_clearing (hv : db.table? "schema_version" = some v) : (Removal.mk "schema_version" []).run { references := false } db =
    .ok ((v.rows.filter fun r => r.hasAll v.layout []).length, db.put (.empty v.layout)) := by
  have hcleared : v.remove (fun r => r.hasAll v.layout []) = .empty v.layout :=
    Table.ext rfl (List.filter_eq_nil_iff.mpr fun r _ => by simp)
  unfold Removal.run Removal.removeFrom
  rw [need_eq_ok.mpr hv]
  simp only [bind, Except.bind, hcleared, Bool.false_and, Bool.false_eq_true, if_false]

/-- The insertion of a version. -/
def recording (version : Int) : Insertion := { table := "schema_version", cells := [("version", .int version)] }

/-- A table of versions has the column that a version is inserted into. -/
theorem faults_recording (hv : db.table? "schema_version" = some v) (hl : v.layout.IsVersions) (version : Int) :
    (recording version).faults { references := false } db = [] := by
  have hcolumn : v.layout.column? "version" = some (.key "version") := by
    unfold Layout.column?
    rw [hl]
    rfl
  unfold Insertion.faults faultsOn
  simp [recording, hv, hcolumn, Layout.unknown]

/-- A version that is inserted into an empty table of versions is alone in it. -/
theorem recording_adds {l : Layout} (hv : db.table? "schema_version" = some (.empty l)) (hl : l.IsVersions) (version : Int) :
    (recording version).Adds { references := false } db (.empty l) (versionsIn l hl version) version
      (db.put (versionsIn l hl version)) := by
  have hstrict : l.isStrict = true := by
    unfold Layout.isStrict
    rw [hl]
    rfl
  have hrow : (recording version).row l version = ⟨version, []⟩ := by
    unfold Insertion.row
    rw [hl]
    rfl
  have hinsert : (Table.empty l).insert? ((recording version).row l version) ((recording version).row_shaped ..) =
      some (versionsIn l hl version) := by
    unfold Table.insert?
    rw [dif_pos fun x hx => by cases hx]
    exact congrArg some (Table.ext rfl (congrArg (fun r => [r]) hrow))
  refine ⟨hv, ?_, ?_, Insertion.place_of_insert? (t := .empty l) (s := recording version) hstrict hinsert ?_, rfl⟩
  · unfold Insertion.number
    rw [Table.layout_empty, hl]
    simp [recording, Layout.schemaVersion, Column.key, Column.isKey, Layout.cellFor, Column.answersTo]
  · unfold Insertion.cellStop?
    rw [Table.layout_empty, hl]
    rfl
  · exact List.find?_eq_none.mpr fun c _ => by simp

/-- Recording a version leaves it alone in the table of versions, whatever versions that had: all rows are removed, then the one row
is added. -/
theorem recordVersion_eq_put (hv : db.table? "schema_version" = some v) (hl : v.layout.IsVersions) (version : Int) :
    db.recordVersion version = .ok (db.put (versionsIn v.layout hl version)) := by
  have hcleared := table?_put_empty hv
  have hrun := Insertion.run_eq (recording_adds hcleared hl version)
  unfold recordVersion
  simp only [bind, Except.bind, run_clearing hv]
  rw [show Insertion.mk "schema_version" [("version", .int version)] none [] = recording version from rfl,
    faults_recording hcleared hl version, hrun]
  exact congrArg Except.ok (put_put rfl)

/-- Recording a version leaves every name but that of the table of versions what it meant. -/
theorem recordVersion_eq (hv : db.table? "schema_version" = some v) (hl : v.layout.IsVersions) (version : Int) :
    ∃ db', db.recordVersion version = .ok db' ∧ db'.table? "schema_version" = some (versionsIn v.layout hl version) ∧
      (∀ name, name ≠ "schema_version" → db'.table? name = db.table? name) ∧ db'.indexes = db.indexes := by
  have hname : (versionsIn v.layout hl version).name = "schema_version" := name_of_table? (t := v) hv
  exact ⟨_, recordVersion_eq_put hv hl version, table?_put_versionsIn hv hl version,
    fun name hn => table?_put_of_ne (by rw [hname]; exact hn), rfl⟩

/-- Installing again where what was missing was made and the current version recorded does nothing. -/
theorem install_of_recorded {made : Database} (h : db.withCurrent = .ok made) (hv : made.table? "schema_version" = some v)
    (hl : v.layout.IsVersions) :
    (made.put (versionsIn v.layout hl currentVersion)).install = .ok (made.put (versionsIn v.layout hl currentVersion)) := by
  have hself := table?_put_versionsIn hv hl currentVersion
  have hfind : ∀ l ∈ Layout.current, Layout.current.find? (·.name = l.name) = some l := by decide
  have hnothing : (made.put (versionsIn v.layout hl currentVersion)).withCurrent =
      .ok (made.put (versionsIn v.layout hl currentVersion)) := by
    refine withCurrent_eq_self (fun l hl' => ?_) fun i hi => ?_
    · rw [table?_put, Option.isSome_map, eq_of_withCurrent h, table?_addIndexes, table?_foldl_create, hfind l hl']
      simp
    · have hthere : ∃ x ∈ (db.addIndexes Index.current).indexes, x.name = i.name := by
        rw [indexes_addIndexes]
        by_cases hname : ∃ x ∈ db.indexes, x.name = i.name
        · obtain ⟨x, hx, hsame⟩ := hname
          exact ⟨x, List.mem_append_left _ hx, hsame⟩
        · exact ⟨i, List.mem_append_right _ (List.mem_filter.mpr ⟨hi, by simpa using hname⟩), rfl⟩
      show ∃ x ∈ made.indexes, x.name = i.name
      rw [eq_of_withCurrent h, indexes_addIndexes, indexes_foldl_create]
      exact hthere
  unfold install
  rw [hnothing]
  exact (recordVersion_eq_put hself hl currentVersion).trans (congrArg Except.ok (put_put rfl))

/-- The one version in a table of versions is the one that is recorded, if the table is listed under its name. -/
theorem recordedVersion_eq_of_spelling {l : Layout} {hl : l.IsVersions} {version : Int}
    (h : db.table? "schema_version" = some (versionsIn l hl version)) (hs : l.spelling = "schema_version") :
    db.recordedVersion = .ok version := by
  have hlisted : db.listed? "schema_version" = some (versionsIn l hl version) := by
    unfold listed?
    rw [h]
    exact if_pos (decide_eq_true hs)
  have hcolumn : l.column? "version" = some (.key "version") := by
    unfold Layout.column?
    rw [hl]
    rfl
  have hcells : (versionsIn l hl version).cells (.key "version") = [.int version] := rfl
  unfold recordedVersion
  simp only [hlisted, show (versionsIn l hl version).layout = l from rfl, hcolumn]
  unfold greatestVersion
  rw [hcells]
  simp [Cell.le, Cell.rank]

/-- No version is recorded in a table of versions whose name has another spelling. -/
theorem recordedVersion_eq_zero (hv : db.table? "schema_version" = some v) (hs : v.layout.spelling ≠ "schema_version") :
    db.recordedVersion = .ok 0 := by
  have hlisted : db.listed? "schema_version" = none := by
    unfold listed?
    rw [hv]
    exact if_neg fun h => hs (of_decide_eq_true h)
  unfold recordedVersion
  rw [hlisted]

theorem recordedVersion_eq {version : Int} (h : db.table? "schema_version" = some (versions version)) :
    db.recordedVersion = .ok version := recordedVersion_eq_of_spelling h rfl

end

end Database

/-- A turn finds nothing left to do where jobs are in the current layout and the current version is recorded. -/
theorem Migration.turn_eq_finished {c : Connection} {t : Table} (hlock : c.locked = false)
    (ht : c.database.table? "review_jobs" = some t) (hl : t.layout = .jobs)
    (hv : c.database.table? "schema_version" = some (Database.versions currentVersion)) : turn c = ⟨.ok .finished, c, []⟩ := by
  have hold : isOld c.database = false := by
    unfold isOld
    rw [ht, Option.any_some, hl]
    decide
  unfold turn detect
  rw [hlock, hold]
  simp only [Bool.false_eq_true, if_false, Database.recordedVersion_eq hv, Int.le_refl, if_true]

/-- An empty database comes to be the current one, in which no row is but that of the version. -/
theorem Connection.migrate_empty (enforcing : Bool) : (Connection.mk .empty enforcing false).migrate.answer = .ok () ∧
    (Connection.mk .empty enforcing false).migrate.connection = ⟨.current, true, false⟩ := by
  decide +revert

end ReviewQueue
