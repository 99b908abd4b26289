import ReviewQueue.Proofs.Migration.Installing
import ReviewQueue.Proofs.Migration.Renewal

/-!
# Bringing old databases forward

A database from before versions were recorded is brought to the current version if the status of each job is one of the
four words, and is left as it was otherwise. Its jobs are written anew and nothing else is lost: the numbers of jobs
stay, so each review refers to a job afterwards exactly if it did before.
-/

namespace ReviewQueue

/-- The tables that were there beside that of jobs before versions were recorded. -/
def Layout.besideJobs : List Layout := [repos, commits, reviews, responses]

/-- A database from before versions were recorded, in which `t` is the table of jobs. Other tables may be missing, those
that are there have their layouts, and so have the indexes. A table left behind under the scratch name may be
anything. -/
structure Database.IsLegacy (db : Database) (t : Table) : Prop where
  jobs : db.table? "review_jobs" = some t
  layout : t.layout = .oldJobs
  fits : t.Fits
  others : ∀ l ∈ Layout.schemaVersion :: Layout.besideJobs, ∀ u, db.table? l.name = some u → u.layout = l
  indexes : ∀ x ∈ db.indexes, x.table ≠ "review_jobs" → x.table ≠ Migration.scratch →
    ∀ i ∈ Index.current, x.name = i.name → x = i

/-- An old database was brought forward: its jobs are the old ones under the current layout, the other tables are those
that were there or empty, and the current version alone is recorded. -/
structure Database.BroughtForward (db : Database) (t : Table) (db' : Database) : Prop where
  jobs : ∃ u, db'.table? "review_jobs" = some u ∧ u.layout = .jobs ∧ u.Fits ∧ u.rows = t.rows.map (·.withGitRef)
  /-- Each job shows the cells it had, that of the reference under its current name. -/
  cells : ∀ r ∈ t.rows, ∃ r' ∈ db'.rows "review_jobs", r'.id = r.id ∧
    ∀ c ∈ Layout.jobs.columns, c.isKey = false → r'.cell c.name = r.cell (Migration.oldName c.name)
  kept : ∀ l ∈ Layout.besideJobs, ∀ u, db.table? l.name = some u → db'.table? l.name = some u
  made : ∀ l ∈ Layout.besideJobs, db.table? l.name = none → db'.table? l.name = some (.empty l)
  version : db'.table? "schema_version" = some (Database.versions 2)
  scratch : db'.table? Migration.scratch = none
  indexes : ∀ i ∈ Index.current, i ∈ db'.indexes

namespace Database

/-- The old jobs fit their layout. -/
theorem IsLegacy.row_fits {db : Database} {t : Table} (h : db.IsLegacy t) : ∀ r ∈ t.rows, r.Fits .oldJobs := by
  intro r hr
  rw [← h.layout]
  exact h.fits r hr

/-- The table of versions has its layout, whether it was there or is made. -/
theorem IsLegacy.versions_layout {db : Database} {t v : Table} (h : db.IsLegacy t)
    (hv : (db.table? "schema_version").or (some (.empty .schemaVersion)) = some v) : v.layout = .schemaVersion := by
  cases hold : db.table? "schema_version" with
  | none =>
    rw [hold] at hv
    cases hv
    rfl
  | some w =>
    rw [hold] at hv
    cases hv
    exact h.others .schemaVersion (by simp) _ hold

/-! ## Reviews of no job -/

/-- Cells refer to the rows of a table as long as the numbers of its rows stay. -/
theorem refers_congr {db db' : Database} {parent : String} {t t' : Table} (ht : db.table? parent = some t)
    (ht' : db'.table? parent = some t') (hids : t'.rows.map (·.id) = t.rows.map (·.id)) (cell : Cell) :
    db'.refers parent cell = db.refers parent cell := by
  have hrow : ∀ id, (t'.row? id).isSome = (t.row? id).isSome := by
    intro id
    rw [Bool.eq_iff_iff, Table.isSome_row?_iff, Table.isSome_row?_iff, hids]
  unfold refers
  rw [ht, ht']
  cases cell.asKind .key with
  | int id => exact hrow id
  | _ => rfl

/-- The violations of a table that is there, if the tables that it refers to have keys. -/
theorem violations_eq {db : Database} {name : String} {t : Table} (ht : db.table? name = some t) (hname : t.layout.spelling = name)
    (hkeys : ∀ x ∈ t.layout.references, ∀ p, db.table? x.2 = some p → p.layout.hasKey = true) :
    db.violations name = .ok (t.rows.flatMap fun r => (t.layout.references.filter fun (c, parent) =>
      !db.refers parent (r.get c)).map fun (c, _) => ⟨name, r.id, c.parentShown⟩) := by
  have hnone : t.layout.references.find? (fun (_, parent) => (db.table? parent).any (!·.layout.hasKey)) = none := by
    refine List.find?_eq_none.mpr fun x hx => ?_
    cases hp : db.table? x.2 with
    | none => simp [hp]
    | some p => simp [hp, hkeys x hx p hp]
  have hlisted : db.listed? name = some t := by
    unfold listed?
    rw [ht]
    exact if_pos (decide_eq_true hname)
  unfold violations
  simp only [hlisted, hnone]

/-- The reviews of no job are the same where the numbers of jobs are. -/
theorem violations_reviews {db : Database} {t : Table} (hjobs : db.table? "review_jobs" = some t)
    (hkey : t.layout.hasKey = true) (hreviews : ∀ u, db.table? "reviews" = some u → u.layout = .reviews) :
    ∃ before, db.violations "reviews" = .ok before ∧ ∀ (db' : Database) (t' : Table),
      db'.table? "review_jobs" = some t' → t'.layout.hasKey = true → t'.rows.map (·.id) = t.rows.map (·.id) →
      db'.table? "reviews" = (db.table? "reviews").or (some (.empty .reviews)) → db'.violations "reviews" = .ok before := by
  have hrefs : ∀ x ∈ Layout.reviews.references, x.2 = "review_jobs" := by decide
  cases hu : db.table? "reviews" with
  | none =>
    refine ⟨[], by unfold violations listed?; rw [hu]; rfl, fun db' t' ht' hkey' _ hreviews' => ?_⟩
    rw [Option.none_or] at hreviews'
    refine (violations_eq hreviews' rfl fun x hx p hp => ?_).trans rfl
    rw [hrefs x hx, ht'] at hp
    cases hp
    exact hkey'
  | some u =>
    have hl := hreviews u hu
    refine ⟨_, violations_eq hu (by rw [hl]; rfl) fun x hx p hp => ?_, ?_⟩
    · rw [hl] at hx
      rw [hrefs x hx, hjobs] at hp
      cases hp
      exact hkey
    · intro db' t' ht' hkey' hids hreviews'
      rw [Option.some_or] at hreviews'
      refine (violations_eq hreviews' (by rw [hl]; rfl) fun x hx p hp => ?_).trans ?_
      · rw [hl] at hx
        rw [hrefs x hx, ht'] at hp
        cases hp
        exact hkey'
      · congr 2
        funext r
        congr 1
        refine List.filter_congr fun (c, parent) hx => ?_
        rw [hl] at hx
        have hparent : parent = "review_jobs" := hrefs (c, parent) hx
        simp only [hparent, refers_congr hjobs ht' hids]

end Database

namespace Migration

variable {db : Database} {t : Table}

/-! ## Writing jobs anew -/

/-- The database with the table in which jobs are written anew, and the table of versions. -/
def prepared (db : Database) : Database := ((db.create .schemaVersion).drop scratch).create (.jobsNamed scratch scratch_isLower)

/-- The tables while jobs are renewed: the scratch table is new, and there is a table of versions. -/
theorem table?_prepared (db : Database) (name : String) : (prepared db).table? name =
    if name = scratch then some (.empty (.jobsNamed scratch))
    else (db.table? name).or (if name = "schema_version" then some (.empty .schemaVersion) else none) := by
  unfold prepared
  rw [Database.table?_create, Database.table?_drop, Database.table?_create]
  by_cases hn : name = scratch
  · subst hn
    rw [if_pos rfl, if_pos rfl, Option.none_or]
    rfl
  · have hne : (Layout.jobsNamed scratch).name ≠ name := fun h => hn h.symm
    rw [if_neg hn, if_neg hn, if_neg hne, Option.or_none]
    simp only [show Layout.schemaVersion.name = "schema_version" from rfl, eq_comm]

/-- Indexes of an earlier scratch table are gone. -/
theorem indexes_prepared (db : Database) : (prepared db).indexes = db.indexes.filter (·.table ≠ scratch) := by
  unfold prepared
  rw [Database.indexes_create]
  show (db.create .schemaVersion).indexes.filter _ = _
  rw [Database.indexes_create]

/-- The old jobs are found in the order of their numbers. -/
theorem run_oldJobs (h : db.IsLegacy t) :
    (Query.mk "review_jobs" oldColumns []).run (prepared db) = .ok (t.rows.map recordOf) := by
  have ht : (prepared db).table? "review_jobs" = some t := by
    rw [table?_prepared, if_neg (by decide), h.jobs, Option.some_or]
  have hknown : oldColumns.filterMap (fun name => if (Layout.oldJobs.column? name).isSome then none else
      some (Fault.noColumn name)) = [] := by decide
  have hall : t.rows.filter (fun r => r.hasAll t.layout []) = t.rows :=
    List.filter_eq_self.mpr fun r _ => Row.hasAll_nil r t.layout
  unfold Query.run Query.faults Database.faultsOn
  simp only [ht, h.layout, hknown, List.map_nil, Layout.unknown, List.filterMap_nil, List.append_nil,
    Database.need_eq_ok.mpr ht, bind, Except.bind]
  rw [h.layout] at hall
  rw [hall]
  rfl

/-- The database with the new jobs in place of the old ones. -/
def swapped (db : Database) : Database := (db.drop "review_jobs").rename scratch "review_jobs" Layout.jobs_isLower

/-- The new jobs have the name of the old ones, under the current layout. -/
theorem table?_swapped_jobs {u : Table} (hu : db.table? scratch = some u) (hl : u.layout = .jobsNamed scratch) :
    ∃ v, (swapped db).table? "review_jobs" = some v ∧ v.layout = .jobs ∧ v.rows = u.rows := by
  have hdropped : (db.drop "review_jobs").table? "review_jobs" = none := by rw [Database.table?_drop, if_pos rfl]
  unfold swapped
  rw [Database.table?_rename_target _ hdropped, Database.table?_drop, if_neg (by decide), hu, Option.map_some]
  refine ⟨_, rfl, ?_, rfl⟩
  rw [Table.layout_withLayout, hl]
  decide

/-- Other names mean what they meant, if no reference follows. -/
theorem table?_swapped {name : String} (hscratch : name ≠ scratch) (hjobs : name ≠ "review_jobs")
    (hspares : ∀ v, db.table? name = some v → v.layout.sparesTable scratch) : (swapped db).table? name = db.table? name := by
  have hdropped : (db.drop "review_jobs").table? name = db.table? name := by rw [Database.table?_drop, if_neg hjobs]
  unfold swapped
  rw [Database.table?_rename_of_ne _ hscratch hjobs (by rw [hdropped]; exact hspares), hdropped]

/-- An index is left if it is neither of the old jobs nor of the new ones. -/
theorem mem_indexes_swapped {x : Index} (hscratch : ∀ i ∈ db.indexes, i.table ≠ scratch) (hx : x ∈ (swapped db).indexes) :
    x ∈ db.indexes ∧ x.table ≠ "review_jobs" := by
  obtain ⟨i, hi, rfl⟩ := List.mem_map.mp hx
  obtain ⟨hi, hj⟩ := List.mem_filter.mp hi
  have hj : i.table ≠ "review_jobs" := by simpa using hj
  simp only [if_neg (hscratch i hi)]
  exact ⟨hi, hj⟩

/-- Jobs are renewed one after the other into the scratch table, which then takes the place of the old one. -/
theorem renewJobs_eq (h : db.IsLegacy t) : renewJobs db =
    ((t.rows.map recordOf).foldlM (fun db old => do return (← (renewal old).run guard db).2) (prepared db)).map swapped := by
  unfold renewJobs
  simp only [bind, Except.bind, ← prepared.eq_def, run_oldJobs h]
  cases (t.rows.map recordOf).foldlM (fun db old => do return (← (renewal old).run guard db).2) (prepared db) <;> rfl

/-- Jobs are written anew if the status of each is one of the four words. The scratch table is gone then, the other
names mean what they meant, and no index is left on jobs. -/
theorem renewJobs_eq_ok (h : db.IsLegacy t) (hknown : ∀ r ∈ t.rows, r.HasKnownStatus) : ∃ db' u, renewJobs db = .ok db' ∧
    db'.table? "review_jobs" = some u ∧ u.layout = .jobs ∧ u.rows = t.rows.map (·.withGitRef) ∧ db'.table? scratch = none ∧
    (∀ l ∈ Layout.besideJobs, db'.table? l.name = db.table? l.name) ∧
    db'.table? "schema_version" = (db.table? "schema_version").or (some (.empty .schemaVersion)) ∧
    ∀ x ∈ db'.indexes, x ∈ db.indexes ∧ x.table ≠ "review_jobs" ∧ x.table ≠ scratch := by
  have hscratch : (prepared db).table? scratch = some (.empty (.jobsNamed scratch)) := by rw [table?_prepared, if_pos rfl]
  obtain ⟨last, u, hfold, hu, hul, hrows, hothers, hindexes⟩ :=
    (foldlM_renewal t.rows hscratch rfl h.row_fits t.ascending fun x hx => by cases hx).1 hknown
  have hspares : ∀ l ∈ Layout.schemaVersion :: Layout.besideJobs, l.sparesTable scratch := by
    unfold Layout.sparesTable
    decide
  obtain ⟨v, hv, hvl, hvrows⟩ := table?_swapped_jobs hu hul
  refine ⟨swapped last, v, ?_, hv, hvl, hvrows.trans hrows, ?_, ?_, ?_, ?_⟩
  · rw [renewJobs_eq h, hfold]
    rfl
  · exact Database.table?_rename_source _ (by decide)
  · intro l hl
    have hnames : ∀ l ∈ Layout.besideJobs, l.name ≠ scratch ∧ l.name ≠ "review_jobs" ∧ l.name ≠ "schema_version" := by decide
    obtain ⟨hs, hj, hv⟩ := hnames l hl
    have hsame : last.table? l.name = db.table? l.name := by
      rw [hothers l.name hs, table?_prepared, if_neg hs, if_neg hv, Option.or_none]
    rw [table?_swapped hs hj, hsame]
    intro v hv
    rw [hsame] at hv
    rw [h.others l (List.mem_cons_of_mem _ hl) v hv]
    exact hspares l (List.mem_cons_of_mem _ hl)
  · have hsame : last.table? "schema_version" = (db.table? "schema_version").or (some (.empty .schemaVersion)) := by
      rw [hothers "schema_version" (by decide), table?_prepared, if_neg (by decide), if_pos rfl]
    rw [table?_swapped (by decide) (by decide), hsame]
    intro v hv
    rw [hsame] at hv
    rw [h.versions_layout hv]
    exact hspares .schemaVersion (by simp)
  · have hnone : ∀ i ∈ last.indexes, i ∈ db.indexes ∧ i.table ≠ scratch := by
      intro i hi
      rw [hindexes, indexes_prepared] at hi
      obtain ⟨hi, hs⟩ := List.mem_filter.mp hi
      exact ⟨hi, by simpa using hs⟩
    intro x hx
    obtain ⟨hx, hj⟩ := mem_indexes_swapped (fun i hi => (hnone i hi).2) hx
    exact ⟨(hnone x hx).1, hj, (hnone x hx).2⟩

/-- Jobs are not written anew if the status of one is none of the four words. -/
theorem renewJobs_eq_error (h : db.IsLegacy t) (hunknown : ∃ r ∈ t.rows, ¬r.HasKnownStatus) :
    renewJobs db = .error unknownStatus := by
  have hscratch : (prepared db).table? scratch = some (.empty (.jobsNamed scratch)) := by rw [table?_prepared, if_pos rfl]
  have hfold := (foldlM_renewal t.rows hscratch rfl h.row_fits t.ascending fun x hx => by cases hx).2 hunknown
  rw [renewJobs_eq h, hfold]
  rfl

/-! ## The step and the turns -/

/-- The step from version 1 brings an old database forward but for the version, if the status of each job is one of the
four words. -/
theorem renameReference_eq_ok (h : db.IsLegacy t) (hknown : ∀ r ∈ t.rows, r.HasKnownStatus) :
    ∃ db', (renameReference db).1 = .ok db' ∧
      (∃ u, db'.table? "review_jobs" = some u ∧ u.layout = .jobs ∧ u.rows = t.rows.map (·.withGitRef)) ∧
      (∀ l ∈ Layout.besideJobs, db'.table? l.name = (db.table? l.name).or (some (.empty l))) ∧
      (∃ v, db'.table? "schema_version" = some v ∧ v.layout = .schemaVersion) ∧ db'.table? scratch = none ∧
      ∀ i ∈ Index.current, i ∈ db'.indexes := by
  obtain ⟨renewed, u, hrenewed, hu, hul, hrows, hscratch, hothers, hversions, hindexes⟩ := renewJobs_eq_ok h hknown
  have hmore : ∀ l ∈ Layout.current, l = .jobs ∨ l = .schemaVersion ∨ l ∈ Layout.besideJobs := by decide
  have hfits : renewed.FitsCurrent := by
    intro l hl x hx
    rcases hmore l hl with rfl | rfl | hl
    · cases hu.symm.trans hx
      exact hul
    · exact h.versions_layout (hversions.symm.trans hx)
    · rw [hothers l hl] at hx
      exact h.others l (List.mem_cons_of_mem _ hl) x hx
  obtain ⟨db', hmade, hcurrent, htable, hall⟩ := Database.withCurrent_eq hfits fun x hx i hi hname => by
    obtain ⟨hx, hj, hs⟩ := hindexes x hx
    exact h.indexes x hx hj hs i hi hname
  have hjobs : db'.table? "review_jobs" = some u := by rw [htable, hu, Option.some_or]
  have hbeside : ∀ l ∈ Layout.besideJobs, db'.table? l.name = (db.table? l.name).or (some (.empty l)) := by
    have hfind : ∀ l ∈ Layout.besideJobs, Layout.current.find? (·.name = l.name) = some l := by decide
    intro l hl
    rw [htable, hothers l hl, hfind l hl, Option.map_some]
  have hids : u.rows.map (·.id) = t.rows.map (·.id) := by
    rw [hrows, List.map_map]
    rfl
  obtain ⟨before, hbefore, hafter⟩ := Database.violations_reviews h.jobs (by rw [h.layout]; decide) fun x hx =>
    h.others .reviews (by decide) x hx
  refine ⟨db', ?_, ⟨u, hjobs, hul, hrows⟩, hbeside, hcurrent .schemaVersion (by simp [Layout.current]), ?_, hall⟩
  · have hsame := hafter db' u hjobs (by rw [hul]; decide) hids (hbeside .reviews (by decide))
    have hnone : before.filter (!before.contains ·) = [] := List.filter_eq_nil_iff.mpr fun x hx => by simp [hx]
    unfold renameReference
    simp only [hbefore, hrenewed, Except.bind, hmade, liftFault, bind, hsame, hnone]
  · have hfind : Layout.current.find? (·.name = scratch) = none := by decide
    rw [htable, hscratch, hfind]
    rfl

/-- The step from version 1 fails if the status of a job is none of the four words. -/
theorem renameReference_eq_error (h : db.IsLegacy t) (hunknown : ∃ r ∈ t.rows, ¬r.HasKnownStatus) :
    (renameReference db).1 = .error (.fault unknownStatus) := by
  obtain ⟨before, hbefore, -⟩ := Database.violations_reviews h.jobs (by rw [h.layout]; decide) fun x hx =>
    h.others .reviews (by decide) x hx
  unfold renameReference
  simp only [hbefore, renewJobs_eq_error h hunknown, Except.bind, liftFault, bind]
  rfl

/-- The version of an old database is 1, whatever is recorded. -/
theorem detect_eq (h : db.IsLegacy t) : detect db = .ok 1 := by
  have hold : isOld db = true := by
    unfold isOld
    rw [h.jobs, Option.any_some, h.layout]
    decide
  unfold detect
  rw [if_pos hold]

/-- The step from version 1. -/
theorem find_step : steps.find? (·.source = 1) = some ⟨1, "rename review_jobs.commit_sha to git_ref", renameReference⟩ := rfl

/-- A turn from version 1 whose step succeeds records version 2, and another turn is due. -/
theorem turn_of_ok {stepped db' : Database} (hdetect : detect db = .ok 1) (hstep : (renameReference db).1 = .ok stepped)
    (hrecord : stepped.recordVersion 2 = .ok db') (enforcing : Bool) :
    (turn ⟨db, enforcing, false⟩).answer = .ok .again ∧ (turn ⟨db, enforcing, false⟩).connection = ⟨db', enforcing, false⟩ := by
  unfold turn
  rw [if_neg Bool.false_ne_true]
  simp only [hdetect]
  rw [if_neg (by decide), if_neg (by decide), find_step]
  cases hr : renameReference db with
  | mk result log =>
    rw [hr] at hstep
    cases hstep
    have hrecord : stepped.recordVersion (1 + 1) = .ok db' := hrecord
    simp only [hr, hrecord, true_and]
    rfl

/-- A turn from version 1 whose step fails leaves the database. -/
theorem turn_of_error {e : StoreError} (hdetect : detect db = .ok 1) (hstep : (renameReference db).1 = .error e)
    (enforcing : Bool) : (turn ⟨db, enforcing, false⟩).answer = .error (.migration 1 e) ∧
    (turn ⟨db, enforcing, false⟩).connection = ⟨db, enforcing, false⟩ := by
  unfold turn
  rw [if_neg Bool.false_ne_true]
  simp only [hdetect]
  rw [if_neg (by decide), if_neg (by decide), find_step]
  cases hr : renameReference db with
  | mk result log =>
    rw [hr] at hstep
    cases hstep
    simp only [hr, and_self]

/-- A turn on an old database makes the step from version 1 and records version 2, or fails and leaves the database. -/
theorem turn_eq (h : db.IsLegacy t) (enforcing : Bool) :
    ((∀ r ∈ t.rows, r.HasKnownStatus) → ∃ db', db.BroughtForward t db' ∧
      (turn ⟨db, enforcing, false⟩).answer = .ok .again ∧ (turn ⟨db, enforcing, false⟩).connection = ⟨db', enforcing, false⟩) ∧
    ((∃ r ∈ t.rows, ¬r.HasKnownStatus) →
      (turn ⟨db, enforcing, false⟩).answer = .error (.migration 1 (.fault unknownStatus)) ∧
      (turn ⟨db, enforcing, false⟩).connection = ⟨db, enforcing, false⟩) := by
  constructor
  · intro hknown
    obtain ⟨stepped, hrename, ⟨u, hu, hul, hrows⟩, hbeside, ⟨v, hv, hvl⟩, hscratch, hindexes⟩ := renameReference_eq_ok h hknown
    obtain ⟨db', hrecord, hversion, hothers, hsame⟩ := Database.recordVersion_eq hv (by rw [hvl]; rfl) 2
    have hversion : db'.table? "schema_version" = some (Database.versions 2) :=
      hversion.trans (congrArg some (Table.ext hvl rfl))
    have hnames : ∀ l ∈ Layout.besideJobs, l.name ≠ "schema_version" := by decide
    have hjobs : db'.table? "review_jobs" = some u := by rw [hothers _ (by decide), hu]
    refine ⟨db', ⟨⟨u, hjobs, hul, fun x hx => ?_, hrows⟩, fun r hr => ?_, fun l hl x hx => ?_, fun l hl hx => ?_, hversion,
      by rw [hothers _ (by decide), hscratch], fun i hi => by rw [hsame]; exact hindexes i hi⟩, ?_, ?_⟩
    · rw [hrows] at hx
      obtain ⟨r, hr, rfl⟩ := List.mem_map.mp hx
      rw [hul]
      exact fits_withGitRef (h.row_fits r hr) (hknown r hr)
    · refine ⟨r.withGitRef, ?_, rfl, cell_withGitRef (h.row_fits r hr)⟩
      rw [Database.rows_of_table? hjobs, hrows]
      exact List.mem_map_of_mem hr
    · rw [hothers _ (hnames l hl), hbeside l hl, hx, Option.some_or]
    · rw [hothers _ (hnames l hl), hbeside l hl, hx, Option.none_or]
    · exact (turn_of_ok (detect_eq h) hrename hrecord enforcing).1
    · exact (turn_of_ok (detect_eq h) hrename hrecord enforcing).2
  · exact fun hunknown => turn_of_error (detect_eq h) (renameReference_eq_error h hunknown) enforcing

end Migration

/-- Bringing an old database forward, in three parts, on a connection that finds the lock free.
1. It succeeds if and only if the status of each job is one of the four words.
2. If it succeeds the database is brought forward: no row is lost or changed but for the name of the reference.
3. If it fails the error is that of the status in the step from version 1, and the database is as it was. -/
theorem migrate_legacy (db : Database) (t : Table) (h : db.IsLegacy t) (enforcing : Bool) :
    let o := (Connection.mk db enforcing false).migrate
    (o.answer = .ok () ↔ ∀ r ∈ t.rows, r.HasKnownStatus) ∧
    (o.answer = .ok () → db.BroughtForward t o.connection.database) ∧
    (o.answer ≠ .ok () → o.answer = .error (.migration 1 (.fault Migration.unknownStatus)) ∧ o.connection.database = db) := by
  obtain ⟨hok, herror⟩ := Migration.turn_eq h false
  have hmigrate : (Connection.mk db enforcing false).migrate =
      { Migration.turns 2 ⟨db, false, false⟩ with
        connection := { (Migration.turns 2 ⟨db, false, false⟩).connection with enforcing := true } } := rfl
  by_cases hknown : ∀ r ∈ t.rows, r.HasKnownStatus
  · obtain ⟨db', hforward, hanswer, hconnection⟩ := hok hknown
    obtain ⟨u, hu, hul, -⟩ := hforward.jobs
    have hturns : (Migration.turns 2 ⟨db, false, false⟩).answer = .ok () ∧
        (Migration.turns 2 ⟨db, false, false⟩).connection = ⟨db', false, false⟩ := by
      have hlast := Migration.turn_eq_finished (c := ⟨db', false, false⟩) rfl hu hul hforward.version
      simp only [Migration.turns, Migration.turnsAmid, hanswer, hconnection, hlast, and_self]
    rw [hmigrate]
    simp only [hturns]
    exact ⟨⟨fun _ => hknown, fun _ => trivial⟩, fun _ => hforward, fun hne => (hne rfl).elim⟩
  · obtain ⟨hanswer, hconnection⟩ := herror (by simpa using hknown)
    have hturns : (Migration.turns 2 ⟨db, false, false⟩).answer = .error (.migration 1 (.fault Migration.unknownStatus)) ∧
        (Migration.turns 2 ⟨db, false, false⟩).connection = ⟨db, false, false⟩ := by
      simp only [Migration.turns, Migration.turnsAmid, hanswer, hconnection, and_self]
    rw [hmigrate]
    simp only [hturns]
    exact ⟨⟨fun h => (by cases h), fun h => absurd h hknown⟩, fun h => (by cases h), fun _ => ⟨trivial, trivial⟩⟩

/-- The one job of an old database. -/
def Table.oneOldJob : Table := ⟨.oldJobs, [⟨3, [("repo_id", .int 1), ("commit_id", .int 1), ("commit_sha", .ofString "abc123"),
  ("agent", .ofString "codex"), ("status", JobStatus.running.cell), ("enqueued_at", .ofString "2024-01-02 00:00:05"),
  ("started_at", .null), ("finished_at", .null), ("worker_id", .null), ("error", .null)]⟩], List.pairwise_singleton .., by decide⟩

/-- An old database with one job, a review of another one that is not there, and a scratch table left behind. -/
def Database.oneOldJob : Database where
  tables := [.oneOldJob, .empty { name := Migration.scratch, columns := [.text "note"] },
    ⟨.reviews, [⟨1, [("job_id", .int 9), ("agent", .ofString "codex"), ("prompt", .ofString "p"), ("output", .ofString "o"),
      ("created_at", .ofString "2024-01-02 00:00:05")]⟩], List.pairwise_singleton .., by decide⟩]
  indexes := []

theorem Database.isLegacy_oneOldJob : Database.oneOldJob.IsLegacy .oneOldJob := by
  have hlayouts : ∀ l ∈ Layout.schemaVersion :: Layout.besideJobs,
      (Database.oneOldJob.table? l.name).all (·.layout = l) = true := by decide
  refine ⟨by decide, rfl, ?_, ?_, fun x hx => by cases hx⟩
  · intro r hr
    cases List.mem_singleton.mp hr
    exact ⟨by decide, by decide, by decide⟩
  · intro l hl u hu
    simpa [hu] using hlayouts l hl

/-- The job is brought forward and the review of the missing job does not stand in the way. -/
theorem migrate_legacy_oneOldJob :
    let o := (Connection.mk Database.oneOldJob true false).migrate
    Database.oneOldJob.IsLegacy .oneOldJob ∧ o.answer = .ok () ∧
    ∃ r ∈ o.connection.database.rows "review_jobs", r.id = 3 ∧ r.cell "git_ref" = .ofString "abc123" := by
  have hlegacy := Database.isLegacy_oneOldJob
  have hknown : ∀ r ∈ Table.oneOldJob.rows, r.HasKnownStatus := by
    intro r hr
    cases List.mem_singleton.mp hr
    exact ⟨.running, by decide⟩
  obtain ⟨hiff, hforward, -⟩ := migrate_legacy Database.oneOldJob .oneOldJob hlegacy true
  have hanswer := hiff.mpr hknown
  obtain ⟨r', hr', hid, hcells⟩ := (hforward hanswer).cells _ (List.mem_singleton.mpr rfl)
  exact ⟨hlegacy, hanswer, r', hr', hid, hcells (.textRequired "git_ref") (by decide) rfl⟩

/-- An old database without jobs, in which a review of job 1 was left behind. -/
def Database.orphanReview : Database := Database.old.put ⟨.reviews, [⟨1, [("job_id", .int 1), ("agent", .ofString "codex"),
  ("prompt", .ofString "p"), ("output", .ofString "o"), ("created_at", .ofString "2024-01-02 00:00:05")]⟩],
  List.pairwise_singleton .., by decide⟩

theorem Database.isLegacy_orphanReview : Database.orphanReview.IsLegacy (.empty .oldJobs) := by
  have hlayouts : ∀ l ∈ Layout.schemaVersion :: Layout.besideJobs,
      (Database.orphanReview.table? l.name).all (·.layout = l) = true := by decide
  refine ⟨by decide, rfl, ?_, ?_, fun x hx => by cases hx⟩
  · intro r hr
    cases hr
  · intro l hl u hu
    simpa [hu] using hlayouts l hl

end ReviewQueue
