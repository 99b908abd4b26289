import ReviewQueue.Settings.Environment

/-!
# Which path counts

The path of the database and that of the settings are each the first that is given of a list of candidates: what the environment
names, what the file of settings says, and at last a file in the data directory. A path of the database that the environment names
but that is no text is passed over without a word.
-/

namespace ReviewQueue.Environment

/-- The path of the database that the environment names, if it is a text. -/
def override? (e : Environment) : Option Path := e.dbPath.filter (·.toText?.isSome)

/-- The settings that the file gives: none if it is not there, is no text or means no settings. -/
def fileSettings? (e : Environment) (fs : FileSystem) : Option Settings := (fs.readText? e.settingsPath).bind Settings.ofToml?

/-- Where a file of the program may lie, by the variables of the environment in the order in which they count. -/
def dataCandidates (e : Environment) (name : String) : List (Option Path) :=
  [e.dataHome.map (·.under name),
    e.sharedDataHome.map fun shared => (shared.under "reviewq").under name,
    some (((e.home.under ".local/share").under "reviewq").under name)]

/-- Where the settings may lie. -/
def settingsCandidates (e : Environment) : List (Option Path) := e.configPath :: e.dataCandidates "config.toml"

/-- Where the database may lie. -/
def databaseCandidates (e : Environment) (fs : FileSystem) : List (Option Path) :=
  e.override? :: (e.fileSettings? fs).bind (·.dbPath) :: e.dataCandidates "reviews.db"

/-- A file in the data directory lies at the first candidate. -/
theorem findSome?_dataCandidates (e : Environment) (name : String) :
    (e.dataCandidates name).findSome? id = some (e.dataDirectory.under name) := by
  unfold dataCandidates dataDirectory
  cases e.dataHome with
  | some own => rfl
  | none =>
    cases e.sharedDataHome with
    | some shared => rfl
    | none => rfl

/-- If one more candidate counts before others, it is the first if it is given. -/
theorem findSome?_cons_getD {α : Type} {o : Option α} {candidates : List (Option α)} {a : α}
    (h : candidates.findSome? id = some a) : (o :: candidates).findSome? id = some (o.getD a) := by
  cases o with
  | none => exact h
  | some b => rfl

theorem readSettings_fst (e : Environment) (fs : FileSystem) : (e.readSettings fs).1 = (e.fileSettings? fs).getD {} := by
  unfold readSettings fileSettings?
  cases fs.readText? e.settingsPath with
  | none => rfl
  | some text =>
    rw [Option.bind_some]
    dsimp only
    cases Settings.ofToml? text with
    | none => rfl
    | some s => rfl

/-- The settings that hold are those of the file, except for a path that the environment names. -/
theorem loadSettings_fst (e : Environment) (fs : FileSystem) :
    (e.loadSettings fs).1 =
      { (e.fileSettings? fs).getD {} with dbPath := e.override?.or ((e.fileSettings? fs).bind (·.dbPath)) } := by
  have hfile : ((e.fileSettings? fs).getD {}).dbPath = (e.fileSettings? fs).bind (·.dbPath) := by
    cases e.fileSettings? fs <;> rfl
  rw [← hfile, ← readSettings_fst]
  unfold loadSettings override?
  cases e.dbPath with
  | none => rfl
  | some path => cases htext : path.toText?.isSome <;> simp [Option.filter_some, htext]

theorem defaultPath_fst (e : Environment) (fs : FileSystem) :
    (e.defaultPath fs).1 =
      (e.override?.or ((e.fileSettings? fs).bind (·.dbPath))).getD (e.dataDirectory.under "reviews.db") := by
  change e.databasePath (e.loadSettings fs).1 = _
  rw [databasePath, loadSettings_fst]

/-- A file that is not there gives no settings. -/
theorem fileSettings?_of_not_found {e : Environment} {fs : FileSystem} (h : fs.find? e.settingsPath = none) :
    e.fileSettings? fs = none := by
  unfold fileSettings? FileSystem.readText?
  rw [h]
  rfl

/-- Which paths count, for every environment and all files:
1. The database lies at the first path that is given: by the environment, if that is a text, else by the file of settings, else in
   the data directory, which is the program's own one if it is named, else below the shared one, else below the home directory.
2. The settings lie at the path that the environment names for them, whatever its bytes are, else in the same data directory.
3. So a path of the database that the environment names counts if it is a text. If it is no text, all is as if it were not
   named.
4. A file of settings that is not there or means no settings changes nothing: the settings that hold, and so the path of the
   database and the time to wait, are what they are over any other files where nothing lies at the path of the settings. -/
theorem database_path_precedence (e : Environment) (fs : FileSystem) :
    (e.databaseCandidates fs).findSome? id = some (e.defaultPath fs).1 ∧
    e.settingsCandidates.findSome? id = some e.settingsPath ∧
    (∀ path ∈ e.dbPath, if path.toText?.isSome then (e.defaultPath fs).1 = path
      else e.loadSettings fs = { e with dbPath := none }.loadSettings fs ∧
        e.defaultPath fs = { e with dbPath := none }.defaultPath fs) ∧
    (e.fileSettings? fs = none → ∀ fs' : FileSystem, fs'.find? e.settingsPath = none →
      (e.loadSettings fs).1 = (e.loadSettings fs').1 ∧ (e.defaultPath fs).1 = (e.defaultPath fs').1) := by
  refine ⟨?database, findSome?_cons_getD (e.findSome?_dataCandidates _), ?named, ?noFile⟩
  case database =>
    rw [defaultPath_fst, Option.getD_or]
    exact findSome?_cons_getD (findSome?_cons_getD (e.findSome?_dataCandidates _))
  case named =>
    intro path hnamed
    split
    next htext =>
      have hoverride : e.override? = some path := by
        rw [override?, Option.mem_def.mp hnamed, Option.filter_some, if_pos htext]
      rw [defaultPath_fst, hoverride, Option.some_or, Option.getD_some]
    next htext =>
      have hload : e.loadSettings fs = { e with dbPath := none }.loadSettings fs := by
        unfold loadSettings
        rw [Option.mem_def.mp hnamed]
        simp only [if_neg htext]
        rfl
      refine ⟨hload, ?_⟩
      unfold defaultPath
      rw [hload]
      rfl
  case noFile =>
    intro hnone fs' hmissing
    have hload : (e.loadSettings fs).1 = (e.loadSettings fs').1 := by
      rw [loadSettings_fst, loadSettings_fst, hnone, fileSettings?_of_not_found hmissing]
    exact ⟨hload, congrArg e.databasePath hload⟩

/-- An environment with every variable set, the path of the settings being no text. -/
def namesAll : Environment where
  configPath := some ⟨[Path.slash, 0xFF]⟩
  dbPath := some (.ofString "/n")
  dataHome := some (.ofString "/d")
  sharedDataHome := some (.ofString "/s")
  home := .ofString "/h"

/-- Files with settings there, or with a text there that means none. -/
def filesWith (text : String) : FileSystem := (FileSystem.initial []).put [[0xFF]] (.file (bytesOf text))

/-- With every variable set the database lies where the variable for it says, without that variable where the file says, and
without a file that means settings in the program's own data directory. -/
theorem database_path_precedence_namesAll :
    (namesAll.defaultPath (filesWith "db_path = '/f'")).1 = .ofString "/n" ∧
    ({ namesAll with dbPath := none }.defaultPath (filesWith "db_path = '/f'")).1 = .ofString "/f" ∧
    ({ namesAll with dbPath := none }.defaultPath (filesWith "db_path = ")).1 = .ofString "/d/reviews.db" := by
  obtain ⟨-, -, hnamed, -⟩ := database_path_precedence namesAll (filesWith "db_path = '/f'")
  obtain ⟨hfile, -, -, -⟩ := database_path_precedence { namesAll with dbPath := none } (filesWith "db_path = '/f'")
  obtain ⟨-, -, -, hnone⟩ := database_path_precedence { namesAll with dbPath := none } (filesWith "db_path = ")
  have htext : (Path.ofString "/n").toText?.isSome := by decide +kernel
  have hfirst : ({ namesAll with dbPath := none }.databaseCandidates (filesWith "db_path = '/f'")).findSome? id =
      some (.ofString "/f") := by decide +kernel
  have hmissing := (hnone (by decide +kernel) (.initial []) (by decide +kernel)).2
  have hdirectory : ({ namesAll with dbPath := none }.defaultPath (.initial [])).1 = .ofString "/d/reviews.db" := by
    decide +kernel
  have hnames := hnamed (.ofString "/n") rfl
  rw [if_pos htext] at hnames
  exact ⟨hnames, Option.some.inj (hfile.symm.trans hfirst), hmissing.trans hdirectory⟩

/-- An environment that names a path of the database that is no text. -/
def namesBytes : Environment := { dbPath := some ⟨[Path.slash, 0xFF]⟩, home := .ofString "/h" }

/-- The path that is no text does not count, though it is named and there is no file of settings. -/
theorem database_path_precedence_namesBytes :
    namesBytes.dbPath = some ⟨[Path.slash, 0xFF]⟩ ∧
      (namesBytes.defaultPath (.initial [])).1 = .ofString "/h/.local/share/reviewq/reviews.db" ∧
      (namesBytes.defaultPath (.initial [])).1 ≠ ⟨[Path.slash, 0xFF]⟩ := by
  refine ⟨rfl, ?_, ?_⟩ <;> decide +kernel

end ReviewQueue.Environment
