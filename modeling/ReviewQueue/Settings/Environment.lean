import ReviewQueue.Files.Opening
import ReviewQueue.Settings.Toml

/-!
# Where settings come from

The settings are those of a file, if it is there and can be read, with the path of the database replaced if the environment names
one. The environment also says where the file and the data directory are.
-/

namespace ReviewQueue

/-- The variables of the environment that count. -/
structure Environment where
  configPath : Option Path := none
  dbPath : Option Path := none
  dataHome : Option Path := none
  sharedDataHome : Option Path := none
  home : Path
  deriving DecidableEq, Repr

namespace Environment

/-- The name of the program's directory below a data directory that it shares with others. -/
def programName : String := "reviewq"

/-- The data directory: one of its own if it is named, else one below the shared data directory, which lies at home unless it is
named. -/
def dataDirectory (e : Environment) : Path :=
  match e.dataHome with
  | some path => path
  | none => (e.sharedDataHome.getD (e.home.under ".local/share")).under programName

/-- Where the settings are kept. -/
def settingsPath (e : Environment) : Path := e.configPath.getD (e.dataDirectory.under "config.toml")

/-- Where the database of some settings lies. -/
def databasePath (e : Environment) (s : Settings) : Path := s.dbPath.getD (e.dataDirectory.under "reviews.db")

/-- The settings in the file. A file that is not there or is no text counts as empty; one that cannot be read is ignored with a
warning. -/
def readSettings (e : Environment) (fs : FileSystem) : Settings × List LogLine :=
  match fs.readText? e.settingsPath with
  | none => ({}, [])
  | some text => match Settings.ofToml? text with
    | some s => (s, [])
    | none => ({}, [⟨.warn, "Ignoring unreadable config " ++ e.settingsPath.display⟩])

/-- The settings that hold. The environment's path of the database counts if it is a text. -/
def loadSettings (e : Environment) (fs : FileSystem) : Settings × List LogLine :=
  let (s, log) := e.readSettings fs
  match e.dbPath with
  | none => (s, log)
  | some path => (if path.toText?.isSome then { s with dbPath := some path } else s, log)

/-- Write settings to their file, whose directory is made if need be: the files after it, and why it failed if it did. -/
def saveSettings (e : Environment) (fs : FileSystem) (s : Settings) : FileSystem × Option String :=
  match fs.makeDirectories (e.settingsPath.parent?.getD ⟨[]⟩) with
  | (fs, some f) => (fs, some f.message)
  | (fs, none) => match s.toToml with
    | .error u => (fs, some u.message)
    | .ok text => match fs.write e.settingsPath (bytesOf text) with
      | .error f => (fs, some f.message)
      | .ok fs => (fs, none)

/-- Where the database lies by the settings that hold. -/
def defaultPath (e : Environment) (fs : FileSystem) : Path × List LogLine :=
  let (s, log) := e.loadSettings fs
  (e.databasePath s, log)

/-- Open the database by the settings that hold. -/
def openDatabase (e : Environment) (d : Disk) : Opening × Disk × List LogLine :=
  let (s, log) := e.loadSettings d.files
  let (opening, d, more) := d.openAt (e.databasePath s) s.busyTimeoutMs
  (opening, d, log ++ more)

end Environment
end ReviewQueue
