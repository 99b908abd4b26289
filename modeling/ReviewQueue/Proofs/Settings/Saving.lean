import ReviewQueue.Proofs.Files.Trees
import ReviewQueue.Proofs.Settings.Toml
import ReviewQueue.Settings.Environment

/-!
# Settings that are saved

Saving settings and loading them are inverse. Settings that can be written are saved unless the files stand in the way, and are
loaded again as they were. Other settings are refused before any file is touched; but by then the directory of the file has been
made, so a path that goes through a missing directory and up again may lead to a file from now on.
-/

namespace ReviewQueue

/-- A directory is missing on a path that goes up again. -/
def FileSystem.Detours (fs : FileSystem) (p : Path) : Prop := fs.follow p = .error .notFound ∧ Path.dotDot ∈ Path.cut p.bytes

/-- In a tree, the text at a path that makes no detour stays when directories are added. -/
theorem FileSystem.Grows.readText?_of_not_detours {fs fs' : FileSystem} (h : fs.Grows fs') (htree : fs.IsTree) {p : Path}
    (hp : ¬fs.Detours p) : fs'.readText? p = fs.readText? p := by
  by_cases herror : fs.follow p = .error .notFound
  · exact h.readText?_of_isTree htree fun hup => hp ⟨herror, hup⟩
  · exact h.readText?_eq herror

namespace Environment

variable {e : Environment} {fs : FileSystem} {s : Settings}

/-- Settings that can be written are saved by writing a text that means them. -/
theorem saveSettings_of_writable (e : Environment) (fs : FileSystem) (hs : s.Writable) : ∃ text, Settings.ofToml? text = some s ∧
    e.saveSettings fs s = ((fs.writeWithParents e.settingsPath (bytesOf text)).1,
      (fs.writeWithParents e.settingsPath (bytesOf text)).2.map FileFault.message) := by
  obtain ⟨text, htext, hread⟩ := Settings.ofToml?_toToml hs
  refine ⟨text, hread, ?_⟩
  unfold saveSettings FileSystem.writeWithParents
  generalize fs.makeDirectories (e.settingsPath.parent?.getD ⟨[]⟩) = made
  obtain ⟨fs', _ | f⟩ := made
  · simp only [htext]
    cases fs'.write e.settingsPath (bytesOf text) with
    | error f => rfl
    | ok written => rfl
  · rfl

/-- Other settings are not saved: the directory of the file is made, and nothing else is done. -/
theorem saveSettings_of_not_writable (e : Environment) (fs : FileSystem) (hs : ¬s.Writable) :
    ∃ why, e.saveSettings fs s = ((fs.makeDirectories (e.settingsPath.parent?.getD ⟨[]⟩)).1, some why) := by
  obtain ⟨why, hwhy⟩ := Settings.toToml_eq_error hs
  unfold saveSettings
  split
  next f heq => exact ⟨f.message, by rw [heq]⟩
  next heq =>
    refine ⟨why.message, ?_⟩
    simp only [hwhy, heq]

/-- Files stay a tree when settings are saved, whether they are or not. -/
theorem isTree_saveSettings (e : Environment) (s : Settings) (htree : fs.IsTree) : (e.saveSettings fs s).1.IsTree := by
  have hmade := htree.makeDirectories (e.settingsPath.parent?.getD ⟨[]⟩)
  unfold saveSettings
  split
  next heq =>
    rw [heq] at hmade
    exact hmade
  next heq =>
    rw [heq] at hmade
    split
    next => exact hmade
    next =>
      split
      next => exact hmade
      next hwritten => exact hmade.write hwritten

/-- What is loaded depends on nothing but the text at the path of the settings. -/
theorem loadSettings_congr {fs' : FileSystem} (h : fs'.readText? e.settingsPath = fs.readText? e.settingsPath) :
    e.loadSettings fs' = e.loadSettings fs := by
  unfold loadSettings readSettings
  rw [h]

/-- Settings are loaded from a text that means them, where no path of the database is set. -/
theorem loadSettings_of_text (he : e.dbPath = none) {text : String} (htext : fs.readText? e.settingsPath = some text)
    (hread : Settings.ofToml? text = some s) : e.loadSettings fs = (s, []) := by
  unfold loadSettings readSettings
  simp only [htext, hread, he]

/-- Saving and loading, where the environment sets no path of the database. In three parts, for all files and settings:
1. Settings whose path is a text and whose time to wait has 63 bits are saved by writing a text that means them to their file. So
   they are saved unless the files stand in the way.
2. Whenever settings are saved, exactly these are loaded next, and nothing is logged.
3. Other settings are never saved. No file changes then, and no directory goes: there may only be new directories, on the way to the
   file. What lay at the path of the settings lies there still, and what was loaded before is loaded again, unless a directory was
   missing on that path and the path goes up again. -/
theorem saved_settings_load (e : Environment) (he : e.dbPath = none) (fs : FileSystem) (s : Settings) :
    (s.Writable → ∃ text, Settings.ofToml? text = some s ∧
      e.saveSettings fs s = ((fs.writeWithParents e.settingsPath (bytesOf text)).1,
        (fs.writeWithParents e.settingsPath (bytesOf text)).2.map FileFault.message)) ∧
    (∀ fs', e.saveSettings fs s = (fs', none) → e.loadSettings fs' = (s, [])) ∧
    (¬s.Writable → ∃ fs' why, e.saveSettings fs s = (fs', some why) ∧ fs.Grows fs' ∧
      (∀ node, fs.find? e.settingsPath = some node → fs'.find? e.settingsPath = some node) ∧
      (fs.IsTree → ¬fs.Detours e.settingsPath → e.loadSettings fs' = e.loadSettings fs)) := by
  refine ⟨e.saveSettings_of_writable fs, fun fs' hsaved => ?_, fun hs => ?_⟩
  · have hs : s.Writable := by
      by_contra hnot
      obtain ⟨why, hfailed⟩ := saveSettings_of_not_writable e fs hnot
      rw [hfailed] at hsaved
      cases hsaved
    obtain ⟨text, hread, hwritten⟩ := saveSettings_of_writable e fs hs
    rw [hwritten, Prod.mk.injEq, Option.map_eq_none_iff] at hsaved
    have hfile := FileSystem.find?_of_writeWithParents (Prod.ext hsaved.1 hsaved.2)
    refine loadSettings_of_text he ?_ hread
    unfold FileSystem.readText?
    rw [hfile]
    simp only [Utf8.decode_bytesOf]
    rfl
  · obtain ⟨why, hfailed⟩ := saveSettings_of_not_writable e fs hs
    have hgrows := fs.grows_makeDirectories (e.settingsPath.parent?.getD ⟨[]⟩)
    exact ⟨_, why, hfailed, hgrows, fun node => hgrows.find?_eq_some,
      fun htree hdetour => loadSettings_congr (hgrows.readText?_of_not_detours htree hdetour)⟩

/-- An environment that names a file in a directory `a`. -/
def namesFile : Environment := { configPath := some (.ofString "a/c"), home := .ofString "/h" }

/-- Settings whose path has both quotes, a backslash, a newline and a control character. -/
def quotedPath : Settings := { dbPath := some (.ofString "\"'\\\n\x01'''\"\"\""), busyTimeoutMs := 7 }

/-- Settings whose time to wait has 64 bits. -/
def endlessWait : Settings := { busyTimeoutMs := 2 ^ 63 }

/-- The quoted path is saved and loaded. The time to wait is refused, before that and after it, and what was loaded before is loaded
again. -/
theorem saved_settings_load_quotedPath :
    let saved := namesFile.saveSettings (.initial []) quotedPath
    namesFile.dbPath = none ∧ quotedPath.Writable ∧ ¬endlessWait.Writable ∧ saved.2 = none ∧
      namesFile.loadSettings saved.1 = (quotedPath, []) ∧
      namesFile.loadSettings (namesFile.saveSettings (.initial []) endlessWait).1 = namesFile.loadSettings (.initial []) ∧
      namesFile.loadSettings (namesFile.saveSettings saved.1 endlessWait).1 = (quotedPath, []) := by
  intro saved
  have htree : (FileSystem.initial []).IsTree := FileSystem.isTree_initial []
  obtain ⟨-, hloads, -⟩ := saved_settings_load namesFile rfl (.initial []) quotedPath
  obtain ⟨-, -, hrefused⟩ := saved_settings_load namesFile rfl (.initial []) endlessWait
  obtain ⟨-, -, hlater⟩ := saved_settings_load namesFile rfl saved.1 endlessWait
  have hwait : ¬endlessWait.Writable := by decide +kernel
  have hsaved : saved.2 = none := by decide +kernel
  have hstraight : Path.dotDot ∉ Path.cut namesFile.settingsPath.bytes := by decide +kernel
  have hloaded : namesFile.loadSettings saved.1 = (quotedPath, []) := hloads _ (by rw [← hsaved])
  obtain ⟨fs', why, hsave, -, -, hsame⟩ := hrefused hwait
  obtain ⟨fs'', why', hsave', -, -, hsame'⟩ := hlater hwait
  refine ⟨rfl, by decide +kernel, hwait, hsaved, hloaded, ?_, ?_⟩
  · rw [hsave]
    exact hsame htree fun hdetour => hstraight hdetour.2
  · rw [hsave', ← hloaded]
    exact hsame' (isTree_saveSettings namesFile quotedPath htree) fun hdetour => hstraight hdetour.2

/-- An environment that names a file by a path that goes through a directory `a` and up again. -/
def namesDetour : Environment := { configPath := some (.ofString "a/../c"), home := .ofString "/h" }

/-- A tree with such a file and without the directory. -/
def besideDetour : FileSystem := (FileSystem.initial []).put [bytesOf "c"] (.file (bytesOf "busy_timeout_ms = 7"))

/-- Before settings are refused the directory is made, and by way of it the file is loaded, which was not found before. -/
theorem saved_settings_load_detour :
    namesDetour.dbPath = none ∧ besideDetour.IsTree ∧
      (namesDetour.saveSettings besideDetour endlessWait).2 = some "out-of-range value for u64 type" ∧
      (namesDetour.loadSettings besideDetour).1 = {} ∧
      (namesDetour.loadSettings (namesDetour.saveSettings besideDetour endlessWait).1).1 = { busyTimeoutMs := 7 } := by
  refine ⟨rfl, ?_, ?_, ?_, ?_⟩ <;> decide +kernel

end Environment
end ReviewQueue
