import ReviewQueue.Proofs.Text.Segments
import ReviewQueue.Proofs.Toml.Document
import ReviewQueue.Proofs.Toml.Number
import ReviewQueue.Proofs.Toml.Quoted
import ReviewQueue.Settings.Toml

/-!
# Reading back settings

Settings that can be written are read back from the document that is written for them, and exactly those can be written whose path
is a text and whose time to wait has 63 bits.
-/

namespace ReviewQueue

namespace Settings

/-! ## The lines of the document -/

/-- The name of the entry for the path of the database. -/
def pathName : List Char := "db_path".toList

/-- The name of the entry for the time to wait. -/
def timeoutName : List Char := "busy_timeout_ms".toList

/-- The names of the settings are names without quotes. -/
theorem isName_pathName : Toml.IsName pathName := ⟨by decide, List.all_eq_true.mp (by decide)⟩

theorem isName_timeoutName : Toml.IsName timeoutName := ⟨by decide, List.all_eq_true.mp (by decide)⟩

/-- A line of the document starts with the name of its setting. -/
theorem startsPath : "db_path = ".toList = pathName ++ [' ', '=', ' '] := by decide

theorem startsTimeout : "busy_timeout_ms = ".toList = timeoutName ++ [' ', '=', ' '] := by decide

/-- The line for a time to wait. -/
def timeoutLine (n : Nat) : List Char := Toml.entryStart timeoutName (Nat.toDigits 10 n ++ ['\n'])

/-- The line for the path of the database, in front of other lines. -/
def textLine (text : String) (rest : List Char) : List Char :=
  Toml.entryStart pathName (Toml.writeQuoted text.toList ++ '\n' :: rest)

section

open Toml

/-- No blank stands before a number. -/
theorem skipBlanks_digits (n : Nat) (rest : List Char) : skipBlanks (Nat.toDigits 10 n ++ rest) = Nat.toDigits 10 n ++ rest := by
  obtain ⟨c, t, h, hc⟩ := exists_head (isNumeral_toDigits n) rest
  rw [h]
  refine skipBlanks_of_not_blank (isBlank_of_isKeyChar ?_) t
  simp [isKeyChar, Char.isAlphanum, hc]

/-- Nor before a text. -/
theorem skipBlanks_quoted (s rest : List Char) : skipBlanks (writeQuoted s ++ rest) = writeQuoted s ++ rest := by
  obtain ⟨quote, t, h, hquote⟩ := writeQuoted_eq_cons s
  rw [h, List.cons_append]
  rcases hquote with rfl | rfl
  · exact skipBlanks_of_not_blank (by decide) _
  · exact skipBlanks_of_not_blank (by decide) _

/-- A quoted text is read as a value. -/
theorem readValue?_quoted (depth : Nat) (s rest : List Char) :
    readValue? depth (writeQuoted s ++ '\n' :: rest) = some (.text (String.ofList s), '\n' :: rest) := by
  have hend : Unquoted ('\n' :: rest) := by
    intro c t h
    cases h
    exact ⟨by decide, by decide⟩
  have hread := readQuoted?_writeQuoted s hend
  obtain ⟨quote, t, h, hquote⟩ := writeQuoted_eq_cons s
  rw [h, List.cons_append] at hread ⊢
  unfold readValue?
  rw [if_pos hquote, hread]
  rfl

variable {d : Document} (htop : d.opened = [])
include htop

/-- The line for a time to wait is the last one: the document is read with its entry. -/
theorem readLines?_timeoutLine {n : Nat} (hn : n < 2 ^ 63) (hnew : d.entries.lookup "busy_timeout_ms" = none) (fuel : Nat) :
    Document.readLines? (fuel + 2) d (timeoutLine n) =
      some { d with entries := d.entries ++ [("busy_timeout_ms", .value (.int n))] } := by
  have hmax : (n : Int) ≤ Int64.maxValue.toInt := by
    rw [show Int64.maxValue.toInt = 2 ^ 63 - 1 by decide]
    omega
  have hname : String.ofList timeoutName = "busy_timeout_ms" := String.ofList_toList
  have hread := Document.readLines?_entryStart isName_timeoutName htop (hname ▸ hnew) (skipBlanks_digits n _)
    (readValue?_toDigits [] _ hmax) (fuel + 1)
  rw [hname] at hread
  exact hread

/-- The line for a path is read in front of the others. -/
theorem readLines?_textLine (text : String) (rest : List Char) (hnew : d.entries.lookup "db_path" = none) (fuel : Nat) :
    Document.readLines? (fuel + 1) d (textLine text rest) =
      Document.readLines? fuel { d with entries := d.entries ++ [("db_path", .value (.text text))] } rest := by
  have hname : String.ofList pathName = "db_path" := String.ofList_toList
  have hread := Document.readLines?_entryStart isName_pathName htop (hname ▸ hnew) (skipBlanks_quoted text.toList _)
    (readValue?_quoted _ text.toList rest) fuel
  rw [hname, String.ofList_toList] at hread
  exact hread

end

/-! ## Settings -/

/-- Settings can be written: the path of the database, if there is one, is a text, and the time to wait has 63 bits. -/
def Writable (s : Settings) : Prop := (∀ p ∈ s.dbPath, p.toText?.isSome = true) ∧ s.busyTimeoutMs < 2 ^ 63

instance (s : Settings) : Decidable s.Writable := inferInstanceAs (Decidable (_ ∧ _))

/-- The path of the database, if it is given, is a text on a line of its own. -/
theorem exists_pathLine {dbPath : Option Path} (h : ∀ p ∈ dbPath, p.toText?.isSome = true) :
    dbPath = none ∧ pathLine dbPath = .ok [] ∨
      ∃ text, dbPath = some (.ofString text) ∧ ∃ line, pathLine dbPath = .ok line ∧ ∀ rest, line ++ rest = textLine text rest := by
  cases dbPath with
  | none => exact Or.inl ⟨rfl, rfl⟩
  | some p =>
    obtain ⟨text, htext⟩ := Option.isSome_iff_exists.mp (h p rfl)
    refine Or.inr ⟨text, by rw [Path.ofString_of_toText? htext], _, by rw [pathLine, htext], fun rest => ?_⟩
    simp [textLine, Toml.entryStart, startsPath]

/-- Settings whose time to wait has 63 bits are written line by line. -/
theorem toToml_of_pathLine {s : Settings} (hs : s.busyTimeoutMs < 2 ^ 63) {line : List Char} (h : pathLine s.dbPath = .ok line) :
    s.toToml = .ok (String.ofList (line ++ timeoutLine s.busyTimeoutMs)) := by
  have hmax : ¬Int64.maxValue.toNatClampNeg < s.busyTimeoutMs := by
    rw [show Int64.maxValue.toNatClampNeg = 2 ^ 63 - 1 by decide]
    omega
  have hchars : line ++ "busy_timeout_ms = ".toList ++ (toString s.busyTimeoutMs).toList ++ ['\n'] =
      line ++ timeoutLine s.busyTimeoutMs := by
    rw [startsTimeout, Nat.toString_eq_ofList_toDigits, String.toList_ofList]
    simp [timeoutLine, Toml.entryStart]
  unfold toToml
  simp only [h, bind, Except.bind, if_neg hmax, hchars, pure, Except.pure]

/-- Settings that can be written are read back from what is written for them. -/
theorem ofToml?_toToml {s : Settings} (hs : s.Writable) : ∃ text, s.toToml = .ok text ∧ ofToml? text = some s := by
  obtain ⟨hpath, htimeout⟩ := hs
  have htop : ({} : Toml.Document).opened = [] := rfl
  obtain ⟨dbPath, busyTimeoutMs⟩ := s
  simp only at hpath htimeout
  rcases exists_pathLine hpath with ⟨rfl, hline⟩ | ⟨text, rfl, line, hline, hchars⟩
  · refine ⟨_, toToml_of_pathLine htimeout hline, ?_⟩
    have hread : Toml.Document.read? ([] ++ timeoutLine busyTimeoutMs) =
        some { entries := [("busy_timeout_ms", .value (.int busyTimeoutMs))] } :=
      readLines?_timeoutLine htop htimeout rfl _
    unfold ofToml?
    rw [String.toList_ofList, hread]
    simp [readPath?, readTimeout?, Toml.Document.item?, List.lookup_cons]
  · refine ⟨_, toToml_of_pathLine htimeout hline, ?_⟩
    have hread : Toml.Document.read? (textLine text (timeoutLine busyTimeoutMs)) =
        some { entries := [("db_path", .value (.text text)), ("busy_timeout_ms", .value (.int busyTimeoutMs))] } := by
      have hrest := readLines?_textLine htop text (timeoutLine busyTimeoutMs) rfl
      have htop' : ({ entries := [("db_path", .value (.text text))] } : Toml.Document).opened = [] := rfl
      refine (hrest _).trans (readLines?_timeoutLine htop' htimeout rfl _)
    unfold ofToml?
    rw [String.toList_ofList, hchars, hread]
    simp [readPath?, readTimeout?, Toml.Document.item?, List.lookup_cons]

/-- Other settings cannot be written. -/
theorem toToml_eq_error {s : Settings} (hs : ¬s.Writable) : ∃ why, s.toToml = .error why := by
  unfold toToml
  cases hline : pathLine s.dbPath with
  | error why => exact ⟨why, rfl⟩
  | ok line =>
    refine ⟨.timeoutTooLarge, ?_⟩
    have hpath : ∀ p ∈ s.dbPath, p.toText?.isSome = true := by
      intro p hp
      rw [Option.mem_def.mp hp, pathLine] at hline
      cases htext : p.toText? with
      | none =>
        rw [htext] at hline
        cases hline
      | some text => rfl
    have hmax : Int64.maxValue.toNatClampNeg < s.busyTimeoutMs := by
      rw [show Int64.maxValue.toNatClampNeg = 2 ^ 63 - 1 by decide]
      have hlarge : ¬s.busyTimeoutMs < 2 ^ 63 := fun h => hs ⟨hpath, h⟩
      omega
    simp only [bind, Except.bind, if_pos hmax]

end Settings
end ReviewQueue
