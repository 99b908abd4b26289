import Mathlib.Data.List.TakeWhile
import ReviewQueue.Toml.Document

/-!
# Reading back entries

A line that holds a name without quotes, an equals sign and a value adds that entry to the top of a document, as long as no header
was read and the name is new.
-/

namespace ReviewQueue.Toml

/-- A name that needs no quotes. -/
structure IsName (name : List Char) : Prop where
  ne_nil : name ≠ []
  keys : ∀ c ∈ name, isKeyChar c = true

/-- The line of an entry, up to its value. -/
def entryStart (name : List Char) (w : List Char) : List Char := name ++ ' ' :: '=' :: ' ' :: w

theorem isBlank_of_isKeyChar {c : Char} (h : isKeyChar c = true) : isBlank c = false := by
  simp only [isBlank, Bool.or_eq_false_iff, decide_eq_false_iff_not]
  constructor
  · rintro rfl
    exact absurd h (by decide)
  · rintro rfl
    exact absurd h (by decide)

theorem skipBlanks_of_not_blank {c : Char} (h : isBlank c = false) (s : List Char) : skipBlanks (c :: s) = c :: s :=
  List.dropWhile_cons_of_neg (by simp [h])

section

variable {name : List Char} (hname : IsName name)
include hname

theorem exists_eq_cons (s : List Char) : ∃ c t, name ++ s = c :: t ∧ isKeyChar c = true := by
  obtain ⟨c, t, rfl⟩ := List.exists_cons_of_ne_nil hname.ne_nil
  exact ⟨c, t ++ s, rfl, hname.keys c (by simp)⟩

theorem skipBlanks_name (s : List Char) : skipBlanks (name ++ s) = name ++ s := by
  obtain ⟨c, t, h, hc⟩ := exists_eq_cons hname s
  rw [h, skipBlanks_of_not_blank (isBlank_of_isKeyChar hc)]

/-- A name is read up to the blank behind it. -/
theorem readSimpleKey?_name (s : List Char) : readSimpleKey? (name ++ ' ' :: s) = some (String.ofList name, ' ' :: s) := by
  have htake : (name ++ ' ' :: s).takeWhile isKeyChar = name := by
    rw [List.takeWhile_append_of_pos hname.keys, List.takeWhile_cons_of_neg (by decide), List.append_nil]
  have hdrop : (name ++ ' ' :: s).dropWhile isKeyChar = ' ' :: s := by
    rw [List.dropWhile_append_of_pos hname.keys, List.dropWhile_cons_of_neg (by decide)]
  obtain ⟨c, t, h, hc⟩ := exists_eq_cons hname (' ' :: s)
  have hquote : ¬(c = '"' ∨ c = '\'') := by
    rintro (rfl | rfl)
    · exact absurd hc (by decide)
    · exact absurd hc (by decide)
  rw [h] at htake hdrop ⊢
  rw [readSimpleKey?, if_neg hquote, if_pos hc, htake, hdrop]

/-- A name without dots is read as a key of its own. -/
theorem readKey?_name (s : List Char) : readKey? (name ++ ' ' :: '=' :: s) = some ([], String.ofList name, '=' :: s) := by
  have hblank : skipBlanks (' ' :: '=' :: s) = '=' :: s := rfl
  unfold readKey? readKeyWithin?
  simp only [skipBlanks_name hname, readSimpleKey?_name hname, hblank, bind, Option.bind, pure]
  rfl

/-- An entry is read, if its value is. -/
theorem readEntry?_entryStart {value : List Char → Option (Value × List Char)} {w rest : List Char} {v : Value}
    (hblank : skipBlanks w = w) (hw : value w = some (v, rest)) :
    readEntry? value (entryStart name w) = some ([], String.ofList name, v, rest) := by
  have hmark : Mark.after? '=' ('=' :: ' ' :: w) = some (' ' :: w) := by rw [Mark.after?, if_pos rfl]
  have hskip : skipBlanks (' ' :: w) = w := by
    rw [skipBlanks, List.dropWhile_cons_of_pos (by decide)]
    exact hblank
  unfold readEntry? entryStart
  simp only [readKey?_name hname, hmark, hskip, hw, bind, Option.bind, pure]

namespace Document

/-- The line of an entry with a new name is read at the top of a document. -/
theorem readEntryLine?_entryStart {d : Document} (htop : d.opened = []) (hnew : d.entries.lookup (String.ofList name) = none)
    {w rest : List Char} {v : Value} (hblank : skipBlanks w = w)
    (hw : readValue? (depthLimit - 1) w = some (v, '\n' :: rest)) :
    d.readEntryLine? (entryStart name w) =
      some ({ d with entries := d.entries ++ [(String.ofList name, .value v)] }, rest) := by
  have hend : lineEnd? ('\n' :: rest) = some rest := rfl
  have hgive : d.entries.give (String.ofList name) v = some (d.entries ++ [(String.ofList name, .value v)]) := by
    rw [Entries.give, hnew]
    rfl
  have halter : d.entries.alter false (Entries.enter [] (String.ofList name) v) d.opened false =
      some (d.entries ++ [(String.ofList name, .value v)]) := by
    rw [htop, Entries.alter, Entries.enter, Entries.alter]
    exact hgive
  unfold readEntryLine?
  simp only [readEntry?_entryStart hname hblank hw, hend, halter, bind, Option.bind, pure]

/-- The lines of a document that starts with an entry: the entry is added, and the others are read. -/
theorem readLines?_entryStart {d : Document} (htop : d.opened = []) (hnew : d.entries.lookup (String.ofList name) = none)
    {w rest : List Char} {v : Value} (hblank : skipBlanks w = w)
    (hw : readValue? (depthLimit - 1) w = some (v, '\n' :: rest)) (fuel : Nat) :
    readLines? (fuel + 1) d (entryStart name w) =
      readLines? fuel { d with entries := d.entries ++ [(String.ofList name, .value v)] } rest := by
  have hline := readEntryLine?_entryStart hname htop hnew hblank hw
  have hskip : skipBlanks (entryStart name w) = entryStart name w := skipBlanks_name hname _
  obtain ⟨c, t, hstart, hc⟩ := exists_eq_cons hname (' ' :: '=' :: ' ' :: w)
  rw [show entryStart name w = c :: t from hstart] at hline hskip ⊢
  have hne : ∀ x : Char, isKeyChar x = false → c ≠ x := by
    rintro x hx rfl
    exact Bool.false_ne_true (hx.symm.trans hc)
  have hempty : ¬(c = '#' ∨ c = '\n' ∨ c = '\r') := by
    rintro (h | h | h)
    · exact hne _ (by decide) h
    · exact hne _ (by decide) h
    · exact hne _ (by decide) h
  rw [readLines?]
  simp only [hskip, if_neg hempty, if_neg (hne '[' (by decide)), hline, bind, Option.bind]

end Document

end

end ReviewQueue.Toml
