import ReviewQueue.Toml.Quoted

/-!
# Reading back quoted texts

A text is read back from what was written for it, in whichever style that was, and the reader stops behind the quotes. The basic
styles serve every text: what cannot stand for itself is escaped. The literal styles are taken only for texts that can stand for
themselves in them. On several lines the quotes at the end of a text stand together with those that close it; the reader tells
them apart because a text has at most two in a row.
-/

namespace ReviewQueue.Toml

/-- A text that does not go on with a quote. -/
def Unquoted (s : List Char) : Prop := ∀ c rest, s = c :: rest → c ≠ '"' ∧ c ≠ '\''

/-- What starts with no quote starts with neither of the two. -/
theorem Unquoted.ne_cons {s : List Char} (h : Unquoted s) {quote : Char} (hquote : quote = '"' ∨ quote = '\'') (rest : List Char) :
    s ≠ quote :: rest := by
  intro hs
  rcases hquote with rfl | rfl
  · exact (h _ _ hs).1 rfl
  · exact (h _ _ hs).2 rfl

/-! ## Characters that stand for themselves, and escapes -/

/-- A character that is not to be escaped, and is no newline, stands for itself. -/
theorem isPlain_of_not_isControl {c : Char} (h : isControl c = false) (hline : c ≠ '\n') : isPlain c = true := by
  simp only [isControl, isPlain, Bool.or_eq_false_iff, Bool.and_eq_false_iff, decide_eq_false_iff_not, Bool.or_eq_true,
    Bool.and_eq_true, decide_eq_true_eq] at h ⊢
  obtain ⟨hlow, hdelete⟩ := h
  by_cases htab : c = '\t'
  · exact Or.inl htab
  · simp only [htab, hline, ne_eq, not_false_eq_true, not_true_eq_false, or_false] at hlow
    exact Or.inr ⟨by omega, hdelete⟩

/-- A character that stands for itself does not end a line. -/
theorem newline?_of_isPlain {c : Char} (h : isPlain c = true) (s : List Char) : newline? (c :: s) = none := by
  unfold newline?
  split
  next heq =>
    cases heq
    exact absurd h (by decide)
  next heq =>
    cases heq
    exact absurd h (by decide)
  next => rfl

/-- What stands behind the backslash of an escape: it is read as the character, and does not end the line. -/
structure Escapes (c : Char) (w : List Char) : Prop where
  read : ∀ rest, readEscape? (w ++ rest) = some (c, rest)
  unbroken : ∀ rest, brokenLine? (w ++ rest) = none

/-- A character that stands for itself and is no blank does not break a line. -/
theorem brokenLine?_of_isPlain {c : Char} (h : isPlain c = true) (hblank : isBlank c = false) (s : List Char) :
    brokenLine? (c :: s) = none := by
  unfold brokenLine? skipBlanks
  rw [List.dropWhile_cons_of_neg (by simp [hblank]), newline?_of_isPlain h]
  rfl

theorem escapes_quote : Escapes '"' ['"'] where
  read _ := rfl
  unbroken rest := brokenLine?_of_isPlain (by decide) (by decide) rest

/-- A letter escapes its character. -/
theorem escapes_letter {c letter : Char} (h : letterOf? c = some letter) : Escapes c [letter] := by
  unfold letterOf? at h
  split at h <;> cases h
  all_goals exact ⟨fun _ => rfl, fun rest => brokenLine?_of_isPlain (by decide) (by decide) rest⟩

/-- A hexadecimal digit has the value it was written for. -/
theorem hexValue?_hexDigit : ∀ n, n < 16 → Digits.hexValue? (hexDigit n) = some n := by decide

/-- The number of a character is that of this character. -/
theorem charOf?_toNat (c : Char) : charOf? c.toNat = some c := by
  unfold charOf?
  rw [if_pos (show c.toNat.isValidChar from c.valid), Char.ofNat_toNat]

/-- A control character is read back from its number. -/
theorem escapes_code {c : Char} (h : isControl c = true) : Escapes c (writeCode c).tail := by
  have hsmall : c.toNat < 0x80 := by
    simp only [isControl, Bool.or_eq_true, Bool.and_eq_true, decide_eq_true_eq] at h
    omega
  constructor
  · intro rest
    have hhigh := hexValue?_hexDigit (c.toNat / 16) (by omega)
    have hlow := hexValue?_hexDigit (c.toNat % 16) (by omega)
    have hzero : Digits.hexValue? '0' = some 0 := by decide
    have hnumber : 16 * (16 * (16 * (16 * 0 + 0) + 0) + c.toNat / 16) + c.toNat % 16 = c.toNat := by omega
    simp only [writeCode, List.tail_cons, List.cons_append, List.nil_append, readEscape?, readCode?, readHex?, bind, Option.bind,
      hzero, hhigh, hlow, hnumber, charOf?_toNat, pure]
  · intro rest
    exact brokenLine?_of_isPlain (by decide) (by decide) _

/-! ## Writing, one character at a time -/

/-- How a character is written in front of the others: escaped, as a quote or a newline where that may stand, or as itself. -/
inductive Inside (lines : Bool) (most run : Nat) (c : Char) (s : List Char) : Prop
  | escape (w : List Char) (hw : Escapes c w)
    (h : writeInside lines most run (c :: s) = '\\' :: (w ++ writeInside lines most 0 s))
  | quote (hc : c = '"') (hrun : run < most) (h : writeInside lines most run (c :: s) = '"' :: writeInside lines most (run + 1) s)
  | newline (hc : c = '\n') (hlines : lines = true) (h : writeInside lines most run (c :: s) = '\n' :: writeInside lines most 0 s)
  | plain (hc : isPlain c = true) (hquote : c ≠ '"') (hescape : c ≠ '\\')
    (h : writeInside lines most run (c :: s) = c :: writeInside lines most 0 s)

/-- One of these is how a character is written. -/
theorem inside (lines : Bool) (most run : Nat) (c : Char) (s : List Char) : Inside lines most run c s := by
  by_cases hquote : c = '"'
  · subst hquote
    by_cases hrun : run < most
    · exact .quote rfl hrun (by rw [writeInside, if_pos rfl, if_pos hrun])
    · exact .escape _ escapes_quote (by rw [writeInside, if_pos rfl, if_neg hrun]; rfl)
  by_cases hline : c = '\n' ∧ lines = true
  · exact .newline hline.1 hline.2 (by rw [writeInside, if_neg hquote, if_pos hline])
  cases hletter : letterOf? c with
  | some letter => exact .escape _ (escapes_letter hletter) (by rw [writeInside, if_neg hquote, if_neg hline, hletter]; rfl)
  | none =>
    have hstep : writeInside lines most run (c :: s) =
        if isControl c then writeCode c ++ writeInside lines most 0 s else c :: writeInside lines most 0 s := by
      rw [writeInside, if_neg hquote, if_neg hline, hletter]
    cases hcontrol : isControl c with
    | true => exact .escape _ (escapes_code hcontrol) (by rw [hstep, hcontrol]; rfl)
    | false =>
      have hnewline : c ≠ '\n' := by
        rintro rfl
        cases hletter
      have hbackslash : c ≠ '\\' := by
        rintro rfl
        cases hletter
      exact .plain (isPlain_of_not_isControl hcontrol hnewline) hquote hbackslash (by rw [hstep, hcontrol]; rfl)

/-! ## Basic texts on one line -/

/-- An escape is read as the character it stands for. -/
theorem readBasic?_escape {c : Char} {w : List Char} (hw : Escapes c w) (t : List Char) :
    readBasic? ('\\' :: (w ++ t)) = (readBasic? t).map (prepend c) := by
  rw [readBasic?, if_neg (by decide), if_pos rfl]
  split
  next heq =>
    rw [hw.read] at heq
    cases heq
  next heq =>
    rw [hw.read] at heq
    cases heq
    rfl

/-- Any other character is read as itself. -/
theorem readBasic?_plain {c : Char} (hc : isPlain c = true) (hquote : c ≠ '"') (hescape : c ≠ '\\') (t : List Char) :
    readBasic? (c :: t) = (readBasic? t).map (prepend c) := by
  rw [readBasic?, if_neg hquote, if_neg hescape, if_pos hc]

/-- Every text is read back from a basic one. -/
theorem readBasic?_inside (s rest : List Char) (run : Nat) :
    readBasic? (writeInside false 0 run s ++ '"' :: rest) = some (s, rest) := by
  induction s generalizing run with
  | nil => rw [writeInside, List.nil_append, readBasic?, if_pos rfl]
  | cons c s ih =>
    rcases inside false 0 run c s with ⟨w, hw, h⟩ | ⟨-, hrun, -⟩ | ⟨-, hlines, -⟩ | ⟨hc, hquote, hescape, h⟩
    · rw [h, List.cons_append, List.append_assoc, readBasic?_escape hw, ih]
      rfl
    · cases hrun
    · cases hlines
    · rw [h, List.cons_append, readBasic?_plain hc hquote hescape, ih]
      rfl

/-! ## Literal texts on one line -/

/-- A text without quotes, newlines and control characters is read back from a literal one. -/
theorem readLiteral?_append {s : List Char} (hs : ∀ c ∈ s, isPlain c = true ∧ c ≠ '\'') (rest : List Char) :
    readLiteral? (s ++ '\'' :: rest) = some (s, rest) := by
  induction s with
  | nil => rw [List.nil_append, readLiteral?, if_pos rfl]
  | cons c s ih =>
    obtain ⟨hc, hquote⟩ := hs c (by simp)
    rw [List.cons_append, readLiteral?, if_neg hquote, if_pos hc, ih fun x hx => hs x (by simp [hx])]
    rfl

/-! ## The quotes that close a text on several lines -/

/-- What starts with another character does not close a text. -/
theorem closing?_of_ne {quote c : Char} (h : c ≠ quote) (s : List Char) : closing? quote (c :: s) = none := by
  unfold closing?
  split
  next heq =>
    cases heq
    rw [if_neg fun hquotes => h hquotes.1]
  next => rfl

/-- Three quotes close a text, with the quotes before them that are all that is left of it. -/
theorem closing?_append {quote : Char} {w rest : List Char} (hw : ¬List.replicate 3 quote <+: w)
    (hrest : ∀ r, rest ≠ quote :: r) :
    closing? quote (w ++ quote :: quote :: quote :: rest) = if w.all (· = quote) then some (w, rest) else none := by
  have hend : closing? quote (quote :: quote :: quote :: rest) = some ([], rest) := by
    match rest, hrest with
    | [], _ => simp [closing?]
    | [d], hrest =>
      have hd : d ≠ quote := fun h => hrest [] (h ▸ rfl)
      simp [closing?, hd]
    | d :: e :: r, hrest =>
      have hd : d ≠ quote := fun h => hrest (e :: r) (h ▸ rfl)
      simp [closing?, hd]
  match w, hw with
  | [], _ => simpa using hend
  | [a], _ =>
    by_cases ha : a = quote
    · subst ha
      cases rest with
      | nil => simp [closing?]
      | cons d r =>
        have hd : d ≠ a := fun h => hrest r (h ▸ rfl)
        simp [closing?, hd]
    · simp [closing?_of_ne ha, ha]
  | [a, b], _ =>
    by_cases ha : a = quote
    · subst ha
      by_cases hb : b = a
      · subst hb
        simp [closing?]
      · simp [closing?, hb]
    · simp [closing?_of_ne ha, ha]
  | a :: b :: c :: w, hw =>
    have hne : ¬(a = quote ∧ b = quote ∧ c = quote) := by
      rintro ⟨rfl, rfl, rfl⟩
      exact hw ⟨w, rfl⟩
    have hall : ¬(a :: b :: c :: w).all (· = quote) := by
      simp only [List.all_cons, Bool.and_eq_true, decide_eq_true_eq]
      exact fun h => hne ⟨h.1, h.2.1, h.2.2.1⟩
    rw [if_neg hall]
    simp [closing?, hne]

/-! ## Basic texts on several lines -/

/-- Three quotes close a text on several lines. -/
theorem readLines?_of_closing {c : Char} {s : List Char} {found : List Char × List Char} (h : closing? '"' (c :: s) = some found) :
    readLines? (c :: s) = some found := by
  rw [readLines?, h]

/-- An escape is read there as the character it stands for. -/
theorem readLines?_escape {c : Char} {w : List Char} (hw : Escapes c w) (t : List Char) :
    readLines? ('\\' :: (w ++ t)) = (readLines? t).map (prepend c) := by
  rw [readLines?, closing?_of_ne (by decide)]
  simp only [if_true]
  split
  next heq =>
    rw [hw.unbroken] at heq
    cases heq
  next =>
    split
    next heq =>
      rw [hw.read] at heq
      cases heq
    next heq =>
      rw [hw.read] at heq
      cases heq
      rfl

/-- A newline is read there as itself. -/
theorem readLines?_newline (t : List Char) : readLines? ('\n' :: t) = (readLines? t).map (prepend '\n') := by
  rw [readLines?, closing?_of_ne (by decide), if_neg (by decide)]
  rfl

/-- So is any other character that does not close the text. -/
theorem readLines?_plain {c : Char} (hc : isPlain c = true) (hescape : c ≠ '\\') {t : List Char}
    (hopen : closing? '"' (c :: t) = none) :
    readLines? (c :: t) = (readLines? t).map (prepend c) := by
  rw [readLines?, hopen]
  simp only [if_neg hescape]
  split
  next heq =>
    rw [newline?_of_isPlain hc] at heq
    cases heq
  next => rw [if_pos hc]

/-- Of the quotes that are written, at most two stand in a row, those written just before counted. -/
theorem run_add_le_of_prefix {s : List Char} {run n : Nat} (hrun : run ≤ 2) (h : List.replicate n '"' <+: writeInside true 2 run s) :
    run + n ≤ 2 := by
  induction s generalizing run n with
  | nil =>
    rw [writeInside, List.prefix_nil, List.replicate_eq_nil_iff] at h
    omega
  | cons c s ih =>
    cases n with
    | zero => exact hrun
    | succ n =>
      rw [List.replicate_succ] at h
      rcases inside true 2 run c s with ⟨w, -, hw⟩ | ⟨-, hrun, hw⟩ | ⟨-, -, hw⟩ | ⟨-, hquote, -, hw⟩
      · rw [hw, List.cons_prefix_cons] at h
        exact absurd h.1 (by decide)
      · rw [hw, List.cons_prefix_cons] at h
        have := ih hrun h.2
        omega
      · rw [hw, List.cons_prefix_cons] at h
        exact absurd h.1 (by decide)
      · rw [hw, List.cons_prefix_cons] at h
        exact absurd h.1.symm hquote

/-- Where nothing but quotes is written, they are the text. -/
theorem writeInside_of_quotes {s : List Char} {run : Nat} (h : ∀ c ∈ writeInside true 2 run s, c = '"') :
    writeInside true 2 run s = s := by
  induction s generalizing run with
  | nil => rfl
  | cons c s ih =>
    rcases inside true 2 run c s with ⟨w, -, hw⟩ | ⟨rfl, -, hw⟩ | ⟨-, -, hw⟩ | ⟨-, hquote, -, hw⟩
    · rw [hw] at h
      exact absurd (h '\\' (by simp)) (by decide)
    · rw [hw] at h ⊢
      rw [ih fun x hx => h x (by simp [hx])]
    · rw [hw] at h
      exact absurd (h '\n' (by simp)) (by decide)
    · rw [hw] at h
      exact absurd (h c (by simp)) hquote

/-- Every text is read back from a basic one on several lines. The quotes at its end are read together with those that close it, all
others one by one. -/
theorem readLines?_inside {s rest : List Char} {run : Nat} (hrun : run ≤ 2) (hrest : Unquoted rest) :
    readLines? (writeInside true 2 run s ++ '"' :: '"' :: '"' :: rest) = some (s, rest) := by
  have hshort : ∀ s run, run ≤ 2 → ¬List.replicate 3 '"' <+: writeInside true 2 run s := by
    intro s run hrun h
    have := run_add_le_of_prefix hrun h
    omega
  induction s generalizing run with
  | nil =>
    have hclosing := closing?_append (hshort [] run hrun) (hrest.ne_cons (Or.inl rfl))
    rw [writeInside, List.nil_append, if_pos (by simp)] at hclosing
    exact readLines?_of_closing hclosing
  | cons c s ih =>
    have hclosing := closing?_append (hshort (c :: s) run hrun) (hrest.ne_cons (Or.inl rfl))
    by_cases hquotes : (writeInside true 2 run (c :: s)).all (· = '"')
    · rw [if_pos hquotes] at hclosing
      rw [writeInside_of_quotes (by simpa using hquotes)] at hclosing ⊢
      exact readLines?_of_closing hclosing
    · rw [if_neg hquotes] at hclosing
      rcases inside true 2 run c s with ⟨w, hw, h⟩ | ⟨rfl, hmore, h⟩ | ⟨rfl, -, h⟩ | ⟨hc, -, hescape, h⟩
      · rw [h, List.cons_append, List.append_assoc, readLines?_escape hw, ih (Nat.zero_le 2)]
        rfl
      · rw [h, List.cons_append] at hclosing ⊢
        rw [readLines?_plain (by decide) (by decide) hclosing, ih hmore]
        rfl
      · rw [h, List.cons_append, readLines?_newline, ih (Nat.zero_le 2)]
        rfl
      · rw [h, List.cons_append] at hclosing ⊢
        rw [readLines?_plain hc hescape hclosing, ih (Nat.zero_le 2)]
        rfl

/-! ## Literal texts on several lines -/

/-- Three quotes close a literal text on several lines. -/
theorem readLiteralLines?_of_closing {c : Char} {s : List Char} {found : List Char × List Char}
    (h : closing? '\'' (c :: s) = some found) : readLiteralLines? (c :: s) = some found := by
  rw [readLiteralLines?, h]

theorem readLiteralLines?_newline (t : List Char) : readLiteralLines? ('\n' :: t) = (readLiteralLines? t).map (prepend '\n') := by
  rw [readLiteralLines?, closing?_of_ne (by decide)]
  rfl

/-- Any other character is read there as itself. -/
theorem readLiteralLines?_plain {c : Char} (hc : isPlain c = true) {t : List Char} (hopen : closing? '\'' (c :: t) = none) :
    readLiteralLines? (c :: t) = (readLiteralLines? t).map (prepend c) := by
  rw [readLiteralLines?, hopen]
  simp only
  split
  next heq =>
    rw [newline?_of_isPlain hc] at heq
    cases heq
  next => rw [if_pos hc]

/-- The run so far is not longer than the longest. -/
theorem run_le_longestRun (x : Char) (run : Nat) (s : List Char) : run ≤ longestRun x run s := by
  induction s generalizing run with
  | nil => exact Nat.le_refl _
  | cons c s ih =>
    unfold longestRun
    split
    · exact Nat.le_of_succ_le (ih (run + 1))
    · exact Nat.le_max_left _ _

/-- A text starts with no more of a character than its longest run, those before the text counted. -/
theorem run_add_le_longestRun {x : Char} {s : List Char} (run : Nat) {n : Nat} (h : List.replicate n x <+: s) :
    run + n ≤ longestRun x run s := by
  induction s generalizing run n with
  | nil =>
    rw [List.prefix_nil, List.replicate_eq_nil_iff] at h
    subst h
    exact Nat.le_refl _
  | cons c s ih =>
    cases n with
    | zero => exact run_le_longestRun x run (c :: s)
    | succ n =>
      rw [List.replicate_succ, List.cons_prefix_cons] at h
      have := ih (run + 1) h.2
      rw [longestRun, if_pos h.1.symm]
      omega

/-- The longest run in what follows is not longer than the longest of all. -/
theorem longestRun_tail_le (x c : Char) (run : Nat) (s : List Char) : ∃ run', longestRun x run' s ≤ longestRun x run (c :: s) := by
  rw [longestRun]
  split
  · exact ⟨run + 1, Nat.le_refl _⟩
  · exact ⟨0, Nat.le_max_right _ _⟩

/-- A text without control characters and with at most two quotes in a row is read back from a literal one on several lines. -/
theorem readLiteralLines?_append {s rest : List Char} {run : Nat} (hs : ∀ c ∈ s, isControl c = false)
    (hrun : longestRun '\'' run s ≤ 2) (hrest : Unquoted rest) :
    readLiteralLines? (s ++ '\'' :: '\'' :: '\'' :: rest) = some (s, rest) := by
  have hshort : ∀ {s run}, longestRun '\'' run s ≤ 2 → ¬List.replicate 3 '\'' <+: s := by
    intro s run hrun h
    have := run_add_le_longestRun run h
    omega
  induction s generalizing run with
  | nil =>
    have hclosing := closing?_append (hshort hrun) (hrest.ne_cons (Or.inr rfl))
    rw [List.nil_append, if_pos (by simp)] at hclosing
    exact readLiteralLines?_of_closing hclosing
  | cons c s ih =>
    have hclosing := closing?_append (hshort hrun) (hrest.ne_cons (Or.inr rfl))
    rw [List.cons_append] at hclosing ⊢
    by_cases hquotes : (c :: s).all (· = '\'')
    · rw [if_pos hquotes] at hclosing
      exact readLiteralLines?_of_closing hclosing
    · rw [if_neg hquotes] at hclosing
      obtain ⟨run', hrun'⟩ := longestRun_tail_le '\'' c run s
      have htail := ih (fun x hx => hs x (by simp [hx])) (Nat.le_trans hrun' hrun)
      by_cases hline : c = '\n'
      · rw [hline, readLiteralLines?_newline, htail]
        rfl
      · rw [readLiteralLines?_plain (isPlain_of_not_isControl (hs c (by simp)) hline) hclosing, htail]
        rfl

/-! ## Any style -/

/-- The texts that are written in a literal style on one line. -/
theorem Style.ofText_literal {s : List Char} (h : ofText s = .literal) : ∀ c ∈ s, isPlain c = true ∧ c ≠ '\'' := by
  have hs : (∀ c ∈ s, isControl c = false) ∧ '\'' ∉ s ∧ '\n' ∉ s := by
    unfold ofText at h
    simp only at h
    split at h
    · cases h
    split at h
    next hsimple => simpa [and_assoc] using hsimple
    next =>
      repeat' split at h
      all_goals cases h
  intro c hc
  have hline : c ≠ '\n' := by
    rintro rfl
    exact hs.2.2 hc
  refine ⟨isPlain_of_not_isControl (hs.1 c hc) hline, ?_⟩
  rintro rfl
  exact hs.2.1 hc

/-- The texts that are written in a literal style on several lines. -/
theorem Style.ofText_literalLines {s : List Char} (h : ofText s = .literalLines) :
    (∀ c ∈ s, isControl c = false) ∧ longestRun '\'' 0 s ≤ 2 := by
  unfold ofText at h
  simp only at h
  split at h
  · cases h
  split at h
  · cases h
  split at h
  · cases h
  split at h
  next hshort => simpa using hshort
  next =>
    split at h
    · cases h
    · cases h

/-- The newline that is written in front of a text with newlines is skipped, and no other one. -/
theorem skipNewline_leading {s w : List Char} (hw : '\n' ∉ s → newline? w = none) : skipNewline (leading s ++ w) = w := by
  unfold skipNewline leading
  by_cases hline : '\n' ∈ s
  · rw [if_pos (by simpa using hline)]
    rfl
  · rw [if_neg (by simpa using hline), List.nil_append, hw hline]
    rfl

/-- A quote that two others do not follow opens a basic text on one line. -/
theorem readQuoted?_basic {s : List Char} (h : ∀ t, s ≠ '"' :: '"' :: t) : readQuoted? ('"' :: s) = readBasic? s := by
  unfold readQuoted?
  split
  next t heq => exact absurd (List.cons.inj heq).2 (h t)
  next heq => exact absurd (List.cons.inj heq).1 (by decide)
  next => rfl

/-- Likewise for literal texts. -/
theorem readQuoted?_literal {s : List Char} (h : ∀ t, s ≠ '\'' :: '\'' :: t) : readQuoted? ('\'' :: s) = readLiteral? s := by
  unfold readQuoted?
  split
  next heq => exact absurd (List.cons.inj heq).1 (by decide)
  next t heq => exact absurd (List.cons.inj heq).2 (h t)
  next => rfl

/-- What is written inside of quotes on one line does not start with a quote. -/
theorem inside_ne_quotes (s : List Char) {rest : List Char} (hrest : Unquoted rest) (t : List Char) :
    writeInside false 0 0 s ++ '"' :: rest ≠ '"' :: '"' :: t := by
  intro h
  cases s with
  | nil => exact hrest.ne_cons (Or.inl rfl) t (List.cons.inj h).2
  | cons c s =>
    rcases inside false 0 0 c s with ⟨w, -, hw⟩ | ⟨-, hrun, -⟩ | ⟨-, hlines, -⟩ | ⟨-, hquote, -, hw⟩
    · rw [hw] at h
      exact absurd (List.cons.inj h).1 (by decide)
    · cases hrun
    · cases hlines
    · rw [hw] at h
      exact hquote (List.cons.inj h).1

/-- What is written for a text without newlines does not start with one. -/
theorem newline?_inside {s : List Char} (hs : '\n' ∉ s) (rest : List Char) :
    newline? (writeInside true 2 0 s ++ '"' :: rest) = none := by
  cases s with
  | nil => exact newline?_of_isPlain (by decide) _
  | cons c s =>
    rcases inside true 2 0 c s with ⟨w, -, hw⟩ | ⟨-, -, hw⟩ | ⟨rfl, -, -⟩ | ⟨hc, -, -, hw⟩
    · rw [hw]
      exact newline?_of_isPlain (by decide) _
    · rw [hw]
      exact newline?_of_isPlain (by decide) _
    · exact absurd (by simp) hs
    · rw [hw]
      exact newline?_of_isPlain hc _

/-- A text is read back as it was written, whatever its characters are. -/
theorem readQuoted?_writeQuoted (s : List Char) {rest : List Char} (hrest : Unquoted rest) :
    readQuoted? (writeQuoted s ++ rest) = some (s, rest) := by
  unfold writeQuoted
  cases hstyle : Style.ofText s with
  | basic =>
    simp only [Style.write, List.cons_append, List.append_assoc, List.nil_append]
    rw [readQuoted?_basic (inside_ne_quotes s hrest), readBasic?_inside]
  | literal =>
    have hs := Style.ofText_literal hstyle
    have hopen : ∀ t, s ++ '\'' :: rest ≠ '\'' :: '\'' :: t := by
      intro t h
      cases s with
      | nil => exact hrest.ne_cons (Or.inr rfl) t (List.cons.inj h).2
      | cons c s => exact (hs c (by simp)).2 (List.cons.inj h).1
    simp only [Style.write, List.cons_append, List.append_assoc, List.nil_append]
    rw [readQuoted?_literal hopen, readLiteral?_append hs]
  | lines =>
    simp only [Style.write, List.cons_append, List.append_assoc, List.nil_append]
    rw [readQuoted?, skipNewline_leading fun hline => newline?_inside hline _, readLines?_inside (Nat.zero_le 2) hrest]
  | literalLines =>
    obtain ⟨hs, hrun⟩ := Style.ofText_literalLines hstyle
    have hopen : '\n' ∉ s → newline? (s ++ '\'' :: '\'' :: '\'' :: rest) = none := by
      intro hline
      cases s with
      | nil => exact newline?_of_isPlain (by decide) _
      | cons c s =>
        refine newline?_of_isPlain (isPlain_of_not_isControl (hs c (by simp)) ?_) _
        rintro rfl
        exact hline (by simp)
    simp only [Style.write, List.cons_append, List.append_assoc, List.nil_append]
    rw [readQuoted?, skipNewline_leading hopen, readLiteralLines?_append hs hrun hrest]

/-- What is written for a text starts with a quote. -/
theorem writeQuoted_eq_cons (s : List Char) : ∃ quote t, writeQuoted s = quote :: t ∧ (quote = '"' ∨ quote = '\'') := by
  unfold writeQuoted
  cases Style.ofText s with
  | basic | lines => exact ⟨_, _, rfl, Or.inl rfl⟩
  | literal | literalLines => exact ⟨_, _, rfl, Or.inr rfl⟩

end ReviewQueue.Toml
