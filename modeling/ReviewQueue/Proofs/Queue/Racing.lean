import ReviewQueue.Proofs.Queue.Growth
import ReviewQueue.Proofs.Queue.Keys

/-!
# Calls that race for one row

Any number of handles ask for the repository of one path, or for the commit of one hash, and between their statements any
others run. The first statement that is there to add the row adds it, and all others find it: whichever handle looks it
up next, before or after its own attempt to add it, answers this one row.
-/

namespace ReviewQueue

/-- A new row that is not chosen leaves the rows that are. -/
theorem Table.filter_insertRow_of_neg {p : Row → Bool} {r : Row} (h : p r = false) (rows : List Row) :
    (insertRow r rows).filter p = rows.filter p := by
  induction rows with
  | nil => simp [insertRow, h]
  | cons x rows ih =>
    rw [insertRow]
    split
    · rw [List.filter_cons_of_neg (by simp [h])]
    · rw [List.filter_cons, List.filter_cons, ih]

namespace Key

variable {k : Key} {s : Insertion} {g : Guard} {db db' : Database} {t new : Table} {id : Int}

/-- A new row that does not have the key leaves those that have it. -/
theorem rows_of_adds_other (h : s.Adds g db t new id db') (hstrict : t.layout.isStrict = true) (hs : s.table = k.layout.name)
    (hrow : ¬k.Names (s.row t.layout id)) : k.rows db' = k.rows db := by
  have hnew : db'.rows k.layout.name = Table.insertRow (s.row t.layout id) t.rows := by
    rw [← hs, Database.rows_of_table? h.table?_self, (Table.insert?_eq_some (h.inserted hstrict)).2.1]
  have hold : db.rows k.layout.name = t.rows := by
    rw [← hs, Database.rows_of_table? h.table]
  unfold rows
  rw [hnew, hold, Table.filter_insertRow_of_neg (by simpa using hrow)]

/-- A new row that has the key is the one row that has it, if none had it before. -/
theorem rows_of_adds (h : s.Adds g db t new id db') (hstrict : t.layout.isStrict = true) (hs : s.table = k.layout.name)
    (hlacks : k.Lacks db) (hrow : k.Names (s.row t.layout id)) : k.rows db' = [s.row t.layout id] := by
  rw [lacks_iff, ← hs] at hlacks
  unfold rows
  rw [← hs]
  refine Database.filter_rows_eq_singleton ((h.mem_rows_table hstrict).mpr (Or.inl rfl)) fun x hx => ?_
  rw [decide_eq_true_eq]
  rcases (h.mem_rows_table hstrict).mp hx with rfl | hx
  · exact ⟨fun _ => rfl, fun _ => hrow⟩
  · exact ⟨fun hnames => absurd hnames (hlacks x hx), fun hsame => by rw [hsame]; exact hrow⟩

/-- A statement leaves the rows of a key, unless its call is for the key and there are none. -/
theorem rows_run_cases {c : Connection} (hdb : c.database.IsCurrent) (now : Timestamp) (call : Call) :
    k.rows (call.run c now).2 = k.rows c.database ∨ call.operation.key? = some k ∧ k.Lacks c.database := by
  have hacts := Call.run_acts c now call
  generalize (call.run c now).2 = db at hacts ⊢
  cases hacts with
  | nothing => exact Or.inl rfl
  | @inserts _ s _ _ statement inserts _ =>
    by_cases hs : s.table = k.layout.name
    · obtain ⟨e, rfl, rfl⟩ := Entry.exists_of_insertion? statement hs
      rcases Connection.insert_cases hdb e.key.layout_mem (e.insertion_table now) inserts with
        ⟨-, rfl, -⟩ | ⟨t, new, number, hadds, -, -⟩
      · exact Or.inl rfl
      · obtain ⟨u, hu, hl⟩ := hdb e.key.layout e.key.layout_mem
        rw [← e.insertion_table now] at hu
        cases hu.symm.trans hadds.table
        have hstrict : t.layout.isStrict = true := by rw [hl]; exact Entry.isStrict_key e.key
        by_cases hnames : k.Names ((e.insertion now).row t.layout number)
        · rw [hl] at hnames
          obtain rfl := Entry.key_eq_of_names ((e.insertion_table now).symm.trans hs) hnames
          refine Or.inr ⟨by rw [e.operation_adding, Operation.key?, e.entry?_operation, Option.map_some], ?_⟩
          -- a row that had the key would be in the way
          rw [lacks_iff, ← e.insertion_table now, Database.rows_of_table? hadds.table]
          have hnumber : t.nextId = number := Except.ok.inj ((e.number_insertion now hl).symm.trans hadds.number)
          exact (e.rival?_insertion now hl).mp (by rw [hnumber]; exact hadds.differs)
        · exact Or.inl (rows_of_adds_other hadds hstrict hs hnames)
    · exact Or.inl (rows_congr ((Connection.insert_frame hdb inserts).1 _ fun hsame => hs hsame.symm))
  | changes statement changes _ =>
    obtain ⟨source, target, hmoves⟩ := Call.change?_moves statement
    obtain ⟨t, -, -, hgives⟩ := Connection.gives_of_change hdb hmoves changes
    exact Or.inl (rows_congr (hgives.table?_of_ne (by rw [hmoves.table]; exact k.layout_name_ne.1)))
  | @completes id _ _ _ _ _ changes inserts _ =>
    have hmoves := Connection.finishing_moves now id .done none
    obtain ⟨t, -, -, hgives⟩ := Connection.gives_of_change hdb hmoves (Connection.change_eq_within hmoves hdb ▸ changes)
    obtain ⟨_, _, _, hadds, -⟩ := Connection.insertWithin_adds inserts
    exact Or.inl ((rows_congr (hadds.table?_of_ne k.layout_name_ne.2)).trans
      (rows_congr (hgives.table?_of_ne k.layout_name_ne.1)))

/-- A statement of another call leaves the rows of a key. -/
theorem rows_run {c : Connection} (hdb : c.database.IsCurrent) (now : Timestamp) {call : Call}
    (hother : call.operation.key? ≠ some k) : k.rows (call.run c now).2 = k.rows c.database :=
  (rows_run_cases hdb now call).resolve_right fun h => hother h.1

end Key

namespace Entry

/-- What the next statement of a call for an entry does, if the lock is free: the row is missing and to be added, or is
added, or is left for the one that is there, or is answered. -/
inductive Raced (e : Entry) (c : Connection) (now : Timestamp) : Call → Progress × Database → Prop where
  | missed (lacks : e.key.Lacks c.database) : Raced e c now (.asked e.operation) (.next e.adding, c.database)
  | adds {t new : Table} {db : Database} (lacks : e.key.Lacks c.database) (layout : t.layout = e.key.layout)
      (adds : (e.insertion now).Adds c.guard c.database t new t.nextId db) : Raced e c now e.adding (.next e.added, db)
  | left {x : Answer} (has : e.key.Has c.database x) : Raced e c now e.adding (.next e.added, c.database)
  | answers {call : Call} {x : Answer} (has : e.key.Has c.database x) : Raced e c now call (.answered (.ok x), c.database)

variable {c : Connection} {e : Entry} {now : Timestamp}

theorem run_raced (hdb : c.database.IsCurrent) (hlock : c.locked = false) (now : Timestamp) {call : Call}
    (hcall : call.operation.entry? = some e) (hkey : e.key.Lacks c.database ∨ ∃ x, e.key.Has c.database x)
    (hready : call = e.adding → e.Ready c.database) (hadded : call = e.added → ¬e.key.Lacks c.database) :
    Raced e c now call (call.run c now) := by
  rcases call_cases hcall with rfl | rfl | rfl
  · rw [run_asked]
    rcases hkey with hlacks | ⟨x, hx⟩
    · rw [Key.look_of_lacks hdb hlacks]
      exact .missed hlacks
    · rw [Key.look_of_has hdb hx]
      exact .answers hx
  · rw [run_adding]
    rcases hkey with hlacks | ⟨x, hx⟩
    · obtain ⟨a, t, new, db, hins, -, hl, hadds⟩ := insert_of_lacks hdb hlock now (hready rfl).hasParent hlacks
      rw [hins]
      exact .adds hlacks hl hadds
    · rw [insert_of_taken hdb hlock hx.not_lacks]
      exact .left hx
  · rw [run_added]
    rcases hkey with hlacks | ⟨x, hx⟩
    · exact absurd hlacks (hadded rfl)
    · rw [Key.look_of_has hdb hx]
      exact .answers hx

/-- The row that is added is read as the entry that added it. -/
theorem has_of_adds {g : Guard} {db db' : Database} {t new : Table} {id : Int} (hlacks : e.key.Lacks db)
    (hl : t.layout = e.key.layout) (hready : e.Ready db) (hnow : now.IsPlain)
    (hadds : (e.insertion now).Adds g db t new id db') : e.key.Has db' (e.entity id now) := by
  have hrows := Key.rows_of_adds hadds (by rw [hl]; exact isStrict_key e.key) (e.insertion_table now) hlacks
    (by rw [hl]; exact e.names_row now id)
  refine ⟨_, hrows, ?_⟩
  rw [hl]
  cases e with
  | repo path =>
    have hread := Repo.ofRecord_recordOf (Connection.registration_holds now path id) hnow
    exact congrArg (Except.map Answer.repo) hread
  | commit info =>
    have hread := Commit.ofRecord_recordOf (Connection.storing_holds now info id) hready.1 hnow.1
    rw [show now.readBack = now from Timestamp.readBack_of_leapsLast hnow.2] at hread
    exact congrArg (Except.map Answer.commit) hread

/-- Repositories stay, so an entry whose row can be added stays one. -/
theorem Ready.run (h : e.Ready c.database) (hdb : c.database.IsCurrent) (now : Timestamp) (call : Call) :
    e.Ready (call.run c now).2 := by
  cases e with
  | repo path => trivial
  | commit info =>
    obtain ⟨hplain, r, hr, hid⟩ := h
    exact ⟨hplain, r, (Call.run_gains hdb now call).1.kept r hr, hid⟩

end Entry

namespace Site

/-- Whether the next statement of a handle is there to add the row of a key. -/
def Inserts (w : Site) (k : Key) (a : Action) : Prop := ∃ e : Entry, e.key = k ∧ w.call a = e.adding

/-- What the calls for a key meet with on an action: the lock is free, the clock shows a year of four digits, and what is asked
for is an entry whose row can be added. -/
def Favours (w : Site) (k : Key) (a : Action) : Prop := (w.call a).operation.key? = some k →
  a.locked = false ∧ a.now.IsPlain ∧ ∀ e ∈ (w.call a).asks?, e.Ready w.database

instance (w : Site) (k : Key) (a : Action) : Decidable (w.Favours k a) := inferInstanceAs (Decidable (_ → _ ∧ _ ∧ _))

/-- Whether the calls for a key meet with that on each action of a run. All else may run in between. -/
def Races (k : Key) : Site → List Action → Prop
  | _, [] => True
  | w, a :: as => w.Favours k a ∧ Races k (w.step a).1 as

theorem Races.of_append {k : Key} {w : Site} {as bs : List Action} (h : Races k w (as ++ bs)) :
    Races k w as ∧ Races k (w.after as) bs := by
  induction as generalizing w with
  | nil => exact ⟨trivial, h⟩
  | cons a as ih => exact ⟨⟨h.1, (ih h.2).1⟩, (ih h.2).2⟩

/-- A call that has run a statement is under way. -/
theorem calls_of_call {w : Site} {a : Action} {call : Call} (h : w.call a = call) (hcall : ∀ op, call ≠ .asked op) :
    w.calls a.handle = some call := by
  unfold Site.call at h
  cases hc : w.calls a.handle with
  | none =>
    rw [hc] at h
    exact absurd h.symm (hcall _)
  | some other =>
    rw [hc] at h
    exact congrArg some h

/-- No statement of a run is there to add the row if neither the first one is nor one of the others. -/
theorem not_inserts_cons {k : Key} {w : Site} {a : Action} {as : List Action} (h : ¬w.Inserts k a)
    (hs : ∀ bs b cs, as = bs ++ b :: cs → ¬((w.step a).1.after bs).Inserts k b) :
    ∀ bs b cs, a :: as = bs ++ b :: cs → ¬(w.after bs).Inserts k b := by
  intro bs b cs hsplit
  cases bs with
  | nil =>
    cases hsplit
    exact h
  | cons x bs =>
    cases hsplit
    exact hs bs b cs rfl

/-- What holds while calls for a key race: there is no row or one that can be read, a call that is to add it can, and a call
that is to find it will. -/
structure Converging (k : Key) (w : Site) : Prop where
  current : w.database.IsCurrent
  key : k.Lacks w.database ∨ ∃ x, k.Has w.database x
  adding : ∀ handle (e : Entry), w.calls handle = some e.adding → e.key = k → e.Ready w.database
  added : ∀ handle (e : Entry), w.calls handle = some e.added → e.key = k → ¬k.Lacks w.database

namespace Converging

variable {k : Key} {w : Site} {a : Action}

/-- The next statement of a call for the key does one of the four things. -/
theorem raced (h : Converging k w) (ha : w.Favours k a) (hk : (w.call a).operation.key? = some k) :
    ∃ e : Entry, e.key = k ∧ (w.call a).operation.entry? = some e ∧ ((∃ op, w.call a = .asked op) ∨ w.call a = e.adding →
      e.Ready w.database) ∧ e.Raced (w.connection a) a.now (w.call a) ((w.call a).run (w.connection a) a.now) := by
  obtain ⟨hlock, -, hready⟩ := ha hk
  obtain ⟨e, he, hkey⟩ := Option.map_eq_some_iff.mp hk
  have hadding : w.call a = e.adding → e.Ready w.database := fun hcall =>
    h.adding a.handle e (calls_of_call hcall fun op => by cases e <;> exact Call.noConfusion) hkey
  have hadded : w.call a = e.added → ¬e.key.Lacks w.database := by
    intro hcall
    rw [hkey]
    exact h.added a.handle e (calls_of_call hcall fun op => by cases e <;> exact Call.noConfusion) hkey
  refine ⟨e, hkey, he, ?_, ?_⟩
  · rintro (⟨op, hcall⟩ | hcall)
    · rw [hcall] at he hready
      exact hready e he
    · exact hadding hcall
  · exact Entry.run_raced (c := w.connection a) h.current hlock a.now he (by rw [hkey]; exact h.key) hadding hadded

/-- A statement leaves the rows of the key, or is the first that is there to add the row, and adds it. -/
theorem rows_step (h : Converging k w) (ha : w.Favours k a) :
    (k.rows (w.step a).1.database = k.rows w.database ∧ (k.Lacks w.database → ¬w.Inserts k a)) ∨
    k.Lacks w.database ∧ ∃ (e : Entry) (t : Table), e.key = k ∧ w.call a = e.adding ∧
      w.database.table? k.layout.name = some t ∧ k.Has (w.step a).1.database (e.entity t.nextId a.now) := by
  rw [step_database]
  by_cases hk : (w.call a).operation.key? = some k
  · obtain ⟨e, rfl, -, hready, hraced⟩ := h.raced ha hk
    unfold Inserts
    generalize (w.call a).run (w.connection a) a.now = v at hraced ⊢
    generalize w.call a = call at hraced hready ⊢
    cases hraced with
    | missed =>
      refine Or.inl ⟨rfl, fun _ => ?_⟩
      rintro ⟨e', -, hcall⟩
      cases e' <;> cases hcall
    | adds lacks layout adds =>
      have hnow := (ha hk).2.1
      refine Or.inr ⟨lacks, e, _, rfl, rfl, ?_, Entry.has_of_adds lacks layout (hready (Or.inr rfl)) hnow adds⟩
      rw [← e.insertion_table a.now]
      exact adds.table
    | left has => exact Or.inl ⟨rfl, fun hlacks => absurd hlacks has.not_lacks⟩
    | answers has => exact Or.inl ⟨rfl, fun hlacks => absurd hlacks has.not_lacks⟩
  · refine Or.inl ⟨Key.rows_run (c := w.connection a) h.current a.now hk, fun _ => ?_⟩
    rintro ⟨e, rfl, hcall⟩
    refine hk ?_
    rw [hcall, e.operation_adding, Operation.key?, e.entry?_operation, Option.map_some]

/-- The row stays what it is. -/
theorem has_step (h : Converging k w) (ha : w.Favours k a) {x : Answer} (hx : k.Has w.database x) :
    k.Has (w.step a).1.database x := by
  rcases h.rows_step ha with ⟨hsame, -⟩ | ⟨hlacks, -⟩
  · exact hx.congr hsame
  · exact absurd hlacks hx.not_lacks

/-- A call for the key that is answered is answered the row. -/
theorem answer_step (h : Converging k w) (ha : w.Favours k a) {e : Event} (he : (w.step a).2 = some e)
    (hk : e.operation.key? = some k) : ∃ x, e.answer = .ok x ∧ k.Has (w.step a).1.database x := by
  obtain ⟨hanswer, -, hop⟩ := step_event.mp he
  rw [hop] at hk
  obtain ⟨entry, rfl, -, -, hraced⟩ := h.raced ha hk
  rw [step_database]
  generalize e.answer = answer at hanswer ⊢
  generalize (w.call a).run (w.connection a) a.now = v at hraced hanswer ⊢
  generalize w.call a = call at hraced
  cases hraced with
  | @answers _ x has =>
    cases hanswer
    exact ⟨x, rfl, has⟩
  | _ => cases hanswer

/-- An action keeps calls converging. -/
theorem step (h : Converging k w) (ha : w.Favours k a) : Converging k (w.step a).1 := by
  have hlacks : ¬k.Lacks w.database → ¬k.Lacks (w.step a).1.database := by
    intro hnot
    obtain ⟨x, hx⟩ := h.key.resolve_left hnot
    exact (h.has_step ha hx).not_lacks
  have hready : ∀ {e : Entry}, e.Ready w.database → e.Ready (w.step a).1.database := by
    intro e he
    rw [step_database]
    exact he.run (c := w.connection a) h.current a.now (w.call a)
  -- a call that comes to be under way is the one whose statement was run
  have hnext : ∀ {e : Entry} {call : Call}, ((w.call a).run (w.connection a) a.now).1 = .next call → call.operation = e.operation →
      e.key = k → (w.call a).operation.entry? = some e ∧ (w.call a).operation.key? = some k := by
    intro e call hcall hop hkey
    rw [← (Call.run_next hcall).1, hop, Operation.key?, e.entry?_operation, ← hkey]
    exact ⟨rfl, rfl⟩
  refine ⟨step_isCurrent h.current a, ?_, fun handle e hcall hkey => ?_, fun handle e hcall hkey => ?_⟩
  · rcases h.rows_step ha with ⟨hsame, -⟩ | ⟨-, e, t, -, -, -, hx⟩
    · rcases h.key with hnone | ⟨x, hx⟩
      · exact Or.inl (hsame.trans hnone)
      · exact Or.inr ⟨x, hx.congr hsame⟩
    · exact Or.inr ⟨_, hx⟩
  · rcases step_calls hcall with hrun | hbefore
    · obtain ⟨hentry, hk⟩ := hnext hrun e.operation_adding hkey
      obtain ⟨e', -, hentry', hasked, hraced⟩ := h.raced ha hk
      cases hentry.symm.trans hentry'
      refine hready (hasked ?_)
      generalize (w.call a).run (w.connection a) a.now = v at hraced hrun
      generalize w.call a = call at hraced
      cases hraced with
      | missed => exact Or.inl ⟨_, rfl⟩
      | adds | left => exact Or.inr rfl
      | answers => cases hrun
    · exact hready (h.adding handle e hbefore hkey)
  · rcases step_calls hcall with hrun | hbefore
    · obtain ⟨hentry, hk⟩ := hnext hrun e.operation_added hkey
      obtain ⟨e', hkey', hentry', hasked, hraced⟩ := h.raced ha hk
      cases hentry.symm.trans hentry'
      rw [step_database]
      have hnow := (ha hk).2.1
      generalize (w.call a).run (w.connection a) a.now = v at hraced hrun ⊢
      generalize w.call a = call at hraced hasked
      cases hraced with
      | missed => cases e <;> cases hrun
      | adds lacks layout adds =>
        rw [← hkey]
        exact (Entry.has_of_adds lacks layout (hasked (Or.inr rfl)) hnow adds).not_lacks
      | left has =>
        rw [← hkey]
        exact has.not_lacks
      | answers => cases hrun
    · exact hlacks (h.added handle e hbefore hkey)

/-- So does a run. -/
theorem after (h : Converging k w) {as : List Action} (has : Races k w as) : Converging k (w.after as) := by
  induction as generalizing w with
  | nil => exact h
  | cons a as ih => exact ih (h.step has.1) has.2

/-- What is stored under the key stays so. -/
theorem has_after (h : Converging k w) {as : List Action} (has : Races k w as) {x : Answer} (hx : k.Has w.database x) :
    k.Has (w.after as).database x := by
  induction as generalizing w with
  | nil => exact hx
  | cons a as ih => exact ih (h.step has.1) has.2 (h.has_step has.1 hx)

/-- All calls for the key that are answered are answered the row that is there in the end. -/
theorem answers_after (h : Converging k w) {as : List Action} (has : Races k w as) {e : Event} (he : e ∈ w.history as)
    (hk : e.operation.key? = some k) : ∃ x, e.answer = .ok x ∧ k.Has (w.after as).database x := by
  induction as generalizing w with
  | nil => cases he
  | cons a as ih =>
    obtain ⟨hfirst, hrest⟩ := has
    rcases List.mem_append.mp he with he | he
    · obtain ⟨x, hx, hthere⟩ := h.answer_step hfirst (Option.mem_toList.mp he) hk
      exact ⟨x, hx, (h.step hfirst).has_after hrest hthere⟩
    · exact ih (h.step hfirst) hrest he

/-- If there is no row to begin with, the first statement that is there to add it does, and the row is that of its entry under
the next number. -/
theorem first_after (h : Converging k w) (hlacks : k.Lacks w.database) {as : List Action} (has : Races k w as) :
    (k.Lacks (w.after as).database ∧ ∀ bs a cs, as = bs ++ a :: cs → ¬(w.after bs).Inserts k a) ∨
    ∃ bs a cs, as = bs ++ a :: cs ∧ (∀ ds b es, bs = ds ++ b :: es → ¬(w.after ds).Inserts k b) ∧
      ∃ (e : Entry) (t : Table), e.key = k ∧ (w.after bs).call a = e.adding ∧
        (w.after bs).database.table? k.layout.name = some t ∧ k.Has (w.after as).database (e.entity t.nextId a.now) := by
  induction as generalizing w with
  | nil => exact Or.inl ⟨hlacks, fun bs a cs hnil => by cases bs <;> cases hnil⟩
  | cons a as ih =>
    obtain ⟨hfirst, hrest⟩ := has
    rcases h.rows_step hfirst with ⟨hsame, hinserts⟩ | ⟨-, e, t, hkey, hcall, htable, hhas⟩
    · have hinserts := hinserts hlacks
      have hstill : k.Lacks (w.step a).1.database := hsame.trans hlacks
      rcases ih (h.step hfirst) hstill hrest with ⟨hnone, hnot⟩ | ⟨bs, b, cs, rfl, hnot, hadded⟩
      · exact Or.inl ⟨hnone, not_inserts_cons hinserts hnot⟩
      · exact Or.inr ⟨a :: bs, b, cs, rfl, not_inserts_cons hinserts hnot, hadded⟩
    · refine Or.inr ⟨[], a, as, rfl, fun ds b es hnil => ?_, e, t, hkey, hcall, htable, (h.step hfirst).has_after hrest hhas⟩
      cases ds <;> cases hnil

/-- A statement of a call for the key leaves the database, or adds the one row that has the key and nothing else. -/
theorem frame_step (h : Converging k w) (ha : w.Favours k a) (hk : (w.call a).operation.key? = some k) :
    (w.step a).1.database = w.database ∨ k.Lacks w.database ∧ ∃ r, k.Names r ∧
      ∀ name x, x ∈ (w.step a).1.database.rows name ↔ x ∈ w.database.rows name ∨ name = k.layout.name ∧ x = r := by
  rw [step_database]
  obtain ⟨e, rfl, -, -, hraced⟩ := h.raced ha hk
  generalize (w.call a).run (w.connection a) a.now = v at hraced ⊢
  generalize w.call a = call at hraced
  cases hraced with
  | missed | left | answers => exact Or.inl rfl
  | @adds t new db lacks layout adds =>
    refine Or.inr ⟨lacks, (e.insertion a.now).row t.layout t.nextId, by rw [layout]; exact e.names_row _ _, fun name x => ?_⟩
    rw [← e.insertion_table a.now]
    by_cases hname : name = (e.insertion a.now).table
    · rw [hname, adds.mem_rows_table (by rw [layout]; exact Entry.isStrict_key e.key)]
      simp only [true_and]
      exact or_comm
    · rw [Database.rows_congr (adds.table?_of_ne hname)]
      simp only [hname, false_and, or_false]
      exact Iff.rfl

end Converging
end Site

/-- Any number of calls ask for the repository of one path, or for the commit of one hash, and their statements come in any order
among each other and among those of other calls. No such call is under way to begin with, and the row is missing or can
be read. In five parts:
1. A call for the row that is answered is answered without an error, and with the one row that there is in the end.
2. A call that is not answered yet has fewer statements ahead than before.
3. If the row was missing, the first statement that was there to add it did, under the next number, and the row is that of
   its entry; it is still missing only if no such statement was run.
4. If it was there it stays what it was.
5. The statements of these calls change nothing, but for the one that adds the row, which adds nothing else. -/
theorem racing_converges (k : Key) (w : Site) (hw : w.database.IsCurrent)
    (hidle : ∀ handle call, w.calls handle = some call → call.operation.key? ≠ some k)
    (hstart : k.Lacks w.database ∨ ∃ x, k.Has w.database x) (as : List Action) (has : Site.Races k w as) :
    (∀ e ∈ w.history as, e.operation.key? = some k → ∃ x, e.answer = .ok x ∧ k.Has (w.after as).database x) ∧
    (∀ bs a cs, as = bs ++ a :: cs → ((w.after bs).call a).operation.key? = some k → ((w.after bs).step a).2 = none →
      ∃ call, ((w.after bs).step a).1.calls a.handle = some call ∧ call.ahead < ((w.after bs).call a).ahead) ∧
    (k.Lacks w.database →
      (k.Lacks (w.after as).database ∧ ∀ bs a cs, as = bs ++ a :: cs → ¬(w.after bs).Inserts k a) ∨
      ∃ bs a cs, as = bs ++ a :: cs ∧ (∀ ds b es, bs = ds ++ b :: es → ¬(w.after ds).Inserts k b) ∧
        ∃ (e : Entry) (t : Table), e.key = k ∧ (w.after bs).call a = e.adding ∧
          (w.after bs).database.table? k.layout.name = some t ∧ k.Has (w.after as).database (e.entity t.nextId a.now)) ∧
    (∀ x, k.Has w.database x → k.Has (w.after as).database x) ∧
    ∀ bs a cs, as = bs ++ a :: cs → ((w.after bs).call a).operation.key? = some k →
      ((w.after bs).step a).1.database = (w.after bs).database ∨ k.Lacks (w.after bs).database ∧ ∃ r, k.Names r ∧
        ∀ name x, x ∈ ((w.after bs).step a).1.database.rows name ↔
          x ∈ (w.after bs).database.rows name ∨ name = k.layout.name ∧ x = r := by
  have hidle' : ∀ handle call (e : Entry), w.calls handle = some call → call.operation = e.operation → e.key ≠ k := by
    intro handle call e hcall hop hkey
    refine hidle handle call hcall ?_
    rw [hop, Operation.key?, e.entry?_operation, Option.map_some, hkey]
  have h : Site.Converging k w := ⟨hw, hstart, fun handle e hcall hkey => absurd hkey (hidle' _ _ e hcall e.operation_adding),
    fun handle e hcall hkey => absurd hkey (hidle' _ _ e hcall e.operation_added)⟩
  refine ⟨fun e he hk => h.answers_after has he hk, ?_, fun hlacks => h.first_after hlacks has, fun x => h.has_after has, ?_⟩
  · rintro bs a cs - - hnone
    unfold Site.step at hnone ⊢
    split at hnone
    next call db hrun => exact ⟨call, Function.update_self .., (Call.run_next (congrArg Prod.fst hrun)).2⟩
    next => cases hnone
  · rintro bs a cs rfl hk
    obtain ⟨hbefore, hhere⟩ := has.of_append
    exact (h.after hbefore).frame_step hhere.1 hk

/-- A database with one repository. -/
def Database.oneRepo : Database :=
  (Site.fresh.after (List.replicate 3 ⟨0, .registerRepo (.ofString "/work"), .epoch, false⟩)).database

/-- Two handles store one commit, each under an author of its own: both look it up in vain, the second one adds it, and the
first one comes too late. -/
def Site.twoAuthors : List Action :=
  let ada : Action := ⟨0, .storeCommit ⟨1, "abc123", "ada", "s", .epoch⟩, .epoch, false⟩
  let bob : Action := ⟨1, .storeCommit ⟨1, "abc123", "bob", "s", .epoch⟩, .epoch, false⟩
  [ada, bob, bob, ada, ada, bob]

/-- Both are answered the commit that the second one added. -/
theorem racing_converges_twoAuthors :
    let w := Site.quiet .oneRepo
    (Key.hash "abc123").Lacks w.database ∧ (w.history Site.twoAuthors).map (·.handle) = [0, 1] ∧
    ∀ e ∈ w.history Site.twoAuthors, e.answer = .ok (.commit ⟨1, 1, "abc123", "bob", "s", .epoch, .epoch⟩) := by
  have hw : (Site.quiet .oneRepo).database.IsCurrent := by decide +kernel
  have hlacks : (Key.hash "abc123").Lacks (Site.quiet .oneRepo).database := by
    unfold Key.Lacks
    decide +kernel
  have hraces : Site.Races (.hash "abc123") (.quiet .oneRepo) Site.twoAuthors :=
    ⟨by decide +kernel, by decide +kernel, by decide +kernel, by decide +kernel, by decide +kernel, by decide +kernel, trivial⟩
  have hrow : (Key.hash "abc123").Has ((Site.quiet .oneRepo).after Site.twoAuthors).database
      (.commit ⟨1, 1, "abc123", "bob", "s", .epoch, .epoch⟩) :=
    ⟨(Connection.storing .epoch ⟨1, "abc123", "bob", "s", .epoch⟩).row .commits 1, by decide +kernel, by decide +kernel⟩
  have hkeys : ∀ e ∈ (Site.quiet .oneRepo).history Site.twoAuthors, e.operation.key? = some (.hash "abc123") := by
    decide +kernel
  obtain ⟨hanswers, -⟩ := racing_converges (.hash "abc123") (.quiet .oneRepo) hw (fun _ _ h => by cases h) (Or.inl hlacks)
    Site.twoAuthors hraces
  refine ⟨hlacks, by decide +kernel, fun e he => ?_⟩
  obtain ⟨x, hx, hthere⟩ := hanswers e he (hkeys e he)
  rw [hx, hthere.inj hrow]

end ReviewQueue
