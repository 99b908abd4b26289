import Mathlib.Data.List.Forall2
import ReviewQueue.Proofs.Store.Changes

/-!
# Finding rows

A query whose names all mean columns is not refused: it answers the rows that have its cells. What is found is read row
by row, so reading fails only where one of these rows cannot be read.
-/

namespace ReviewQueue

/-! ## Lists in step -/

/-- A member of one list has a partner in the other. -/
theorem exists_of_forall₂ {α β : Type} {R : α → β → Prop} {as : List α} {bs : List β} (h : List.Forall₂ R as bs) {a : α}
    (ha : a ∈ as) : ∃ b ∈ bs, R a b := by
  induction h with
  | nil => cases ha
  | cons hab _ ih =>
    rcases List.mem_cons.mp ha with rfl | ha
    · exact ⟨_, by simp, hab⟩
    · obtain ⟨b, hb, hr⟩ := ih ha
      exact ⟨b, by simp [hb], hr⟩

/-- Where each member of a list has a partner, there is a list of partners. -/
theorem exists_forall₂ {α β : Type} {R : α → β → Prop} {as : List α} (h : ∀ a ∈ as, ∃ b, R a b) :
    ∃ bs, List.Forall₂ R as bs := by
  induction as with
  | nil => exact ⟨[], .nil⟩
  | cons a as ih =>
    obtain ⟨b, hb⟩ := h a (by simp)
    obtain ⟨bs, hbs⟩ := ih fun x hx => h x (by simp [hx])
    exact ⟨b :: bs, .cons hb hbs⟩

/-- Where partners are mapped to the same, so are the lists. -/
theorem map_eq_of_forall₂ {α β γ : Type} {R : α → β → Prop} {f : α → γ} {g : β → γ} {as : List α} {bs : List β}
    (h : List.Forall₂ R as bs) (hfg : ∀ a ∈ as, ∀ b, R a b → f a = g b) : bs.map g = as.map f := by
  induction h with
  | nil => rfl
  | cons hab _ ih =>
    rw [List.map_cons, List.map_cons, hfg _ (by simp) _ hab, ih fun a ha => hfg a (by simp [ha])]

/-- Where each member of a list gives what belongs to its partner or nothing, all give what belongs to the partners left. -/
theorem forall₂_flatMap_filter {α β γ : Type} {R : α → β → Prop} {S : γ → β → Prop} {as : List α} {bs : List β} {f : α → List γ}
    {p : β → Prop} [DecidablePred p] (h : List.Forall₂ R as bs)
    (hf : ∀ a ∈ as, ∀ b ∈ bs, R a b → List.Forall₂ S (f a) (if p b then [b] else [])) :
    List.Forall₂ S (as.flatMap f) (bs.filter fun b => p b) := by
  induction h with
  | nil => exact .nil
  | @cons a b as bs hab _ ih =>
    have hfirst := hf a (by simp) b (by simp) hab
    have hrest := ih fun x hx y hy => hf x (by simp [hx]) y (by simp [hy])
    rw [List.flatMap_cons, List.filter_cons]
    split at hfirst
    next hp =>
      rw [if_pos (decide_eq_true hp)]
      exact List.rel_append hfirst hrest
    next hp =>
      rw [if_neg (by simp [hp]), List.forall₂_nil_right_iff.mp hfirst]
      exact hrest

/-! ## Reading records -/

theorem eq_ok_of_liftFault {α : Type} {x : Except Fault α} {a : α} (h : liftFault x = .ok a) : x = .ok a := by
  cases x <;> cases h
  rfl

/-- What is read in step is read all together. -/
theorem mapM_of_forall₂ {α β : Type} {read : α → Except Fault β} {as : List α} {bs : List β}
    (h : List.Forall₂ (fun a b => read a = .ok b) as bs) : as.mapM read = .ok bs := by
  induction h with
  | nil => rfl
  | cons hab _ ih =>
    rw [List.mapM_cons, hab, ih]
    rfl

/-- All are read together if each can be read. -/
theorem exists_mapM {α β : Type} {read : α → Except Fault β} {as : List α} (h : ∀ a ∈ as, ∃ b, read a = .ok b) :
    ∃ bs, as.mapM read = .ok bs :=
  (exists_forall₂ h).imp fun _ => mapM_of_forall₂

/-- What is read all together is read in step. -/
theorem forall₂_of_mapM {α β : Type} {read : α → Except Fault β} {as : List α} {bs : List β} (h : as.mapM read = .ok bs) :
    List.Forall₂ (fun a b => read a = .ok b) as bs := by
  induction as generalizing bs with
  | nil =>
    cases h
    exact .nil
  | cons a as ih =>
    rw [List.mapM_cons] at h
    cases ha : read a with
    | error f =>
      rw [ha] at h
      cases h
    | ok b =>
      cases hrest : as.mapM read with
      | error f =>
        rw [ha, hrest] at h
        cases h
      | ok rest =>
        rw [ha, hrest] at h
        cases h
        exact .cons ha (ih hrest)

/-- Reading all together ends at the first that cannot be read, and its fault is reported. -/
theorem mapM_eq_error_iff {α β : Type} {read : α → Except Fault β} {as : List α} {f : Fault} : as.mapM read = .error f ↔
    ∃ before a rest, as = before ++ a :: rest ∧ (∀ x ∈ before, ∃ b, read x = .ok b) ∧ read a = .error f := by
  constructor
  · intro h
    induction as with
    | nil => cases h
    | cons a as ih =>
      rw [List.mapM_cons] at h
      cases ha : read a with
      | error f' =>
        rw [ha] at h
        cases h
        exact ⟨[], a, as, rfl, nofun, ha⟩
      | ok b =>
        cases hrest : as.mapM read with
        | ok rest =>
          rw [ha, hrest] at h
          cases h
        | error f' =>
          rw [ha, hrest] at h
          cases h
          obtain ⟨before, x, rest, rfl, hbefore, hx⟩ := ih hrest
          exact ⟨a :: before, x, rest, rfl, List.forall_mem_cons.mpr ⟨⟨b, ha⟩, hbefore⟩, hx⟩
  · rintro ⟨before, a, rest, rfl, hbefore, ha⟩
    obtain ⟨bs, hbs⟩ := exists_mapM hbefore
    rw [List.mapM_append, hbs, List.mapM_cons, ha]
    rfl

/-- What is taken up record by record is taken up of all if it is of each. -/
theorem Record.exists_foldlM {α : Type} {add : α → Record → Except Fault α} {records : List Record}
    (h : ∀ x ∈ records, ∀ a, ∃ b, add a x = .ok b) (a : α) : ∃ b, records.foldlM add a = .ok b := by
  induction records generalizing a with
  | nil => exact ⟨a, rfl⟩
  | cons x records ih =>
    obtain ⟨b, hb⟩ := h x (by simp) a
    obtain ⟨last, hlast⟩ := ih (fun y hy => h y (by simp [hy])) b
    exact ⟨last, by rw [List.foldlM_cons, hb]; exact hlast⟩

namespace Query

variable {q : Query} {db : Database} {t : Table}

/-- Whether all names of a query mean columns. -/
def isKnown (q : Query) (l : Layout) : Bool := l.knows q.columns && l.knows (q.having.map (·.1))

/-- Whether the names of a query mean columns depends on the names alone. -/
theorem isKnown_of_names {table : String} {columns : List String} {having : List (String × Cell)} {l : Layout}
    (names : List String) (hnames : having.map (·.1) = names) (h : (l.knows columns && l.knows names) = true) :
    (Query.mk table columns having).isKnown l = true := by
  rw [← hnames] at h
  exact h

/-- The records that a query finds in a table. -/
def found (q : Query) (t : Table) : List Record :=
  (t.rows.filter (·.hasAll t.layout q.having)).map (·.record (t.layout.pick q.columns))

/-- A query of a known table answers what it finds. -/
theorem run_eq (ht : db.table? q.table = some t) (hq : q.isKnown t.layout = true) : q.run db = .ok (q.found t) := by
  simp only [isKnown, Bool.and_eq_true] at hq
  have hfaults : q.faults db = [] := by
    unfold faults Database.faultsOn
    rw [ht]
    simp only [Layout.unknown_eq_nil hq.1, Layout.unknown_eq_nil hq.2, List.append_nil]
  unfold run
  simp only [hfaults, Database.need_eq_ok.mpr ht, bind, Except.bind]
  rfl

/-- It finds the records of the rows that have the cells. -/
theorem mem_found {x : Record} : x ∈ q.found t ↔
    ∃ r ∈ t.rows, r.hasAll t.layout q.having = true ∧ r.record (t.layout.pick q.columns) = x := by
  unfold found
  rw [List.mem_map]
  simp only [List.mem_filter, and_assoc]

end Query

namespace Connection

variable {c : Connection} {q : Query} {t : Table} {α : Type} {read : Record → Except Fault α}

/-- The first of them is read. -/
theorem first_eq (ht : c.database.table? q.table = some t) (hq : q.isKnown t.layout = true) :
    c.first q read = match (q.found t).head? with
      | none => .ok none
      | some x => (read x).map some := by
  unfold first
  rw [Query.run_eq ht hq]
  simp only [bind, Except.bind, pure, Except.pure]
  cases (q.found t).head? with
  | none => rfl
  | some x => cases hread : read x <;> simp only [hread, Except.map]

/-- The first row is found if each that can be found can be read. -/
theorem exists_first (ht : c.database.table? q.table = some t) (hq : q.isKnown t.layout = true)
    (hread : ∀ r ∈ t.rows, ∃ a, read (r.record (t.layout.pick q.columns)) = .ok a) : ∃ a, c.first q read = .ok a := by
  rw [first_eq ht hq]
  cases hx : (q.found t).head? with
  | none => exact ⟨none, rfl⟩
  | some x =>
    obtain ⟨r, hr, -, rfl⟩ := Query.mem_found.mp (List.mem_of_mem_head? hx)
    obtain ⟨a, ha⟩ := hread r hr
    exact ⟨some a, by simp only [ha]; rfl⟩

/-- Nothing is found exactly if no row has the cells. -/
theorem first_eq_none_iff (ht : c.database.table? q.table = some t) (hq : q.isKnown t.layout = true) :
    c.first q read = .ok none ↔ ∀ r ∈ t.rows, r.hasAll t.layout q.having = false := by
  rw [first_eq ht hq]
  have hnone : (q.found t).head? = none ↔ ∀ r ∈ t.rows, r.hasAll t.layout q.having = false := by
    rw [List.head?_eq_none_iff, List.eq_nil_iff_forall_not_mem]
    simp only [Query.mem_found, not_exists, not_and, Bool.eq_false_iff]
    exact ⟨fun h r hr hc => h _ r hr hc rfl, fun h x r hr hc _ => h r hr hc⟩
  rw [← hnone]
  cases (q.found t).head? with
  | none => simp only
  | some x => cases hread : read x <;> simp [hread, Except.map]

end Connection
end ReviewQueue
