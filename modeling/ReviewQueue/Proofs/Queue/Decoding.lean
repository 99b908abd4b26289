import ReviewQueue.Proofs.Queue.Readback

/-!
# Which column cannot be read

A record is read column by column, and the fault of the first column that cannot be read is the one reported.
A status is read from the cell of that status and from no other, whatever bytes a cell may hold.
-/

namespace ReviewQueue

/-- The fault of what could not be read. -/
def faultOf? {α : Type} : Except Fault α → Option Fault
  | .ok _ => none
  | .error f => some f

theorem faultOf?_eq_none_iff {α : Type} {x : Except Fault α} : faultOf? x = none ↔ ∃ a, x = .ok a := by
  cases x <;> simp [faultOf?]

theorem faultOf?_eq_some_iff {α : Type} {x : Except Fault α} {f : Fault} : faultOf? x = some f ↔ x = .error f := by
  cases x <;> simp [faultOf?]

/-- The first of some numbers for which there is something. -/
theorem findSome?_range {α : Type} {g : Nat → Option α} {n : Nat} {a : α} :
    (List.range n).findSome? g = some a ↔ ∃ i < n, g i = some a ∧ ∀ k < i, g k = none := by
  induction n with
  | zero => simp
  | succ n ih =>
    rw [List.range_succ, List.findSome?_append, Option.or_eq_some_iff, ih, List.findSome?_eq_none_iff,
      List.findSome?_singleton]
    constructor
    · rintro (⟨i, hi, h⟩ | ⟨hnone, hn⟩)
      · exact ⟨i, by omega, h⟩
      · exact ⟨n, by omega, hn, fun k hk => hnone k (List.mem_range.mpr hk)⟩
    · rintro ⟨i, hi, ha, hnone⟩
      rcases Nat.lt_succ_iff_lt_or_eq.mp hi with hlt | rfl
      · exact Or.inl ⟨i, hlt, ha, hnone⟩
      · exact Or.inr ⟨fun k hk => hnone k (List.mem_range.mp hk), ha⟩

namespace Record

variable {r : Record} {i : Nat}

/-- A status is read from its cell alone: no other bytes are read as its word. -/
theorem status_eq_ok_iff {s : JobStatus} : r.status i = .ok s ↔ (r.at_ i).2 = s.cell := by
  refine ⟨fun h => ?_, status_eq⟩
  unfold status text textAndBytes at h
  split at h
  next bytes hcell =>
    cases hdecode : Utf8.decode bytes with
    | error b =>
      rw [hdecode] at h
      cases h
    | ok word =>
      rw [hdecode] at h
      simp only [Except.map, bind, Except.bind] at h
      split at h
      next found hword =>
        cases h
        have hs : s.word = word := by simpa using List.find?_some hword
        rw [hcell, JobStatus.cell, Cell.ofString, hs, Utf8.bytesOf_of_decode hdecode]
      next => cases h
  next => cases h

end Record

/-! ## Jobs -/

namespace Job

/-- Why the column at an index cannot be read as that of a job, if it cannot. -/
def faultAt? (r : Record) : Nat → Option Fault
  | 0 => faultOf? (r.int 0)
  | 1 => faultOf? (r.int 1)
  | 2 => faultOf? (Record.nullable Record.int r 2)
  | 3 => faultOf? (r.text 3)
  | 4 => faultOf? (r.text 4)
  | 5 => faultOf? (r.status 5)
  | 6 => faultOf? (r.timestamp 6)
  | 7 => faultOf? (Record.nullable Record.timestamp r 7)
  | 8 => faultOf? (Record.nullable Record.timestamp r 8)
  | 9 => faultOf? (Record.nullable Record.text r 9)
  | 10 => faultOf? (Record.nullable Record.text r 10)
  | _ => none

/-- A job is read unless some column cannot be read, and the first such column is reported. The readers are run in the
order of the columns, so each is looked at once those before it succeeded. -/
theorem faultOf?_ofRecord (r : Record) : faultOf? (ofRecord r) = (List.range columns.length).findSome? (faultAt? r) := by
  have hrange : List.range columns.length = [0, 1, 2, 3, 4, 5, 6, 7, 8, 9, 10] := by decide
  rw [hrange]
  simp only [List.findSome?_cons, List.findSome?_nil, faultAt?, ofRecord, bind, Except.bind]
  cases r.int 0 with
  | error f => rfl
  | ok _ =>
  cases r.int 1 with
  | error f => rfl
  | ok _ =>
  cases Record.nullable Record.int r 2 with
  | error f => rfl
  | ok _ =>
  cases r.text 3 with
  | error f => rfl
  | ok _ =>
  cases r.text 4 with
  | error f => rfl
  | ok _ =>
  cases r.status 5 with
  | error f => rfl
  | ok _ =>
  cases r.timestamp 6 with
  | error f => rfl
  | ok _ =>
  cases Record.nullable Record.timestamp r 7 with
  | error f => rfl
  | ok _ =>
  cases Record.nullable Record.timestamp r 8 with
  | error f => rfl
  | ok _ =>
  cases Record.nullable Record.text r 9 with
  | error f => rfl
  | ok _ =>
  cases Record.nullable Record.text r 10 <;> rfl

/-- The fault of the first column that cannot be read as that of a job: those before it can. -/
def FirstFault (r : Record) (f : Fault) : Prop := ∃ i, faultAt? r i = some f ∧ ∀ k < i, faultAt? r k = none

/-- Past the last column there is nothing to read. -/
theorem faultAt?_of_le (r : Record) {i : Nat} (h : columns.length ≤ i) : faultAt? r i = none := by
  obtain ⟨k, rfl⟩ := Nat.exists_eq_add_of_le' h
  rfl

/-- A job cannot be read exactly if some column cannot, and what is reported is the first. -/
theorem ofRecord_eq_error_iff {r : Record} {f : Fault} : ofRecord r = .error f ↔ FirstFault r f := by
  rw [← faultOf?_eq_some_iff, faultOf?_ofRecord, findSome?_range]
  constructor
  · rintro ⟨i, -, h⟩
    exact ⟨i, h⟩
  · rintro ⟨i, hi, hbefore⟩
    refine ⟨i, ?_, hi, hbefore⟩
    by_contra hlast
    rw [faultAt?_of_le r (Nat.not_lt.mp hlast)] at hi
    cases hi

/-- It can be read exactly if each column can. -/
theorem exists_ofRecord_iff {r : Record} : (∃ j, ofRecord r = .ok j) ↔ ∀ i, faultAt? r i = none := by
  rw [← faultOf?_eq_none_iff, faultOf?_ofRecord, List.findSome?_eq_none_iff]
  refine ⟨fun h i => ?_, fun h i _ => h i⟩
  by_cases hi : i < columns.length
  · exact h i (List.mem_range.mpr hi)
  · exact faultAt?_of_le r (Nat.not_lt.mp hi)

/-- Whatever job is read from a row has the status of the row. -/
theorem status_of_ofRecord {r : Row} {j : Job} (h : ofRecord (recordOf r) = .ok j) : r.HasStatus j.status := by
  have hread : faultAt? (recordOf r) 5 = none := exists_ofRecord_iff.mp ⟨j, h⟩ 5
  obtain ⟨s, hs⟩ : ∃ s, (recordOf r).status 5 = .ok s := faultOf?_eq_none_iff.mp hread
  have hstatus : r.HasStatus s := by
    have hcell := Record.status_eq_ok_iff.mp hs
    rw [recordOf_eq] at hcell
    exact hcell
  unfold ofRecord at h
  simp only [bind, Except.bind, hs] at h
  repeat' split at h
  all_goals cases h
  exact hstatus

end Job
end ReviewQueue
