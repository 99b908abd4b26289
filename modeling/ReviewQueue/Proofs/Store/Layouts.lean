import ReviewQueue.Proofs.Store.Tables
import ReviewQueue.Store.Schema

/-!
# Making, dropping and renaming tables

What each name means after a table was made, dropped or renamed, and which indexes there are after some were made.
Dropping and renaming are of use only where no two tables have one name.
-/

namespace ReviewQueue

namespace Layout

/-- Whether no column of a layout refers to a table. -/
def sparesTable (l : Layout) (name : String) : Prop := ∀ c ∈ l.columns, c.parentName ≠ some name

/-- A rename leaves the columns of a layout that does not refer to the table. -/
theorem map_retarget {l : Layout} {source target : String} (h : l.sparesTable source) :
    l.columns.map (Database.retarget source target) = l.columns := by
  conv => rhs; rw [← List.map_id l.columns]
  refine List.map_congr_left ?_
  intro c hc
  unfold Database.retarget
  rw [if_neg (h c hc), id]

end Layout

namespace Database

/-! ## Tables -/

/-- After a table is made, its name means it unless it meant another table before. -/
theorem table?_create (db : Database) (l : Layout) (name : String) :
    (db.create l).table? name = (db.table? name).or (if l.name = name then some (.empty l) else none) := by
  unfold create
  split
  next h =>
    by_cases hn : l.name = name
    · rw [← hn]
      obtain ⟨t, ht⟩ := Option.isSome_iff_exists.mp h
      rw [ht, Option.some_or]
    · rw [if_neg hn, Option.or_none]
  next =>
    unfold table?
    rw [List.find?_append]
    congr 1
    by_cases hn : l.name = name
    · simp [hn, Table.name, Table.empty]
    · simp [hn, Table.name, Table.empty]

/-- After some tables are made, each of their names means what it meant, or the first of them. -/
theorem table?_foldl_create (ls : List Layout) (db : Database) (name : String) :
    (ls.foldl create db).table? name = (db.table? name).or ((ls.find? (·.name = name)).map .empty) := by
  induction ls generalizing db with
  | nil => simp
  | cons l ls ih =>
    rw [List.foldl_cons, ih, table?_create, Option.or_assoc]
    congr 1
    by_cases hn : l.name = name
    · rw [if_pos hn, List.find?_cons_of_pos (by simpa using hn)]
      rfl
    · rw [if_neg hn, List.find?_cons_of_neg (by simpa using hn), Option.none_or]

@[simp] theorem indexes_create (db : Database) (l : Layout) : (db.create l).indexes = db.indexes := by
  unfold create
  split <;> rfl

/-- New tables leave the indexes. -/
@[simp] theorem indexes_foldl_create (ls : List Layout) (db : Database) : (ls.foldl create db).indexes = db.indexes := by
  induction ls generalizing db with
  | nil => rfl
  | cons l ls ih => rw [List.foldl_cons, ih, indexes_create]

/-- A name that is dropped means nothing, and the others mean what they meant. -/
theorem table?_drop (db : Database) (dropped name : String) :
    (db.drop dropped).table? name = if name = dropped then none else db.table? name := by
  unfold drop table?
  rw [List.find?_filter]
  by_cases hn : name = dropped
  · rw [if_pos hn]
    refine List.find?_eq_none.mpr fun t _ => ?_
    simp [hn]
  · rw [if_neg hn]
    congr 1
    funext t
    by_cases ht : t.name = name
    · simp [ht, hn]
    · simp [ht]

/-- A layout is named anew if it has the name. -/
theorem name_relabel {source target : String} (h : IsLowerName target) (l : Layout) :
    (relabel source target h l).name = if l.name = source then target else l.name := by
  unfold relabel
  split <;> rfl

/-- What a name means after a rename: the first table that has the name then. -/
theorem table?_rename (db : Database) (source target : String) (h : IsLowerName target) (name : String) :
    (db.rename source target h).table? name =
      (db.tables.find? fun t => (if t.name = source then target else t.name) = name).map fun t =>
        t.withLayout (relabel source target h t.layout) (cellNames_relabel ..) := by
  have hname : ∀ t : Table, (t.withLayout (relabel source target h t.layout) (cellNames_relabel ..)).name =
      if t.name = source then target else t.name := fun t => name_relabel h t.layout
  unfold rename table?
  rw [List.find?_map]
  simp only [Function.comp_def, hname]

/-- Which table is found depends on what is asked of the tables that are there. -/
theorem find?_tables_congr {db : Database} {p q : Table → Bool} (h : ∀ t ∈ db.tables, p t = q t) :
    db.tables.find? p = db.tables.find? q := by
  rw [← List.head?_filter, ← List.head?_filter, List.filter_congr h]

/-- After a table is renamed to a free name, that name means it. -/
theorem table?_rename_target {db : Database} {source target : String} (h : IsLowerName target) (hfree : db.table? target = none) :
    (db.rename source target h).table? target =
      (db.table? source).map fun t => t.withLayout (relabel source target h t.layout) (cellNames_relabel ..) := by
  rw [table?_rename]
  congr 1
  refine find?_tables_congr fun t ht => ?_
  have hne : t.name ≠ target := by simpa using List.find?_eq_none.mp hfree t ht
  by_cases hs : t.name = source <;> simp [hs]
  simpa [hs] using hne

/-- After a rename the old name means nothing. -/
theorem table?_rename_source {db : Database} {source target : String} (h : IsLowerName target) (hne : source ≠ target) :
    (db.rename source target h).table? source = none := by
  rw [table?_rename, Option.map_eq_none_iff]
  refine List.find?_eq_none.mpr fun t _ => ?_
  by_cases hs : t.name = source <;> simp [hs, hne.symm]

/-- After a rename another name means what it meant, if no reference of that table follows. -/
theorem table?_rename_of_ne {db : Database} {source target name : String} (h : IsLowerName target) (hsource : name ≠ source)
    (htarget : name ≠ target) (hspares : ∀ t, db.table? name = some t → t.layout.sparesTable source) :
    (db.rename source target h).table? name = db.table? name := by
  have hsame : (db.tables.find? fun t => (if t.name = source then target else t.name) = name) = db.table? name := by
    refine find?_tables_congr fun t _ => ?_
    by_cases hs : t.name = source <;> simp [hs, htarget.symm, hsource.symm]
  rw [table?_rename, hsame]
  cases ht : db.table? name with
  | none => rfl
  | some t =>
    have hother : ¬t.layout.name = source := fun he => hsource ((name_of_table? ht).symm.trans he)
    have hsame : relabel source target h t.layout = t.layout := by
      unfold relabel
      rw [if_neg hother, Layout.map_retarget (hspares t ht)]
    exact congrArg some (Table.ext hsame rfl)

/-! ## Indexes -/

/-- The database with those of some indexes whose names are free. -/
def addIndexes (db : Database) (is : List Index) : Database :=
  { db with indexes := db.indexes ++ is.filter fun i => !db.indexes.any (·.name = i.name) }

/-- What stands in the way of an index: if its name is free, that its table or its column is missing. -/
def indexFault? (db : Database) (i : Index) : Option Fault :=
  if db.indexes.any (·.name = i.name) then none
  else match db.table? i.table with
    | none => some (.noTable i.table)
    | some t => if (t.layout.column? i.column).isSome then none else some (.noColumn i.column)

section

variable {db : Database} {i : Index}

@[simp] theorem indexes_addIndexes (db : Database) (is : List Index) :
    (db.addIndexes is).indexes = db.indexes ++ is.filter fun i => !db.indexes.any (·.name = i.name) := rfl

/-- New indexes leave the tables. -/
@[simp] theorem table?_addIndexes (db : Database) (is : List Index) (name : String) : (db.addIndexes is).table? name = db.table? name :=
  rfl

/-- An index that was added is there unless another has its name. -/
theorem mem_addIndexes {is : List Index} (hi : i ∈ is) (hothers : ∀ x ∈ db.indexes, x.name = i.name → x = i) :
    i ∈ (db.addIndexes is).indexes := by
  rw [indexes_addIndexes]
  by_cases hname : ∃ x ∈ db.indexes, x.name = i.name
  · obtain ⟨x, hx, hsame⟩ := hname
    rw [← hothers x hx hsame]
    exact List.mem_append_left _ hx
  · exact List.mem_append_right _ (List.mem_filter.mpr ⟨hi, by simpa using hname⟩)

@[simp] theorem addIndexes_nil (db : Database) : db.addIndexes [] = db := by
  unfold addIndexes
  rw [List.filter_nil, List.append_nil]

/-- An index is made unless something stands in its way. -/
theorem createIndex_eq (db : Database) (i : Index) :
    db.createIndex i = match db.indexFault? i with
      | none => .ok (db.addIndexes [i])
      | some f => .error f := by
  unfold createIndex indexFault? addIndexes need
  by_cases hname : db.indexes.any (·.name = i.name) = true
  · simp [hname]
  · rw [Bool.not_eq_true] at hname
    simp only [hname, Bool.false_eq_true, if_false, bind, Except.bind]
    cases db.table? i.table with
    | none => rfl
    | some t => cases hcolumn : t.layout.column? i.column <;> simp [hcolumn, hname]

/-- An index takes no other name than its own. -/
theorem any_addIndexes_of_ne {j : Index} (h : i.name ≠ j.name) :
    (db.addIndexes [i]).indexes.any (·.name = j.name) = db.indexes.any (·.name = j.name) := by
  rw [indexes_addIndexes, List.any_append]
  by_cases hname : db.indexes.any (·.name = i.name) = true
  · simp [hname]
  · simp [hname, h]

/-- An index does not stand in the way of one of another name, nor make way for it. -/
theorem indexFault?_addIndexes {j : Index} (h : i.name ≠ j.name) : (db.addIndexes [i]).indexFault? j = db.indexFault? j := by
  unfold indexFault?
  rw [any_addIndexes_of_ne h, table?_addIndexes]

/-- Indexes of different names can be added one after the other. -/
theorem addIndexes_cons {is : List Index} (h : ∀ j ∈ is, i.name ≠ j.name) :
    (db.addIndexes [i]).addIndexes is = db.addIndexes (i :: is) := by
  have hfree : (is.filter fun j => !(db.addIndexes [i]).indexes.any (·.name = j.name)) =
      is.filter fun j => !db.indexes.any (·.name = j.name) :=
    List.filter_congr fun j hj => by rw [any_addIndexes_of_ne (h j hj)]
  unfold addIndexes at hfree ⊢
  simp only [hfree, List.append_assoc, ← List.filter_append, List.singleton_append]

/-- Indexes of different names are all made unless something stands in the way of one; the first of these faults is answered. -/
theorem foldlM_createIndex_eq {is : List Index} (hnames : is.Pairwise (·.name ≠ ·.name)) {fault? : Index → Option Fault}
    (hfault : ∀ i ∈ is, db.indexFault? i = fault? i) : is.foldlM createIndex db = match is.findSome? fault? with
      | none => .ok (db.addIndexes is)
      | some f => .error f := by
  -- the faults are those of the database at the start, while the induction goes on from the database with the first index
  induction is generalizing db with
  | nil => exact congrArg Except.ok (addIndexes_nil db).symm
  | cons i is ih =>
    rw [List.pairwise_cons] at hnames
    rw [List.forall_mem_cons] at hfault
    rw [List.foldlM_cons, createIndex_eq, hfault.1, List.findSome?_cons]
    cases fault? i with
    | some f => rfl
    | none =>
      have hlater : ∀ j ∈ is, (db.addIndexes [i]).indexFault? j = fault? j := fun j hj =>
        (indexFault?_addIndexes (hnames.1 j hj)).trans (hfault.2 j hj)
      simp only [bind, Except.bind]
      rw [ih hnames.2 hlater, addIndexes_cons hnames.1]

end

end Database
end ReviewQueue
