import ReviewQueue.Proofs.Queue.Outcomes

/-!
# Resolutions of different jobs commute

A resolution leaves all that the resolution of another job is decided by. So two of them decide the same in both orders. Then the
cells that they give to their jobs are the same, and so are the reviews that they add, which only get their numbers in another
order.
-/

namespace ReviewQueue

/-- Two databases are the same but for the numbers of the reviews that both have more than another one. The same numbers went to
the same reviews in another order. -/
structure Database.AlikeSince (origin db db' : Database) : Prop where
  tables : ∀ name, name ≠ "reviews" → db.table? name = db'.table? name
  layout : (db.table? "reviews").map (·.layout) = (db'.table? "reviews").map (·.layout)
  reviews : ∃ added added' : List Row, (db.rows "reviews").Perm (origin.rows "reviews" ++ added) ∧
    (db'.rows "reviews").Perm (origin.rows "reviews" ++ added') ∧
    (added.map (·.cells)).Perm (added'.map (·.cells)) ∧ added.map (·.id) = added'.map (·.id)
  indexes : db.indexes = db'.indexes

/-- An answer but for the number of the review in it. -/
def Answer.unnumbered : Answer → Answer
  | review v => review { v with id := 0 }
  | answer => answer

namespace Resolution

variable {x y : Resolution} {now now' : Timestamp} {a b : Int} {p q : Bool}

/-- Only the review in an answer has the number. -/
theorem unnumbered_answer (x : Resolution) (now : Timestamp) (id m n : Int) :
    (x.answer now id m).unnumbered = (x.answer now id n).unnumbered := by cases x <;> rfl

/-- The reviews that a resolution adds, if any, have the cells of their table. -/
theorem names_reviews (x : Resolution) (now : Timestamp) (id : Int) {t : Table} (hl : t.layout = .reviews) (p : Bool) :
    ∀ cells ∈ (if p then x.reviews now id else []), cells.map (·.1) = t.layout.cellNames := by
  rw [hl]
  cases p with
  | false => exact List.forall_mem_nil _
  | true =>
    cases x with
    | complete text => exact List.forall_mem_singleton.mpr ((Connection.reviewing now id text).row_shaped .reviews 0)
    | fail error => exact List.forall_mem_nil _

/-- The reviews that a resolution adds are of its job. -/
theorem any_addAll (hab : a ≠ b) {t : Table} (hl : t.layout = .reviews) (y : Resolution) (now : Timestamp) :
    (t.addAll (y.reviews now b)).rows.any (·.Reviews a) = t.rows.any (·.Reviews a) := by
  cases y with
  | fail error => rfl
  | complete text =>
    have hother : ¬((Connection.reviewing now b text).row .reviews t.nextId).Reviews a := by
      rw [Row.reviews_iff (Connection.reviewing_holds now b _ text).jobId]
      exact fun h => hab h.symm
    show ((t.grow _).rows.any _) = _
    rw [Table.rows_grow (names_reviews (complete text) now b hl true _ (List.mem_singleton_self _))]
    refine (Table.insertRow_perm _ _).any_eq.trans ?_
    rw [List.any_cons]
    exact (congrArg (· || _) (decide_eq_false hother)).trans (Bool.false_or _)

/-- A resolution of another job leaves what a resolution is refused for. -/
theorem Leaves.refusal?_eq {c c' : Connection} (h : y.Leaves now' b q c.database c'.database) (hdb : c.database.IsCurrent)
    (hlock : c'.locked = c.locked) (hab : a ≠ b) (x : Resolution) (now : Timestamp) :
    x.refusal? c' now a = x.refusal? c now a := by
  obtain ⟨t, ht, -⟩ := hdb.jobs
  obtain ⟨u, hu, hl⟩ := hdb.reviews
  have hjob : (c'.database.rows "review_jobs").find? (·.id = a) = (c.database.rows "review_jobs").find? (·.id = a) := by
    rw [Database.rows_of_table? (h.jobs t ht), Database.rows_of_table? ht]
    cases q with
    | false => rfl
    | true => exact t.row?_modify hab _
  have hreviews : (c'.database.rows "reviews").any (·.Reviews a) = (c.database.rows "reviews").any (·.Reviews a) := by
    rw [Database.rows_of_table? (h.reviews u hu), Database.rows_of_table? hu]
    cases q with
    | false => rfl
    | true => exact any_addAll hab hl y now'
  unfold refusal?
  rw [hlock, Connection.stuck?_congr hjob]
  cases x with
  | complete text => simp only [conflict?, hreviews]
  | fail error => rfl

/-- A resolution leaves the layout. -/
theorem Leaves.isCurrent {db db' : Database} (h : x.Leaves now a p db db') (hdb : db.IsCurrent) : db'.IsCurrent := by
  intro l hl
  obtain ⟨t, ht, hlayout⟩ := hdb l hl
  by_cases hjobs : l.name = "review_jobs"
  · rw [hjobs] at ht ⊢
    exact ⟨_, h.jobs t ht, by split <;> exact hlayout⟩
  · by_cases hreviews : l.name = "reviews"
    · rw [hreviews] at ht ⊢
      exact ⟨_, h.reviews t ht, (t.layout_addAll _).trans hlayout⟩
    · exact ⟨t, (h.others _ hjobs hreviews).trans ht, hlayout⟩

/-- Two outcomes of a resolution that is refused for the same reason, or neither time, are the same but for the number of the
review. -/
theorem Does.outcome_eq {c c' : Connection} {m n : Int} {refusal : Option StoreError} (h : x.Does c now a m refusal)
    (h' : x.Does c' now a n refusal) :
    (c.perform now (x.operation a)).answer.map (·.unnumbered) = (c'.perform now (x.operation a)).answer.map (·.unnumbered) ∧
      (c.perform now (x.operation a)).log = (c'.perform now (x.operation a)).log := by
  obtain ⟨db, -, hperform⟩ := h
  obtain ⟨db', -, hperform'⟩ := h'
  rw [hperform, hperform']
  cases refusal with
  | some e => exact ⟨rfl, rfl⟩
  | none => exact ⟨congrArg Except.ok (x.unnumbered_answer now a m n), rfl⟩

/-- What a resolution leaves is the database of the connection after it, on which all else is as it was. -/
theorem Does.leaves {c : Connection} {n : Int} {refusal : Option StoreError} (h : x.Does c now a n refusal) :
    x.Leaves now a refusal.isNone c.database (c.perform now (x.operation a)).connection.database ∧
      (c.perform now (x.operation a)).connection.locked = c.locked := by
  obtain ⟨db, hleaves, hperform⟩ := h
  rw [hperform]
  cases refusal with
  | some e => exact ⟨hleaves, rfl⟩
  | none => exact ⟨hleaves, rfl⟩

/-- What two resolutions of different jobs leave is the same in both orders, but for the numbers of the reviews. -/
theorem Leaves.alike {db db₁ db₂ db₁' db₂' : Database} (hdb : db.IsCurrent) (hab : a ≠ b) (hx : x.Leaves now a p db db₁)
    (hy : y.Leaves now' b q db₁ db₂) (hy' : y.Leaves now' b q db db₁') (hx' : x.Leaves now a p db₁' db₂') :
    db.AlikeSince db₂ db₂' := by
  obtain ⟨t, ht, -⟩ := hdb.jobs
  obtain ⟨u, hu, hl⟩ := hdb.reviews
  have hreviews := hy.reviews _ (hx.reviews u hu)
  have hreviews' := hx'.reviews _ (hy'.reviews u hu)
  rw [Table.addAll_append] at hreviews hreviews'
  refine ⟨fun name hname => ?_, ?_, ?_, ?_⟩
  · by_cases hjobs : name = "review_jobs"
    · subst hjobs
      rw [hy.jobs _ (hx.jobs t ht), hx'.jobs _ (hy'.jobs t ht)]
      cases p with
      | false => rfl
      | true => cases q with
        | false => rfl
        | true => exact congrArg some (t.modify_comm hab _ _)
    · rw [hy.others name hjobs hname, hx.others name hjobs hname, hx'.others name hjobs hname, hy'.others name hjobs hname]
  · rw [hreviews, hreviews', Option.map_some, Option.map_some, Table.layout_addAll, Table.layout_addAll]
  · rw [Database.rows_of_table? hreviews, Database.rows_of_table? hreviews', Database.rows_of_table? hu]
    obtain ⟨added, added', hperm, hperm', hcells, hcells', hids⟩ :=
      Table.exists_added (t := u) (u := u) rfl (List.length_append.trans ((Nat.add_comm ..).trans List.length_append.symm))
        (List.forall_mem_append.mpr ⟨x.names_reviews now a hl p, y.names_reviews now' b hl q⟩)
        (List.forall_mem_append.mpr ⟨y.names_reviews now' b hl q, x.names_reviews now a hl p⟩)
    refine ⟨added, added', hperm, hperm', ?_, hids⟩
    rw [hcells, hcells']
    exact List.perm_append_comm
  · rw [hy.indexes, hx.indexes, hx'.indexes, hy'.indexes]

end Resolution

/-- Resolutions of different jobs commute, in three parts: on every connection in the current layout, whatever the rows, the lock
and the clock, and whether each of the two is refused or not.
1. The one is answered the same and logs the same whether it comes first or second, but for the number of its review.
2. So is the other one.
3. The databases at the end have the same tables but for reviews. There the same reviews were added, which have the same numbers
   in another order, and nothing else changed. -/
theorem resolutions_commute (c : Connection) (hdb : c.database.IsCurrent) {a b : Int} (hab : a ≠ b) (x y : Resolution)
    (now now' : Timestamp) :
    let first := c.perform now (x.operation a)
    let second := first.connection.perform now' (y.operation b)
    let first' := c.perform now' (y.operation b)
    let second' := first'.connection.perform now (x.operation a)
    (first.answer.map (·.unnumbered) = second'.answer.map (·.unnumbered) ∧ first.log = second'.log) ∧
    (second.answer.map (·.unnumbered) = first'.answer.map (·.unnumbered) ∧ second.log = first'.log) ∧
    c.database.AlikeSince second.connection.database second'.connection.database := by
  intro first second first' second'
  obtain ⟨t, ht, -⟩ := hdb.reviews
  have hfirst := x.does hdb ht now a
  have hfirst' := y.does hdb ht now' b
  obtain ⟨hleft, hlock⟩ := hfirst.leaves
  obtain ⟨hleft', hlock'⟩ := hfirst'.leaves
  -- neither resolution changes what the other one is refused for
  have hsecond := y.does (c := first.connection) (hleft.isCurrent hdb) (hleft.reviews t ht) now' b
  have hsecond' := x.does (c := first'.connection) (hleft'.isCurrent hdb) (hleft'.reviews t ht) now a
  rw [hleft.refusal?_eq hdb hlock hab.symm] at hsecond
  rw [hleft'.refusal?_eq hdb hlock' hab] at hsecond'
  exact ⟨hfirst.outcome_eq hsecond', hsecond.outcome_eq hfirst',
    Resolution.Leaves.alike hdb hab hleft hsecond.leaves.1 hleft' hsecond'.leaves.1⟩

/-- Two jobs are running. -/
def Database.twoRunning : Database := Database.current.put
  ⟨.jobs, [Connection.jobWith 3 [("status", JobStatus.running.cell)], Connection.jobWith 5 [("status", JobStatus.running.cell)]],
    by decide, by decide⟩

/-- Both are completed in both orders, and the review of the first job has the number 1 or 2. -/
theorem resolutions_commute_twoRunning :
    let c : Connection := { database := .twoRunning }
    let three : Resolution := .complete ⟨"codex", "prompt", "three"⟩
    let five : Resolution := .complete ⟨"codex", "prompt", "five"⟩
    let first := c.perform .epoch (three.operation 3)
    let second := first.connection.perform .epoch (five.operation 5)
    let first' := c.perform .epoch (five.operation 5)
    let second' := first'.connection.perform .epoch (three.operation 3)
    c.database.IsCurrent ∧ (3 : Int) ≠ 5 ∧
    first.answer = .ok (.review ⟨1, 3, "codex", "prompt", "three", .epoch⟩) ∧
    second'.answer = .ok (.review ⟨2, 3, "codex", "prompt", "three", .epoch⟩) ∧
    second.answer.map (·.unnumbered) = first'.answer.map (·.unnumbered) ∧
    c.database.AlikeSince second.connection.database second'.connection.database := by
  have hdb : Database.twoRunning.IsCurrent := by decide
  have hne : (3 : Int) ≠ 5 := by decide
  have hcommute := resolutions_commute { database := .twoRunning } hdb hne (.complete ⟨"codex", "prompt", "three"⟩)
    (.complete ⟨"codex", "prompt", "five"⟩) .epoch .epoch
  exact ⟨hdb, hne, by decide +kernel, by decide +kernel, hcommute.2.1.1, hcommute.2.2⟩

end ReviewQueue
