import ReviewQueue.Proofs.Queue.Lifecycle
import ReviewQueue.Proofs.Queue.Resolving
import ReviewQueue.Proofs.Store.Splices

/-!
# A completion is all or nothing

A completion takes its job to the end before it stores the review, and there is much that the review can fail for: its table or a
column is missing, the job has a review already, or the row that was added cannot be read back. Whatever the tables and
columns are, a completion that fails leaves the connection as it was, and one that succeeds changed one row of jobs and added
one row of reviews. A table may say of a column that a row gives way to one that repeats its cell; then such rows are gone, and
still no others. What triggers might do besides is none of what is said here: a database has tables and indexes only.
-/

namespace ReviewQueue

/-- Whether the key of a table is its column `id`, and it has no other. -/
def Layout.isKeyedById (l : Layout) : Bool :=
  (l.column? "id").any (·.isKey) && l.columns.all fun c => !c.isKey || c.answersTo "id"

/-- A status is kept as it is by a column of any kind. -/
theorem JobStatus.asKind_cell (s : JobStatus) (k : Cell.Kind) : s.cell.asKind k = s.cell := by
  cases k <;> cases s <;> decide

/-- A status is no number. -/
theorem JobStatus.rank_cell (s : JobStatus) : 2 ≤ s.cell.rank := by
  cases s <;> decide

namespace Layout

variable {l : Layout}

/-- The key of a table that is its column `id` is no column that another name means. -/
theorem isKey_eq_false (hl : l.isKeyedById = true) {c : Column} (hc : c ∈ l.columns) {name : String}
    (hname : c.answersTo name = true) (hne : foldedName name ≠ foldedName "id") : c.isKey = false := by
  unfold isKeyedById at hl
  rw [Bool.and_eq_true, List.all_eq_true] at hl
  have hor := hl.2 c hc
  by_contra hk
  simp only [Bool.not_eq_false] at hk
  rw [hk, Bool.not_true, Bool.false_or] at hor
  exact hne ((of_decide_eq_true hname).symm.trans (of_decide_eq_true hor))

/-- No cell is given to such a key under other names. -/
theorem isGiven_eq_false (hl : l.isKeyedById = true) {cells : List (String × Cell)}
    (hcells : ∀ x ∈ cells, foldedName x.1 ≠ foldedName "id") :
    ∀ c ∈ l.columns, c.isKey = true → isGiven cells c = false := by
  intro c hc hk
  unfold isGiven
  rw [List.any_eq_false]
  intro x hx hmeans
  rw [isKey_eq_false hl hc hmeans (hcells x hx)] at hk
  cases hk

end Layout

namespace Row

variable {l : Layout} {r : Row} {s target : JobStatus}

/-- A row that has a number under such a key is the row of that number. -/
theorem id_of_hasAll (hl : l.isKeyedById = true) {id : Int} {cells : List (String × Cell)}
    (h : r.hasAll l (("id", .int id) :: cells) = true) : r.id = id := by
  unfold Layout.isKeyedById at hl
  rw [Bool.and_eq_true] at hl
  cases hkey : l.column? "id" with
  | none => simp [hkey] at hl
  | some key =>
    rw [hkey, Option.any_some] at hl
    rw [hasAll_cons hkey, has_key hl.1, Bool.and_eq_true, decide_eq_true_eq] at h
    exact h.1

/-- A row that has a status has another one once it is given that. -/
theorem hasAll_given_status (hl : l.isKeyedById = true) {cells : List (String × Cell)}
    (h : r.hasAll l [("status", s.cell)] = true) :
    (r.given l (("status", target.cell) :: cells)).hasAll l [("status", target.cell)] = true := by
  have hne : foldedName "status" ≠ foldedName "id" := by decide
  cases hcol : l.column? "status" with
  | none => simp [hasAll, hcol] at h
  | some c =>
    have hc := List.mem_of_find?_eq_some hcol
    have hmeans := List.find?_some (p := fun x : Column => x.answersTo "status") hcol
    have hk := Layout.isKey_eq_false hl hc hmeans hne
    have hstatus : ∀ (r : Row) (s : JobStatus), r.hasAll l [("status", s.cell)] = decide (r.cell c.name = s.cell) := by
      intro r s
      rw [hasAll_singleton hcol hk r (by rw [s.asKind_cell]; exact s.rank_cell), s.asKind_cell]
    rw [hstatus, decide_eq_true_eq] at h ⊢
    -- the cell is given through the first column of that very name
    have hfound : (l.columns.find? fun x => x.name = c.name && !x.isKey &&
        Layout.isGiven (("status", target.cell) :: cells) x).isSome := by
      rw [List.find?_isSome]
      refine ⟨c, hc, ?_⟩
      simp [hk, Layout.isGiven, hmeans]
    obtain ⟨x, hx⟩ := Option.isSome_iff_exists.mp hfound
    have hname := List.find?_some hx
    simp only [Bool.and_eq_true, decide_eq_true_eq] at hname
    have hxmeans : x.answersTo "status" = true := by
      unfold Column.answersTo at hmeans ⊢
      rw [hname.1.1]
      exact hmeans
    have hthere : (r.cells.lookup c.name).isSome = true :=
      isSome_lookup_of_cell_ne_null (by rw [h]; exact Cell.ofString_ne_null s.word)
    rw [cell_given hx hthere, Layout.cellFor_cons_eq_settle hxmeans, target.asKind_cell]
    exact x.settle_ofString target.word

/-- No row has two statuses. -/
theorem hasAll_status_inj {l : Layout} (h : r.hasAll l [("status", s.cell)] = true)
    (h' : r.hasAll l [("status", target.cell)] = true) : s = target := by
  cases hcol : l.column? "status" with
  | none => simp [hasAll, hcol] at h
  | some c =>
    rw [hasAll_cons hcol, hasAll_nil, Bool.and_true, has, JobStatus.asKind_cell, Cell.same_eq (JobStatus.rank_cell _),
      decide_eq_true_eq] at h h'
    exact JobStatus.cell_inj (h.symm.trans h')

end Row

namespace Connection

variable {c : Connection} {now : Timestamp} {id : Int} {text : ReviewText}

/-- A change within a transaction that succeeds is one that ran. -/
theorem run_of_changeWithin {s : Change} {v : List Record × Database} (h : c.changeWithin s = .ok v) :
    s.run c.guard c.database = .ok v := by
  unfold changeWithin write at h
  split at h
  · cases h
  · split at h
    · cases h
    · exact h

/-- A completion that fails leaves the connection. -/
theorem connection_of_complete_error {e : StoreError} (h : (c.complete now id text).answer = .error e) :
    (c.complete now id text).connection = c := by
  revert h
  unfold complete
  split
  · exact fun _ => rfl
  · dsimp only
    split
    · exact fun _ => rfl
    · split
      · exact fun _ => rfl
      · split
        · exact fun _ => rfl
        · intro h
          cases h

/-- A completion that succeeds made the change of its job, of one record, and then stored its review. -/
theorem exists_of_complete_ok {review : Review} (h : (c.complete now id text).answer = .ok review) :
    ∃ records done, c.changeWithin (finishing now id .done none) = .ok (records, done) ∧ records.length = 1 ∧
      (c.on done).storeReview now id text = .ok (review, (c.complete now id text).connection.database) := by
  revert h
  unfold complete finished
  split
  · intro h
    cases h
  cases hchange : c.changeWithin (finishing now id .done none) with
  | error f =>
    intro h
    cases h
  | ok changed =>
    obtain ⟨records, done⟩ := changed
    by_cases hone : records.length = 1
    · simp only [hone, if_true]
      cases hstore : (c.on done).storeReview now id text with
      | error f =>
        intro h
        cases h
      | ok stored =>
        simp only
        split
        · intro h
          cases h
        · intro h
          cases h
          exact ⟨records, done, rfl, hone, hstore⟩
    · simp only [if_neg hone]
      intro h
      cases h

/-- A review that is stored is one row that is added, and is read back from it. Rows give way to it by the rules of the layout
alone. -/
theorem storeReview_splices {review : Review} {db : Database} (h : c.storeReview now id text = .ok (review, db)) :
    ∃ (reviews : Table) (v : Row) (q : Row → Bool), c.database.table? "reviews" = some reviews ∧
      Review.ofRecord (v.record (reviews.layout.pick Review.columns)) = .ok review ∧
      (∀ x ∈ reviews.rows, q x = true → reviews.layout.yields v x = true) ∧
      (c.database.without "reviews" q).Splices db "reviews" [] [v] := by
  unfold storeReview at h
  cases hinsert : c.insertWithin (reviewing now id text) with
  | error f =>
    rw [hinsert] at h
    cases h
  | ok added =>
    obtain ⟨a, db'⟩ := added
    rw [hinsert] at h
    cases a with
    | none => cases h
    | some record =>
      obtain ⟨t, new, rid, hadds, rfl⟩ := insertWithin_adds hinsert
      simp only [bind, Except.bind, pure, Except.pure] at h
      split at h
      · cases h
      next read hread =>
        cases h
        exact ⟨t, _, _, hadds.table, hread, fun x hx => hadds.yields_of_givesWay rfl hx, hadds.splices_without⟩

/-- A completion that succeeds changed the running job of its number and added a review, and nothing else but for the rows that
gave way to these two. -/
theorem splices_of_complete_ok {review : Review} {t : Table} (ht : c.database.table? "review_jobs" = some t)
    (hl : t.layout.isKeyedById = true) (h : (c.complete now id text).answer = .ok review) :
    ∃ (r r' v : Row) (done : Database) (reviews : Table) (p q : Row → Bool), r.id = id ∧ r'.id = id ∧
      r.hasAll t.layout [("status", JobStatus.running.cell)] = true ∧
      r'.hasAll t.layout [("status", JobStatus.done.cell)] = true ∧
      c.database.table? "reviews" = some reviews ∧
      Review.ofRecord (v.record (reviews.layout.pick Review.columns)) = .ok review ∧
      (∀ x, p x = true → x.id ≠ id ∧ t.layout.yields r' x = true) ∧
      (∀ x ∈ reviews.rows, q x = true → reviews.layout.yields v x = true) ∧
      (c.database.without "review_jobs" p).Splices done "review_jobs" [r] [r'] ∧
      (done.without "reviews" q).Splices (c.complete now id text).connection.database "reviews" [] [v] := by
  obtain ⟨records, done, hchange, hone, hstore⟩ := exists_of_complete_ok h
  have hnames : ∀ x ∈ (finishing now id .done none).cells, foldedName x.1 ≠ foldedName "id" := by
    simp only [finishing, List.forall_mem_cons]
    exact ⟨by decide, by decide, by decide, List.forall_mem_nil _⟩
  have hkey := Layout.isGiven_eq_false hl hnames
  obtain ⟨r, -, hchosen, p, hp, hchanged⟩ :=
    Change.splices_of_run ht hkey (fun x _ => Row.id_of_hasAll hl) (run_of_changeWithin hchange) hone
  have hid : r.id = id := Row.id_of_hasAll hl hchosen
  have hrunning : r.hasAll t.layout [("status", JobStatus.running.cell)] = true := by
    simp only [finishing, Row.hasAll, List.all_cons, Bool.and_eq_true] at hchosen ⊢
    exact hchosen.2
  obtain ⟨reviews, v, q, hreviews, hread, hq, hadded⟩ := storeReview_splices hstore
  refine ⟨r, r.given t.layout (finishing now id .done none).cells, v, done, reviews, p, q, hid, hid, hrunning,
    Row.hasAll_given_status hl hrunning, ?_, hread, fun x hx => by rw [← hid]; exact hp x hx, hq, hchanged, hadded⟩
  have hother : "reviews" ≠ "review_jobs" := by decide
  rw [← hreviews, ← Database.table?_without_of_ne hother]
  exact (hchanged.others "reviews" hother).symm

end Connection

/-- A database whose one job is running, and that has no table of reviews. -/
def Database.withoutReviews : Database := Database.oneRunning.drop "reviews"

end ReviewQueue
