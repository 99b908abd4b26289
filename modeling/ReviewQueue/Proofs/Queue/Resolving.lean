import ReviewQueue.Proofs.Queue.Effects
import ReviewQueue.Proofs.Queue.Entities

/-!
# Running jobs come to their end

A running job fails whenever it is asked to, and is completed exactly if there is no review of it yet: no other fault of
the two statements can arise in the current layout, whatever the rows.
-/

namespace ReviewQueue

/-- A review is of a job: it has the number of that, as an integer or with a point. -/
def Row.Reviews (v : Row) (id : Int) : Prop := Cell.same (v.cell "job_id") (.int id) = true

instance (v : Row) (id : Int) : Decidable (v.Reviews id) := inferInstanceAs (Decidable (_ = true))

/-- An integer is the number of one job. -/
theorem Row.reviews_iff {v : Row} {id n : Int} (h : v.cell "job_id" = .int n) : v.Reviews id ↔ n = id := by
  unfold Reviews
  rw [h, Cell.same_int, decide_eq_true_eq]

/-- A cell is the number of at most one job. -/
theorem Row.Reviews.inj {v : Row} {a b : Int} (ha : v.Reviews a) (hb : v.Reviews b) : a = b := Cell.same_int_inj ha hb

namespace Connection

variable {c : Connection} {now : Timestamp}

/-- A running job fails by the first statement, if the lock is free. -/
theorem run_fail_of_running (hdb : c.database.IsCurrent) (hlock : c.locked = false) {r : Row}
    (hr : r ∈ c.database.rows "review_jobs") (hrun : r.HasStatus .running) (now : Timestamp) (error : String) :
    ((Call.asked (.fail r.id error)).run c now).1 = .answered (.ok .done) := by
  obtain ⟨t, ht, hl⟩ := hdb.jobs
  rw [Database.rows_of_table? ht] at hr
  obtain ⟨record, db, hchange, -⟩ := change_finishing_of_running ht hl hlock hr hrun now .failed (some error)
  simp only [Call.run, hchange, List.length_singleton, if_true]

/-! ## Storing a review -/

variable {id : Int} {text : ReviewText} {t : Table}

/-- The cell of a review in a column of which no two cells are equal is the number of its job. -/
theorem cellFor_reviewing (now : Timestamp) (id : Int) (text : ReviewText) : ∀ x ∈ Layout.reviews.columns, x.unique = true →
    x.name = "job_id" ∧ Layout.cellFor (reviewing now id text).cells x = .int id := by
  have hunique : ∀ x ∈ Layout.reviews.columns, x.unique = true → x.name = "job_id" ∧ x.kind = .integer := by decide
  intro x hx hu
  obtain ⟨hname, hkind⟩ := hunique x hx hu
  have hmeant : x.answersTo "job_id" = true := by
    unfold Column.answersTo
    rw [hname, decide_eq_true_eq]
  have hgives : x.onNull ≠ .replace := by
    have hrefuse := (Layout.strict_column (l := .reviews) (by decide) hx).1
    rw [hrefuse]
    exact Clause.noConfusion
  exact ⟨hname, (Layout.cellFor_cons hmeant hgives _ _).trans (by rw [hkind]; rfl)⟩

/-- A review has no rival exactly if there is none of its job. -/
theorem reviewing_rival? (now : Timestamp) (text : ReviewText) (hl : t.layout = .reviews) :
    let s := reviewing now id text
    t.rival? (s.row t.layout t.nextId) s.clause (t.layout.rivalries s.isUnless) = none ↔ ∀ v ∈ t.rows, ¬v.Reviews id := by
  have hjob : ∃ x ∈ Layout.reviews.columns, x.unique = true ∧ x.isKey = false := by decide
  intro s
  rw [Insertion.rival?_nextId_eq_none_iff (by rw [hl]; decide) (by rw [hl]; decide), hl]
  constructor
  · intro h v hv hsame
    obtain ⟨x, hx, hu, hk⟩ := hjob
    obtain ⟨hname, hcell⟩ := cellFor_reviewing now id text x hx hu
    have hapart := h x hx hu hk v hv
    rw [hname, hcell] at hapart
    exact Bool.false_ne_true (hapart.symm.trans hsame)
  · intro h x hx hu _ v hv
    obtain ⟨hname, hcell⟩ := cellFor_reviewing now id text x hx hu
    rw [hname, hcell]
    exact Bool.eq_false_iff.mpr (h v hv)

/-- What can be said of the statement that stores a review before any row is looked at: there is no fault, and the row gets the
next number. -/
theorem reviewing_sound (hdb : c.database.IsCurrent) (hl : t.layout = .reviews) (now : Timestamp) (id : Int) (text : ReviewText) :
    (reviewing now id text).faults c.guard c.database = [] ∧ (reviewing now id text).cellStop? c.guard t.layout = none ∧
      (reviewing now id text).number t = .ok t.nextId := by
  refine ⟨?_, Insertion.cellStop?_eq_none ?_, Insertion.number_eq_nextId (.key "id") (by rw [hl]; decide) ?_⟩
  · exact hdb.faults_eq_nil (l := .reviews) (by simp [Layout.current]) rfl (by decide) (by
      have h : (Layout.reviews.knows ["job_id", "agent", "prompt", "output", "created_at"] &&
        Layout.reviews.knows Review.columns && true) = true := by decide
      exact h)
  · rw [hl]
    simp [Layout.reviews, Layout.cellFor, reviewing, Column.answersTo, foldedName, Column.textRequired, Column.key,
      Column.linkRequired, Column.admits, Column.isKey]
  · simp [Layout.cellFor, Column.settle, Column.fallback, reviewing, Column.answersTo, foldedName, Column.key, Column.isKey]

/-- A review is refused if there is another one of its job. -/
theorem insert_reviewing_of_taken (hdb : c.database.IsCurrent) (hlock : c.locked = false)
    (ht : c.database.table? "reviews" = some t) (htaken : ∃ v ∈ t.rows, v.Reviews id) (now : Timestamp)
    (text : ReviewText) : c.insertWithin (reviewing now id text) = .error (.twiceIn "reviews" "job_id") := by
  have hl : t.layout = .reviews := hdb.layout_eq (l := .reviews) (by simp [Layout.current]) ht
  obtain ⟨hfaults, hcells, hnumber⟩ := reviewing_sound hdb hl now id text
  cases hrival : t.rival? ((reviewing now id text).row t.layout t.nextId) (reviewing now id text).clause
      (t.layout.rivalries (reviewing now id text).isUnless) with
  | none =>
    obtain ⟨v, hv, hsame⟩ := htaken
    exact absurd hsame ((reviewing_rival? now text hl).mp hrival v hv)
  | some x =>
    obtain ⟨hx, hu, -, -⟩ := Insertion.rival?_nextId_eq_some (by rw [hl]; decide) hrival
    rw [hl] at hx
    have hclause : (reviewing now id text).clause x = .refuse := (Layout.strict_column (l := .reviews) (by decide) hx).2.1
    rw [insertWithin_eq hfaults hlock, Insertion.run_of_rival ht hnumber hcells hrival, hclause, hl,
      (@cellFor_reviewing now id text x hx hu).1]
    rfl

/-- The review of a job that is there is added if there is no other one of the job. -/
theorem insert_reviewing_of_free (hdb : c.database.IsCurrent) (hlock : c.locked = false)
    (ht : c.database.table? "reviews" = some t) (hjob : ∃ r ∈ c.database.rows "review_jobs", r.id = id)
    (hfree : ∀ v ∈ t.rows, ¬v.Reviews id) (now : Timestamp) (text : ReviewText) :
    ∃ new, (reviewing now id text).Adds c.guard c.database t new t.nextId (c.database.put new) ∧
      c.insertWithin (reviewing now id text) =
        .ok (some (Review.recordOf ((reviewing now id text).row .reviews t.nextId)), c.database.put new) := by
  have hl : t.layout = .reviews := hdb.layout_eq (l := .reviews) (by simp [Layout.current]) ht
  obtain ⟨hfaults, hcells, hnumber⟩ := reviewing_sound hdb hl now id text
  have hdiff := (reviewing_rival? now text hl).mpr hfree
  have hstrict : t.layout.isStrict = true := by rw [hl]; decide
  obtain ⟨new, hadds, hrun⟩ := Insertion.exists_adds (g := c.guard) ht hstrict hnumber hcells hdiff fun db' new hadds x hx => by
    have hrefs : ∀ x ∈ Layout.reviews.references, x.2 = "review_jobs" ∧ x.1.name = "job_id" ∧ x.1.isKey = false := by decide
    rw [hl] at hx ⊢
    obtain ⟨hparent, hname, hk⟩ := hrefs x hx
    obtain ⟨r, hr, rfl⟩ := hjob
    have hthere : r ∈ db'.rows "review_jobs" := by
      rw [Database.rows_congr (hadds.table?_of_ne (show "review_jobs" ≠ "reviews" by decide))]
      exact hr
    rw [hparent, Row.get_of_isKey_false _ hk, hname, (reviewing_holds now r.id t.nextId text).jobId]
    exact Database.refers_of_mem hthere
  refine ⟨new, hadds, ?_⟩
  rw [insertWithin_eq hfaults hlock, hrun, hl]
  rfl

/-- The review of a job that is there is stored exactly if there is no review of the job. -/
theorem storeReview_isOk_iff (hdb : c.database.IsCurrent) (hlock : c.locked = false) (hnow : now.IsPlain)
    (hjob : ∃ r ∈ c.database.rows "review_jobs", r.id = id) (text : ReviewText) :
    (∃ v, c.storeReview now id text = .ok v) ↔ ∀ v ∈ c.database.rows "reviews", ¬v.Reviews id := by
  obtain ⟨t, ht, -⟩ := hdb.reviews
  rw [Database.rows_of_table? ht]
  unfold storeReview
  constructor
  · rintro ⟨v, hv⟩ x hx hsame
    rw [insert_reviewing_of_taken hdb hlock ht ⟨x, hx, hsame⟩] at hv
    cases hv
  · intro hfree
    obtain ⟨new, -, hinsert⟩ := insert_reviewing_of_free hdb hlock ht hjob hfree now text
    simp only [hinsert, bind, Except.bind, Review.ofRecord_recordOf (reviewing_holds now id t.nextId text) hnow]
    exact ⟨_, rfl⟩

/-- A running job is completed exactly if there is no review of it, provided that the lock is free. -/
theorem complete_isOk_iff (hdb : c.database.IsCurrent) (hlock : c.locked = false) (hnow : now.IsPlain) {r : Row}
    (hr : r ∈ c.database.rows "review_jobs") (hrun : r.HasStatus .running) (text : ReviewText) :
    (∃ review, (c.complete now r.id text).answer = .ok review) ↔
      ∀ v ∈ c.database.rows "reviews", ¬v.Reviews r.id := by
  obtain ⟨t, ht, hl⟩ := hdb.jobs
  have hmem := hr
  rw [Database.rows_of_table? ht] at hr
  obtain ⟨record, done, hchange, htakes⟩ :=
    change_finishing_of_running ht hl hlock hr hrun now .done none
  -- the reviews are the same once the job is done, and the job is still there
  have hreviews : done.rows "reviews" = c.database.rows "reviews" :=
    Database.rows_congr (htakes.table?_of_ne (show "reviews" ≠ "review_jobs" by decide))
  have hjob : ∃ x ∈ done.rows "review_jobs", x.id = r.id :=
    ⟨_, (((finishing_moves now r.id .done none).mem_rows_takes hl htakes).2.2.2 _).mpr (Or.inl rfl), rfl⟩
  have hstore := storeReview_isOk_iff (c := c.on done) (hdb.of_gives htakes.toGives) hlock hnow hjob text
  rw [show (c.on done).database = done from rfl, hreviews] at hstore
  rw [← hstore, complete_eq hdb hlock]
  unfold finish
  simp only [hchange, finished, List.length_singleton, if_true]
  cases (c.on done).storeReview now r.id text with
  | error f =>
    constructor <;> rintro ⟨_, h⟩ <;> cases h
  | ok v => exact ⟨fun _ => ⟨v, rfl⟩, fun _ => ⟨v.1, rfl⟩⟩

end Connection
end ReviewQueue
