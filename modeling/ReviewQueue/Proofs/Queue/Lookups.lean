import ReviewQueue.Proofs.Queue.Decoding
import ReviewQueue.Proofs.Queue.Effects
import ReviewQueue.Proofs.Store.Queries

/-!
# What is looked at among the jobs

Each way of looking at jobs is said in terms of the rows of jobs: the row of a number, the newest rows of a status, the status
of every row. Nothing else is asked of the database, and no row need be readable.
-/

namespace ReviewQueue

/-- Rows that stand by ascending numbers are put in the order of descending numbers by turning them round. -/
theorem mergeSort_eq_reverse {rows : List Row} (h : rows.Pairwise (·.id < ·.id)) :
    (rows.mergeSort fun a b => decide (b.id ≤ a.id)) = rows.reverse := by
  have hsorted : (rows.mergeSort fun a b => decide (b.id ≤ a.id)).Pairwise fun a b => decide (b.id ≤ a.id) = true := by
    refine List.pairwise_mergeSort ?_ ?_ rows
    · intro a b c hab hbc
      simp only [decide_eq_true_eq] at hab hbc ⊢
      omega
    · intro a b
      simp only [Bool.or_eq_true, decide_eq_true_eq]
      omega
  have hreverse : rows.reverse.Pairwise fun a b => decide (b.id ≤ a.id) = true := by
    rw [List.pairwise_reverse]
    exact h.imp fun hlt => decide_eq_true (Int.le_of_lt hlt)
  have hperm := (List.mergeSort_perm rows fun a b => decide (b.id ≤ a.id)).trans (List.reverse_perm rows).symm
  refine hperm.eq_of_pairwise ?_ hsorted hreverse
  -- the numbers tell the rows apart
  intro a b ha hb hab hba
  rw [List.mem_mergeSort] at ha
  rw [List.mem_reverse] at hb
  have hid : a.id = b.id := Int.le_antisymm (of_decide_eq_true hba) (of_decide_eq_true hab)
  exact Table.eq_of_id_eq_of_ascending h ha hb hid

/-- Whether a row is in the list of the jobs of some status, or of all jobs. -/
def Row.isListed (status : Option JobStatus) (r : Row) : Bool := status.all fun s => r.HasStatus s

theorem Database.rows_ascending (db : Database) (name : String) : (db.rows name).Pairwise (·.id < ·.id) := by
  unfold rows
  cases db.table? name with
  | none => exact .nil
  | some t => exact t.ascending

namespace Connection

variable {c : Connection} {α : Type} {read : Record → Except Fault α} {columns : List String}

/-- In the current layout a query of jobs answers the rows that have its cells, in the order of their numbers. -/
theorem run_jobs (hdb : c.database.IsCurrent) {having : List (String × Cell)}
    (hknown : (Query.mk "review_jobs" columns having).isKnown .jobs = true) :
    (Query.mk "review_jobs" columns having).run c.database =
      .ok (((c.database.rows "review_jobs").filter (·.hasAll .jobs having)).map (·.record (Layout.jobs.pick columns))) := by
  obtain ⟨t, ht, hl⟩ := hdb.jobs
  rw [Query.run_eq ht (by rw [hl]; exact hknown), Database.rows_of_table? ht, Query.found, hl]

/-- A job is looked up by its number alone. -/
theorem first_of_number (hdb : c.database.IsCurrent) (hknown : (Layout.jobs.knows columns && Layout.jobs.knows ["id"]) = true)
    (id : Int) : c.first ⟨"review_jobs", columns, [("id", .int id)]⟩ read =
      match (c.database.rows "review_jobs").find? (·.id = id) with
      | none => .ok none
      | some r => (read (r.record (Layout.jobs.pick columns))).map some := by
  have hchosen : ∀ r : Row, r.hasAll .jobs [("id", .int id)] = decide (r.id = id) := by
    intro r
    rw [Row.hasAll_cons Column.column?_id, Row.has_key rfl, Row.hasAll_nil, Bool.and_true]
  unfold first
  rw [run_jobs hdb (Query.isKnown_of_names ["id"] rfl hknown)]
  simp only [bind, Except.bind, pure, Except.pure, hchosen, List.head?_map, List.head?_filter]
  cases (c.database.rows "review_jobs").find? (fun r => decide (r.id = id)) with
  | none => rfl
  | some r =>
    simp only [Option.map_some]
    cases read (r.record (Layout.jobs.pick columns)) <;> rfl

/-- A job is found by its number, and read. -/
theorem findJob_eq (hdb : c.database.IsCurrent) (id : Int) : c.findJob id =
    match (c.database.rows "review_jobs").find? (·.id = id) with
    | none => .ok none
    | some r => liftFault ((Job.ofRecord (Job.recordOf r)).map some) := by
  unfold findJob
  rw [first_of_number hdb (by decide)]
  split <;> rfl

/-- The records of rows that stand by ascending numbers are put in order, newest first, by turning the rows round. -/
theorem mergeSort_records {rows : List Row} (h : rows.Pairwise (·.id < ·.id)) :
    (rows.map Job.recordOf).mergeSort (fun a b => (b.at_ 0).2.le (a.at_ 0).2) = rows.reverse.map Job.recordOf := by
  have hle : ∀ a ∈ rows, ∀ b ∈ rows, decide (b.id ≤ a.id) = ((Job.recordOf b).at_ 0).2.le ((Job.recordOf a).at_ 0).2 := by
    intro a _ b _
    rw [Job.recordOf_eq, Job.recordOf_eq]
    rfl
  rw [← mergeSort_eq_reverse h]
  exact (List.map_mergeSort (s := fun a b : Record => (b.at_ 0).2.le (a.at_ 0).2) hle).symm

/-- The newest jobs that have some cells are read, newest first. -/
theorem run_newest (hdb : c.database.IsCurrent) {having : List (String × Cell)} {chosen : Row → Bool}
    (hknown : (Query.mk "review_jobs" Job.columns having).isKnown .jobs = true)
    (hchosen : ∀ r : Row, r.hasAll .jobs having = chosen r) (n : Nat) :
    ((Query.mk "review_jobs" Job.columns having).run c.database >>= fun records =>
      ((records.mergeSort fun a b => (b.at_ 0).2.le (a.at_ 0).2).take n).mapM Job.ofRecord) =
    (((c.database.rows "review_jobs").filter chosen).reverse.take n).mapM fun r => Job.ofRecord (Job.recordOf r) := by
  have hascending := (c.database.rows_ascending "review_jobs").filter chosen
  rw [run_jobs hdb hknown]
  simp only [bind, Except.bind, hchosen]
  rw [show (fun r : Row => r.record (Layout.jobs.pick Job.columns)) = Job.recordOf from rfl,
    mergeSort_records hascending, ← List.map_take, List.mapM_map]
  rfl

/-- A list reads the rows of its status that have the greatest numbers, as many as it may have, greatest number first. -/
theorem listJobs_eq (hdb : c.database.IsCurrent) (status : Option JobStatus) (limit : Nat) : c.listJobs status limit =
    liftFault ((((c.database.rows "review_jobs").filter (·.isListed status)).reverse.take (min limit longestList)).mapM
      fun r => Job.ofRecord (Job.recordOf r)) := by
  unfold listJobs
  cases status with
  | none => exact congrArg liftFault (run_newest hdb (by decide) (fun _ => rfl) _)
  | some s =>
    refine congrArg liftFault (run_newest hdb (Query.isKnown_of_names ["status"] rfl (by decide)) (fun r => ?_) _)
    rw [Row.hasAll_status]
    rfl

end Connection
end ReviewQueue
