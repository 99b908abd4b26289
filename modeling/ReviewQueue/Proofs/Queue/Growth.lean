import ReviewQueue.Proofs.Queue.Effects

/-!
# Tables that only grow

Repositories, commits, reviews and responses are added and never changed or removed: whatever the next statement of a call
does, the rows of these tables are kept, and a row that is new is the one of the statement that adds to the table.
-/

namespace ReviewQueue

namespace Database

/-- The rows of a name are kept, and each that is new has a property. -/
structure Gains (db db' : Database) (name : String) (p : Row → Prop) : Prop where
  kept : ∀ r ∈ db.rows name, r ∈ db'.rows name
  added : ∀ r ∈ db'.rows name, r ∈ db.rows name ∨ p r

theorem Gains.of_table?_eq {db db' : Database} {name : String} (h : db'.table? name = db.table? name) (p : Row → Prop) :
    db.Gains db' name p where
  kept r hr := by
    rw [rows_congr h]
    exact hr
  added r hr := by
    rw [rows_congr h] at hr
    exact Or.inl hr

theorem Gains.mono {db db' : Database} {name : String} {p q : Row → Prop} (h : db.Gains db' name p) (hpq : ∀ r, p r → q r) :
    db.Gains db' name q := ⟨h.kept, fun r hr => (h.added r hr).imp_right (hpq r)⟩

end Database

/-- A table other than those of jobs and reviews is left by an operation that is there to change jobs. -/
theorem Effect.table?_of_ne {c : Connection} {now : Timestamp} {op : Operation} {p : Progress} {db : Database}
    (h : Effect c now op p db) (hop : op.changesJobs = true) {name : String} (hjobs : name ≠ "review_jobs")
    (hreviews : name ≠ "reviews") : db.table? name = c.database.table? name := by
  cases h with
  | aside changes _ _ =>
    rw [hop] at changes
    cases changes
  | refused agrees _ => exact agrees name
  | missed agrees => exact agrees name
  | waiting _ _ _ agrees => exact agrees name
  | enqueued adds => exact adds.table?_of_ne hjobs
  | claimed _ takes _ => exact takes.table?_of_ne hjobs
  | failed takes _ _ => exact takes.table?_of_ne hjobs
  | completed takes _ _ adds _ => exact (adds.table?_of_ne hreviews).trans (takes.table?_of_ne hjobs)
  | requeued gives => exact gives.table?_of_ne hjobs

/-- What a statement of a call can do to the tables of repositories, commits and responses. -/
inductive Call.Writes (c : Connection) (now : Timestamp) : Call → Database → Prop where
  | nothing {call : Call} : Writes c now call c.database
  | repo {path : Path} {a : Option Record} {db : Database}
      (inserts : c.insert (Connection.registration now path) = .ok (a, db)) : Writes c now (.registering path) db
  | commit {info : CommitInfo} {a : Option Record} {db : Database}
      (inserts : c.insert (Connection.storing now info) = .ok (a, db)) : Writes c now (.storing info) db
  | response {reply : Reply} {a : Option Record} {db : Database}
      (inserts : c.insert (Connection.responding now reply) = .ok (a, db)) : Writes c now (.asked (.addResponse reply)) db
  | jobs {op : Operation} {db : Database} (changes : op.changesJobs = true) : Writes c now (.asked op) db

theorem Call.run_writes (c : Connection) (now : Timestamp) (call : Call) : call.Writes c now (call.run c now).2 := by
  cases call with
  | asked op =>
    cases op with
    | registerRepo | storeCommit =>
      simp only [run]
      split <;> exact .nothing
    | addResponse reply =>
      simp only [run, Connection.perform, Outcome.map, Connection.addResponse]
      cases hins : c.insert (Connection.responding now reply) with
      | error f => exact .nothing
      | ok v =>
        obtain ⟨_ | record, db⟩ := v
        · exact .response hins
        · exact .response hins
    | enqueue | claim | complete | fail | resetStale => exact .jobs rfl
    | _ => exact .nothing
  | registering path =>
    simp only [run]
    cases hins : c.insert (Connection.registration now path) with
    | error f => exact .nothing
    | ok v => exact .repo hins
  | storing info =>
    simp only [run]
    cases hins : c.insert (Connection.storing now info) with
    | error f => exact .nothing
    | ok v => exact .commit hins
  | registered | stored | refusing => exact .nothing

namespace Connection

/-- An insertion that succeeds keeps the rows of its table, and a new one is its row. -/
theorem insert_gains {c : Connection} {s : Insertion} {a : Option Record} {db : Database} {l : Layout}
    (hdb : c.database.IsCurrent) (hl : l ∈ Layout.current) (hname : l.name = s.table) (h : c.insert s = .ok (a, db)) :
    c.database.Gains db s.table fun r => ∃ id, r = s.row l id := by
  obtain ⟨t, ht, rfl⟩ := hdb l hl
  have hstrict := hdb.isStrict hl ht
  rcases insert_cases hdb hl hname.symm h with ⟨-, rfl, -⟩ | ⟨u, new, id, hadds, -, -⟩
  · exact .of_table?_eq rfl _
  · rw [hname] at ht
    cases ht.symm.trans hadds.table
    refine ⟨fun r hr => (hadds.mem_rows_table hstrict).mpr (Or.inr hr), fun r hr => ?_⟩
    rcases (hadds.mem_rows_table hstrict).mp hr with rfl | hr
    · exact Or.inr ⟨id, rfl⟩
    · exact Or.inl hr

/-- An insertion that succeeds keeps the rows of other tables. -/
theorem insert_gains_of_ne {c : Connection} {s : Insertion} {a : Option Record} {db : Database} {name : String}
    (hdb : c.database.IsCurrent) (h : c.insert s = .ok (a, db)) (hne : name ≠ s.table) (p : Row → Prop) :
    c.database.Gains db name p := .of_table?_eq ((insert_frame hdb h).1 name hne) p

end Connection

namespace Call

variable {c : Connection} {now : Timestamp}

/-- A row of reviews is new if a job was completed, and is the row for its review. -/
theorem run_gains_reviews (hdb : c.database.IsCurrent) (now : Timestamp) (call : Call) :
    c.database.Gains (call.run c now).2 "reviews" fun r =>
      ∃ job text id, r = (Connection.reviewing now job text).row .reviews id := by
  have hjobs : "reviews" ≠ "review_jobs" := by decide
  have heffect := run_effect hdb now call
  generalize (call.run c now).2 = db at heffect ⊢
  generalize (call.run c now).1 = p at heffect
  generalize call.operation = op at heffect
  cases heffect with
  | aside _ same _ => exact .of_table?_eq (same _ (Or.inr rfl)) _
  | refused agrees _ => exact .of_table?_eq (agrees _) _
  | missed agrees => exact .of_table?_eq (agrees _) _
  | waiting _ _ _ agrees => exact .of_table?_eq (agrees _) _
  | enqueued adds => exact .of_table?_eq (adds.table?_of_ne hjobs) _
  | claimed _ takes _ => exact .of_table?_eq (takes.table?_of_ne hjobs) _
  | failed takes _ _ => exact .of_table?_eq (takes.table?_of_ne hjobs) _
  | requeued gives => exact .of_table?_eq (gives.table?_of_ne hjobs) _
  | @completed id text _ _ _ _ rid _ _ _ takes _ _ adds _ =>
    obtain ⟨t, ht, hl⟩ := hdb.reviews
    have hsame := takes.table?_of_ne hjobs
    have hstrict : t.layout.isStrict = true := by rw [hl]; decide
    cases ht.symm.trans (hsame.symm.trans adds.table)
    have hrows := Database.rows_congr hsame
    refine ⟨fun r hr => (adds.mem_rows_table hstrict).mpr (Or.inr (hrows ▸ hr)), fun r hr => ?_⟩
    rcases (adds.mem_rows_table hstrict).mp hr with rfl | hr
    · exact Or.inr ⟨id, text, rid, by rw [hl]⟩
    · exact Or.inl (hrows ▸ hr)

/-- The tables that only grow, in four parts: those of repositories, commits, responses and reviews. What a statement of
a call adds to each is a row of the statement that is there to add to it. -/
theorem run_gains (hdb : c.database.IsCurrent) (now : Timestamp) (call : Call) :
    let db := (call.run c now).2
    c.database.Gains db "repos" (fun r => ∃ path id, r = (Connection.registration now path).row .repos id) ∧
    c.database.Gains db "commits" (fun r => ∃ info id, r = (Connection.storing now info).row .commits id) ∧
    c.database.Gains db "responses" (fun r => ∃ reply id, r = (Connection.responding now reply).row .responses id) ∧
    c.database.Gains db "reviews" fun r => ∃ job text id, r = (Connection.reviewing now job text).row .reviews id := by
  have heffect := run_effect hdb now call
  have hwrites := run_writes c now call
  have hreviews := run_gains_reviews hdb now call
  generalize (call.run c now).2 = db at heffect hwrites hreviews ⊢
  have commits : "commits" ≠ "repos" := by decide
  have responses : "responses" ≠ "repos" ∧ "responses" ≠ "commits" := by decide
  cases hwrites with
  | nothing => exact ⟨.of_table?_eq rfl _, .of_table?_eq rfl _, .of_table?_eq rfl _, hreviews⟩
  | @repo path _ _ inserts =>
    have hown := Connection.insert_gains hdb (l := .repos) (by simp [Layout.current]) rfl inserts
    refine ⟨hown.mono ?_, Connection.insert_gains_of_ne hdb inserts commits _,
      Connection.insert_gains_of_ne hdb inserts responses.1 _, hreviews⟩
    rintro r ⟨id, h⟩
    exact ⟨path, id, h⟩
  | @commit info _ _ inserts =>
    have hown := Connection.insert_gains hdb (l := .commits) (by simp [Layout.current]) rfl inserts
    refine ⟨Connection.insert_gains_of_ne hdb inserts commits.symm _, hown.mono ?_,
      Connection.insert_gains_of_ne hdb inserts responses.2 _, hreviews⟩
    rintro r ⟨id, h⟩
    exact ⟨info, id, h⟩
  | @response reply _ _ inserts =>
    have hown := Connection.insert_gains hdb (l := .responses) (by simp [Layout.current]) rfl inserts
    refine ⟨Connection.insert_gains_of_ne hdb inserts responses.1.symm _,
      Connection.insert_gains_of_ne hdb inserts responses.2.symm _, hown.mono ?_, hreviews⟩
    rintro r ⟨id, h⟩
    exact ⟨reply, id, h⟩
  | jobs changes =>
    have hsame : ∀ name, name ≠ "review_jobs" → name ≠ "reviews" → db.table? name = c.database.table? name :=
      fun name => heffect.table?_of_ne changes
    exact ⟨.of_table?_eq (hsame _ (by decide) (by decide)) _, .of_table?_eq (hsame _ (by decide) (by decide)) _,
      .of_table?_eq (hsame _ (by decide) (by decide)) _, hreviews⟩

end Call
end ReviewQueue
