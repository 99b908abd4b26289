import ReviewQueue.Proofs.Migration.Turns
import ReviewQueue.Proofs.Store.References
import ReviewQueue.Queue.Operation

/-!
# Migrations that fail

A migration that fails leaves the database as it was, unless another connection took the lock after the step: the step is kept
then. References are enforced after every migration, so a row for which an unknown number is given is not kept. But it is kept if
rows that are there, such as reviews of no job, refer to the number that it gets, and this is set off against its own references.
-/

namespace ReviewQueue

/-- Whether an operation keeps nothing: the connection is as it was, and the answer is an error unless it is given too early to
tell, what was missed being looked at only `late`. -/
structure Outcome.Withholds {α : Type} (o : Outcome α) (c : Connection) (late : Bool) : Prop where
  connection : o.connection = c
  answer : late = false → ∃ e, o.answer = .error e

theorem Outcome.withholds_refused {α : Type} (c : Connection) (f : Fault) (late : Bool) :
    (refused c f : Outcome α).Withholds c late := ⟨rfl, fun _ => ⟨_, rfl⟩⟩

namespace Connection

variable {c : Connection} {now : Timestamp} {late : Bool}

/-- A job of an unknown repository or of an unknown commit is not kept, unless its number is awaited. -/
theorem enqueue_withholds (henforcing : c.enforcing = true) {r : JobRequest}
    (hawaited : ¬(queueing now r).IsAwaited c.database late)
    (hmiss : (queueing now r).MissesParent c.database late "repo_id" r.repoId ∨
      ∃ id, r.commitId = some id ∧ (queueing now r).MissesParent c.database late "commit_id" id) :
    (c.enqueue now r).Withholds c late := by
  have hrepo : (queueing now r).given? "repo_id" = some (.int r.repoId) := by simp [Insertion.given?, queueing]
  have hcommit : (queueing now r).given? "commit_id" = some (.ofOption .int r.commitId) := by
    simp [Insertion.given?, queueing, foldedName]
  unfold enqueue
  cases hins : c.insert (queueing now r) with
  | error f => exact Outcome.withholds_refused c f late
  | ok v =>
    obtain ⟨a, db⟩ := v
    obtain ⟨rfl, hlate⟩ : db = c.database ∧ (a.isSome → late = true ∧ (queueing now r).returning ≠ []) := by
      rcases hmiss with hmiss | ⟨id, hid, hmiss⟩
      · exact insert_of_missesParent henforcing hmiss hrepo hawaited hins
      · exact insert_of_missesParent henforcing hmiss (by rw [hcommit, hid]; rfl) hawaited hins
    cases a with
    | none => exact Outcome.withholds_refused c .noRow late
    | some record =>
      cases (hlate rfl).1
      refine ⟨?_, fun h => absurd h (by decide)⟩
      simp only
      split <;> rfl

/-- A response to an unknown commit is not kept, unless its number is awaited. -/
theorem addResponse_withholds (henforcing : c.enforcing = true) {r : Reply}
    (hawaited : ¬(responding now r).IsAwaited c.database late)
    (hmiss : (responding now r).MissesParent c.database late "commit_id" r.commitId) :
    (c.addResponse now r).Withholds c late := by
  have hcommit : (responding now r).given? "commit_id" = some (.int r.commitId) := by simp [Insertion.given?, responding]
  unfold addResponse
  cases hins : c.insert (responding now r) with
  | error f => exact Outcome.withholds_refused c f late
  | ok v =>
    obtain ⟨a, db⟩ := v
    obtain ⟨rfl, hlate⟩ := insert_of_missesParent henforcing hmiss hcommit hawaited hins
    cases a with
    | none => exact Outcome.withholds_refused c .noRow late
    | some record =>
      cases (hlate rfl).1
      exact ⟨rfl, nofun⟩

/-- A commit of an unknown repository is refused if its hash is not found, unless its number is awaited. A row that is left out
for another one of that hash does not make a difference: that one is not found either. -/
theorem storeCommit_withholds (henforcing : c.enforcing = true) {info : CommitInfo}
    (hnew : ∀ commit, c.commitOf info.sha ≠ .ok (some commit)) (hawaited : ¬(storing now info).IsAwaited c.database late)
    (hmiss : (storing now info).MissesParent c.database late "repo_id" info.repoId) :
    (c.storeCommit now info).Withholds c false := by
  have hrepo : (storing now info).given? "repo_id" = some (.int info.repoId) := by simp [Insertion.given?, storing]
  unfold storeCommit
  cases hfound : c.commitOf info.sha with
  | error f => exact Outcome.withholds_refused c f false
  | ok found =>
    cases found with
    | some commit => exact absurd hfound (hnew commit)
    | none =>
      cases hins : c.insert (storing now info) with
      | error f => exact Outcome.withholds_refused c f false
      | ok v =>
        obtain ⟨a, db⟩ := v
        obtain ⟨rfl, -⟩ := insert_of_missesParent henforcing hmiss hrepo hawaited hins
        have hsame : c.on c.database = c := rfl
        refine ⟨rfl, fun _ => ⟨.fault .noRow, ?_⟩⟩
        simp only [hsame, storedCommit, hfound]
        rfl

/-- A migration that fails leaves the connection, but that references are enforced. -/
theorem migrate_of_error {e : StoreError} (hv : c.database.HasPlainVersions) (h : c.migrate.answer = .error e) :
    c.migrate.connection = { c with enforcing := true } := by
  obtain ⟨log, hmigrate⟩ := migrate_eq hv
  rw [hmigrate] at h ⊢
  cases hturn : (Migration.turn { c with enforcing := false }).answer with
  | error e => simp only [Migration.connection_of_error hturn]
  | ok last =>
    rw [hturn] at h
    cases h

end Connection

/-- Bringing a database forward that may have any tables, in five parts, whoever else takes the lock between two turns. The table
of versions, if there is one, has the columns of its layout, and may hold any versions.
1. If the migration fails, the database is as it was. The one exception is a lock that was taken after the step: the database is
   then what it is after a migration that succeeds.
2. Whether it fails or not, references are enforced afterwards.
3. A job for which the number of its repository or of its commit is unknown is not kept then, unless rows that are there refer to
   the number of the new job. It is refused too, unless its reference is put off.
4. So it is with a response for which the number of its commit is unknown.
5. A commit for which the number of its repository is unknown is refused in both cases, if its hash is not found and its own
   number is not referred to. -/
theorem migrate_rollback (db : Database) (hv : db.HasPlainVersions) (enforcing : Bool) (lock : Nat → Bool) :
    let free := (Connection.mk db enforcing false).migrate
    let o := (Connection.mk db enforcing false).migrateAmid lock
    let c := o.connection
    (∀ e, o.answer = .error e → c.database = db ∨
      lock 0 = false ∧ lock 1 = true ∧ e = .busy .locked ∧ free.answer = .ok () ∧ c.database = free.connection.database) ∧
    c.enforcing = true ∧
    (∀ now r late, ¬(Connection.queueing now r).IsAwaited c.database late →
      ((Connection.queueing now r).MissesParent c.database late "repo_id" r.repoId ∨
        ∃ id, r.commitId = some id ∧ (Connection.queueing now r).MissesParent c.database late "commit_id" id) →
      (c.enqueue now r).Withholds c late) ∧
    (∀ now r late, ¬(Connection.responding now r).IsAwaited c.database late →
      (Connection.responding now r).MissesParent c.database late "commit_id" r.commitId →
      (c.addResponse now r).Withholds c late) ∧
    ∀ now info late, (∀ commit, c.commitOf info.sha ≠ .ok (some commit)) →
      ¬(Connection.storing now info).IsAwaited c.database late →
      (Connection.storing now info).MissesParent c.database late "repo_id" info.repoId →
      (c.storeCommit now info).Withholds c false := by
  intro free o c
  have henforcing : c.enforcing = true := rfl
  refine ⟨fun e he => ?_, henforcing, fun now r late => Connection.enqueue_withholds henforcing,
    fun now r late => Connection.addResponse_withholds henforcing,
    fun now info late => Connection.storeCommit_withholds henforcing⟩
  have ho : o = (Connection.mk db enforcing false).migrateAmid lock := rfl
  rcases Connection.migrateAmid_cases (c := ⟨db, enforcing, false⟩) hv lock with hsteady | ⟨hfirst, hnext, hfree, hbusy, hleft⟩
  · refine Or.inl ?_
    have hsame : o = (Connection.mk db enforcing (lock 0)).migrate := hsteady
    rw [hsame] at he
    show o.connection.database = db
    rw [hsame]
    exact congrArg Connection.database (Connection.migrate_of_error (c := ⟨db, enforcing, lock 0⟩) hv he)
  · cases hbusy.symm.trans he
    exact Or.inr ⟨hfirst, hnext, rfl, hfree, (congrArg Connection.database hleft :)⟩

/-- A database that is current but for its version, which no step starts from. -/
def Database.unknownVersion : Database := Database.current.put (Database.versions (-3))

/-- A migration from version -3 fails and leaves the database, and jobs, responses and commits of repositories and commits
that are not there are refused after it. -/
theorem migrate_rollback_unknownVersion :
    let o := (Connection.mk .unknownVersion true false).migrate
    o.answer = .error (.unknownVersion (-3)) ∧ o.connection.database = .unknownVersion ∧
    (o.connection.enqueue .epoch ⟨99, none, "main", "codex"⟩).Withholds o.connection false ∧
    (o.connection.addResponse .epoch ⟨99, "ada", "no"⟩).Withholds o.connection false ∧
    (o.connection.storeCommit .epoch ⟨99, "abc123", "ada", "s", .epoch⟩).Withholds o.connection false := by
  have hv : Database.unknownVersion.HasPlainVersions := by
    intro v h
    cases h
    rfl
  have hfailed : (Connection.mk .unknownVersion true false).migrate.answer = .error (.unknownVersion (-3)) := by decide +kernel
  obtain ⟨hleaves, -, henqueue, hrespond, hstore⟩ := migrate_rollback .unknownVersion hv true fun _ => false
  have hsame := (hleaves _ hfailed).resolve_right fun h => by cases h.2.1
  rw [hsame] at henqueue hrespond hstore
  have hjobs : ∀ id, Database.unknownVersion.referrers (!·.deferred) "review_jobs" [id] = 0 := fun _ => rfl
  have hresponses : ∀ id, Database.unknownVersion.referrers (!·.deferred) "responses" [id] = 0 := fun _ => rfl
  have hcommits : ∀ id, Database.unknownVersion.referrers (!·.deferred) "commits" [id] = 0 := fun _ => rfl
  refine ⟨hfailed, hsame, henqueue .epoch _ false ?_ (Or.inl ?_), hrespond .epoch _ false ?_ ?_,
    hstore .epoch _ false (fun commit h => ?_) ?_ ?_⟩
  · rintro ⟨t, id, -, -, hpos⟩
    exact Nat.lt_irrefl 0 (Nat.lt_of_lt_of_eq hpos (hjobs id))
  · have hrefers : Layout.jobs.Refers "repo_id" (.linkRequired "repo_id" "repos") "repos" := ⟨rfl, rfl, by decide⟩
    exact .of_free (t := .empty .jobs) rfl hrefers (by decide) (by decide) (fun p hp => by cases hp; rfl)
      fun h => absurd h (by decide)
  · rintro ⟨t, id, -, -, hpos⟩
    exact Nat.lt_irrefl 0 (Nat.lt_of_lt_of_eq hpos (hresponses id))
  · have hrefers : Layout.responses.Refers "commit_id" (.linkRequired "commit_id" "commits") "commits" := ⟨rfl, rfl, by decide⟩
    exact .of_free (t := .empty .responses) rfl hrefers (by decide) (by decide) (fun p hp => by cases hp; rfl)
      fun h => absurd h (by decide)
  · cases h
  · rintro ⟨t, id, -, -, hpos⟩
    unfold Insertion.setOff Insertion.mended at hpos
    simp [Connection.storing, hcommits] at hpos
  · have hrefers : Layout.commits.Refers "repo_id" (.linkRequired "repo_id" "repos") "repos" := ⟨rfl, rfl, by decide⟩
    exact .of_free (t := .empty .commits) rfl hrefers (by decide) (by decide) (fun p hp => by cases hp; rfl)
      fun h => absurd h (by decide)

/-- The review that was left behind is kept, and refers to the number that the next job gets. So references are enforced
after the migration, and a job of a repository that is not there is queued all the same. -/
theorem migrate_rollback_orphanReview :
    let o := (Connection.mk .orphanReview true false).migrate
    let queued := o.connection.enqueue .epoch ⟨99, none, "main", "codex"⟩
    o.answer = .ok () ∧ o.connection.enforcing = true ∧
    (o.connection.database.table? "review_jobs").map (·.layout) = some .jobs ∧ o.connection.database.rows "repos" = [] ∧
    queued.answer.map (fun j => (j.id, j.repoId)) = .ok (1, 99) ∧
    (queued.connection.database.rows "review_jobs").map (·.cell "repo_id") = [.int 99] := by
  decide +kernel

end ReviewQueue
