import ReviewQueue.Proofs.Queue.Footprint
import ReviewQueue.Proofs.Queue.Keys
import ReviewQueue.Proofs.Store.Contention

/-!
# Operations while another connection writes

An operation that has to write is refused while another connection holds the lock, before anything else is looked at, and
leaves nothing behind. The other operations do not notice the lock. While the lock is free no operation is refused for it.
-/

namespace ReviewQueue

/-- Whether an operation has to write whatever it finds. An entry is written only if its key is missing. -/
def Operation.Writes (db : Database) : Operation → Prop
  | .registerRepo path => (Key.path path.display).Lacks db
  | .storeCommit info => (Key.hash info.sha).Lacks db
  | .enqueue _ | .claim _ | .complete .. | .fail .. | .resetStale | .addResponse _ => True
  | _ => False

instance (db : Database) (op : Operation) : Decidable (op.Writes db) := by
  unfold Operation.Writes
  split
  · exact inferInstanceAs (Decidable (_ = _))
  · exact inferInstanceAs (Decidable (_ = _))
  all_goals infer_instance

/-- The connection while the lock is free, or it has the lock itself. -/
def Connection.holding (c : Connection) : Connection := { c with locked := false }

/-! ## While the lock is held -/

/-- A key is looked up in vain exactly if no row has it. -/
theorem Key.look_eq_none_iff {c : Connection} {k : Key} (hdb : c.database.IsCurrent) :
    k.look c = .ok none ↔ k.Lacks c.database := by
  rw [look_eq hdb, Lacks, ← List.head?_eq_none_iff]
  cases (k.rows c.database).head? with
  | none => simp
  | some r =>
    dsimp only
    cases k.answer (r.record (k.layout.pick k.columns)) <;> simp [Except.map]

/-- In the current layout the statement of a call that adds a row is right. -/
theorem Call.faults_of_insertion? {db : Database} (hdb : db.IsCurrent) (g : Guard) {now : Timestamp} {call : Call}
    {s : Insertion} (h : call.insertion? now = some s) : s.faults g db = [] := by
  cases call with
  | asked op =>
    cases op with
    | enqueue r =>
      cases h
      have hknown : (Layout.jobs.knows ["repo_id", "commit_id", "git_ref", "agent", "status", "enqueued_at"] &&
        Layout.jobs.knows Job.columns && true) = true := by decide
      exact hdb.faults_eq_nil (l := .jobs) (by simp [Layout.current]) rfl (by decide) hknown
    | addResponse reply =>
      cases h
      have hknown : (Layout.responses.knows ["commit_id", "responder", "response", "created_at"] &&
        Layout.responses.knows Response.columns && true) = true := by decide
      exact hdb.faults_eq_nil (l := .responses) (by simp [Layout.current]) rfl (by decide) hknown
    | _ => cases h
  | registering path =>
    cases h
    exact (Entry.repo path).faults_insertion hdb g now
  | storing info =>
    cases h
    exact (Entry.commit info).faults_insertion hdb g now
  | _ => cases h

namespace Connection

variable {c : Connection} {now : Timestamp}

/-- The statement of a call that adds a row waits for the lock. -/
theorem insert_of_insertion? (hdb : c.database.IsCurrent) (hlock : c.locked = true) (now : Timestamp) (call : Call)
    {s : Insertion} (h : call.insertion? now = some s) : c.insert s = .error .locked :=
  insert_of_locked hlock (Call.faults_of_insertion? hdb c.guard h)

/-- The statement of a call that changes jobs waits for the lock. -/
theorem change_of_change? (hdb : c.database.IsCurrent) (hlock : c.locked = true) (now : Timestamp) (call : Call)
    {s : Change} (h : call.change? c.database now = some s) : c.change s = .error .locked := by
  obtain ⟨source, target, hs⟩ := Call.change?_moves h
  obtain ⟨t, ht, hl⟩ := hdb.jobs
  rw [(change_moves hs ht hl).1, if_pos hlock]

/-- A path is looked up in vain exactly if no row has it. -/
theorem repoAt_eq_none_iff (hdb : c.database.IsCurrent) {path : Path} :
    c.repoAt path.display = .ok none ↔ (Key.path path.display).Lacks c.database := by
  have hlook : (Key.path path.display).look c = (c.repoAt path.display).map (Option.map .repo) := Entry.look_repo c path
  rw [← Key.look_eq_none_iff hdb, hlook]
  cases c.repoAt path.display with
  | error f => simp [Except.map]
  | ok found => cases found <;> simp [Except.map]

/-- A hash is looked up in vain exactly if no row has it. -/
theorem commitOf_eq_none_iff (hdb : c.database.IsCurrent) {info : CommitInfo} :
    c.commitOf info.sha = .ok none ↔ (Key.hash info.sha).Lacks c.database := by
  have hlook : (Key.hash info.sha).look c = (c.commitOf info.sha).map (Option.map .commit) := Entry.look_commit c info
  rw [← Key.look_eq_none_iff hdb, hlook]
  cases c.commitOf info.sha with
  | error f => simp [Except.map]
  | ok found => cases found <;> simp [Except.map]

/-- An operation that has to write is refused for the lock. The connection is what it was, and nothing is logged. -/
theorem perform_of_locked (hdb : c.database.IsCurrent) (hlock : c.locked = true) (now : Timestamp) {op : Operation}
    (hop : op.Writes c.database) : c.perform now op = ⟨.error (.busy .locked), c, []⟩ := by
  cases op with
  | registerRepo path =>
    have hinsert := insert_of_insertion? hdb hlock now (.registering path) rfl
    simp only [perform, registerRepo, (repoAt_eq_none_iff hdb).mpr hop, hinsert]
    rfl
  | storeCommit info =>
    have hinsert := insert_of_insertion? hdb hlock now (.storing info) rfl
    simp only [perform, storeCommit, (commitOf_eq_none_iff hdb).mpr hop, hinsert]
    rfl
  | enqueue r =>
    have hinsert := insert_of_insertion? hdb hlock now (.asked (.enqueue r)) rfl
    simp only [perform, enqueue, hinsert]
    rfl
  | addResponse reply =>
    have hinsert := insert_of_insertion? hdb hlock now (.asked (.addResponse reply)) rfl
    simp only [perform, addResponse, hinsert]
    rfl
  | claim worker =>
    have hchange := change_of_change? hdb hlock now (.asked (.claim worker)) rfl
    simp only [perform, claim, hchange]
    rfl
  | fail id error =>
    have hchange := change_of_change? hdb hlock now (.asked (.fail id error)) rfl
    simp only [perform, fail, finish, hchange]
    rfl
  | resetStale =>
    have hchange := change_of_change? hdb hlock now (.asked .resetStale) rfl
    simp only [perform, resetStale, hchange]
    rfl
  | complete id text =>
    simp only [perform, complete, if_pos hlock]
    rfl
  | _ => cases hop

/-- An operation that does not write does what it would do if the lock were free, and leaves the connection. -/
theorem perform_of_not_writes (hdb : c.database.IsCurrent) (now : Timestamp) {op : Operation} (hop : ¬op.Writes c.database) :
    (c.perform now op).answer = (c.holding.perform now op).answer ∧ (c.perform now op).log = (c.holding.perform now op).log ∧
      (c.perform now op).connection = c := by
  cases op with
  | registerRepo path =>
    have hsame : c.holding.repoAt path.display = c.repoAt path.display := rfl
    simp only [perform, Outcome.map, registerRepo, hsame]
    cases hlook : c.repoAt path.display with
    | error f => exact ⟨rfl, rfl, rfl⟩
    | ok found =>
      cases found with
      | none => exact absurd ((repoAt_eq_none_iff hdb).mp hlook) hop
      | some repo => exact ⟨rfl, rfl, rfl⟩
  | storeCommit info =>
    have hsame : c.holding.commitOf info.sha = c.commitOf info.sha := rfl
    simp only [perform, Outcome.map, storeCommit, hsame]
    cases hlook : c.commitOf info.sha with
    | error f => exact ⟨rfl, rfl, rfl⟩
    | ok found =>
      cases found with
      | none => exact absurd ((commitOf_eq_none_iff hdb).mp hlook) hop
      | some commit => exact ⟨rfl, rfl, rfl⟩
  | enqueue | claim | complete | fail | resetStale | addResponse => exact absurd trivial hop
  | _ => exact ⟨rfl, rfl, rfl⟩

end Connection

/-! ## While the lock is free -/

/-- A fault that is not the lock is not worth a second try. -/
theorem StoreError.isRetryable_ofFault {f : Fault} (h : f.isContention = false) : (ofFault f).isRetryable = false := by
  unfold ofFault
  rw [h]
  rfl

/-- What is answered is no error that is worth a second try. -/
def Settles {α : Type} (x : Except StoreError α) : Prop := ∀ e, x = .error e → e.isRetryable = false

namespace Settles

variable {α β : Type}

/-- Success settles. -/
theorem ok (a : α) : Settles (.ok a : Except StoreError α) := fun _ h => by cases h

/-- So does an error that is not worth a second try. -/
theorem error {e : StoreError} (h : e.isRetryable = false) : Settles (.error e : Except StoreError α) := fun _ he => by
  cases he
  exact h

theorem ofFault {f : Fault} (h : f.isContention = false) : Settles (.error (.ofFault f) : Except StoreError α) :=
  error (StoreError.isRetryable_ofFault h)

/-- What never waits for the lock settles. -/
theorem lift {x : Except Fault α} (h : NeverWaits x) : Settles (liftFault x) := by
  cases x with
  | error f => exact ofFault (h f rfl)
  | ok a => exact ok a

/-- What becomes of an answer that settles does so too. -/
theorem map {x : Except StoreError α} (h : Settles x) (g : α → β) : Settles (x.map g) := by
  cases x with
  | error e => exact error (h e rfl)
  | ok a => exact ok (g a)

end Settles

namespace Connection

variable {c : Connection} {now : Timestamp}

/-- Looking up a path never waits for the lock. -/
theorem repoAt_neverWaits (c : Connection) (root : String) : NeverWaits (c.repoAt root) :=
  first_neverWaits Repo.ofRecord_neverWaits c _

/-- Nor does looking up a hash. -/
theorem commitOf_neverWaits (c : Connection) (sha : String) : NeverWaits (c.commitOf sha) :=
  first_neverWaits Commit.ofRecord_neverWaits c _

/-- Registering a path settles if the lock is free. -/
theorem registerRepo_settles (hlock : c.locked = false) (path : Path) : Settles (c.registerRepo now path).answer := by
  unfold registerRepo
  split
  next f hlook => exact .ofFault (c.repoAt_neverWaits _ f hlook)
  next => exact .ok _
  next =>
    split
    next f hinsert => exact .ofFault (insert_neverWaits hlock _ f hinsert)
    next =>
      refine .lift ((repoAt_neverWaits _ _).bind fun found => ?_)
      cases found with
      | none => exact .error rfl
      | some repo => exact .ok repo

/-- So does storing a commit. -/
theorem storeCommit_settles (hlock : c.locked = false) (info : CommitInfo) : Settles (c.storeCommit now info).answer := by
  unfold storeCommit
  split
  next f hlook => exact .ofFault (c.commitOf_neverWaits _ f hlook)
  next => exact .ok _
  next =>
    split
    next f hinsert => exact .ofFault (insert_neverWaits hlock _ f hinsert)
    next =>
      refine .lift ((commitOf_neverWaits _ _).bind fun found => ?_)
      cases found with
      | none => exact .error rfl
      | some commit => exact .ok commit

/-- So does queueing a job. -/
theorem enqueue_settles (hlock : c.locked = false) (r : JobRequest) : Settles (c.enqueue now r).answer := by
  unfold enqueue
  split
  next f hinsert => exact .ofFault (insert_neverWaits hlock _ f hinsert)
  next => exact .ofFault rfl
  next record db _ =>
    split
    next f hread => exact .ofFault (Job.ofRecord_neverWaits record f hread)
    next => exact .ok _

/-- So does claiming one. -/
theorem claim_settles (hlock : c.locked = false) (worker : String) : Settles (c.claim now worker).answer := by
  unfold claim
  split
  next f hchange => exact .ofFault (change_neverWaits hlock _ f hchange)
  next => exact .ok _
  next record rows db _ =>
    split
    next f hread => exact .ofFault (Job.ofRecord_neverWaits record f hread)
    next => exact .ok _

/-- A resolution that is refused is not worth a second try. -/
theorem refusal_isRetryable (c : Connection) (id : Int) (target : JobStatus) : (c.refusal id target).isRetryable = false := by
  unfold refusal
  split
  next f hlook => exact StoreError.isRetryable_ofFault (first_neverWaits (fun r => r.status_neverWaits 0) c _ f hlook)
  next => rfl
  next => rfl

/-- What comes of the change of a job is worth no second try if the change is not. -/
theorem finished_settles {changed : Except Fault (List Record × Database)} (id : Int) (target : JobStatus)
    (h : NeverWaits changed) : Settles (c.finished id target changed).answer := by
  unfold finished
  split
  next f => exact .ofFault (h f rfl)
  next =>
    split
    · exact .ok _
    · exact .error (refusal_isRetryable _ id target)

/-- A change that ends a job settles if the lock is free. -/
theorem finish_settles (hlock : c.locked = false) (id : Int) (target : JobStatus) (error : Option String) :
    Settles (c.finish now id target error).answer := finished_settles id target (change_neverWaits hlock _)

/-- The insertion of its review does not wait. -/
theorem storeReview_neverWaits (hlock : c.locked = false) (now : Timestamp) (id : Int) (text : ReviewText) :
    NeverWaits (c.storeReview now id text) := by
  refine (insertWithin_neverWaits hlock _).bind fun added => ?_
  split
  · exact .error rfl
  · exact (Review.ofRecord_neverWaits _).bind fun _ => .ok _

/-- So a completion settles. -/
theorem complete_settles (hlock : c.locked = false) (id : Int) (text : ReviewText) :
    Settles (c.complete now id text).answer := by
  have hchange := changeWithin_neverWaits hlock (finishing now id .done none)
  have hfinish : Settles (c.finished id .done (c.changeWithin (finishing now id .done none))).answer :=
    finished_settles id .done hchange
  have hconnection : (c.finished id .done (c.changeWithin (finishing now id .done none))).connection.locked = false := by
    unfold finished
    repeat' split
    all_goals exact hlock
  unfold complete
  rw [hlock, if_neg Bool.false_ne_true]
  dsimp only
  split
  next e he => exact .error (hfinish e he)
  next he =>
    split
    next f hstore => exact .ofFault (storeReview_neverWaits hconnection now id text f hstore)
    next =>
      split
      · exact .ofFault rfl
      · exact .ok _

/-- So does a failure. -/
theorem fail_settles (hlock : c.locked = false) (id : Int) (error : String) : Settles (c.fail now id error).answer := by
  have hfinish : Settles (c.finish now id .failed (some error)).answer := finish_settles hlock id .failed (some error)
  unfold fail
  dsimp only
  split
  · exact hfinish
  · exact hfinish

/-- So does queueing the running jobs again. -/
theorem resetStale_settles (hlock : c.locked = false) : Settles c.resetStale.answer := by
  unfold resetStale
  split
  next f hchange => exact .ofFault (change_neverWaits hlock _ f hchange)
  next => exact .ok _

/-- So does adding a response. -/
theorem addResponse_settles (hlock : c.locked = false) (reply : Reply) : Settles (c.addResponse now reply).answer := by
  unfold addResponse
  split
  next f hinsert => exact .ofFault (insert_neverWaits hlock _ f hinsert)
  next => exact .ofFault rfl
  next => exact .lift (Response.ofRecord_neverWaits _)

/-- Counting settles whoever has the lock, and so do the other lookups. -/
theorem counts_settles (c : Connection) : Settles c.counts :=
  .lift ((Query.run_neverWaits _ _).bind fun _ =>
    .foldlM (fun _ r => (r.status_neverWaits 0).bind fun _ => .ok _) _ _)

theorem listJobs_settles (c : Connection) (status : Option JobStatus) (limit : Nat) : Settles (c.listJobs status limit) :=
  .lift ((Query.run_neverWaits _ _).bind fun _ => .mapM Job.ofRecord_neverWaits _)

theorem listResponses_settles (c : Connection) (commitId : Int) : Settles (c.listResponses commitId) :=
  .lift ((Query.run_neverWaits _ _).bind fun _ => .mapM Response.ofRecord_neverWaits _)

theorem findReviewBySha_settles (c : Connection) (now : Timestamp) (sha : String) : Settles (c.findReviewBySha now sha) := by
  have hunknown : ∀ (l : Layout) (alias_ : String) (names : List String), ∀ f ∈ unknownIn l alias_ names,
      f.isContention = false := by
    intro l alias_ names f hf
    obtain ⟨_, -, rfl⟩ := List.mem_map.mp hf
    rfl
  refine .lift ((Database.need_neverWaits _ _).bind fun reviews => (Database.need_neverWaits _ _).bind fun jobs =>
    (Database.need_neverWaits _ _).bind fun commits => .ofFaults ?_ ?_)
  · simp only [candidateFaults, List.forall_mem_append]
    exact ⟨⟨⟨⟨⟨hunknown _ _ _, hunknown _ _ _⟩, hunknown _ _ _⟩, hunknown _ _ _⟩, hunknown _ _ _⟩, hunknown _ _ _⟩
  · split
    · exact .ok _
    · exact (Review.ofRecord_neverWaits _).bind fun _ => .ok _

/-- While the lock is free no operation answers an error that is worth a second try, whatever the database. -/
theorem perform_settles (hlock : c.locked = false) (now : Timestamp) (op : Operation) :
    Settles (c.perform now op).answer := by
  cases op with
  | registerRepo path => exact (registerRepo_settles hlock path).map _
  | findRepoByPath path => exact (Settles.lift (c.repoAt_neverWaits _)).map _
  | findRepo id => exact (Settles.lift (first_neverWaits Repo.ofRecord_neverWaits c _)).map _
  | storeCommit info => exact (storeCommit_settles hlock info).map _
  | findCommitBySha sha => exact (Settles.lift (c.commitOf_neverWaits _)).map _
  | findCommit id => exact (Settles.lift (first_neverWaits Commit.ofRecord_neverWaits c _)).map _
  | enqueue r => exact (enqueue_settles hlock r).map _
  | claim worker => exact (claim_settles hlock worker).map _
  | complete id text => exact (complete_settles hlock id text).map _
  | fail id error => exact (fail_settles hlock id error).map _
  | resetStale => exact (resetStale_settles hlock).map _
  | counts => exact c.counts_settles.map _
  | findJob id => exact (Settles.lift (first_neverWaits Job.ofRecord_neverWaits c _)).map _
  | listJobs status limit => exact (c.listJobs_settles status limit).map _
  | findReviewBySha sha => exact (c.findReviewBySha_settles now sha).map _
  | findReviewByJob job => exact (Settles.lift (first_neverWaits Review.ofRecord_neverWaits c _)).map _
  | addResponse reply => exact (addResponse_settles hlock reply).map _
  | listResponses id => exact (c.listResponses_settles id).map _
  | version => exact (Settles.lift (Database.recordedVersion_neverWaits _)).map _

end Connection
end ReviewQueue
