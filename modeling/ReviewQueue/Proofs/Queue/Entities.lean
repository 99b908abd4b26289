import ReviewQueue.Proofs.Queue.Readback

/-!
# Repositories, commits, reviews and responses are read back

What holds of jobs holds of the other entities that are read from rows: a row each cell of which is what is written for
the entity is read as that entity, if its times are plain. The rows that the queue adds hold what they were added for.
-/

namespace ReviewQueue

/-- A row holds a repository. -/
structure Row.HoldsRepo (r : Row) (x : Repo) : Prop where
  id : r.id = x.id
  rootPath : r.cell "root_path" = .ofString x.rootPath
  name : r.cell "name" = .ofString x.name
  createdAt : r.cell "created_at" = .ofString x.createdAt.stored

/-- A row holds a commit. -/
structure Row.HoldsCommit (r : Row) (x : Commit) : Prop where
  id : r.id = x.id
  repoId : r.cell "repo_id" = .int x.repoId
  sha : r.cell "sha" = .ofString x.sha
  author : r.cell "author" = .ofString x.author
  subject : r.cell "subject" = .ofString x.subject
  timestamp : r.cell "timestamp" = .ofString x.timestamp.stored
  createdAt : r.cell "created_at" = .ofString x.createdAt.stored

/-- A row holds a review. -/
structure Row.HoldsReview (r : Row) (x : Review) : Prop where
  id : r.id = x.id
  jobId : r.cell "job_id" = .int x.jobId
  agent : r.cell "agent" = .ofString x.agent
  prompt : r.cell "prompt" = .ofString x.prompt
  output : r.cell "output" = .ofString x.output
  createdAt : r.cell "created_at" = .ofString x.createdAt.stored

/-- A row holds a response. -/
structure Row.HoldsResponse (r : Row) (x : Response) : Prop where
  id : r.id = x.id
  commitId : r.cell "commit_id" = .int x.commitId
  responder : r.cell "responder" = .ofString x.responder
  response : r.cell "response" = .ofString x.response
  createdAt : r.cell "created_at" = .ofString x.createdAt.stored

/-! ## Reading -/

/-- The record that a row of repositories is answered as. -/
def Repo.recordOf (r : Row) : Record := r.record (Layout.repos.pick Repo.columns)

/-- The record that a row of commits is answered as. -/
def Commit.recordOf (r : Row) : Record := r.record (Layout.commits.pick Commit.columns)

/-- The record that a row of reviews is answered as. -/
def Review.recordOf (r : Row) : Record := r.record (Layout.reviews.pick Review.columns)

/-- The record that a row of responses is answered as. -/
def Response.recordOf (r : Row) : Record := r.record (Layout.responses.pick Response.columns)

/-- A row that holds a repository is read as that repository. -/
theorem Repo.ofRecord_recordOf {r : Row} {x : Repo} (h : r.HoldsRepo x) (ht : x.createdAt.IsPlain) :
    ofRecord (recordOf r) = .ok x := by
  have hid : (recordOf r).int 0 = .ok x.id := Record.int_eq (congrArg Cell.int h.id)
  have hroot : (recordOf r).text 1 = .ok x.rootPath := Record.text_eq h.rootPath
  have hname : (recordOf r).text 2 = .ok x.name := Record.text_eq h.name
  have hcreated : (recordOf r).timestamp 3 = .ok x.createdAt := Record.timestamp_eq ht h.createdAt
  unfold ofRecord
  simp only [bind, Except.bind, hid, hroot, hname, hcreated]
  rfl

/-- A row that holds a commit is read as that commit, its times as they are read back, if their years have four digits. -/
theorem Commit.ofRecord_recordOf {r : Row} {x : Commit} (h : r.HoldsCommit x) (ht : x.timestamp.HasPlainYear)
    (hc : x.createdAt.HasPlainYear) :
    ofRecord (recordOf r) = .ok { x with timestamp := x.timestamp.readBack, createdAt := x.createdAt.readBack } := by
  have hid : (recordOf r).int 0 = .ok x.id := Record.int_eq (congrArg Cell.int h.id)
  have hrepo : (recordOf r).int 1 = .ok x.repoId := Record.int_eq h.repoId
  have hsha : (recordOf r).text 2 = .ok x.sha := Record.text_eq h.sha
  have hauthor : (recordOf r).text 3 = .ok x.author := Record.text_eq h.author
  have hsubject : (recordOf r).text 4 = .ok x.subject := Record.text_eq h.subject
  have htimestamp : (recordOf r).timestamp 5 = .ok x.timestamp.readBack := Record.timestamp_of_year ht h.timestamp
  have hcreated : (recordOf r).timestamp 6 = .ok x.createdAt.readBack := Record.timestamp_of_year hc h.createdAt
  unfold ofRecord
  simp only [bind, Except.bind, hid, hrepo, hsha, hauthor, hsubject, htimestamp, hcreated]
  rfl

/-- If one of its times has no such year, the row is not read, and the first such time is what is reported. -/
theorem Commit.ofRecord_recordOf_far {r : Row} {x : Commit} (h : r.HoldsCommit x)
    (hfar : ¬(x.timestamp.HasPlainYear ∧ x.createdAt.HasPlainYear)) :
    ofRecord (recordOf r) = .error (.unreadable (if x.timestamp.HasPlainYear then 6 else 5) .notTimestamp) := by
  have hid : (recordOf r).int 0 = .ok x.id := Record.int_eq (congrArg Cell.int h.id)
  have hrepo : (recordOf r).int 1 = .ok x.repoId := Record.int_eq h.repoId
  have hsha : (recordOf r).text 2 = .ok x.sha := Record.text_eq h.sha
  have hauthor : (recordOf r).text 3 = .ok x.author := Record.text_eq h.author
  have hsubject : (recordOf r).text 4 = .ok x.subject := Record.text_eq h.subject
  unfold ofRecord
  by_cases ht : x.timestamp.HasPlainYear
  · have htimestamp : (recordOf r).timestamp 5 = .ok x.timestamp.readBack := Record.timestamp_of_year ht h.timestamp
    have hcreated : (recordOf r).timestamp 6 = .error (.unreadable 6 .notTimestamp) :=
      Record.timestamp_far (fun hc => hfar ⟨ht, hc⟩) h.createdAt
    simp only [bind, Except.bind, hid, hrepo, hsha, hauthor, hsubject, htimestamp, hcreated, ht, if_true]
  · have htimestamp : (recordOf r).timestamp 5 = .error (.unreadable 5 .notTimestamp) := Record.timestamp_far ht h.timestamp
    simp only [bind, Except.bind, hid, hrepo, hsha, hauthor, hsubject, htimestamp, ht, if_false]

/-- A row that holds a review is read as that review, its time as it is read back, if the year has four digits. -/
theorem Review.ofRecord_recordOf_of_year {r : Row} {x : Review} (h : r.HoldsReview x) (ht : x.createdAt.HasPlainYear) :
    ofRecord (recordOf r) = .ok { x with createdAt := x.createdAt.readBack } := by
  have hid : (recordOf r).int 0 = .ok x.id := Record.int_eq (congrArg Cell.int h.id)
  have hjob : (recordOf r).int 1 = .ok x.jobId := Record.int_eq h.jobId
  have hagent : (recordOf r).text 2 = .ok x.agent := Record.text_eq h.agent
  have hprompt : (recordOf r).text 3 = .ok x.prompt := Record.text_eq h.prompt
  have houtput : (recordOf r).text 4 = .ok x.output := Record.text_eq h.output
  have hcreated : (recordOf r).timestamp 5 = .ok x.createdAt.readBack := Record.timestamp_of_year ht h.createdAt
  unfold ofRecord
  simp only [bind, Except.bind, hid, hjob, hagent, hprompt, houtput, hcreated]
  rfl

/-- A row that holds a review of a plain time is read as that review. -/
theorem Review.ofRecord_recordOf {r : Row} {x : Review} (h : r.HoldsReview x) (ht : x.createdAt.IsPlain) :
    ofRecord (recordOf r) = .ok x := by
  rw [ofRecord_recordOf_of_year h ht.1, Timestamp.readBack_of_leapsLast ht.2]

/-- If its time has no such year, the row is not read. -/
theorem Review.ofRecord_recordOf_far {r : Row} {x : Review} (h : r.HoldsReview x) (hfar : ¬x.createdAt.HasPlainYear) :
    ofRecord (recordOf r) = .error (.unreadable 5 .notTimestamp) := by
  have hid : (recordOf r).int 0 = .ok x.id := Record.int_eq (congrArg Cell.int h.id)
  have hjob : (recordOf r).int 1 = .ok x.jobId := Record.int_eq h.jobId
  have hagent : (recordOf r).text 2 = .ok x.agent := Record.text_eq h.agent
  have hprompt : (recordOf r).text 3 = .ok x.prompt := Record.text_eq h.prompt
  have houtput : (recordOf r).text 4 = .ok x.output := Record.text_eq h.output
  have hcreated : (recordOf r).timestamp 5 = .error (.unreadable 5 .notTimestamp) := Record.timestamp_far hfar h.createdAt
  unfold ofRecord
  simp only [bind, Except.bind, hid, hjob, hagent, hprompt, houtput, hcreated]

/-- A row that holds a response is read as that response. -/
theorem Response.ofRecord_recordOf {r : Row} {x : Response} (h : r.HoldsResponse x) (ht : x.createdAt.IsPlain) :
    ofRecord (recordOf r) = .ok x := by
  have hid : (recordOf r).int 0 = .ok x.id := Record.int_eq (congrArg Cell.int h.id)
  have hcommit : (recordOf r).int 1 = .ok x.commitId := Record.int_eq h.commitId
  have hresponder : (recordOf r).text 2 = .ok x.responder := Record.text_eq h.responder
  have hresponse : (recordOf r).text 3 = .ok x.response := Record.text_eq h.response
  have hcreated : (recordOf r).timestamp 4 = .ok x.createdAt := Record.timestamp_eq ht h.createdAt
  unfold ofRecord
  simp only [bind, Except.bind, hid, hcommit, hresponder, hresponse, hcreated]
  rfl

/-! ## New rows -/

namespace Connection

/-- The row that registers a path holds the repository of it. -/
theorem registration_holds (now : Timestamp) (path : Path) (id : Int) :
    ((registration now path).row .repos id).HoldsRepo ⟨id, path.display, path.displayName, now⟩ := by
  have hcell : ∀ c ∈ Layout.repos.columns, c.isKey = false →
      ((registration now path).row .repos id).cell c.name = Layout.cellFor (registration now path).cells c := fun c hc hk =>
    Insertion.cell_row (by decide) id hc hk
  simp only [Layout.repos, List.forall_mem_cons] at hcell
  obtain ⟨-, hroot, hname, hcreated, -⟩ := hcell
  refine ⟨rfl, (hroot rfl).trans ?_, (hname rfl).trans ?_, (hcreated rfl).trans ?_⟩ <;>
    simp [Layout.cellFor, Column.settle, Column.fallback, Column.isKey, registration, Column.answersTo, foldedName,
      Column.textUnique, Column.textRequired]

/-- The row that stores a commit holds it. -/
theorem storing_holds (now : Timestamp) (info : CommitInfo) (id : Int) : ((storing now info).row .commits id).HoldsCommit
    ⟨id, info.repoId, info.sha, info.author, info.subject, info.timestamp, now⟩ := by
  have hcell : ∀ c ∈ Layout.commits.columns, c.isKey = false →
      ((storing now info).row .commits id).cell c.name = Layout.cellFor (storing now info).cells c := fun c hc hk =>
    Insertion.cell_row (by decide) id hc hk
  simp only [Layout.commits, List.forall_mem_cons] at hcell
  obtain ⟨-, hrepo, hsha, hauthor, hsubject, htimestamp, hcreated, -⟩ := hcell
  refine ⟨rfl, (hrepo rfl).trans ?_, (hsha rfl).trans ?_, (hauthor rfl).trans ?_, (hsubject rfl).trans ?_,
    (htimestamp rfl).trans ?_, (hcreated rfl).trans ?_⟩ <;>
    simp [Layout.cellFor, Column.settle, Column.fallback, Column.isKey, storing, Column.answersTo, foldedName,
      Column.linkRequired, Column.textUnique, Column.textRequired]

/-- The row that is added for a response holds it. -/
theorem responding_holds (now : Timestamp) (r : Reply) (id : Int) :
    ((responding now r).row .responses id).HoldsResponse ⟨id, r.commitId, r.responder, r.response, now⟩ := by
  have hcell : ∀ c ∈ Layout.responses.columns, c.isKey = false →
      ((responding now r).row .responses id).cell c.name = Layout.cellFor (responding now r).cells c := fun c hc hk =>
    Insertion.cell_row (by decide) id hc hk
  simp only [Layout.responses, List.forall_mem_cons] at hcell
  obtain ⟨-, hcommit, hresponder, hresponse, hcreated, -⟩ := hcell
  refine ⟨rfl, (hcommit rfl).trans ?_, (hresponder rfl).trans ?_, (hresponse rfl).trans ?_, (hcreated rfl).trans ?_⟩ <;>
    simp [Layout.cellFor, Column.settle, Column.fallback, Column.isKey, responding, Column.answersTo, foldedName,
      Column.linkRequired, Column.textRequired]

/-- The row that is added when a job is completed holds its review. -/
theorem reviewing_holds (now : Timestamp) (job id : Int) (text : ReviewText) :
    ((reviewing now job text).row .reviews id).HoldsReview ⟨id, job, text.agent, text.prompt, text.output, now⟩ := by
  have hcell : ∀ c ∈ Layout.reviews.columns, c.isKey = false →
      ((reviewing now job text).row .reviews id).cell c.name = Layout.cellFor (reviewing now job text).cells c := fun c hc hk =>
    Insertion.cell_row (by decide) id hc hk
  simp only [Layout.reviews, List.forall_mem_cons] at hcell
  obtain ⟨-, hjob, hagent, hprompt, houtput, hcreated, -⟩ := hcell
  refine ⟨rfl, (hjob rfl).trans ?_, (hagent rfl).trans ?_, (hprompt rfl).trans ?_, (houtput rfl).trans ?_,
    (hcreated rfl).trans ?_⟩ <;>
    simp [Layout.cellFor, Column.settle, Column.fallback, Column.isKey, reviewing, Column.answersTo, foldedName,
      Column.linkRequired, Column.textRequired]

end Connection
end ReviewQueue
