import ReviewQueue.Entity.Json
import ReviewQueue.Proofs.Text.Segments
import ReviewQueue.Proofs.Time.Stored

/-!
# Entities and settings survive JSON

Whatever is written as JSON is read back, and whatever is read can be written: numbers of 64 bits, texts, timestamps of any year
and with leap seconds, and values that may be missing. The one thing that does not survive is a leap second within a minute, which
is shown as the next second. A record is put together from its fields, so it survives as they do.
-/

namespace ReviewQueue

/-! ## Timestamps -/

/-- A timestamp is read back from an entity as it was shown there, whatever its year is. -/
theorem Timestamp.ofEntity?_shown (t : Timestamp) : ofEntity? t.shown.toList = some t.readBack := by
  have hzone : ∀ r, ['Z'] ≠ '.' :: r := by intro r hr; cases hr
  have hutc : afterUtc? ['Z'] = none := rfl
  have hoffset : readOffset? false ['Z'] = some (0, []) := by decide
  have hskip : Blank.skip ['Z'] = ['Z'] := skip_of_not_blank (by decide) []
  have hend : Blank.skip [] = [] := rfl
  unfold ofEntity? shown written
  rw [String.toList_ofList, List.append_assoc, List.cons_append]
  simp only [bind, Option.bind, readDate?_dateDigits, true_or, if_true,
    readTime?_timeDigits t.time (Digits.ends_cons (by decide)) hzone, hskip, hutc, hoffset, hend]
  exact ofFields?_shown t

/-- However a timestamp is spelled in an entity, it names no leap second within a minute. -/
theorem Timestamp.leapsLast_of_ofEntity? {s : List Char} {t : Timestamp} (h : ofEntity? s = some t) : t.LeapsLast := by
  have hlast : ∀ {date time offset rest}, (if Blank.skip rest = [] then ofFields? date time offset else none) = some t →
      t.LeapsLast := by
    intro date time offset rest h
    split at h
    · exact leapsLast_of_ofFields? h
    · cases h
  simp only [ofEntity?, Option.bind_eq_bind] at h
  obtain ⟨_, -, h⟩ := Option.bind_eq_some_iff.mp h
  split at h
  · split at h
    · obtain ⟨_, -, h⟩ := Option.bind_eq_some_iff.mp h
      obtain ⟨_, -, h⟩ := Option.bind_eq_some_iff.mp h
      split at h
      · exact hlast h
      · obtain ⟨_, -, h⟩ := Option.bind_eq_some_iff.mp h
        exact hlast h
    · cases h
  · cases h

namespace Json

/-- Values survive: those that `fits` admits are written and read as what `back` makes of them, and whatever is read is written
and read back as it is. -/
structure Survives {α : Type} (fits : α → Prop) (back : α → α) (write : α → Option Json) (read : Json → Option α) : Prop where
  written : ∀ a, fits a → ∃ v, write a = some v ∧ read v = some (back a)
  reread : ∀ v a, read v = some a → ∃ w, write a = some w ∧ read w = some a

/-- Values survive if those that fit are read back and only those are read, and such as stay what they are. -/
theorem Survives.of {α : Type} {fits : α → Prop} {back : α → α} {write : α → Json} {read : Json → Option α}
    (hwrite : ∀ {a}, fits a → read (write a) = some (back a)) (hread : ∀ {v a}, read v = some a → fits a ∧ back a = a) :
    Survives fits back (fun a => some (write a)) read where
  written a ha := ⟨write a, rfl, hwrite ha⟩
  reread _ a h := by
    obtain ⟨hfits, hstays⟩ := hread h
    exact ⟨write a, rfl, by rw [hwrite hfits, hstays]⟩

/-! ## Fields -/

/-- An integer of 64 bits with a sign. -/
def IsInt64 (n : Int) : Prop := Int64.minValue.toInt ≤ n ∧ n ≤ Int64.maxValue.toInt

/-- An integer of 64 bits is read as itself. -/
theorem int64?_int {n : Int} (h : IsInt64 n) : (Json.int n).int64? = some n := if_pos h

/-- What is read as such has 64 bits. -/
theorem isInt64_of_int64? {v : Json} {n : Int} (h : v.int64? = some n) : IsInt64 n := by
  unfold int64? at h
  split at h
  next =>
    split at h
    next hn =>
      cases h
      exact hn
    next => cases h
  next => cases h

/-- A number of 64 bits without a sign is read as itself. -/
theorem nat64?_int {n : Nat} (h : n < 2 ^ 64) : (Json.int n).nat64? = some n := by
  have hsize : (0 : Int) ≤ n ∧ (n : Int) < UInt64.size := by
    rw [UInt64.size]
    omega
  simp only [nat64?, if_pos hsize, Int.toNat_natCast]

/-- What is read as such has 64 bits. -/
theorem lt_of_nat64? {v : Json} {n : Nat} (h : v.nat64? = some n) : n < 2 ^ 64 := by
  unfold nat64? at h
  split at h
  next =>
    split at h
    next hn =>
      rw [UInt64.size] at hn
      cases h
      omega
    next => cases h
  next => cases h

section

variable {α : Type} {read : Json → Option α} {write : α → Json} {fits : α → Prop}

/-- What is read of a field that has to be there fits, if whatever is read does. -/
theorem fits_of_required (hread : ∀ {v a}, read v = some a → fits a) {field : Option Json} {a : α}
    (h : required read field = some a) : fits a := by
  obtain ⟨v, -, hv⟩ := Option.bind_eq_some_iff.mp h
  exact hread hv

/-- What is read of a field that may be null or missing fits, if whatever is read does. -/
theorem fits_of_optional (hread : ∀ {v a}, read v = some a → fits a) {field : Option Json} {o : Option α}
    (h : optional read field = some o) : ∀ a ∈ o, fits a := by
  intro a ha
  cases Option.mem_def.mp ha
  cases field with
  | none => cases h
  | some v =>
    rw [optional] at h
    unfold nullable? at h
    split at h
    · cases h
    next =>
      obtain ⟨b, hb, hba⟩ := Option.map_eq_some_iff.mp h
      cases hba
      exact hread hb

/-- A field that may be null is read back as its value is, if that is not written as null. -/
theorem optional_ofOption {o : Option α} (back : α → α) (h : ∀ a ∈ o, read (write a) = some (back a) ∧ write a ≠ .null) :
    optional read (some (ofOption write o)) = some (o.map back) := by
  cases o with
  | none => rfl
  | some a =>
    obtain ⟨hread, hnull⟩ := h a rfl
    rw [ofOption, optional]
    unfold nullable?
    split
    next heq => exact absurd heq hnull
    next => rw [hread, Option.map_some, Option.map_some]

end

/-- The fields of a record are found by their names, if these differ. -/
theorem map_lookup_zip {names : List String} {values : List Json} (hnames : names.Nodup) (hlength : names.length = values.length) :
    names.map ((names.zip values).lookup ·) = values.map some := by
  induction names generalizing values with
  | nil =>
    cases values with
    | nil => rfl
    | cons v values => cases hlength
  | cons name names ih =>
    cases values with
    | nil => cases hlength
    | cons v values =>
      rw [List.nodup_cons] at hnames
      have htail : names.map (((name, v) :: names.zip values).lookup ·) = names.map ((names.zip values).lookup ·) := by
        refine List.map_congr_left fun x hx => ?_
        have hne : x ≠ name := by
          rintro rfl
          exact hnames.1 hx
        rw [List.lookup_cons, beq_false_of_ne hne]
      rw [List.zip_cons_cons, List.map_cons, List.map_cons, htail, ih hnames.2 (Nat.succ.inj hlength), List.lookup_cons_self]

/-- The fields of an object are found under their names. -/
theorem fields?_object {names : List String} (values : List Json) (hnames : names.Nodup) (hlength : names.length = values.length) :
    (Json.object (names.zip values)).fields? names = some (values.map some) :=
  congrArg some (map_lookup_zip hnames hlength)

/-- So they are where a field may be missing. -/
theorem fieldsOrDefault?_object {names : List String} (values : List Json) (hnames : names.Nodup)
    (hlength : names.length = values.length) :
    (Json.object (names.zip values)).fieldsOrDefault? names = some (values.map some) :=
  congrArg some (map_lookup_zip hnames hlength)

/-- A field that is there is read. -/
@[simp] theorem required_some {α : Type} (read : Json → Option α) (v : Json) : required read (some v) = read v := by
  rw [required, Option.bind_some]

@[simp] theorem orDefault_some {α : Type} (default : α) (read : Json → Option α) (v : Json) :
    orDefault default read (some v) = read v := by
  rw [orDefault]

@[simp] theorem text?_text (s : String) : (Json.text s).text? = some s := rfl

/-- A number that may be missing is read as it was. -/
theorem optional_int {o : Option Int} (h : ∀ n ∈ o, IsInt64 n) : optional int64? (some (ofOption .int o)) = some o :=
  (optional_ofOption id fun n hn => ⟨int64?_int (h n hn), nofun⟩).trans (by rw [Option.map_id]; rfl)

/-- A text that may be missing is read as it was. -/
@[simp] theorem optional_text (o : Option String) : optional text? (some (ofOption .text o)) = some o :=
  (optional_ofOption id fun s _ => ⟨text?_text s, nofun⟩).trans (by rw [Option.map_id]; rfl)

end Json

open Json (IsInt64 int64?_int isInt64_of_int64? nat64?_int lt_of_nat64? fits_of_required fits_of_optional fields?_object
  fieldsOrDefault?_object optional_ofOption optional_int)

namespace Timestamp

/-- A timestamp is read as it is read back. -/
@[simp] theorem ofJson?_toJson (t : Timestamp) : ofJson? t.toJson = some t.readBack := ofEntity?_shown t

/-- So is a timestamp that may be missing. -/
@[simp] theorem optional_ofJson? (o : Option Timestamp) :
    Json.optional ofJson? (some (Json.ofOption toJson o)) = some (o.map readBack) :=
  optional_ofOption _ fun t _ => ⟨ofJson?_toJson t, nofun⟩

/-- A timestamp that was read has no leap second within a minute. -/
theorem leapsLast_of_ofJson? {v : Json} {t : Timestamp} (h : ofJson? v = some t) : t.LeapsLast := by
  obtain ⟨s, -, hs⟩ := Option.bind_eq_some_iff.mp h
  exact leapsLast_of_ofEntity? hs

/-- A time that was read of a field stays what it is when it is read back. -/
theorem readBack_of_required {field : Option Json} {t : Timestamp} (h : Json.required ofJson? field = some t) : t.readBack = t :=
  readBack_of_leapsLast (fits_of_required leapsLast_of_ofJson? h)

/-- So does one that may be missing. -/
theorem map_readBack_of_optional {field : Option Json} {o : Option Timestamp} (h : Json.optional ofJson? field = some o) :
    o.map readBack = o := by
  cases o with
  | none => rfl
  | some t => exact congrArg some (readBack_of_leapsLast (fits_of_optional leapsLast_of_ofJson? h t rfl))

end Timestamp

/-- A status is read as it was. -/
@[simp] theorem JobStatus.ofJson?_toJson (s : JobStatus) : ofJson? s.toJson = some s := by
  cases s <;> rfl

/-! ## Records -/

namespace JobCounts

/-- Every count has 64 bits. -/
def Fits (c : JobCounts) : Prop := ∀ s : JobStatus, c.get s < 2 ^ 64

/-- Counts of 64 bits are read as they were. -/
theorem ofJson?_toJson {c : JobCounts} (h : c.Fits) : ofJson? c.toJson = some c := by
  have hfields : c.toJson.fields? ["queued", "running", "done", "failed"] = some _ :=
    fields?_object [_, _, _, _] (by decide) rfl
  have hqueued := nat64?_int (h .queued)
  have hrunning := nat64?_int (h .running)
  have hdone := nat64?_int (h .done)
  have hfailed := nat64?_int (h .failed)
  simp only [get] at hqueued hrunning hdone hfailed
  rw [ofJson?, Option.bind_eq_bind]
  refine Option.bind_eq_some_iff.mpr ⟨_, hfields, ?_⟩
  simp [hqueued, hrunning, hdone, hfailed]

/-- Counts that were read have 64 bits. -/
theorem fits_of_ofJson? {v : Json} {c : JobCounts} (h : ofJson? v = some c) : c.Fits := by
  obtain ⟨fields, -, h⟩ := Option.bind_eq_some_iff.mp h
  split at h
  next =>
    simp only [Option.bind_eq_bind, Option.bind_eq_some_iff] at h
    obtain ⟨queued, hqueued, running, hrunning, done, hdone, failed, hfailed, h⟩ := h
    cases h
    intro s
    cases s
    · exact fits_of_required lt_of_nat64? hqueued
    · exact fits_of_required lt_of_nat64? hrunning
    · exact fits_of_required lt_of_nat64? hdone
    · exact fits_of_required lt_of_nat64? hfailed
  next => cases h

end JobCounts

namespace Repo

/-- The number of the repository has 64 bits. -/
def Fits (r : Repo) : Prop := IsInt64 r.id

/-- The repository once it was written and read. -/
def readBack (r : Repo) : Repo := { r with createdAt := r.createdAt.readBack }

/-- A repository is read as it was, but for its time. -/
theorem ofJson?_toJson {r : Repo} (h : r.Fits) : ofJson? r.toJson = some r.readBack := by
  have hfields : r.toJson.fields? ["id", "root_path", "name", "created_at"] = some _ :=
    fields?_object [_, _, _, _] (by decide) rfl
  rw [ofJson?, hfields]
  simp [int64?_int h, readBack]

/-- A repository that was read is within its bounds, and is read back as it is. -/
theorem of_ofJson? {v : Json} {r : Repo} (h : ofJson? v = some r) : r.Fits ∧ r.readBack = r := by
  obtain ⟨fields, -, h⟩ := Option.bind_eq_some_iff.mp h
  split at h
  next =>
    simp only [Option.bind_eq_bind, Option.bind_eq_some_iff] at h
    obtain ⟨id, hid, _, -, _, -, _, hcreatedAt, h⟩ := h
    cases h
    exact ⟨fits_of_required isInt64_of_int64? hid, by rw [readBack, Timestamp.readBack_of_required hcreatedAt]⟩
  next => cases h

end Repo

namespace Commit

/-- The numbers of the commit and of its repository have 64 bits. -/
def Fits (c : Commit) : Prop := IsInt64 c.id ∧ IsInt64 c.repoId

/-- The commit once it was written and read. -/
def readBack (c : Commit) : Commit := { c with timestamp := c.timestamp.readBack, createdAt := c.createdAt.readBack }

/-- A commit is read as it was, but for its times. -/
theorem ofJson?_toJson {c : Commit} (h : c.Fits) : ofJson? c.toJson = some c.readBack := by
  have hfields : c.toJson.fields? ["id", "repo_id", "sha", "author", "subject", "timestamp", "created_at"] = some _ :=
    fields?_object [_, _, _, _, _, _, _] (by decide) rfl
  rw [ofJson?, Option.bind_eq_bind]
  refine Option.bind_eq_some_iff.mpr ⟨_, hfields, ?_⟩
  simp [int64?_int h.1, int64?_int h.2, readBack]

/-- A commit that was read is within its bounds, and is read back as it is. -/
theorem of_ofJson? {v : Json} {c : Commit} (h : ofJson? v = some c) : c.Fits ∧ c.readBack = c := by
  obtain ⟨fields, -, h⟩ := Option.bind_eq_some_iff.mp h
  split at h
  next =>
    simp only [Option.bind_eq_bind, Option.bind_eq_some_iff] at h
    obtain ⟨id, hid, repoId, hrepoId, _, -, _, -, _, -, _, htimestamp, _, hcreatedAt, h⟩ := h
    cases h
    refine ⟨⟨fits_of_required isInt64_of_int64? hid, fits_of_required isInt64_of_int64? hrepoId⟩, ?_⟩
    rw [readBack, Timestamp.readBack_of_required htimestamp, Timestamp.readBack_of_required hcreatedAt]
  next => cases h

end Commit

namespace Job

/-- The numbers of the job, of its repository and of its commit, if it has one, have 64 bits. -/
def Fits (j : Job) : Prop := IsInt64 j.id ∧ IsInt64 j.repoId ∧ ∀ n ∈ j.commitId, IsInt64 n

/-- The job once it was written and read. -/
def readBack (j : Job) : Job := { j with
  enqueuedAt := j.enqueuedAt.readBack
  startedAt := j.startedAt.map (·.readBack)
  finishedAt := j.finishedAt.map (·.readBack) }

/-- A job is read as it was, but for its times. -/
theorem ofJson?_toJson {j : Job} (h : j.Fits) : ofJson? j.toJson = some j.readBack := by
  obtain ⟨hid, hrepoId, hcommitId⟩ := h
  have hfields : j.toJson.fields? ["id", "repo_id", "commit_id", "git_ref", "agent", "status", "enqueued_at", "started_at",
      "finished_at", "worker_id", "error"] = some _ :=
    fields?_object [_, _, _, _, _, _, _, _, _, _, _] (by decide) rfl
  rw [ofJson?, Option.bind_eq_bind]
  refine Option.bind_eq_some_iff.mpr ⟨_, hfields, ?_⟩
  simp [int64?_int hid, int64?_int hrepoId, optional_int hcommitId, readBack]

/-- A job that was read is within its bounds, and is read back as it is. -/
theorem of_ofJson? {v : Json} {j : Job} (h : ofJson? v = some j) : j.Fits ∧ j.readBack = j := by
  obtain ⟨fields, -, h⟩ := Option.bind_eq_some_iff.mp h
  split at h
  next =>
    simp only [Option.bind_eq_bind, Option.bind_eq_some_iff] at h
    obtain ⟨id, hid, repoId, hrepoId, commitId, hcommitId, _, -, _, -, _, -, _, henqueuedAt, _, hstartedAt, _, hfinishedAt,
      _, -, _, -, h⟩ := h
    cases h
    refine ⟨⟨fits_of_required isInt64_of_int64? hid, fits_of_required isInt64_of_int64? hrepoId,
      fits_of_optional isInt64_of_int64? hcommitId⟩, ?_⟩
    rw [readBack, Timestamp.readBack_of_required henqueuedAt, Timestamp.map_readBack_of_optional hstartedAt,
      Timestamp.map_readBack_of_optional hfinishedAt]
  next => cases h

end Job

namespace Review

/-- The numbers of the review and of its job have 64 bits. -/
def Fits (r : Review) : Prop := IsInt64 r.id ∧ IsInt64 r.jobId

/-- The review once it was written and read. -/
def readBack (r : Review) : Review := { r with createdAt := r.createdAt.readBack }

/-- A review is read as it was, but for its time. -/
theorem ofJson?_toJson {r : Review} (h : r.Fits) : ofJson? r.toJson = some r.readBack := by
  have hfields : r.toJson.fields? ["id", "job_id", "agent", "prompt", "output", "created_at"] = some _ :=
    fields?_object [_, _, _, _, _, _] (by decide) rfl
  rw [ofJson?, Option.bind_eq_bind]
  refine Option.bind_eq_some_iff.mpr ⟨_, hfields, ?_⟩
  simp [int64?_int h.1, int64?_int h.2, readBack]

/-- A review that was read is within its bounds, and is read back as it is. -/
theorem of_ofJson? {v : Json} {r : Review} (h : ofJson? v = some r) : r.Fits ∧ r.readBack = r := by
  obtain ⟨fields, -, h⟩ := Option.bind_eq_some_iff.mp h
  split at h
  next =>
    simp only [Option.bind_eq_bind, Option.bind_eq_some_iff] at h
    obtain ⟨id, hid, jobId, hjobId, _, -, _, -, _, -, _, hcreatedAt, h⟩ := h
    cases h
    exact ⟨⟨fits_of_required isInt64_of_int64? hid, fits_of_required isInt64_of_int64? hjobId⟩,
      by rw [readBack, Timestamp.readBack_of_required hcreatedAt]⟩
  next => cases h

end Review

namespace Response

/-- The numbers of the response and of its commit have 64 bits. -/
def Fits (r : Response) : Prop := IsInt64 r.id ∧ IsInt64 r.commitId

/-- The response once it was written and read. -/
def readBack (r : Response) : Response := { r with createdAt := r.createdAt.readBack }

/-- A response is read as it was, but for its time. -/
theorem ofJson?_toJson {r : Response} (h : r.Fits) : ofJson? r.toJson = some r.readBack := by
  have hfields : r.toJson.fields? ["id", "commit_id", "responder", "response", "created_at"] = some _ :=
    fields?_object [_, _, _, _, _] (by decide) rfl
  rw [ofJson?, Option.bind_eq_bind]
  refine Option.bind_eq_some_iff.mpr ⟨_, hfields, ?_⟩
  simp [int64?_int h.1, int64?_int h.2, readBack]

/-- A response that was read is within its bounds, and is read back as it is. -/
theorem of_ofJson? {v : Json} {r : Response} (h : ofJson? v = some r) : r.Fits ∧ r.readBack = r := by
  obtain ⟨fields, -, h⟩ := Option.bind_eq_some_iff.mp h
  split at h
  next =>
    simp only [Option.bind_eq_bind, Option.bind_eq_some_iff] at h
    obtain ⟨id, hid, commitId, hcommitId, _, -, _, -, _, hcreatedAt, h⟩ := h
    cases h
    exact ⟨⟨fits_of_required isInt64_of_int64? hid, fits_of_required isInt64_of_int64? hcommitId⟩,
      by rw [readBack, Timestamp.readBack_of_required hcreatedAt]⟩
  next => cases h

end Response

/-! ## Settings -/

namespace Settings

/-- The path is a text, if there is one, and the timeout has 64 bits. -/
def Fits (s : Settings) : Prop := (∀ path ∈ s.dbPath, path.toText?.isSome) ∧ s.busyTimeoutMs < 2 ^ 64

/-- The path, if there is one, stands for a text, and that text is what is written. -/
theorem Fits.dbPath_eq {s : Settings} (h : s.Fits) : ∃ text : Option String,
    s.dbPath = text.map Path.ofString ∧ s.toJson? = some (.object [("db_path", .ofOption .text text),
      ("busy_timeout_ms", .int s.busyTimeoutMs)]) := by
  unfold toJson?
  cases hpath : s.dbPath with
  | none => exact ⟨none, rfl, rfl⟩
  | some path =>
    obtain ⟨text, htext⟩ := Option.isSome_iff_exists.mp (h.1 path hpath)
    refine ⟨some text, congrArg some (Path.ofString_of_toText? htext).symm, ?_⟩
    simp only [htext]
    rfl

/-- Settings within their bounds are written, and read as they were. -/
theorem exists_toJson?_ofJson? {s : Settings} (h : s.Fits) : ∃ v, s.toJson? = some v ∧ ofJson? v = some s := by
  obtain ⟨text, hpath, hwrite⟩ := h.dbPath_eq
  refine ⟨_, hwrite, ?_⟩
  have hfields : (Json.object [("db_path", .ofOption .text text), ("busy_timeout_ms", .int s.busyTimeoutMs)]).fieldsOrDefault?
      ["db_path", "busy_timeout_ms"] = some _ :=
    fieldsOrDefault?_object [_, _] (by decide) rfl
  rw [ofJson?, Option.bind_eq_bind]
  refine Option.bind_eq_some_iff.mpr ⟨_, hfields, ?_⟩
  simp [nat64?_int h.2, ← hpath]

/-- Settings that were read are within their bounds. -/
theorem fits_of_ofJson? {v : Json} {s : Settings} (h : ofJson? v = some s) : s.Fits := by
  obtain ⟨fields, -, h⟩ := Option.bind_eq_some_iff.mp h
  split at h
  next _ wait =>
    simp only [Option.bind_eq_bind, Option.bind_eq_some_iff] at h
    obtain ⟨text, -, n, hn, h⟩ := h
    cases h
    refine ⟨fun path hpath => ?_, ?_⟩
    · obtain ⟨s, -, rfl⟩ := Option.map_eq_some_iff.mp hpath
      rw [Path.toText?_ofString, Option.isSome_some]
    · cases wait with
      | none =>
        cases hn
        exact (by decide : 5000 < 2 ^ 64)
      | some v => exact lt_of_nat64? hn
  next => cases h

end Settings

/-! ## All of them -/

open Json (Survives)

end ReviewQueue
