import ReviewQueue.Proofs.Queue.Racing
import ReviewQueue.Proofs.Queue.Stored
import ReviewQueue.Proofs.Store.Contention

/-!
# Commits that are stored

A commit is stored in two statements that no transaction holds together: its row is added, and then read. The row is added
whatever the time of the commit, but it is read only if the year has four digits. So such a time is kept to the nanosecond, leap
seconds that end a minute too, and any other leaves a row under the hash that no call can read and none removes.
-/

namespace ReviewQueue

/-- The commit that is stored for what is known of it, under a number and at a time. -/
def CommitInfo.stored (info : CommitInfo) (id : Int) (now : Timestamp) : Commit where
  id := id
  repoId := info.repoId
  sha := info.sha
  author := info.author
  subject := info.subject
  timestamp := info.timestamp
  createdAt := now

/-- The commit that is read from what is stored: a leap second that does not end a minute has become the next second. -/
def CommitInfo.readBack (info : CommitInfo) (id : Int) (now : Timestamp) : Commit :=
  { info.stored id now with timestamp := info.timestamp.readBack, createdAt := now.readBack }

/-- Whether the row that is added for a commit can be read: the years of both its times have four digits. -/
def CommitInfo.IsReadable (info : CommitInfo) (now : Timestamp) : Prop := info.timestamp.HasPlainYear ∧ now.HasPlainYear

/-- What is reported of a row that was added for a commit and cannot be read: the first of its times that has no such
year. -/
def CommitInfo.unreadable (info : CommitInfo) : Fault := .unreadable (if info.timestamp.HasPlainYear then 6 else 5) .notTimestamp

/-- A call that stores a commit can add its row: the lock is free, the repository is there, and no row has the hash. -/
structure Connection.Admits (c : Connection) (info : CommitInfo) : Prop where
  free : c.locked = false
  known : ∃ r ∈ c.database.rows "repos", r.id = info.repoId
  missing : ∀ r ∈ c.database.rows "commits", r.cell "sha" ≠ .ofString info.sha

/-- A row that has a key stays as it is, whatever is run. -/
theorem Key.rows_after {k : Key} {w : Site} (hw : w.database.IsCurrent) (h : ¬k.Lacks w.database) (as : List Action) :
    k.rows (w.after as).database = k.rows w.database := by
  induction as generalizing w with
  | nil => rfl
  | cons a as ih =>
    have hsame : k.rows (w.step a).1.database = k.rows w.database := by
      rw [Site.step_database]
      exact (rows_run_cases (c := w.connection a) hw a.now (w.call a)).resolve_right fun hcall => h hcall.2
    have hthere : ¬k.Lacks (w.step a).1.database := by
      unfold Lacks
      rw [hsame]
      exact h
    exact (ih (Site.step_isCurrent hw a) hthere).trans hsame

namespace Connection

variable {c d : Connection} {now : Timestamp} {info : CommitInfo} {sha : String} {r : Row}

/-- The commit of a hash is read from the row that has the hash. -/
theorem commitOf_eq (hdb : c.database.IsCurrent) (sha : String) :
    c.commitOf sha = match ((Key.hash sha).rows c.database).head? with
      | none => .ok none
      | some r => (Commit.ofRecord (Commit.recordOf r)).map some := (Key.hash sha).first_eq hdb Commit.ofRecord

theorem commitOf_of_rows (hdb : c.database.IsCurrent) (hr : (Key.hash sha).rows c.database = [r]) :
    c.commitOf sha = (Commit.ofRecord (Commit.recordOf r)).map some := by
  rw [commitOf_eq hdb, hr]
  rfl

theorem commitOf_of_lacks (hdb : c.database.IsCurrent) (h : (Key.hash sha).Lacks c.database) : c.commitOf sha = .ok none := by
  rw [commitOf_eq hdb, h]
  rfl

/-- The row that is added for a commit is read as the commit, if it can be read. -/
theorem ofRecord_storing (now : Timestamp) (info : CommitInfo) (id : Int) :
    (info.IsReadable now →
      Commit.ofRecord (Commit.recordOf ((storing now info).row .commits id)) = .ok (info.readBack id now)) ∧
    (¬info.IsReadable now →
      Commit.ofRecord (Commit.recordOf ((storing now info).row .commits id)) = .error info.unreadable) :=
  ⟨fun h => Commit.ofRecord_recordOf (storing_holds now info id) h.1 h.2, Commit.ofRecord_recordOf_far (storing_holds now info id)⟩

/-- Once the row of a hash is there, each later lookup reads it as it is: by its hash, and by its number if it can be read. -/
theorem found_after {w : Site} (hw : w.database.IsCurrent) (hr : (Key.hash sha).rows w.database = [r]) (as : List Action)
    (hd : d.database = (w.after as).database) :
    d.commitOf sha = (Commit.ofRecord (Commit.recordOf r)).map some ∧
    ∀ x, Commit.ofRecord (Commit.recordOf r) = .ok x → d.findCommit r.id = .ok (some x) := by
  have hthere : ¬(Key.hash sha).Lacks w.database := by
    unfold Key.Lacks
    rw [hr]
    simp
  have hdb : d.database.IsCurrent := by
    rw [hd]
    exact Site.after_isCurrent hw as
  have hrows : (Key.hash sha).rows d.database = [r] := by rw [hd, Key.rows_after hw hthere, hr]
  have hmem : r ∈ (Key.hash sha).rows d.database := by
    rw [hrows]
    exact List.mem_singleton_self r
  exact ⟨commitOf_of_rows hdb hrows, fun x hx =>
    congrArg liftFault (first_of_id (l := .commits) hdb (by decide) (by decide) (List.mem_of_mem_filter hmem) hx)⟩

theorem Admits.lacks (h : c.Admits info) : (Key.hash info.sha).Lacks c.database := Key.lacks_iff.mpr h.missing

/-- A call that can add its row adds it, and answers what is read from it. -/
theorem Admits.storeCommit_eq (h : c.Admits info) (hdb : c.database.IsCurrent) (now : Timestamp) :
    ∃ id db, let r := (storing now info).row .commits id
      (Key.hash info.sha).rows db = [r] ∧ db.IsCurrent ∧
      (∀ name x, x ∈ db.rows name ↔ x ∈ c.database.rows name ∨ name = "commits" ∧ x = r) ∧
      c.storeCommit now info = ⟨liftFault (Commit.ofRecord (Commit.recordOf r)), c.on db, []⟩ := by
  obtain ⟨a, t, new, db, hins, -, hl, hadds⟩ :=
    Entry.insert_of_lacks (e := .commit info) hdb h.free now h.known h.lacks
  have hcurrent : db.IsCurrent := hdb.of_adds hadds
  have hrows : (Key.hash info.sha).rows db = [(storing now info).row .commits t.nextId] := by
    have hrows := Key.rows_of_adds hadds (by rw [hl]; exact Entry.isStrict_key _) ((Entry.commit info).insertion_table now) h.lacks
      (by rw [hl]; exact (Entry.commit info).names_row now _)
    rwa [hl] at hrows
  refine ⟨t.nextId, db, hrows, hcurrent, fun name x => ?_, ?_⟩
  · by_cases hname : name = "commits"
    · rw [hname]
      refine (hadds.mem_rows_table (by rw [hl]; exact Entry.isStrict_key _) (x := x)).trans ?_
      rw [hl]
      simp only [true_and]
      exact or_comm
    · rw [Database.rows_congr (hadds.table?_of_ne hname)]
      simp only [hname, false_and, or_false]
  · have hins : c.insert (storing now info) = .ok (some a, db) := hins
    unfold storeCommit storedCommit
    simp only [commitOf_of_lacks hdb h.lacks, hins]
    rw [commitOf_of_rows (c := c.on db) hcurrent hrows]
    cases Commit.ofRecord (Commit.recordOf ((storing now info).row .commits t.nextId)) <;> rfl

/-- Such a call succeeds exactly if the row can be read, and is answered the commit. -/
theorem Admits.answer (h : c.Admits info) (hdb : c.database.IsCurrent) (now : Timestamp) :
    (info.IsReadable now → ∃ x, (c.storeCommit now info).answer = .ok x) ∧
    (¬info.IsReadable now → (c.storeCommit now info).answer = .error (.fault info.unreadable)) := by
  obtain ⟨id, db, -, -, -, ho⟩ := h.storeCommit_eq hdb now
  obtain ⟨hread, hfar⟩ := ofRecord_storing now info id
  rw [ho]
  exact ⟨fun h => ⟨_, congrArg liftFault (hread h)⟩, fun h => congrArg liftFault (hfar h)⟩

/-- An insertion that was not refused found the lock free. -/
theorem free_of_storing (hdb : c.database.IsCurrent) {v : Option Record × Database} (h : c.insert (storing now info) = .ok v) :
    c.locked = false := by
  cases hlock : c.locked with
  | false => rfl
  | true =>
    have hrefused := insert_of_locked hlock ((Entry.commit info).faults_insertion hdb c.guard now)
    cases hrefused.symm.trans h

/-- The row of a commit that is kept refers to a repository that is there. -/
theorem known_of_storing {db : Database} {r : Row} (hrefs : db.lost Layout.commits.references r = 0)
    (hr : r.HoldsCommit (info.stored r.id now)) : ∃ x ∈ db.rows "repos", x.id = info.repoId := by
  have hrepo := Database.lost_eq_zero_iff.mp hrefs (.linkRequired "repo_id" "repos", "repos") (by decide)
  have hcell : r.get (.linkRequired "repo_id" "repos") = .int info.repoId := hr.repoId
  rw [hcell] at hrepo
  rcases Database.refers_iff.mp hrepo with hnull | ⟨x, hx, hid⟩
  · cases hnull
  · exact ⟨x, hx, (Cell.int.inj hid).symm⟩

/-- A row that was added for a commit is one that the connection could add. -/
theorem admits_of_adds {t new : Table} {id : Int} {db : Database} (hdb : c.database.IsCurrent) (hfree : c.locked = false)
    (hadds : (storing now info).Adds c.guard c.database t new id db)
    (hmissed : (storing now info).missed c.database t new id ≤ (storing now info).mended c.database t id) : c.Admits info := by
  obtain ⟨u, hu, hl⟩ := hdb.commits
  cases hu.symm.trans hadds.table
  have hstrict : t.layout.isStrict = true := by rw [hl]; decide
  have hnarrow : (storing now info).isWide t.layout = false := by rw [hl]; rfl
  have hnone : (storing now info).mended c.database t id = 0 := if_neg (by rw [hnarrow]; exact Bool.false_ne_true)
  rw [Insertion.missed_eq hstrict hadds, hnone, hl] at hmissed
  refine ⟨hfree, ?_, ?_⟩
  · obtain ⟨r, hr, hid⟩ := known_of_storing (Nat.le_zero.mp hmissed) (storing_holds now info id)
    have hsame : db.table? "repos" = c.database.table? "repos" := hadds.table?_of_ne (show "repos" ≠ "commits" by decide)
    exact ⟨r, by rw [← Database.rows_congr hsame]; exact hr, hid⟩
  · obtain rfl : t.nextId = id := Except.ok.inj (((Entry.commit info).number_insertion now hl).symm.trans hadds.number)
    have hmissing := ((Entry.commit info).rival?_insertion now hl).mp hadds.differs
    rw [← Database.rows_of_table? hu] at hmissing
    exact hmissing

/-- A call that changes anything is one that can add its row. -/
theorem admits_of_changes (hdb : c.database.IsCurrent) (henforcing : c.enforcing = true)
    (h : (c.storeCommit now info).connection ≠ c) : c.Admits info := by
  unfold storeCommit at h
  split at h
  · exact absurd rfl h
  · exact absurd rfl h
  next hnone =>
    split at h
    · exact absurd rfl h
    next a db hins =>
      rcases insert_cases hdb (l := .commits) (by decide) rfl hins with ⟨-, rfl, -⟩ | ⟨t, new, id, hadds, -, hlost⟩
      · exact absurd rfl h
      · exact admits_of_adds hdb (free_of_storing hdb hins) hadds (hlost henforcing)

end Connection

/-- What becomes of the time of a commit that is stored for the first time, on a connection that has the lock for itself, when the
clock shows a year of four digits. In three parts:
1. The call succeeds exactly if the year of that time is one from 0 to 9999.
2. The commit that is answered then has the time that is read back, which is that time, to the nanosecond and with its leap
   second, exactly if this one, should it be one, ends a minute.
3. It is this commit that is found by its hash and by its number after any run of any handles. -/
theorem commit_timestamp_kept (c : Connection) (now : Timestamp) (info : CommitInfo) (hdb : c.database.IsCurrent)
    (hadmits : c.Admits info) (hnow : now.HasPlainYear) :
    let o := c.storeCommit now info
    ((∃ x, o.answer = .ok x) ↔ 0 ≤ info.timestamp.date.year ∧ info.timestamp.date.year ≤ 9999) ∧
    ∀ x, o.answer = .ok x →
      (x.timestamp = info.timestamp.readBack ∧ (x.timestamp = info.timestamp ↔ info.timestamp.LeapsLast)) ∧
      ∀ (calls : Nat → Option Call) (as : List Action) (d : Connection),
        d.database = (Site.after ⟨o.connection.database, calls⟩ as).database →
        d.findCommitBySha info.sha = .ok (some x) ∧ d.findCommit x.id = .ok (some x) := by
  intro o
  obtain ⟨hsucceeds, hfails⟩ := hadmits.answer hdb now
  obtain ⟨id, db, hrows, hcurrent, -, ho⟩ := hadmits.storeCommit_eq hdb now
  constructor
  · constructor
    · rintro ⟨x, hx⟩
      by_contra hfar
      cases (hfails fun h => hfar h.1).symm.trans hx
    · exact fun hplain => hsucceeds ⟨hplain, hnow⟩
  · intro x hx
    have hread : Commit.ofRecord (Commit.recordOf ((Connection.storing now info).row .commits id)) = .ok x := by
      rw [show o.answer = _ from congrArg Outcome.answer ho] at hx
      exact eq_ok_of_liftFault hx
    have hreadable : info.IsReadable now := by
      by_contra hfar
      cases (hfails hfar).symm.trans hx
    have hstored := (Connection.ofRecord_storing now info id).1 hreadable
    obtain rfl : x = info.readBack id now := Except.ok.inj (hread.symm.trans hstored)
    refine ⟨⟨rfl, Timestamp.readBack_eq_iff⟩, fun calls as d hd => ?_⟩
    rw [show o.connection.database = db from congrArg (fun o => o.connection.database) ho] at hd
    obtain ⟨hbySha, hbyId⟩ := Connection.found_after (w := ⟨db, calls⟩) hcurrent hrows as hd
    rw [hread] at hbySha
    exact ⟨congrArg liftFault hbySha, hbyId _ hread⟩

/-- The last second that a commit can be of, a leap second to the nanosecond. -/
def Timestamp.lastPlain : Timestamp := ⟨⟨9999, 12, 31, by decide⟩, ⟨23, 59, 59, 1999999999, by decide⟩⟩

/-- A commit of the last second is found as such in every later state. -/
theorem commit_timestamp_kept_lastPlain :
    let o := (Connection.mk .oneRepo true false).storeCommit .epoch ⟨1, "abc123", "ada", "s", .lastPlain⟩
    ∃ x, o.answer = .ok x ∧ x.timestamp = .lastPlain ∧
      ∀ as, (Connection.mk ((Site.quiet o.connection.database).after as).database true true).findCommitBySha "abc123" =
        .ok (some x) := by
  intro o
  have hadmits : (Connection.mk .oneRepo true false).Admits ⟨1, "abc123", "ada", "s", .lastPlain⟩ :=
    ⟨rfl, by decide +kernel, by decide +kernel⟩
  obtain ⟨hiff, hkept⟩ := commit_timestamp_kept (Connection.mk .oneRepo true false) .epoch ⟨1, "abc123", "ada", "s", .lastPlain⟩
    (by decide +kernel) hadmits (by decide)
  obtain ⟨x, hx⟩ := hiff.mpr (by decide)
  obtain ⟨⟨-, htime⟩, hlater⟩ := hkept x hx
  exact ⟨x, hx, htime.mpr (by decide), fun as => (hlater (fun _ => none) as _ rfl).1⟩

/-- A commit of that second is answered with the next one, and while another connection holds the lock no commit is stored. -/
theorem commit_timestamp_kept_midMinute :
    ((Connection.mk .oneRepo true false).storeCommit .epoch ⟨1, "abc123", "ada", "s", .midMinute⟩).answer.map (·.timestamp) =
      .ok ⟨⟨2024, 1, 2, by decide⟩, ⟨3, 4, 31, 500000000, by decide⟩⟩ ∧
    ((Connection.mk .oneRepo true true).storeCommit .epoch ⟨1, "abc123", "ada", "s", .epoch⟩).answer =
      .error (.busy .locked) := by
  decide +kernel

/-- What a call leaves that was to store a commit and fails, on any connection that enforces references. In three parts:
1. It leaves the connection as it was, unless it could add its row and the year of the commit, or that of the clock, has not
   four digits.
2. In that case it was answered that the row cannot be read, and there is one row more, which holds the commit. In every later
   state the hash can neither be looked up nor stored under any particulars: the answer is the same error, and nothing
   changes.
3. If it left the connection as it was, then in every later state in which a call for the hash can add its row, it succeeds if
   the years have four digits. -/
theorem failed_commit_leaves (c : Connection) (now : Timestamp) (info : CommitInfo) (e : StoreError)
    (hdb : c.database.IsCurrent) (henforcing : c.enforcing = true) (h : (c.storeCommit now info).answer = .error e) :
    let o := c.storeCommit now info
    (¬(c.Admits info ∧ ¬info.IsReadable now) → o.connection = c) ∧
    (c.Admits info ∧ ¬info.IsReadable now → e = .fault info.unreadable ∧
      (∃ r : Row, r.HoldsCommit (info.stored r.id now) ∧ r ∉ c.database.rows "commits" ∧
        ∀ name x, x ∈ o.connection.database.rows name ↔ x ∈ c.database.rows name ∨ name = "commits" ∧ x = r) ∧
      ∀ (calls : Nat → Option Call) (as : List Action) (d : Connection),
        d.database = (Site.after ⟨o.connection.database, calls⟩ as).database →
        d.findCommitBySha info.sha = .error e ∧
        ∀ now' info', info'.sha = info.sha → d.storeCommit now' info' = ⟨.error e, d, []⟩) ∧
    (o.connection = c → ∀ (calls : Nat → Option Call) (as : List Action) (d : Connection),
      d.database = (Site.after ⟨c.database, calls⟩ as).database → ∀ now' info', info'.sha = info.sha → d.Admits info' →
        info'.IsReadable now' → ∃ x, (d.storeCommit now' info').answer = .ok x) := by
  intro o
  refine ⟨fun hother => ?_, ?_, fun _ calls as d hd now' info' _ hadmits hreadable => ?_⟩
  · by_contra hchanged
    have hadmits := Connection.admits_of_changes hdb henforcing hchanged
    refine hother ⟨hadmits, fun hreadable => ?_⟩
    obtain ⟨x, hx⟩ := (hadmits.answer hdb now).1 hreadable
    cases hx.symm.trans h
  · rintro ⟨hadmits, hfar⟩
    obtain rfl : e = .fault info.unreadable := Except.error.inj (h.symm.trans ((hadmits.answer hdb now).2 hfar))
    obtain ⟨id, db, hrows, hcurrent, hmem, ho⟩ := hadmits.storeCommit_eq hdb now
    have hholds := Connection.storing_holds now info id
    rw [show o.connection.database = db from congrArg (fun o => o.connection.database) ho]
    refine ⟨rfl, ⟨_, hholds, fun hthere => hadmits.missing _ hthere hholds.sha, hmem⟩, fun calls as d hd => ?_⟩
    obtain ⟨hlook, -⟩ := Connection.found_after (w := ⟨db, calls⟩) hcurrent hrows as hd
    rw [(Connection.ofRecord_storing now info id).2 hfar] at hlook
    refine ⟨congrArg liftFault hlook, fun now' info' hsha => ?_⟩
    unfold Connection.storeCommit
    rw [hsha, hlook]
    rfl
  · have hcurrent : d.database.IsCurrent := by
      rw [hd]
      exact Site.after_isCurrent (w := ⟨c.database, calls⟩) hdb as
    exact (hadmits.answer hcurrent now').1 hreadable

/-- The first second of a year that has five digits. -/
def Timestamp.firstFar : Timestamp := ⟨⟨10000, 1, 1, by decide⟩, epoch.time⟩

/-- A commit of that second is refused, and so is every later one under its hash. -/
theorem failed_commit_leaves_firstFar :
    let o := (Connection.mk .oneRepo true false).storeCommit .epoch ⟨1, "abc123", "ada", "s", .firstFar⟩
    o.answer = .error (.fault (.unreadable 5 .notTimestamp)) ∧
    ∀ as now info, info.sha = "abc123" →
      ((Connection.mk ((Site.quiet o.connection.database).after as).database true false).storeCommit now info).answer =
        .error (.fault (.unreadable 5 .notTimestamp)) := by
  intro o
  have hadmits : (Connection.mk .oneRepo true false).Admits ⟨1, "abc123", "ada", "s", .firstFar⟩ :=
    ⟨rfl, by decide +kernel, by decide +kernel⟩
  have hanswer : o.answer = .error (.fault (.unreadable 5 .notTimestamp)) := by decide +kernel
  obtain ⟨-, hstuck, -⟩ := failed_commit_leaves (Connection.mk .oneRepo true false) .epoch ⟨1, "abc123", "ada", "s", .firstFar⟩ _
    (by decide +kernel) rfl hanswer
  obtain ⟨-, -, hlater⟩ := hstuck ⟨hadmits, fun hreadable => absurd hreadable.1 (by decide)⟩
  exact ⟨hanswer, fun as now info hsha =>
    congrArg Outcome.answer ((hlater (fun _ => none) as ⟨_, true, false⟩ rfl).2 now info hsha)⟩

/-- The call fails, yet there is a row under the hash that was not there, and the same call with a time of 1970 fails too. -/
theorem failed_commit_leaves_row :
    let c : Connection := ⟨(Site.fresh.after (List.replicate 3 ⟨0, .registerRepo (.ofString "/work"), .epoch, false⟩)).database,
      true, false⟩
    let o := c.storeCommit .epoch ⟨1, "abc123", "ada", "s", .firstFar⟩
    o.answer = .error (.fault (.unreadable 5 .notTimestamp)) ∧ c.database.rows "commits" = [] ∧
    (o.connection.database.rows "commits").map (·.cell "sha") = [.ofString "abc123"] ∧
    (o.connection.storeCommit .epoch ⟨1, "abc123", "ada", "s", .epoch⟩).answer =
      .error (.fault (.unreadable 5 .notTimestamp)) := by
  decide +kernel

end ReviewQueue
