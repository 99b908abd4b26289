import ReviewQueue.Files.Host
import ReviewQueue.Proofs.Files.Trees
import ReviewQueue.Proofs.Queue.Locked

/-!
# Hosts on which another connection writes

A handle that was opened at a file lets readers and a writer of the file get along. While a connection that is none of the
handles holds the lock on the file, operations that have to write are refused, and the host is as if they had never been asked
for: it is the same at every place and under every name, though what it lists may be in another order.
-/

namespace ReviewQueue

namespace Disk

/-- A database that is stored in its file is there, and what lies elsewhere stays. -/
theorem node?_store {d : Disk} {place : Place} {db : Database} {wal : Bool}
    (h : d.files.node? place = some (.database db wal)) (new : Database) (p : Place) :
    (d.store place new).files.node? p = if p = place then some (.database new wal) else d.files.node? p := by
  unfold store
  rw [h]
  exact FileSystem.node?_put ..

/-- A database is read at its place. -/
theorem load_of_node? {d : Disk} {place : Place} {db : Database} {wal : Bool}
    (h : d.files.node? place = some (.database db wal)) : d.load place = .ok (db, wal) := by
  unfold load
  rw [h]

/-- Readers and a writer get along only where there is a database. -/
theorem node?_of_load {d : Disk} {place : Place} {db : Database} (h : d.load place = .ok (db, true)) :
    d.files.node? place = some (.database db true) := by
  unfold load at h
  split at h
  next hnode =>
    cases h
    exact hnode
  next => split at h <;> cases h
  next => cases h

/-! ## Opening -/

/-- A file is ready only if it has a database, readers and the writer of which get along. -/
theorem node?_of_shareReading {d d' : Disk} {place : Place} (h : d.shareReading place = .ok d') :
    ∃ db, d'.files.node? place = some (.database db true) := by
  unfold shareReading at h
  cases hload : d.load place with
  | error f =>
    rw [hload] at h
    cases h
  | ok found =>
    obtain ⟨db, wal⟩ := found
    simp only [hload, bind, Except.bind] at h
    cases wal with
    | true =>
      simp only [if_true] at h
      cases h
      exact ⟨db, node?_of_load hload⟩
    | false =>
      simp only [Bool.false_eq_true, if_false] at h
      split at h
      · cases h
      · split at h
        · cases h
        · cases h
          exact ⟨db, by rw [FileSystem.node?_put, if_pos rfl]⟩

variable {d d' : Disk} {path : Path} {place : Place} {l : Location} {busyTimeoutMs : Nat} {handle handle' : Handle}
  {log log' : List LogLine}

/-- The handle that opening ends with is the one that was meant, at the path. -/
theorem eq_of_finish {answer : Except StoreError Unit} (h : (finish handle path answer log).1 = .opened handle') :
    handle' = { handle with path := some path } := by
  unfold finish at h
  cases answer with
  | error e => cases h
  | ok => exact (Opening.opened.inj h).symm

/-- A handle to a database of its own has no file. -/
theorem target_of_openOwn (h : (openOwn path l busyTimeoutMs).1 = .opened handle) : ∃ db, handle.target = .own db := by
  unfold openOwn at h
  split at h
  · exact ⟨_, congrArg Handle.target (eq_of_finish h)⟩
  · exact ⟨_, congrArg Handle.target (eq_of_finish h)⟩

/-- A handle to a file that is only read is one of that kind. -/
theorem target_of_openViewed (h : (d.openViewed path l place busyTimeoutMs).1 = .opened handle) :
    handle.target = .viewed place := by
  unfold openViewed at h
  split at h
  · cases h
  · split at h
    · cases h
    · exact congrArg Handle.target (eq_of_finish h)

/-- A handle to a file whose locks are not seen is one of that kind. -/
theorem target_of_openBlind (h : (d.openBlind path place busyTimeoutMs).1 = .opened handle) : handle.target = .blind place := by
  unfold openBlind at h
  split at h
  · cases h
  · split at h
    · cases h
    · split at h <;> exact congrArg Handle.target (eq_of_finish h)

/-- A file that was opened to be shared has a database, readers and the writer of which get along. -/
theorem node?_of_openShared (h : d.openShared path place busyTimeoutMs = (.opened handle, d', log)) :
    handle.target = .shared place ∧ handle.poisoned = false ∧ ∃ db, d'.files.node? place = some (.database db true) := by
  unfold openShared at h
  cases hshare : d.shareReading place with
  | error f =>
    simp only [hshare, bind, Except.bind] at h
    cases h
  | ok ready =>
    obtain ⟨db, hnode⟩ := node?_of_shareReading hshare
    simp only [hshare, bind, Except.bind, connect, load_of_node? hnode, pure, Except.pure] at h
    obtain ⟨hopened, hrest⟩ := Prod.mk.inj h
    obtain ⟨hdisk, -⟩ := Prod.mk.inj hrest
    rw [eq_of_finish hopened, ← hdisk]
    exact ⟨rfl, rfl, _, by rw [node?_store hnode, if_pos rfl]⟩

/-- Whatever a path asks for, a handle to a shared file can be used, and readers and the writer of the file get along. -/
theorem node?_of_openAt (h : d.openAt path busyTimeoutMs = (.opened handle, d', log)) (htarget : handle.target = .shared place) :
    handle.poisoned = false ∧ ∃ db, d'.files.node? place = some (.database db true) := by
  have hready : ∀ {d : Disk} {l : Location}, d.openReady path l busyTimeoutMs = (.opened handle, d', log) →
      handle.poisoned = false ∧ ∃ db, d'.files.node? place = some (.database db true) := by
    intro d l h
    unfold openReady at h
    dsimp only at h
    split at h
    · obtain ⟨db, hown⟩ := target_of_openOwn (congrArg Prod.fst h)
      cases hown.symm.trans htarget
    · split at h
      · cases (target_of_openViewed (congrArg Prod.fst h)).symm.trans htarget
      · split at h
        · cases (target_of_openBlind (congrArg Prod.fst h)).symm.trans htarget
        · obtain ⟨hplace, husable, hnode⟩ := node?_of_openShared h
          cases hplace.symm.trans htarget
          exact ⟨husable, hnode⟩
  unfold openAt openNamed at h
  dsimp only at h
  split at h
  · cases h
  · split at h
    · cases h
    · split at h
      · cases h
      · split at h
        · cases h
        · exact hready h

end Disk

namespace Host

/-! ## The same host -/

/-- Two hosts have the same at every place and under every name, and the same locks. -/
structure Alike (h h' : Host) : Prop where
  nodes : ∀ p, h'.disk.files.node? p = h.disk.files.node? p
  here : h'.disk.files.here = h.disk.files.here
  locks : h'.disk.locks = h.disk.locks
  handles : ∀ name, h'.handle? name = h.handle? name
  main : h'.main = h.main

/-- A handle of a host can be used, and the file that it was opened at has a database, readers and a writer of which get
along. -/
structure Serves (h : Host) (name : String) (handle : Handle) (place : Place) (db : Database) : Prop where
  named : h.handle? name = some handle
  target : handle.target = .shared place
  usable : handle.poisoned = false
  file : h.disk.files.node? place = some (.database db true)

/-- The host after the lock on a file was given back. -/
def released (h : Host) (place : Place) : Host :=
  { h with disk := { h.disk with locks := h.disk.locks.filter (· ≠ place) } }

/-- A lock that is given up is held no more. -/
theorem isLocked_released (h : Host) (place : Place) : (h.released place).disk.isLocked place = false := by
  simp [released, Disk.isLocked]

/-- Hosts that are alike stay so when a lock is given up. -/
theorem Alike.released {h h' : Host} (hh : h.Alike h') (place : Place) : (h.released place).Alike (h'.released place) where
  nodes := hh.nodes
  here := hh.here
  locks := congrArg (List.filter (· ≠ place)) hh.locks
  handles := hh.handles
  main := hh.main

/-- The connection of a handle to the database of its file. -/
def connection (h : Host) (handle : Handle) (place : Place) (db : Database) : Connection :=
  { database := db, enforcing := handle.enforcing, locked := h.disk.isLocked place }

namespace Serves

variable {h h' : Host} {name : String} {handle : Handle} {place : Place} {db : Database}

/-- Hosts that are alike serve alike. -/
theorem alike (hs : h.Serves name handle place db) (hh : h.Alike h') : h'.Serves name handle place db where
  named := (hh.handles name).trans hs.named
  target := hs.target
  usable := hs.usable
  file := (hh.nodes place).trans hs.file

/-- A handle is served still when a lock is given up. -/
theorem released (hs : h.Serves name handle place db) : (h.released place).Serves name handle place db :=
  ⟨hs.named, hs.target, hs.usable, hs.file⟩

/-- An operation of the handle is that of its connection. -/
theorem perform_eq (hs : h.Serves name handle place db) (now : Timestamp) (op : Operation) :
    let o := (h.connection handle place db).perform now op
    h.perform name handle now op = (o.answer, h.settle name handle o.connection, o.log) := by
  have hconnect : h.connect handle = .ok (h.connection handle place db) := by
    unfold connect
    rw [hs.target]
    simp only [Disk.connect, Disk.load_of_node? hs.file]
    rfl
  have hreported : ∀ e : StoreError, reportedError handle e = e := by
    intro e
    unfold reportedError reported
    rw [hs.target]
    split
    next hbusy => exact hbusy.symm
    next => rfl
  unfold perform use
  rw [hs.usable, if_neg Bool.false_ne_true, hconnect]
  intro o
  have hanswer : o.answer.mapError (reportedError handle) = o.answer := by
    cases o.answer with
    | error e => exact congrArg Except.error (hreported e)
    | ok a => rfl
  exact congrArg (·, h.settle name handle o.connection, o.log) hanswer

/-- What using the connection leaves behind: the database in the file, and the handle. -/
theorem settle_spec (hs : h.Serves name handle place db) (c : Connection) :
    (∀ p, (h.settle name handle c).disk.files.node? p =
      if p = place then some (.database c.database true) else h.disk.files.node? p) ∧
    (∀ n, (h.settle name handle c).handle? n =
      if n = name then some { handle with enforcing := c.enforcing } else h.handle? n) ∧
    (h.settle name handle c).disk.files.here = h.disk.files.here ∧ (h.settle name handle c).disk.locks = h.disk.locks ∧
    (h.settle name handle c).main = h.main := by
  unfold settle
  rw [hs.target]
  exact ⟨Disk.node?_store hs.file c.database, lookup_put _ _ _, rfl, rfl, rfl⟩

/-- A connection that is as it was leaves the host as it was. -/
theorem settle_same (hs : h.Serves name handle place db) {c : Connection} (hdb : c.database = db)
    (henforcing : c.enforcing = handle.enforcing) : h.Alike (h.settle name handle c) := by
  obtain ⟨hnodes, hhandles, hhere, hlocks, hmain⟩ := hs.settle_spec c
  refine ⟨fun p => ?_, hhere, hlocks, fun n => ?_, hmain⟩
  · rw [hnodes, hdb]
    split
    next hp => rw [hp, hs.file]
    next => rfl
  · rw [hhandles, henforcing]
    split
    next hn => rw [hn, hs.named]
    next => rfl

/-- What an operation answers, logs and leaves behind is the same on hosts that are the same. -/
theorem perform_alike (hs : h.Serves name handle place db) (hh : h.Alike h') (now : Timestamp) (op : Operation) :
    (h'.perform name handle now op).1 = (h.perform name handle now op).1 ∧
    (h'.perform name handle now op).2.2 = (h.perform name handle now op).2.2 ∧
    (h.perform name handle now op).2.1.Alike (h'.perform name handle now op).2.1 := by
  have hconnection : h'.connection handle place db = h.connection handle place db := by
    unfold connection Disk.isLocked
    rw [hh.locks]
  rw [hs.perform_eq, (hs.alike hh).perform_eq, hconnection]
  refine ⟨rfl, rfl, ?_⟩
  generalize (h.connection handle place db).perform now op = o
  obtain ⟨hnodes, hhandles, hhere, hlocks, hmain⟩ := hs.settle_spec o.connection
  obtain ⟨hnodes', hhandles', hhere', hlocks', hmain'⟩ := (hs.alike hh).settle_spec o.connection
  refine ⟨fun p => ?_, ?_, ?_, fun n => ?_, ?_⟩
  · rw [hnodes, hnodes', hh.nodes]
  · rw [hhere, hhere', hh.here]
  · rw [hlocks, hlocks', hh.locks]
  · rw [hhandles, hhandles', hh.handles]
  · rw [hmain, hmain', hh.main]

end Serves

/-- A handle that is given to a file can be used, and readers and the writer of the file get along. -/
theorem openAt_serves {h : Host} {name : String} {path : Path} {busyTimeoutMs : Nat} {handle : Handle} {place : Place}
    (hopen : (h.openAt name path busyTimeoutMs).1 = .opened handle) (htarget : handle.target = .shared place) :
    ∃ db, (h.openAt name path busyTimeoutMs).2.1.Serves name handle place db := by
  unfold openAt at hopen ⊢
  cases hdisk : h.disk.openAt path busyTimeoutMs with
  | mk opening rest =>
    obtain ⟨d, log⟩ := rest
    simp only [hdisk] at hopen ⊢
    cases opening with
    | opened handle' =>
      cases hopen
      obtain ⟨husable, db, hnode⟩ := Disk.node?_of_openAt hdisk htarget
      exact ⟨db, (lookup_put _ _ _ _).trans (if_pos rfl), htarget, husable, hnode⟩
    | failed e => cases hopen
    | aborted => cases hopen

/-- Whoever takes the lock on a file, a handle serves as before. -/
theorem Serves.lock {h : Host} {name : String} {handle : Handle} {place : Place} {db : Database}
    (hs : h.Serves name handle place db) (path : Path) : (h.lock path).2.Serves name handle place db := by
  unfold Host.lock
  dsimp only
  cases htouch : h.disk.touch path (h.disk.placeOf path) with
  | error f => exact hs
  | ok d =>
    have hnode := (Disk.kept_of_touch htouch).2 _ _ hs.file
    simp only
    split
    · exact ⟨hs.named, hs.target, hs.usable, hnode⟩
    · split <;> exact ⟨hs.named, hs.target, hs.usable, hnode⟩

/-! ## Under a lock -/

/-- What a lock on its file means for the operations of a handle in the current layout, whatever its rows and whatever is asked.
1. An operation that has to write is refused as busy while the lock is held, which is an error worth a second try, and the
   host is the same. So once the lock is given back the operation answers, logs and leaves behind what it would if it had
   not been asked for before.
2. An operation that does not write answers and logs what it would if the lock had been given back, and the host is the
   same.
3. While the lock is free no operation answers an error that is worth a second try. -/
theorem perform_under_lock {h : Host} {name : String} {handle : Handle} {place : Place} {db : Database}
    (hs : h.Serves name handle place db) (hdb : db.IsCurrent) (now : Timestamp) (op : Operation) :
    (h.disk.isLocked place = true → op.Writes db →
      let (answer, refused, log) := h.perform name handle now op
      answer = .error (.busy .locked) ∧ (StoreError.busy .locked).isRetryable = true ∧ log = [] ∧ h.Alike refused ∧
      ∀ later : Timestamp,
        let (answer, again, log) := (refused.released place).perform name handle later op
        let (answer', first, log') := (h.released place).perform name handle later op
        answer = answer' ∧ log = log' ∧ first.Alike again) ∧
    (¬op.Writes db →
      let (answer, read, log) := h.perform name handle now op
      let (answer', _, log') := (h.released place).perform name handle now op
      answer = answer' ∧ log = log' ∧ h.Alike read) ∧
    (h.disk.isLocked place = false → ∀ e, (h.perform name handle now op).1 = .error e → e.isRetryable = false) := by
  have hreleased : (h.released place).connection handle place db = (h.connection handle place db).holding := by
    unfold connection
    rw [h.isLocked_released place]
    rfl
  refine ⟨fun hlock hop => ?_, fun hop => ?_, fun hlock e he => ?_⟩
  · have hrefused := Connection.perform_of_locked (c := h.connection handle place db) hdb hlock now hop
    have hsame : h.Alike (h.settle name handle (h.connection handle place db)) := hs.settle_same rfl rfl
    rw [hs.perform_eq, hrefused]
    refine ⟨rfl, rfl, rfl, hsame, fun later => ?_⟩
    exact hs.released.perform_alike (hsame.released place) later op
  · obtain ⟨hanswer, hlog, hleft⟩ := Connection.perform_of_not_writes (c := h.connection handle place db) hdb now hop
    simp only [hs.perform_eq, hs.released.perform_eq, hreleased]
    exact ⟨hanswer, hlog, hs.settle_same (by rw [hleft]; rfl) (by rw [hleft]; rfl)⟩
  · rw [hs.perform_eq] at he
    exact Connection.perform_settles (c := h.connection handle place db) hlock now op e he

/-- A host on which a file is to be opened. -/
def quiet : Host := { disk := { files := .initial [] } }

/-- A host on which a file was opened and then locked. -/
def contended : Host :=
  let path : Path := .ofString "/queue"
  ((quiet.openAt "worker" path 5000).2.1.lock path).2

/-- A claim is refused there though nothing is queued, and finds that nothing is queued once the lock is given back. That no
repository has the number 1 is found at once, and while the lock is free it is no error worth a second try that nothing
can be completed. -/
theorem perform_under_lock_contended :
    ∃ handle place, contended.handle? "worker" = some handle ∧ contended.disk.isLocked place = true ∧
      let refused := contended.perform "worker" handle .epoch (.claim "worker")
      let free := contended.released place
      refused.1 = .error (.busy .locked) ∧ contended.Alike refused.2.1 ∧
      ((refused.2.1.released place).perform "worker" handle .epoch (.claim "worker")).1 = .ok .absent ∧
      (contended.perform "worker" handle .epoch (.findRepo 1)).1 = .ok .absent ∧
      ∃ e, (free.perform "worker" handle .epoch (.complete 1 ⟨"a", "p", "o"⟩)).1 = .error e ∧ e.isRetryable = false := by
  have hopen : (quiet.openAt "worker" (.ofString "/queue") 5000).1 = .opened
      { target := .shared [bytesOf "queue"], path := some (.ofString "/queue"), journalMode := "wal" } := by decide +kernel
  obtain ⟨db, hopened⟩ := openAt_serves hopen rfl
  have hserves : contended.Serves "worker" _ _ db := hopened.lock (.ofString "/queue")
  have hfile : contended.disk.files.node? [bytesOf "queue"] = some (.database .current true) := by decide +kernel
  cases hserves.file.symm.trans hfile
  have hlock : contended.disk.isLocked [bytesOf "queue"] = true := by decide +kernel
  have hcurrent : Database.current.IsCurrent := by decide
  obtain ⟨hrefused, -, -, hsame, hagain⟩ := (perform_under_lock hserves hcurrent .epoch (.claim "worker")).1 hlock trivial
  have hfound := (perform_under_lock hserves hcurrent .epoch (.findRepo 1)).2.1 id
  have hfree := (perform_under_lock hserves.released hcurrent .epoch (.complete 1 ⟨"a", "p", "o"⟩)).2.2
    (isLocked_released _ _)
  refine ⟨_, _, hserves.named, hlock, hrefused, hsame, (hagain .epoch).1.trans (by decide +kernel),
    hfound.1.trans (by decide +kernel), _, ?_, hfree (.jobNotFound 1) ?_⟩ <;> decide +kernel

end Host
end ReviewQueue
