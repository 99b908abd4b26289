import ReviewQueue.Proofs.Migration.Orphans
import ReviewQueue.Proofs.Queue.Footprint

/-!
# Several handles open one database

Each handle that opens a database takes turns of the migration until one of them finishes or fails, and calls operations once its
migration has returned. The turns of all handles and the statements of their calls come in any order. The first turn of all
brings the database forward. Every other turn finds the current version, however early its handle began, and changes
nothing.
-/

namespace ReviewQueue

namespace Database

/-- Both are the same apart from their rows: names mean tables of the same layouts, and the indexes are the same. -/
structure SameShape (db db' : Database) : Prop where
  layouts : db.SameLayouts db'
  indexes : db'.indexes = db.indexes

theorem SameShape.refl (db : Database) : db.SameShape db := ⟨.refl db, rfl⟩

theorem SameShape.trans {db db' db'' : Database} (h : db.SameShape db') (h' : db'.SameShape db'') : db.SameShape db'' :=
  ⟨h.layouts.trans h'.layouts, h'.indexes.trans h.indexes⟩

/-- Tables that are put in the place of others leave the shape. -/
theorem Rewrites.sameShape {db db' : Database} (h : db.Rewrites db') : db.SameShape db' := ⟨h.layouts, h.indexes⟩

end Database

/-- A database, the calls of the handles that opened it, and what the migration of each handle returned if it has. -/
structure Openers where
  site : Site
  returned : Nat → Option (Except StoreError Unit)

namespace Openers

/-- A database that no handle has opened yet. -/
def start (db : Database) : Openers := ⟨.quiet db, fun _ => none⟩

/-- The next turn of a handle that is still opening the database. -/
def turn (o : Openers) (a : Action) : Outcome Migration.Turn := Migration.turn ⟨o.site.database, false, a.locked⟩

/-- An action of a handle: it takes the next turn of its migration. Once that has returned it goes on with its calls, or with
nothing if the migration failed. -/
def step (o : Openers) (a : Action) : Openers :=
  match o.returned a.handle with
  | some (.ok ()) => { o with site := (o.site.step a).1 }
  | some (.error _) => o
  | none =>
    let site := { o.site with database := (o.turn a).connection.database }
    match (o.turn a).answer with
    | .ok .again => ⟨site, o.returned⟩
    | .ok .finished => ⟨site, Function.update o.returned a.handle (some (.ok ()))⟩
    | .error e => ⟨site, Function.update o.returned a.handle (some (.error e))⟩

/-- What has come of some actions. -/
def after (o : Openers) (as : List Action) : Openers := as.foldl step o

/-- Whether turns find the lock free. The statements of calls may find it taken. -/
def Unlocked (o : Openers) (as : List Action) : Prop :=
  ∀ bs a cs, as = bs ++ a :: cs → (o.after bs).returned a.handle = none → a.locked = false

@[simp] theorem after_cons (o : Openers) (a : Action) (as : List Action) : o.after (a :: as) = (o.step a).after as := rfl

/-- What holds of all turns holds of the first one and of those after it. -/
theorem Unlocked.of_cons {o : Openers} {a : Action} {as : List Action} (h : o.Unlocked (a :: as)) :
    (o.returned a.handle = none → a.locked = false) ∧ (o.step a).Unlocked as := by
  refine ⟨h [] a as rfl, ?_⟩
  intro bs b cs hb hnone
  exact h (a :: bs) b cs (by rw [hb, List.cons_append]) hnone

/-- It holds if the lock is never taken. -/
theorem unlocked_of_forall {as : List Action} (h : ∀ a ∈ as, a.locked = false) (o : Openers) : o.Unlocked as := by
  rintro bs a cs rfl -
  exact h a (by simp)

section

variable {o : Openers} {a : Action}

/-- A handle that has opened the database goes on with its call. -/
theorem step_of_ok (h : o.returned a.handle = some (.ok ())) : o.step a = { o with site := (o.site.step a).1 } := by
  unfold step
  rw [h]

/-- A turn that is not the last leaves its handle to take another. -/
theorem step_of_again (h : o.returned a.handle = none) (ha : (o.turn a).answer = .ok .again) :
    o.step a = ⟨{ o.site with database := (o.turn a).connection.database }, o.returned⟩ := by
  unfold step
  simp only [h, ha]

/-- A turn that finishes lets its handle use the database. -/
theorem step_of_finished (h : o.returned a.handle = none) (ha : (o.turn a).answer = .ok .finished) : o.step a =
    ⟨{ o.site with database := (o.turn a).connection.database }, Function.update o.returned a.handle (some (.ok ()))⟩ := by
  unfold step
  simp only [h, ha]

/-- A turn that fails ends the opening of its handle. -/
theorem step_of_error {e : StoreError} (h : o.returned a.handle = none) (ha : (o.turn a).answer = .error e) : o.step a =
    ⟨{ o.site with database := (o.turn a).connection.database }, Function.update o.returned a.handle (some (.error e))⟩ := by
  unfold step
  simp only [h, ha]

end

/-- The table of versions is the one of the layout, where there is one, to begin with. -/
theorem hasPlainVersions {db : Database} (hdb : db = .empty ∨ ∃ t, db.IsLegacy t ∧ ∀ r ∈ t.rows, r.HasKnownStatus) :
    db.HasPlainVersions := by
  rcases hdb with rfl | ⟨t, hlegacy, -⟩
  · intro v hv
    cases hv
  · exact hlegacy.hasPlainVersions

/-- A handle that opens a database by itself takes one turn or two, and its turns come to what `migrate` comes to. -/
theorem after_alone (db : Database) (hv : db.HasPlainVersions) (a : Action) :
    ∃ as, (as = [a] ∨ as = [a, a]) ∧
      ((start db).after as).returned a.handle = some (Connection.mk db true a.locked).migrate.answer ∧
      ((start db).after as).site.database = (Connection.mk db true a.locked).migrate.connection.database := by
  obtain ⟨log, hmigrate⟩ := Connection.migrate_eq (c := ⟨db, true, a.locked⟩) hv
  have hturn : (start db).turn a = Migration.turn ⟨db, false, a.locked⟩ := rfl
  have hnone : (start db).returned a.handle = none := rfl
  rw [hmigrate]
  cases hanswer : (Migration.turn ⟨db, false, a.locked⟩).answer with
  | error e =>
    refine ⟨[a], Or.inl rfl, ?_⟩
    rw [after_cons, step_of_error hnone (by rw [hturn, hanswer])]
    exact ⟨Function.update_self .., rfl⟩
  | ok last =>
    cases last with
    | finished =>
      refine ⟨[a], Or.inl rfl, ?_⟩
      rw [after_cons, step_of_finished hnone (by rw [hturn, hanswer])]
      exact ⟨Function.update_self .., rfl⟩
    | again =>
      obtain ⟨-, db', hconnection, -⟩ := Migration.of_again (c := ⟨db, false, a.locked⟩) hv hanswer
      obtain ⟨log, hlast⟩ := Migration.turn_after_again (c := ⟨db, false, a.locked⟩) hv hanswer
      refine ⟨[a, a], Or.inr rfl, ?_⟩
      rw [after_cons, step_of_again hnone (by rw [hturn, hanswer]), after_cons, hturn, hconnection]
      rw [hconnection] at hlast
      have hsecond : Openers.turn ⟨⟨db', fun _ => none⟩, fun _ => none⟩ a = ⟨.ok .finished, ⟨db', false, a.locked⟩, log⟩ := hlast
      have hstep := step_of_finished (o := ⟨⟨db', fun _ => none⟩, fun _ => none⟩) (a := a) rfl (by rw [hsecond])
      rw [hsecond] at hstep
      exact ⟨(congrArg (·.returned a.handle) hstep).trans (Function.update_self ..), congrArg (·.site.database) hstep⟩

/-! ## After the first turn -/

/-- What holds once a turn was taken: the database is current, it has the shape that a single opener leaves, the current version
alone is recorded, and no migration has failed. -/
structure Settled (alone : Database) (o : Openers) : Prop where
  current : o.site.database.IsCurrent
  shape : alone.SameShape o.site.database
  version : o.site.database.table? "schema_version" = some (Database.versions currentVersion)
  returned : ∀ handle r, o.returned handle = some r → r = .ok ()

namespace Settled

variable {alone : Database} {o : Openers} {a : Action}

/-- A turn finds nothing left to do. -/
theorem turn_eq (h : o.Settled alone) (hlock : a.locked = false) :
    o.turn a = ⟨.ok .finished, ⟨o.site.database, false, a.locked⟩, []⟩ := by
  obtain ⟨t, ht, hl⟩ := h.current.jobs
  exact Migration.turn_eq_finished (c := ⟨o.site.database, false, a.locked⟩) hlock ht hl h.version

/-- A turn leaves the database and lets its handle return. -/
theorem step_of_none (h : o.Settled alone) (hnone : o.returned a.handle = none) (hlock : a.locked = false) :
    o.step a = { o with returned := Function.update o.returned a.handle (some (.ok ())) } := by
  have hturn := h.turn_eq hlock
  rw [step_of_finished hnone (by rw [hturn]), hturn]

/-- A turn keeps a settled run settled. -/
theorem step (h : o.Settled alone) (hlock : o.returned a.handle = none → a.locked = false) : (o.step a).Settled alone := by
  cases hr : o.returned a.handle with
  | none =>
    rw [h.step_of_none hr (hlock hr)]
    refine ⟨h.current, h.shape, h.version, fun handle r hreturned => ?_⟩
    by_cases hhandle : handle = a.handle
    · simp only [hhandle, Function.update_self, Option.some.injEq] at hreturned
      exact hreturned.symm
    · simp only [Function.update_of_ne hhandle] at hreturned
      exact h.returned handle r hreturned
  | some r =>
    cases h.returned a.handle r hr
    rw [step_of_ok hr]
    have hrewrites := Site.step_rewrites h.current a
    exact ⟨Site.step_isCurrent h.current a, h.shape.trans hrewrites.sameShape, hrewrites.versions.trans h.version, h.returned⟩

/-- So does a run of turns. -/
theorem after (h : o.Settled alone) {as : List Action} (hlock : o.Unlocked as) : (o.after as).Settled alone := by
  induction as generalizing o with
  | nil => exact h
  | cons a as ih => exact ih (h.step hlock.of_cons.1) hlock.of_cons.2

/-- Nothing is taken back that was returned. -/
theorem returned_step (h : o.Settled alone) (hlock : o.returned a.handle = none → a.locked = false) {handle : Nat}
    (hr : o.returned handle = some (.ok ()) ∨ handle = a.handle) : (o.step a).returned handle = some (.ok ()) := by
  cases hnone : o.returned a.handle with
  | none =>
    rw [h.step_of_none hnone (hlock hnone)]
    by_cases hhandle : handle = a.handle
    · rw [hhandle]
      exact Function.update_self ..
    · exact (Function.update_of_ne hhandle ..).trans (hr.resolve_right hhandle)
  | some r =>
    cases h.returned a.handle r hnone
    rw [step_of_ok hnone]
    rcases hr with hr | rfl
    · exact hr
    · exact hnone

/-- A handle that acts has returned afterwards. -/
theorem returned_after (h : o.Settled alone) {as : List Action} (hlock : o.Unlocked as) {handle : Nat}
    (hr : o.returned handle = some (.ok ()) ∨ ∃ a ∈ as, a.handle = handle) :
    (o.after as).returned handle = some (.ok ()) := by
  induction as generalizing o with
  | nil =>
    rcases hr with hr | ⟨a, ha, -⟩
    · exact hr
    · cases ha
  | cons a as ih =>
    obtain ⟨hfirst, hrest⟩ := hlock.of_cons
    refine ih (h.step hfirst) hrest ?_
    rcases hr with hr | ⟨x, hx, rfl⟩
    · exact Or.inl (h.returned_step hfirst (Or.inl hr))
    · rcases List.mem_cons.mp hx with rfl | hx
      · exact Or.inl (h.returned_step hfirst (Or.inr rfl))
      · exact Or.inr ⟨x, hx, rfl⟩

end Settled

/-! ## The first turn -/

/-- The first turn on an empty database, or on an old one each job of which has one of the four statuses, does all that a
migration does that no other handle interrupts. -/
theorem exists_first_turn {db : Database} (hdb : db = .empty ∨ ∃ t, db.IsLegacy t ∧ ∀ r ∈ t.rows, r.HasKnownStatus) :
    ∃ last, (Migration.turn ⟨db, false, false⟩).answer = .ok last ∧
      (Migration.turn ⟨db, false, false⟩).connection.database = (Connection.mk db true false).migrate.connection.database ∧
      (Connection.mk db true false).migrate.connection.database.IsCurrent ∧
      (Connection.mk db true false).migrate.connection.database.table? "schema_version" =
        some (Database.versions currentVersion) ∧
      ¬db.SameShape (Connection.mk db true false).migrate.connection.database := by
  rcases hdb with rfl | ⟨t, hlegacy, hknown⟩
  · rw [(Connection.migrate_empty true).2]
    refine ⟨.finished, by decide, by decide, by decide, by decide, fun hsame => ?_⟩
    exact absurd (hsame.layouts "repos") (by decide)
  · obtain ⟨db', hforward, hanswer, hconnection⟩ := (Migration.turn_eq hlegacy false).1 hknown
    obtain ⟨log, hmigrate⟩ := Connection.migrate_eq (c := ⟨db, true, false⟩) hlegacy.hasPlainVersions
    rw [hmigrate, hconnection]
    refine ⟨.again, hanswer, rfl, (hforward.isCurrent hlegacy).1, hforward.version, fun hsame => ?_⟩
    obtain ⟨u, hu, hul, -⟩ := hforward.jobs
    have hlayouts := hsame.layouts "review_jobs"
    rw [hu, hlegacy.jobs, Option.map_some, Option.map_some, hul, hlegacy.layout] at hlayouts
    exact absurd hlayouts (by decide)

/-- After the first turn nothing is left to do. -/
theorem settled_first {db : Database} (hdb : db = .empty ∨ ∃ t, db.IsLegacy t ∧ ∀ r ∈ t.rows, r.HasKnownStatus) {a : Action}
    (hlock : a.locked = false) : ((start db).step a).Settled (Connection.mk db true false).migrate.connection.database ∧
      ((start db).step a).site.database = (Connection.mk db true false).migrate.connection.database := by
  obtain ⟨last, hanswer, hdatabase, hcurrent, hversion, -⟩ := exists_first_turn hdb
  have hturn : (start db).turn a = Migration.turn ⟨db, false, false⟩ := by
    unfold turn
    rw [hlock]
    rfl
  have hnone : (start db).returned a.handle = none := rfl
  cases last with
  | again =>
    rw [step_of_again hnone (by rw [hturn, hanswer]), hturn, hdatabase]
    exact ⟨⟨hcurrent, .refl _, hversion, fun _ _ h => by cases h⟩, rfl⟩
  | finished =>
    rw [step_of_finished hnone (by rw [hturn, hanswer]), hturn, hdatabase]
    refine ⟨⟨hcurrent, .refl _, hversion, fun handle r hreturned => ?_⟩, rfl⟩
    by_cases hhandle : handle = a.handle
    · simp only [hhandle, Function.update_self, Option.some.injEq] at hreturned
      exact hreturned.symm
    · simp only [Function.update_of_ne hhandle] at hreturned
      cases hreturned

/-- After some actions nothing is left to do. -/
theorem settled_after {db : Database} (hdb : db = .empty ∨ ∃ t, db.IsLegacy t ∧ ∀ r ∈ t.rows, r.HasKnownStatus)
    {as : List Action} (hne : as ≠ []) (hlock : (start db).Unlocked as) :
    ((start db).after as).Settled (Connection.mk db true false).migrate.connection.database := by
  obtain ⟨a, as, rfl⟩ := List.exists_cons_of_ne_nil hne
  obtain ⟨hfirst, hrest⟩ := hlock.of_cons
  exact (settled_first hdb (hfirst rfl)).1.after hrest

/-- What holds of a run holds of its start. -/
theorem Unlocked.of_append {o : Openers} {as bs : List Action} (h : o.Unlocked (as ++ bs)) : o.Unlocked as := by
  rintro cs a ds rfl hnone
  exact h cs a (ds ++ bs) (by simp) hnone

end Openers

/-- Any number of handles open a database and use it once they have, in any order of their turns and statements. It is empty to
begin with, or an old one each job of which has one of the four statuses. In six parts:
1. What a migration has returned is success, and a handle that has acted twice has returned.
2. The first action of all changes the shape of the database, and no other does.
3. After it the database is the one that a handle leaves that migrates by itself,
4. and stays one of its shape, with version 2 alone recorded.
5. A turn that is not the first of all changes nothing, whatever was written before it.
6. A handle that finds the database for itself takes one turn or two, and they come to its migration: what that returns, and the
   database that it leaves. -/
theorem openers_migrate_once (db : Database) (hdb : db = .empty ∨ ∃ t, db.IsLegacy t ∧ ∀ r ∈ t.rows, r.HasKnownStatus)
    (as : List Action) (hlock : (Openers.start db).Unlocked as) :
    let o := Openers.start db
    let alone := (Connection.mk db true false).migrate.connection.database
    (∀ handle, (∀ r, (o.after as).returned handle = some r → r = .ok ()) ∧
      (2 ≤ as.countP (·.handle = handle) → (o.after as).returned handle = some (.ok ()))) ∧
    (∀ bs a cs, as = bs ++ a :: cs →
      ((o.after bs).site.database.SameShape ((o.after bs).step a).site.database ↔ bs ≠ [])) ∧
    (∀ a cs, as = a :: cs → (o.step a).site.database = alone) ∧
    (as ≠ [] → alone.SameShape (o.after as).site.database ∧
      alone.table? "schema_version" = some (Database.versions 2) ∧
      (o.after as).site.database.table? "schema_version" = some (Database.versions 2)) ∧
    (∀ bs a cs, as = bs ++ a :: cs → bs ≠ [] → (o.after bs).returned a.handle = none →
      ((o.after bs).step a).site.database = (o.after bs).site.database) ∧
    ∀ a : Action, a.locked = false → ∃ bs, (bs = [a] ∨ bs = [a, a]) ∧ (o.after bs).site.database = alone ∧
      (o.after bs).returned a.handle = some (Connection.mk db true false).migrate.answer := by
  intro o alone
  refine ⟨fun handle => ⟨fun r hr => ?_, fun htwice => ?_⟩, ?_, ?_, fun hne => ?_, ?_, fun a hfree => ?_⟩
  · cases as with
    | nil => cases hr
    | cons a as => exact (Openers.settled_after hdb (by simp) hlock).returned handle r hr
  · cases as with
    | nil => cases htwice
    | cons a as =>
      obtain ⟨hfirst, hrest⟩ := hlock.of_cons
      refine (Openers.settled_first hdb (hfirst rfl)).1.returned_after hrest (Or.inr ?_)
      rw [List.countP_cons] at htwice
      have hpos : 0 < as.countP (·.handle = handle) := by
        split at htwice <;> omega
      simpa using List.countP_pos_iff.mp hpos
  · rintro bs a cs rfl
    cases bs with
    | nil =>
      obtain ⟨last, -, -, -, -, hshape⟩ := Openers.exists_first_turn hdb
      have hfirst := (Openers.settled_first hdb (hlock [] a cs rfl rfl)).2
      rw [← hfirst] at hshape
      exact ⟨fun h => absurd h hshape, fun h => absurd rfl h⟩
    | cons b bs =>
      have hsettled := Openers.settled_after hdb (by simp) hlock.of_append
      refine ⟨fun _ => by simp, fun _ => ?_⟩
      cases hr : (o.after (b :: bs)).returned a.handle with
      | none =>
        rw [hsettled.step_of_none hr (hlock (b :: bs) a cs rfl hr)]
        exact .refl _
      | some r =>
        cases hsettled.returned a.handle r hr
        rw [Openers.step_of_ok hr]
        exact (Site.step_rewrites hsettled.current a).sameShape
  · rintro a cs rfl
    exact (Openers.settled_first hdb (hlock [] a cs rfl rfl)).2
  · obtain ⟨last, -, -, -, hversion, -⟩ := Openers.exists_first_turn hdb
    have hsettled := Openers.settled_after hdb hne hlock
    exact ⟨hsettled.shape, hversion, hsettled.version⟩
  · rintro bs a cs rfl hne hnone
    have hsettled := Openers.settled_after hdb hne hlock.of_append
    rw [hsettled.step_of_none hnone (hlock bs a cs rfl hnone)]
  · obtain ⟨bs, hbs, hreturned, hdatabase⟩ := Openers.after_alone db (Openers.hasPlainVersions hdb) a
    rw [hfree] at hreturned hdatabase
    exact ⟨bs, hbs, hdatabase, hreturned⟩

/-- Two handles open an old database, and the first registers a repository before the second one takes its turn. -/
def Openers.lateOpener : List Action :=
  [⟨0, .version, .epoch, false⟩, ⟨0, .version, .epoch, false⟩, ⟨0, .registerRepo (.ofString "/work"), .epoch, false⟩,
    ⟨0, .registerRepo (.ofString "/work"), .epoch, false⟩, ⟨1, .version, .epoch, false⟩, ⟨1, .version, .epoch, false⟩]

/-- Both handles return, and the turn of the second one leaves the repository. -/
theorem openers_migrate_once_oneOldJob :
    let o := Openers.start .oneOldJob
    (o.after Openers.lateOpener).returned 0 = some (.ok ()) ∧ (o.after Openers.lateOpener).returned 1 = some (.ok ()) ∧
    ((o.after (Openers.lateOpener.take 4)).site.database.rows "repos").length = 1 ∧
    ((o.after (Openers.lateOpener.take 4)).step ⟨1, .version, .epoch, false⟩).site.database =
      (o.after (Openers.lateOpener.take 4)).site.database := by
  have hknown : ∀ r ∈ Table.oneOldJob.rows, r.HasKnownStatus := by
    intro r hr
    cases List.mem_singleton.mp hr
    exact ⟨.running, by decide⟩
  have hlock : (Openers.start .oneOldJob).Unlocked Openers.lateOpener := Openers.unlocked_of_forall (by decide) _
  obtain ⟨hreturned, -, -, -, hlate, -⟩ := openers_migrate_once .oneOldJob
    (Or.inr ⟨.oneOldJob, Database.isLegacy_oneOldJob, hknown⟩) Openers.lateOpener hlock
  have hopening : ((Openers.start .oneOldJob).after (Openers.lateOpener.take 4)).returned 1 = none := by decide +kernel
  exact ⟨(hreturned 0).2 (by decide), (hreturned 1).2 (by decide), by decide +kernel,
    hlate (Openers.lateOpener.take 4) _ [⟨1, .version, .epoch, false⟩] rfl (by decide) hopening⟩

end ReviewQueue
