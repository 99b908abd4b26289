import ReviewQueue.Proofs.Queue.Durable
import ReviewQueue.Proofs.Text.Segments

/-!
# Names of repositories

A repository is stored with its path as it is shown and with the name of the path. The name is that of the path as it is shown,
too, so it can be told from what is stored: whatever bytes a repository was registered under, its name and its path go together.
-/

namespace ReviewQueue

theorem eq_ok_of_toOption {ε α : Type} {x : Except ε α} {a : α} (h : x.toOption = some a) : x = .ok a := by
  cases x with
  | error e => cases h
  | ok b =>
    cases h
    rfl

/-- A repository has the name of the path it is stored with. -/
def Repo.IsNamed (x : Repo) : Prop := x.name = (Path.ofString x.rootPath).displayName

/-- Every row of repositories holds one that has the name of its path. -/
def Database.Named (db : Database) : Prop := ∀ r ∈ db.rows "repos", ∃ x : Repo, r.HoldsRepo x ∧ x.IsNamed

/-- The path and the name that are read from a row are those that it holds. -/
theorem Repo.eq_of_holds {r : Row} {x y : Repo} (hx : ofRecord (recordOf r) = .ok x) (hy : r.HoldsRepo y) :
    x.rootPath = y.rootPath ∧ x.name = y.name := by
  have hid : (recordOf r).int 0 = .ok y.id := Record.int_eq (congrArg Cell.int hy.id)
  have hroot : (recordOf r).text 1 = .ok y.rootPath := Record.text_eq hy.rootPath
  have hname : (recordOf r).text 2 = .ok y.name := Record.text_eq hy.name
  simp only [ofRecord, bind, Except.bind, hid, hroot, hname] at hx
  split at hx
  · cases hx
  · cases hx
    exact ⟨rfl, rfl⟩

namespace Database

variable {db : Database}

/-- A stored repository has the name of its path. -/
theorem Named.isNamed (h : db.Named) {x : Repo} (hx : (Entity.repo x).Stored db) : x.IsNamed := by
  obtain ⟨r, hr, hread⟩ := hx
  obtain ⟨y, hy, hnamed⟩ := h r hr
  obtain ⟨hroot, hname⟩ := Repo.eq_of_holds hread hy
  unfold Repo.IsNamed at hnamed ⊢
  rw [hroot, hname]
  exact hnamed

end Database

/-- The next statement of a call leaves repositories that have the names of their paths. -/
theorem Call.run_named {c : Connection} (hdb : c.database.IsCurrent) (h : c.database.Named) (now : Timestamp) (call : Call) :
    (call.run c now).2.Named := by
  intro r hr
  rcases (call.run_gains hdb now).1.added r hr with hr | ⟨path, id, rfl⟩
  · exact h r hr
  · exact ⟨_, Connection.registration_holds now path id, path.displayName_mended.symm⟩

namespace Site

theorem fresh_named : fresh.database.Named := by
  have hempty : fresh.database.rows "repos" = [] := by decide
  intro r hr
  rw [hempty] at hr
  cases hr

theorem after_named {w : Site} (hdb : w.database.Kept) (h : w.database.Named) (as : List Action) :
    (w.after as).database.Named := by
  induction as generalizing w with
  | nil => exact h
  | cons a as ih =>
    refine ih (step_kept hdb a) ?_
    rw [step_database]
    exact Call.run_named (c := w.connection a) hdb.intact.isCurrent h a.now (w.call a)

end Site

/-- After every run of handles that open a database just installed and use it, repositories have the names of their paths. -/
theorem Openers.after_named (as : List Action) : ((start .current).after as).site.database.Named := by
  obtain ⟨bs, -, hbs⟩ := exists_site_after (o := start .current) Site.fresh_kept as
  rw [hbs]
  exact Site.after_named Site.fresh_kept Site.fresh_named bs

open ReviewQueue.Path in
/-- The name of a repository is that of its path. In three parts:
1. The path that is written as a path is shown has the name of that path, whatever its bytes are.
2. So a repository has the name of the path it is stored with. Any number of handles open a database just installed and use it,
   in any order of their turns and statements: every row of repositories holds one with that name, and so does every
   repository that a call answers.
3. Every path is a directory, a segment in it, and slashes and dots behind that do not count. Whenever a path is taken apart like
   that, its name is the whole path as it is shown if the segment is `..` or a dot or empty, and is the segment as it is shown
   otherwise. -/
theorem names_tell_paths :
    (∀ p : Path, (ofString p.display).displayName = p.displayName) ∧
    (∀ as : List Action, let o := (Openers.start .current).after as
      (∀ r ∈ o.site.database.rows "repos", ∃ x : Repo, r.HoldsRepo x ∧ x.name = (ofString x.rootPath).displayName) ∧
      ∀ a e answer x, o.event? a = some e → e.answer = .ok answer → .repo x ∈ answer.entities →
        x.name = (ofString x.rootPath).displayName) ∧
    ∀ p : Path, (∃ dir segment tail, p.EndsIn dir segment tail) ∧ ∀ dir segment tail, p.EndsIn dir segment tail →
      p.displayName = if segment = dotDot ∨ segment = dot ∨ segment = [] then p.display else Utf8.lossy segment := by
  refine ⟨displayName_mended, fun as => ?_, fun p => ⟨p.exists_endsIn, fun dir segment tail h => h.displayName_eq⟩⟩
  have hkept := Openers.after_kept as
  have hnamed := Openers.after_named as
  refine ⟨hnamed, fun a e answer x he hanswer hx => ?_⟩
  obtain ⟨-, hrun⟩ := Openers.run_of_event he
  rw [hanswer] at hrun
  -- what was answered is stored once the statement is over, and that leaves the names
  have hstored := Call.run_stored hkept.intact hrun (.repo x) hx
  have hthen := Call.run_named (c := ((Openers.start .current).after as).site.connection a) hkept.intact.isCurrent hnamed a.now
    (((Openers.start .current).after as).site.call a)
  exact hthen.isNamed hstored

/-- A path both segments of which are broken. -/
def Path.broken : Path := ⟨[0x2F, 0xFF, 0x2F, 0xC3, 0x2F]⟩

/-- The action that goes on with registering it. -/
def Openers.registerBroken : Action := ⟨0, .registerRepo .broken, .epoch, false⟩

/-- Its name is a replacement character, and so is that of the repository registered under it. -/
theorem names_tell_paths_broken :
    Path.broken.displayName = "\uFFFD" ∧ ∃ e x, ((Openers.start .current).after
        [⟨0, .version, .epoch, false⟩, Openers.registerBroken, Openers.registerBroken]).event? Openers.registerBroken = some e ∧
      e.answer = .ok (.repo x) ∧ x.rootPath = "/\uFFFD/\uFFFD/" ∧ x.name = (Path.ofString x.rootPath).displayName := by
  obtain ⟨-, hruns, hnames⟩ := names_tell_paths
  refine ⟨?_, ?_⟩
  · have hends : Path.broken.EndsIn [0x2F, 0xFF, 0x2F] [0xC3] [0x2F] :=
      ⟨rfl, Or.inr ⟨[0x2F, 0xFF], rfl⟩, by decide, .alone .nil, by decide⟩
    rw [(hnames Path.broken).2 _ _ _ hends, if_neg (by decide)]
    decide +kernel
  · have hevent : (((Openers.start .current).after
        [⟨0, .version, .epoch, false⟩, Openers.registerBroken, Openers.registerBroken]).event? Openers.registerBroken).bind
        (fun e => e.answer.toOption) = some (.repo ⟨1, "/\uFFFD/\uFFFD/", "\uFFFD", .epoch⟩) := by decide +kernel
    obtain ⟨e, he, hx⟩ := Option.bind_eq_some_iff.mp hevent
    have hanswer : e.answer = .ok (.repo ⟨1, "/\uFFFD/\uFFFD/", "\uFFFD", .epoch⟩) := eq_ok_of_toOption hx
    exact ⟨e, _, he, hanswer, rfl, (hruns _).2 _ e _ _ he hanswer (List.mem_singleton.mpr rfl)⟩

end ReviewQueue
