import ReviewQueue.Proofs.Queue.Locked
import ReviewQueue.Proofs.Queue.Names
import ReviewQueue.Proofs.Queue.Racing

/-!
# Repositories and the bytes of their paths

A repository is registered under its path as it is shown. Paths that are shown alike share one repository, whatever their bytes
are, and other paths do not: a path that is read as a text is shown as that text, so no other such path is shown like it. And
what was never asked for under a path as it is shown is not found there.
-/

namespace ReviewQueue

/-! ## Paths that are shown alike -/

namespace Path

variable {p q : Path}

/-- A path that is read as a text is shown as that text. -/
theorem display_of_decode {s : String} (h : Utf8.decode p.bytes = .ok s) : p.display = s := by
  unfold display
  rw [← Utf8.bytesOf_of_decode h, Utf8.lossy_bytesOf]

theorem exists_decode_of_toText? (h : p.toText?.isSome = true) : ∃ s, Utf8.decode p.bytes = .ok s := by
  unfold toText? at h
  cases hread : Utf8.decode p.bytes with
  | error b =>
    rw [hread] at h
    cases h
  | ok s => exact ⟨s, rfl⟩

/-- Paths that are texts are shown alike only if they are one. -/
theorem eq_of_display (hp : p.toText?.isSome = true) (hq : q.toText?.isSome = true) (h : p.display = q.display) : p = q := by
  obtain ⟨s, hs⟩ := exists_decode_of_toText? hp
  obtain ⟨s', hs'⟩ := exists_decode_of_toText? hq
  rw [display_of_decode hs, display_of_decode hs'] at h
  have hbytes : p.bytes = q.bytes := by rw [← Utf8.bytesOf_of_decode hs, ← Utf8.bytesOf_of_decode hs', h]
  exact congrArg Path.mk hbytes

/-- Paths are shown alike without a replacement character only if they are one. -/
theorem eq_of_display_plain (hp : Utf8.replacement ∉ p.display.toList) (h : p.display = q.display) : p = q := by
  have hq := hp
  rw [h] at hq
  have hbytes : p.bytes = q.bytes := by
    rw [← Utf8.mend_eq_self hp, ← Utf8.mend_eq_self hq]
    exact congrArg bytesOf h
  exact congrArg Path.mk hbytes

end Path

/-! ## What is answered for a path -/

section

variable {c : Connection} {now : Timestamp} {x : Repo}

/-- A repository that is looked up is stored with what it was looked up under. -/
theorem Connection.rootPath_of_repoAt (hdb : c.database.Kept) {shown : String} (h : c.repoAt shown = .ok (some x)) :
    x.rootPath = shown ∧ (Entity.repo x).Stored c.database := by
  have hfirst : c.repoAt shown = _ := (Key.path shown).first_eq hdb.intact.isCurrent Repo.ofRecord
  rw [h] at hfirst
  cases hrow : ((Key.path shown).rows c.database).head? with
  | none =>
    rw [hrow] at hfirst
    cases hfirst
  | some r =>
    rw [hrow] at hfirst
    obtain ⟨y, hread, hy⟩ := exists_of_map_ok hfirst.symm
    cases hy
    obtain ⟨hr, hnames⟩ := List.mem_filter.mp (List.mem_of_mem_head? hrow)
    have hcell : r.cell "root_path" = .ofString x.rootPath :=
      Entity.ReadFrom.cell_eq (x := .repo x) hdb hr hread
    exact ⟨Cell.ofString_inj (hcell.symm.trans (of_decide_eq_true hnames)), r, hr, hread⟩

/-- A call that is to register a path answers a repository that is stored with it as it is shown. -/
theorem Call.rootPath_of_run (hdb : c.database.Kept) {call : Call} {path : Path} (hop : call.operation = .registerRepo path)
    (h : (call.run c now).1 = .answered (.ok (.repo x))) : x.rootPath = path.display := by
  have hentry : call.operation.entry? = some (.repo path) := by rw [hop]; rfl
  have hlook : ∀ found, (Entry.repo path).key.look c = .ok (some found) → found = .repo x → x.rootPath = path.display := by
    rintro found hfound rfl
    rw [Entry.look_repo] at hfound
    obtain ⟨y, hat, hy⟩ := exists_of_map_ok hfound
    cases y with
    | none => cases hy
    | some y =>
      cases hy
      exact (Connection.rootPath_of_repoAt hdb hat).1
  rcases Entry.call_cases hentry with rfl | rfl | rfl
  · rw [Entry.run_asked] at h
    split at h
    · cases h
    next found hfound =>
      cases h
      exact hlook _ hfound rfl
    · cases h
  · rw [Entry.run_adding] at h
    split at h <;> cases h
  · rw [Entry.run_added] at h
    split at h
    · cases h
    next found hfound =>
      cases h
      exact hlook _ hfound rfl
    · cases h

end

/-! ## What was never asked for -/

/-- No row has a key, and no call under way is to add one. -/
structure Site.Avoids (w : Site) (k : Key) : Prop where
  lacks : k.Lacks w.database
  calls : ∀ handle call, w.calls handle = some call → call.operation.key? ≠ some k

namespace Site

variable {w : Site} {k : Key}

theorem fresh_avoids (k : Key) : fresh.Avoids k := by
  have hempty : ∀ l ∈ Layout.entities, fresh.database.rows l.name = [] := by decide
  refine ⟨Key.lacks_iff.mpr fun r hr => ?_, fun _ _ h => by cases h⟩
  have hlayout : k.layout ∈ Layout.entities := by
    unfold Key.layout
    cases k.isPath <;> simp [Layout.entities]
  rw [hempty _ hlayout] at hr
  cases hr

/-- The call of an action is for a key only if the action asks for it, or a call under way is. -/
theorem Avoids.call (h : w.Avoids k) {a : Action} (ha : a.operation.key? ≠ some k) : (w.call a).operation.key? ≠ some k := by
  unfold Site.call
  cases hcall : w.calls a.handle with
  | none => exact ha
  | some call => exact h.calls a.handle call hcall

theorem Avoids.step (h : w.Avoids k) (hdb : w.database.IsCurrent) {a : Action} (ha : a.operation.key? ≠ some k) :
    (w.step a).1.Avoids k := by
  refine ⟨?_, fun handle call hcall => ?_⟩
  · rw [step_database]
    exact (Key.rows_run (c := w.connection a) hdb a.now (h.call ha)).trans h.lacks
  · rcases step_calls hcall with hnext | hbefore
    · rw [(Call.run_next hnext).1]
      exact h.call ha
    · exact h.calls handle call hbefore

/-- What is never asked for is never there. -/
theorem Avoids.after (h : w.Avoids k) (hdb : w.database.Kept) {as : List Action} (has : ∀ a ∈ as, a.operation.key? ≠ some k) :
    (w.after as).Avoids k := by
  induction as generalizing w with
  | nil => exact h
  | cons a as ih =>
    rw [List.forall_mem_cons] at has
    exact ih (h.step hdb.intact.isCurrent has.1) (step_kept hdb a) has.2

end Site

/-- An operation is for the key of a path if it is to register a path that is shown alike. -/
theorem Operation.key?_eq_path {op : Operation} {shown : String} :
    op.key? = some (.path shown) ↔ ∃ path, op = .registerRepo path ∧ path.display = shown := by
  constructor
  · intro h
    cases op with
    | registerRepo path => exact ⟨path, rfl, congrArg Key.text (Option.some.inj h)⟩
    | storeCommit info => cases congrArg Key.isPath (Option.some.inj h)
    | _ => cases h
  · rintro ⟨path, rfl, rfl⟩
    rfl

/-! ## Runs -/

namespace Openers

/-- A call that is to register a path and is answered leaves its repository stored under the path as it is shown. -/
theorem stored_of_registered {as : List Action} {a : Action} {e : Event} {path : Path} {x : Repo}
    (he : ((start .current).after as).event? a = some e) (hop : e.operation = .registerRepo path)
    (hx : e.answer = .ok (.repo x)) :
    x.rootPath = path.display ∧ (Entity.repo x).Stored ((start .current).after (as ++ [a])).site.database := by
  obtain ⟨-, hrun⟩ := run_of_event he
  have hcall : e.operation = (((start .current).after as).site.call a).operation := by
    unfold event? at he
    split at he
    next => exact (Site.step_event.mp he).2.2
    next => cases he
  rw [hx] at hrun
  refine ⟨Call.rootPath_of_run (c := ((start .current).after as).site.connection a) (after_kept as) (hcall.symm.trans hop) hrun, ?_⟩
  exact stored_of_event he hx (List.mem_singleton.mpr rfl)

end Openers

/-- Repositories are told apart by their paths as they are shown. Any number of handles open a database just installed and use it,
in any order of their turns and statements, whatever the lock and the clock. In four parts:
1. Two calls that registered paths answered one repository if the paths are shown alike, and otherwise repositories that have
   different numbers.
2. From then on a path is found to be that of the first repository exactly if it is shown like the path of that.
3. A path is not found if none was ever asked to be registered that is shown like it.
4. Paths that are shown alike are one, if both are texts, or if they are shown without a replacement character. -/
theorem repos_told_apart_as_shown (as : List Action) :
    let o := Openers.start .current
    (∀ a e p x bs b e' q y, (o.after as).event? a = some e → e.operation = .registerRepo p → e.answer = .ok (.repo x) →
      (o.after (as ++ a :: bs)).event? b = some e' → e'.operation = .registerRepo q → e'.answer = .ok (.repo y) →
      (x = y ↔ p.display = q.display) ∧ (x.id = y.id ↔ p.display = q.display)) ∧
    (∀ a e p x bs (c : Connection) q, (o.after as).event? a = some e → e.operation = .registerRepo p →
      e.answer = .ok (.repo x) → c.database = (o.after (as ++ a :: bs)).site.database →
      (c.findRepoByPath q = .ok (some x) ↔ p.display = q.display)) ∧
    (∀ (c : Connection) q, c.database = (o.after as).site.database →
      (∀ a ∈ as, ∀ p, a.operation = .registerRepo p → p.display ≠ q.display) → c.findRepoByPath q = .ok none) ∧
    ∀ p q : Path, p.display = q.display →
      (p.toText?.isSome = true ∧ q.toText?.isSome = true ∨ Utf8.replacement ∉ p.display.toList) → p = q := by
  intro o
  refine ⟨fun a e p x bs b e' q y he hp hx he' hq hy => ?_, fun a e p x bs c q he hp hx hc => ?_, fun c q hc hnever => ?_,
    fun p q hshown htext => ?_⟩
  · obtain ⟨hpath, hstored⟩ := Openers.stored_of_registered he hp hx
    obtain ⟨hpath', hstored'⟩ := Openers.stored_of_registered he' hq hy
    -- the first repository is there when the second is answered
    have hthen := Openers.stored_after hstored (bs ++ [b])
    rw [List.append_assoc, List.singleton_append, ← List.cons_append, ← List.append_assoc] at hthen
    have hone := hthen.eq_of_matches (Openers.after_kept _) hstored'
    have hsame : x = y ↔ p.display = q.display := by
      rw [← hpath, ← hpath']
      constructor
      · rintro rfl
        rfl
      · intro hroot
        exact Entity.repo.inj (hone ⟨rfl, Or.inr ⟨by simp [Entity.kind], by simp only [Entity.sought, hroot]⟩⟩)
    refine ⟨hsame, fun hid => hsame.mp (Entity.repo.inj (hone ⟨rfl, Or.inl hid⟩)), fun hshown => ?_⟩
    rw [hsame.mpr hshown]
  · obtain ⟨hpath, hstored⟩ := Openers.stored_of_registered he hp hx
    have hthen := Openers.stored_after hstored bs
    rw [List.append_assoc, List.singleton_append, ← hc] at hthen
    have hkept : c.database.Kept := by
      rw [hc]
      exact Openers.after_kept _
    constructor
    · intro hfound
      rw [← hpath]
      exact (Connection.rootPath_of_repoAt hkept (eq_ok_of_liftFault hfound)).1
    · intro hshown
      exact ((hthen.found hkept .epoch).2 q (hshown.symm.trans hpath.symm)).1
  · obtain ⟨bs, hsub, hbs⟩ := Openers.exists_site_after (o := o) Site.fresh_kept as
    have havoids : (Site.fresh.after bs).Avoids (.path q.display) :=
      (Site.fresh_avoids _).after Site.fresh_kept fun a ha hkey => by
        obtain ⟨p, hop, hshown⟩ := Operation.key?_eq_path.mp hkey
        exact hnever a (hsub.subset ha) p hop hshown
    have hlacks : (Key.path q.display).Lacks c.database := by
      rw [hc, hbs]
      exact havoids.lacks
    have hdb : c.database.IsCurrent := by
      rw [hc]
      exact (Openers.after_kept as).intact.isCurrent
    unfold Connection.findRepoByPath
    rw [(Connection.repoAt_eq_none_iff hdb).mpr hlacks]
    rfl
  · rcases htext with ⟨hp, hq⟩ | hplain
    · exact Path.eq_of_display hp hq hshown
    · exact Path.eq_of_display_plain hplain hshown

/-- A path that ends in a byte that no text has. -/
def Path.endsInFF : Path := ⟨[0x2F, 0xFF]⟩

/-- A path that ends in another such byte. -/
def Path.endsInFE : Path := ⟨[0x2F, 0xFE]⟩

/-- The action that goes on with registering the first of them. -/
def Openers.registerFF : Action := ⟨0, .registerRepo .endsInFF, .epoch, false⟩

/-- Once the first is registered, the second is found to be the same repository, and `/work` is not found. -/
theorem repos_told_apart_as_shown_work :
    let as : List Action := [⟨0, .version, .epoch, false⟩, Openers.registerFF, Openers.registerFF]
    ∃ e x, ((Openers.start .current).after as).event? Openers.registerFF = some e ∧ e.answer = .ok (.repo x) ∧
      ∀ c : Connection, c.database = ((Openers.start .current).after (as ++ [Openers.registerFF])).site.database →
        c.findRepoByPath .endsInFE = .ok (some x) ∧ c.findRepoByPath (.ofString "/work") = .ok none := by
  intro as
  have hevent : (((Openers.start .current).after as).event? Openers.registerFF).bind
      (fun e => if e.operation = .registerRepo .endsInFF then e.answer.toOption else none) =
        some (.repo ⟨1, "/\uFFFD", "\uFFFD", .epoch⟩) := by decide +kernel
  obtain ⟨e, he, hx⟩ := Option.bind_eq_some_iff.mp hevent
  obtain ⟨hop, hx⟩ := Option.ite_none_right_eq_some.mp hx
  have hanswer : e.answer = .ok (.repo ⟨1, "/\uFFFD", "\uFFFD", .epoch⟩) := eq_ok_of_toOption hx
  obtain ⟨-, hfound, -⟩ := repos_told_apart_as_shown as
  obtain ⟨-, -, hmissing, -⟩ := repos_told_apart_as_shown (as ++ [Openers.registerFF])
  refine ⟨e, _, he, hanswer, fun c hc => ⟨(hfound _ e _ _ [] c _ he hop hanswer hc).mpr (by decide +kernel), ?_⟩⟩
  refine hmissing c _ hc fun a ha p hp => ?_
  have hshown : Path.endsInFF.display ≠ (Path.ofString "/work").display := by decide +kernel
  simp only [as, List.cons_append, List.nil_append, List.mem_cons, List.not_mem_nil, or_false] at ha
  rcases ha with rfl | rfl | rfl | rfl <;> cases hp <;> exact hshown

/-- The two paths have different bytes. Only the first was registered, yet both are found, and registering the second answers the
repository of the first. -/
theorem repos_told_apart_as_shown_collision :
    let as : List Action := List.replicate 3 ⟨0, .registerRepo .endsInFF, .epoch, false⟩
    let c : Connection := ⟨(Site.fresh.after as).database, true, false⟩
    let x : Repo := ⟨1, "/\uFFFD", "\uFFFD", .epoch⟩
    Path.endsInFF ≠ Path.endsInFE ∧ (Site.fresh.history as).map (·.answer.toOption) = [some (.repo x)] ∧
      c.findRepoByPath .endsInFF = .ok (some x) ∧ c.findRepoByPath .endsInFE = .ok (some x) ∧
      (c.registerRepo .epoch .endsInFE).answer = .ok x := by
  decide +kernel

end ReviewQueue
