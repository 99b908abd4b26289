import Mathlib.Data.List.Induction
import Mathlib.Logic.Function.Basic
import ReviewQueue.Queue.Operation

/-!
# Calls of several handles

Several handles call the operations of one database at the same time. What nothing can interrupt is a statement or a
transaction: a call of several statements can find that other handles acted between two of them. A site is a database
with the calls that its handles have under way, and an action runs the next statement of one handle. A run is a list of
actions, in whatever order, and its history lists the calls that were answered. A call that is not interrupted does what
`perform` does.
-/

namespace ReviewQueue

/-- A call that is under way, by the statement that comes next. -/
inductive Call where
  /-- Nothing was run yet. -/
  | asked (operation : Operation)
  /-- The path was looked up in vain; its row is to be added. -/
  | registering (path : Path)
  /-- The row of the path is there, whoever added it; it is to be looked up again. -/
  | registered (path : Path)
  /-- The hash was looked up in vain; its row is to be added. -/
  | storing (info : CommitInfo)
  /-- The row of the hash is there, whoever added it; it is to be looked up again. -/
  | stored (info : CommitInfo)
  /-- There was no running job of that number to fail; why that is so is to be looked up. -/
  | refusing (id : Int) (error : String)
  deriving DecidableEq, Repr

/-- What a statement of a call leads to: another statement, or the answer. -/
inductive Progress where
  | next (call : Call)
  | answered (answer : Except StoreError Answer)

namespace Call

/-- The operation that a call is of. -/
def operation : Call → Operation
  | asked operation => operation
  | registering path | registered path => .registerRepo path
  | storing info | stored info => .storeCommit info
  | refusing id error => .fail id error

/-- Run the next statement or transaction of a call. Most operations are one; registering a path and storing a commit
are up to three, and a failure that is refused is two. -/
def run (c : Connection) (now : Timestamp) : Call → Progress × Database
  | asked (.registerRepo path) =>
    match c.repoAt path.display with
    | .error f => (.answered (.error (.ofFault f)), c.database)
    | .ok (some repo) => (.answered (.ok (.repo repo)), c.database)
    | .ok none => (.next (.registering path), c.database)
  | registering path =>
    match c.insert (Connection.registration now path) with
    | .error f => (.answered (.error (.ofFault f)), c.database)
    | .ok (_, db) => (.next (.registered path), db)
  | registered path => (.answered ((liftFault (c.registeredRepo path.display)).map .repo), c.database)
  | asked (.storeCommit info) =>
    match c.commitOf info.sha with
    | .error f => (.answered (.error (.ofFault f)), c.database)
    | .ok (some commit) => (.answered (.ok (.commit commit)), c.database)
    | .ok none => (.next (.storing info), c.database)
  | storing info =>
    match c.insert (Connection.storing now info) with
    | .error f => (.answered (.error (.ofFault f)), c.database)
    | .ok (_, db) => (.next (.stored info), db)
  | stored info => (.answered ((liftFault (c.storedCommit info.sha)).map .commit), c.database)
  | asked (.fail id error) =>
    match c.change (Connection.finishing now id .failed (some error)) with
    | .error f => (.answered (.error (.ofFault f)), c.database)
    | .ok (rows, db) => if rows.length = 1 then (.answered (.ok .done), db) else (.next (.refusing id error), db)
  | refusing id _ => (.answered (.error (c.refusal id .failed)), c.database)
  | asked operation => ((.answered (c.perform now operation).answer), (c.perform now operation).connection.database)

/-- How many statements a call can still have before the last one. -/
def ahead : Call → Nat
  | asked _ => 2
  | registering _ | storing _ => 1
  | registered _ | stored _ | refusing _ _ => 0

/-- Another statement is one of the same operation, and fewer come after it. -/
theorem run_next {c : Connection} {now : Timestamp} {call call' : Call} (h : (call.run c now).1 = .next call') :
    call'.operation = call.operation ∧ call'.ahead < call.ahead := by
  cases call with
  | asked op =>
    cases op with
    | registerRepo | storeCommit | fail =>
      simp only [run] at h
      repeat' split at h
      all_goals cases h
      exact ⟨rfl, by simp only [ahead]; omega⟩
    | _ => cases h
  | registering | storing =>
    simp only [run] at h
    split at h
    · cases h
    · cases h
      exact ⟨rfl, by simp only [ahead]; omega⟩
  | _ => cases h

/-- Run a call to its end without another handle acting in between. -/
def finish (c : Connection) (now : Timestamp) (call : Call) : Except StoreError Answer × Database :=
  match _h : call.run c now with
  | (.answered answer, db) => (answer, db)
  | (.next call', db) => finish (c.on db) now call'
  termination_by call.ahead
  decreasing_by exact (run_next (congrArg Prod.fst _h)).2

/-- A call that is answered is over. -/
theorem finish_of_answered {c : Connection} {now : Timestamp} {call : Call} {answer : Except StoreError Answer} {db : Database}
    (h : call.run c now = (.answered answer, db)) : call.finish c now = (answer, db) := by
  rw [finish]
  split
  next heq => rw [h] at heq; cases heq; rfl
  next heq => rw [h] at heq; cases heq

/-- A call that is not goes on where it is. -/
theorem finish_of_next {c : Connection} {now : Timestamp} {call call' : Call} {db : Database}
    (h : call.run c now = (.next call', db)) : call.finish c now = call'.finish (c.on db) now := by
  rw [finish]
  split
  next heq => rw [h] at heq; cases heq
  next heq => rw [h] at heq; cases heq; rfl

/-- A call that no other handle interrupts answers what the operation answers, and leaves the database that it
leaves. -/
theorem finish_asked (c : Connection) (now : Timestamp) (op : Operation) :
    (Call.asked op).finish c now = ((c.perform now op).answer, (c.perform now op).connection.database) := by
  cases op with
  | registerRepo path =>
    simp only [Connection.perform, Outcome.map, Connection.registerRepo]
    cases hlook : c.repoAt path.display with
    | error f => exact finish_of_answered (by simp only [run, hlook]; rfl)
    | ok found =>
      cases found with
      | some repo => exact finish_of_answered (by simp only [run, hlook]; rfl)
      | none =>
        rw [finish_of_next (by simp only [run, hlook]; rfl)]
        cases hadd : c.insert (Connection.registration now path) with
        | error f => exact finish_of_answered (by simp only [run]; rw [show c.on c.database = c from rfl, hadd]; rfl)
        | ok added =>
          rw [finish_of_next (by simp only [run]; rw [show c.on c.database = c from rfl, hadd])]
          exact finish_of_answered rfl
  | storeCommit info =>
    simp only [Connection.perform, Outcome.map, Connection.storeCommit]
    cases hlook : c.commitOf info.sha with
    | error f => exact finish_of_answered (by simp only [run, hlook]; rfl)
    | ok found =>
      cases found with
      | some commit => exact finish_of_answered (by simp only [run, hlook]; rfl)
      | none =>
        rw [finish_of_next (by simp only [run, hlook]; rfl)]
        cases hadd : c.insert (Connection.storing now info) with
        | error f => exact finish_of_answered (by simp only [run]; rw [show c.on c.database = c from rfl, hadd]; rfl)
        | ok added =>
          rw [finish_of_next (by simp only [run]; rw [show c.on c.database = c from rfl, hadd])]
          exact finish_of_answered rfl
  | fail id error =>
    simp only [Connection.perform, Outcome.map, Connection.fail, Connection.finish, Connection.finished]
    cases hchange : c.change (Connection.finishing now id .failed (some error)) with
    | error f => exact finish_of_answered (by simp only [run, hchange]; rfl)
    | ok changed =>
      obtain ⟨rows, db⟩ := changed
      by_cases hrows : rows.length = 1
      · simp only [if_pos hrows]
        exact finish_of_answered (by simp only [run, hchange, if_pos hrows]; rfl)
      · rw [finish_of_next (by simp only [run, hchange, if_neg hrows]; rfl)]
        simp only [if_neg hrows]
        exact finish_of_answered rfl
  | _ => exact finish_of_answered rfl

/-- Where the first statement of a call answers it, the operation answers that. -/
theorem perform_of_run {c : Connection} {now : Timestamp} {op : Operation} {answer : Except StoreError Answer}
    (h : ((asked op).run c now).1 = .answered answer) : (c.perform now op).answer = answer := by
  have hrun : (asked op).run c now = (.answered answer, ((asked op).run c now).2) := by rw [← h]
  have hfinish := finish_of_answered hrun
  rw [finish_asked] at hfinish
  exact congrArg Prod.fst hfinish

end Call

/-! ## Sites -/

/-- An action of a handle: it goes on with its call, or asks for an operation if it has none under way. -/
structure Action where
  handle : Nat
  operation : Operation
  now : Timestamp
  /-- Whether a connection that is none of the handles holds the lock for writing at that time. -/
  locked : Bool := false
  deriving DecidableEq, Repr

/-- A call that was answered. -/
structure Event where
  handle : Nat
  operation : Operation
  answer : Except StoreError Answer

/-- The call of a handle as it is answered, unless another statement comes first. -/
def Progress.event? (handle : Nat) (operation : Operation) : Progress → Option Event
  | next _ => none
  | answered answer => some ⟨handle, operation, answer⟩

/-- A database and the calls that its handles have under way. -/
structure Site where
  database : Database
  calls : Nat → Option Call

namespace Site

/-- A database no handle of which has a call under way. -/
def quiet (db : Database) : Site := ⟨db, fun _ => none⟩

/-- A database that was just installed, before any call. -/
def fresh : Site := quiet .current

/-- The connection of a handle at the time of an action. -/
def connection (w : Site) (a : Action) : Connection := { database := w.database, locked := a.locked }

/-- The call that an action goes on with. -/
def call (w : Site) (a : Action) : Call := (w.calls a.handle).getD (.asked a.operation)

/-- The next statement of a handle: the site after it, and the call if it was answered. -/
def step (w : Site) (a : Action) : Site × Option Event :=
  match (w.call a).run (w.connection a) a.now with
  | (.next call, db) => (⟨db, Function.update w.calls a.handle (some call)⟩, none)
  | (.answered answer, db) => (⟨db, Function.update w.calls a.handle none⟩, some ⟨a.handle, (w.call a).operation, answer⟩)

/-- The site after some actions. -/
def after (w : Site) (as : List Action) : Site := as.foldl (fun w a => (w.step a).1) w

/-- The calls that are answered in the course of some actions, in their order. -/
def history : Site → List Action → List Event
  | _, [] => []
  | w, a :: as => (w.step a).2.toList ++ history (w.step a).1 as

theorem after_append (w : Site) (as bs : List Action) : w.after (as ++ bs) = (w.after as).after bs :=
  List.foldl_append

theorem after_snoc (w : Site) (as : List Action) (a : Action) : w.after (as ++ [a]) = ((w.after as).step a).1 :=
  List.foldl_append

theorem history_append (w : Site) (as bs : List Action) :
    w.history (as ++ bs) = w.history as ++ (w.after as).history bs := by
  induction as generalizing w with
  | nil => rfl
  | cons a as ih =>
    rw [List.cons_append, history, history, ih, List.append_assoc]
    rfl

theorem history_snoc (w : Site) (as : List Action) (a : Action) :
    w.history (as ++ [a]) = w.history as ++ ((w.after as).step a).2.toList := by
  rw [history_append, history, history, List.append_nil]

/-- An action does to the database what its call does. -/
theorem step_database (w : Site) (a : Action) : (w.step a).1.database = ((w.call a).run (w.connection a) a.now).2 := by
  unfold step
  split <;> simp_all

/-- A call that is under way after an action is the one that its statement led to, or was under way before. -/
theorem step_calls {w : Site} {a : Action} {handle : Nat} {call : Call} (h : (w.step a).1.calls handle = some call) :
    ((w.call a).run (w.connection a) a.now).1 = .next call ∨ w.calls handle = some call := by
  unfold step at h
  split at h
  next call' db heq =>
    simp only at h
    by_cases hhandle : handle = a.handle
    · rw [hhandle, Function.update_self] at h
      cases h
      exact Or.inl (congrArg Prod.fst heq)
    · rw [Function.update_of_ne hhandle] at h
      exact Or.inr h
  next answer db heq =>
    simp only at h
    by_cases hhandle : handle = a.handle
    · rw [hhandle, Function.update_self] at h
      cases h
    · rw [Function.update_of_ne hhandle] at h
      exact Or.inr h

/-- An action answers what its call does. -/
theorem step_event? (w : Site) (a : Action) :
    (w.step a).2 = ((w.call a).run (w.connection a) a.now).1.event? a.handle (w.call a).operation := by
  unfold step
  split <;> simp_all [Progress.event?]

/-- An action has an event exactly if its statement answers the call. -/
theorem step_event {w : Site} {a : Action} {e : Event} :
    (w.step a).2 = some e ↔ ((w.call a).run (w.connection a) a.now).1 = .answered e.answer ∧ e.handle = a.handle ∧
      e.operation = (w.call a).operation := by
  obtain ⟨handle, operation, answer⟩ := e
  unfold step
  split
  next heq => simp [heq]
  next heq =>
    simp only [heq, Option.some.injEq, Event.mk.injEq, Progress.answered.injEq]
    constructor
    · rintro ⟨rfl, rfl, rfl⟩
      exact ⟨rfl, rfl, rfl⟩
    · rintro ⟨rfl, rfl, rfl⟩
      exact ⟨rfl, rfl, rfl⟩

/-- What holds at the start and is kept by every action that may happen holds of every run, of its last site and its
history. -/
theorem run_induction {P : Site → List Event → Prop} (allowed : Action → Prop) {w : Site} (h0 : P w [])
    (hstep : ∀ v es a, allowed a → P v es → P (v.step a).1 (es ++ (v.step a).2.toList)) (as : List Action)
    (has : ∀ a ∈ as, allowed a) : P (w.after as) (w.history as) := by
  induction as using List.reverseRecOn with
  | nil => exact h0
  | append_singleton as a ih =>
    rw [after_snoc, history_snoc]
    exact hstep _ _ a (has a (by simp)) (ih fun x hx => has x (by simp [hx]))

end Site
end ReviewQueue
