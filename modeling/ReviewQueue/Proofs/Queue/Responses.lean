import ReviewQueue.Proofs.Queue.Durable
import ReviewQueue.Proofs.Queue.Latest

/-!
# Responses are append-only

A response is added as the last row of responses, and no other statement touches them. So the rows of a commit are read as the
responses that calls answered that added one to it, in the order of the calls, and a list has those that were answered before.
-/

namespace ReviewQueue

/-- The response that a call answered that added it to a commit. -/
def Event.responded? (e : Event) (commitId : Int) : Option Response :=
  match e.operation, e.answer with
  | .addResponse reply, .ok (.response x) => if reply.commitId = commitId then some x else none
  | _, _ => none

/-- The responses that some calls added to a commit, in the order of the calls. -/
def responsesTo (commitId : Int) (es : List Event) : List Response := es.filterMap (·.responded? commitId)

/-- The responses in a history are those of its start and those of the rest. -/
theorem responsesTo_append (commitId : Int) (es es' : List Event) :
    responsesTo commitId (es ++ es') = responsesTo commitId es ++ responsesTo commitId es' := List.filterMap_append

theorem responsesTo_added (commitId : Int) (handle : Nat) (reply : Reply) (x : Response) :
    responsesTo commitId [⟨handle, .addResponse reply, .ok (.response x)⟩] =
      if reply.commitId = commitId then [x] else [] := by
  unfold responsesTo
  by_cases h : reply.commitId = commitId <;> simp [Event.responded?, h]

/-! ## One statement -/

/-- A call that is not there to add a response answers none that it added. -/
theorem responsesTo_event? {op : Operation} (h : ∀ reply, op ≠ .addResponse reply) (p : Progress) (handle : Nat)
    (commitId : Int) : responsesTo commitId (p.event? handle op).toList = [] := by
  cases p with
  | next => rfl
  | answered answer =>
    cases op with
    | addResponse reply => exact absurd rfl (h reply)
    | _ => rfl

/-- A call that is not there to add a response leaves the table of responses. -/
theorem Call.table?_responses {c : Connection} (hdb : c.database.IsCurrent) (now : Timestamp) {call : Call}
    (h : ∀ reply, call.operation ≠ .addResponse reply) :
    (call.run c now).2.table? "responses" = c.database.table? "responses" := by
  have hwrites := run_writes c now call
  have heffect := run_effect hdb now call
  generalize (call.run c now).2 = db at hwrites heffect ⊢
  cases hwrites with
  | nothing => rfl
  | repo inserts => exact (Connection.insert_frame hdb inserts).1 _ (show "responses" ≠ "repos" by decide)
  | commit inserts => exact (Connection.insert_frame hdb inserts).1 _ (show "responses" ≠ "commits" by decide)
  | response inserts => exact absurd rfl (h _)
  | jobs changes => exact heffect.table?_of_ne changes (by decide) (by decide)

/-- While the clock shows a year of four digits a response is refused, or its row is added and holds what is answered. -/
theorem Connection.addResponse_cases {c : Connection} {now : Timestamp} (hdb : c.database.IsCurrent) (hnow : now.IsPlain)
    (reply : Reply) : (∃ e, c.addResponse now reply = ⟨.error e, c, []⟩) ∨
      ∃ t new id db, (responding now reply).Adds c.guard c.database t new id db ∧ t.layout = .responses ∧
        c.addResponse now reply = ⟨.ok ⟨id, reply.commitId, reply.responder, reply.response, now⟩, c.on db, []⟩ := by
  unfold addResponse
  cases hinsert : c.insert (responding now reply) with
  | error f => exact Or.inl ⟨_, rfl⟩
  | ok added =>
    obtain ⟨record, db⟩ := added
    obtain ⟨t, new, id, hadds, rfl⟩ := insert_adds (l := .responses) hdb (by decide) rfl rfl hinsert
    obtain ⟨u, hu, hl⟩ := hdb.responses
    cases hu.symm.trans hadds.table
    have hread := Response.ofRecord_recordOf (responding_holds now reply id) hnow
    refine Or.inr ⟨t, new, id, db, hadds, hl, ?_⟩
    rw [hl]
    exact congrArg (fun answer => Outcome.mk (liftFault answer) (c.on db) []) hread

/-- A call that asks for a list is answered it at once, from the database as it is. -/
theorem Call.run_listResponses {c : Connection} {now : Timestamp} {call : Call} {commitId : Int}
    (h : call.operation = .listResponses commitId) :
    (call.run c now).1 = .answered ((c.listResponses commitId).map .responses) := by
  cases call <;> cases h
  rfl

/-! ## Runs -/

/-- The rows of responses to each commit are read as the responses that some calls added to it, in the order of the calls. -/
def Database.ListsResponses (db : Database) (es : List Event) : Prop :=
  ∀ commitId, List.Forall₂ (fun r x => (Entity.response x).ReadFrom r)
    ((db.rows "responses").filter (·.cell "commit_id" = .int commitId)) (responsesTo commitId es)

namespace Database.ListsResponses

variable {db db' : Database} {c : Connection} {es es' : List Event}

/-- Events that are no responses, and leave the table, leave the lists. -/
theorem congr (h : db.ListsResponses es) (hsame : db'.table? "responses" = db.table? "responses")
    (hnone : ∀ commitId, responsesTo commitId es' = []) : db'.ListsResponses (es ++ es') := by
  intro commitId
  rw [responsesTo_append, hnone, List.append_nil, rows_congr hsame]
  exact h commitId

/-- A response that is added comes after the others to its commit. -/
theorem add (h : db.ListsResponses es) {r : Row} {x : Response} (hrows : db'.rows "responses" = db.rows "responses" ++ [r])
    (hholds : r.HoldsResponse x) (hread : (Entity.response x).ReadFrom r)
    (hadded : ∀ commitId, responsesTo commitId es' = if x.commitId = commitId then [x] else []) :
    db'.ListsResponses (es ++ es') := by
  intro commitId
  rw [responsesTo_append, hadded, hrows, List.filter_append]
  refine List.rel_append (h commitId) ?_
  rw [List.filter_singleton, hholds.commitId]
  by_cases hcommit : x.commitId = commitId
  · simp [hcommit, hread]
  · simp [hcommit]

/-- What the next statement of a call does keeps this, if the clock shows a year of four digits. -/
theorem run (h : c.database.ListsResponses es) (hdb : c.database.Intact) {now : Timestamp} (hnow : now.IsPlain) (call : Call)
    (handle : Nat) :
    (call.run c now).2.ListsResponses (es ++ ((call.run c now).1.event? handle call.operation).toList) := by
  by_cases hop : ∀ reply, call.operation ≠ .addResponse reply
  · exact h.congr (call.table?_responses hdb.isCurrent now hop) (responsesTo_event? hop _ handle)
  · obtain ⟨reply, hreply⟩ := Classical.not_forall_not.mp hop
    have hcall : call = .asked (.addResponse reply) := by
      cases call <;> cases hreply
      rfl
    subst hcall
    rcases Connection.addResponse_cases hdb.isCurrent hnow reply with ⟨e, he⟩ | ⟨t, new, id, db, hadds, hl, hx⟩
    · simp only [Call.run, Connection.perform, he, Outcome.map, Except.map]
      exact h.congr rfl fun commitId => rfl
    · have hentity : (Connection.responding now reply).AddsEntity :=
        Call.insertion?_addsEntity (show (Call.asked (.addResponse reply)).insertion? now = _ from rfl)
      have hrows := hdb.rows_of_adds hentity hadds
      have hholds := Connection.responding_holds now reply id
      simp only [Call.run, Connection.perform, hx, Outcome.map, Except.map]
      rw [hl] at hrows
      refine h.add hrows hholds (Response.ofRecord_recordOf hholds hnow) fun commitId => ?_
      exact responsesTo_added commitId handle reply _

/-- The responses to a commit are listed as they were added. -/
theorem listResponses_eq (h : c.database.ListsResponses es) (hdb : c.database.Intact) (hsound : c.database.Sound) (commitId : Int) :
    c.listResponses commitId = .ok (responsesTo commitId es) := by
  have hok := hsound.listResponses_isOk commitId
  cases hlist : c.listResponses commitId with
  | error e =>
    rw [hlist] at hok
    cases hok
  | ok xs =>
    have hread := Entity.forall₂_of_listResponses hdb hlist
    have hunique : Relator.RightUnique fun (r : Row) (x : Response) => (Entity.response x).ReadFrom r :=
      fun r x y hx hy => Entity.response.inj (hx.inj hy rfl)
    rw [List.right_unique_forall₂' hunique hread (h commitId)]

end Database.ListsResponses

namespace Site

theorem fresh_listsResponses : fresh.database.ListsResponses [] := by
  have hnone : fresh.database.rows "responses" = [] := by decide
  intro commitId
  rw [hnone]
  exact .nil

/-- After every run in which the clock shows years of four digits, the responses are those that were added. -/
theorem listsResponses (as : List Action) (hclock : ∀ a ∈ as, a.now.IsPlain) :
    (fresh.after as).database.Intact ∧ (fresh.after as).database.ListsResponses (fresh.history as) := by
  refine run_induction (P := fun w es => w.database.Intact ∧ w.database.ListsResponses es) (·.now.IsPlain)
    ⟨fresh_intact, fresh_listsResponses⟩ ?_ as hclock
  rintro w es a hnow ⟨hintact, hlists⟩
  rw [step_database, step_event?]
  exact ⟨(Call.run_intact (c := w.connection a) hintact rfl a.now (w.call a)).1,
    hlists.run (c := w.connection a) hintact hnow (w.call a) a.handle⟩

/-- A call in the history of a run was answered by one of its actions, and those before it have the history before it. -/
theorem exists_of_history {w : Site} {as : List Action} {e : Event} {es later : List Event}
    (h : w.history as = es ++ e :: later) :
    ∃ bs a cs, as = bs ++ a :: cs ∧ w.history bs = es ∧ ((w.after bs).step a).2 = some e := by
  induction as generalizing w es with
  | nil => simp [history] at h
  | cons a as ih =>
    rw [history] at h
    cases hstep : (w.step a).2 with
    | none =>
      rw [hstep] at h
      obtain ⟨bs, b, cs, rfl, hbs, hb⟩ := ih h
      exact ⟨a :: bs, b, cs, rfl, by rw [history, hstep, hbs]; rfl, hb⟩
    | some x =>
      rw [hstep] at h
      obtain _ | ⟨y, es⟩ := es
      · cases h
        exact ⟨[], a, as, rfl, rfl, hstep⟩
      · obtain ⟨rfl, hrest⟩ := List.cons.inj h
        obtain ⟨bs, b, cs, rfl, hbs, hb⟩ := ih hrest
        exact ⟨a :: bs, b, cs, rfl, by rw [history, hstep, hbs]; rfl, hb⟩

end Site

/-- Responses are append-only, in three parts, after every run of several handles from a database just installed in which the
clock shows years of four digits, for every number of a commit. Adding for other commits, refusals and all other operations may
lie anywhere in between.
1. The list is what the calls answered that added a response to the commit, in the order of the calls, even while the lock is
   held.
2. Every list that was answered in the course of the run has what was answered until then.
3. A list at an earlier point of the run is how the list begins at the end of it. -/
theorem responses_append_only (as : List Action) (hclock : ∀ a ∈ as, a.now.IsPlain) (commitId : Int) :
    (∀ c : Connection, c.database = (Site.fresh.after as).database →
      c.listResponses commitId = .ok (responsesTo commitId (Site.fresh.history as))) ∧
    (∀ es e later, Site.fresh.history as = es ++ e :: later → e.operation = .listResponses commitId →
      e.answer = .ok (.responses (responsesTo commitId es))) ∧
    ∀ bs, bs <+: as → ∀ b c : Connection, b.database = (Site.fresh.after bs).database →
      c.database = (Site.fresh.after as).database →
        ∃ xs ys, b.listResponses commitId = .ok xs ∧ c.listResponses commitId = .ok ys ∧ xs <+: ys := by
  have hlist : ∀ bs, bs <+: as → ∀ c : Connection, c.database = (Site.fresh.after bs).database →
      c.listResponses commitId = .ok (responsesTo commitId (Site.fresh.history bs)) := by
    intro bs hbs c hc
    have hplain : ∀ b ∈ bs, b.now.IsPlain := fun b hb => hclock b (hbs.subset hb)
    obtain ⟨hintact, hlists⟩ := Site.listsResponses bs hplain
    have hsound := (Site.sound bs hplain).database
    rw [← hc] at hintact hlists hsound
    exact hlists.listResponses_eq hintact hsound commitId
  refine ⟨hlist as List.prefix_rfl, fun es e later hes hop => ?_, fun bs hbs b c hb hc => ?_⟩
  · obtain ⟨bs, a, cs, rfl, rfl, he⟩ := Site.exists_of_history hes
    obtain ⟨hanswer, -, hcall⟩ := Site.step_event.mp he
    rw [hop] at hcall
    rw [Call.run_listResponses hcall.symm, hlist bs (List.prefix_append ..) _ rfl] at hanswer
    exact (Progress.answered.inj hanswer).symm
  · refine ⟨_, _, hlist bs hbs b hb, hlist as List.prefix_rfl c hc, ?_⟩
    obtain ⟨cs, rfl⟩ := hbs
    rw [Site.history_append, responsesTo_append]
    exact List.prefix_append ..

/-- Responses are added to two commits by two handles in turn. In between one is refused for the lock and one for a commit that is
not there, and the responses to the first commit are listed. -/
def Site.replies : List Action :=
  let register : Action := ⟨0, .registerRepo (.ofString "/work"), .epoch, false⟩
  let store (sha : String) : Action := ⟨0, .storeCommit ⟨1, sha, "author", "subject", .epoch⟩, .epoch, false⟩
  let add (handle : Nat) (commitId : Int) (text : String) (locked : Bool) : Action :=
    ⟨handle, .addResponse ⟨commitId, "reader", text⟩, .epoch, locked⟩
  [register, register, register, store "abc", store "abc", store "abc", store "def", store "def", store "def",
    add 0 1 "first" false, add 1 2 "elsewhere" false, add 0 1 "locked" true, add 1 9 "nowhere" false,
    ⟨1, .listResponses 1, .epoch, true⟩, add 1 1 "second" false]

/-- The two responses that were added to the first commit are listed, and before the last of them the other one. -/
theorem responses_append_only_replies :
    Connection.listResponses ⟨(Site.fresh.after Site.replies).database, true, true⟩ 1 =
      .ok [⟨1, 1, "reader", "first", .epoch⟩, ⟨3, 1, "reader", "second", .epoch⟩] ∧
    ∃ xs, Connection.listResponses ⟨(Site.fresh.after (Site.replies.take 14)).database, true, true⟩ 1 = .ok xs ∧
      xs <+: [⟨1, 1, "reader", "first", .epoch⟩, ⟨3, 1, "reader", "second", .epoch⟩] := by
  have hclock : ∀ a ∈ Site.replies, a.now.IsPlain := by decide
  have hadded : responsesTo 1 (Site.fresh.history Site.replies) =
      [⟨1, 1, "reader", "first", .epoch⟩, ⟨3, 1, "reader", "second", .epoch⟩] := by decide +kernel
  obtain ⟨hlist, -, hgrows⟩ := responses_append_only Site.replies hclock 1
  have hlast := hlist ⟨(Site.fresh.after Site.replies).database, true, true⟩ rfl
  rw [hadded] at hlast
  obtain ⟨xs, ys, hxs, hys, hbegins⟩ := hgrows (Site.replies.take 14) (List.take_prefix ..)
    ⟨(Site.fresh.after (Site.replies.take 14)).database, true, true⟩ _ rfl rfl
  cases hlast.symm.trans hys
  exact ⟨hlast, xs, hxs, hbegins⟩

end ReviewQueue
