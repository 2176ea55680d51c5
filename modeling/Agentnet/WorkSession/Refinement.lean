import Agentnet.Machine
import Agentnet.WorkSession.Record

/-! The requester's cell refines the abstract requester: every transaction is one of
its steps. -/

namespace Agentnet
open Agentnet.Lib
open WorkSession WorkSession.Protocol
open Request (JsonObject)

variable {δ : Type}

/-- The tuple a `ws.state` body carries. -/
def WorkSession.StateBody.tuple? (b : StateBody) : Option Tuple :=
  match stateOf b.state b.outcome with
  | .ok state => some ⟨state, b.seq, b.round⟩
  | .error _ => none

def MailBody.tuple? : MailBody → Option Tuple
  | .state b => b.tuple?
  | _ => none

def announced (sent : List Mail) : List Tuple := sent.filterMap fun m => m.body.tuple?

/-- What the protocol sees of an outgoing request. -/
def Request.Row.out (r : Request.Row) : Out JsonObject := ⟨r.state, r.stateSeq, ⟨r.note, r.result⟩⟩

def WorkSession.Session.authorityRow (s : Session) : AuthorityRow JsonObject := ⟨⟨s.state, s.seq, s.round⟩, s.result⟩

def Cell.requester (c : Cell δ) : Requester JsonObject JsonObject where
  out := c.request.map Request.Row.out
  session := c.session.map Session.authorityRow
  announced := announced c.sent
  closes := c.revocations

/-- The D14 part of a stored session result, as the request stores it. -/
def d14Part (stored : JsonObject) : Option JsonObject :=
  match decodeStoredResult stored with
  | .ok result => some (Request.resultCanonicalValue result.d14)
  | .error _ => none

@[simp] theorem announced_append (sent : List Mail) (m : Mail) :
    announced (sent ++ [m]) = announced sent ++ m.body.tuple?.toList := by
  cases h : m.body.tuple? <;> simp [announced, h]

@[simp] theorem stateOf_name (s : WorkSession.State) : stateOf s.name s.outcome = .ok s := by
  cases s <;> rfl

@[simp] theorem tuple_stateBody (row : Session) (seq : Nat) (s : WorkSession.State)
    (verification changes : String) (now : Time) :
    (stateBody row seq s verification changes now).tuple? = some ⟨s, seq, row.round⟩ := by
  simp [StateBody.tuple?, stateBody]

/-! ## The shared steps -/

variable {c c' : Cell δ} {cancelledBy : Option CancelledBy} {now : Time} {outcome : Outcome} {row : Session}
  {verification note reason : String} {verificationBy : Option Role} {result : Option Request.Result}
  {f : Request.Row → Request.Row} {request : Option Request.Row} {sent : List Mail}
  {content : Content JsonObject} {k : Key} {w : Wiring δ} {mail : Request.Delivery}

theorem writeExperienceTx_ok
    (h : writeExperienceTx c row outcome verification verificationBy cancelledBy now = .ok c') :
    c.experience = [] ∧ ∃ record, c' = { c with experience := [record] } := by
  simp only [writeExperienceTx, Cell.insertExperience, bind_eq_ok, require_eq_ok] at h
  obtain ⟨_, unique, done⟩ := h
  cases done
  exact ⟨unique, _, by rw [unique]; rfl⟩

theorem setOutContentTx_ok (h : Request.setOutContentTx c note result now = .ok c') :
    ∃ stored, Request.storedResult result = .ok stored ∧ c' = c.updateRequest fun r => if r.state = .completed then
        { r with note := nullIfEmpty note, result := stored, updated := storeTime now }
      else r := by
  simp only [Request.setOutContentTx, bind_eq_ok] at h
  obtain ⟨stored, canonical, done⟩ := h
  cases done
  exact ⟨stored, canonical, rfl⟩

theorem requesterView_ok {stored : Option JsonObject} (h : requesterView row outcome = .ok (note, result))
    (canonical : Request.storedResult result = .ok stored) :
    view d14Part outcome row.result = some ⟨nullIfEmpty note, stored⟩ := by
  cases outcome with
  | cancelled =>
    cases h
    cases canonical
    rfl
  | accepted =>
    cases held : row.result with
    | none =>
      simp only [requesterView, held] at h
      cases h
      cases canonical
      rfl
    | some x =>
      simp only [requesterView, held, bind_eq_ok] at h
      obtain ⟨decoded, readable, done⟩ := h
      cases done
      simp only [Request.storedResult] at canonical
      split at canonical
      · cases canonical
        simp only [view, d14Part, readable]
        rfl
      · cases canonical

structure SettledBy (content : Content JsonObject) (f : Request.Row → Request.Row) : Prop where
  out : ∀ r, (f r).out = r.out.settle content
  keeps : ∀ r, (f r).typ = r.typ ∧ (f r).body = r.body

theorem writeRequesterViewTx_ok (work : row.kind = .work) (h : writeRequesterViewTx c row outcome now = .ok c') :
    ∃ content f, view d14Part outcome row.result = some content ∧ SettledBy content f ∧ c' = c.updateRequest f := by
  simp only [writeRequesterViewTx, work, bind_eq_ok] at h
  obtain ⟨⟨note, result⟩, shown, done⟩ := h
  obtain ⟨stored, canonical, rfl⟩ := setOutContentTx_ok done
  refine ⟨_, _, requesterView_ok shown canonical, ⟨fun r => ?_, fun r => ?_⟩, rfl⟩
  · by_cases completed : r.state = .completed <;> simp [Request.Row.out, Out.settle, completed]
  · split <;> exact ⟨rfl, rfl⟩

/-- The cell after a close: the row, the record, the grants, the experience record and
the announcement move together. -/
structure ClosedTo (c : Cell δ) (row : Session) (content : Content JsonObject) (c' : Cell δ) :
    Prop where
  unique : c.experience = []
  cell : ∃ body f record grants sentAt, SettledBy content f ∧ row.lastState = some body ∧
    body.tuple? = some row.authorityRow.toTuple ∧ c' = { c with
      session := some row, request := c.request.map f, grants := grants
      revocations := c.revocations + 1, experience := [record]
      sent := c.sent ++ [⟨sentAt, .state body⟩] }

/-- `closeSessionTx` of the cell's own work session. -/
theorem closeSessionTx_ok (opened : c.session = some row) (work : row.kind = .work)
    (h : closeSessionTx c row outcome verification verificationBy cancelledBy now = .ok c') :
    ∃ content row', view d14Part outcome row.result = some content ∧
      row'.authorityRow = ⟨⟨.closed outcome, row.seq + 1, row.round⟩, row.result⟩ ∧
      row'.role = row.role ∧ row'.kind = row.kind ∧ ClosedTo c row' content c' := by
  simp only [closeSessionTx, bind_eq_ok] at h
  obtain ⟨viewed, wrote, recorded⟩ := h
  obtain ⟨content, f, shown, settled, rfl⟩ := writeRequesterViewTx_ok work wrote
  obtain ⟨unique, record, rfl⟩ := writeExperienceTx_ok recorded
  simp only [sendState, Cell.updateSession, Cell.submitTx, Cell.updateRequest, Cell.revokeGrants, opened,
    Option.map_some] at unique ⊢
  refine ⟨content, _, shown, ?_, ?_, ?_, unique, _, f, record, _, _, settled, ?_, ?_, rfl⟩
  · rfl
  · rfl
  · rfl
  · rfl
  · exact tuple_stateBody ..

/-! ## The cell of a request that is no debate -/

/-- The requester's request is no debate, and every `request` mail carries its body. -/
structure OutRequest (request : Option Request.Row) (sent : List Mail) : Prop where
  typ : ∀ r, request = some r → r.typ ≠ .debate
  body : ∀ r b, request = some r → r.body = some b → b.type = r.typ
  sent : ∀ m ∈ sent, ∀ b, m.body = .request b → ∃ r, request = some r ∧ r.body = some b

/-- A change of the row that keeps its type and body. -/
theorem OutRequest.map (h : OutRequest request sent)
    (keeps : ∀ r, (f r).typ = r.typ ∧ (f r).body = r.body) : OutRequest (request.map f) sent where
  typ := by
    intro r known
    obtain ⟨r₀, known₀, rfl⟩ := Option.map_eq_some_iff.mp known
    rw [(keeps r₀).1]
    exact h.typ r₀ known₀
  body := by
    intro r b known stored
    obtain ⟨r₀, known₀, rfl⟩ := Option.map_eq_some_iff.mp known
    rw [(keeps r₀).1]
    exact h.body r₀ b known₀ ((keeps r₀).2 ▸ stored)
  sent := by
    intro m member b carried
    obtain ⟨r, known, stored⟩ := h.sent m member b carried
    exact ⟨f r, by rw [known, Option.map_some], (keeps r).2.trans stored⟩

theorem OutRequest.append {m : Mail} (h : OutRequest request sent)
    (carries : ∀ b, m.body = .request b → ∃ r, request = some r ∧ r.body = some b) :
    OutRequest request (sent ++ [m]) where
  __ := h
  sent := by
    intro m' member b carried
    rcases List.mem_append.mp member with old | new
    · exact h.sent m' old b carried
    · rw [List.mem_singleton.mp new] at carried
      exact carries b carried

theorem OutRequest.append_state (h : OutRequest request sent) (created : WireTime) (body : StateBody) :
    OutRequest request (sent ++ [⟨created, .state body⟩]) :=
  h.append fun _ carried => by cases carried

/-- What holds of the requester's cell: a work session of its own role whose last
announcement was sent, and one experience record per close. -/
structure RequesterCell (c : Cell δ) : Prop where
  request : OutRequest c.request c.sent
  session : ∀ s, c.session = some s → s.role = .requester ∧ s.kind = .work
  echo : ∀ s b, c.session = some s → s.lastState = some b → ∃ m ∈ announced c.sent, b.tuple? = some m
  records : c.experience.length = c.revocations

/-- A transaction keeps the cell in shape and is a step of the abstract requester. -/
structure Refines (arrived : Nat → JsonObject → Prop) (c : Cell δ) (label : Requester.Label)
    (c' : Cell δ) : Prop where
  cell : RequesterCell c'
  step : c.requester.Step d14Part arrived label c'.requester

variable {arrived : Nat → JsonObject → Prop} {c c' : Cell δ} {row : Session}

theorem findRow_eq_ok : findRow c = .ok row ↔ c.session = some row := by
  unfold findRow
  split <;> simp [*]

theorem session_requester (opened : c.session = some row) : c.requester.session = some row.authorityRow := by
  simp only [Cell.requester, opened, Option.map_some]

theorem row_requester (opened : c.session = some row) : c.requester.row = row.authorityRow :=
  Requester.row_of_session (session_requester opened)

/-- The cell after a close, as the protocol sees it. -/
theorem ClosedTo.requester (closed : ClosedTo c row content c') (isClosed : row.state.isClosed = true) :
    c'.requester = c.requester.close row.authorityRow content := by
  obtain ⟨_, body, f, record, grants, sentAt, settled, _, tuple, rfl⟩ := closed
  simp only [Cell.requester, Requester.close, Requester.move, announced_append, MailBody.tuple?,
    tuple, Option.toList_some, Option.map_map, Option.map_some, Session.authorityRow, isClosed,
    Bool.toNat_true, Requester.mk.injEq, and_true]
  congr 1
  funext r
  exact settled.out r

theorem ClosedTo.requesterCell (cell : RequesterCell c)
    (closed : ClosedTo c row content c') (role : row.role = .requester) (work : row.kind = .work) :
    RequesterCell c' := by
  obtain ⟨unique, body, f, record, grants, sentAt, settled, last, tuple, rfl⟩ := closed
  constructor
  · exact (cell.request.map settled.keeps).append_state ..
  · rintro s ⟨⟩
    exact ⟨role, work⟩
  · rintro s b ⟨⟩ last'
    cases last.symm.trans last'
    exact ⟨_, by simp [MailBody.tuple?, tuple], tuple⟩
  · have none := cell.records
    rw [unique] at none
    simp only [List.length_singleton, ← none, List.length_nil]

/-- The cell after a transition that does not close: the row and its announcement. -/
def MovedTo (c : Cell δ) (row : Session) (c' : Cell δ) : Prop :=
  ∃ body sentAt, row.lastState = some body ∧ body.tuple? = some row.authorityRow.toTuple ∧
    c' = { c with session := some row, sent := c.sent ++ [⟨sentAt, .state body⟩] }

/-- `sendState` and the update of the row that follows it. -/
theorem sendState_moved {body : StateBody} {f : Session → Session}
    (opened : c.session = some row) (keeps : ∀ r, (f r).lastState = r.lastState)
    (tuple : body.tuple? = some (f { row with
      lastState := some body, lastStateSent := some (storeTime now) }).authorityRow.toTuple) :
    MovedTo c (f { row with lastState := some body, lastStateSent := some (storeTime now) })
      ((sendState c body now).updateSession f) := by
  refine ⟨body, wireTime now, keeps _, tuple, ?_⟩
  simp only [sendState, Cell.updateSession, Cell.submitTx, opened, Option.map_some]

/-- The cell after a move, as the protocol sees it. -/
theorem MovedTo.requester (moved : MovedTo c row c') (live : row.state.isClosed = false) :
    c'.requester = c.requester.move row.authorityRow := by
  obtain ⟨body, sentAt, _, tuple, rfl⟩ := moved
  simp only [Cell.requester, Requester.move, announced_append, MailBody.tuple?, tuple,
    Option.toList_some, Option.map_some, Session.authorityRow, live, Bool.toNat_false, Nat.add_zero]

theorem MovedTo.requesterCell (cell : RequesterCell c) (moved : MovedTo c row c')
    (role : row.role = .requester) (work : row.kind = .work) : RequesterCell c' := by
  obtain ⟨body, sentAt, last, tuple, rfl⟩ := moved
  constructor
  · exact cell.request.append_state ..
  · rintro s ⟨⟩
    exact ⟨role, work⟩
  · rintro s b ⟨⟩ last'
    cases last.symm.trans last'
    exact ⟨_, by simp [MailBody.tuple?, tuple], tuple⟩
  · exact cell.records

theorem MovedTo.refines {label : Requester.Label} (cell : RequesterCell c)
    (moved : MovedTo c row c') (role : row.role = .requester) (work : row.kind = .work)
    (live : row.state.isClosed = false) (step : c.requester.Step d14Part arrived label
      (c.requester.move row.authorityRow)) : Refines arrived c label c' :=
  ⟨moved.requesterCell cell role work, moved.requester live ▸ step⟩

/-- A close of the code is a close of the protocol. -/
theorem ClosedTo.refines (cell : RequesterCell c)
    (closed : ClosedTo c row content c') (role : row.role = .requester) (work : row.kind = .work)
    (isClosed : row.state.isClosed = true) (step : c.requester.Step d14Part arrived .plain
      (c.requester.close row.authorityRow content)) : Refines arrived c .plain c' :=
  ⟨closed.requesterCell cell role work, closed.requester isClosed ▸ step⟩

/-! ## The requester's own transitions -/

theorem accept_refines (cell : RequesterCell c) (opened : c.session = some row)
    (awaiting : row.state = .awaitingResult)
    (h : closeSessionTx c row .accepted verification verificationBy none now = .ok c') :
    Refines arrived c .plain c' := by
  obtain ⟨role, work⟩ := cell.session row opened
  obtain ⟨content, row', shown, same, role', work', closed⟩ := closeSessionTx_ok opened work h
  have isClosed : row'.state = .closed .accepted := congrArg (fun r => r.state) same
  refine closed.refines cell (role'.trans role) (work'.trans work) (by rw [isClosed]; rfl) ?_
  rw [same]
  have own := row_requester opened
  have step : c.requester.Step d14Part arrived .plain _ :=
    .accepts content (by rw [own]; exact awaiting) (by rw [own]; exact shown)
  rwa [own] at step

theorem acceptResult_refines (cell : RequesterCell c) (h : acceptResult c now = .ok c') :
    Refines arrived c .plain c' := by
  simp only [acceptResult, bind_eq_ok, require_eq_ok, findRow_eq_ok] at h
  obtain ⟨row, opened, _, _, _, _, _, awaiting, close⟩ := h
  exact accept_refines cell opened awaiting close

theorem acceptResultInTx_refines (cell : RequesterCell c) (h : acceptResultInTx c now = .ok c') :
    Refines arrived c .plain c' := by
  simp only [acceptResultInTx, bind_eq_ok, require_eq_ok, findRow_eq_ok] at h
  obtain ⟨row, opened, _, _, _, _, _, awaiting, close⟩ := h
  exact accept_refines cell opened awaiting close

theorem requestChanges_refines {changes : String} (cell : RequesterCell c)
    (h : requestChanges c changes now = .ok c') : Refines arrived c .reopening c' := by
  simp only [requestChanges, bind_eq_ok, require_eq_ok, findRow_eq_ok] at h
  obtain ⟨_, _, row, opened, _, role, _, work, _, review, done⟩ := h
  cases done
  refine MovedTo.refines cell (sendState_moved opened (fun _ => rfl) (tuple_stateBody ..)) role work rfl ?_
  have own := row_requester opened
  have step : c.requester.Step d14Part arrived .reopening _ :=
    .reopens (by rw [own]; exact State.underReview_iff.mpr review)
  rwa [own] at step

theorem releaseInTx_refines (cell : RequesterCell c) (h : releaseInTx c now = .ok c') :
    Refines arrived c .plain c' := by
  simp only [releaseInTx, bind_eq_ok, require_eq_ok, findRow_eq_ok] at h
  obtain ⟨row, opened, _, role, _, work, _, quarantined, done⟩ := h
  cases done
  refine MovedTo.refines cell (sendState_moved opened (fun _ => rfl) (tuple_stateBody ..)) role work rfl ?_
  have own := row_requester opened
  have step : c.requester.Step d14Part arrived .plain _ := .releases (by rw [own]; exact quarantined)
  rwa [own] at step

theorem view_cancelled {result : Option JsonObject} (shown : view d14Part .cancelled result = some content) :
    content = .cancelled :=
  (Option.some.inj shown).symm

theorem discard_refines (cell : RequesterCell c) (h : WorkSession.discard c now = .ok c') :
    Refines arrived c .plain c' := by
  simp only [WorkSession.discard, bind_eq_ok, require_eq_ok, findRow_eq_ok] at h
  obtain ⟨row, opened, _, role, _, work, _, quarantined, viewed, wrote, recorded⟩ := h
  obtain ⟨content, f, shown, settled, rfl⟩ := writeRequesterViewTx_ok work wrote
  obtain ⟨unique, record, rfl⟩ := writeExperienceTx_ok recorded
  simp only [sendState, Cell.updateSession, Cell.submitTx, Cell.updateRequest, Cell.revokeGrants, opened,
    Option.map_some] at unique ⊢
  refine ClosedTo.refines cell ⟨unique, _, f, record, _, _, settled, ?last, ?tuple, rfl⟩ role work rfl ?step
  case last => rfl
  case tuple => exact tuple_stateBody ..
  rw [view_cancelled shown]
  have own := row_requester opened
  have step : c.requester.Step d14Part arrived .plain _ := .discards (by rw [own]; exact quarantined)
  rwa [own] at step

structure CancelsOpen (c c' : Cell δ) : Prop where
  cell : RequesterCell c'
  requester : c'.requester = c.requester.cancelOpen

theorem CancelsOpen.refines (h : CancelsOpen c c') : Refines arrived c .plain c' := ⟨h.cell, h.requester ▸ .cancels⟩

theorem CancelsOpen.of_unopened (cell : RequesterCell c) (unopened : c.session = none) : CancelsOpen c c := by
  refine ⟨cell, ?_⟩
  simp only [Requester.cancelOpen, Cell.requester, unopened, Option.map_none]

theorem CancelsOpen.of_notOpen (cell : RequesterCell c) (opened : c.session = some row)
    (notOpen : row.state ≠ .open) : CancelsOpen c c := by
  refine ⟨cell, ?_⟩
  rw [Requester.cancelOpen, session_requester opened]
  exact (if_neg notOpen).symm

theorem closeSessionTx_cancelsOpen (cell : RequesterCell c) (opened : c.session = some row)
    (isOpen : row.state = .open) (h : closeSessionTx c row .cancelled "" none cancelledBy now = .ok c') :
    CancelsOpen c c' := by
  obtain ⟨role, work⟩ := cell.session row opened
  obtain ⟨content, row', shown, same, role', work', closed⟩ := closeSessionTx_ok opened work h
  have isClosed : row'.state = .closed .cancelled := congrArg (fun r => r.state) same
  refine ⟨closed.requesterCell cell (role'.trans role) (work'.trans work), ?_⟩
  rw [closed.requester (by rw [isClosed]; rfl), same, view_cancelled shown, Requester.cancelOpen,
    session_requester opened]
  exact (if_pos isOpen).symm

theorem cancel_refines (cell : RequesterCell c) (h : WorkSession.cancel w k c reason now = .ok c') :
    Refines arrived c .plain c' := by
  simp only [WorkSession.cancel, bind_eq_ok, require_eq_ok, findRow_eq_ok] at h
  obtain ⟨_, _, row, opened, _, _, _, isOpen, close⟩ := h
  rw [(cell.session row opened).2] at close
  exact (closeSessionTx_cancelsOpen cell opened isOpen close).refines

/-! ## Transactions that leave the session alone -/

/-- What the protocol does not see. -/
theorem Refines.quiet (cell : RequesterCell c') (same : c'.requester = c.requester) : Refines arrived c .plain c' :=
  ⟨cell, same ▸ .idle⟩

theorem RequesterCell.updateRequest (cell : RequesterCell c)
    (keeps : ∀ r, (f r).typ = r.typ ∧ (f r).body = r.body) : RequesterCell (c.updateRequest f) where
  request := cell.request.map keeps
  __ := cell

theorem requester_updateRequest (f : Request.Row → Request.Row) (g : Out JsonObject → Out JsonObject)
    (out : ∀ r, (f r).out = g r.out) :
    (c.updateRequest f).requester = { c.requester with out := c.requester.out.map g } := by
  simp only [Cell.requester, Cell.updateRequest, Option.map_map]
  congr 2
  exact funext out

theorem requester_updateRequest_keep (out : ∀ r, (f r).out = r.out) :
    (c.updateRequest f).requester = c.requester := by
  rw [requester_updateRequest f id out, Option.map_id, id]

theorem RequesterCell.submitTx (cell : RequesterCell c) (now : Time) (body : MailBody) (silent : body.tuple? = none)
    (carries : ∀ b, body = .request b → ∃ r, c.request = some r ∧ r.body = some b) :
    RequesterCell (c.submitTx now body) where
  request := cell.request.append carries
  __ := cell
  echo := by simpa [Cell.submitTx, silent] using cell.echo

theorem requester_submitTx (c : Cell δ) (now : Time) (body : MailBody)
    (silent : body.tuple? = none) : (c.submitTx now body).requester = c.requester := by
  simp [Cell.requester, Cell.submitTx, silent]

theorem submit_refines {p : Request.SubmitParams} {used : Nat} {taken : Bool} (cell : RequesterCell c)
    (h : Request.submit w k c p used taken .ok (fun _ c => .ok c) now = .ok c') : Refines arrived c .plain c' := by
  simp only [Request.submit, Request.insertOut, ok_bind, bind_eq_ok, require_eq_ok] at h
  obtain ⟨_, valid, canon, _, _, _, stored, ⟨_, ⟨_, fresh⟩, inserted⟩, done⟩ := h
  cases inserted
  cases done
  have unknown : c.request = none := Option.isNone_iff_eq_none.mp fresh
  have checked : Request.validate (p.request w.self k used now) = .ok () := by
    unfold orField at valid
    split at valid
    · next ok => exact ok
    · cases valid
  refine ⟨⟨⟨?_, ?_, ?_⟩, cell.session, ?_, cell.records⟩, ?_⟩
  · rintro r ⟨⟩
    exact Request.type_of_undebated checked rfl
  · rintro r b ⟨⟩ ⟨⟩
    rfl
  · intro m member b carried
    rcases List.mem_append.mp member with old | new
    · obtain ⟨r, known, _⟩ := cell.request.sent m old b carried
      cases unknown.symm.trans known
    · rw [List.mem_singleton.mp new] at carried
      cases carried
      exact ⟨_, rfl, rfl⟩
  · simpa [Cell.submitTx, MailBody.tuple?] using cell.echo
  · have step : c.requester.Step d14Part arrived .plain _ :=
      .submits (by simp only [Cell.requester, unknown, Option.map_none])
    have same := requester_submitTx c now (.request (p.request w.self k used now)) rfl
    rw [← same] at step ⊢
    exact step

theorem cancelRequest_refines (cell : RequesterCell c) (h : Request.cancel k c reason mail now = .ok c') :
    Refines arrived c .plain c' := by
  simp only [Request.cancel, bind_eq_ok] at h
  obtain ⟨_, _, row, _, h⟩ := h
  split at h
  · cases h
    exact .quiet cell rfl
  · simp only [bind_eq_ok] at h
    obtain ⟨_, _, h⟩ := h
    split at h
    · cases h
      exact .quiet cell rfl
    · cases h
      have carries : ∀ b, MailBody.cancel { at' := wireTime now, request := k.id, reason } =
          .request b → ∃ r, c.request = some r ∧ r.body = some b := fun _ carried => by cases carried
      exact .quiet ((cell.submitTx now _ rfl carries).updateRequest fun _ => ⟨rfl, rfl⟩)
        ((requester_updateRequest_keep (by exact fun _ => rfl)).trans (requester_submitTx c now _ rfl))

theorem resendRequest_refines (cell : RequesterCell c) (h : Request.resend k c mail now = .ok c') :
    Refines arrived c .plain c' := by
  simp only [Request.resend, bind_eq_ok] at h
  obtain ⟨row, found, _, _, _, _, _, _, _, _, h⟩ := h
  have known : c.request = some row := by
    unfold Request.findOutRow at found
    split at found
    · next known =>
      cases found
      exact known
    · cases found
  split at h
  · cases h
  · next body stored =>
    cases h
    have carries : ∀ b, MailBody.request body = .request b → ∃ r, c.request = some r ∧ r.body = some b := by
      rintro b ⟨⟩
      exact ⟨row, known, stored⟩
    exact .quiet ((cell.submitTx now _ rfl carries).updateRequest fun _ => ⟨rfl, rfl⟩)
      ((requester_updateRequest_keep (by exact fun _ => rfl)).trans (requester_submitTx c now _ rfl))

theorem resendLastState_refines (cell : RequesterCell c) : Refines arrived c .plain (resendLastState c now) := by
  unfold resendLastState
  split
  · exact .quiet cell rfl
  · next row opened =>
    split
    · exact .quiet cell rfl
    · next body last =>
      split
      · exact .quiet cell rfl
      · obtain ⟨m, old, tuple⟩ := cell.echo row body opened last
        have same : ((c.updateSession fun r =>
            { r with lastStateSent := some (storeTime now) }).submitTx now (.state body)).requester
            = { c.requester with announced := c.requester.announced ++ [m] } := by
          simp [Cell.requester, Cell.submitTx, Cell.updateSession, opened, MailBody.tuple?, tuple,
            Session.authorityRow]
        refine ⟨⟨cell.request.append_state .., ?_, ?_, cell.records⟩, same ▸ .echoes m old⟩
        · simp only [Cell.submitTx, Cell.updateSession, opened, Option.map_some]
          rintro s ⟨⟩
          exact cell.session row opened
        · simp only [Cell.submitTx, Cell.updateSession, opened, Option.map_some]
          rintro s b ⟨⟩ last'
          cases last.symm.trans last'
          exact ⟨m, by simp [MailBody.tuple?, tuple], tuple⟩

/-- Every operation of the requester is a step of the protocol. -/
theorem RequesterOp.refines {op : RequesterOp} (cell : RequesterCell c) (h : op.run w k c now = .ok c') :
    ∃ label, Refines arrived c label c' ∧ label ≠ .opening ∧
    (label = .reopening → ∃ changes, op = .requestChanges changes) := by
  cases op with
  | submit p used taken => exact ⟨_, submit_refines cell h, (by simp), (by simp)⟩
  | cancelRequest reason mail => exact ⟨_, cancelRequest_refines cell h, (by simp), (by simp)⟩
  | resendRequest mail => exact ⟨_, resendRequest_refines cell h, (by simp), (by simp)⟩
  | acceptResult => exact ⟨_, acceptResult_refines cell h, (by simp), (by simp)⟩
  | acceptResultInTx => exact ⟨_, acceptResultInTx_refines cell h, (by simp), (by simp)⟩
  | requestChanges changes => exact ⟨_, requestChanges_refines cell h, (by simp), fun _ => ⟨changes, rfl⟩⟩
  | discard => exact ⟨_, discard_refines cell h, (by simp), (by simp)⟩
  | cancel reason => exact ⟨_, cancel_refines cell h, (by simp), (by simp)⟩
  | releaseInTx => exact ⟨_, releaseInTx_refines cell h, (by simp), (by simp)⟩
  | resendLastState =>
    cases h
    exact ⟨_, resendLastState_refines cell, (by simp), (by simp)⟩
  | grants gs =>
    cases h
    exact ⟨_, .quiet { cell with } rfl, (by simp), (by simp)⟩

end Agentnet
