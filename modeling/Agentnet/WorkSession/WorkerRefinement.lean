import Agentnet.WorkSession.WorkerRecord
import Agentnet.WorkSession.Refinement

/-! The worker's cell refines the abstract worker: every transaction is one of its
steps. -/

namespace Agentnet
open Agentnet.Lib
open WorkSession WorkSession.Protocol
open Request (JsonObject)

variable {δ : Type}

def Request.Row.numbered (r : Request.Row) : Numbered := ⟨r.state, r.stateSeq⟩

def Request.Reply.numbered (r : Request.Reply) : Numbered := ⟨r.content.state, r.seq⟩

def WorkSession.Session.mirrored (s : Session) : MirrorRow JsonObject :=
  ⟨⟨s.state, s.seq, s.round⟩, s.result, s.resultRound⟩

def MailBody.numbered? : MailBody → Option Numbered
  | .reply r => some r.numbered
  | _ => none

def MailBody.submitted? : MailBody → Option (Nat × JsonObject)
  | .result b => some (b.round, b.result)
  | _ => none

def replied (sent : List Mail) : List Numbered := sent.filterMap fun m => m.body.numbered?

/-- The results among the sent mails. -/
def submitted (sent : List Mail) : List (Nat × JsonObject) := sent.filterMap fun m => m.body.submitted?

/-- What the protocol sees of the worker's cell. -/
def Cell.worker (c : Cell δ) : Worker JsonObject where
  request := c.request.map Request.Row.numbered
  tombstone := c.tombstone.map Tombstone.receivedAt
  session := c.session.map Session.mirrored
  submitted := submitted c.sent
  closes := c.revocations
  replies := replied c.sent

@[simp] theorem replied_append (sent : List Mail) (m : Mail) :
    replied (sent ++ [m]) = replied sent ++ m.body.numbered?.toList := by
  cases h : m.body.numbered? <;> simp [replied, h]

@[simp] theorem submitted_append (sent : List Mail) (m : Mail) :
    submitted (sent ++ [m]) = submitted sent ++ m.body.submitted?.toList := by
  cases h : m.body.submitted? <;> simp [submitted, h]

/-- What holds of the worker's cell: no debate, a work session of its own role, the last
reply is that of the row, and every result it sent is a valid one in canonical form. -/
structure WorkerCell (c : Cell δ) : Prop where
  typ : ∀ r, c.request = some r → r.typ ≠ .debate
  session : ∀ s, c.session = some s → s.role = .worker ∧ s.kind = .work
  echo : ∀ r reply, c.request = some r → r.lastReply = some reply → reply.numbered = r.numbered
  results : ∀ m ∈ c.sent, ∀ b, m.body = .result b → ∃ r, validateResult r = .ok () ∧ b.result = resultCanonicalValue r
  records : c.experience.length = c.revocations

theorem WorkerCell.blank (undebated : δ) : WorkerCell ({ debate := undebated } : Cell δ) where
  typ := by simp
  session := by simp
  echo := by simp
  results := by simp
  records := rfl

/-- A transaction keeps the cell in shape and is a step of the abstract worker. -/
structure WorkerRefines (announced : Tuple → Prop) (c : Cell δ) (label : Worker.Label)
    (c' : Cell δ) : Prop where
  cell : WorkerCell c'
  step : c.worker.Step announced label c'.worker

variable {announced : Tuple → Prop} {c c' : Cell δ} {row : Session} {w : Wiring δ} {k : Key}
  {now : Time}

/-- What the protocol does not see. -/
theorem WorkerRefines.quiet (cell : WorkerCell c') (same : c'.worker = c.worker) :
    WorkerRefines announced c .plain c' :=
  ⟨cell, same ▸ .idle⟩

theorem session_worker (opened : c.session = some row) : c.worker.session = some row.mirrored := by
  simp only [Cell.worker, opened, Option.map_some]

theorem row_worker (opened : c.session = some row) : c.worker.row = row.mirrored :=
  Worker.row_of_session (session_worker opened)

variable {r : Request.Row} {f : Session → Session} {tb : Request.TransitionBuild}
  {build : Request.Row → Nat → Except Error Request.TransitionBuild} {reason note : String}
  {result : WorkSession.Result} {submitter : Submitter} {found : Bool} {b : StateBody}
  {state : WorkSession.State} {created : WireTime} {intake : Request.Intake} {tombstones : Nat}

theorem request_worker (known : c.request = some r) : c.worker.request = some r.numbered := by
  simp only [Cell.worker, known, Option.map_some]

/-! ## Frames -/

/-- A mail that is queued keeps the cell. -/
theorem WorkerCell.submitTx (cell : WorkerCell c) (now : Time) (body : MailBody) (valid : ∀ b, body = .result b →
      ∃ r, validateResult r = .ok () ∧ b.result = resultCanonicalValue r) : WorkerCell (c.submitTx now body) where
  __ := cell
  results := by
    intro m member b isResult
    rcases List.mem_append.mp member with old | new
    · exact cell.results m old b isResult
    · rw [List.mem_singleton.mp new] at isResult
      exact valid b isResult

theorem WorkerCell.submitReply (cell : WorkerCell c) (now : Time) (reply : Request.Reply) :
    WorkerCell (c.submitTx now (.reply reply)) :=
  cell.submitTx now _ fun _ isResult => by cases isResult

theorem worker_submitReply (c : Cell δ) (now : Time) (reply : Request.Reply) :
    (c.submitTx now (.reply reply)).worker = { c.worker with replies := c.worker.replies ++ [reply.numbered] } := by
  simp [Cell.worker, Cell.submitTx, MailBody.numbered?, MailBody.submitted?]

theorem WorkerCell.setRequest (cell : WorkerCell c) (typ : r.typ ≠ .debate)
    (echo : ∀ reply, r.lastReply = some reply → reply.numbered = r.numbered) :
    WorkerCell { c with request := some r } where
  typ := by
    rintro r' ⟨⟩
    exact typ
  __ := cell
  echo := by
    rintro r' reply ⟨⟩ last
    exact echo reply last

theorem WorkerCell.setTombstone (cell : WorkerCell c) (t : Option Tombstone) :
    WorkerCell { c with tombstone := t } := { cell with }

theorem WorkerCell.setSession (cell : WorkerCell c)
    (keeps : ∀ s, (f s).role = s.role ∧ (f s).kind = s.kind) : WorkerCell (c.updateSession f) where
  __ := cell
  session := by
    intro s opened
    obtain ⟨s₀, opened₀, rfl⟩ := Option.map_eq_some_iff.mp opened
    rw [(keeps s₀).1, (keeps s₀).2]
    exact cell.session s₀ opened₀

theorem worker_updateSession_keep (keeps : ∀ s, (f s).mirrored = s.mirrored) :
    (c.updateSession f).worker = c.worker := by
  simp only [Cell.worker, Cell.updateSession, Option.map_map]
  congr 2
  exact funext keeps

/-! ## The worker's own transitions of the request -/

/-- A transition's own columns leave the state, its number and the reply alone. -/
structure OwnColumns (f : Request.Row → Request.Row) : Prop where
  typ : ∀ r, (f r).typ = r.typ
  numbered : ∀ r, (f r).numbered = r.numbered
  lastReply : ∀ r, (f r).lastReply = r.lastReply

theorem transitionRow_spec (own : OwnColumns tb.extra) (reply : Request.Reply) (now : Time) (r : Request.Row) :
    (Request.transitionRow tb reply now r).typ = r.typ ∧
    (Request.transitionRow tb reply now r).numbered = ⟨tb.content.state, reply.seq⟩ ∧
      (Request.transitionRow tb reply now r).lastReply = some reply := by
  unfold Request.transitionRow
  dsimp only
  split
  · exact ⟨own.typ _, own.numbered _, own.lastReply _⟩
  · exact ⟨own.typ _, own.numbered _, own.lastReply _⟩

theorem transitioned_worker (k : Key) (now : Time) (cell : WorkerCell c) (known : c.request = some r)
    (own : OwnColumns tb.extra) :
    WorkerCell (Request.transitioned k c r tb now) ∧ (Request.transitioned k c r tb now).worker =
        c.worker.reply ⟨tb.content.state, r.stateSeq + 1⟩ := by
  obtain ⟨typ, numbered, last⟩ := transitionRow_spec own (tb.reply k (r.stateSeq + 1) now) now r
  have updated : c.updateRequest (Request.transitionRow tb (tb.reply k (r.stateSeq + 1) now) now) =
      { c with request := some (Request.transitionRow tb (tb.reply k (r.stateSeq + 1) now) now r) } := by
    rw [Cell.updateRequest, known, Option.map_some]
  unfold Request.transitioned
  rw [updated, worker_submitReply]
  refine ⟨(cell.setRequest ?_ ?_).submitReply now _, ?_⟩
  · rw [typ]
    exact cell.typ r known
  · intro reply last'
    cases last.symm.trans last'
    exact numbered.symm
  · simp only [Cell.worker, Worker.reply, Option.map_some, numbered]
    rfl

theorem transitioned_refines {label : Worker.Label} (cell : WorkerCell c) (known : c.request = some r)
    (own : OwnColumns tb.extra)
    (step : c.worker.Step announced label (c.worker.reply ⟨tb.content.state, r.stateSeq + 1⟩)) :
    WorkerRefines announced c label (Request.transitioned k c r tb now) := by
  obtain ⟨cell', same⟩ := transitioned_worker k now cell known own
  exact ⟨cell', same ▸ step⟩

theorem openSession_worker {teamID : TeamID} (cell : WorkerCell c)
    (h : openSession w k .worker c teamID now = .ok c') :
    WorkerCell c' ∧ c'.worker = { c.worker with session := some c.worker.row } := by
  rcases openSession_ok cell.typ h with ⟨isSome, rfl⟩ | ⟨unopened, sid, rfl⟩
  · obtain ⟨row, opened⟩ := Option.isSome_iff_exists.mp isSome
    refine ⟨cell, ?_⟩
    rw [row_worker opened, ← session_worker opened]
  · refine ⟨{ cell with session := ?_ }, ?_⟩
    · rintro s ⟨⟩
      exact ⟨rfl, rfl⟩
    · simp only [Cell.worker, Worker.row, unopened, Option.map_none, Option.getD_none, Option.map_some]
      rfl

theorem waiting_of_allowed {state : Request.State} (allowed : Request.allowedAcceptDeclineDefer state = true) :
    state = .pending ∨ state = .deferred := by
  simpa [Request.allowedAcceptDeclineDefer] using allowed

/-- A waiting request was accepted. -/
def Accepts (c c' : Cell δ) : Prop :=
  ∃ r, c.request = some r ∧ (r.state = .pending ∨ r.state = .deferred) ∧ WorkerCell c' ∧
  c'.worker = c.worker.accept (r.stateSeq + 1)

theorem transitionTx_accepts (cell : WorkerCell c)
    (h : Request.transitionTx w k c Request.allowedAcceptDeclineDefer build now = .ok c')
    (accept : ∀ r seq tb, build r seq = .ok tb → tb.content = .accept ∧ OwnColumns tb.extra) : Accepts c c' := by
  obtain ⟨r, tb, known, allowed, built, h⟩ := Request.transitionTx_ok cell.typ h
  obtain ⟨content, own⟩ := accept r _ tb built
  rw [if_pos (by rw [content]; rfl)] at h
  obtain ⟨cell₁, same₁⟩ := transitioned_worker k now cell known own
  obtain ⟨cell₂, same₂⟩ := openSession_worker cell₁ h
  refine ⟨r, known, waiting_of_allowed allowed, cell₂, ?_⟩
  rw [same₂, same₁, content]
  rfl

theorem OwnColumns.id : OwnColumns id := ⟨fun _ => rfl, fun _ => rfl, fun _ => rfl⟩

theorem accept_worker (cell : WorkerCell c) (h : Request.accept w k c now = .ok c') : Accepts c c' := by
  refine transitionTx_accepts cell h ?_
  rintro r seq tb ⟨⟩
  exact ⟨rfl, .id⟩

theorem acceptInTx_worker {onlyType : Option Request.RequestType} (cell : WorkerCell c)
    (h : Request.acceptInTx w k c onlyType now = .ok c') : Accepts c c' := by
  refine transitionTx_accepts cell h fun r seq tb built => ?_
  rw [bind_eq_ok] at built
  obtain ⟨_, _, done⟩ := built
  cases done
  exact ⟨rfl, .id⟩

theorem transitionTx_ends (cell : WorkerCell c)
    (h : Request.transitionTx w k c Request.allowedAcceptDeclineDefer build now = .ok c')
    (kind : ∀ r seq tb, build r seq = .ok tb → OwnColumns tb.extra ∧
      (tb.content.state = .declined ∨ tb.content.state = .deferred)) : WorkerRefines announced c .plain c' := by
  obtain ⟨r, tb, known, allowed, built, h⟩ := Request.transitionTx_ok cell.typ h
  obtain ⟨own, ends⟩ := kind r _ tb built
  have notAccept : tb.content.state ≠ .accepted := by
    rcases ends with ends | ends <;> rw [ends] <;> simp
  rw [if_neg notAccept] at h
  subst h
  exact transitioned_refines cell known own
    (.ends r.numbered _ (request_worker known) (waiting_of_allowed allowed) (ends.imp_right .inl))

theorem decline_refines (cell : WorkerCell c) (h : Request.decline w k c reason now = .ok c') :
    WorkerRefines announced c .plain c' := by
  simp only [Request.decline, bind_eq_ok] at h
  obtain ⟨_, _, h⟩ := h
  refine transitionTx_ends cell h ?_
  rintro r seq tb ⟨⟩
  exact ⟨⟨fun _ => rfl, fun _ => rfl, fun _ => rfl⟩, .inl rfl⟩

theorem defer_refines {until' : Time} (cell : WorkerCell c)
    (h : Request.defer w k c until' now = .ok c') : WorkerRefines announced c .plain c' := by
  refine transitionTx_ends cell h fun r seq tb built => ?_
  simp only [bind_eq_ok] at built
  obtain ⟨_, _, _, _, done⟩ := built
  cases done
  exact ⟨⟨fun _ => rfl, fun _ => rfl, fun _ => rfl⟩, .inr rfl⟩

theorem completeTx_refines {result : Option Request.Result} (cell : WorkerCell c)
    (h : Request.completeTx w k c note result now = .ok c') : WorkerRefines announced c .direct c' := by
  simp only [Request.completeTx, bind_eq_ok] at h
  obtain ⟨stored, _, h⟩ := h
  obtain ⟨r, tb, known, allowed, built, h⟩ := Request.transitionTx_ok cell.typ h
  simp only [bind_eq_ok] at built
  obtain ⟨_, _, done⟩ := built
  cases done
  rw [if_neg (by rintro ⟨⟩)] at h
  subst h
  have accepted : r.state = .accepted := by simpa [Request.allowedComplete] using allowed
  exact transitioned_refines cell known ⟨fun _ => rfl, fun _ => rfl,
    fun _ => rfl⟩ (.completes r.numbered (request_worker known) accepted)

/-! ## The worker's side of the session -/

theorem submitResultRow_worker (cell : WorkerCell c) (valid : validateResult result = .ok ())
    (opened : c.session = some row) (h : submitResultRow c row result submitter now = .ok c') :
    row.state = .open ∧ ¬(row.result.isSome ∧ row.resultRound = some row.round) ∧
      WorkerCell c' ∧ c'.worker = c.worker.submit (resultCanonicalValue result) := by
  simp only [submitResultRow, bind_eq_ok, require_eq_ok] at h
  obtain ⟨_, _, _, _, _, ⟨isOpen, _⟩, _, first, _, _, _, _, _, _, done⟩ := h
  cases done
  refine ⟨isOpen, first, (cell.submitTx now _ ?_).setSession fun _ => ⟨rfl, rfl⟩, ?_⟩
  · rintro b ⟨⟩
    exact ⟨result, valid, rfl⟩
  · have own := row_worker opened
    simp only [Worker.submit, own]
    simp [Cell.worker, Cell.updateSession, Cell.submitTx, opened, MailBody.numbered?,
      MailBody.submitted?, Session.mirrored]

theorem submitResultTx_worker (cell : WorkerCell c) (valid : validateResult result = .ok ())
    (h : submitResultTx c result submitter now = .ok (c', found)) :
    c.session = none ∧ c' = c ∨ ∃ row, c.session = some row ∧ row.state = .open ∧
    ¬(row.result.isSome ∧ row.resultRound = some row.round) ∧
      WorkerCell c' ∧ c'.worker = c.worker.submit (resultCanonicalValue result) := by
  unfold submitResultTx at h
  split at h
  · next unopened =>
    cases h
    exact .inl ⟨unopened, rfl⟩
  · next row opened =>
    rw [bind_eq_ok] at h
    obtain ⟨c₁, sent, done⟩ := h
    cases done
    exact .inr ⟨row, opened, submitResultRow_worker cell valid opened sent⟩

theorem submitResult_refines (cell : WorkerCell c) (h : submitResult c result submitter now = .ok (c', found)) :
    WorkerRefines announced c .plain c' := by
  simp only [submitResult, bind_eq_ok] at h
  obtain ⟨_, valid, h⟩ := h
  rcases submitResultTx_worker cell (orField_eq_ok.mp valid) h with
    ⟨_, rfl⟩ | ⟨row, opened, isOpen, first, cell', same⟩
  · exact .quiet cell rfl
  · exact ⟨cell', same ▸ .submits row.mirrored _ (session_worker opened) isOpen first⟩

theorem answerQuestion_refines (cell : WorkerCell c)
    (h : answerQuestion w k c result now = .ok c') : WorkerRefines announced c .plain c' := by
  simp only [answerQuestion, bind_eq_ok] at h
  obtain ⟨_, valid, c₁, accepted, ⟨c₂, found⟩, submitted, _, isFound, done⟩ := h
  cases done
  obtain ⟨r, known, waiting, cell₁, same₁⟩ := acceptInTx_worker cell accepted
  rcases submitResultTx_worker cell₁ (orField_eq_ok.mp valid) submitted with
    ⟨unopened, _⟩ | ⟨row, opened, isOpen, first, cell₂, same₂⟩
  · have none : c₁.worker.session = none := by simp only [Cell.worker, unopened, Option.map_none]
    rw [same₁] at none
    cases none
  · have own : c.worker.row = row.mirrored := by
      have session := session_worker opened
      rw [same₁] at session
      exact Option.some.inj session
    refine ⟨cell₂, ?_⟩
    rw [same₂, same₁]
    exact .answers r.numbered _ (request_worker known) waiting (by rw [own]; exact isOpen)
      (by rw [own]; exact first)

theorem submitCancelTx_worker (cell : WorkerCell c) : WorkerCell (submitCancelTx c row reason now) ∧
      (submitCancelTx c row reason now).worker = c.worker := by
  refine ⟨(cell.submitTx now _ fun _ h => by cases h).setSession fun _ => ⟨rfl, rfl⟩, ?_⟩
  refine (worker_updateSession_keep (by exact fun _ => rfl)).trans ?_
  simp [Cell.worker, Cell.submitTx, MailBody.numbered?, MailBody.submitted?]

theorem submitCancel_refines (cell : WorkerCell c)
    (h : submitCancel w k c reason submitter now = .ok c') : WorkerRefines announced c .plain c' := by
  simp only [submitCancel, bind_eq_ok, require_eq_ok, findRow_eq_ok] at h
  obtain ⟨_, _, row, opened, _, _, _, _, _, _, h⟩ := h
  rw [(cell.session row opened).2] at h
  cases h
  split
  · exact .quiet cell rfl
  · obtain ⟨cell', same⟩ := submitCancelTx_worker cell
    exact .quiet cell' same

/-- `CompleteInTx` completes an accepted request. -/
theorem completeInTx_worker {result : Option Request.Result} (cell : WorkerCell c)
    (h : Request.completeInTx k c note result now = .ok c') :
    WorkerCell c' ∧ c'.worker = c.worker.complete ∧ ∃ r, c.request = some r ∧ r.state = .accepted := by
  obtain ⟨r, stored, known, accepted, _, rfl⟩ := Request.completeInTx_ok h
  rw [Cell.updateRequest, known, Option.map_some, worker_submitReply]
  refine ⟨(cell.setRequest ?_ ?_).submitReply now _, ?_, r, rfl, accepted⟩
  · exact cell.typ r known
  · rintro reply ⟨⟩
    rfl
  · rw [Worker.complete, request_worker known]
    dsimp only
    rw [if_pos (show r.numbered.state = .accepted from accepted)]
    rfl

theorem WorkerCell.closeSession (cell : WorkerCell c) (opened : c.session = some row)
    (unique : c.experience = []) (row' : Session) (keeps : row'.role = row.role ∧ row'.kind = row.kind)
    (grants : List Grant) (record : Experience) :
    WorkerCell { c with session := some row', grants := grants
                        revocations := c.revocations + 1, experience := [record] } where
  __ := cell
  session := by
    rintro s ⟨⟩
    rw [keeps.1, keeps.2]
    exact cell.session row opened
  records := by
    have records := cell.records
    rw [unique] at records
    simp only [List.length_singleton, ← records, List.length_nil]

theorem checkPhase1Fallback_refines {unsupported : Bool} (cell : WorkerCell c)
    (h : checkPhase1Fallback k c unsupported now = .ok c') :
    WorkerRefines announced c .plain c' ∨ WorkerRefines announced c .alone c' := by
  unfold checkPhase1Fallback at h
  split at h
  · cases h
    exact .inl (.quiet cell rfl)
  · next row opened =>
    split at h
    · cases h
      exact .inl (.quiet cell rfl)
    · next guard =>
      have live : row.state.isClosed = false := by
        simpa using (not_or.mp guard).1
      simp only [bind_eq_ok] at h
      obtain ⟨c₁, recorded, ⟨note, result⟩, _, completed⟩ := h
      obtain ⟨unique, record, rfl⟩ := writeExperienceTx_ok recorded
      simp only [Cell.updateSession, Cell.revokeGrants, opened, Option.map_some] at unique completed
      have cell₁ := cell.closeSession opened unique
        { row with state := .closed .cancelled, closed := some (wireTime now)
                   stateAt := wireTime now, updated := storeTime now } ⟨rfl, rfl⟩
        (c.grants.map fun g => { g with state := "revoked" }) record
      obtain ⟨cell', same, r, known, accepted⟩ := completeInTx_worker cell₁ completed
      exact .inr ⟨cell',
        same ▸ .fallsBack row.mirrored r.numbered (session_worker opened) live (request_worker known) accepted⟩

/-! ## `ws.state` -/

theorem completeOnClose_worker {result : Option Request.Result}
    (cell : WorkerCell c) (h : completeOnClose k c note result now = .ok c') :
    WorkerCell c' ∧ c'.worker = c.worker.complete := by
  unfold completeOnClose at h
  split at h
  · next done completed =>
    cases h
    obtain ⟨cell', same, _⟩ := completeInTx_worker cell completed
    exact ⟨cell', same⟩
  · next state msg refused =>
    cases h
    obtain ⟨r, known, notAccepted⟩ := Request.completeInTx_badState refused rfl
    refine ⟨cell, ?_⟩
    rw [Worker.complete, request_worker known]
    exact (if_neg notAccepted).symm
  · cases h

theorem closeMirror_worker {outcome : Outcome} {row' : Session} (cell : WorkerCell c) (opened : c.session = some row)
    (keeps : row'.role = row.role ∧ row'.kind = row.kind)
    (h : closeMirror k { c with session := some row' } row b outcome now = .ok c') :
    WorkerCell c' ∧
    c'.worker = Worker.complete { c.worker with session := some row'.mirrored, closes := c.worker.closes + 1 } := by
  simp only [closeMirror, bind_eq_ok] at h
  obtain ⟨c₁, recorded, ⟨note, result⟩, _, completed⟩ := h
  obtain ⟨unique, record, rfl⟩ := writeExperienceTx_ok recorded
  have cell₁ :=
    cell.closeSession opened unique row' keeps (c.grants.map fun g => { g with state := "revoked" }) record
  exact completeOnClose_worker cell₁ completed

theorem tuple_of_checkStateBody (h : checkStateBody w k b = .ok state) : b.tuple? = some ⟨state, b.seq, b.round⟩ := by
  simp only [checkStateBody, bind_eq_ok] at h
  obtain ⟨_, _, _, _, _, _, state', read, _, _, _, _, _, _, _, _, done⟩ := h
  cases done
  rw [StateBody.tuple?, read]

theorem applyNewState_refines (cell : WorkerCell c) (opened : c.session = some row)
    (heard : announced ⟨state, b.seq, b.round⟩) (higher : row.seq < b.seq) (live : row.state.isClosed = false)
    (h : applyNewState k c row b state now = .ok c') : WorkerRefines announced c .plain c' := by
  have updated : c.updateSession (mirrorRow b state now) =
      { c with session := some (mirrorRow b state now row) } := by
    rw [Cell.updateSession, opened, Option.map_some]
  unfold applyNewState at h
  rw [updated] at h
  have goesOn (goes : state.isClosed = false) :
      WorkerRefines announced c .plain { c with session := some (mirrorRow b state now row) } :=
    ⟨updated ▸ cell.setSession fun _ => ⟨rfl, rfl⟩,
      .follows row.mirrored ⟨state, b.seq, b.round⟩ (session_worker opened) heard higher live goes⟩
  cases state with
  | closed outcome =>
    dsimp only at h
    obtain ⟨cell', same⟩ := closeMirror_worker cell opened (by exact ⟨rfl, rfl⟩) h
    exact ⟨cell', same ▸ .closes row.mirrored ⟨.closed outcome, b.seq,
      b.round⟩ (session_worker opened) heard higher live rfl⟩
  | «open» =>
    obtain ⟨cell₁, step⟩ := goesOn rfl
    dsimp only at h
    split at h
    · cases h
      obtain ⟨cell₂, same⟩ := submitCancelTx_worker cell₁
      exact ⟨cell₂, same ▸ step⟩
    · cases h
      exact ⟨cell₁, step⟩
  | awaitingResult =>
    cases h
    exact goesOn rfl
  | quarantined =>
    cases h
    exact goesOn rfl

theorem applyState_refines {outcome : StateOutcome} (cell : WorkerCell c)
    (heard : ∀ m, b.tuple? = some m → announced m) (h : applyState w k c b now = .ok (c', outcome)) :
    WorkerRefines announced c .plain c' := by
  simp only [applyState, bind_eq_ok] at h
  obtain ⟨state, checked, h⟩ := h
  split at h
  · cases h
    exact .quiet cell rfl
  next row opened =>
  rw [if_neg (by rw [(cell.session row opened).2]; simp)] at h
  split at h
  · split at h
    · cases h
      exact .quiet (cell.setSession fun _ => ⟨rfl, rfl⟩) (worker_updateSession_keep fun _ => rfl)
    · cases h
      exact .quiet cell rfl
  next higher =>
  split at h
  · cases h
    exact .quiet cell rfl
  next live =>
  rw [bind_eq_ok] at h
  obtain ⟨c₁, applied, done⟩ := h
  cases done
  exact applyNewState_refines cell opened (heard _ (tuple_of_checkStateBody checked)) (not_le.mp higher)
    (by simpa using live) applied

/-! ## `request` and `request.cancel` -/

/-- What a received request may do: nothing to a row that exists; a tombstone wins over
every other rule, and only a young request is stored otherwise. -/
theorem apply_refines {r : Request.Body} {outcome : Request.ReceiveOutcome} (cell : WorkerCell c)
    (undebated : r.type ≠ .debate) (h : Request.apply w k c created r intake now = .ok (c', outcome)) :
    WorkerRefines announced c .plain c' ∨
      now - parseWireTime r.created ≤ Request.maxAge ∧ WorkerRefines announced c (.born now r.created) c' := by
  simp only [Request.apply, bind_eq_ok] at h
  obtain ⟨hash, _, h⟩ := h
  split at h
  · cases h
    exact .inl (.quiet cell rfl)
  next unknown =>
  have unknown' : c.worker.request = none := by simp only [Cell.worker, unknown, Option.map_none]
  simp only [Request.applyNew, bind_eq_ok] at h
  obtain ⟨_, _, _, _, _, _, h⟩ := h
  split at h
  · next t buried =>
    cases h
    have cancelled : c.worker.tombstone = some t.receivedAt := by
      simp only [Cell.worker, buried, Option.map_some]
    refine .inl ⟨⟨?_, cell.session, ?_, cell.results, cell.records⟩, .consumes t.receivedAt unknown' cancelled⟩
    · rintro r' ⟨⟩
      exact undebated
    · rintro r' reply ⟨⟩ ⟨⟩
      rfl
  next uncancelled =>
  have uncancelled' : c.worker.tombstone = none := by
    simp only [Cell.worker, uncancelled, Option.map_none]
  simp only [bind_eq_ok, require_eq_ok] at h
  obtain ⟨_, young, h⟩ := h
  refine .inr ⟨young, ?_⟩
  split at h
  · next code declined =>
    cases h
    unfold Request.storeDeclined
    refine ⟨(cell.setRequest ?_ ?_).submitReply now _, ?_⟩
    · exact undebated
    · rintro reply ⟨⟩
      rfl
    · rw [worker_submitReply]
      exact .refuses now r.created unknown' uncancelled'
  · unfold Request.storePending at h
    rw [if_neg undebated] at h
    have pending : WorkerCell { c with request := some (Request.pendingRow r hash intake now) } :=
      cell.setRequest undebated (by intros; contradiction)
    split at h
    · rw [bind_eq_ok] at h
      obtain ⟨c₁, accepted, done⟩ := h
      cases done
      obtain ⟨r', known, _, cell₁, same⟩ := acceptInTx_worker pending accepted
      cases known
      refine ⟨cell₁.setSession fun _ => ⟨rfl, rfl⟩, ?_⟩
      have keeps : (Request.markRunnerTx c₁).worker = c₁.worker := worker_updateSession_keep fun _ => rfl
      rw [keeps, same]
      exact .receivesAccepting now r.created unknown' uncancelled'
    · cases h
      exact ⟨pending, .receives now r.created unknown' uncancelled'⟩

theorem pruneTombstone_refines (cell : WorkerCell c) :
    WorkerRefines announced c .plain (Request.pruneTombstone now c) ∨
      WorkerRefines announced c (.pruned now) (Request.pruneTombstone now c) ∧ ∃ t, c.tombstone = some t ∧
          t.receivedAt < storeTime (now - Request.tombstoneMaxAge) := by
  have shape : WorkerCell (Request.pruneTombstone now c) := cell.setTombstone _
  cases buried : c.tombstone with
  | none =>
    refine .inl (.quiet shape ?_)
    simp only [Cell.worker, Request.pruneTombstone, buried, Option.filter_none]
  | some t =>
    by_cases young : storeTime (now - Request.tombstoneMaxAge) ≤ t.receivedAt
    · refine .inl (.quiet shape ?_)
      simp only [Cell.worker, Request.pruneTombstone, buried, Option.filter_some, young, decide_true, if_true]
    · refine .inr ⟨⟨shape, ?_⟩, t, rfl, not_le.mp young⟩
      have same : (Request.pruneTombstone now c).worker = { c.worker with tombstone := none } := by
        simp only [Cell.worker, Request.pruneTombstone, buried, Option.filter_some, young,
          decide_false, Bool.false_eq_true, if_false, Option.map_none]
      rw [same]
      exact .prunes now t.receivedAt (by simp only [Cell.worker, buried, Option.map_some])

inductive Buries (c : Cell δ) (now : Time) : Worker.Label → Prop where
  | plain : Buries c now .plain
  | pruned (t : Tombstone) (buried : c.tombstone = some t)
      (old : t.receivedAt < storeTime (now - Request.tombstoneMaxAge)) : Buries c now (.pruned now)
  | early : Buries c now (.early now)

theorem pruneTombstone_buries (cell : WorkerCell c) :
    ∃ label, WorkerRefines announced c label (Request.pruneTombstone now c) ∧ Buries c now label := by
  rcases pruneTombstone_refines cell with refines | ⟨refines, t, buried, old⟩
  · exact ⟨.plain, refines, .plain⟩
  · exact ⟨.pruned now, refines, .pruned t buried old⟩

/-- A cancel buries the request, as a step of the protocol. -/
theorem applyCancel_buries {b : Request.CancelBody} {outcome : Request.CancelOutcome} (cell : WorkerCell c)
    (h : Request.applyCancel w k c created b tombstones now = .ok (c', outcome)) :
    ∃ label, WorkerRefines announced c label c' ∧ Buries c now label := by
  simp only [Request.applyCancel, bind_eq_ok] at h
  obtain ⟨_, _, h⟩ := h
  split at h
  · next unknown =>
    have unknown' : c.worker.request = none := by
      simp only [Cell.worker, unknown, Option.map_none]
    unfold Request.applyEarlyCancel at h
    dsimp only at h
    split at h
    · cases h
      exact pruneTombstone_buries cell
    · cases h
      refine ⟨.early now, ⟨?_, ?_⟩, .early⟩
      · exact (cell.setTombstone _).submitReply now _
      · rw [worker_submitReply]
        exact .cancelsEarly now unknown'
  next row known =>
  have quiet : ∃ label, WorkerRefines announced c label c ∧ Buries c now label := ⟨.plain, .quiet cell rfl, .plain⟩
  split at h
  · cases h
    exact quiet
  split at h
  · cases h
    exact quiet
  next waits =>
  rw [Wiring.endDebateTx, if_neg (cell.typ row known)] at h
  cases h
  rw [Cell.updateRequest, known, Option.map_some]
  refine ⟨.plain, ⟨(cell.setRequest ?_ ?_).submitReply now _, ?_⟩, .plain⟩
  · exact cell.typ row known
  · rintro reply ⟨⟩
    rfl
  · rw [worker_submitReply]
    exact .ends row.numbered .cancelled (request_worker known)
      (waiting_of_allowed (not_not.mp waits)) (.inr (.inr rfl))

theorem resubmitStale_refines (cell : WorkerCell c) :
    WorkerRefines announced c .plain (Request.resubmitStale c now) := by
  unfold Request.resubmitStale
  split
  · exact .quiet cell rfl
  next row known =>
  split
  · exact .quiet cell rfl
  · exact .quiet cell rfl
  next reply last answered =>
  split
  · exact .quiet cell rfl
  · rw [Cell.updateRequest, known, Option.map_some]
    have echo := cell.echo row reply known last
    refine ⟨(cell.setRequest ?_ ?_).submitReply now _, ?_⟩
    · exact cell.typ row known
    · intro reply' last'
      cases last.symm.trans last'
      exact echo
    · have same : Cell.worker { c with request := some { row with lastReplySent := some (storeTime now) } } =
          c.worker := by
        simp only [Cell.worker, known, Option.map_some]
        rfl
      rw [worker_submitReply, same, echo]
      exact .echoes row.numbered (request_worker known) answered

/-! ## Every event -/

inductive WorkerOpLabels (c : Cell δ) (now : Time) : WorkerOp → Worker.Label → Prop where
  | buries (op : WorkerOp) (label : Worker.Label) (buries : Buries c now label) :
      WorkerOpLabels c now op label
  | direct (note : String) (result : Option Request.Result) :
      WorkerOpLabels c now (.completeTx note result) .direct
  | alone (unsupported : Bool) : WorkerOpLabels c now (.checkPhase1Fallback unsupported) .alone

theorem WorkerOpLabels.plain (op : WorkerOp) : WorkerOpLabels c now op .plain := .buries op .plain .plain

/-- Every operation of the worker is a step of the protocol. -/
theorem WorkerOp.refines {op : WorkerOp} (cell : WorkerCell c) (h : op.run w k c now = .ok c') :
    ∃ label, WorkerRefines announced c label c' ∧ WorkerOpLabels c now op label := by
  cases op with
  | accept =>
    obtain ⟨r, known, waiting, cell', same⟩ := accept_worker cell h
    exact ⟨_, ⟨cell', same ▸ .accepts r.numbered (request_worker known) waiting⟩, .plain _⟩
  | acceptInTx onlyType runner =>
    simp only [WorkerOp.run, bind_eq_ok] at h
    obtain ⟨c₁, accepted, done⟩ := h
    cases done
    obtain ⟨r, known, waiting, cell₁, same⟩ := acceptInTx_worker cell accepted
    have step : c.worker.Step announced .plain c₁.worker := same ▸ .accepts r.numbered (request_worker known) waiting
    cases runner with
    | false => exact ⟨_, ⟨cell₁, step⟩, .plain _⟩
    | true =>
      have keeps : (Request.markRunnerTx c₁).worker = c₁.worker := worker_updateSession_keep fun _ => rfl
      exact ⟨_, ⟨cell₁.setSession fun _ => ⟨rfl, rfl⟩, keeps.symm ▸ step⟩, .plain _⟩
  | decline reason => exact ⟨_, decline_refines cell h, .plain _⟩
  | defer until' => exact ⟨_, defer_refines cell h, .plain _⟩
  | completeShorthand note result =>
    simp only [WorkerOp.run, bind_eq_ok] at h
    obtain ⟨_, _, ⟨c₁, found⟩, submitted, done⟩ := h
    cases done
    exact ⟨_, submitResult_refines cell submitted, .plain _⟩
  | completeTx note result =>
    simp only [WorkerOp.run, bind_eq_ok] at h
    obtain ⟨_, _, completed⟩ := h
    exact ⟨_, completeTx_refines cell completed, .direct note result⟩
  | answerQuestion result => exact ⟨_, answerQuestion_refines cell h, .plain _⟩
  | submitResult result submitter =>
    simp only [WorkerOp.run, bind_eq_ok] at h
    obtain ⟨⟨c₁, found⟩, submitted, done⟩ := h
    cases done
    exact ⟨_, submitResult_refines cell submitted, .plain _⟩
  | submitCancel reason submitter => exact ⟨_, submitCancel_refines cell h, .plain _⟩
  | checkPhase1Fallback unsupported =>
    rcases checkPhase1Fallback_refines cell h with refines | refines
    · exact ⟨_, refines, .plain _⟩
    · exact ⟨_, refines, .alone unsupported⟩
  | resubmitStale =>
    cases h
    exact ⟨_, resubmitStale_refines cell, .plain _⟩
  | pruneTombstones =>
    cases h
    obtain ⟨label, refines, buries⟩ := pruneTombstone_buries cell
    exact ⟨label, refines, .buries _ label buries⟩
  | grants gs =>
    cases h
    exact ⟨.plain, .quiet { cell with } rfl, .plain _⟩

inductive WorkerLabels (c : Cell δ) : WorkerEvent → Worker.Label → Prop where
  | op (op : WorkerOp) (now : Time) (label : Worker.Label) (kind : WorkerOpLabels c now op label) :
      WorkerLabels c (.op op now) label
  | mail (m : Mail) (intake : Request.Intake) (tombstones : Nat) (now : Time)
      (label : Worker.Label) (buries : Buries c now label)
      (cancels : label = .early now → m.receivable now ∧ ∃ b, m.body = .cancel b) :
      WorkerLabels c (.mail m intake tombstones now) label
  | born (m : Mail) (intake : Request.Intake) (tombstones : Nat) (now : Time) (r : Request.Body)
      (carried : m.body = .request r) (young : now - parseWireTime r.created ≤ Request.maxAge) :
      WorkerLabels c (.mail m intake tombstones now) (.born now r.created)

theorem receiveAtWorker_refines {m : Mail} (cell : WorkerCell c) (inWindow : m.receivable now)
    (undebated : ∀ r, m.body = .request r → r.type ≠ .debate)
    (heard : ∀ b t, m.body = .state b → b.tuple? = some t → announced t)
    (h : receiveAtWorker w k c m intake tombstones now = .ok c') : ∃ label, WorkerRefines announced c label c' ∧
      WorkerLabels c (.mail m intake tombstones now) label := by
  have plain : WorkerLabels c (.mail m intake tombstones now) .plain :=
    .mail m intake tombstones now .plain .plain (by simp)
  unfold receiveAtWorker at h
  split at h
  · next r carried =>
    rw [bind_eq_ok] at h
    obtain ⟨⟨c₁, outcome⟩, applied, done⟩ := h
    cases done
    rcases apply_refines cell (undebated r carried) applied with refines | ⟨young, refines⟩
    · exact ⟨_, refines, plain⟩
    · exact ⟨_, refines, .born m intake tombstones now r carried young⟩
  · next b carried =>
    rw [bind_eq_ok] at h
    obtain ⟨⟨c₁, outcome⟩, applied, done⟩ := h
    cases done
    obtain ⟨label, refines, buries⟩ := applyCancel_buries cell applied
    exact ⟨label, refines, .mail m intake tombstones now label buries fun _ => ⟨inWindow, b, carried⟩⟩
  · next b carried =>
    rw [bind_eq_ok] at h
    obtain ⟨⟨c₁, outcome⟩, applied, done⟩ := h
    cases done
    exact ⟨_, applyState_refines cell (heard b · carried) applied, plain⟩
  · cases h
    exact ⟨_, .quiet cell rfl, plain⟩

theorem workerStep_refines {e : WorkerEvent} (cell : WorkerCell c)
    (undebated : ∀ m intake tombstones now r, e = .mail m intake tombstones now →
      m.body = .request r → r.type ≠ .debate) (heard : ∀ m intake tombstones now b t,
        e = .mail m intake tombstones now → m.body = .state b → b.tuple? = some t → announced t) :
    ∃ label, WorkerRefines announced c label (workerStep w k c e) ∧ WorkerLabels c e label := by
  cases e with
  | op op now =>
    have stays : ∃ label, WorkerRefines announced c label c ∧ WorkerLabels c (.op op now) label :=
      ⟨.plain, .quiet cell rfl, .op op now .plain (.plain op)⟩
    simp only [workerStep]
    cases ran : op.run w k c now with
    | error e => exact stays
    | ok c' =>
      obtain ⟨label, refines, kind⟩ := op.refines cell ran
      exact ⟨label, refines, .op op now label kind⟩
  | mail m intake tombstones now =>
    have stays : ∃ label, WorkerRefines announced c label c ∧ WorkerLabels c (.mail m intake tombstones now) label :=
      ⟨.plain, .quiet cell rfl, .mail m intake tombstones now .plain .plain (by simp)⟩
    simp only [workerStep]
    split
    · next guard =>
      cases ran : receiveAtWorker w k c m intake tombstones now with
      | error e => exact stays
      | ok c' =>
        exact receiveAtWorker_refines cell guard.1 (fun r => undebated m intake tombstones now r rfl)
          (fun b t => heard m intake tombstones now b t rfl) ran
    · exact stays

end Agentnet
