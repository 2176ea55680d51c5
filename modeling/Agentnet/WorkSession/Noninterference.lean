import Agentnet.WorkSession.View
import Agentnet.WorkSession.RequesterRuns

/-! A quarantined result does not interfere: replacing it by another one of the same
sizes changes nothing that the requester shows or stores elsewhere, until it is released. -/

namespace Agentnet
open Agentnet.Lib
open WorkSession WorkSession.Protocol
open Request (JsonObject)

variable {δ : Type}

/-- The cell with another result in quarantine. -/
def Cell.hold (x : JsonObject) (c : Cell δ) : Cell δ :=
  c.updateSession fun r => if r.state = .quarantined then { r with result := some x } else r

variable {c c' : Cell δ} {row : Session} {w : Wiring δ} {k : Key} {x : JsonObject} {now : Time}

theorem hold_quarantined (opened : c.session = some row) (quarantined : row.state = .quarantined) :
    c.hold x = { c with session := some { row with result := some x } } := by
  simp only [Cell.hold, Cell.updateSession, opened, Option.map_some, quarantined, if_true]

theorem hold_of_not (opened : c.session = some row) (notHeld : row.state ≠ .quarantined) : c.hold x = c := by
  have same : c.session.map (fun r => if r.state = .quarantined then { r with result := some x }
      else r) = c.session := by
    rw [opened, Option.map_some, if_neg notHeld]
  rw [Cell.hold, Cell.updateSession, same]

/-- Two transactions that both fail, or lead to cells that differ in the held result. -/
inductive Commutes (x : JsonObject) : Except Error (Cell δ) → Except Error (Cell δ) → Prop where
  | fails (e e' : Error) : Commutes x (.error e) (.error e')
  | ok (c : Cell δ) : Commutes x (.ok c) (.ok (c.hold x))

namespace Commutes

variable {t t' : Except Error (Cell δ)}

theorem commit (h : Commutes x t t') : commit (c.hold x) t' = (Agentnet.commit c t).hold x := by
  cases h <;> rfl

theorem of_eq (h : t = .ok c) (h' : t' = .ok (c.hold x)) : Commutes x t t' := by
  rw [h, h']
  exact .ok c

theorem of_same (h : t = .ok c) (h' : t' = .ok c) (opened : c.session = some row)
    (notHeld : row.state ≠ .quarantined) : Commutes x t t' :=
  of_eq h (by rw [hold_of_not opened notHeld]; exact h')

theorem of_fails (h : ∀ c, t ≠ .ok c) (h' : ∀ c, t' ≠ .ok c) : Commutes x t t' := by
  cases t with
  | ok c => exact absurd rfl (h c)
  | error e =>
    cases t' with
    | ok c => exact absurd rfl (h' c)
    | error e' => exact .fails e e'

variable {α : Type}

theorem bind {check : Except Error α} {f f' : α → Except Error (Cell δ)}
    (h : ∀ a, check = .ok a → Commutes x (f a) (f' a)) : Commutes x (check >>= f) (check >>= f') := by
  cases check with
  | error e => exact .fails e e
  | ok a => exact h a rfl

/-- Steps that commute, in turn. -/
theorem next {f f' : Cell δ → Except Error (Cell δ)} (h : Commutes x t t')
    (rest : ∀ c, t = .ok c → Commutes x (f c) (f' (c.hold x))) : Commutes x (t >>= f) (t' >>= f') := by
  cases h with
  | fails e e' => exact .fails e e'
  | ok c => exact rest c rfl

theorem fst {u u' : Except Error (Cell δ × α)} (h : Commutes x (u.map Prod.fst) (u'.map Prod.fst)) :
    Commutes x (u >>= fun p => .ok p.1) (u' >>= fun p => .ok p.1) := by
  cases u <;> cases u' <;> exact h

theorem ite {p : Prop} [Decidable p] {f f' g g' : Except Error (Cell δ)} (h : Commutes x f f')
    (h' : Commutes x g g') : Commutes x (if p then f else g) (if p then f' else g') := by
  split
  · exact h
  · exact h'

end Commutes

/-! ## Operations on a quarantined session -/

structure Held (c : Cell δ) (row : Session) : Prop where
  cell : RequesterCell c
  opened : c.session = some row
  quarantined : row.state = .quarantined

theorem acceptResult_fails (opened : c.session = some row) (other : row.state ≠ .awaitingResult)
    (c' : Cell δ) : acceptResult c now ≠ .ok c' := by
  intro h
  simp only [acceptResult, bind_eq_ok, require_eq_ok, findRow_eq_ok] at h
  obtain ⟨row', opened', _, _, _, _, _, awaiting, _⟩ := h
  cases opened.symm.trans opened'
  exact other awaiting

theorem acceptResultInTx_fails (opened : c.session = some row) (other : row.state ≠ .awaitingResult)
    (c' : Cell δ) : acceptResultInTx c now ≠ .ok c' := by
  intro h
  simp only [acceptResultInTx, bind_eq_ok, require_eq_ok, findRow_eq_ok] at h
  obtain ⟨row', opened', _, _, _, _, _, awaiting, _⟩ := h
  cases opened.symm.trans opened'
  exact other awaiting

theorem cancel_fails {reason : String} (opened : c.session = some row) (other : row.state ≠ .open)
    (c' : Cell δ) : WorkSession.cancel w k c reason now ≠ .ok c' := by
  intro h
  simp only [WorkSession.cancel, bind_eq_ok, require_eq_ok, findRow_eq_ok] at h
  obtain ⟨_, _, row', opened', _, _, _, isOpen, _⟩ := h
  cases opened.symm.trans opened'
  exact other isOpen

namespace Held

theorem role (held : Held c row) : row.role = .requester := (held.cell.session row held.opened).1

theorem work (held : Held c row) : row.kind = .work := (held.cell.session row held.opened).2

theorem hold (held : Held c row) : c.hold x = { c with session := some { row with result := some x } } :=
  hold_quarantined held.opened held.quarantined

theorem findRow (held : Held c row) : WorkSession.findRow c = .ok row := findRow_eq_ok.mpr held.opened

theorem findRow_hold (held : Held c row) : WorkSession.findRow (c.hold x) = .ok { row with result := some x } := by
  rw [findRow_eq_ok, held.hold]

theorem submit {p : Request.SubmitParams} {used : Nat} {taken : Bool} :
    Commutes x (Request.submit w k c p used taken .ok (fun _ c => .ok c) now)
      (Request.submit w k (c.hold x) p used taken .ok (fun _ c => .ok c) now) := by
  unfold Request.submit Request.insertOut
  exact .bind fun _ _ => .bind fun _ _ => .bind fun _ _ => .bind fun _ _ =>
    .next (.bind fun _ _ => .ok _) fun c _ => .ok c

variable {mail : Request.Delivery} {reply : Request.Reply} {note : String} {quarantine : Quarantine}

theorem cancelRequest {reason : String} :
    Commutes x (Request.cancel k c reason mail now) (Request.cancel k (c.hold x) reason mail now) := by
  unfold Request.cancel
  exact .bind fun _ _ => .bind fun _ _ => .ite (.ok c) (.bind fun _ _ => .ite (.ok c) (.ok _))

theorem resendRequest : Commutes x (Request.resend k c mail now) (Request.resend k (c.hold x) mail now) := by
  unfold Request.resend
  refine .bind fun row _ => .bind fun _ _ => .bind fun _ _ => .bind fun _ _ => .bind fun _ _ => ?_
  split
  · exact .fails ..
  · exact .ok _

theorem requestChanges {changes : String} (held : Held c row) :
    Commutes x (requestChanges c changes now) (requestChanges (c.hold x) changes now) := by
  unfold WorkSession.requestChanges
  refine .bind fun _ _ => ?_
  rw [held.findRow, held.findRow_hold, ok_bind, ok_bind]
  refine .bind fun _ _ => .bind fun _ _ => .bind fun _ _ => ?_
  simp only [sendState, Cell.updateSession, Cell.submitTx, held.hold, held.opened, Option.map_some]
  exact .of_same rfl rfl rfl (by simp)

theorem discard (held : Held c row) :
    Commutes x (WorkSession.discard c now) (WorkSession.discard (c.hold x) now) := by
  unfold WorkSession.discard
  rw [held.findRow, held.findRow_hold, ok_bind, ok_bind]
  refine .bind fun _ _ => .bind fun _ _ => .bind fun _ _ => ?_
  simp only [sendState, Cell.updateSession, Cell.submitTx, held.hold, held.opened, Option.map_some,
    writeRequesterViewTx, held.work, requesterView, Request.setOutContentTx, Request.storedResult,
    ok_bind, writeExperienceTx, Cell.insertExperience, Cell.updateRequest, Cell.revokeGrants,
    Cell.requestSummary, pure, Except.pure]
  refine .bind fun _ _ => ?_
  exact .of_same rfl rfl rfl (by simp)

theorem resendLastState (held : Held c row) :
    WorkSession.resendLastState (c.hold x) now = (WorkSession.resendLastState c now).hold x := by
  simp only [WorkSession.resendLastState, held.hold, held.opened]
  split
  · exact held.hold.symm
  · split
    · exact held.hold.symm
    · simp only [Cell.hold, Cell.updateSession, Cell.submitTx, held.opened, Option.map_some,
        held.quarantined, if_true]

/-- The requester's operations, one by one. -/
theorem op {op : RequesterOp} (held : Held c row) (unreleased : op ≠ .releaseInTx) :
    Commutes x (op.run w k c now) (op.run w k (c.hold x) now) := by
  have opened' : (c.hold x).session = some { row with result := some x } := by rw [held.hold]
  have notAwaiting : row.state ≠ .awaitingResult := by rw [held.quarantined]; simp
  have notOpen : row.state ≠ .open := by rw [held.quarantined]; simp
  cases op with
  | submit p used taken => exact submit
  | cancelRequest reason mail => exact cancelRequest
  | resendRequest mail => exact resendRequest
  | acceptResult =>
    exact .of_fails (acceptResult_fails held.opened notAwaiting) (acceptResult_fails opened' notAwaiting)
  | acceptResultInTx =>
    exact .of_fails (acceptResultInTx_fails held.opened notAwaiting) (acceptResultInTx_fails opened' notAwaiting)
  | requestChanges changes => exact held.requestChanges
  | discard => exact held.discard
  | cancel reason => exact .of_fails (cancel_fails held.opened notOpen) (cancel_fails opened' notOpen)
  | releaseInTx => exact absurd rfl unreleased
  | resendLastState => exact .of_eq rfl (congrArg Except.ok held.resendLastState)
  | grants gs => exact .ok _

/-! ## Mails to a quarantined session -/

theorem mirrorHooks {typ : Request.RequestType} {state : Request.State}
    (opened : c.session = some row) (notOpen : row.state ≠ .open) (work : typ ≠ .debate) :
    Request.mirrorHooks w k c typ state now = .ok c := by
  have ended : sessionEndedTx w k c now = .ok c := by
    simp only [sessionEndedTx, opened, notOpen, ne_eq, not_false_eq_true, if_true]
  cases state <;> simp only [Request.mirrorHooks, Wiring.endDebateTx, work, if_false, ok_bind, ended]

theorem answerCancel (out : Request.Row) (final : Request.State) :
    Request.answerCancel out final now (c.hold x) = (Request.answerCancel out final now c).hold x := by
  unfold Request.answerCancel
  split <;> rfl

theorem answerCancel_session (out : Request.Row) (final : Request.State) :
    (Request.answerCancel out final now c).session = c.session := by
  unfold Request.answerCancel
  split <;> rfl

theorem notOpen (held : Held c row) : row.state ≠ .open := by
  rw [held.quarantined]
  simp

theorem session_hold (held : Held c row) : (c.hold x).session = some { row with result := some x } := by
  rw [held.hold]

theorem applyMirror {extra : Request.Row → Request.Row} (held : Held c row) :
    Commutes x (Request.applyMirror w k c reply extra now) (Request.applyMirror w k (c.hold x) reply extra now) ∧
      ∀ c', Request.applyMirror w k c reply extra now = .ok c' → c'.session = some row := by
  have same : (c.hold x).request = c.request := rfl
  unfold Request.applyMirror
  rw [same]
  cases known : c.request with
  | none =>
    refine ⟨.ok c, ?_⟩
    rintro c' ⟨⟩
    exact held.opened
  | some out =>
    have work := held.cell.request.typ out known
    have hooks (f : Request.Row → Request.Row) (state : Request.State) :
        Request.mirrorHooks w k (c.updateRequest f) out.typ state now = .ok (c.updateRequest f) ∧
        Request.mirrorHooks w k ((c.hold x).updateRequest f) out.typ state now = .ok ((c.updateRequest f).hold x) :=
      ⟨mirrorHooks held.opened held.notOpen work, mirrorHooks held.session_hold held.notOpen work⟩
    dsimp only
    unfold Request.mirrorUpdate
    split
    · rw [(hooks ..).1, (hooks ..).2, ok_bind, ok_bind]
      refine ⟨.of_eq rfl (congrArg Except.ok (answerCancel ..)), ?_⟩
      rintro c' ⟨⟩
      exact (answerCancel_session ..).trans held.opened
    · rw [ok_bind, ok_bind]
      refine ⟨.of_eq rfl (congrArg Except.ok (answerCancel ..)), ?_⟩
      rintro c' ⟨⟩
      exact (answerCancel_session ..).trans held.opened

theorem applyAccept (held : Held c row) : Commutes x (Request.applyAccept w k c reply now)
      (Request.applyAccept w k (c.hold x) reply now) := by
  unfold Request.applyAccept
  refine .bind fun _ _ => .next held.applyMirror.1 fun c₁ mirrored => ?_
  have opened := (held.applyMirror (x := x)).2 c₁ mirrored
  have cell := (applyMirror_requester held.cell mirrored id (fun _ => rfl) fun _ => ⟨rfl, rfl⟩).1
  have held₁ : Held c₁ row := ⟨cell, opened, held.quarantined⟩
  have same : (c₁.hold x).request = c₁.request := rfl
  rw [same]
  split
  · exact .ok c₁
  · exact .of_eq (openSession_of_opened cell.request.typ opened)
      (openSession_of_opened cell.request.typ held₁.session_hold)

theorem earlyComplete {result : Option Request.Result} (opened : c.session = some row)
    (quarantined : row.state = .quarantined) (work : row.kind = .work) :
    earlyComplete w k c note result quarantine now =
      (contentQuarantined (result.isSome || note != "") quarantine row.round >>= fun _ => .ok (c, .drop)) := by
  simp only [WorkSession.earlyComplete, opened, work, earlyCompleteWork, quarantined]

theorem applyComplete {result : Option JsonObject} (held : Held c row) :
    Commutes x ((Request.applyComplete w k c reply note result quarantine now).map Prod.fst)
      ((Request.applyComplete w k (c.hold x) reply note result quarantine now).map Prod.fst) := by
  simp only [Request.applyComplete, earlyComplete held.opened held.quarantined held.work,
    earlyComplete held.session_hold held.quarantined held.work, bind_assoc, map_bind, ok_bind]
  exact .bind fun _ _ => .bind fun _ _ => .bind fun _ _ => .next held.applyMirror.1 fun c₁ _ => .ok c₁

theorem applyReply (held : Held c row) : Commutes x (Request.applyReply w k c reply quarantine now)
      (Request.applyReply w k (c.hold x) reply quarantine now) := by
  unfold Request.applyReply
  split
  · exact held.applyAccept
  · unfold Request.applyDecline
    exact .bind fun _ _ => .bind fun _ _ => held.applyMirror.1
  · unfold Request.applyDefer
    exact .bind fun _ _ => .bind fun _ _ => .bind fun _ _ => held.applyMirror.1
  · exact .fst held.applyComplete
  · unfold Request.applyCancelled
    exact .bind fun _ _ => held.applyMirror.1

theorem applyResult {b : ResultBody} (held : Held c row) :
    Commutes x ((applyResult w k c b quarantine now).map Prod.fst)
      ((applyResult w k (c.hold x) b quarantine now).map Prod.fst) := by
  have same : (c.hold x).request = c.request := rfl
  unfold WorkSession.applyResult
  rw [map_bind, map_bind, same]
  refine .bind fun result _ => ?_
  split
  · exact .ok c
  · split
    · exact .ok c
    split
    · exact .ok c
    · simp only [findOrCreate, held.opened, held.session_hold, held.notOpen, ne_eq, not_false_eq_true, if_true]
      exact .ok c

theorem applyCancel {b : WorkSession.CancelBody} (held : Held c row) :
    Commutes x ((applyCancel w k c b quarantine now).map Prod.fst)
      ((applyCancel w k (c.hold x) b quarantine now).map Prod.fst) := by
  unfold WorkSession.applyCancel
  simp only [held.opened, held.session_hold, held.notOpen, ne_eq, not_false_eq_true, if_true, Option.map_some,
    Option.getD_some, map_bind]
  exact .bind fun _ _ => .bind fun _ _ => .ok c

/-- Holding back the result commutes with every event but the release. -/
theorem step {e : RequesterEvent} (held : Held c row) (unreleased : ∀ now, e ≠ .op .releaseInTx now) :
    requesterStep w k (c.hold x) e = (requesterStep w k c e).hold x := by
  cases e with
  | op op now => exact (held.op fun isRelease => unreleased now (isRelease ▸ rfl)).commit
  | mail m quarantine now =>
    simp only [requesterStep]
    split
    · refine Commutes.commit ?_
      unfold receiveAtRequester
      split
      · exact .fst held.applyResult
      · exact .fst held.applyCancel
      · exact held.applyReply
      · exact .ok c
    · rfl

end Held

/-! ## Mails that differ in held content -/

structure SameFacts (r r' : WorkSession.Result) : Prop where
  status : r'.d14.status = r.d14.status
  verification : r'.verification = r.verification
  resultBytes : storedBytes (resultCanonicalValue r') = storedBytes (resultCanonicalValue r)
  outputBytes : r'.d14.output.utf8ByteSize = r.d14.output.utf8ByteSize
  artifacts : (r'.d14.artifacts.getD []).length = (r.d14.artifacts.getD []).length

/-- The round that the rule is asked for, 0 before the session exists. -/
def Cell.round (c : Cell δ) : Nat := (c.session.map Session.round).getD 0

/-- Two events that are the same but for content that the quarantine rule holds back. -/
inductive Alike (w : Wiring δ) (k : Key) (c : Cell δ) : RequesterEvent → RequesterEvent → Prop where
  | same (e : RequesterEvent) : Alike w k c e e
  | result (created : WireTime) (b : ResultBody) (x : JsonObject) (quarantine : Quarantine)
      (now : Time) (r r' : WorkSession.Result) (rule : quarantine.holds b.round = .ok true)
      (read : checkResultBody w k b = .ok r)
      (read' : checkResultBody w k { b with result := x } = .ok r') (facts : SameFacts r r') :
      Alike w k c (.mail ⟨created, .result b⟩ quarantine now)
        (.mail ⟨created, .result { b with result := x }⟩ quarantine now)
  | cancel (created : WireTime) (b : WorkSession.CancelBody) (reason : String)
      (quarantine : Quarantine) (now : Time) (rule : quarantine.holds c.round = .ok true)
      (read : checkCancelBody w k b = .ok ())
      (read' : checkCancelBody w k { b with reason := reason } = .ok ()) :
      Alike w k c (.mail ⟨created, .wsCancel b⟩ quarantine now)
        (.mail ⟨created, .wsCancel { b with reason := reason }⟩ quarantine now)
  | complete (created : WireTime) (reply : Request.Reply) (note note' : String)
      (result result' : Option JsonObject) (quarantine : Quarantine) (now : Time)
      (decoded decoded' : Option Request.Result) (rule : quarantine.holds c.round = .ok true)
      (read : Request.checkCompleteBody reply note result = .ok decoded)
      (read' : Request.checkCompleteBody reply note' result' = .ok decoded') :
      Alike w k c
        (.mail ⟨created, .reply { reply with content := .complete note result }⟩ quarantine now)
        (.mail ⟨created, .reply { reply with content := .complete note' result' }⟩ quarantine now)

inductive LowEq (c : Cell δ) : Cell δ → Prop where
  | same : LowEq c c
  | held (row : Session) (r r' : WorkSession.Result) (held : Held c row)
      (stored : row.result = some (resultCanonicalValue r)) (formed : r.d14.WellFormed)
      (formed' : r'.d14.WellFormed) (facts : SameFacts r r') :
      LowEq c (c.hold (resultCanonicalValue r'))

variable {r r' : WorkSession.Result} {b : ResultBody} {round : Nat} {quarantine : Quarantine} {note : String}
  {e e' : RequesterEvent}

theorem decodeStored (formed : r.d14.WellFormed) : decodeStoredResult (resultCanonicalValue r) = .ok r := by
  rw [decodeStoredResult, decodeResult_resultCanonicalValue formed]

theorem LowEq.looksLike (h : LowEq c c') : List.Forall₂ LooksLike c.session.toList c'.session.toList := by
  cases h with
  | same => exact List.forall₂_same.mpr fun a _ => .refl a
  | held row r r' held stored formed formed' facts =>
    rw [held.opened, held.session_hold]
    refine .cons ⟨⟨_, rfl⟩, ?_⟩ .nil
    have hides : withheld row = true := by simp [withheld, held.role, held.quarantined]
    have hides' : withheld { row with result := some (resultCanonicalValue r') } = true := hides
    rw [toView_eq stored (decodeStored formed), toView_eq rfl (decodeStored formed'), hides, hides',
      viewResult, viewResult, facts.status, facts.resultBytes, facts.outputBytes, facts.artifacts]
    rfl

/-- The request itself never differs. -/
theorem LowEq.request (h : LowEq c c') : c'.request = c.request := by
  cases h <;> rfl

/-! ## Steps that differ in held content -/

theorem checkResultBody_ok (read : checkResultBody w k b = .ok r) :
    r.d14.WellFormed ∧ ∃ text, canonicalResult r = .ok text := by
  simp only [checkResultBody, bind_eq_ok] at read
  obtain ⟨_, _, _, _, decoded, _, _, valid, canon, written, _, _, done⟩ := read
  cases done
  constructor
  · unfold orBadBody at valid
    split at valid
    · next ok => exact validateResult_wellFormed ok
    · cases valid
  · unfold canonOr at written
    split at written
    · next text canonical =>
      simp only [resultBodyCanonical, canonicalValue, canonicalMembers, bind_eq_ok] at canonical
      obtain ⟨_, ⟨_, _, _, ⟨_, _, _, ⟨text, own, _⟩, _⟩, _⟩, _⟩ := canonical
      exact ⟨text, by simpa only [canonicalResult, canonicalValue, bind_eq_ok] using own⟩
    · cases written

theorem storeResult_alike {text text' : String} (opened : c.session = some row)
    (canonical : canonicalResult r = .ok text) (canonical' : canonicalResult r' = .ok text')
    (facts : SameFacts r r') : ∃ d row', storeResult c row round r true now = .ok d ∧
      storeResult c row round r' true now = .ok (d.hold (resultCanonicalValue r')) ∧
      d.session = some row' ∧ row'.state = .quarantined ∧ row'.result = some (resultCanonicalValue r) := by
  simp only [storeResult, canonical, canonical', canonOr, ok_bind, sendState, Cell.updateSession,
    Cell.submitTx, opened, Option.map_some, if_true]
  refine ⟨_, _, rfl, ?_, rfl, rfl, rfl⟩
  simp only [Cell.hold, Cell.updateSession, Option.map_some, if_true, facts.verification]
  rfl

theorem applyResult_alike {y : JsonObject} (rule : quarantine.holds b.round = .ok true)
    (read : checkResultBody w k b = .ok r) (read' : checkResultBody w k { b with result := y } = .ok r')
    (facts : SameFacts r r') :
    (applyResult w k c { b with result := y } quarantine now).map Prod.fst =
      (applyResult w k c b quarantine now).map Prod.fst ∨
      ∃ d row', (applyResult w k c b quarantine now).map Prod.fst = .ok d ∧
        (applyResult w k c { b with result := y } quarantine now).map Prod.fst = .ok
          (d.hold (resultCanonicalValue r')) ∧
        d.session = some row' ∧ row'.state = .quarantined ∧
        row'.result = some (resultCanonicalValue r) := by
  obtain ⟨_, text, canonical⟩ := checkResultBody_ok read
  obtain ⟨_, text', canonical'⟩ := checkResultBody_ok read'
  simp only [WorkSession.applyResult, read, read', ok_bind]
  split
  · exact .inl rfl
  · next out known =>
    split
    · exact .inl rfl
    split
    · exact .inl rfl
    rcases created : findOrCreate w k c out.teamID now with ⟨c₁, row⟩
    dsimp only
    split
    · exact .inl rfl
    split
    · exact .inl rfl
    have opened : c₁.session = some row := by
      unfold findOrCreate at created
      split at created <;> cases created
      · next opened => exact opened
      · rfl
    obtain ⟨d, row', stored, stored', held⟩ := storeResult_alike opened canonical canonical' facts
    refine .inr ⟨d, row', ?_, ?_, held⟩
    · rw [rule, ok_bind, stored]
      rfl
    · rw [rule, ok_bind, stored']
      rfl

def heldContent (c : Cell δ) (now : Time) : Except Error (Cell δ × String × Option Request.Result) :=
  match c.session with
  | none => .ok (c, "", none)
  | some row =>
    match row.state with
    | .closed outcome => do
      let (note, result) ← requesterView row outcome
      return (c, note, result)
    | .awaitingResult => .ok (c, "", none)
    | .quarantined => .ok (c, "", none)
    | .open => do
      let c ← closeSessionTx c row .cancelled "" none (some (.role .worker)) now
      return (c, if 1 < row.round ∨ 0 < row.seq then "session cancelled" else "", none)

/-- The note and the result that a completion stores after `EarlyComplete`. -/
def effective (note : String) (result : Option Request.Result) (p : Cell δ × CompleteContent) :
    Cell δ × String × Option Request.Result :=
  (p.1, if p.2.override then p.2.note else note, if p.2.override then p.2.result else result)

theorem contentQuarantined_rule (rule : quarantine.holds round = .ok true) (hadResult : Bool) :
    contentQuarantined hadResult quarantine round = .ok hadResult := by
  cases hadResult with
  | false => rfl
  | true => exact rule

theorem effective_dropped (note : String) (result : Option Request.Result) (c : Cell δ) :
    effective note result (c, if result.isSome || note != "" then .drop else .keep) = (c, "", none) := by
  cases had : (result.isSome || note != "") with
  | true => rfl
  | false =>
    simp only [Bool.or_eq_false_iff, bne_eq_false_iff_eq, Option.isSome_eq_false_iff,
      Option.isNone_iff_eq_none] at had
    rw [had.1, had.2]
    rfl

theorem earlyComplete_effective {result : Option Request.Result} (cell : RequesterCell c)
    (rule : quarantine.holds c.round = .ok true) :
    (earlyComplete w k c note result quarantine now).map (effective note result) = heldContent c now := by
  cases opened : c.session with
  | none =>
    rw [Cell.round, opened] at rule
    have rule' : quarantine.holds 0 = .ok true := rule
    simp only [WorkSession.earlyComplete, opened, earlyCompleteNoSession,
      work_of_undebated cell.request.typ, heldContent, contentQuarantined_rule rule', ok_bind,
      Bool.false_eq_true, if_false]
    exact congrArg Except.ok (effective_dropped note result c)
  | some row =>
    rw [Cell.round, opened] at rule
    have rule' : quarantine.holds row.round = .ok true := rule
    simp only [WorkSession.earlyComplete, opened, (cell.session row opened).2, heldContent,
      contentQuarantined_rule rule', ok_bind, earlyCompleteWork]
    cases row.state with
    | awaitingResult => rfl
    | quarantined => rfl
    | closed outcome =>
      dsimp only
      rw [map_bind]
      rfl
    | «open» =>
      dsimp only
      rw [map_bind]
      congr 1
      funext c₁
      split
      · rfl
      · exact congrArg Except.ok (effective_dropped note result c₁)

theorem applyComplete_held {reply : Request.Reply} {result : Option JsonObject}
    {decoded : Option Request.Result} (cell : RequesterCell c) (rule : quarantine.holds c.round = .ok true)
    (read : Request.checkCompleteBody reply note result = .ok decoded) :
    (Request.applyComplete w k c reply note result quarantine now).map Prod.fst =
      (heldContent c now >>= fun held => Request.storedOrBadBody held.2.2 >>= fun stored =>
        Request.applyMirror w k held.1 reply
          (fun r => { r with note := nullIfEmpty held.2.1, result := stored }) now) := by
  have same : (earlyComplete w k c note decoded quarantine now).map (effective note decoded) =
      heldContent c now := earlyComplete_effective cell rule
  simp only [Request.applyComplete, read, ok_bind, ← same]
  cases earlyComplete w k c note decoded quarantine now with
  | error e => rfl
  | ok early =>
    simp only [map_ok, ok_bind, effective, map_bind]
    congr 1
    funext stored
    cases Request.applyMirror w k early.1 reply _ now <;> rfl

theorem requesterStep_mails {created : WireTime} {body body' : MailBody} (sameID : body'.requestID = body.requestID) :
    (requesterStep w k c (.mail ⟨created, body⟩ quarantine now) = c ∧
      requesterStep w k c (.mail ⟨created, body'⟩ quarantine now) = c) ∨
    (requesterStep w k c (.mail ⟨created,
      body⟩ quarantine now) = commit c (receiveAtRequester w k c body quarantine now) ∧
      requesterStep w k c (.mail ⟨created, body'⟩ quarantine now) = commit c
        (receiveAtRequester w k c body' quarantine now)) := by
  simp only [requesterStep, sameID]
  by_cases guard : (Mail.mk created body).receivable now = true ∧ body.requestID = k.id
  · exact .inr ⟨if_pos guard, if_pos guard⟩
  · exact .inl ⟨if_neg guard, if_neg guard⟩

theorem alike_step (cell : RequesterCell c) (alike : Alike w k c e e') :
    LowEq (requesterStep w k c e) (requesterStep w k c e') := by
  cases alike with
  | same e => exact .same
  | result created b y quarantine now r r' rule read read' facts =>
    have cell' : RequesterCell (requesterStep w k c (.mail ⟨created, .result b⟩ quarantine now)) :=
      (requesterStep_refines_any cell _).choose_spec.1.cell
    have sameID : (MailBody.result { b with result := y }).requestID = (MailBody.result b).requestID := rfl
    rcases requesterStep_mails (w := w) (k := k) (c := c) sameID with ⟨same, same'⟩ | ⟨same, same'⟩
    · rw [same, same']
      exact .same
    · rw [same] at cell' ⊢
      rw [same']
      have first : ∀ b, receiveAtRequester w k c (.result b) quarantine now =
          (applyResult w k c b quarantine now).map Prod.fst := fun b => bind_fst _
      rw [first] at cell' ⊢
      rw [first]
      rcases applyResult_alike rule read read' facts with equal | ⟨d, row, ok, ok', opened, held, stored⟩
      · rw [equal]
        exact .same
      · rw [ok] at cell' ⊢
        rw [ok']
        exact .held row r r' ⟨cell', opened,
          held⟩ stored (checkResultBody_ok read).1 (checkResultBody_ok read').1 facts
  | cancel created b reason quarantine now rule read read' =>
    have same : requesterStep w k c (.mail ⟨created, .wsCancel { b with reason := reason }⟩
        quarantine now) = requesterStep w k c (.mail ⟨created, .wsCancel b⟩ quarantine now) := by
      simp only [requesterStep, MailBody.requestID, Mail.receivable, receiveAtRequester,
        WorkSession.applyCancel, read, read']
    exact same ▸ .same
  | complete created reply note note' result result' quarantine now decoded decoded' rule read read' =>
    have sameID : (MailBody.reply { reply with content := .complete note' result' }).requestID =
      (MailBody.reply { reply with content := .complete note result }).requestID := rfl
    rcases requesterStep_mails (w := w) (k := k) (c := c) sameID with ⟨same, same'⟩ | ⟨same, same'⟩
    · rw [same, same']
      exact .same
    · have first : ∀ note result decoded, Request.checkCompleteBody reply note result = .ok decoded →
          receiveAtRequester w k c (.reply { reply with content := .complete note result })
            quarantine now = _ := fun note result decoded read =>
        (bind_fst _).trans (applyComplete_held cell rule read)
      rw [same, same', first note result decoded read, first note' result' decoded' read']
      exact .same

/-! ## Two runs -/

def releasesHeld (c : Cell δ) : RequesterEvent → Bool
  | .op .releaseInTx _ => c.session.any fun row => row.state == .quarantined
  | _ => false

theorem hold_hold (c : Cell δ) (x y : JsonObject) : (c.hold x).hold y = c.hold y := by
  simp only [Cell.hold, Cell.updateSession, Option.map_map]
  congr 2
  funext row
  by_cases held : row.state = .quarantined <;> simp [held]

/-- With another result of the same facts nothing else differs. -/
theorem Held.keeps (held : Held c row) (stored : row.result = some (resultCanonicalValue r))
    (formed : r.d14.WellFormed) (formed' : r'.d14.WellFormed) (facts : SameFacts r r') (e : RequesterEvent) :
    LowEq (requesterStep w k c e) ((requesterStep w k c e).hold (resultCanonicalValue r')) := by
  obtain ⟨label, refines, _⟩ := requesterStep_refines_any (w := w) (k := k) held.cell e
  cases opened : (requesterStep w k c e).session with
  | none =>
    have same : (requesterStep w k c e).hold (resultCanonicalValue r') = requesterStep w k c e := by
      rw [Cell.hold, Cell.updateSession, opened, Option.map_none, ← opened]
    rw [same]
    exact .same
  | some row' =>
    by_cases quarantined : row'.state = .quarantined
    · have before : c.requester.authority.row.state = .quarantined := by
        rw [Requester.authority, row_requester held.opened]
        exact held.quarantined
      have kept := refines.step.authority.quarantined before (by
        rw [Requester.authority, row_requester opened]
        exact quarantined)
      rw [Requester.authority, Requester.authority, row_requester opened, row_requester held.opened] at kept
      exact .held row' r r' ⟨refines.cell, opened,
        quarantined⟩ ((congrArg AuthorityRow.result kept).trans stored) formed formed' facts
    · rw [hold_of_not opened quarantined]
      exact .same

theorem Alike.unreleased (alike : Alike w k c e e') (held : Held c row)
    (unreleased : releasesHeld c e = false) (now : Time) : e' ≠ .op .releaseInTx now := by
  cases alike with
  | same e =>
    rintro rfl
    simp [releasesHeld, held.opened, held.quarantined] at unreleased
  | result => simp
  | cancel => simp
  | complete => simp

/-- Cells that differ in held results only stay so. -/
theorem LowEq.step (cell : RequesterCell c) (low : LowEq c c') (alike : Alike w k c e e')
    (unreleased : releasesHeld c e = false) :
    LowEq (requesterStep w k c e) (requesterStep w k c' e') := by
  have steps := alike_step cell alike
  cases low with
  | same => exact steps
  | held row r r' held stored formed formed' facts =>
    rw [held.step (alike.unreleased held unreleased)]
    have kept := held.keeps stored formed formed' facts e (w := w) (k := k)
    generalize requesterStep w k c e' = d at steps ⊢
    cases steps with
    | same => exact kept
    | held =>
      rw [hold_hold]
      exact kept

/-- Two runs with the same events but for held content, in which no held result is
released. -/
inductive AlikeRuns (w : Wiring δ) (k : Key) :
    Cell δ → List RequesterEvent → List RequesterEvent → Prop where
  | nil (c : Cell δ) : AlikeRuns w k c [] []
  | cons (c : Cell δ) (e e' : RequesterEvent) (es es' : List RequesterEvent)
      (alike : Alike w k c e e') (unreleased : releasesHeld c e = false)
      (rest : AlikeRuns w k (requesterStep w k c e) es es') : AlikeRuns w k c (e :: es) (e' :: es')

theorem AlikeRuns.lowEq {es es' : List RequesterEvent} (alike : AlikeRuns w k c es es')
    (cell : RequesterCell c) (low : LowEq c c') : RequesterCell (run (requesterStep w k) c es) ∧
      LowEq (run (requesterStep w k) c es) (run (requesterStep w k) c' es') := by
  induction alike generalizing c' with
  | nil c => exact ⟨cell, low⟩
  | cons c e e' es es' alike unreleased rest ih =>
    have cell' : RequesterCell (requesterStep w k c e) := (requesterStep_refines_any cell e).choose_spec.1.cell
    exact ih cell' (low.step cell alike unreleased)

theorem discard_closes (h : WorkSession.discard c now = .ok c') :
    ∃ row, c'.session = some row ∧ row.state = .closed .cancelled := by
  simp only [WorkSession.discard, bind_eq_ok, require_eq_ok, findRow_eq_ok] at h
  obtain ⟨row, opened, _, _, _, work, _, _, viewed, wrote, recorded⟩ := h
  obtain ⟨_, _, _, _, rfl⟩ := writeRequesterViewTx_ok work wrote
  obtain ⟨_, _, rfl⟩ := writeExperienceTx_ok recorded
  simp only [sendState, Cell.updateSession, Cell.submitTx, Cell.updateRequest, Cell.revokeGrants,
    opened, Option.map_some]
  exact ⟨_, rfl, rfl⟩

theorem requestChanges_opens {changes : String} (h : requestChanges c changes now = .ok c') :
    ∃ row, c'.session = some row ∧ row.state = .open := by
  simp only [requestChanges, bind_eq_ok, require_eq_ok, findRow_eq_ok] at h
  obtain ⟨_, _, row, opened, _, _, _, _, _, _, done⟩ := h
  cases done
  simp only [sendState, Cell.updateSession, Cell.submitTx, opened, Option.map_some]
  exact ⟨_, rfl, rfl⟩

/-- The operations that end a quarantine without handing the result out. -/
def RequesterOp.dropsResult : RequesterOp → Bool
  | .discard => true
  | .requestChanges _ => true
  | _ => false

theorem LowEq.dropsResult {op : RequesterOp} {d : Cell δ} (low : LowEq c c')
    (drops : op.dropsResult = true) (h : op.run w k c now = .ok d) : op.run w k c' now = .ok d := by
  have left : ∃ row, d.session = some row ∧ row.state ≠ .quarantined := by
    cases op with
    | discard =>
      obtain ⟨row, opened, closed⟩ := discard_closes h
      exact ⟨row, opened, by rw [closed]; simp⟩
    | requestChanges changes =>
      obtain ⟨row, opened, isOpen⟩ := requestChanges_opens h
      exact ⟨row, opened, by rw [isOpen]; simp⟩
    | _ => cases drops
  cases low with
  | same => exact h
  | held row r r' held stored formed formed' facts =>
    have commutes : Commutes (resultCanonicalValue r') (op.run w k c now)
        (op.run w k (c.hold (resultCanonicalValue r')) now) :=
      held.op (by rintro rfl; cases drops)
    rw [h] at commutes
    obtain ⟨row', opened, notHeld⟩ := left
    generalize op.run w k (c.hold (resultCanonicalValue r')) now = t at commutes ⊢
    cases commutes with
    | ok => rw [hold_of_not opened notHeld]

/-- Every lookup answers the same for the two cells, whatever other sessions there are. -/
structure SameViews (c c' : Cell δ) : Prop where
  list : ∀ before after filter,
    list (before ++ c'.session.toList ++ after) filter = list (before ++ c.session.toList ++ after) filter
  get : ∀ before after id,
    get (before ++ c'.session.toList ++ after) id = get (before ++ c.session.toList ++ after) id
  getByRequestID : ∀ before after requests id, getByRequestID (before ++ c'.session.toList ++ after) requests id =
      getByRequestID (before ++ c.session.toList ++ after) requests id

theorem LowEq.sameViews (low : LowEq c c') : SameViews c c' := by
  have others (rows : List Session) : List.Forall₂ LooksLike rows rows := List.forall₂_same.mpr fun a _ => .refl a
  have rows (before after : List Session) :=
    List.rel_append (List.rel_append (others before) low.looksLike) (others after)
  exact ⟨fun before after => list_looksLike (rows before after),
    fun before after => get_looksLike (rows before after),
    fun before after => getByRequestID_looksLike (rows before after)⟩

/-- Content that is held back interferes with nothing: as long as it is not released,
every view and the record of the request are the same in both runs, and once it is
discarded or a new round starts, so is everything else. -/
theorem quarantined_content_does_not_interfere (w : Wiring δ) (k : Key) (undebated : δ)
    (es es' : List RequesterEvent) (alike : AlikeRuns w k { debate := undebated } es es') :
    SameViews (requesterAfter w k undebated es) (requesterAfter w k undebated es') ∧
      (requesterAfter w k undebated es').request = (requesterAfter w k undebated es).request ∧
      ∀ (op : RequesterOp) (now : Time) (d : Cell δ), op.dropsResult = true →
      op.run w k (requesterAfter w k undebated es) now = .ok d →
        op.run w k (requesterAfter w k undebated es') now = .ok d := by
  have low := (alike.lowEq (.blank undebated) .same).2
  exact ⟨low.sameViews, low.request, fun op now d drops => low.dropsResult drops⟩

/-- Every result is held back. -/
def sensitive : Quarantine := some fun _ => .ok true

/-- A result of the worker of `sampleParties`, by its summary. -/
def summarised (summary : String) : WorkSession.Result :=
  { d14 := { status := "pass", summary }, verification := "none" }

def heldRun (summary : String) : List RequesterEvent :=
  [.op (.submit sampleTask 0 false) 0, sampleReply 1 .accept,
    .mail ⟨0, .result { sampleResult with result := resultCanonicalValue (summarised summary) }⟩
      sensitive 0]

theorem heldRun_looks_the_same :
    SameViews (requesterAfter sampleParties.atRequester sampleParties.requesterKey () (heldRun "a"))
      (requesterAfter sampleParties.atRequester sampleParties.requesterKey () (heldRun "b")) := by
  have read : ∀ summary ∈ ["a", "b"], checkResultBody sampleParties.atRequester sampleParties.requesterKey
        { sampleResult with result := resultCanonicalValue (summarised summary) } =
      .ok (summarised summary) := by
    decide +kernel
  have facts : SameFacts (summarised "a") (summarised "b") := ⟨rfl, rfl, by decide +kernel, by decide +kernel, rfl⟩
  exact (quarantined_content_does_not_interfere _ _ () _ _
    (.cons _ _ _ _ _ (.same _) rfl (.cons _ _ _ _ _ (.same _) rfl (.cons _ _ _ _ _
      (.result 0 _ _ sensitive 0 _ _ rfl (read "a" (by decide)) (read "b" (by decide)) facts) rfl
      (.nil _))))).1

end Agentnet
