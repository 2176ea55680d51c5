import Agentnet.WorkSession.Requester

/-! What arrives at the requester's session: `ws.result` and `ws.cancel` from the
worker, and the hooks that the request mirror runs in its own transaction. -/

namespace Agentnet.WorkSession
open Agentnet.Lib

variable {δ : Type}

inductive IgnoredReason where
  | kind | state | round
  deriving DecidableEq

inductive ResultOutcome where
  | orphan
  | ignored (reason : IgnoredReason)
  | applied (quarantined : Bool)
  deriving DecidableEq

def sizeOrBadBody : Except Error Unit → Except Error Unit
  | .ok _ => .ok ()
  | .error _ => .error (.badBody "worksession: canonical ws.result body is over the byte limit")

/-- The checks of a `ws.result` body, before any row is read. -/
def checkResultBody (w : Wiring δ) (k : Key) (b : ResultBody) : Except Error Result := do
  require (1 ≤ b.round) (.badBody "worksession: round must be >= 1")
  require (b.session = deriveID w.crypto w.self k.peer b.request)
    (.badBody "worksession: session is not the derived id for (to, from, request)")
  let result ← orBadBody "worksession" (decodeResult b.result)
  orBadBody "worksession" (validateResult result)
  let canon ← canonOr (fun e => .badBody ("worksession: " ++ e))
    (resultBodyCanonical b.session b.request b.round b.at' result)
  sizeOrBadBody (checkResultSize canon)
  return result

/-- Step 3: find the session row or create it, when the result overtook the accept. -/
def findOrCreate (w : Wiring δ) (k : Key) (c : Cell δ) (teamID : TeamID) (now : Time) : Cell δ × Session :=
  match c.session with
  | some row => (c, row)
  | none =>
    let row := newSession (deriveID w.crypto w.self k.peer k.id) .requester k teamID .work now
    ({ c with session := some row }, row)

/-- Step 5: the transition of an open session whose round the result is for. -/
def storeResult (c : Cell δ) (row : Session) (round : Nat) (result : Result) (quarantined : Bool)
    (now : Time) : Except Error (Cell δ) := do
  let newState := if quarantined then State.quarantined else .awaitingResult
  let seq := row.seq + 1
  let c := sendState c (stateBody row seq newState "" "" now) now
  let _ ← canonOr (fun e => .badBody ("worksession: " ++ e)) (canonicalResult result)
  return c.updateSession fun r =>
    { r with
      state := newState, seq := seq, result := some (resultCanonicalValue result)
      resultRound := some round, verification := some result.verification
      stateAt := wireTime now, updated := storeTime now }

/-- `applyResult`. -/
def applyResult (w : Wiring δ) (k : Key) (c : Cell δ) (b : ResultBody) (quarantine : Quarantine)
    (now : Time) : Except Error (Cell δ × ResultOutcome) := do
  let result ← checkResultBody w k b
  match c.request with
  | none => return (c, .orphan)
  | some out =>
    if out.typ = .debate then return (c, .ignored .kind)
    else if out.state.ended then return (c, .ignored .state)
    else
      let (c, row) := findOrCreate w k c out.teamID now
      if row.state ≠ .open then return (c, .ignored .state)
      else if b.round ≠ row.round then return (c, .ignored .round)
      else do
        let quarantined ← quarantine.holds b.round
        let c ← storeResult c row b.round result quarantined now
        return (c, .applied quarantined)

inductive CancelOutcome where
  | orphan | refused | cancelled
  deriving DecidableEq

/-- The checks of a `ws.cancel` body, before any row is read. -/
def checkCancelBody (w : Wiring δ) (k : Key) (b : CancelBody) : Except Error Unit := do
  require (b.session = deriveID w.crypto w.self k.peer b.request)
    (.badBody "worksession: session is not the derived id for (to, from, request)")
  orBadBody "worksession" (whenPresent b.reason (checkCodePoints "reason" b.reason 1 500 ""))

/-- `applyCancel`. The second component is whether the inbox copy is withheld: the
reason is stored nowhere else. -/
def applyCancel (w : Wiring δ) (k : Key) (c : Cell δ) (b : CancelBody) (quarantine : Quarantine)
    (now : Time) : Except Error (Cell δ × CancelOutcome × Bool) := do
  checkCancelBody w k b
  let withhold ← quarantine.holds ((c.session.map Session.round).getD 0)
  match c.session with
  | none => return (c, .orphan, withhold)
  | some row =>
    if row.state ≠ .open then return (c, .refused, withhold)
    else
      match row.kind with
      | .debate => do
        let (c, applied) ← w.debates.peerCancelTx k now c
        return (c, if applied then .cancelled else .refused, withhold)
      | .work => do
        let c ← closeSessionTx c row .cancelled "" none (some (.role .worker)) now
        return (c, .cancelled, withhold)

/-- `OpenSession` on either role. It keeps a session that exists. -/
def openSession (w : Wiring δ) (k : Key) (role : Role) (c : Cell δ) (teamID : TeamID) (now : Time) :
    Except Error (Cell δ) :=
  let sid :=
    match role with
    | .requester => deriveID w.crypto w.self k.peer k.id
    | .worker => deriveID w.crypto k.peer w.self k.id
  let kind := if c.request.any fun r => r.typ == .debate then Kind.debate else .work
  let opened : Cell δ :=
    match c.session with
    | some _ => c
    | none => { c with session := some (newSession sid role k teamID kind now) }
  match kind with
  | .debate => w.debates.openedTx role k now opened
  | .work => .ok opened

variable {c : Cell δ} {now : Time} {role : Role} {teamID : TeamID} {w : Wiring δ}

theorem work_of_undebated (undebated : ∀ r, c.request = some r → r.typ ≠ .debate) :
    (c.request.any fun r => r.typ == .debate) = false := by
  cases known : c.request with
  | none => rfl
  | some r => simpa using undebated r known

theorem openSession_of_opened {k : Key} {row : Session} (undebated : ∀ r, c.request = some r → r.typ ≠ .debate)
    (opened : c.session = some row) : openSession w k role c teamID now = .ok c := by
  simp only [openSession, work_of_undebated undebated, opened, Bool.false_eq_true, if_false]

/-- A session is opened once. -/
theorem openSession_ok {k : Key} {c' : Cell δ} (undebated : ∀ r, c.request = some r → r.typ ≠ .debate)
    (h : openSession w k role c teamID now = .ok c') : c.session.isSome ∧ c' = c ∨ c.session = none ∧
      ∃ sid, c' = { c with session := some (newSession sid role k teamID .work now) } := by
  cases opened : c.session with
  | some row =>
    rw [openSession_of_opened undebated opened] at h
    exact .inl ⟨rfl, (Except.ok.inj h).symm⟩
  | none =>
    simp only [openSession, work_of_undebated undebated, opened, Bool.false_eq_true, if_false] at h
    exact .inr ⟨rfl, _, (Except.ok.inj h).symm⟩

/-- `CompleteContent`: what replaces the content of a `request.complete`. -/
structure CompleteContent where
  override : Bool := false
  note : String := ""
  result : Option Request.Result := none
  withhold : Bool := false

namespace CompleteContent

def keep : CompleteContent := {}

def drop : CompleteContent := { override := true, withhold := true }

end CompleteContent

def contentQuarantined (hadResult : Bool) (quarantine : Quarantine) (round : Nat) : Except Error Bool :=
  if hadResult then quarantine.holds round else .ok false

/-- `EarlyComplete` while no session exists: the worker skipped or overtook the accept. -/
def earlyCompleteNoSession (c : Cell δ) (hadResult : Bool) (quarantine : Quarantine) :
    Except Error (Cell δ × CompleteContent) :=
  if c.request.any fun r => r.typ == .debate then .ok (c, .drop)
  else do
    let quarantined ← contentQuarantined hadResult quarantine 0
    return (c, if quarantined then .drop else .keep)

/-- `EarlyComplete` on a work session. -/
def earlyCompleteWork (c : Cell δ) (row : Session) (quarantined : Bool) (now : Time) :
    Except Error (Cell δ × CompleteContent) :=
  match row.state with
  | .closed outcome => do
    let (note, result) ← requesterView row outcome
    return (c, { override := true, note, result, withhold := quarantined })
  | .awaitingResult => .ok (c, .drop)
  | .quarantined => .ok (c, .drop)
  | .open => do
    let phase2 := 1 < row.round ∨ 0 < row.seq
    let content : CompleteContent :=
      if phase2 then { override := true, note := "session cancelled", withhold := true }
      else if quarantined then .drop else .keep
    let c ← closeSessionTx c row .cancelled "" none (some (.role .worker)) now
    return (c, content)

/-- `EarlyComplete` on a debate session: open ones close through the debate; on a
closed one the completion is the normal end. -/
def earlyCompleteDebate (w : Wiring δ) (k : Key) (c : Cell δ) (row : Session) (hadResult : Bool)
    (quarantine : Quarantine) (now : Time) : Except Error (Cell δ × CompleteContent) :=
  if row.state.isClosed then do
    let quarantined ← contentQuarantined hadResult quarantine row.round
    return (c, if quarantined then .drop else .keep)
  else do
    let c ← w.debates.earlyCompleteTx k now c
    return (c, .drop)

/-- `EarlyComplete`. -/
def earlyComplete (w : Wiring δ) (k : Key) (c : Cell δ) (note : String)
    (result : Option Request.Result) (quarantine : Quarantine) (now : Time) :
    Except Error (Cell δ × CompleteContent) :=
  let hadResult := result.isSome || note != ""
  match c.session with
  | none => earlyCompleteNoSession c hadResult quarantine
  | some row =>
    match row.kind with
    | .debate => earlyCompleteDebate w k c row hadResult quarantine now
    | .work => do
      let quarantined ← contentQuarantined hadResult quarantine row.round
      earlyCompleteWork c row quarantined now

/-- `SessionEndedTx`: a late decline or cancelled ends an open session. -/
def sessionEndedTx (w : Wiring δ) (k : Key) (c : Cell δ) (now : Time) : Except Error (Cell δ) :=
  match c.session with
  | none => .ok c
  | some row =>
    if row.state ≠ .open then .ok c
    else
      match row.kind with
      | .debate => w.debates.earlyCompleteTx k now c
      | .work => closeSessionTx c row .cancelled "" none (some (.role .worker)) now

end Agentnet.WorkSession
