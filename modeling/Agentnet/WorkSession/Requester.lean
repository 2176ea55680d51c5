import Agentnet.Daemon

/-! The requester's session, which is authoritative: its own transitions, the
mails of the worker, and the hooks of the request mirror. Each definition is one
transaction; an error rolls it back. -/

namespace Agentnet.Request

/-- The canonical object of a result that is about to be stored. -/
def storedResult : Option Result → Except Error (Option JsonObject)
  | none => .ok none
  | some r =>
    match canonicalResult r with
    | .ok _ => .ok (some (resultCanonicalValue r))
    | .error e => .error (.failed e)

/-- `SetOutContentTx`: replaces the content of a completed record. -/
def setOutContentTx {δ : Type} (c : Cell δ) (note : String) (result : Option Result) (now : Time) :
    Except Error (Cell δ) := do
  let stored ← storedResult result
  return c.updateRequest fun r =>
    if r.state = .completed then
      { r with note := nullIfEmpty note, result := stored, updated := storeTime now }
    else r

end Agentnet.Request

namespace Agentnet.WorkSession
open Agentnet.Lib

/-- The quarantine rule of one transaction, by round; `none` never quarantines.
Round 0 stands for a session that does not exist yet. -/
abbrev Quarantine := Option (Nat → Except Error Bool)

/-- Whether the result of the round is held back. -/
def Quarantine.holds : Quarantine → Nat → Except Error Bool
  | none, _ => .ok false
  | some rule, round => rule round

variable {δ : Type}

def findRow (c : Cell δ) : Except Error Session :=
  match c.session with
  | some row => .ok row
  | none => .error .unknownSession

/-- The `ws.state` body for a transition of `row` to `state` at `seq`. -/
def stateBody (row : Session) (seq : Nat) (state : State) (verification changes : String) (now : Time) :
    StateBody where
  at' := wireTime now
  request := row.requestID
  round := row.round
  seq := seq
  session := row.id
  state := state.name
  outcome := state.outcome
  verification := verification
  changes := changes

/-- `sendState`: store the body as `last_state` and submit it. -/
def sendState (c : Cell δ) (body : StateBody) (now : Time) : Cell δ :=
  (c.updateSession fun r =>
    { r with lastState := some body, lastStateSent := some (storeTime now) }).submitTx now
    (.state body)

/-- `requesterView`: what the requester stores in its record for a closed session. -/
def requesterView (row : Session) (outcome : Outcome) : Except Error (String × Option Request.Result) :=
  match outcome, row.result with
  | .cancelled, _ => .ok ("session cancelled", none)
  | .accepted, none => .ok ("", none)
  | .accepted, some stored => do
    let result ← decodeStoredResult stored
    return ("", some result.d14)

/-- `writeRequesterViewTx`. -/
def writeRequesterViewTx (c : Cell δ) (row : Session) (outcome : Outcome) (now : Time) : Except Error (Cell δ) :=
  match row.kind with
  | .debate => .ok c
  | .work => do
    let (note, result) ← requesterView row outcome
    Request.setOutContentTx c note result now

/-- `closeSessionTx` of the requester's `row`. -/
def closeSessionTx (c : Cell δ) (row : Session) (outcome : Outcome) (verification : String)
    (verificationBy : Option Role) (cancelledBy : Option CancelledBy) (now : Time) : Except Error (Cell δ) := do
  let seq := row.seq + 1
  let c := sendState c (stateBody row seq (.closed outcome) verification "" now) now
  let c := c.updateSession fun r =>
    { r with
      state := .closed outcome, seq := seq, verification := nullIfEmpty verification
      stateAt := wireTime now, closed := some (wireTime now), updated := storeTime now }
  let c ← writeRequesterViewTx c.revokeGrants row outcome now
  writeExperienceTx c row outcome verification verificationBy cancelledBy now

/-- `AcceptResult`. -/
def acceptResult (c : Cell δ) (now : Time) : Except Error (Cell δ) := do
  let r ← findRow c
  require (r.role = .requester) .notRequester
  require (r.kind = .work) (debateBadState r "debates have no result to accept")
  require (r.state = .awaitingResult) (badState r)
  let verification := r.verification.getD ""
  closeSessionTx c r .accepted verification (verificationActor verification) none now

/-- `AcceptResultInTx`, after a human approval. -/
def acceptResultInTx (c : Cell δ) (now : Time) : Except Error (Cell δ) := do
  let r ← findRow c
  require (r.role = .requester) .notRequester
  require (r.kind = .work) (debateBadState r "debates have no result to accept")
  require (r.state = .awaitingResult) (badState r)
  closeSessionTx c r .accepted "human_accepted" (some .requester) none now

/-- `RequestChanges`: a new round; the stored result belonged to the one that ended. -/
def requestChanges (c : Cell δ) (changes : String) (now : Time) : Except Error (Cell δ) := do
  orField (checkCodePoints "changes" changes 1 4000 "\n\t")
  let r ← findRow c
  require (r.role = .requester) .notRequester
  require (r.kind = .work) (debateBadState r "debates take no change requests")
  require (r.state = .awaitingResult ∨ r.state = .quarantined) (badState r)
  let newRound := r.round + 1
  let seq := r.seq + 1
  let c := sendState c (stateBody { r with round := newRound } seq .open "" changes now) now
  return c.updateSession fun r =>
    { r with
      state := .open, seq := seq, round := newRound, result := none, resultRound := none
      verification := none, changes := some changes, released := false
      stateAt := wireTime now, updated := storeTime now }

/-- `Discard`: the quarantined result is deleted unseen. -/
def discard (c : Cell δ) (now : Time) : Except Error (Cell δ) := do
  let r ← findRow c
  require (r.role = .requester) .notRequester
  require (r.kind = .work) (debateBadState r "debates are never quarantined")
  require (r.state = .quarantined) (badState r)
  let seq := r.seq + 1
  let c := sendState c (stateBody r seq (.closed .cancelled) "" "" now) now
  let c := c.updateSession fun r =>
    { r with
      state := .closed .cancelled, seq := seq, result := none, resultRound := none
      verification := none, closed := some (wireTime now), stateAt := wireTime now
      updated := storeTime now }
  let c ← writeRequesterViewTx c.revokeGrants r .cancelled now
  writeExperienceTx c r .cancelled "" none (some (.role .requester)) now

/-- `Cancel` by the requester. The reason is checked and dropped. -/
def cancel (w : Wiring δ) (k : Key) (c : Cell δ) (reason : String) (now : Time) : Except Error (Cell δ) := do
  orField (whenPresent reason (checkCodePoints "reason" reason 1 500 ""))
  let r ← findRow c
  require (r.role = .requester) .notRequester
  require (r.state = .open) (badState r)
  match r.kind with
  | .debate => w.debates.cancelTx k now c
  | .work => closeSessionTx c r .cancelled "" none (some (.role .requester)) now

/-- `ReleaseInTx`. -/
def releaseInTx (c : Cell δ) (now : Time) : Except Error (Cell δ) := do
  let r ← findRow c
  require (r.role = .requester) .notRequester
  require (r.kind = .work) (debateBadState r "debates are never quarantined")
  require (r.state = .quarantined) (badState r)
  let seq := r.seq + 1
  let c := sendState c (stateBody r seq .awaitingResult "" "" now) now
  return c.updateSession fun r =>
    { r with
      state := .awaitingResult, seq := seq, released := true
      stateAt := wireTime now, updated := storeTime now }

/-- `resendLastState`: the echo of the stored state as a new mail, at most every ten
minutes. It runs in a transaction of its own and swallows every error. -/
def resendLastState (c : Cell δ) (now : Time) : Cell δ :=
  match c.session with
  | none => c
  | some row =>
    match row.lastState with
    | none => c
    | some body =>
      if row.lastStateSent.any fun t => decide (now - parseStoreTime t < 10 * minute) then c
      else (c.updateSession fun r => { r with lastStateSent := some (storeTime now) }).submitTx
        now (.state body)

end Agentnet.WorkSession
