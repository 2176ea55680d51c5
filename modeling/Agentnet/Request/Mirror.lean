import Agentnet.WorkSession.Receive

/-! The sender's mirror of a request: the lifecycle mails of the recipient move the
`out` row, ordered by their sequence number, and drive the session hooks. -/

namespace Agentnet.Request
open Agentnet.Lib
open WorkSession (Quarantine openSession earlyComplete sessionEndedTx)

variable {δ : Type}

def maxDeferAhead : Int := 90 * day

/-- The hooks of a request that reached `state`: a debate is told of its end, and a
late decline or cancelled ends an open session. -/
def mirrorHooks (w : Wiring δ) (k : Key) (c : Cell δ) (typ : RequestType) (state : State) (now : Time) :
    Except Error (Cell δ) :=
  match state with
  | .declined => do
    let c ← w.endDebateTx k typ now c
    sessionEndedTx w k c now
  | .cancelled => do
    let c ← w.endDebateTx k typ now c
    sessionEndedTx w k c now
  | .completed => w.endDebateTx k typ now c
  | _ => .ok c

/-- The row after a mail that is news; `extra` are the columns of its kind. -/
def newsRow (reply : Reply) (extra : Row → Row) (now : Time) (r : Row) : Row :=
  extra { r with state := reply.content.state, stateSeq := reply.seq, stateAt := some reply.at'
                 updated := storeTime now }

/-- A reply that is not newer changes nothing. -/
def mirrorUpdate (w : Wiring δ) (k : Key) (c : Cell δ) (row : Row) (reply : Reply)
    (extra : Row → Row) (now : Time) : Except Error (Cell δ) :=
  if row.stateSeq < reply.seq then
    mirrorHooks w k (c.updateRequest (newsRow reply extra now)) row.typ reply.content.state now
  else .ok c

/-- An answered cancel wish is marked refused, whether or not the mail was news. -/
def answerCancel (row : Row) (final : State) (now : Time) (c : Cell δ) : Cell δ :=
  if row.cancel = some .requested ∧ (final = .accepted ∨ final = .declined ∨ final = .completed) then
    c.updateRequest fun r => { r with cancel := some .refused, updated := storeTime now }
  else c

/-- `applyMirror`: only a higher sequence number moves the row. -/
def applyMirror (w : Wiring δ) (k : Key) (c : Cell δ) (reply : Reply) (extra : Row → Row) (now : Time) :
    Except Error (Cell δ) :=
  match c.request with
  | none => .ok c
  | some row => do
    let c ← mirrorUpdate w k c row reply extra now
    let final := if row.stateSeq < reply.seq then reply.content.state else row.state
    return answerCancel row final now c

/-- `decodeAtRequestSeq`: the checks every lifecycle mail starts with. -/
def checkReply (reply : Reply) : Except Error Unit := do
  require (validID reply.request) (.badBody "request: request must be a valid request id")
  require (1 ≤ reply.seq) (.badBody "request: seq must be >= 1")

/-- `applyAccept`. The session opens whenever the `out` row exists, also when the
mirror ignored the mail. -/
def applyAccept (w : Wiring δ) (k : Key) (c : Cell δ) (reply : Reply) (now : Time) : Except Error (Cell δ) := do
  checkReply reply
  let c ← applyMirror w k c reply id now
  match c.request with
  | none => return c
  | some row => openSession w k .requester c row.teamID now

def checkDeclineReason (code : DeclineCode) (reason : String) : Except Error Unit :=
  match code with
  | .user => do
    require (reason ≠ "") (.badBody "request: reason is required when code is user")
    orBadBody "request" (checkCodePoints "reason" reason 1 500 "")
  | _ => require (reason = "") (.badBody "request: reason must be absent unless code is user")

/-- `applyDecline`. -/
def applyDecline (w : Wiring δ) (k : Key) (c : Cell δ) (reply : Reply) (code : DeclineCode)
    (reason : String) (now : Time) : Except Error (Cell δ) := do
  checkReply reply
  checkDeclineReason code reason
  applyMirror w k c reply
    (fun r => { r with declineCode := some code, reason := nullIfEmpty reason }) now

/-- `applyDefer`. -/
def applyDefer (w : Wiring δ) (k : Key) (c : Cell δ) (reply : Reply) (until' : WireTime)
    (now : Time) : Except Error (Cell δ) := do
  checkReply reply
  require (reply.at' < until') (.badBody "request: until must be after at")
  require (parseWireTime until' ≤ parseWireTime reply.at' + maxDeferAhead)
    (.badBody "request: until must be at most 90 days after at")
  applyMirror w k c reply (fun r => { r with deferredUntil := some until' }) now

/-- The canonical form of a whole `request.complete` body. -/
def completeCanonical (reply : Reply) (note : String) (result : Option JsonObject) : Except String String :=
  canonicalValue (.obj ([("at", .str (wireTimeText reply.at')), ("request", .str reply.request),
    ("seq", .num (.int reply.seq))] ++ textMember "note" note ++ optMember "result" .obj result))

def decodeCompleteResult : Option JsonObject → Except Error (Option Result)
  | none => .ok none
  | some obj => do
    let result ← orBadBody "request" (decodeResult obj)
    return some result

def completeSizeOrBadBody : Except String String → Except Error Unit
  | .error e => .error (.badBody ("request: " ++ e))
  | .ok canon =>
    match checkCompleteSize canon with
    | .ok _ => .ok ()
    | .error _ => .error (.badBody "request: canonical complete body is over the byte limit")

def storedOrBadBody (result : Option Result) : Except Error (Option JsonObject) :=
  match storedResult result with
  | .ok stored => .ok stored
  | .error _ => .error (.badBody "request: result has no canonical form")

/-- The checks of a `request.complete` body, before any row is read. -/
def checkCompleteBody (reply : Reply) (note : String) (result : Option JsonObject) :
    Except Error (Option Result) := do
  checkReply reply
  let decoded ← decodeCompleteResult result
  orBadBody "request" (validateComplete note decoded)
  completeSizeOrBadBody (completeCanonical reply note result)
  return decoded

/-- `applyComplete`: the session decides about the content before the mirror runs.
The second component is whether the inbox copy is withheld. -/
def applyComplete (w : Wiring δ) (k : Key) (c : Cell δ) (reply : Reply) (note : String)
    (result : Option JsonObject) (quarantine : Quarantine) (now : Time) : Except Error (Cell δ × Bool) := do
  let decoded ← checkCompleteBody reply note result
  let (c, content) ← earlyComplete w k c note decoded quarantine now
  let note := if content.override then content.note else note
  let kept := if content.override then content.result else decoded
  let stored ← storedOrBadBody kept
  let c ← applyMirror w k c reply
    (fun r => { r with note := nullIfEmpty note, result := stored }) now
  return (c, content.withhold)

/-- `applyCancelled`. -/
def applyCancelled (w : Wiring δ) (k : Key) (c : Cell δ) (reply : Reply) (now : Time) : Except Error (Cell δ) := do
  checkReply reply
  applyMirror w k c reply id now

/-- One handler for each kind of reply. -/
def applyReply (w : Wiring δ) (k : Key) (c : Cell δ) (reply : Reply) (quarantine : Quarantine) (now : Time) :
    Except Error (Cell δ) :=
  match reply.content with
  | .accept => applyAccept w k c reply now
  | .decline code reason => applyDecline w k c reply code reason now
  | .defer until' => applyDefer w k c reply until' now
  | .complete note result => do
    let (c, _) ← applyComplete w k c reply note result quarantine now
    return c
  | .cancelled => applyCancelled w k c reply now

/-- The delivery state of a mail in the outbox, as `Cancel` and `Resend` read it. -/
inductive Delivery where
  | queued | relayed | delivered | expired | failed | missing
  deriving DecidableEq

/-- `BadStateError` of a request in the wrong state. -/
def badState (id : RequestID) (row : Row) : Error := .requestBadState row.state.text (id ++ " is " ++ row.state.text)

/-- The `out` row of the cell. -/
def findOutRow (c : Cell δ) : Except Error Row :=
  match c.request with
  | some row => .ok row
  | none => .error .unknownRequest

/-- `Cancel` by the sender. `cancelMail` is the delivery state of an earlier cancel. -/
def cancel (k : Key) (c : Cell δ) (reason : String) (cancelMail : Delivery) (now : Time) : Except Error (Cell δ) := do
  orField (whenPresent reason (checkCodePoints "reason" reason 1 500 "\n"))
  let row ← findOutRow c
  if row.state = .cancelled then return c
  else do
    require (¬(row.state = .accepted ∨ row.state = .declined ∨ row.state = .completed))
      (badState k.id row)
    if row.cancel = some .requested ∧
    (cancelMail = .queued ∨ cancelMail = .relayed ∨ cancelMail = .delivered) then return c
    else
      let c := c.submitTx now (.cancel { at' := wireTime now, request := k.id, reason })
      return c.updateRequest fun r =>
        { r with cancel := some .requested, cancelAt := some (storeTime now)
                 updated := storeTime now }

def resendMaxAge : Int := 21 * day

/-- `Resend` of the stored body. `mail` is the delivery state of the last send. -/
def resend (k : Key) (c : Cell δ) (mail : Delivery) (now : Time) : Except Error (Cell δ) := do
  let row ← findOutRow c
  let bad := Error.requestBadState row.state.text (k.id ++ " cannot be resent")
  require (row.state = .pending) bad
  require (row.cancel = none) bad
  require (now - parseWireTime row.created < resendMaxAge) bad
  require (mail = .expired ∨ mail = .failed) bad
  match row.body with
  | none => .error (.failed "request: stored body is not an object")
  | some body => return (c.submitTx now (.request body)).updateRequest fun r => { r with updated := storeTime now }

end Agentnet.Request
