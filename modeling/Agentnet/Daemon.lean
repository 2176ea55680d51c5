import Agentnet.WorkSession.Session

/-! What one daemon stores for one request, the mails it sends about it, and the
steps that sessions of both roles share. -/

namespace Agentnet
open Agentnet.Lib
open WorkSession (Session Outcome Role CancelledBy Grant Experience)

inductive MailBody where
  | request (body : Request.Body)
  | cancel (body : Request.CancelBody)
  | reply (body : Request.Reply)
  | result (body : WorkSession.ResultBody)
  | state (body : WorkSession.StateBody)
  | wsCancel (body : WorkSession.CancelBody)

/-- A mail in the outbox; `created` is signed with it and never changes. -/
structure Mail where
  created : WireTime
  body : MailBody

/-- One `request_cancels` row: a cancel that arrived before its request. -/
structure Tombstone where
  reason : Option String
  receivedAt : StoreTime
  deriving DecidableEq

/-- The rows of one daemon under one (peer, request id): the `out` request and the
requester session of the sender, or the `in` request, the cancel tombstone and the
worker session of the recipient. `sent` is the outbox. `revocations` counts the
calls of `RevokeGrants`. The rows of a debate are of the type `δ`. -/
structure Cell (δ : Type) where
  request : Option Request.Row := none
  tombstone : Option Tombstone := none
  session : Option Session := none
  grants : List Grant := []
  revocations : Nat := 0
  experience : List Experience := []
  debate : δ
  sent : List Mail := []

/-- A request, by its peer and its id. -/
structure Key where
  peer : PeerKey
  id : RequestID
  deriving DecidableEq

/-- The hooks of `internal/debate`, each inside the caller's transaction. -/
structure DebateHooks (δ : Type) where
  openedTx : Role → Key → Time → Cell δ → Except Error (Cell δ)
  cancelTx : Key → Time → Cell δ → Except Error (Cell δ)
  peerCancelTx : Key → Time → Cell δ → Except Error (Cell δ × Bool)
  earlyCompleteTx : Key → Time → Cell δ → Except Error (Cell δ)
  abandonTx : Key → Time → Cell δ → Except Error (Cell δ)
  receivedTx : Key → Request.Body → Time → Cell δ → Except Error (Cell δ)
  endedTx : Key → Time → Cell δ → Except Error (Cell δ)
  hasDecisionTx : Key → Cell δ → Bool

structure Wiring (δ : Type) where
  crypto : Crypto
  self : PeerKey
  debates : DebateHooks δ

/-- `EndedTx` of the debates, when the request is one. -/
def Wiring.endDebateTx {δ : Type} (w : Wiring δ) (k : Key) (typ : Request.RequestType) (now : Time) (c : Cell δ) :
    Except Error (Cell δ) :=
  if typ = .debate then w.debates.endedTx k now c else .ok c

namespace Cell

variable {δ : Type}

/-- `Outbox.SubmitTx`. -/
def submitTx (c : Cell δ) (now : Time) (body : MailBody) : Cell δ :=
  { c with sent := c.sent ++ [⟨wireTime now, body⟩] }

/-- An `UPDATE work_sessions` by the session's id. -/
def updateSession (c : Cell δ) (f : Session → Session) : Cell δ := { c with session := c.session.map f }

/-- An `UPDATE requests` by direction, peer and id. -/
def updateRequest (c : Cell δ) (f : Request.Row → Request.Row) : Cell δ := { c with request := c.request.map f }

/-- `RevokeGrants`: every grant of the session ends. -/
def revokeGrants (c : Cell δ) : Cell δ :=
  { c with
    grants := c.grants.map fun g => { g with state := "revoked" }
    revocations := c.revocations + 1 }

/-- `requestSummary`: the type, title and brief of the own request row. -/
def requestSummary (c : Cell δ) : Option Request.RequestType × String × String :=
  match c.request with
  | none => (none, "", "")
  | some row =>
    match row.body with
    | none => (some row.typ, "", "")
    | some body => (some row.typ, body.title, body.brief)

/-- The insert of `experience.WriteTx`: the table has one record per session and role. -/
def insertExperience (c : Cell δ) (record : Experience) : Except Error (Cell δ) := do
  require (c.experience = []) (.failed "experience: store record: UNIQUE constraint failed")
  return { c with experience := c.experience ++ [record] }

end Cell

namespace WorkSession

/-- A canonicalisation failure as an error of the caller's choice. -/
def canonOr (wrap : String → Error) : Except String String → Except Error String
  | .ok text => .ok text
  | .error e => .error (wrap e)

/-- The members of the experience record that depend on how the session ended. -/
def experienceOutcome (row : Session) (outcome : Outcome) (cancelledBy : Option CancelledBy) (record : Experience) :
    Experience :=
  match outcome with
  | .accepted =>
    let worked :=
      match row.result with
      | some stored =>
        if row.resultRound = some row.round then
          match decodeStoredResult stored with
          | .ok r => (r.d14.status, r.d14.summary)
          | .error _ => ("", "")
        else ("", "")
      | none => ("", "")
    { record with
      roundsRejected := row.round - 1
      changes := if 1 < row.round then row.changes.getD "" else ""
      lastChanges := if 1 < row.round then row.changes.getD "" else ""
      workedStatus := worked.1
      workedSummary := worked.2 }
  | .cancelled =>
    { record with
      cancelledBy := cancelledBy
      changes := if 1 < row.round then row.changes.getD "" else "" }

/-- `writeExperienceTx`: `row` is the session before its close. -/
def writeExperienceTx {δ : Type} (c : Cell δ) (row : Session) (outcome : Outcome)
    (verification : String) (verificationBy : Option Role) (cancelledBy : Option CancelledBy) (now : Time) :
    Except Error (Cell δ) :=
  let (typ, title, brief) := c.requestSummary
  c.insertExperience (experienceOutcome row outcome cancelledBy
    { session := row.id, request := row.requestID, role := row.role, peer := row.peer
      team := row.teamID, typ := typ, problemTitle := title, problemBrief := brief
      grants := c.grants, rounds := row.round, verification := verification
      verificationBy := verificationBy, outcome := outcome
      ageS := (now - parseWireTime row.opened).tdiv second
      opened := row.opened, closed := now })

/-- `BadStateError` of a session in the wrong state. -/
def badState (row : Session) : Error := .sessionBadState row.state.text (row.id ++ " is " ++ row.state.text)

/-- `debateBadState`. -/
def debateBadState (row : Session) (what : String) : Error :=
  .sessionBadState row.state.text
    (row.id ++ " is a debate session: " ++ what ++ " (use agentnet debate)")

def newSession (id : SessionID) (role : Role) (k : Key) (teamID : TeamID) (kind : Kind) (now : Time) : Session where
  id := id
  role := role
  peer := k.peer
  requestID := k.id
  teamID := teamID
  state := .open
  seq := 0
  round := 1
  opened := wireTime now
  stateAt := wireTime now
  updated := storeTime now
  kind := kind

end WorkSession

end Agentnet
