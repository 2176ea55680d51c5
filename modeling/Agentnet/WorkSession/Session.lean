import Agentnet.Request.Row
import Agentnet.WorkSession.Result

/-! One row of the `work_sessions` table, the `ws.*` bodies and the session id. -/

namespace Agentnet.WorkSession
open Agentnet.Request (JsonObject CancelMark)

inductive Outcome where
  | accepted | cancelled
  deriving DecidableEq

inductive StateName where
  | open | awaitingResult | quarantined | closed
  deriving DecidableEq

/-- The text in the database. -/
def StateName.text : StateName → String
  | .open => "open" | .awaitingResult => "awaiting_result"
  | .quarantined => "quarantined" | .closed => "closed"

/-- State and outcome together: the table's check that a row has an outcome iff
it is closed holds by construction. -/
inductive State where
  | open | awaitingResult | quarantined
  | closed (outcome : Outcome)
  deriving DecidableEq

namespace State

def name : State → StateName
  | .open => .open | .awaitingResult => .awaitingResult
  | .quarantined => .quarantined | .closed _ => .closed

def outcome : State → Option Outcome
  | .closed outcome => some outcome
  | _ => none

def isClosed (s : State) : Bool := s.name == .closed

def text (s : State) : String := s.name.text

def underReview (s : State) : Bool := s == .awaitingResult || s == .quarantined

@[simp] theorem isClosed_open : State.open.isClosed = false := rfl
@[simp] theorem isClosed_awaitingResult : State.awaitingResult.isClosed = false := rfl
@[simp] theorem isClosed_quarantined : State.quarantined.isClosed = false := rfl
@[simp] theorem isClosed_closed (o : Outcome) : (State.closed o).isClosed = true := rfl

theorem outcome_eq_some {s : State} {o : Outcome} : s.outcome = some o ↔ s = .closed o := by
  cases s <;> simp [outcome]

theorem underReview_iff {s : State} : s.underReview = true ↔ s = .awaitingResult ∨ s = .quarantined := by
  simp [underReview]

theorem live_of_underReview {s : State} (h : s.underReview = true) : s.isClosed = false := by
  rcases underReview_iff.mp h with rfl | rfl <;> rfl

end State

inductive Role where
  | requester | worker
  deriving DecidableEq

inductive Kind where
  | work | debate
  deriving DecidableEq

/-- The body of `ws.state`, requester to worker. -/
structure StateBody where
  at' : WireTime
  request : RequestID
  round : Nat
  seq : Nat
  session : SessionID
  state : StateName
  outcome : Option Outcome := none
  verification : String := ""
  changes : String := ""
  deriving DecidableEq

/-- The body of `ws.result`, worker to requester. -/
structure ResultBody where
  at' : WireTime
  request : RequestID
  result : JsonObject
  round : Nat
  session : SessionID

/-- The body of `ws.cancel`, worker to requester. -/
structure CancelBody where
  at' : WireTime
  request : RequestID
  session : SessionID
  reason : String := ""
  deriving DecidableEq

/-- One `work_sessions` row. -/
structure Session where
  id : SessionID
  role : Role
  peer : PeerKey
  requestID : RequestID
  teamID : TeamID
  state : State
  seq : Nat
  round : Nat
  result : Option JsonObject := none
  resultRound : Option Nat := none
  verification : Option String := none
  changes : Option String := none
  cancel : Option CancelMark := none
  released : Bool := false
  lastState : Option StateBody := none
  lastStateSent : Option StoreTime := none
  opened : WireTime
  stateAt : WireTime
  closed : Option WireTime := none
  updated : StoreTime
  kind : Kind := .work
  runner : Bool := false

/-- `DeriveID`: the first 16 bytes of the digest, as hex. -/
def deriveID (crypto : Crypto) (a b : PeerKey) (requestID : RequestID) : SessionID :=
  "s-" ++ String.ofList ((crypto.sha256
    ("dorylinae-ws-id-v1\n" ++ a ++ "\n" ++ b ++ "\n" ++ requestID)).toList.take 32)

/-- `verificationActor`: who set a verification value. -/
def verificationActor (verification : String) : Option Role :=
  if verification = "human_accepted" then some .requester
  else if verification = "tests_passed" then some .worker
  else none

inductive CancelledBy where
  | role (r : Role)
  | timeout
  deriving DecidableEq

structure Grant where
  action : String
  sensitive : Bool
  state : String
  deriving DecidableEq

/-- The input of one experience record; the stored text is a function of it. -/
structure Experience where
  session : SessionID
  request : RequestID
  role : Role
  peer : PeerKey
  team : TeamID
  typ : Option Request.RequestType
  problemTitle : String
  problemBrief : String
  grants : List Grant
  rounds : Nat
  changes : String := ""
  lastChanges : String := ""
  workedStatus : String := ""
  workedSummary : String := ""
  roundsRejected : Nat := 0
  cancelledBy : Option CancelledBy := none
  verification : String
  verificationBy : Option Role
  outcome : Outcome
  ageS : Int
  opened : WireTime
  closed : Time
  deriving DecidableEq

/-- `decodeStoredResult`. -/
def decodeStoredResult (stored : JsonObject) : Except Error Result :=
  match decodeResult stored with
  | .ok r => .ok r
  | .error e => .error (.failed ("worksession: decode stored result: " ++ e.text))

end Agentnet.WorkSession
