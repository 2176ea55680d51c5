import Agentnet.Request.Object

/-! One row of the `requests` table, and the lifecycle mails that move it. -/

namespace Agentnet.Request

inductive State where
  | pending | accepted | declined | deferred | completed | cancelled
  deriving DecidableEq

namespace State

/-- The text in the database. -/
def text : State → String
  | .pending => "pending" | .accepted => "accepted" | .declined => "declined"
  | .deferred => "deferred" | .completed => "completed" | .cancelled => "cancelled"

def ended (s : State) : Bool := s == .declined || s == .cancelled || s == .completed

def isOpen (s : State) : Bool := s == .pending || s == .deferred || s == .accepted

end State

inductive DeclineCode where
  | user | notTeamMember | unknownTeam | unverifiedPeer | inboxFull
  deriving DecidableEq

inductive DowngradedBy where
  | sender | receiver
  deriving DecidableEq

inductive FirstResponse where
  | accept | decline | defer
  deriving DecidableEq

/-- The `cancel` column, of a request and of a session. -/
inductive CancelMark where
  | requested | refused
  deriving DecidableEq

inductive ReplyContent where
  | accept
  | decline (code : DeclineCode) (reason : String)
  | defer (until' : WireTime)
  | complete (note : String) (result : Option JsonObject)
  | cancelled

structure Reply where
  at' : WireTime
  request : RequestID
  seq : Nat
  content : ReplyContent

/-- The state that a reply announces. -/
def ReplyContent.state : ReplyContent → State
  | .accept => .accepted
  | .decline _ _ => .declined
  | .defer _ => .deferred
  | .complete _ _ => .completed
  | .cancelled => .cancelled

/-- The body of `request.cancel`, sender to recipient. -/
structure CancelBody where
  at' : WireTime
  request : RequestID
  reason : String := ""
  deriving DecidableEq

/-- One `requests` row, `in` or `out`. The body column is the request whose
canonical form it holds, `none` for the empty body of an auto-declined row. -/
structure Row where
  teamID : TeamID
  typ : RequestType
  urgency : Urgency
  urgencyDeclared : Urgency
  downgradedBy : Option DowngradedBy := none
  body : Option Body
  bodyHash : String
  state : State
  stateSeq : Nat
  stateAt : Option WireTime := none
  deferredUntil : Option WireTime := none
  declineCode : Option DeclineCode := none
  reason : Option String := none
  note : Option String := none
  firstResponse : Option FirstResponse := none
  firstResponseAt : Option StoreTime := none
  created : WireTime
  receivedAt : Option StoreTime := none
  lastReply : Option Reply := none
  lastReplySent : Option StoreTime := none
  cancel : Option CancelMark := none
  cancelAt : Option StoreTime := none
  result : Option JsonObject := none
  updated : StoreTime
  introducer : Option PeerKey := none
  introducedAt : Option StoreTime := none

end Agentnet.Request
