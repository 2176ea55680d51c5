import Agentnet.Request.Submit
import Agentnet.WorkSession.Worker

/-! The recipient's side of the kinds `request` and `request.cancel`. What a
transaction reads of other rows and tables is its `Intake`. -/

namespace Agentnet.Request
open Agentnet.Lib

variable {δ : Type}

def maxOpenPerPeer : Nat := 100
def maxNewPerPeerPerDay : Nat := 200
def maxOpenPerIntroducer : Nat := 200
def maxNewPerIntroducerPerDay : Nat := 400
def introducerFreshFor : Int := 7 * day
def maxAge : Int := 30 * day
def maxTombstones : Nat := 1000
def tombstoneMaxAge : Int := 31 * day

/-- Who introduced the peer, and when. -/
structure Introduction where
  by' : PeerKey
  at' : StoreTime
  deriving DecidableEq

/-- `freshSince`: the earliest introduction that still counts towards the caps. -/
def freshSince (now : Time) : StoreTime := storeTime (now - introducerFreshFor)

def daySince (now : Time) : StoreTime := storeTime (now - day)

def budgetSince (now : Time) : StoreTime := storeTime (now - urgencyBudgetWindow)

/-- What the receive transaction reads beside the rows of its own key: the id check,
the peers table, the counts of `in` rows and the team tables. `budget u` counts the
sender's rows of urgency `u`. -/
structure Intake where
  idTaken : Bool := false
  introduction : Option Introduction := none
  daily : Nat := 0
  dailyIntroduced : Nat := 0
  openRows : Nat := 0
  openIntroduced : Nat := 0
  budget : Urgency → Nat := fun _ => 0
  unverifiedPeer : Bool := false
  teamActive : Bool := true
  teamHasMembers : Bool := true
  autoAccept : Bool := false

namespace Intake

/-- `freshAt`: the introducer caps apply to the sender. -/
def fresh (i : Intake) (now : Time) : Bool := i.introduction.any fun intro => decide (freshSince now ≤ intro.at')

/-- `checkDailyCaps`. -/
def checkDailyCaps (i : Intake) (now : Time) : Except Error Unit := do
  require (i.daily < maxNewPerPeerPerDay) (.limit "request: sender over the daily cap")
  require (i.fresh now → i.dailyIntroduced < maxNewPerIntroducerPerDay)
    (.limit "request: introducer over the daily cap")

/-- `openCapReached`. -/
def openCapReached (i : Intake) (now : Time) : Bool :=
  decide (maxOpenPerPeer ≤ i.openRows) ||
    (i.fresh now && decide (maxOpenPerIntroducer ≤ i.openIntroduced))

/-- `policyDeclineCode`. -/
def policyDeclineCode (i : Intake) : Option DeclineCode :=
  if i.unverifiedPeer then some .unverifiedPeer
  else if i.teamActive = false then some .unknownTeam
  else if i.teamHasMembers = false then some .notTeamMember
  else none

/-- `declineCode`: the open caps come last. -/
def declineCode (i : Intake) (now : Time) : Option DeclineCode :=
  match i.policyDeclineCode with
  | some code => some code
  | none => if i.openCapReached now then some .inboxFull else none

/-- `receiverUrgency`: the effective urgency, the declared one and who lowered it. -/
def receiverUrgency (i : Intake) (r : Body) : Urgency × Urgency × Option DowngradedBy :=
  match r.urgencyDeclared with
  | some declared => (r.urgency, declared, some .sender)
  | none =>
    match budgetLimit r.urgency with
    | none => (r.urgency, r.urgency, none)
    | some limit =>
      if limit ≤ i.budget r.urgency then (.normal, r.urgency, some .receiver)
      else (r.urgency, r.urgency, none)

end Intake

/-- The columns that the three inserts of an `in` row share. -/
def inRow (r : Body) (hash : String) (i : Intake) (now : Time) : Row where
  teamID := r.team
  typ := r.type
  urgency := r.urgency
  urgencyDeclared := effectiveDeclared r
  body := some r
  bodyHash := hash
  state := .pending
  stateSeq := 0
  created := r.created
  receivedAt := some (storeTime now)
  updated := storeTime now
  introducer := i.introduction.map Introduction.by'
  introducedAt := i.introduction.map Introduction.at'

def pendingRow (r : Body) (hash : String) (i : Intake) (now : Time) : Row :=
  { inRow r hash i now with
    urgency := (i.receiverUrgency r).1
    urgencyDeclared := (i.receiverUrgency r).2.1
    downgradedBy := (i.receiverUrgency r).2.2 }

/-- `storeDeclined`: the row keeps no content, and its reply is sent with it. -/
def storeDeclined (k : Key) (c : Cell δ) (r : Body) (hash : String) (code : DeclineCode) (i : Intake) (now : Time) :
    Cell δ :=
  let reply : Reply := { at' := wireTime now, request := k.id, seq := 1, content := .decline code "" }
  { c with
    request := some
      { inRow r hash i now with
        body := none, state := .declined, stateSeq := 1, declineCode := some code
        lastReply := some reply, lastReplySent := some (storeTime now) } }.submitTx now
    (.reply reply)

/-- `consumeTombstone`, when there is one: the row is born cancelled, at the time of
the cancel, and keeps no content that policy would have refused. -/
def consumeTombstone (k : Key) (c : Cell δ) (t : Tombstone) (r : Body) (hash : String) (i : Intake) (now : Time) :
    Cell δ :=
  let at' := parseStoreTime t.receivedAt
  let refused := i.policyDeclineCode.isSome
  { c with
    tombstone := none
    request := some
      { inRow r hash i now with
        body := if refused then none else some r
        state := .cancelled, stateSeq := 1, stateAt := some (wireTime at')
        reason := if refused then none else t.reason
        lastReply := some
          { at' := wireTime at', request := k.id, seq := 1, content := .cancelled }
        lastReplySent := some (storeTime at') } }

/-- `MarkRunnerTx`. -/
def markRunnerTx (c : Cell δ) : Cell δ := c.updateSession fun r => { r with runner := true }

/-- What became of the mail. -/
inductive ReceiveOutcome where
  | duplicate | conflict | cancelled
  | declined (code : DeclineCode)
  | stored (autoAccepted : Bool)
  deriving DecidableEq

/-- The insert of a pending row, and what follows it in the same transaction. -/
def storePending (w : Wiring δ) (k : Key) (c : Cell δ) (r : Body) (hash : String) (i : Intake)
    (now : Time) : Except Error (Cell δ × ReceiveOutcome) :=
  let c := { c with request := some (pendingRow r hash i now) }
  if r.type = .debate then do
    let c ← w.debates.receivedTx k r now c
    return (c, .stored false)
  else if i.autoAccept then do
    let c ← acceptInTx w k c none now
    return (markRunnerTx c, .stored true)
  else .ok (c, .stored false)

def requestSizeOrBadBody : Except Error Unit → Except Error Unit
  | .ok _ => .ok ()
  | .error _ => .error (.badBody "request: canonical request is over the byte limit")

/-- The checks of a `request` mail before any row is read; the body's hash. -/
def checkRequest (w : Wiring δ) (k : Key) (created : WireTime) (r : Body) : Except Error String := do
  orBadBody "request" (validate r)
  require (r.from' = k.peer) (.badBody "request: request.from does not match the mail sender")
  require (r.to' = w.self) (.badBody "request: request.to does not match the mail recipient")
  require (r.created ≤ created)
    (.badBody "request: request.created is after the mail's created time")
  let canon ← WorkSession.canonOr (fun e => .badBody ("request: " ++ e)) (canonical r)
  requestSizeOrBadBody (checkSizeFor r canon)
  return w.crypto.sha256 canon

/-- A request that is not known yet. -/
def applyNew (w : Wiring δ) (k : Key) (c : Cell δ) (r : Body) (hash : String) (i : Intake)
    (now : Time) : Except Error (Cell δ × ReceiveOutcome) := do
  require (¬(r.type = .debate ∧ w.debates.hasDecisionTx k c))
    (.badBody "request: debate request id already has a Decision")
  require (i.idTaken = false) (.badBody "request: request id is already used here")
  i.checkDailyCaps now
  match c.tombstone with
  | some t => return (consumeTombstone k c t r hash i now, .cancelled)
  | none => do
    require (now - parseWireTime r.created ≤ maxAge)
      (.badBody "request: request is older than 30 days and unknown here")
    match i.declineCode now with
    | some code => return (storeDeclined k c r hash code i now, .declined code)
    | none => storePending w k c r hash i now

/-- `apply`, the receiver of kind `request`. -/
def apply (w : Wiring δ) (k : Key) (c : Cell δ) (created : WireTime) (r : Body) (i : Intake)
    (now : Time) : Except Error (Cell δ × ReceiveOutcome) := do
  let hash ← checkRequest w k created r
  match c.request with
  | some row => return (c, if row.bodyHash = hash then .duplicate else .conflict)
  | none => applyNew w k c r hash i now

/-- A tombstone past its age is removed. -/
def pruneTombstone (now : Time) (c : Cell δ) : Cell δ :=
  { c with
    tombstone := c.tombstone.filter fun t => decide (storeTime (now - tombstoneMaxAge) ≤ t.receivedAt) }

inductive CancelOutcome where
  | cancelled | refused | duplicate | early | tombstoneLimit
  deriving DecidableEq

/-- `applyEarlyCancel`: a cancel that overtook its request. `tombstones` counts those
of the sender after the prune. -/
def applyEarlyCancel (k : Key) (c : Cell δ) (reason : String) (tombstones : Nat) (now : Time) :
    Cell δ × CancelOutcome :=
  let c := pruneTombstone now c
  if maxTombstones ≤ tombstones then (c, .tombstoneLimit)
  else
    ({ c with
      tombstone := some { reason := nullIfEmpty reason, receivedAt := storeTime now } }.submitTx
      now (.reply { at' := wireTime now, request := k.id, seq := 1, content := .cancelled }),
      .early)

def cancelledRow (reason : String) (reply : Reply) (now : Time) (r : Row) : Row :=
  { r with
    state := .cancelled, stateSeq := reply.seq, stateAt := some (wireTime now)
    reason := nullIfEmpty reason, lastReply := some reply
    lastReplySent := some (storeTime now), updated := storeTime now }

/-- The checks of a `request.cancel` body. -/
def checkCancel (created : WireTime) (b : CancelBody) : Except Error Unit := do
  require (b.at' ≤ created) (.badBody "request: at is after the mail's created time")
  require (validID b.request) (.badBody "request: request must be a valid request id")
  orBadBody "request" (whenPresent b.reason (checkCodePoints "reason" b.reason 1 500 "\n"))

/-- `applyCancel`, the receiver of kind `request.cancel`. -/
def applyCancel (w : Wiring δ) (k : Key) (c : Cell δ) (created : WireTime) (b : CancelBody)
    (tombstones : Nat) (now : Time) : Except Error (Cell δ × CancelOutcome) := do
  checkCancel created b
  match c.request with
  | none => return applyEarlyCancel k c b.reason tombstones now
  | some row =>
    if row.state = .cancelled then return (c, .duplicate)
    else if ¬allowedAcceptDeclineDefer row.state then return (c, .refused)
    else do
      let reply : Reply := { at' := wireTime now, request := k.id, seq := row.stateSeq + 1, content := .cancelled }
      let c := (c.updateRequest (cancelledRow b.reason reply now)).submitTx now (.reply reply)
      let c ← w.endDebateTx k row.typ now c
      return (c, .cancelled)

end Agentnet.Request
