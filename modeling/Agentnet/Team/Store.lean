import Agentnet.Lib.Dict
import Agentnet.Request.Object

/-! `internal/peers` and `internal/team`: the tables of a daemon, the operations of its user and the mails
`team.roster`, `team.join`, `team.leave` and `keys`. -/

namespace Agentnet.Team

open Lib
open Request (validTeam)

/-! ## Peers -/

inductive Trust where
  | relay
  | team
  | code
  | fingerprint
  deriving DecidableEq

def Trust.rank : Trust → Nat
  | .relay => 0
  | .team => 1
  | .code => 2
  | .fingerprint => 3

/-- The `CASE` of the updates: the higher of the two, and the old one among equals. -/
def Trust.raise (old new : Trust) : Trust := if new.rank ≤ old.rank then old else new

structure Announcement where
  keyID : String
  created : WireTime
  text : String
  deriving DecidableEq

structure Card where
  key : PeerKey
  name : String
  text : String
  deriving DecidableEq

/-- A row of `peers`. Its columns `name`, `harness` and `skills` are always those of the card. -/
structure Peer where
  card : Card
  pairedAt : WireTime
  trust : Trust
  mailboxKeys : List Announcement
  introducedBy : Option PeerKey
  deriving DecidableEq

abbrev Peers := Dict PeerKey Peer

def maxMailboxKeys : Nat := 2

def refusesAnnouncement (stored : List Announcement) (ann : Announcement) : Bool :=
  stored.any (fun o => o.keyID == ann.keyID) || stored.head?.any (fun o => decide (ann.created ≤ o.created))

def mergeMailboxKeys (stored : List Announcement) : Option Announcement → List Announcement
  | some ann => if refusesAnnouncement stored ann then stored else (ann :: stored).take maxMailboxKeys
  | none => stored

/-- `AddTrusted`: a pairing that completed. -/
def addTrusted (peers : Peers) (card : Card) (now : Time) (trust : Trust) (mbox : Option Announcement) : Peers :=
  match peers.lookup card.key with
  | some p => peers.insert card.key { p with
      card, trust := p.trust.raise trust, mailboxKeys := mergeMailboxKeys p.mailboxKeys mbox, introducedBy := none }
  | none =>
    peers.insert card.key
      { card, pairedAt := wireTime now, trust, mailboxKeys := mergeMailboxKeys [] mbox, introducedBy := none }

/-- `SetTrust`. -/
def setTrust (peers : Peers) (key : PeerKey) (trust : Trust) : Peers :=
  match peers.lookup key with
  | some p => peers.insert key { p with
      trust := p.trust.raise trust, introducedBy := if trust = .code ∨ trust = .fingerprint then none
        else p.introducedBy }
  | none => peers

/-- `MergeMailboxKeysTx`. -/
def mergeKeys (peers : Peers) (key : PeerKey) (ann : Announcement) : Peers :=
  match peers.lookup key with
  | some p => peers.insert key { p with mailboxKeys := mergeMailboxKeys p.mailboxKeys (some ann) }
  | none => peers

/-! ## Rosters -/

inductive WireState where
  | active
  | dissolved
  deriving DecidableEq

structure RosterMember where
  key : PeerKey
  added : WireTime
  card : Card
  mailbox : Option Announcement
  deriving DecidableEq

/-- The body of `team.roster`. -/
structure Roster where
  id : TeamID
  name : String
  owner : PeerKey
  epoch : Int
  state : WireState
  members : List RosterMember
  deriving DecidableEq

def maxEpoch : Int := 9007199254740992
def maxMembers : Nat := 32

/-- `ValidName`: `^[a-z0-9][a-z0-9-]{0,31}$`. -/
def validName (s : String) : Bool :=
  let low := fun c : Char => ('a' ≤ c && c ≤ 'z') || ('0' ≤ c && c ≤ '9')
  match s.toList with
  | c :: rest => low c && decide (rest.length ≤ 31) && rest.all fun c => low c || c == '-'
  | [] => false

def badBody (msg : String) : String := "team: " ++ msg

def parseMembers : List PeerKey → List RosterMember → Except String Unit
  | _, [] => .ok ()
  | seen, m :: rest => do
    require (m.card.key = m.key) (badBody "roster member.card.public_key does not match key")
    require (m.key ∉ seen) (badBody "roster duplicate member key")
    parseMembers (m.key :: seen) rest

/-- `parseRosterBody`, on a body of the right shape. -/
def parseRoster (r : Roster) : Except String Unit := do
  require (validTeam r.id = true) (badBody "roster team.id")
  require (validName r.name = true) (badBody "roster team.name")
  require (1 ≤ r.epoch ∧ r.epoch < maxEpoch) (badBody "roster team.epoch out of range")
  require ((if r.state = .dissolved then 0 else 1) ≤ r.members.length ∧
    r.members.length ≤ maxMembers) (badBody "roster team.members count")
  parseMembers [] r.members
  require (r.state = .active →
    r.owner ∈ r.members.map RosterMember.key) (badBody "roster active team must include the owner")

/-- The column `state` of a team. -/
inductive State where
  | active
  | left
  | removed
  | dissolved
  deriving DecidableEq

def Roster.localState (r : Roster) (self : PeerKey) : State :=
  if r.state = .dissolved then .dissolved else if self ∈ r.members.map RosterMember.key then .active else .removed

/-- `Introduce`, for one member of a roster of `owner`. -/
def introduce (owner : PeerKey) (now : Time) (peers : Peers) (m : RosterMember) : Peers :=
  match peers.lookup m.key with
  | none =>
    peers.insert m.key {
      card := m.card, pairedAt := wireTime now, trust := .team, mailboxKeys := mergeMailboxKeys [] m.mailbox
      introducedBy := some owner }
  | some p =>
    let mailboxKeys := mergeMailboxKeys p.mailboxKeys m.mailbox
    match p.introducedBy with
    | none => peers.insert m.key { p with mailboxKeys }
    | some _ => peers.insert m.key { p with card := m.card, mailboxKeys }

/-! ## Teams -/

/-- A row of `teams` with its rows of `team_members`. -/
structure TeamRow where
  name : String
  owner : PeerKey
  epoch : Int
  state : State
  created : StoreTime
  updated : StoreTime
  members : Dict PeerKey WireTime

structure Invite where
  team : TeamID
  pairing : String
  peer : PeerKey
  created : StoreTime
  expires : StoreTime
  used : Option StoreTime := none
  deriving DecidableEq

structure PendingJoin where
  owner : PeerKey
  lookup : String
  created : StoreTime
  expires : StoreTime
  deriving DecidableEq

def inviteTTL : Int := 24 * hour

/-- The tables of `internal/team` and the peers. -/
structure Store where
  self : PeerKey
  ownCard : Card
  peers : Peers := ∅
  teams : Dict TeamID TeamRow := ∅
  invites : Dict String Invite := ∅
  pendingJoins : List PendingJoin := []

namespace Store

variable (s : Store)

def sharesTeam (key : PeerKey) : Bool := s.teams.entries.any fun e => decide (e.2.state = .active ∧ key ∈ e.2.members)

/-- `GCIntroduced`. -/
def gcIntroduced : Store :=
  { s with peers := Dict.keep s.peers fun key p => p.introducedBy.isNone || s.sharesTeam key }

/-- The row of one team is written. -/
def setTeam (id : TeamID) (t : TeamRow) : Store := { s with teams := s.teams.insert id t }

/-! ### The user's operations -/

inductive OpError where
  | badName
  | exists
  | notFound
  | notOwner
  | ownerCannotLeave
  | noSuchMember
  | full
  | storage
  deriving DecidableEq

def newTeam (name : String) (now : Time) : TeamRow where
  name := name
  owner := s.self
  epoch := 1
  state := .active
  created := storeTime now
  updated := storeTime now
  members := (∅ : Dict PeerKey WireTime).insert s.self (wireTime now)

/-- `Create`, where `id` is the id that was drawn. -/
def create (id : TeamID) (name : String) (now : Time) : Except OpError Store := do
  require (validName name = true) .badName
  require ((s.teams.entries.any fun e => decide (e.2.name = name ∧ e.2.state = .active)) = false) .exists
  require (s.teams.lookup id = none) .storage
  return s.setTeam id (s.newTeam name now)

def getTeam (id : TeamID) : Except OpError TeamRow :=
  match s.teams.lookup id with
  | some t => .ok t
  | none => .error .notFound

def ownedTeam (id : TeamID) : Except OpError TeamRow := do
  let t ← s.getTeam id
  require (t.owner = s.self) .notOwner
  return t

end Store

/-- `bumpEpochTx`. -/
def TeamRow.bumpEpoch (t : TeamRow) (now : Time) : TeamRow :=
  { t with epoch := t.epoch + 1, updated := storeTime now }

namespace Store

variable (s : Store)

/-- `addMemberOwnedTx`. -/
def addMember (id : TeamID) (key : PeerKey) (now : Time) : Except OpError Store := do
  let t ← s.ownedTeam id
  require (t.members.entries.length < maxMembers) .full
  require (t.members.lookup key = none) .storage
  return s.setTeam id ({ t with members := t.members.insert key (wireTime now) }.bumpEpoch now)

/-- `removeMemberOwnedTx`. -/
def removeMember (id : TeamID) (key : PeerKey) (now : Time) : Except OpError Store := do
  let t ← s.ownedTeam id
  require (key ≠ t.owner) .ownerCannotLeave
  require (t.members.lookup key ≠ none) .noSuchMember
  return s.setTeam id ({ t with members := t.members.erase key }.bumpEpoch now)

def rename (id : TeamID) (name : String) (now : Time) : Except OpError Store := do
  require (validName name = true) .badName
  let t ← s.ownedTeam id
  return s.setTeam id ({ t with name }.bumpEpoch now)

/-- `Delete`. -/
def delete (id : TeamID) (now : Time) : Except OpError Store := do
  let t ← s.ownedTeam id
  return s.setTeam id ({ t with state := .dissolved }.bumpEpoch now)

/-- `leave`, without its mail. -/
def leave (id : TeamID) (now : Time) : Except OpError Store := do
  let t ← s.getTeam id
  require (t.owner ≠ s.self) .ownerCannotLeave
  return (s.setTeam id { t with state := .left, updated := storeTime now }).gcIntroduced

def leaveTeam (owner : PeerKey) (now : Time) (t : TeamRow) : TeamRow :=
  if t.owner = owner ∧ t.state = .active then { t with state := .left, updated := storeTime now } else t

/-- `OwnerRemoved`. -/
def ownerRemoved (owner : PeerKey) (now : Time) : Store :=
  gcIntroduced { s with teams := Dict.mapValues s.teams fun _ t => leaveTeam owner now t }

/-- `RecordInvite`. -/
def recordInvite (lookup : String) (team : TeamID) (pairing : String) (peer : PeerKey) (now : Time) : Store :=
  let invite : Invite := { team, pairing, peer, created := storeTime now, expires := storeTime (now + inviteTTL) }
  { s with invites := (Dict.keep s.invites fun _ i => !decide (i.expires < storeTime now)).insert lookup invite }

/-- `RecordPendingJoin`. -/
def recordPendingJoin (owner : PeerKey) (lookup : String) (now : Time) : Store :=
  let join : PendingJoin := { owner, lookup, created := storeTime now, expires := storeTime (now + inviteTTL) }
  let others := s.pendingJoins.filter fun j => !decide (j.expires < storeTime now) && !decide (j.owner = owner ∧
      j.lookup = lookup)
  { s with pendingJoins := others ++ [join] }

/-! ### Mails -/

def oldest : List PendingJoin → Option PendingJoin
  | [] => none
  | j :: rest =>
    match oldest rest with
    | some k => some (if k.created < j.created then k else j)
    | none => some j

/-- `consumePendingJoin`. -/
def consumePendingJoin (owner : PeerKey) (now : Time) : Option Store :=
  (oldest (s.pendingJoins.filter fun j => decide (j.owner = owner ∧ storeTime now < j.expires))).map fun j =>
    { s with pendingJoins := s.pendingJoins.filter fun k => !decide (k.owner = owner ∧ k.lookup = j.lookup) }

inductive Ignored where
  | ownerTrust
  | notInvited
  | notOwner
  | inactive (state : State)
  deriving DecidableEq

/-- What became of a roster. -/
inductive Outcome where
  | ignored (reason : Ignored)
  /-- A resend or a reordered roster, ignored without an audit row. -/
  | stale
  | applied (state : State)
  deriving DecidableEq

def joinable (r : Roster) : Bool := decide (s.self ∈ r.members.map RosterMember.key ∧ r.state = .active)

/-- Consumes a pending join for the roster, if it may and there is one. -/
def admission (r : Roster) (now : Time) : Option Store :=
  if s.joinable r then s.consumePendingJoin r.owner now else none

/-- The team as the roster has it. `old` is the row that was there. -/
def rosterTeam (r : Roster) (now : Time) (old : Option TeamRow) : TeamRow where
  name := r.name
  owner := r.owner
  epoch := r.epoch
  state := r.localState s.self
  created := (old.map TeamRow.created).getD (storeTime now)
  updated := storeTime now
  members := r.members.foldl (fun d m => d.insert m.key m.added) ∅

/-- The writes of `applyRoster`: the team, the introductions and the collection of peers that share no team any
more. -/
def writeRoster (r : Roster) (now : Time) : Store :=
  let s := s.setTeam r.id (s.rosterTeam r now (s.teams.lookup r.id))
  gcIntroduced
    { s with peers := (r.members.filter fun m => !decide (m.key = s.self)).foldl (introduce r.owner now) s.peers }

/-- The checks of a roster that is well formed, from a peer with trust `code` or `fingerprint`. -/
def receiveRoster (r : Roster) (now : Time) : Store × Outcome :=
  let applied := fun s : Store => (s.writeRoster r now, Outcome.applied (r.localState s.self))
  match s.teams.lookup r.id with
  | none =>
    match s.admission r now with
    | some s' => applied s'
    | none => (s, .ignored .notInvited)
  | some t =>
    if t.owner ≠ r.owner then (s, .ignored .notOwner)
    else if r.epoch ≤ t.epoch then (s, .stale)
    else if t.state = .active then applied s
    else
      match s.admission r now with
      | some s' => applied s'
      | none => (s, .ignored (.inactive t.state))

/-- `applyRoster`. -/
def applyRoster (sender : PeerKey) (r : Roster) (now : Time) : Except String (Store × Outcome) := do
  parseRoster r
  require (r.owner = sender) (badBody "team.owner must equal msg.from")
  match s.peers.lookup sender with
  | none => .error "team: roster: owner trust"
  | some p =>
    if p.trust = .code ∨ p.trust = .fingerprint then return s.receiveRoster r now
    else return (s, .ignored .ownerTrust)

inductive JoinOutcome where
  | ignored (reason : String)
  | joined (epoch : Int)
  deriving DecidableEq

/-- `applyJoin`, with the normalised lookup. -/
def applyJoin (peer : PeerKey) (lookup : String) (now : Time) : Except OpError (Store × JoinOutcome) :=
  match s.invites.lookup lookup with
  | none => .ok (s, .ignored "no_invite")
  | some i =>
    if ¬ (i.peer = peer ∧ i.used = none ∧ storeTime now < i.expires) then .ok (s, .ignored "no_invite")
    else
      let spent : Store := { s with invites := s.invites.insert lookup { i with used := some (storeTime now) } }
      match s.teams.lookup i.team with
      | none => .ok (spent, .ignored "inactive")
      | some t =>
        if t.state ≠ .active ∨ t.owner ≠ s.self then .ok (spent, .ignored "inactive")
        else if t.members.lookup peer ≠ none then
          .ok (spent.setTeam i.team (t.bumpEpoch now), .joined (t.epoch + 1))
        else if maxMembers ≤ t.members.entries.length then .ok (spent, .ignored "team_full")
        else return (← spent.addMember i.team peer now, .joined (t.epoch + 1))

def maxSkew : Int := 10 * minute

/-- `applyLeave`. -/
def applyLeave (peer : PeerKey) (team : TeamID) (created : WireTime) (now : Time) : Store × Bool :=
  match s.teams.lookup team with
  | none => (s, false)
  | some t =>
    if t.state ≠ .active ∨ t.owner ≠ s.self ∨ peer = t.owner then (s, false)
    else if (t.members.lookup peer).any fun added =>
      decide (parseWireTime created + maxSkew < parseWireTime added) then (s, false)
    else
      match s.removeMember team peer now with
      | .ok s' => (s', true)
      | .error _ => (s, false)

end Store

/-! ## The daemon -/

/-- The operations of the user and the mails of peers. -/
inductive Op where
  /-- A pairing that completed. -/
  | pair (card : Card) (trust : Trust) (mbox : Option Announcement)
  /-- A verification of the peer, or the link with an own device. -/
  | verify (key : PeerKey) (trust : Trust)
  | removePeer (key : PeerKey)
  | create (id : TeamID) (name : String)
  | rename (id : TeamID) (name : String)
  | removeMember (id : TeamID) (key : PeerKey)
  | delete (id : TeamID)
  | leave (id : TeamID)
  | ownerRemoved (owner : PeerKey)
  | recordInvite (lookup : String) (team : TeamID) (pairing : String) (peer : PeerKey)
  | recordPendingJoin (owner : PeerKey) (lookup : String)
  | roster (sender : PeerKey) (r : Roster)
  | join (sender : PeerKey) (lookup : String)
  | leaveMail (sender : PeerKey) (team : TeamID) (created : WireTime)
  | keys (sender : PeerKey) (ann : Announcement)

/-- An operation and the time of it. -/
structure Event where
  now : Time
  op : Op

def Op.isMail : Op → Bool
  | .roster .. | .join .. | .leaveMail .. | .keys .. => true
  | _ => false

def Store.orElse {ε : Type} (s : Store) : Except ε Store → Store
  | .ok s' => s'
  | .error _ => s

/-- One event. -/
def step (s : Store) (e : Event) : Store :=
  match e.op with
  | .pair card trust mbox => { s with peers := addTrusted s.peers card e.now trust mbox }
  | .verify key trust => { s with peers := setTrust s.peers key trust }
  | .removePeer key => { s with peers := s.peers.erase key }
  | .create id name => s.orElse (s.create id name e.now)
  | .rename id name => s.orElse (s.rename id name e.now)
  | .removeMember id key => s.orElse (s.removeMember id key e.now)
  | .delete id => s.orElse (s.delete id e.now)
  | .leave id => s.orElse (s.leave id e.now)
  | .ownerRemoved owner => s.ownerRemoved owner e.now
  | .recordInvite lookup team pairing peer => s.recordInvite lookup team pairing peer e.now
  | .recordPendingJoin owner lookup => s.recordPendingJoin owner lookup e.now
  | .roster sender r => s.orElse ((s.applyRoster sender r e.now).map Prod.fst)
  | .join sender lookup => s.orElse ((s.applyJoin sender lookup e.now).map Prod.fst)
  | .leaveMail sender team created => (s.applyLeave sender team created e.now).1
  | .keys sender ann => { s with peers := mergeKeys s.peers sender ann }

end Agentnet.Team
