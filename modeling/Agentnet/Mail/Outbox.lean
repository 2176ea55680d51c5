import Agentnet.Mail.Receiver
import Agentnet.Lib.Table

/-! The sender outbox: mail is stored, then resent under its id until the
recipient acks it (package `mail`). -/

namespace Agentnet.Mail

open Agentnet.Lib

def outboxExpiry : Int := 7 * day
def outboxRetention : Int := 30 * day
def resealInterval : Int := hour
def outboxBatch : Nat := 50

/-- `mail.ValidID`: `m-` and 32 lowercase hex characters. -/
def validMailID (s : MailID) : Bool :=
  match s.toList with
  | 'm' :: '-' :: rest => rest.length == 32 && rest.all isLowerHex
  | _ => false

structure Signed where
  msg : Msg
  sig : String
  deriving DecidableEq, Repr

/-- An envelope of type mail. Its payload is sealed to `keyID` and opens to `plain`. -/
structure Frame where
  fromKey : PeerKey
  toKey : PeerKey
  id : MailID
  ts : WireTime
  keyID : String
  plain : Signed
  deriving DecidableEq, Repr

inductive OutboxState where
  | queued
  | relayed
  | delivered
  | expired
  | failed
  deriving DecidableEq, Repr

def OutboxState.final : OutboxState → Bool
  | .queued | .relayed => false
  | .delivered | .expired | .failed => true

structure OutboxRow where
  toKey : PeerKey
  kind : String
  created : WireTime
  keyID : String
  signed : Option Signed
  frame : Option Frame
  state : OutboxState
  attempts : Nat
  nextAttempt : Option StoreTime
  updated : StoreTime
  error : Option String
  deriving DecidableEq, Repr

/-- The row still waits for an ack. -/
def OutboxRow.isOpen (r : OutboxRow) : Bool := !r.state.final

/-- The arguments of `OnFinal`. -/
structure Final where
  id : MailID
  toKey : PeerKey
  kind : String
  state : OutboxState
  errText : String
  deriving DecidableEq, Repr

/-- A row as `sendDue` scans it. -/
structure DueRow where
  id : MailID
  toKey : PeerKey
  frame : Option Frame
  attempts : Nat
  deriving DecidableEq, Repr

structure HandOff where
  id : MailID
  toKey : PeerKey
  accepted : Bool
  ready : Nat
  online : Nat
  deriving DecidableEq, Repr

/-- `Retry` between its SELECT and its UPDATE of one row. -/
structure Retrying where
  peer : PeerKey
  id : MailID
  keyID : String
  signed : Signed
  newKey : String
  deriving DecidableEq, Repr

/-- The table `outbox` and the state of the sender in memory. -/
structure Outbox where
  self : PeerKey
  rows : Table MailID (Option OutboxRow)
  /-- The last re-seal of each row, by the monotonic clock. -/
  resealed : Table MailID (Option Time)
  mono : Time
  ready : Nat
  online : Table PeerKey Nat
  due : List DueRow
  handOffs : List HandOff
  retrying : Option Retrying
  /-- Every mail signed for this outbox. -/
  submitted : List Signed
  /-- The calls of `OnFinal`. -/
  finals : List Final
  /-- The frames given to the relay, with the row each was sent for. -/
  frames : List (MailID × Frame)
  /-- The re-seals, by the monotonic clock. -/
  reseals : List (MailID × Time)

/-- An empty outbox. -/
def Outbox.start (self : PeerKey) : Outbox where
  self := self
  rows := Table.empty
  resealed := Table.empty
  mono := 0
  ready := 0
  online := Table.empty
  due := []
  handOffs := []
  retrying := none
  submitted := []
  finals := []
  frames := []
  reseals := []

/-- The row of a mail. -/
def Outbox.row (o : Outbox) (id : MailID) : Option OutboxRow := o.rows.get id

/-- `UPDATE outbox SET … WHERE id = ? AND p`. -/
def Outbox.modify (o : Outbox) (id : MailID) (p : OutboxRow → Bool) (f : OutboxRow → OutboxRow) : Outbox :=
  match o.row id with
  | none => o
  | some r => if p r then { o with rows := o.rows.set id (some (f r)) } else o

def Outbox.modifyAll (o : Outbox) (f : OutboxRow → Option OutboxRow) : Outbox :=
  { o with rows := o.rows.mapRows fun _ r => r.bind f }

def OutboxRow.close (now : Time) (state : OutboxState) (errText : String) (r : OutboxRow) : OutboxRow :=
  { r with
    state := state
    signed := none
    frame := none
    nextAttempt := none
    updated := storeTime now
    error := nullIfEmpty errText }

def OutboxRow.attempted (accepted : Bool) (delay : Int) (now : Time) (r : OutboxRow) : OutboxRow :=
  { r with
    attempts := r.attempts + 1
    nextAttempt := some (storeTime (now + delay))
    updated := storeTime now
    state := if accepted then .relayed else r.state }

def OutboxRow.hurry (now : Time) (r : OutboxRow) : OutboxRow := { r with nextAttempt := some (storeTime now) }

def OutboxRow.requeue (now : Time) (r : OutboxRow) : OutboxRow :=
  { r with state := .queued, updated := storeTime now }

def OutboxRow.reseal (frame : Frame) (newKey : String) (now : Time) (r : OutboxRow) : OutboxRow :=
  { r with frame := some frame, keyID := newKey, updated := storeTime now }

/-- `finish`; `recipient`, if given, must be the row's recipient. -/
def Outbox.finish (o : Outbox) (id : MailID) (recipient : Option PeerKey) (state : OutboxState) (errText : String)
    (now : Time) : Outbox :=
  match o.row id with
  | none => o
  | some r =>
    if r.isOpen && recipient.all (· = r.toKey) then
      { o with
        rows := o.rows.set id (some (r.close now state errText))
        resealed := o.resealed.set id none
        finals := o.finals ++ [⟨id, r.toKey, r.kind, state, errText⟩] }
    else o

/-- A submission: the drawn id, the signature and the peer's newest mailbox key. -/
structure Submission where
  id : MailID
  toKey : PeerKey
  kind : String
  body : String
  sig : String
  paired : Bool
  mailboxKey : Option String
  now : Time

/-- `Submit`. A drawn id is a new one. -/
def Outbox.submit (o : Outbox) (s : Submission) : Outbox :=
  match s.mailboxKey with
  | none => o
  | some keyID =>
    if s.kind = "ack" || !s.paired || !validMailID s.id || o.submitted.any (·.msg.id = s.id) then o
    else
      let signed : Signed := ⟨⟨s.id, o.self, s.toKey, wireTime s.now, s.kind, s.body⟩, s.sig⟩
      { o with
        submitted := o.submitted ++ [signed]
        rows := o.rows.set s.id (some
          { toKey := s.toKey
            kind := s.kind
            created := wireTime s.now
            keyID := keyID
            signed := some signed
            frame := some ⟨o.self, s.toKey, s.id, wireTime s.now, keyID, signed⟩
            state := .queued
            attempts := 0
            nextAttempt := some (storeTime s.now)
            updated := storeTime s.now
            error := none }) }

/-- The SELECT of `sendDue`. -/
def Outbox.scan (o : Outbox) (now : Time) : Outbox :=
  let open_ := o.rows.rows.filterMap fun x => x.2.bind fun r =>
    if r.isOpen && r.nextAttempt.any fun t => decide (t ≤ storeTime now) then
      some (r.nextAttempt.getD 0, DueRow.mk x.1 r.toKey r.frame r.attempts)
    else none
  { o with due := ((open_.insertionSort fun a b => a.1 ≤ b.1).take outboxBatch).map (·.2) }

inductive Relay where
  | absent
  | failed
  | accepted
  deriving DecidableEq, Repr

/-- `send` up to the relay's answer. -/
def Outbox.send (o : Outbox) (id : MailID) (toKey : PeerKey) (frame : Option Frame) (relay : Relay) (now : Time) :
    Outbox :=
  match frame with
  | none => o.finish id none .failed "bad_frame" now
  | some f =>
    { o with
      frames := if relay = .absent then o.frames else o.frames ++ [(id, f)]
      handOffs := o.handOffs ++ [⟨id, toKey, relay = .accepted, o.ready, o.online.get toKey⟩] }

/-- One row of the `sendDue` loop. -/
def Outbox.sendNext (o : Outbox) (paired : Bool) (relay : Relay) (now : Time) : Outbox :=
  match o.due with
  | [] => o
  | d :: rest =>
    let o := { o with due := rest }
    if paired then o.send d.id d.toKey d.frame relay now
    else o.finish d.id none .failed "unpaired" now

/-- `send` after the relay's answer; `delay` is the backoff with its jitter. -/
def Outbox.handedOff (o : Outbox) (i : Nat) (delay : Int) (now : Time) : Outbox :=
  match o.handOffs[i]? with
  | none => o
  | some h =>
    let o := { o with handOffs := o.handOffs.eraseIdx i }
    let o := o.modify h.id OutboxRow.isOpen (OutboxRow.attempted h.accepted delay now)
    if !h.accepted && (o.ready != h.ready || o.online.get h.toKey != h.online) then
      o.modify h.id (·.state = .queued) (OutboxRow.hurry now)
    else o

structure Ack where
  fromKey : PeerKey
  ids : List MailID
  unsupported : List MailID
  rejected : List MailID
  deriving DecidableEq, Repr

def errTextUnsupportedKind : String := "unsupported_kind"
def errTextRejected : String := "rejected"

def Outbox.finishAll (o : Outbox) (ids : List MailID) (recipient : Option PeerKey) (state : OutboxState)
    (errText : String) (now : Time) : Outbox :=
  ids.foldl (fun o id => o.finish id recipient state errText now) o

def Outbox.onAck (o : Outbox) (a : Ack) (now : Time) : Outbox :=
  ((o.finishAll a.ids a.fromKey .delivered "" now).finishAll a.unsupported a.fromKey .failed
    errTextUnsupportedKind now).finishAll a.rejected a.fromKey .failed errTextRejected now

inductive ErrorCode where
  | badEnvelope
  | badSender
  | queueFull
  | internal
  | peerOffline
  | peerBusy
  | rateLimited
  | relayFull
  | other
  deriving DecidableEq, Repr

def Outbox.handleError (o : Outbox) (ref : MailID) (code : ErrorCode) (now : Time) : Outbox :=
  if !validMailID ref then o
  else match code with
    | .badEnvelope => o.finish ref none .failed "bad_envelope" now
    | .badSender => o.finish ref none .failed "bad_sender" now
    | .queueFull | .internal | .peerOffline | .peerBusy | .rateLimited | .relayFull =>
      o.modify ref (·.state = .relayed) (OutboxRow.requeue now)
    | .other => o

/-- `resealDue`: a passed entry is dropped. -/
def Outbox.resealDue (o : Outbox) (id : MailID) : Option Outbox :=
  match o.resealed.get id with
  | none => some o
  | some t => if o.mono - t < resealInterval then none else some { o with resealed := o.resealed.set id none }

def Outbox.markResealed (o : Outbox) (id : MailID) : Outbox :=
  { o with
    resealed := (o.resealed.mapRows fun _ t => t.filter fun t => o.mono - t < resealInterval).set id (some o.mono)
    reseals := o.reseals ++ [(id, o.mono)] }

/-- `Retry` for one id up to its SELECT. It runs on the receive goroutine alone. -/
def Outbox.retrySelect (o : Outbox) (peer : PeerKey) (id : MailID) (newKey : String) : Outbox :=
  if o.retrying.isSome || !validMailID id then o
  else match o.resealDue id with
    | none => o
    | some o =>
      match o.row id with
      | none => o
      | some r =>
        match r.signed with
        | none => o
        | some signed =>
          if r.toKey = peer && r.isOpen && r.keyID != newKey then
            { o with retrying := some ⟨peer, id, r.keyID, signed, newKey⟩ }
          else o

/-- The rest of `Retry` for the selected row, up to the relay's answer. -/
def Outbox.retryUpdate (o : Outbox) (builds : Bool) (relay : Relay) (now : Time) : Outbox :=
  match o.retrying with
  | none => o
  | some t =>
    let o := { o with retrying := none }
    -- `Reseal` refuses a plaintext that is not from and to these keys
    if t.signed.msg.fromKey ≠ o.self ∨ t.signed.msg.toKey ≠ t.peer ∨ builds = false then o
    else
      let frame : Frame := ⟨o.self, t.peer, t.signed.msg.id, wireTime now, t.newKey, t.signed⟩
      match o.row t.id with
      | none => o
      | some r =>
        if r.toKey = t.peer && r.keyID = t.keyID && r.isOpen then
          ((o.modify t.id (fun _ => true) (OutboxRow.reseal frame t.newKey now)).markResealed t.id).send
            t.id t.peer (some frame) relay now
        else o

/-- `maintain`: expiry, then the purge of old final rows. -/
def Outbox.maintain (o : Outbox) (now : Time) : Outbox :=
  let due := o.rows.rows.filterMap fun x => x.2.bind fun r =>
    if r.isOpen && decide (r.created ≤ wireTime (now - outboxExpiry)) then some x.1 else none
  (o.finishAll due none .expired "" now).modifyAll fun r =>
    if r.state.final && decide (r.updated < storeTime (now - outboxRetention)) then none else some r

def Outbox.onReady (o : Outbox) (now : Time) : Outbox :=
  ({ o with ready := o.ready + 1 } : Outbox).modifyAll fun r =>
    if r.state = .queued then some (r.hurry now) else some r

def Outbox.onPeerOnline (o : Outbox) (peer : PeerKey) (now : Time) : Outbox :=
  ({ o with online := o.online.set peer (o.online.get peer + 1) } : Outbox).modifyAll fun r =>
    if r.state = .queued ∧ r.toKey = peer then some (r.hurry now) else some r

/-- `peers.removeTx` on the outbox: no `OnFinal` call. -/
def Outbox.removePeer (o : Outbox) (peer : PeerKey) (now : Time) : Outbox :=
  o.modifyAll fun r => if r.toKey = peer ∧ r.isOpen then some (r.close now .failed "unpaired") else some r

/-- The monotonic clock advances with `tick` alone; the wall clock readings of the
other events are arbitrary. -/
inductive OutboxEvent where
  | tick (elapsed : Nat)
  | submit (s : Submission)
  | scan (now : Time)
  | sendNext (paired : Bool) (relay : Relay) (now : Time)
  | handedOff (i : Nat) (delay : Int) (now : Time)
  | onAck (a : Ack) (now : Time)
  | handleError (ref : MailID) (code : ErrorCode) (now : Time)
  | retrySelect (peer : PeerKey) (id : MailID) (newKey : String)
  | retryUpdate (builds : Bool) (relay : Relay) (now : Time)
  | maintain (now : Time)
  | onReady (now : Time)
  | onPeerOnline (peer : PeerKey) (now : Time)
  | removePeer (peer : PeerKey) (now : Time)

/-- One event of the sender. -/
def Outbox.step (o : Outbox) : OutboxEvent → Outbox
  | .tick elapsed => { o with mono := o.mono + elapsed }
  | .submit s => o.submit s
  | .scan now => o.scan now
  | .sendNext paired relay now => o.sendNext paired relay now
  | .handedOff i delay now => o.handedOff i delay now
  | .onAck a now => o.onAck a now
  | .handleError ref code now => o.handleError ref code now
  | .retrySelect peer id newKey => o.retrySelect peer id newKey
  | .retryUpdate builds relay now => o.retryUpdate builds relay now
  | .maintain now => o.maintain now
  | .onReady now => o.onReady now
  | .onPeerOnline peer now => o.onPeerOnline peer now
  | .removePeer peer now => o.removePeer peer now

/-- The outbox after a run. -/
def Outbox.after (o : Outbox) (es : List OutboxEvent) : Outbox := run Outbox.step o es

end Agentnet.Mail
