import Agentnet.Basic
import Agentnet.Lib.Dict

/-! `internal/approval`: the approvals that wait in memory, their rows, and what is left to do for those that are
over. Every section under the mutex is one step; a transaction that fails has no effect. -/

namespace Agentnet.Approval

open Lib

/-- The id of an approval. -/
abbrev ApprovalID := String

inductive Kind where
  | grant | grantPolicy | release | acceptResult | deviceLink | deviceScope | debateConstraint
  | peerVerify | teamInvite | dataPrune
  deriving DecidableEq

/-- The column `state`. -/
inductive State where
  | pending | approved | rejected | expired
  deriving DecidableEq

def ttl : Int := 10 * minute
def maxAttempts : Nat := 3
def maxPending : Nat := 5
def maxPerHour : Nat := 20
def maxWrongPerDay : Nat := 10
def wrongCodeWindow : Int := 24 * hour
def decidedRetention : Int := 30 * day
def expireRetries : Nat := 12

/-- Which hooks of an `Action` are set. -/
structure Action where
  precondition : Bool := false
  rebuild : Bool := false
  perform : Bool := true
  deriving DecidableEq

/-- A row of `approvals`. -/
structure Row where
  kind : Kind
  subject : String
  summary : String
  created : StoreTime
  expires : StoreTime
  attempts : Nat := 0
  state : State := .pending
  decided : Option StoreTime := none
  deriving DecidableEq

/-- The half of a pending approval that is in memory. `mac` is there with the row; windows are known by a number. -/
structure Live (μ : Type) where
  mac : Option μ := none
  action : Action
  reserved : Bool := true
  handle : Option Nat := none
  opening : Bool := false
  attempts : Nat := 0
  deriving DecidableEq

/-- A `Create` that has reserved its slot and not returned. -/
structure Draft where
  kind : Kind
  subject : String
  summary : String
  now : Time
  deriving DecidableEq

/-- What is left to do for an approval that was taken out of memory: `rejectRow` and then the hook, the write of
`expireNow`, the hook alone, or the retries of a failed write. -/
inductive Job where
  | reject
  | expire
  | hook
  | hookThenRetry (decided : StoreTime)
  | retry (decided : StoreTime) (n : Nat)
  deriving DecidableEq

inductive WrongCodes where
  | absent
  | undecodable
  | stored (times : List StoreTime)
  deriving DecidableEq

/-- A wrong code that was tested, and whether it was counted in the table. -/
structure Test where
  id : ApprovalID
  at' : Time
  recorded : Bool
  deriving DecidableEq

/-- The `Store` with its tables. The last fields are a record of what has happened: ids that were drawn, ids whose
timer was started by this process, the actions performed, the `OnReject` hooks run, the wrong codes and the rows
inserted. -/
structure Store (μ : Type) where
  key : Nat := 0
  pending : Dict ApprovalID (Live μ) := ∅
  closed : Bool := false
  unwritten : List ApprovalID := []
  drafts : Dict ApprovalID Draft := ∅
  jobs : Dict ApprovalID Job := ∅
  rejecting : List ApprovalID := []
  rows : Dict ApprovalID Row := ∅
  wrongCodes : WrongCodes := .absent
  used : List ApprovalID := []
  timed : List ApprovalID := []
  performed : List ApprovalID := []
  hooked : List ApprovalID := []
  tested : List Test := []
  created : List (ApprovalID × StoreTime) := []

/-- `codeMAC` under the key of a process, and `displaytext.Safe`. -/
structure Config (μ : Type) where
  codeMAC : Nat → ApprovalID → String → μ
  safe : String → Bool

/-! ## Wrong codes -/

/-- `wrongCodesIn`. A value that cannot be read counts as a full window. -/
def wrongCodesIn (now : Time) : WrongCodes → List Time
  | .absent => []
  | .undecodable => List.replicate maxWrongPerDay now
  | .stored times => (times.map parseStoreTime).filter fun t => decide (now - wrongCodeWindow < t)

/-- `Locked`. -/
def locked (now : Time) (w : WrongCodes) : Bool := decide (maxWrongPerDay ≤ (wrongCodesIn now w).length)

/-- `recordWrongCodeIn`; the flag says that the window is full. -/
def recordWrongCodeIn (now : Time) (w : WrongCodes) : WrongCodes × Bool :=
  let times := wrongCodesIn now w ++ [now]
  (.stored (times.map storeTime), decide (maxWrongPerDay ≤ times.length))

namespace Store

variable {μ : Type} [DecidableEq μ]

/-! ## Tables -/

/-- An `UPDATE` by id. -/
def setRow (id : ApprovalID) (f : Row → Row) (s : Store μ) : Store μ :=
  { s with
    rows := match s.rows.lookup id with
      | none => s.rows
      | some r => s.rows.insert id (f r) }

def decide' (state : State) (now : Time) (r : Row) : Row := { r with state, decided := some (storeTime now) }

/-- `pruneDecided`. -/
def pruneDecided (now : Time) (s : Store μ) : Store μ :=
  { s with rows := Dict.keep s.rows fun _ r =>
      !(r.state != .pending && r.decided.any fun d => decide (d < storeTime (now - decidedRetention))) }

/-- `countCreatedSince`. -/
def countCreatedSince (since : Time) (s : Store μ) : Nat :=
  Dict.count s.rows fun _ r => decide (storeTime since ≤ r.created)

/-! ## Ends -/

/-- The entry leaves memory; `j` is done after the mutex is released. -/
def take (id : ApprovalID) (j : Job) (s : Store μ) : Store μ :=
  { s with pending := s.pending.erase id, jobs := s.jobs.insert id j }

def setEntry (id : ApprovalID) (e : Live μ) (s : Store μ) : Store μ := { s with pending := s.pending.insert id e }

inductive Expiry where
  | failed
  | expired
  | running (r : Row)
  deriving DecidableEq

/-- What `checkExpiryLocked` finds. `ok` is whether its reads, and the write of an expiry, succeed. -/
def checkExpiry (id : ApprovalID) (now : Time) (ok : Bool) (s : Store μ) : Expiry :=
  match s.rows.lookup id with
  | none => .failed
  | some r => if !ok then .failed else if now < parseStoreTime r.expires then .running r else .expired

def expireLocked (id : ApprovalID) (now : Time) (s : Store μ) : Store μ :=
  (s.setRow id (decide' .expired now)).take id .hook

/-- `sweepExpiredLocked` on the ids in the order in which the map gives them; it stops at the first failure. -/
def sweepExpired (now : Time) (fails : ApprovalID → Bool) : List ApprovalID → Store μ → Store μ × Bool
  | [], s => (s, true)
  | id :: ids, s =>
    match s.pending.lookup id with
    | none => sweepExpired now fails ids s
    | some e =>
      if e.reserved then sweepExpired now fails ids s
      else
        match s.checkExpiry id now (!fails id) with
        | .failed => (s, false)
        | .running _ => sweepExpired now fails ids s
        | .expired => sweepExpired now fails ids (s.expireLocked id now)

/-- `dropAllLocked`, and the jobs that it hands to `lockAll`. Reserved entries have no row. -/
def dropAllLocked (s : Store μ) : Store μ :=
  { s with
    pending := ∅
    jobs := s.pending.entries.foldl (fun jobs e => if e.2.reserved then jobs else jobs.insert e.1 .reject) s.jobs }

/-! ## Create -/

/-- What an operation returns: an error, or success. -/
inductive Outcome where
  | notDisplaySafe | locked | limit | unavailable | unknown | expired | failed
  | badCode (attemptsLeft : Nat)
  | precondition
  | ok
  deriving DecidableEq

/-- What the reads and writes of the first section of `Create` give: whether the lock, the count and the random id
can be read and the prune is written, the order of the map and the approvals whose expiry check fails. -/
structure CreateIO where
  readLocked : Bool := true
  order : List ApprovalID := []
  fails : ApprovalID → Bool := fun _ => false
  prune : Bool := true
  count : Bool := true
  rand : Bool := true

/-- The ids of the map, in the order of `order`. -/
def ordered (s : Store μ) (order : List ApprovalID) : List ApprovalID := order ++ s.pending.keys

/-- The first section of `Create` after the sweep: the prune, the caps and the reservation. -/
def reserve (id : ApprovalID) (kind : Kind) (subject summary : String) (action : Action) (io : CreateIO)
    (now : Time) (s : Store μ) :
    Store μ × Outcome :=
  let s := if io.prune then s.pruneDecided now else s
  if maxPending ≤ s.pending.entries.length then (s, .limit)
  else if !io.count then (s, .failed)
  else if maxPerHour ≤ s.countCreatedSince (now - hour) then (s, .limit)
  else if !io.rand then (s, .failed)
  else if s.closed then (s, .unavailable)
  else
    ({ s with
      pending := s.pending.insert id { action }
      drafts := s.drafts.insert id { kind, subject, summary, now }
      used := id :: s.used }, .ok)

/-- The first section of `Create`, up to the reservation. -/
def create (cfg : Config μ) (id : ApprovalID) (kind : Kind) (subject summary : String) (action : Action)
    (io : CreateIO) (now : Time) (s : Store μ) : Store μ × Outcome :=
  if !cfg.safe summary then (s, .notDisplaySafe)
  else if !io.readLocked then (s, .failed)
  else if Approval.locked now s.wrongCodes then (s, .locked)
  else
    let swept := s.sweepExpired now io.fails (s.ordered io.order)
    if swept.2 then swept.1.reserve id kind subject summary action io now else (swept.1, .failed)

/-- The window of a `Create` is ready. -/
def windowReady (id : ApprovalID) (handle : Nat) (s : Store μ) : Store μ :=
  match s.drafts.lookup id, s.pending.lookup id with
  | some _, some e => s.setEntry id { e with handle := some handle }
  | _, _ => s

/-- `dropReserved`. -/
def dropReserved (id : ApprovalID) (s : Store μ) : Store μ :=
  { s with pending := if (s.pending.lookup id).any Live.reserved then s.pending.erase id else s.pending }

/-- A `Create` gives up: no window, no code or no notification. -/
def createFails (id : ApprovalID) (s : Store μ) : Store μ :=
  match s.drafts.lookup id with
  | none => s
  | some _ => { s.dropReserved id with drafts := s.drafts.erase id }

/-- The last section of `Create`: the row, and the slot with the check value of `code`. -/
def storeApproval (cfg : Config μ) (id : ApprovalID) (code : String) (ok : Bool) (s : Store μ) : Store μ × Outcome :=
  match s.drafts.lookup id with
  | none => (s, .unknown)
  | some d =>
    let s := { s with drafts := s.drafts.erase id }
    match s.pending.lookup id with
    | none => (s, .unavailable)
    | some e =>
      if s.closed then ({ s with pending := s.pending.erase id }, .unavailable)
      else if !ok then ({ s with pending := s.pending.erase id }, .failed)
      else
        ({ s with
          rows := s.rows.insert id
            { kind := d.kind, subject := d.subject, summary := d.summary, created := storeTime d.now
              expires := storeTime (d.now + ttl) }
          pending := s.pending.insert id { e with mac := some (cfg.codeMAC s.key id code), reserved := false }
          timed := id :: s.timed
          created := (id, storeTime d.now) :: s.created }, .ok)

/-! ## Confirm -/

/-- `unknownOrExpired`. -/
def unknownOrExpired (id : ApprovalID) (ok : Bool) (s : Store μ) : Outcome :=
  if !ok then .failed
  else
    match s.rows.lookup id with
    | none => .unknown
    | some r => if r.state = .expired ∨ id ∈ s.unwritten then .expired else .unknown

/-- What the reads, writes and hooks of a `confirm` give. `rebuilt` is `none` when `Rebuild` fails. -/
structure ConfirmIO where
  lookup : Bool := true
  expiry : Bool := true
  record : Bool := true
  begin' : Bool := true
  precondition : Bool := true
  rebuilt : Option String := none
  audit : Bool := true
  perform : Bool := true
  commit : Bool := true

/-- `checkAction`. -/
def checkAction (action : Action) (shown : String) (io : ConfirmIO) : Bool :=
  (!action.precondition || io.precondition) && (!action.rebuild || decide (io.rebuilt = some shown))

/-- The transaction of `recordBadCode`: the row and the window of wrong codes. -/
def recordBadCode (id : ApprovalID) (r : Row) (now : Time) (s : Store μ) : Store μ :=
  let attempts := r.attempts + 1
  let row := if maxAttempts ≤ attempts then decide' .rejected now { r with attempts }
      else { r with attempts, state := .pending, decided := none }
  { s with rows := s.rows.insert id row, wrongCodes := (recordWrongCodeIn now s.wrongCodes).1 }

/-- A wrong code. The entry counts it whatever becomes of the transaction. -/
def badCode (id : ApprovalID) (e : Live μ) (r : Row) (io : ConfirmIO) (now : Time) (s : Store μ) :
    Store μ × Outcome :=
  let s := { s with tested := ⟨id, now, io.record⟩ :: s.tested }
  if !io.record then (s.take id .reject, .failed)
  else
    let full := (recordWrongCodeIn now s.wrongCodes).2
    let s := s.recordBadCode id r now
    let rejected := decide (maxAttempts ≤ r.attempts + 1)
    -- the count in the table ran behind the one in memory
    let behind := !rejected && decide (maxAttempts ≤ e.attempts + 1)
    let s :=
      if rejected then s.take id .hook
      else if behind then s.take id .reject
      else s.setEntry id { e with handle := none, attempts := e.attempts + 1 }
    (if full then s.dropAllLocked else s, .badCode (if behind then 0 else maxAttempts - (r.attempts + 1)))

/-- A right code: the action and the decision in one transaction. -/
def approve (id : ApprovalID) (e : Live μ) (r : Row) (io : ConfirmIO) (now : Time) (s : Store μ) :
    Store μ × Outcome :=
  let s := s.setEntry id { e with handle := none }
  if !io.begin' then (s, .failed)
  else if !checkAction e.action r.summary io then (s.take id .reject, .precondition)
  else if !(io.audit && (!e.action.perform || io.perform)) then (s, .failed)
  else if !io.commit then (s, .failed)
  else
    ({ s with
      pending := s.pending.erase id
      rows := s.rows.insert id (decide' .approved now r)
      performed := id :: s.performed }, .ok)

/-- `confirm`, up to the release of the mutex. -/
def confirm (cfg : Config μ) (id : ApprovalID) (code : String) (io : ConfirmIO) (now : Time) (s : Store μ) :
    Store μ × Outcome :=
  match s.pending.lookup id with
  | none => (s, s.unknownOrExpired id io.lookup)
  | some e =>
    if e.reserved then (s, s.unknownOrExpired id io.lookup)
    else
      match s.checkExpiry id now io.expiry with
      | .failed => (s, .failed)
      | .expired => (s.expireLocked id now, .expired)
      | .running r =>
        if some (cfg.codeMAC s.key id code) ≠ e.mac then s.badCode id e r io now else s.approve id e r io now

/-! ## Other ends -/

/-- `takePending`. -/
def takePending (id : ApprovalID) (s : Store μ) : Store μ :=
  match s.pending.lookup id with
  | none => s
  | some e => if e.reserved then s else s.take id .reject

/-- The query of `RejectSubjects`. -/
def pendingOf (subjects : List String) (s : Store μ) : List ApprovalID :=
  subjects.flatMap fun subject => (s.rows.entries.filter fun e => e.2.state = .pending ∧
    e.2.subject = subject).map fun e => e.1

/-- The next approval of a `RejectSubjects`. -/
def rejectNext (s : Store μ) : Store μ :=
  match s.rejecting with
  | [] => s
  | id :: rest => { s with rejecting := rest }.takePending id

/-- The section of `expireNow`. A timer that was stopped may have fired before. -/
def expireNow (id : ApprovalID) (s : Store μ) : Store μ :=
  if id ∈ s.timed then
    match s.pending.lookup id with
    | none => s
    | some _ => s.take id .expire
  else s

/-- `writeExpired`, when it succeeds: the row, if it is still pending. -/
def writeExpired (id : ApprovalID) (decided : StoreTime) (s : Store μ) : Store μ × Bool :=
  match s.rows.lookup id with
  | some r =>
    if r.state = .pending then
      ({ s with rows := s.rows.insert id { r with state := .expired, decided := some decided } }, true)
    else (s, false)
  | none => (s, false)

def setJob (id : ApprovalID) (j : Job) (s : Store μ) : Store μ := { s with jobs := s.jobs.insert id j }

def endJob (id : ApprovalID) (s : Store μ) : Store μ := { s with jobs := s.jobs.erase id }

/-- `setUnwritten`. -/
def setUnwritten (id : ApprovalID) (on : Bool) (s : Store μ) : Store μ :=
  { s with unwritten := if on then id :: s.unwritten else s.unwritten.filter fun k => k != id }

/-- `OnReject`. -/
def runOnReject (id : ApprovalID) (s : Store μ) : Store μ := { s with hooked := id :: s.hooked }

/-- The next step of a job. `ok` is whether its transaction succeeds. -/
def work (id : ApprovalID) (ok : Bool) (now : Time) (s : Store μ) : Store μ :=
  match s.jobs.lookup id with
  | none => s
  | some .reject => (if ok then s.setRow id (decide' .rejected now) else s).setJob id .hook
  | some .hook => (s.runOnReject id).endJob id
  | some .expire =>
    if !ok then (s.setUnwritten id true).setJob id (.hookThenRetry (storeTime now))
    else
      let w := s.writeExpired id (storeTime now)
      if w.2 then w.1.setJob id .hook else w.1.endJob id
  | some (.hookThenRetry decided) => (s.runOnReject id).setJob id (.retry decided 1)
  | some (.retry decided n) =>
    if expireRetries < n ∨ s.closed then s.endJob id
    else if !ok then s.setJob id (.retry decided (n + 1))
    else ((s.writeExpired id decided).1.setUnwritten id false).endJob id

/-! ## Windows and the process -/

/-- The first section of `reopen`. -/
def reopen (id : ApprovalID) (s : Store μ) : Store μ :=
  match s.pending.lookup id with
  | none => s
  | some e =>
    if e.reserved || e.opening || e.handle.isSome || s.closed then s else s.setEntry id { e with opening := true }

/-- The second section of `reopen`. -/
def reopened (id : ApprovalID) (handle : Option Nat) (s : Store μ) : Store μ :=
  match s.pending.lookup id with
  | none => s
  | some e =>
    if s.closed then s.setEntry id { e with opening := false }
    else s.setEntry id { e with opening := false, handle := handle.or e.handle }

/-- The first section of `onWindowAnswer`. -/
def answered (id : ApprovalID) (handle : Nat) (s : Store μ) : Store μ :=
  match s.pending.lookup id with
  | none => s
  | some e => if e.handle = some handle then s.setEntry id { e with handle := none } else s

/-- `Close`. -/
def close (s : Store μ) : Store μ :=
  { s with
    closed := true
    pending := ⟨s.pending.entries.map fun e => ⟨e.1, { e.2 with handle := none }⟩, by
      simpa [List.NodupKeys, List.keys, Function.comp_def] using s.pending.nodupKeys⟩ }

/-- `ExpireStale` up to its prune: the rows of `written` are written before it fails or is done. -/
def expireStale (written : ApprovalID → Bool) (now : Time) (s : Store μ) : Store μ :=
  { s with
    rows := ⟨s.rows.entries.map fun e => ⟨e.1, if e.2.state = .pending ∧
      written e.1 then decide' .expired now e.2 else e.2⟩, by
      simpa [List.NodupKeys, List.keys, Function.comp_def] using s.rows.nodupKeys⟩ }

/-- A new process: `NewStore` and `ExpireStale`. -/
def restart (key : Nat) (written : ApprovalID → Bool) (prune : Bool) (now : Time) (s : Store μ) : Store μ :=
  let s := { s with
    key, pending := ∅, closed := false, unwritten := [], drafts := ∅, jobs := ∅, rejecting := [], timed := [] }
  let s := s.expireStale written now
  if prune then s.pruneDecided now else s

def boot (key : Nat) (rows : Dict ApprovalID Row) (wrongCodes : WrongCodes) : Store μ :=
  { key, rows, wrongCodes, used := rows.keys }

/-- The operations of the store, and the jobs of its background goroutines. -/
inductive Op where
  | create (id : ApprovalID) (kind : Kind) (subject summary : String) (action : Action) (io : CreateIO)
  | windowReady (id : ApprovalID) (handle : Nat)
  | createFails (id : ApprovalID)
  | storeApproval (id : ApprovalID) (code : String) (ok : Bool)
  | confirm (id : ApprovalID) (code : String) (io : ConfirmIO)
  | reject (id : ApprovalID)
  | rejectSubjects (subjects : List String)
  | rejectNext
  | expireNow (id : ApprovalID)
  | work (id : ApprovalID) (ok : Bool)
  | list (order : List ApprovalID) (fails : ApprovalID → Bool)
  | reopen (id : ApprovalID)
  | reopened (id : ApprovalID) (handle : Option Nat)
  | answered (id : ApprovalID) (handle : Nat)
  | close
  | restart (key : Nat) (written : ApprovalID → Bool) (prune : Bool)

/-- A section of some goroutine, and what the clock shows in it. -/
structure Event where
  now : Time
  op : Op

/-- One step. The random ids of `Create` are taken to be new. -/
def step (cfg : Config μ) (s : Store μ) (e : Event) : Store μ :=
  match e.op with
  | .create id kind subject summary action io =>
    if id ∈ s.used then s else (s.create cfg id kind subject summary action io e.now).1
  | .windowReady id handle => s.windowReady id handle
  | .createFails id => s.createFails id
  | .storeApproval id code ok => (s.storeApproval cfg id code ok).1
  | .confirm id code io => (s.confirm cfg id code io e.now).1
  | .reject id => s.takePending id
  | .rejectSubjects subjects => { s with rejecting := s.rejecting ++ s.pendingOf subjects }
  | .rejectNext => s.rejectNext
  | .expireNow id => s.expireNow id
  | .work id ok => s.work id ok e.now
  | .list order fails => (s.sweepExpired e.now fails (s.ordered order)).1
  | .reopen id => s.reopen id
  | .reopened id handle => s.reopened id handle
  | .answered id handle => s.answered id handle
  | .close => s.close
  | .restart key written prune => s.restart key written prune e.now

end Store

end Agentnet.Approval
