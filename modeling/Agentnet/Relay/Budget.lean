import Mathlib.Data.Finset.Erase
import Mathlib.Data.Finset.Insert
import Agentnet.Lib.Dict
import Agentnet.Relay.Queue

/-! The memory budgets of the relay, `budget.go` and the ledger part of `conn.go`: what every
connection holds of the three budgets, and the drains that reserve before they read. -/

namespace Agentnet.Relay.Budget

open Lib

abbrev ConnId := Nat

/-- The three pools. -/
inductive BudgetKind where
  | outbound | read | ephemeral
  deriving DecidableEq

structure Pending where
  kind : BudgetKind
  n : Int
  deriving DecidableEq

structure PrefixUse where
  used : Int
  holders : Finset ConnId

/-- One relay-wide budget. `max` 0 means no limit and no share. -/
structure Pool where
  max : Int
  share : Int
  used : Int := 0
  prefixes : Dict String PrefixUse := ∅

/-- `out` counts the frames in the channel of capacity `cap`. -/
structure Conn where
  netPrefix : String
  maxBytes : Int
  cap : Nat
  out : Nat := 0
  outBytes : Int := 0
  ephBytes : Int := 0
  resv : Int := 0
  readHeld : Int := 0
  dead : Bool := false
  hold : BudgetKind → Int := fun _ => 0
  queue : List Pending := []

/-- A queue batch under way: what is left of its reservation, the bytes it has handed over, and
the rows it has read and not yet handed over. -/
structure Drain where
  conn : ConnId
  reserved : Int
  sent : Int := 0
  rows : List Row := []
  hasRead : Bool := false

/-- The pools, the connections and the drains. -/
structure Ledger where
  pools : BudgetKind → Pool
  conns : Dict ConnId Conn := ∅
  drains : Dict Nat Drain := ∅

def share (b floor : Int) : Int := if b ≤ 0 then 0 else min b (Max.max (b / 8) floor)

def shareFloor : BudgetKind → Int
  | .outbound => 6 * 2 ^ 20
  | .read => 2 * 2 ^ 20
  | .ephemeral => 512 * 2 ^ 10

def newLedger (size : BudgetKind → Int) : Ledger where
  pools := fun k => { max := size k, share := share (size k) (shareFloor k) }

def maxFrameBytes : Nat := 2 ^ 20
def drainBatch : Nat := 64
def drainBatchBytes : Nat := 2 ^ 20
def drainReserve : Nat := drainBatchBytes + maxFrameBytes

/-! ## Charges -/

/-- A prefix holding nothing may always take one charge, as an empty budget may. -/
def Pool.fits (b : Pool) (p : Option PrefixUse) (n : Int) : Bool :=
  let used := (p.map PrefixUse.used).getD 0
  !(0 < b.share && 0 < used && b.share < used + n) && !(0 < b.max && 0 < b.used && b.max < b.used + n)

/-- Bytes that a connection takes, counted for its prefix too. -/
def Pool.add (b : Pool) (id : ConnId) (p : String) (n : Int) : Pool :=
  let u := (b.prefixes.lookup p).getD ⟨0, ∅⟩
  { b with used := b.used + n, prefixes := b.prefixes.insert p ⟨u.used + n, insert id u.holders⟩ }

/-- `gone`: the connection holds nothing any more. -/
def Pool.sub (b : Pool) (id : ConnId) (p : String) (n : Int) (gone : Bool) : Pool :=
  let b := { b with used := b.used - n }
  match b.prefixes.lookup p with
  | none => b
  | some u =>
    let holders := if gone then u.holders.erase id else u.holders
    { b with prefixes := if holders = ∅ then b.prefixes.erase p else b.prefixes.insert p ⟨u.used - n, holders⟩ }

def Ledger.setPool (l : Ledger) (k : BudgetKind) (b : Pool) : Ledger :=
  { l with pools := Function.update l.pools k b }

def Ledger.setConn (l : Ledger) (id : ConnId) (c : Conn) : Ledger := { l with conns := l.conns.insert id c }

def Conn.addHold (c : Conn) (k : BudgetKind) (n : Int) : Conn :=
  { c with hold := Function.update c.hold k (c.hold k + n) }

/-- None: the charge does not fit. With `frame` it records a frame pushed into the buffer. -/
def charge (l : Ledger) (id : ConnId) (c : Conn) (k : BudgetKind) (n : Int) (force frame : Bool) :
    Option (Conn × Ledger) :=
  if n ≤ 0 then some (c, l)
  else if force = false ∧ (l.pools k).fits ((l.pools k).prefixes.lookup c.netPrefix) n = false then none
  else
    let c' := c.addHold k n
    some (if frame then { c' with queue := c'.queue ++ [⟨k, n⟩] } else c',
      l.setPool k ((l.pools k).add id c.netPrefix n))

def unchargeLocked (l : Ledger) (id : ConnId) (c : Conn) (k : BudgetKind) (n : Int) : Conn × Ledger :=
  let n := min n (c.hold k)
  if n ≤ 0 then (c, l)
  else
    let c := c.addHold k (-n)
    (c, l.setPool k ((l.pools k).sub id c.netPrefix n (c.hold k = 0)))

def popWritten (l : Ledger) (id : ConnId) (c : Conn) : Option Pending × Conn × Ledger :=
  match c.queue with
  | [] => (none, c, l)
  | f :: rest => (some f, unchargeLocked l id { c with queue := rest } f.kind f.n)

def releaseAll (l : Ledger) (id : ConnId) (c : Conn) : Conn × Ledger :=
  let (c, l) := unchargeLocked l id c .outbound (c.hold .outbound)
  let (c, l) := unchargeLocked l id c .read (c.hold .read)
  let (c, l) := unchargeLocked l id c .ephemeral (c.hold .ephemeral)
  ({ c with queue := [] }, l)

/-! ## Operations of a connection -/

def Conn.overCap (c : Conn) (n : Int) : Bool :=
  0 < c.maxBytes && 0 < c.outBytes + c.ephBytes && c.maxBytes < c.outBytes + c.ephBytes + n

/-- `push` charges `kindOutbound` or `kindEphemeral`, never `kindRead`. -/
def tryPush (l : Ledger) (id : ConnId) (c : Conn) (mail : Bool) (n : Nat) (force : Bool) : Ledger :=
  let k : BudgetKind := if mail then .outbound else .ephemeral
  if c.dead ∨ c.out = c.cap then l
  else if mail ∧ c.overCap n then l
  else
    match charge l id c k n force true with
    | none => l
    | some (c, l) =>
      let c := { c with out := c.out + 1 }
      l.setConn id (if mail then { c with outBytes := c.outBytes + n } else { c with ephBytes := c.ephBytes + n })

/-- The connection and the ledger after a successful reservation. -/
def tryReserve (l : Ledger) (id : ConnId) (c : Conn) (n : Nat) : Option Ledger :=
  if c.dead then none
  else if c.overCap n then none
  else
    match charge l id c .outbound n false false with
    | none => none
    | some (c, l) => some (l.setConn id { c with resv := c.resv + n })

def unreserve (l : Ledger) (id : ConnId) (c : Conn) (n : Int) : Ledger :=
  if c.dead then l
  else
    let n := min n c.resv
    if n ≤ 0 then l
    else
      let (c, l) := unchargeLocked l id { c with resv := c.resv - n } .outbound n
      l.setConn id c

/-- One attempt of `sendReserved`: the buffer has a free slot and the connection lives. -/
def sendReserved (c : Conn) (n : Nat) : Option Conn :=
  if c.dead ∨ c.cap ≤ c.out then none
  else
    some { c with
      out := c.out + 1, outBytes := c.outBytes + n, resv := c.resv - n, queue := c.queue ++ [⟨.outbound, n⟩] }

def chargeRead (l : Ledger) (id : ConnId) (c : Conn) (n : Nat) : Ledger :=
  if c.dead then l
  else
    match charge l id c .read n false false with
    | none => l
    | some (c, l) => l.setConn id { c with readHeld := c.readHeld + n }

def doneRead (l : Ledger) (id : ConnId) (c : Conn) : Ledger :=
  if c.dead ∨ c.readHeld = 0 then l
  else
    let (c, l) := unchargeLocked l id c .read c.readHeld
    l.setConn id { c with readHeld := 0 }

/-- A frame was written, or the connection is dead. -/
def written (l : Ledger) (id : ConnId) (c : Conn) : Ledger :=
  if c.dead then l
  else
    match popWritten l id c with
    | (none, c, l) => l.setConn id c
    | (some f, c, l) =>
      l.setConn id (if f.kind = .outbound then { c with outBytes := c.outBytes - f.n }
        else { c with ephBytes := c.ephBytes - f.n })

/-- `dieLocked`, of a release and of an eviction. -/
def die (l : Ledger) (id : ConnId) (c : Conn) : Ledger :=
  if c.dead then l
  else
    let (c, l) := releaseAll l id { c with dead := true }
    l.setConn id { c with outBytes := 0, ephBytes := 0, resv := 0, readHeld := 0, out := 0 }

/-! ## Batches -/

/-- The rows of a `claim` that finds `rows`. -/
def claimBatch (rows : List Row) : List Row := readRows drainBatchBytes 0 (rows.take drainBatch)

/-- How far the lengths read by `nextRange` are within `maxBytes`: how many rows and their
bytes. -/
def rangeFits (maxBytes : Nat) : Nat → Nat → List Row → Nat × Nat
  | n, total, [] => (n, total)
  | n, total, r :: rest =>
    if 0 < n ∧ maxBytes < total + r.size then (n, total) else rangeFits maxBytes (n + 1) (total + r.size) rest

/-- The rows of a `nextRange` whose first query finds `lens` and whose second finds `rows` up to
the last one that fits. -/
def rangeBatch (maxBytes : Nat) (lens rows : List Row) : List Row :=
  let (n, total) := rangeFits maxBytes 0 0 (lens.take drainBatch)
  if n = 0 then [] else readRows (Max.max total 1) 0 (rows.take n)

/-- Rows that a query finds. The relay reads no longer frame from a connection, so it stores
none. -/
structure Found where
  rows : List Row
  small : ∀ r ∈ rows, r.size ≤ maxFrameBytes

/-- What a drain reads: first deliveries, or the first `cut` rows of a range. `paid` is the probed
row's size and what `redeliverReserve` gives of the rest of `drainBatchBytes`. -/
inductive Read where
  | claim (found : Found)
  | range (paid : Nat) (within : paid ≤ drainBatchBytes) (cut : Nat) (lens found : Found)

/-- The rows that a read puts into memory. -/
def Read.batch : Read → List Row
  | .claim found => claimBatch found.rows
  | .range paid _ cut lens found => (rangeBatch paid lens.rows found.rows).take cut

/-! ## Events -/

/-- `take`: the write loop receives a frame from the channel. -/
inductive Event where
  | connect (id : ConnId) (netPrefix : String) (maxBytes : Nat) (cap : Nat)
  | push (id : ConnId) (mail : Bool) (n : Nat) (force : Bool)
  | read (id : ConnId) (n : Nat)
  | doneRead (id : ConnId)
  | take (id : ConnId)
  | written (id : ConnId)
  | die (id : ConnId)
  | reserve (drain : Nat) (id : ConnId)
  | drainRead (drain : Nat) (read : Read)
  | drainSend (drain : Nat)
  | unreserve (drain : Nat)

def onConn (l : Ledger) (id : ConnId) (f : Conn → Ledger) : Ledger :=
  match l.conns.lookup id with
  | none => l
  | some c => f c

def Ledger.setDrain (l : Ledger) (drain : Nat) (d : Drain) : Ledger := { l with drains := l.drains.insert drain d }

/-- A drain reserves its bytes before it reads. -/
def reserve (l : Ledger) (drain : Nat) (id : ConnId) (c : Conn) : Ledger :=
  match tryReserve l id c drainReserve with
  | none => l
  | some l => l.setDrain drain { conn := id, reserved := drainReserve }

def drainRead (l : Ledger) (drain : Nat) (d : Drain) (read : Read) : Ledger :=
  if d.hasRead then l else l.setDrain drain { d with rows := read.batch, hasRead := read.batch ≠ [] }

def drainSend (l : Ledger) (drain : Nat) (d : Drain) : Ledger :=
  match d.rows with
  | [] => l
  | r :: rest =>
    onConn l d.conn fun c =>
      match sendReserved c r.size with
      | none => l
      | some c => (l.setConn d.conn c).setDrain drain
          { d with reserved := d.reserved - r.size, sent := d.sent + r.size, rows := rest }

def endDrain (l : Ledger) (drain : Nat) (d : Drain) : Ledger :=
  let l := onConn l d.conn fun c => unreserve l d.conn c d.reserved
  { l with drains := l.drains.erase drain }

def onDrain (l : Ledger) (drain : Nat) (f : Drain → Ledger) : Ledger :=
  match l.drains.lookup drain with
  | none => l
  | some d => f d

/-- One event. -/
def step (l : Ledger) : Event → Ledger
  | .connect id netPrefix maxBytes cap =>
    if id ∈ l.conns then l else l.setConn id { netPrefix := netPrefix, maxBytes := maxBytes, cap := cap }
  | .push id mail n force => onConn l id fun c => tryPush l id c mail n force
  | .read id n => onConn l id fun c => chargeRead l id c n
  | .doneRead id => onConn l id fun c => doneRead l id c
  | .take id => onConn l id fun c => l.setConn id { c with out := c.out - 1 }
  | .written id => onConn l id fun c => written l id c
  | .die id => onConn l id fun c => die l id c
  | .reserve drain id => if drain ∈ l.drains then l else onConn l id fun c => reserve l drain id c
  | .drainRead drain read => onDrain l drain fun d => drainRead l drain d read
  | .drainSend drain => onDrain l drain fun d => drainSend l drain d
  | .unreserve drain => onDrain l drain fun d => endDrain l drain d

end Agentnet.Relay.Budget
