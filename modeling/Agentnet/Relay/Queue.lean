import Agentnet.Envelope
import Agentnet.Lib.Run

/-! `internal/relay/queue.go`: the table of queued envelopes, the delivered marks and the
totals in memory. -/

namespace Agentnet.Relay

open Lib Envelope

/-- A row of the table `queue`. -/
structure Row where
  seq : Nat
  toKey : PeerKey
  fromKey : PeerKey
  id : String
  enqueued : StoreTime
  frame : Bytes
  deriving DecidableEq

/-- The bytes that count for the caps. -/
def Row.size (r : Row) : Nat := r.frame.length

/-- The columns of the unique index `queue_dedupe`. -/
def Row.key (r : Row) : PeerKey × PeerKey × String := (r.toKey, r.fromKey, r.id)

/-- The table `queue` in the order of its AUTOINCREMENT key, with the last key given out. -/
structure Table where
  rows : List Row
  lastSeq : Nat
  ordered : rows.Pairwise (·.seq < ·.seq)
  bounded : ∀ r ∈ rows, r.seq ≤ lastSeq
  distinct : (rows.map Row.key).Nodup

namespace Table

def empty : Table := ⟨[], 0, .nil, by simp, List.nodup_nil⟩

def delete (t : Table) (gone : Row → Bool) : Table where
  rows := t.rows.filter fun r => !gone r
  lastSeq := t.lastSeq
  ordered := t.ordered.filter _
  bounded := fun r h => t.bounded r (List.mem_filter.mp h).1
  distinct := t.distinct.sublist (List.filter_sublist.map _)

def nextRow (t : Table) (h : Header) (enqueued : StoreTime) (frame : Bytes) : Row :=
  ⟨t.lastSeq + 1, h.toKey, h.fromKey, h.id, enqueued, frame⟩

/-- A new row takes the next number. -/
def insert (t : Table) (h : Header) (enqueued : StoreTime) (frame : Bytes)
    (fresh : (h.toKey, h.fromKey, h.id) ∉ t.rows.map Row.key) : Table where
  rows := t.rows ++ [t.nextRow h enqueued frame]
  lastSeq := t.lastSeq + 1
  ordered := by
    rw [List.pairwise_append]
    refine ⟨t.ordered, List.pairwise_singleton .., ?_⟩
    intro r stored r' new
    obtain rfl := List.mem_singleton.mp new
    exact Nat.lt_succ_of_le (t.bounded r stored)
  bounded := by
    intro r stored
    rcases List.mem_append.mp stored with old | new
    · exact Nat.le_succ_of_le (t.bounded r old)
    · obtain rfl := List.mem_singleton.mp new
      exact le_rfl
  distinct := by
    rw [List.map_append, List.nodup_append]
    refine ⟨t.distinct, List.nodup_singleton _, ?_⟩
    intro k old k' new same
    obtain rfl := List.mem_singleton.mp new
    rw [same] at old
    exact fresh old

end Table

/-! ## Totals -/

structure Usage where
  n : Int := 0
  bytes : Int := 0
  deriving DecidableEq

/-- `queue.senders` and `queue.total`. -/
structure Totals where
  senders : PeerKey → Option Usage
  total : Usage

def Usage.change (u : Usage) (n b : Int) : Usage := ⟨u.n + n, u.bytes + b⟩

def Totals.adjust (t : Totals) (sender : PeerKey) (n b : Int) : Totals :=
  let u := ((t.senders sender).getD {}).change n b
  { senders := Function.update t.senders sender (if u.n ≤ 0 then none else some u)
    total := t.total.change n b }

def usageOf (rows : List Row) : Usage := ⟨rows.length, (rows.map fun r => (r.size : Int)).sum⟩

def sentBy (f : PeerKey) (rows : List Row) : List Row := rows.filter (·.fromKey = f)

/-- The rows of `GROUP BY from_key`. -/
def groupOf (rows : List Row) : Option Usage := if rows = [] then none else some (usageOf rows)

def rebuildTotals (rows : List Row) : Totals where
  senders f := groupOf (sentBy f rows)
  total := usageOf rows

/-! ## The queue -/

/-- `ttl`, the caps per recipient and `queueLimits`, in which zero means no limit. -/
structure QueueConfig where
  ttl : Time
  maxCount : Nat
  maxBytes : Nat
  pairCount : Nat := 0
  pairBytes : Nat := 0
  senderCount : Nat := 0
  senderBytes : Nat := 0
  totalBytes : Nat := 0

structure Queue where
  table : Table
  marks : PeerKey → Option Nat
  totals : Totals

def openQueue (t : Table) (marks : PeerKey → Option Nat) : Queue := ⟨t, marks, rebuildTotals t.rows⟩

def Queue.empty : Queue := openQueue .empty fun _ => none

/-- The stored rows. -/
abbrev Queue.rows (q : Queue) : List Row := q.table.rows

def cutoff (cfg : QueueConfig) (now : Time) : StoreTime := storeTime (now - cfg.ttl)

def unexpired (cfg : QueueConfig) (now : Time) (r : Row) : Bool := cutoff cfg now ≤ r.enqueued

variable {cfg : QueueConfig} {now : Time} {k k' : PeerKey} {q : Queue}

theorem unexpired_anti {later : Time} (h : now ≤ later) {r : Row} (u : unexpired cfg later r = true) :
    unexpired cfg now r = true := by
  simp only [unexpired, decide_eq_true_eq] at u ⊢
  exact le_trans (storeTime_mono (Int.sub_le_sub_right h _)) u

inductive QueueLimit where
  | total | sender | pair | recipient
  deriving DecidableEq

inductive AddError where
  | storageLow
  | full (limit : QueueLimit)
  deriving DecidableEq

def overCount (cap : Nat) (held : Int) : Prop := 0 < cap ∧ (cap : Int) ≤ held

def overBytes (cap : Nat) (held size : Int) : Prop := 0 < cap ∧ (cap : Int) < held + size

instance (cap : Nat) (held : Int) : Decidable (overCount cap held) := inferInstanceAs (Decidable (_ ∧ _))

instance (cap : Nat) (held size : Int) : Decidable (overBytes cap held size) := inferInstanceAs (Decidable (_ ∧ _))

/-- The unexpired rows that `queuePairQuery` and `queueRecipientQuery` count. -/
def pairRows (cfg : QueueConfig) (now : Time) (toKey sender : PeerKey) (rows : List Row) : List Row :=
  rows.filter fun r => r.toKey = toKey ∧ r.fromKey = sender ∧ unexpired cfg now r

def recipientRows (cfg : QueueConfig) (now : Time) (toKey : PeerKey) (rows : List Row) : List Row :=
  rows.filter fun r => r.toKey = toKey ∧ unexpired cfg now r

def senderFull (cfg : QueueConfig) (size : Int) : Option Usage → Prop
  | none => False
  | some u => overCount cfg.senderCount u.n ∨ overBytes cfg.senderBytes u.bytes size

instance (cfg : QueueConfig) (size : Int) : DecidablePred (senderFull cfg size)
  | none => inferInstanceAs (Decidable False)
  | some _ => inferInstanceAs (Decidable (_ ∨ _))

/-- The caps in the order `add` checks them. -/
def checkCaps (cfg : QueueConfig) (low : Bool) (now : Time) (h : Header) (size : Int) (q : Queue) :
    Except AddError Unit := do
  require (low = false) .storageLow
  require (¬overBytes cfg.totalBytes q.totals.total.bytes size) (.full .total)
  require (¬senderFull cfg size (q.totals.senders h.fromKey)) (.full .sender)
  let pair := usageOf (pairRows cfg now h.toKey h.fromKey q.rows)
  require (¬(overCount cfg.pairCount pair.n ∨ overBytes cfg.pairBytes pair.bytes size)) (.full .pair)
  let recipient := usageOf (recipientRows cfg now h.toKey q.rows)
  require (¬(cfg.maxCount ≤ recipient.n ∨ cfg.maxBytes < recipient.bytes + size)) (.full .recipient)

/-- `low` is what `storageLow` reports. -/
def add (cfg : QueueConfig) (low : Bool) (now : Time) (h : Header) (frame : Bytes) (q : Queue) :
    Except AddError Queue :=
  if stored : (h.toKey, h.fromKey, h.id) ∈ q.rows.map Row.key then .ok q
  else do
    checkCaps cfg low now h frame.length q
    return { q with
      table := q.table.insert h (storeTime now) frame stored
      totals := q.totals.adjust h.fromKey 1 frame.length }

def isEnvelope (toKey sender : PeerKey) (id : String) (r : Row) : Bool := r.key = (toKey, sender, id)

def dropAll (t : Totals) (gone : List Row) : Totals := gone.foldl (fun t r => t.adjust r.fromKey (-1) (-r.size)) t

/-- `read = false`: the DELETE took effect and reading its result failed, so the totals
stay as they were. -/
def ack (toKey sender : PeerKey) (id : String) (read : Bool) (q : Queue) : Queue :=
  { q with
    table := q.table.delete (isEnvelope toKey sender id)
    totals := if read then dropAll q.totals (q.rows.filter (isEnvelope toKey sender id)) else q.totals }

def sweepBatchRows : Nat := 32

def oldest (rows : List Row) : List Row :=
  (rows.insertionSort (fun a b => a.enqueued ≤ b.enqueued)).take sweepBatchRows

def expiredBatch (cfg : QueueConfig) (now : Time) (rows : List Row) : List Row :=
  oldest (rows.filter fun r => !unexpired cfg now r)

def sweepBatch (cfg : QueueConfig) (now : Time) (q : Queue) : Queue :=
  let gone := expiredBatch cfg now q.rows
  { q with
    table := q.table.delete (· ∈ gone)
    totals := dropAll q.totals gone }

/-- One statement of `pruneDelivered`. SQLite chooses the keys of one statement. -/
def pruneBatch (keys : List PeerKey) (q : Queue) : Queue :=
  { q with marks := fun k => if k ∈ keys ∧ ∀ r ∈ q.rows, r.toKey ≠ k then none else q.marks k }

/-- The rows of a result up to the one that reaches `maxBytes`. -/
def readRows (maxBytes : Nat) (total : Nat) : List Row → List Row
  | [] => []
  | r :: rest => r :: if maxBytes ≤ total + r.size then [] else readRows maxBytes (total + r.size) rest

def deliverable (cfg : QueueConfig) (now : Time) (toKey : PeerKey) (after : Nat) (rows : List Row) : List Row :=
  rows.filter fun r => r.toKey = toKey ∧ after < r.seq ∧ unexpired cfg now r

/-- The mark up to which rows were delivered. -/
def Queue.delivered (q : Queue) (toKey : PeerKey) : Nat := (q.marks toKey).getD 0

/-- The rows that `claim` returns. -/
def claimable (cfg : QueueConfig) (now : Time) (toKey : PeerKey) (after limit maxBytes : Nat) (q : Queue) :
    List Row :=
  if after < q.delivered toKey then []
  else readRows maxBytes 0 ((deliverable cfg now toKey after q.rows).take limit)

/-- The mark of `toKey` after rows up to `seq` were claimed: `MAX(seq, excluded.seq)`. -/
def Queue.raise (q : Queue) (toKey : PeerKey) (seq : Nat) : Queue :=
  { q with marks := Function.update q.marks toKey (some (max (q.delivered toKey) seq)) }

theorem Queue.marks_raise_self (q : Queue) (k : PeerKey) (n : Nat) :
    (q.raise k n).marks k = some (max (q.delivered k) n) := Function.update_self ..

theorem Queue.marks_raise_of_ne (q : Queue) (h : k' ≠ k) (n : Nat) : (q.raise k n).marks k' = q.marks k' :=
  Function.update_of_ne h ..

theorem Queue.delivered_raise_self (q : Queue) (k : PeerKey) (n : Nat) :
    (q.raise k n).delivered k = max (q.delivered k) n := by
  simp [Queue.delivered, Queue.marks_raise_self]

theorem Queue.delivered_raise_of_ne (q : Queue) (h : k' ≠ k) (n : Nat) :
    (q.raise k n).delivered k' = q.delivered k' := by
  simp only [Queue.delivered, q.marks_raise_of_ne h]

theorem Queue.delivered_le_raise (q : Queue) (k k' : PeerKey) (n : Nat) :
    q.delivered k' ≤ (q.raise k n).delivered k' := by
  by_cases same : k' = k
  · subst same
    rw [q.delivered_raise_self]
    exact Nat.le_max_left _ _
  · rw [q.delivered_raise_of_ne same]

def claim (cfg : QueueConfig) (now : Time) (toKey : PeerKey) (after limit maxBytes : Nat) (q : Queue) :
    List Row × Nat × Queue :=
  let rows := claimable cfg now toKey after limit maxBytes q
  match rows.getLast? with
  | none => ([], q.delivered toKey, q)
  | some last => (rows, max (q.delivered toKey) last.seq, q.raise toKey last.seq)

/-! ## Steps -/

/-- `fault`: the transaction fails somewhere and is rolled back. -/
inductive QueueEvent where
  | add (h : Header) (frame : Bytes) (low : Bool) (now : Time) (fault : Bool)
  | ack (toKey sender : PeerKey) (id : String) (read fault : Bool)
  | sweepBatch (now : Time) (fault : Bool)
  | pruneBatch (keys : List PeerKey)
  | reopen

/-- A failed step leaves the queue as it was. Claims come from connections. -/
def step (cfg : QueueConfig) (q : Queue) : QueueEvent → Queue
  | .add h frame low now false =>
    match add cfg low now h frame q with
    | .ok q' => q'
    | .error _ => q
  | .ack toKey sender id read false => ack toKey sender id read q
  | .sweepBatch now false => sweepBatch cfg now q
  | .pruneBatch keys => pruneBatch keys q
  | .reopen => openQueue q.table q.marks
  | .add _ _ _ _ true | .ack _ _ _ _ true | .sweepBatch _ true => q

/-- The queue after a run from an empty one. -/
abbrev after (cfg : QueueConfig) (es : List QueueEvent) : Queue := run (step cfg) .empty es

/-- An ack whose DELETE took effect while reading its result failed. -/
def QueueEvent.unread : QueueEvent → Bool
  | .ack _ _ _ false false => true
  | _ => false

inductive QueueMove (cfg : QueueConfig) (q : Queue) : QueueEvent → Queue → Prop where
  | same (e : QueueEvent) (whole : e.unread = false) : QueueMove cfg q e q
  | added (h : Header) (frame : Bytes) (now : Time)
      (fresh : (h.toKey, h.fromKey, h.id) ∉ q.rows.map Row.key)
      (room : checkCaps cfg false now h frame.length q = .ok ()) :
      QueueMove cfg q (.add h frame false now false)
        { q with
          table := q.table.insert h (storeTime now) frame fresh
          totals := q.totals.adjust h.fromKey 1 frame.length }
  | acked (toKey sender : PeerKey) (id : String) (read : Bool) :
      QueueMove cfg q (.ack toKey sender id read false) (ack toKey sender id read q)
  | swept (now : Time) : QueueMove cfg q (.sweepBatch now false) (sweepBatch cfg now q)
  | pruned (keys : List PeerKey) : QueueMove cfg q (.pruneBatch keys) (pruneBatch keys q)
  | reopened : QueueMove cfg q .reopen (openQueue q.table q.marks)

/-- An `add` that succeeds stores one row. -/
theorem add_move (cfg : QueueConfig) (low : Bool) (now : Time) (h : Header) (frame : Bytes) {q' : Queue}
    (ok : add cfg low now h frame q = .ok q') : QueueMove cfg q (.add h frame low now false) q' := by
  unfold add at ok
  split at ok
  · obtain rfl := Except.ok.inj ok
    exact .same _ rfl
  · next fresh =>
    obtain ⟨_, room, stored⟩ := bind_eq_ok.mp ok
    obtain rfl := Except.ok.inj stored
    cases low with
    | true => exact absurd room (by simp [checkCaps, require])
    | false => exact .added h frame now fresh room

/-- Every step is one of the moves. -/
theorem step_move (cfg : QueueConfig) (q : Queue) (e : QueueEvent) : QueueMove cfg q e (step cfg q e) := by
  cases e with
  | add h frame low now fault =>
    cases fault with
    | true => exact .same _ rfl
    | false =>
      simp only [step]
      split
      · next ok => exact add_move cfg low now h frame ok
      · exact .same _ rfl
  | ack toKey sender id read fault =>
    cases fault with
    | true => cases read <;> exact .same _ rfl
    | false => exact .acked toKey sender id read
  | sweepBatch now fault =>
    cases fault with
    | true => exact .same _ rfl
    | false => exact .swept now
  | pruneBatch keys => exact .pruned keys
  | reopen => exact .reopened

theorem checkCaps_eq_ok {low : Bool} {h : Header} {size : Int} : checkCaps cfg low now h size q = .ok () ↔
      low = false ∧ ¬overBytes cfg.totalBytes q.totals.total.bytes size ∧
      ¬senderFull cfg size (q.totals.senders h.fromKey) ∧
      ¬(overCount cfg.pairCount (usageOf (pairRows cfg now h.toKey h.fromKey q.rows)).n ∨
        overBytes cfg.pairBytes (usageOf (pairRows cfg now h.toKey h.fromKey q.rows)).bytes size) ∧
      ¬(cfg.maxCount ≤ (usageOf (recipientRows cfg now h.toKey q.rows)).n ∨
        cfg.maxBytes < (usageOf (recipientRows cfg now h.toKey q.rows)).bytes + size) := by
  simp only [checkCaps, bind_eq_ok, require_eq_ok, exists_and_left, exists_const]

end Agentnet.Relay
