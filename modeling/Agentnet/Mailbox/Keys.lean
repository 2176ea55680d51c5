import Agentnet.Basic
import Agentnet.Lib.Run

/-! The daemon's own mailbox keys: rotation, retirement, expiry and the cap on
live private keys (package `mailbox`). -/

namespace Agentnet.Mailbox

abbrev KeyID := String

def renewBefore : Int := hour
def rotateAfter : Int := 7 * day
def deleteGrace : Int := 7 * day
def maxLive : Nat := 3
def loadRetry : Int := second
def maxSkew : Int := 10 * minute
def announcementLifetime : Int := 14 * day

/-- The signed announcement of a key; its times are whole seconds. -/
structure Announcement where
  keyID : KeyID
  created : WireTime
  notAfter : WireTime
  deriving DecidableEq, Repr

/-- `mail.SignAnnouncement`. -/
def signAnnouncement (keyID : KeyID) (now : Time) : Announcement where
  keyID := keyID
  created := wireTime now
  notAfter := wireTime (parseWireTime (wireTime now) + announcementLifetime)

/-- A row of `mailbox_keys_own`. -/
structure OwnKey where
  keyID : KeyID
  created : StoreTime
  notAfter : StoreTime
  retired : Option StoreTime
  deleted : Option StoreTime
  announcement : Announcement
  deriving DecidableEq, Repr

/-- A live row as `live` scans it. -/
structure Row where
  keyID : KeyID
  created : Time
  notAfter : Time
  retired : Bool
  announced : Announcement
  deriving DecidableEq, Repr

/-- The row that `loadLive` reads. -/
def OwnKey.row (k : OwnKey) : Row :=
  ⟨k.keyID, parseStoreTime k.created, parseStoreTime k.notAfter, k.retired.isSome, k.announcement⟩

/-- Not deleted. -/
def OwnKey.live (k : OwnKey) : Bool := k.deleted.isNone

structure Keys where
  table : List OwnKey
  /-- The keystore entries that hold a private half. -/
  secrets : List KeyID
  cache : List KeyID
  failed : List (KeyID × Time)

def Keys.empty : Keys := ⟨[], [], [], []⟩

/-- `ORDER BY created, key_id`. -/
def OwnKey.before (a b : OwnKey) : Prop := a.created < b.created ∨ a.created = b.created ∧ a.keyID ≤ b.keyID

instance : DecidableRel OwnKey.before := fun a b =>
  inferInstanceAs (Decidable (a.created < b.created ∨ a.created = b.created ∧ a.keyID ≤ b.keyID))

/-- The keys that are not deleted, in the order of the query. -/
def Keys.live (s : Keys) : List Row := ((s.table.filter OwnKey.live).insertionSort OwnKey.before).map OwnKey.row

/-- Whether `currentOf` prefers `r` to what it has found so far. -/
def Row.supersedes (r : Row) (cur : Option Row) : Bool := !r.retired && cur.all fun c => c.created < r.created

def currentOf (rows : List Row) : Option Row :=
  rows.foldl (fun cur r => if r.supersedes cur then some r else cur) none

inductive Loaded where
  | found
  | notFound
  | mismatch
  | unavailable
  | failed
  deriving DecidableEq, Repr

/-- What deleting a private key comes to: `rowFailed` has removed the secret
without marking the row. -/
inductive Deletion where
  | done
  | keystoreFailed
  | rowFailed
  deriving DecidableEq, Repr

/-- One call of `Rotate` or `Announcement`: the clock reading and everything the
keystore, the random source and the database answer during it. -/
structure Call where
  now : Time
  /-- Reading the private half of the current key. -/
  load : Loaded
  /-- The key drawn, if generating, saving and recording it succeed. -/
  drawn : Option KeyID
  /-- The newest `mail_seen` stamp, if there is one and the query succeeds. -/
  newestSeen : Option StoreTime
  expire : KeyID → Deletion
  evict : KeyID → Deletion

def usable (r : Row) (c : Call) : Except Unit Bool :=
  if ¬ (c.now + renewBefore < r.notAfter) ∨ c.now + maxSkew < r.created then .ok false
  else match c.load with
    | .notFound | .mismatch => .ok false
    | .unavailable => .ok true
    | .failed => .error ()
    | .found => .ok true

def retire (rows : List Row) : List Row := rows.map fun r => { r with retired := true }

/-- `expired`: past `not_after` and the grace, and a newer key is past its own grace. -/
def expired (r : Row) (rows : List Row) (basis : Time) : Bool :=
  decide (r.notAfter + deleteGrace ≤ basis) &&
    rows.any fun n => decide (r.created < n.created) && decide (n.created + deleteGrace ≤ basis)

/-- The scan of `capVictim` from index `j` on, with the best candidate so far. -/
def capVictimFrom (now : Time) : Option (Nat × Row) → Nat → List Row → Option (Nat × Row)
  | best, _, [] => best
  | best, j, r :: rest =>
    if !r.retired then capVictimFrom now best (j + 1) rest
    else if now + maxSkew < r.created then some (j, r)
    else if best.all fun b => r.created < b.2.created then
      capVictimFrom now (some (j, r)) (j + 1) rest
    else capVictimFrom now best (j + 1) rest

def capVictim (rows : List Row) (now : Time) : Option (Nat × Row) := capVictimFrom now none 0 rows

def Keys.forget (s : Keys) (keyID : KeyID) : Keys :=
  { s with cache := s.cache.filter (· ≠ keyID), failed := s.failed.filter (·.1 ≠ keyID) }

def OwnKey.markDeleted (keyID : KeyID) (now : Time) (k : OwnKey) : OwnKey :=
  if k.keyID = keyID then { k with deleted := some (storeTime now) } else k

def Keys.dropSecret (s : Keys) (keyID : KeyID) : Keys := { s with secrets := s.secrets.filter (· ≠ keyID) }

/-- `deleteKey`, with whether it returned no error. -/
def deleteKey (s : Keys) (keyID : KeyID) (now : Time) : Deletion → Keys × Bool
  | .keystoreFailed => (s.forget keyID, false)
  | .rowFailed => ((s.forget keyID).dropSecret keyID, false)
  | .done =>
    let t := (s.forget keyID).dropSecret keyID
    ({ t with table := t.table.map (OwnKey.markDeleted keyID now) }, true)

/-- `mail.SeenBasis`: the earlier of now and the newest stamp. -/
def seenBasis (c : Call) : Option Time := c.newestSeen.map fun newest => min c.now (parseStoreTime newest)

/-- One round of the age loop: the rows kept so far come with the state. -/
def expireStep (c : Call) (rows : List Row) (acc : Keys × List Row) (r : Row) : Keys × List Row :=
  if (seenBasis c).any (expired r rows) then
    match deleteKey acc.1 r.keyID c.now (c.expire r.keyID) with
    | (s, true) => (s, acc.2)
    | (s, false) => (s, acc.2 ++ [r])
  else (acc.1, acc.2 ++ [r])

/-- The cap loop. Each round deletes one of the kept rows or stops, so their
number bounds the rounds. -/
def evictLoop (c : Call) : Nat → Keys → List Row → Keys
  | 0, s, _ => s
  | rounds + 1, s, keep =>
    if keep.length ≤ maxLive then s
    else match capVictim keep c.now with
      | none => s
      | some (i, r) =>
        match deleteKey s r.keyID c.now (c.evict r.keyID) with
        | (t, true) => evictLoop c rounds t (keep.eraseIdx i)
        | (t, false) => t

def sweepLocked (s : Keys) (c : Call) (rows : List Row) : Keys :=
  let (t, keep) := rows.foldl (expireStep c rows) (s, [])
  evictLoop c keep.length t keep

/-- The transaction of `createLocked`: every live key is retired, the new one recorded. -/
def Keys.record (s : Keys) (now : Time) (keyID : KeyID) : Keys :=
  let ann := signAnnouncement keyID now
  { s with
    secrets := keyID :: s.secrets
    table := s.table.map (fun k =>
        if k.retired.isNone ∧ k.deleted.isNone then { k with retired := some (storeTime now) } else k) ++
      [{ keyID := keyID
         created := storeTime (parseWireTime ann.created)
         notAfter := storeTime (parseWireTime ann.notAfter)
         retired := none
         deleted := none
         announcement := ann }] }

def newRow (now : Time) (keyID : KeyID) : Row :=
  let ann := signAnnouncement keyID now
  ⟨keyID, parseWireTime ann.created, parseWireTime ann.notAfter, false, ann⟩

/-- `createLocked` up to its sweep: the recorded table and the rows to sweep. A
drawn key is a new one, so an id already in the table is no draw. -/
def createLocked (s : Keys) (c : Call) (rows : List Row) : Option (Keys × List Row) :=
  match c.drawn with
  | none => none
  | some keyID =>
    if s.table.any (·.keyID = keyID) then none
    else some (s.record c.now keyID, retire rows ++ [newRow c.now keyID])

/-- What `rotate` hands to its sweep, if it reaches one. -/
def rotateStart (s : Keys) (c : Call) : Option (Keys × List Row) :=
  match currentOf s.live with
  | none => createLocked s c s.live
  | some cur =>
    if cur.created + rotateAfter ≤ c.now then createLocked s c s.live
    else match usable cur c with
      | .error _ => none
      | .ok true => some (s, s.live)
      | .ok false => createLocked s c s.live

/-- What `announce` hands to its sweep: only a new key is swept after. -/
def announceStart (s : Keys) (c : Call) : Option (Keys × List Row) :=
  match currentOf s.live with
  | none => createLocked s c s.live
  | some cur =>
    match usable cur c with
    | .error _ | .ok true => none
    | .ok false => createLocked s c s.live

/-- `MailboxKey`: whether the private half of a live key is at hand, and what
the read leaves in the cache. -/
def mailboxKey (s : Keys) (id : KeyID) (now : Time) (load : Loaded) : Keys × Bool :=
  match s.live.find? fun r => r.keyID = id && decide (now < r.notAfter + deleteGrace) with
  | none => (s, false)
  | some r =>
    if r.keyID ∈ s.cache then (s, true)
    else if s.failed.any fun f => f.1 = r.keyID && decide (now - f.2 < loadRetry) && decide (f.2 ≤ now) then
      (s, false)
    else if load = .found then
      ({ s with
         cache := r.keyID :: s.cache
         failed := s.failed.filter (·.1 ≠ r.keyID) }, true)
    else ({ s with failed := (r.keyID, now) :: s.failed.filter (·.1 ≠ r.keyID) }, false)

inductive KeysEvent where
  | rotate (c : Call)
  | announcement (c : Call)
  | mailboxKey (id : KeyID) (now : Time) (load : Loaded)

def KeysEvent.time : KeysEvent → Time
  | .rotate c => c.now
  | .announcement c => c.now
  | .mailboxKey _ now _ => now

/-- The sweep of an event: the call it belongs to and what it is handed. -/
def KeysEvent.sweep (s : Keys) : KeysEvent → Option (Call × Keys × List Row)
  | .rotate c => (rotateStart s c).map (c, ·)
  | .announcement c => (announceStart s c).map (c, ·)
  | .mailboxKey _ _ _ => none

/-- One event; all but a lookup end in a sweep. -/
def Keys.step (s : Keys) : KeysEvent → Keys
  | .mailboxKey id now load => (mailboxKey s id now load).1
  | e =>
    match e.sweep s with
    | none => s
    | some (c, t, rows) => sweepLocked t c rows

/-- The keys after a run. -/
def Keys.after (s : Keys) (es : List KeysEvent) : Keys := Lib.run Keys.step s es

/-- The times that `mail.ParseAnnouncement` accepts at the key's own creation. -/
def Announcement.wellTimed (ann : Announcement) : Bool :=
  decide (ann.created < ann.notAfter) &&
    decide (parseWireTime ann.notAfter ≤ parseWireTime ann.created + 30 * day)

/-- `importLegacy` on an empty table: the key that an older version kept, if its
private half is there and it is not past its deletion time. -/
def importLegacy (ann : Announcement) (now : Time) (load : Loaded) : Keys :=
  if !ann.wellTimed ∨ parseWireTime ann.notAfter + deleteGrace ≤ now ∨ load ≠ .found then Keys.empty
  else
    { Keys.empty with
      secrets := [ann.keyID]
      table := [{ keyID := ann.keyID
                  created := storeTime (parseWireTime ann.created)
                  notAfter := storeTime (parseWireTime ann.notAfter)
                  retired := if parseWireTime ann.notAfter ≤ now then some (storeTime now) else none
                  deleted := none
                  announcement := ann }] }

end Agentnet.Mailbox
