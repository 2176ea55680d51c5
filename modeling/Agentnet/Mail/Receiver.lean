import Agentnet.Basic
import Agentnet.Lib.Run

/-! The receiving path of mail: the created window, the dedupe transaction, the
ack and the prune of `mail_seen` (package `mail`). -/

namespace Agentnet.Mail

abbrev MailID := String

def maxAge : Int := 30 * day
def maxSkew : Int := 10 * minute
def receiveMaxAge : Int := 14 * day
def seenRetention : Int := 35 * day

/-- A verified message. A peer signs it, so nobody else makes one in its name. -/
structure Msg where
  id : MailID
  fromKey : PeerKey
  toKey : PeerKey
  created : WireTime
  kind : String
  body : String
  deriving DecidableEq, Repr

/-- The key of `mail_seen` and `mail_inbox`. -/
def Msg.key (m : Msg) : PeerKey × MailID := (m.fromKey, m.id)

inductive AckMember where
  | ids
  | unsupported
  | rejected
  deriving DecidableEq, Repr

structure SeenRow where
  fromKey : PeerKey
  id : MailID
  receivedAt : StoreTime
  /-- The `!bad_body` mark. -/
  bad : Bool
  deriving DecidableEq, Repr

structure InboxRow where
  fromKey : PeerKey
  id : MailID
  kind : String
  created : WireTime
  receivedAt : StoreTime
  deriving DecidableEq, Repr

/-- How a mail was recorded in `mail_seen`. -/
inductive Outcome where
  | applied
  | unsupported
  | refused
  deriving DecidableEq, Repr

/-- A bad body or a limit: rolled back, and still to be marked in `mail_seen`. -/
structure Refusal where
  msg : Msg
  seenAt : StoreTime
  deriving DecidableEq, Repr

/-- The tables of the receiver, and the log of what was committed. -/
structure Receiver where
  /-- The registered kinds and whether each keeps an inbox row. -/
  kinds : List (String × Bool)
  seen : List SeenRow
  inbox : List InboxRow
  refusals : List Refusal
  /-- The committed records, oldest first. `applied` stands for the effects of `Apply`. -/
  log : List (Msg × Outcome)

/-- Nothing received yet. -/
def Receiver.start (kinds : List (String × Bool)) : Receiver := ⟨kinds, [], [], [], []⟩

/-- The kind has a handler. -/
def Receiver.known (r : Receiver) (kind : String) : Bool := r.kinds.any (·.1 = kind)

def Receiver.keepsInbox (r : Receiver) (kind : String) : Bool := r.kinds.any fun k => k.1 = kind && k.2

def Receiver.seenRow (r : Receiver) (fromKey : PeerKey) (id : MailID) : Option SeenRow :=
  r.seen.find? fun row => row.fromKey = fromKey && row.id = id

def Receiver.inInbox (r : Receiver) (fromKey : PeerKey) (id : MailID) : Bool :=
  r.inbox.any fun row => row.fromKey = fromKey && row.id = id

inductive ApplyResult where
  | ok
  | badBody
  | limit
  | failed
  deriving DecidableEq, Repr

/-- One call of `Handle`: its readings of the local clock, in order, and what
`Apply` and the database answer. -/
structure Call where
  opened : Time
  aged : Time
  stored : Time
  apply : ApplyResult
  /-- The database steps and the commit succeed. -/
  commits : Bool

/-- A call whose readings do not run backwards. -/
structure Delivery extends Call where
  forward : opened ≤ aged ∧ aged ≤ stored

instance : Coe Delivery Call := ⟨Delivery.toCall⟩

/-- Step 11 of `Open`: the created window. -/
def inWindow (created : WireTime) (now : Time) : Bool :=
  !(decide (parseWireTime created < now - maxAge) || decide (now + maxSkew < parseWireTime created))

def seenStamp (now : Time) (created : WireTime) : StoreTime := storeTime (min now (parseWireTime created + maxSkew))

def Receiver.storedAck (r : Receiver) (kind : String) : AckMember := if r.known kind then .ids else .unsupported

/-- `seenAs`: the answer to a repeat of a recorded mail. -/
def Receiver.repeatAck (r : Receiver) (kind : String) (row : SeenRow) : AckMember :=
  if row.bad then .rejected else r.storedAck kind

def Receiver.commit (r : Receiver) (m : Msg) (d : Call) : Receiver :=
  { r with
    seen := ⟨m.fromKey, m.id, seenStamp d.stored m.created, false⟩ :: r.seen
    inbox :=
      if r.keepsInbox m.kind then
        ⟨m.fromKey, m.id, m.kind, m.created, storeTime d.stored⟩ :: r.inbox
      else r.inbox
    log := r.log ++ [(m, if r.known m.kind then .applied else .unsupported)] }

/-- `store`, with the ack that follows, if any. -/
def Receiver.store (r : Receiver) (m : Msg) (d : Call) : Receiver × Option AckMember :=
  match r.seenRow m.fromKey m.id with
  | some row => (r, some (r.repeatAck m.kind row))
  | none =>
    if r.inInbox m.fromKey m.id then (r, some (r.storedAck m.kind))
    else if r.known m.kind then
      match d.apply with
      | .ok => if d.commits then (r.commit m d, some .ids) else (r, none)
      | .badBody | .limit => ({ r with refusals := r.refusals ++ [⟨m, seenStamp d.stored m.created⟩] }, none)
      | .failed => (r, none)
    else if d.commits then (r.commit m d, some .unsupported)
    else (r, none)

/-- `Handle` for a mail that passes steps 1 to 10 of `Open`; an ack mail is not stored. -/
def Receiver.handle (r : Receiver) (m : Msg) (d : Call) : Receiver × Option AckMember :=
  if !inWindow m.created d.opened then (r, none)
  else if m.kind = "ack" then (r, none)
  else if m.kind = "keys" ∧ !r.known "keys" then (r, none)
  else if m.kind ≠ "keys" ∧ receiveMaxAge < d.aged - parseWireTime m.created then (r, some .rejected)
  else r.store m d

/-- The second transaction of `storeBad`, for the `i`-th refusal. -/
def Receiver.storeBad (r : Receiver) (i : Nat) (commits : Bool) : Receiver × Option (Msg × AckMember) :=
  match r.refusals[i]? with
  | none => (r, none)
  | some refusal =>
    let m := refusal.msg
    let rest := { r with refusals := r.refusals.eraseIdx i }
    match r.seenRow m.fromKey m.id with
    | some row => (rest, some (m, r.repeatAck m.kind row))
    | none =>
      if commits then
        ({ rest with
           seen := ⟨m.fromKey, m.id, refusal.seenAt, true⟩ :: r.seen
           log := r.log ++ [(m, .refused)] }, some (m, .rejected))
      else (rest, none)

/-- `SeenBasis`: the earlier of now and the newest stamp. -/
def Receiver.seenBasis (r : Receiver) (now : Time) : Option Time :=
  (r.seen.map (·.receivedAt)).max?.map fun newest => min now (parseStoreTime newest)

/-- `Prune`: the rows before `SeenCutoff` go. -/
def Receiver.prune (r : Receiver) (now : Time) : Receiver :=
  match r.seenBasis now with
  | none => r
  | some basis =>
    { r with seen := r.seen.filter fun row => !decide (row.receivedAt < storeTime (basis - seenRetention)) }

/-- `agentnet prune`: the `mail_seen` prune and then inbox rows that no `mail_seen`
row backs; which of them is the retention plan's choice. -/
def Receiver.pruneFinished (r : Receiver) (now : Time) (plan : InboxRow → Bool) : Receiver :=
  let s := r.prune now
  { s with inbox := s.inbox.filter fun row => !(plan row && (s.seenRow row.fromKey row.id).isNone) }

inductive ReceiverEvent where
  | deliver (m : Msg) (d : Call)
  | storeBad (i : Nat) (commits : Bool)
  | prune (now : Time)
  | pruneFinished (now : Time) (plan : InboxRow → Bool)
  /-- A daemon upgrade registers more kinds. -/
  | upgrade (kinds : List (String × Bool))

/-- One event of the receiver. -/
def Receiver.step (r : Receiver) : ReceiverEvent → Receiver
  | .deliver m d => (r.handle m d).1
  | .storeBad i commits => (r.storeBad i commits).1
  | .prune now => r.prune now
  | .pruneFinished now plan => r.pruneFinished now plan
  | .upgrade kinds => { r with kinds := r.kinds ++ kinds }

/-! ## What a step does -/

variable {fromKey : PeerKey} {id : MailID} {r : Receiver}

theorem seenRow_eq_none : r.seenRow fromKey id = none ↔ ∀ row ∈ r.seen, row.fromKey = fromKey → row.id ≠ id := by
  simp [Receiver.seenRow, List.find?_eq_none]

theorem seenRow_eq_some {row : SeenRow} (h : r.seenRow fromKey id = some row) :
    row ∈ r.seen ∧ row.fromKey = fromKey ∧ row.id = id := by
  have test := List.find?_some h
  simp only [Bool.and_eq_true, decide_eq_true_eq] at test
  exact ⟨List.mem_of_find?_eq_some h, test⟩

/-- The ways `Handle` ends, with the state and the ack it leaves. -/
inductive Handled (r : Receiver) (m : Msg) (d : Call) : Receiver → Option AckMember → Prop where
  | silent : Handled r m d r none
  | stale (keys : m.kind ≠ "keys") (old : receiveMaxAge < d.aged - parseWireTime m.created) :
      Handled r m d r (some .rejected)
  | again (row : SeenRow) (found : r.seenRow m.fromKey m.id = some row) :
      Handled r m d r (some (r.repeatAck m.kind row))
  | kept (fresh : r.seenRow m.fromKey m.id = none) (listed : r.inInbox m.fromKey m.id = true) :
      Handled r m d r (some (r.storedAck m.kind))
  | stored (window : inWindow m.created d.opened = true)
      (young : m.kind ≠ "keys" → d.aged - parseWireTime m.created ≤ receiveMaxAge)
      (fresh : r.seenRow m.fromKey m.id = none) (unlisted : r.inInbox m.fromKey m.id = false) :
      Handled r m d (r.commit m d) (some (r.storedAck m.kind))
  | refused (window : inWindow m.created d.opened = true)
      (young : m.kind ≠ "keys" → d.aged - parseWireTime m.created ≤ receiveMaxAge)
      (fresh : r.seenRow m.fromKey m.id = none) (known : r.known m.kind = true) :
      Handled r m d { r with refusals := r.refusals ++ [⟨m, seenStamp d.stored m.created⟩] } none

theorem store_handled {m : Msg} {d : Call} (window : inWindow m.created d.opened = true)
    (young : m.kind ≠ "keys" → d.aged - parseWireTime m.created ≤ receiveMaxAge) :
    Handled r m d (r.store m d).1 (r.store m d).2 := by
  unfold Receiver.store
  split
  · rename_i row found
    exact .again row found
  · rename_i fresh
    split
    · rename_i listed
      exact .kept fresh listed
    · rename_i unlisted
      have unlisted : r.inInbox m.fromKey m.id = false := by simpa using unlisted
      have stored := Handled.stored (r := r) window young fresh unlisted
      split
      · rename_i known
        rw [Receiver.storedAck, if_pos known] at stored
        split
        · split
          · exact stored
          · exact .silent
        · exact .refused window young fresh known
        · exact .refused window young fresh known
        · exact .silent
      · rename_i unknown
        rw [Receiver.storedAck, if_neg unknown] at stored
        split
        · exact stored
        · exact .silent

theorem handle_handled (r : Receiver) (m : Msg) (d : Call) : Handled r m d (r.handle m d).1 (r.handle m d).2 := by
  unfold Receiver.handle
  split
  · exact .silent
  · rename_i window
    split
    · exact .silent
    · split
      · exact .silent
      · split
        · rename_i old
          exact .stale old.1 old.2
        · rename_i young
          apply store_handled
          · simpa using window
          · intro keys
            by_contra old
            exact young ⟨keys, not_le.mp old⟩

/-- The ways the second transaction of `storeBad` ends. -/
inductive BadStored (r : Receiver) : Receiver → Option (Msg × AckMember) → Prop where
  | none : BadStored r r none
  | again (f : Refusal) (member : f ∈ r.refusals) (rest : List Refusal) (sub : rest.Sublist r.refusals)
      (row : SeenRow) (found : r.seenRow f.msg.fromKey f.msg.id = some row) :
      BadStored r { r with refusals := rest } (some (f.msg, r.repeatAck f.msg.kind row))
  | failed (rest : List Refusal) (sub : rest.Sublist r.refusals) :
      BadStored r { r with refusals := rest } none
  | marked (f : Refusal) (member : f ∈ r.refusals) (rest : List Refusal) (sub : rest.Sublist r.refusals)
      (short : rest.length + 1 = r.refusals.length) (fresh : r.seenRow f.msg.fromKey f.msg.id = none) :
      BadStored r
        { r with
          refusals := rest
          seen := ⟨f.msg.fromKey, f.msg.id, f.seenAt, true⟩ :: r.seen
          log := r.log ++ [(f.msg, .refused)] }
        (some (f.msg, .rejected))

theorem storeBad_stored (r : Receiver) (i : Nat) (commits : Bool) :
    BadStored r (r.storeBad i commits).1 (r.storeBad i commits).2 := by
  have sub := List.eraseIdx_sublist r.refusals i
  unfold Receiver.storeBad
  split
  · exact .none
  · rename_i f found
    have member := List.mem_of_getElem? found
    simp only
    split
    · rename_i row seen
      exact .again f member _ sub row seen
    · rename_i fresh
      split
      · exact .marked f member _ sub (List.length_eraseIdx_add_one (List.getElem?_eq_some_iff.mp found).1) fresh
      · exact .failed _ sub

/-- `Prune` removes old rows of `mail_seen` and nothing else. -/
theorem prune_cases (r : Receiver) (now : Time) :
    ∃ seen, r.prune now = { r with seen := seen } ∧ (∀ row ∈ seen, row ∈ r.seen) ∧
      ∀ row ∈ r.seen, row ∈ seen ∨
      (∃ newest ∈ r.seen, parseStoreTime row.receivedAt < parseStoreTime newest.receivedAt - seenRetention) ∧
        parseStoreTime row.receivedAt < now - seenRetention := by
  unfold Receiver.prune
  split
  · exact ⟨r.seen, rfl, fun _ member => member, fun _ member => .inl member⟩
  · rename_i basis found
    refine ⟨_, rfl, fun row member => (List.mem_filter.mp member).1, ?_⟩
    intro row member
    by_cases old : row.receivedAt < storeTime (basis - seenRetention)
    · right
      obtain ⟨top, newest, rfl⟩ := Option.map_eq_some_iff.mp found
      obtain ⟨last, inside, rfl⟩ := List.mem_map.mp (List.max?_mem newest)
      have left := min_le_left now (parseStoreTime last.receivedAt)
      have right := min_le_right now (parseStoreTime last.receivedAt)
      generalize min now (parseStoreTime last.receivedAt) = basis at *
      refine ⟨⟨last, inside, ?_⟩, ?_⟩ <;>
      · unfold parseStoreTime storeTime seenRetention day hour minute second StoreTime Time at *
        omega
    · left
      exact List.mem_filter.mpr ⟨member, by simpa using old⟩

theorem pruneFinished_cases (r : Receiver) (now : Time) (plan : InboxRow → Bool) :
    ∃ inbox, r.pruneFinished now plan = { r.prune now with inbox := inbox } ∧ ∀ row ∈ inbox, row ∈ r.inbox := by
  refine ⟨_, rfl, ?_⟩
  intro row member
  obtain ⟨_, eq, _⟩ := prune_cases r now
  have inside := (List.mem_filter.mp member).1
  rw [eq] at inside
  exact inside

end Agentnet.Mail
