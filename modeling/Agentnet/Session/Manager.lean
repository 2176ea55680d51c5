import Agentnet.Lib.Dict
import Agentnet.Lib.Run
import Agentnet.Session.Transport

/-! `internal/session`: the manager of one daemon's sessions. Its three maps, the messages
that wait for a handshake, and every handler that changes them. -/

namespace Agentnet.Session

open Lib

/-- `hs` while the handshake runs, `tr` once the session is open. -/
inductive Phase where
  | initiated (eI : Ephemeral)
  | responded (eI eR : Ephemeral)
  | established (tr : Transport)
  deriving DecidableEq

/-- A session of either role, open or not. -/
structure Sess where
  sid : SID
  peer : PeerKey
  phase : Phase
  created : Time
  opened : Time := 0
  deriving DecidableEq

/-- An open session of `peer`. -/
def Sess.isOpen (peer : PeerKey) (s : Sess) : Bool :=
  match s.phase with
  | .established _ => s.peer = peer
  | _ => false

/-- A handshake that `peer` started and that still runs. -/
def Sess.isPending (peer : PeerKey) (s : Sess) : Bool :=
  match s.phase with
  | .responded _ _ => s.peer = peer
  | _ => false

def maxQueuePerPeer : Nat := 16
def maxOpenPerPeer : Nat := 4
def maxPendingPerPeer : Nat := 4
def handshakeTTL : Time := 10 * second

/-- The maps of the session manager. -/
structure Manager where
  sessions : Dict SID Sess
  current : PeerKey → Option SID
  dialing : PeerKey → Option SID
  queue : PeerKey → List Plaintext

def newManager : Manager := ⟨∅, fun _ => none, fun _ => none, fun _ => []⟩

/-- What a step sends, what it hands to a handler with the frame it came in, and the panic of
a send on a session that is missing or not open. -/
inductive Output where
  | frame (f : Frame)
  | deliver (f : Frame) (pt : Plaintext)
  | panic
  deriving DecidableEq

/-! ## Sealing -/

inductive Sealed where
  | panic
  | exhausted
  | sealed (s : Sess) (f : Frame)

def sealLocked (self : PeerKey) (pt : Plaintext) : Option Sess → Sealed
  | none => .panic
  | some s =>
    match s.phase with
    | .initiated _ | .responded _ _ => .panic
    | .established tr =>
      match tr.seal (dataAD self s.peer s.sid) pt with
      | none => .exhausted
      | some (ct, tr) =>
        .sealed { s with phase := .established tr }
          ⟨self, s.peer, .data, some s.sid, .data ct.counter (some ct)⟩

/-- Sealing on the session that the map holds for `sid`. -/
def sealOn (self : PeerKey) (m : Manager) (sid : SID) (pt : Plaintext) : Manager × List Output :=
  match sealLocked self pt (m.sessions.lookup sid) with
  | .panic => (m, [.panic])
  | .exhausted => (m, [])
  | .sealed s f => ({ m with sessions := m.sessions.insert sid s }, [.frame f])

/-- The messages of a queue, up to the first that cannot be sealed. -/
def sealAll (self : PeerKey) : Sess → List Plaintext → Sess × List Output
  | s, [] => (s, [])
  | s, pt :: rest =>
    match sealLocked self pt (some s) with
    | .panic => (s, [.panic])
    | .exhausted => (s, [])
    | .sealed s f =>
      let (s, out) := sealAll self s rest
      (s, .frame f :: out)

/-- `flushLocked`. The session keeps its counters only if it is still in the map. -/
def flush (self : PeerKey) (m : Manager) (s : Sess) : Manager × List Output :=
  let (s', out) := sealAll self s (m.queue s.peer)
  let m := { m with queue := Function.update m.queue s.peer [] }
  (if s.sid ∈ m.sessions then { m with sessions := m.sessions.insert s.sid s' } else m, out)

/-! ## Limits -/

/-- The sessions in the order in which a loop over the map sees them. -/
def arrange (order : List SID) (sessions : Dict SID Sess) : List Sess :=
  order.filterMap sessions.lookup ++ (sessions.entries.filter fun x => x.1 ∉ order).map fun x => x.2

def oldest (age : Sess → Time) : List Sess → Option Sess
  | [] => none
  | s :: rest => some (rest.foldl (fun o s => if age s < age o then s else o) s)

/-- Delete the oldest of `which` until at most `keep` are left. `order k` is the map order of
one round. -/
def trim (which : Sess → Bool) (age : Sess → Time) (keep : Nat) (order : Nat → List SID) :
    Nat → Dict SID Sess → Dict SID Sess
  | 0, sessions => sessions
  | k + 1, sessions =>
    if Dict.count sessions (fun _ s => which s) ≤ keep then sessions
    else
      match oldest age ((arrange (order k) sessions).filter which) with
      | none => sessions
      | some o => trim which age keep order k (sessions.erase o.sid)

def trimAll (which : Sess → Bool) (age : Sess → Time) (keep : Nat) (order : Nat → List SID)
    (sessions : Dict SID Sess) : Dict SID Sess :=
  trim which age keep order sessions.entries.length sessions

def limitPendingLocked (m : Manager) (peer : PeerKey) (order : Nat → List SID) : Manager :=
  { m with sessions := trimAll (Sess.isPending peer) Sess.created (maxPendingPerPeer - 1) order m.sessions }

def openLocked (m : Manager) (s : Sess) (tr : Transport) (now : Time) (order : Nat → List SID) : Manager :=
  let s := { s with phase := .established tr, opened := now }
  { m with
    sessions := trimAll (Sess.isOpen s.peer) Sess.opened maxOpenPerPeer order (m.sessions.insert s.sid s)
    current := Function.update m.current s.peer (some s.sid)
    dialing := if m.dialing s.peer = some s.sid then Function.update m.dialing s.peer none else m.dialing }

def dropLocked (m : Manager) (sid : SID) : Manager :=
  match m.sessions.lookup sid with
  | none => m
  | some s =>
    { sessions := m.sessions.erase sid
      current := if m.current s.peer = some sid then Function.update m.current s.peer none else m.current
      dialing := if m.dialing s.peer = some sid then Function.update m.dialing s.peer none else m.dialing
      queue := if m.dialing s.peer = some sid then Function.update m.queue s.peer [] else m.queue }

/-! ## Handlers -/

/-- What the handlers read of the world: the type of a plaintext, the text of a pong for the
ping it answers, and the registered types. -/
structure World where
  typeOf : Plaintext → Option String
  pong : Plaintext → Plaintext
  handles : String → Bool

/-- The environment's part of one step. `sid` and `ephemeral` are drawn, `fails`: the library
reports an error, `order`: the map orders. -/
structure Inputs where
  now : Time := 0
  sid : SID := 0
  ephemeral : Ephemeral := 0
  fails : Bool := false
  order : Nat → List SID := fun _ => []
  paired : Bool := true
  initGate : Bool := true
  gated : Bool := false
  replies : Bool := true

/-- Data is sealed on the open session, or waits for one. -/
def prepareApp (self : PeerKey) (m : Manager) (peer : PeerKey) (pt : Plaintext) (x : Inputs) :
    Manager × List Output :=
  match m.current peer with
  | some sid => sealOn self m sid pt
  | none =>
    if maxQueuePerPeer ≤ (m.queue peer).length then (m, [])
    else
      let m := { m with queue := Function.update m.queue peer (m.queue peer ++ [pt]) }
      match m.dialing peer with
      | some _ => (m, [])
      | none =>
        if x.fails then (m, [])
        else
          ({ m with
              sessions := m.sessions.insert x.sid
                { sid := x.sid, peer := peer, phase := .initiated x.ephemeral, created := x.now }
              dialing := Function.update m.dialing peer (some x.sid) },
            [.frame ⟨self, peer, .init, some x.sid, .msg1 x.ephemeral⟩])

def sealCurrent (self : PeerKey) (m : Manager) (peer : PeerKey) (pt : Plaintext) : Manager × List Output :=
  match m.current peer with
  | none => (m, [])
  | some sid => sealOn self m sid pt

def onInit (self : PeerKey) (m : Manager) (peer : PeerKey) (sid : SID) (body : Body) (x : Inputs) :
    Manager × List Output :=
  if x.initGate = false then (m, [])
  else if sid ∈ m.sessions then (m, [])
  else
    let m := limitPendingLocked m peer x.order
    match x.fails, body with
    | false, .msg1 e =>
      ({ m with
          sessions := m.sessions.insert sid
            { sid := sid, peer := peer, phase := .responded e x.ephemeral, created := x.now } },
        [.frame ⟨self, peer, .resp, some sid, .msg2 ⟨e, x.ephemeral, self, peer⟩⟩])
    | _, _ => (m, [])

/-- The answer of the responder: the initiator is open. -/
def onResp (self : PeerKey) (m : Manager) (peer : PeerKey) (sid : SID) (body : Body) (x : Inputs) :
    Manager × List Output :=
  match m.sessions.lookup sid with
  | none => (m, [])
  | some s =>
    if s.peer ≠ peer then (m, [])
    else
      match s.phase with
      | .responded _ _ | .established _ => (m, [])
      | .initiated eI =>
        match readMsg2 self peer eI body with
        | none => (dropLocked m sid, [])
        | some eR =>
          if x.fails then (dropLocked m sid, [])
          else
            let tr := newTransport true eI eR
            let (m, out) := flush self (openLocked m s tr x.now x.order)
              { s with phase := .established tr, opened := x.now }
            (m, .frame ⟨self, peer, .fin, some sid, .msg3 ⟨eI, eR, self, peer⟩⟩ :: out)

def onFin (self : PeerKey) (m : Manager) (peer : PeerKey) (sid : SID) (body : Body) (x : Inputs) :
    Manager × List Output :=
  match m.sessions.lookup sid with
  | none => (m, [])
  | some s =>
    if s.peer ≠ peer then (m, [])
    else
      match s.phase with
      | .initiated _ | .established _ => (m, [])
      | .responded eI eR =>
        if readMsg3 self peer eI eR body then
          let tr := newTransport false eI eR
          flush self (openLocked m s tr x.now x.order) { s with phase := .established tr, opened := x.now }
        else (dropLocked m sid, [])

/-- What becomes of a plaintext. `replies`: the ping gate allows the answer and the session
is still there. -/
def handlePlaintext (w : World) (self : PeerKey) (m : Manager) (f : Frame) (sid : SID) (pt : Plaintext)
    (x : Inputs) : Manager × List Output :=
  match w.typeOf pt with
  | none => (m, [])
  | some "ping" => if x.replies then sealOn self m sid (w.pong pt) else (m, [])
  | some "pong" => (m, [])
  | some type =>
    if x.gated ∧ ¬type.endsWith ".resp" then (m, [])
    else if w.handles type then (m, [.deliver f pt])
    else (m, [])

def onData (w : World) (self : PeerKey) (m : Manager) (f : Frame) (sid : SID) (x : Inputs) : Manager × List Output :=
  match f.body with
  | .data n ct =>
    match m.sessions.lookup sid with
    | none => (m, [])
    | some s =>
      match s.phase with
      | .initiated _ | .responded _ _ => (m, [])
      | .established tr =>
        if s.peer ≠ f.fromKey then (m, [])
        else
          match tr.open n (dataAD f.fromKey self s.sid n) ct with
          | .error _ => (m, [])
          | .ok (pt, tr) =>
            let s := { s with phase := .established tr }
            handlePlaintext w self { m with sessions := m.sessions.insert sid s } f sid pt x
  | .msg1 _ | .msg2 _ | .msg3 _ | .short => (m, [])

/-- A frame from the relay; an unpaired peer is ignored. -/
def handle (w : World) (self : PeerKey) (m : Manager) (f : Frame) (x : Inputs) : Manager × List Output :=
  if x.paired = false then (m, [])
  else
    match f.sid, f.type with
    | none, _ => (m, [])
    | some sid, .init => onInit self m f.fromKey sid f.body x
    | some sid, .resp => onResp self m f.fromKey sid f.body x
    | some sid, .fin => onFin self m f.fromKey sid f.body x
    | some sid, .data => onData w self m f sid x
    | some _, .unknown => (m, [])

def dropWhere (m : Manager) (p : Sess → Bool) : Manager :=
  ((m.sessions.entries.filter fun e => p e.2).map fun e => e.1).foldl dropLocked m

def sweep (m : Manager) (now : Time) : Manager :=
  dropWhere m fun s =>
    match s.phase with
    | .established _ => false
    | .initiated _ | .responded _ _ => handshakeTTL < now - s.created

def dropGatedSessions (m : Manager) (refused : PeerKey → Bool) : Manager := dropWhere m fun s => refused s.peer

/-- `HandleError` for a frame that went to `peer`. -/
def handleError (m : Manager) (peer : PeerKey) : Manager :=
  match m.dialing peer with
  | none => m
  | some sid => dropLocked m sid

/-- `drop`: a ping times out on session `sid`. -/
inductive Event where
  | send (peer : PeerKey) (pt : Plaintext) (x : Inputs)
  | sendData (peer : PeerKey) (pt : Plaintext)
  | receive (f : Frame) (x : Inputs)
  | error (peer : PeerKey)
  | drop (sid : SID)
  | dropGated (refused : PeerKey → Bool)
  | sweep (now : Time)

def react (w : World) (self : PeerKey) (m : Manager) : Event → Manager × List Output
  | .send peer pt x => prepareApp self m peer pt x
  | .sendData peer pt => sealCurrent self m peer pt
  | .receive f x => handle w self m f x
  | .error peer => (handleError m peer, [])
  | .drop sid => (dropLocked m sid, [])
  | .dropGated refused => (dropGatedSessions m refused, [])
  | .sweep now => (sweep m now, [])

/-- The manager after an event. -/
def step (w : World) (self : PeerKey) (m : Manager) (e : Event) : Manager := (react w self m e).1

def outputsOf (w : World) (self : PeerKey) (m : Manager) (e : Event) : List Output := (react w self m e).2

/-! ## What the limits leave -/

def Keyed (sessions : Dict SID Sess) : Prop := ∀ sid s, sessions.lookup sid = some s → s.sid = sid

variable {sessions d : Dict SID Sess} {age : Sess → Time} {keep : Nat} {which : Sess → Bool}
  {order : Nat → List SID}

theorem Keyed.erase (keyed : Keyed sessions) (a : SID) : Keyed (sessions.erase a) := by
  intro sid s found
  exact keyed sid s (Dict.lookup_of_erase found).2

theorem Keyed.insert (keyed : Keyed sessions) {a : SID} {b : Sess} (own : b.sid = a) :
    Keyed (sessions.insert a b) := by
  intro sid s found
  obtain ⟨rfl, rfl⟩ | ⟨-, old⟩ := Dict.lookup_insert_cases found
  · exact own
  · exact keyed sid s old

theorem mem_arrange {order : List SID} {s : Sess} :
    s ∈ arrange order sessions ↔ ∃ sid, sessions.lookup sid = some s := by
  simp only [arrange, List.mem_append, List.mem_filterMap, List.mem_map, List.mem_filter, decide_eq_true_eq]
  constructor
  · rintro (⟨sid, -, found⟩ | ⟨e, ⟨stored, -⟩, rfl⟩)
    · exact ⟨sid, found⟩
    · exact ⟨e.1, AList.mem_lookup_iff.mpr stored⟩
  · rintro ⟨sid, found⟩
    by_cases listed : sid ∈ order
    · exact .inl ⟨sid, listed, found⟩
    · exact .inr ⟨⟨sid, s⟩, ⟨AList.mem_lookup_iff.mp found, listed⟩, rfl⟩

theorem oldest_spec {l : List Sess} {o : Sess} (h : oldest age l = some o) : o ∈ l ∧ ∀ s ∈ l, age o ≤ age s := by
  cases l with
  | nil => cases h
  | cons first rest =>
    obtain rfl := Option.some.inj h
    clear h
    induction rest generalizing first with
    | nil => simp
    | cons s rest ih =>
      rw [List.foldl_cons]
      obtain ⟨mem, least⟩ := ih (if age s < age first then s else first)
      have start := least _ List.mem_cons_self
      constructor
      · split at mem <;> grind
      · intro t listed
        split at start <;> grind

/-- What a limit does: it deletes some of `which` until `keep` are left. -/
structure Trimmed (which : Sess → Bool) (keep : Nat) (d d' : Dict SID Sess) : Prop where
  sub : ∀ sid s, d'.lookup sid = some s → d.lookup sid = some s
  kept : ∀ sid s, d.lookup sid = some s → which s = false → d'.lookup sid = some s
  fewer : ∀ p, Dict.count d' p ≤ Dict.count d p
  bound : Dict.count d' (fun _ s => which s) ≤ keep

theorem exists_oldest (age : Sess → Time) (order : List SID) (many : keep < Dict.count d fun _ s => which s) :
    ∃ o, oldest age ((arrange order d).filter which) = some o := by
  obtain ⟨e, stored, chosen⟩ := List.countP_pos_iff.mp (Nat.zero_lt_of_lt many)
  have listed : e.2 ∈ (arrange order d).filter which :=
    List.mem_filter.mpr ⟨mem_arrange.mpr ⟨e.1, AList.mem_lookup_iff.mpr stored⟩, chosen⟩
  cases eq : (arrange order d).filter which with
  | nil => exact absurd (eq ▸ listed) List.not_mem_nil
  | cons s rest => exact ⟨_, rfl⟩

theorem oldest_stored {order : List SID} (keyed : Keyed d) {o : Sess}
    (h : oldest age ((arrange order d).filter which) = some o) :
    d.lookup o.sid = some o ∧ which o = true ∧ ∀ sid s, d.lookup sid = some s → which s = true → age o ≤ age s := by
  obtain ⟨mem, least⟩ := oldest_spec h
  obtain ⟨listed, chosen⟩ := List.mem_filter.mp mem
  obtain ⟨sid, found⟩ := mem_arrange.mp listed
  obtain rfl := keyed sid o found
  refine ⟨found, chosen, ?_⟩
  intro sid s stored passes
  exact least s (List.mem_filter.mpr ⟨mem_arrange.mpr ⟨sid, stored⟩, passes⟩)

theorem trim_trimmed (k : Nat) (d : Dict SID Sess) (keyed : Keyed d)
    (enough : Dict.count d (fun _ s => which s) ≤ keep + k) :
    Trimmed which keep d (trim which age keep order k d) := by
  induction k generalizing d with
  | zero => exact ⟨fun _ _ h => h, fun _ _ h _ => h, fun _ => le_refl _, enough⟩
  | succ k ih =>
    rw [trim]
    split
    · next few => exact ⟨fun _ _ h => h, fun _ _ h _ => h, fun _ => le_refl _, few⟩
    · next many =>
      obtain ⟨o, eq⟩ := exists_oldest age (order k) (not_le.mp many)
      obtain ⟨stored, chosen, -⟩ := oldest_stored keyed eq
      simp only [eq]
      have less := Dict.count_of_lookup (p := fun _ s => which s) stored
      rw [if_pos chosen] at less
      obtain ⟨sub, kept, fewer, bound⟩ := ih (d.erase o.sid) (keyed.erase _) (by omega)
      refine ⟨fun sid s h => (Dict.lookup_of_erase (sub sid s h)).2, ?_,
        fun p => (fewer p).trans Dict.count_erase_le, bound⟩
      intro sid s found other
      apply kept sid s _ other
      have ne : sid ≠ o.sid := by
        rintro rfl
        obtain rfl := Option.some.inj (found.symm.trans stored)
        rw [chosen] at other
        cases other
      rw [AList.lookup_erase_ne ne, found]

theorem trimAll_trimmed (keyed : Keyed d) : Trimmed which keep d (trimAll which age keep order d) :=
  trim_trimmed _ d keyed (List.countP_le_length.trans (Nat.le_add_left _ _))

/-- One session too many, and one strictly older than `s`: `s` stays. -/
theorem trimAll_keeps_newer (keyed : Keyed d) {sid : SID} {s : Sess} (found : d.lookup sid = some s)
    (above : Dict.count d (fun _ s => which s) ≤ keep + 1) (older : Dict.count d (fun _ s => which s) ≤ keep ∨
      ∃ a o, d.lookup a = some o ∧ which o = true ∧
      age o < age s) : (trimAll which age keep order d).lookup sid = some s := by
  rw [trimAll]
  cases d.entries.length with
  | zero => exact found
  | succ k =>
    rw [trim]
    split
    · exact found
    · next many =>
      obtain ⟨o, eq⟩ := exists_oldest age (order k) (not_le.mp many)
      obtain ⟨stored, chosen, least⟩ := oldest_stored keyed eq
      obtain ⟨a, old, at_a, passes, before⟩ := older.resolve_left many
      have ne : sid ≠ o.sid := by
        rintro rfl
        obtain rfl := Option.some.inj (found.symm.trans stored)
        exact absurd (least a old at_a passes) (not_le.mpr before)
      have less := Dict.count_of_lookup (p := fun _ s => which s) stored
      rw [if_pos chosen] at less
      simp only [eq]
      -- one round was enough: the next one finds the limit kept
      have done : trim which age keep order k (d.erase o.sid) = d.erase o.sid := by
        cases k with
        | zero => rfl
        | succ k => rw [trim, if_pos (by omega)]
      rw [done, AList.lookup_erase_ne ne, found]

end Agentnet.Session
