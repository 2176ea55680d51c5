import Agentnet.Lib.Run
import Agentnet.Team.Store

/-! Links between the devices of one person: intents that a human approves, the offers of the other device,
unlinks, and the scopes of a helper. -/

namespace Agentnet.Device

open Lib Team

abbrev LinkID := String

def intentTTL : Time := 10 * minute
def maxHelpers : Nat := 8

inductive Role where
  | controller | helper
  deriving DecidableEq

def Role.complementary : Role → Role
  | .controller => .helper
  | .helper => .controller

inductive LinkState where
  | pendingApproval | waiting | active | revoked
  deriving DecidableEq

/-- A row of `device_links`. -/
structure Link where
  peer : PeerKey
  role : Role
  state : LinkState := .pendingApproval
  nonce : String
  peerNonce : Option String := none
  created : StoreTime
  expires : Option StoreTime := none
  deriving DecidableEq

/-- Pending or active. -/
def Link.live (l : Link) : Bool := l.state != .revoked

def Link.revoke (l : Link) : Link := { l with state := .revoked }

/-- The body of a `device.link` mail. -/
structure Offer where
  made : WireTime
  controller : PeerKey
  helper : PeerKey
  nonce : String
  /-- The sender's. -/
  role : Role
  deriving DecidableEq

structure KeptOffer where
  body : Offer
  received : StoreTime
  deriving DecidableEq

structure Approved where
  peer : PeerKey
  role : Role
  time : Time
  deriving DecidableEq

structure Config where
  crypto : Crypto
  self : PeerKey
  nonLoopbackRelay : Bool

/-- The tables of `internal/device`, and the trust of peers. -/
structure Store where
  links : Dict LinkID Link := ∅
  offers : Dict PeerKey KeptOffer := ∅
  /-- The settings row `device.unlinked`. -/
  unlinked : Dict PeerKey WireTime := ∅
  /-- The expiry of each scope. -/
  scopes : Dict LinkID StoreTime := ∅
  peers : Dict PeerKey Trust := ∅
  -- What has happened, for the proofs: no operation reads these three, and the results are over the events.
  approved : List Approved := []
  offered : List (PeerKey × Offer) := []
  unlinks : List (PeerKey × WireTime) := []

def Config.linkID (cfg : Config) (controller helper : PeerKey) (nonceC nonceH : String) : LinkID :=
  "l-" ++ ((cfg.crypto.sha256 ("dorylinae-device-link-v1\n" ++ controller ++ "\n" ++ helper ++ "\n" ++ nonceC ++
    "\n" ++ nonceH)).take 32).toString

def offerFresh (o : Offer) (now : Time) : Bool :=
  now < parseWireTime o.made + intentTTL && parseWireTime o.made ≤ now + intentTTL

inductive HierarchyError where
  | cycle | alreadyLinked | limit
  deriving DecidableEq

/-- What the loop of `CheckHierarchyTx` returns at a row. -/
def refusal (peer : PeerKey) (role : Role) (l : Link) : Option HierarchyError :=
  if l.peer = peer ∧ l.role ≠ role then some .cycle
  else if l.peer = peer then some .alreadyLinked
  else if l.role ≠ role then some .cycle
  else if role = .helper then some .limit
  else none

namespace Store

variable (cfg : Config) (s : Store)

/-- An SQL update of the rows that pass `p`. -/
def update (p : LinkID → Link → Bool) (f : Link → Link) : Store :=
  { s with links := s.links.mapValues fun id l => if p id l then f l else l }

def lapsed (now : Time) (l : Link) : Bool :=
  (l.state == .waiting && l.expires.any (· ≤ storeTime now)) ||
    (l.state == .pendingApproval && l.created ≤ storeTime (now - intentTTL))

/-- Pending links and kept offers that are too old. -/
def expire (now : Time) : Store :=
  { s.update (fun _ => lapsed now) .revoke with
    offers := s.offers.keep fun _ k => storeTime (now - intentTTL) < k.received }

/-- The rows `CheckHierarchyTx` looks at: all but `exclude`. -/
def rowsBut (exclude : Option LinkID) : Dict LinkID Link := exclude.elim s.links s.links.erase

def checkHierarchy (peer : PeerKey) (role : Role) (exclude : Option LinkID) : Except HierarchyError Unit :=
  match ((s.rowsBut exclude).entries.filter (·.2.live)).findSome? (refusal peer role ·.2) with
  | some e => .error e
  | none =>
    if role = .controller ∧ maxHelpers ≤ (s.rowsBut exclude).count fun _ => Link.live then .error .limit
    else .ok ()

/-- No result means that the transaction fails. -/
def createIntent (id : LinkID) (peer : PeerKey) (role : Role) (nonce : String) (now : Time) : Option Store :=
  let s := (s.expire now).update (fun _ l => l.peer = peer && l.state = .pendingApproval) .revoke
  if s.checkHierarchy peer role none = .ok () ∧ s.links.lookup id = none then
    some { s with links := s.links.insert id { peer, role, nonce, created := storeTime now } }
  else none

def approve (id : LinkID) (now : Time) : Store :=
  s.update (fun i l => i = id && l.state = .pendingApproval) fun l =>
    { l with state := .waiting, created := storeTime now, expires := some (storeTime (now + intentTTL)) }

def delete (id : LinkID) : Store :=
  if (s.links.lookup id).any (·.state = .pendingApproval) then { s with links := s.links.erase id } else s

def offerGet (peer : PeerKey) (now : Time) : Option Offer :=
  match s.offers.lookup peer with
  | some k => if now - intentTTL < parseStoreTime k.received then some k.body else none
  | none => none

def noteUnlink (peer : PeerKey) (time : Time) : Store :=
  let s := { s with unlinks := s.unlinks ++ [(peer, wireTime time)] }
  if (s.unlinked.lookup peer).any (time ≤ parseWireTime ·) then s
  else { s with unlinked := s.unlinked.insert peer (wireTime time) }

def offerBeforeUnlink (peer : PeerKey) (o : Offer) : Bool := (s.unlinked.lookup peer).any (o.made < ·)

/-- The first row that passes `p`. -/
def find (p : Link → Bool) : Option (LinkID × Link) := (s.links.entries.find? (p ·.2)).map fun e => (e.1, e.2)

def waitingWith (peer : PeerKey) : Option (LinkID × Link) := s.find fun l => l.peer = peer && l.state = .waiting

/-- The waiting intent is one that the offer completes. -/
def completes (intent : Link) (o : Offer) (now : Time) : Bool :=
  intent.role = o.role.complementary && intent.expires.any (now < parseStoreTime ·) &&
    parseStoreTime intent.created - intentTTL ≤ parseWireTime o.made && offerFresh o now

def newID (intent : Link) (o : Offer) : LinkID :=
  match intent.role with
  | .controller => cfg.linkID cfg.self intent.peer intent.nonce o.nonce
  | .helper => cfg.linkID intent.peer cfg.self o.nonce intent.nonce

/-- `TryActivateTx`, with whether the link is active now. The id of a row is the primary key. -/
def tryActivate (peer : PeerKey) (o : Offer) (now : Time) : Option (Store × Bool) :=
  match s.waitingWith peer with
  | none => some (s, false)
  | some (id, intent) =>
    if !completes intent o now then some (s, false)
    else match s.checkHierarchy peer intent.role (some id) with
      | .error _ => some (s.update (fun i _ => i = id) .revoke, false)
      | .ok () =>
        if (s.links.erase id).lookup (newID cfg intent o) = none then
          some ({ s with
            links := (s.links.erase id).insert (newID cfg intent o)
              { intent with state := .active, peerNonce := some o.nonce, expires := none }
            offers := s.offers.erase peer }, true)
        else none

def revokeForPeer (peer : PeerKey) : Store :=
  { s.update (fun _ l => l.peer = peer && l.live) .revoke with
    scopes := s.scopes.keep fun id _ => !(s.links.lookup id).any fun l => l.peer = peer && l.live
    offers := s.offers.erase peer }

def activeHelperLink (peer : PeerKey) : Option LinkID :=
  (s.find fun l => l.peer = peer && l.state = .active && l.role = .helper).map (·.1)

/-! ## The handlers -/

/-- The peer is paired, and not by the relay's word alone where the relay is elsewhere. -/
def mayLink (peer : PeerKey) : Bool :=
  (s.peers.lookup peer).any fun trust => !(cfg.nonLoopbackRelay && trust == .relay)

/-- `device_link`, whose fingerprint is the peer's or not. -/
def deviceLink (id : LinkID) (peer : PeerKey) (role : Role) (nonce : String) (fingerprint : Bool) (now : Time) :
    Store :=
  if fingerprint && s.mayLink cfg peer then (s.createIntent id peer role nonce now).getD s else s

/-- The approval's `Precondition`, with the intent. -/
def precondition (id : LinkID) : Option Link :=
  match s.links.lookup id with
  | some l =>
    if l.state = .pendingApproval ∧ s.mayLink cfg l.peer = true ∧
    s.checkHierarchy l.peer l.role (some id) = .ok () then some l
    else none
  | none => none

/-- What the approval's `Perform` does before it looks for a kept offer. -/
def accept (id : LinkID) (l : Link) (now : Time) : Store :=
  { s.approve id now with
    peers := s.peers.insert l.peer .fingerprint
    approved := s.approved ++ [⟨l.peer, l.role, now⟩] }

/-- The approval's `Perform`. -/
def perform (id : LinkID) (l : Link) (now : Time) : Option Store :=
  match (s.accept id l now).offerGet l.peer now with
  | some o =>
    if offerFresh o now then ((s.accept id l now).tryActivate cfg l.peer o now).map Prod.fst
    else some (s.accept id l now)
  | none => some (s.accept id l now)

/-- A confirmed approval of kind `device_link`. -/
def confirmLink (id : LinkID) (now : Time) : Store :=
  match (s.expire now).precondition cfg id with
  | some l => ((s.expire now).perform cfg id l now).getD s
  | none => s

def deviceUnlink (peer : PeerKey) (now : Time) : Store :=
  if (s.peers.lookup peer).isSome then (s.revokeForPeer peer).noteUnlink peer now else s

/-- A confirmed approval of kind `device_scope`, for the link `id` that was active when it was asked for. -/
def confirmScope (peer : PeerKey) (id : LinkID) (expires now : Time) : Store :=
  if s.activeHelperLink peer = some id ∧
  now < expires then { s with scopes := s.scopes.insert id (storeTime expires) } else s

def clearScope (id : LinkID) : Store := { s with scopes := s.scopes.erase id }

/-- `parseOffer`: the keys are the sender's and the recipient's, in their roles. -/
def keysMatch (sender : PeerKey) (o : Offer) : Bool :=
  match o.role with
  | .controller => o.controller = sender && o.helper = cfg.self
  | .helper => o.controller = cfg.self && o.helper = sender

def linkMail (sender : PeerKey) (o : Offer) (now : Time) : Store :=
  if !keysMatch cfg sender o then s
  else
    let s := { s with offered := s.offered ++ [(sender, o)] }
    if !offerFresh o now || (s.expire now).offerBeforeUnlink sender o then s.expire now
    else match (s.expire now).tryActivate cfg sender o now with
      | none => s
      | some (s, true) => s
      | some (s, false) => { s with offers := s.offers.insert sender ⟨o, storeTime now⟩ }

def unlinkMail (sender : PeerKey) (made : WireTime) : Store :=
  (s.revokeForPeer sender).noteUnlink sender (parseWireTime made)

def removePeer (peer : PeerKey) : Store := { s.revokeForPeer peer with peers := s.peers.erase peer }

end Store

/-- The operations of the user, the mails of peers and the background job. -/
inductive Op where
  /-- A pairing, or a change of the trust. -/
  | peer (key : PeerKey) (trust : Trust)
  | removePeer (key : PeerKey)
  | link (id : LinkID) (peer : PeerKey) (role : Role) (nonce : String) (fingerprint : Bool)
  | confirmLink (id : LinkID)
  /-- The approval is rejected or expires. -/
  | rejectLink (id : LinkID)
  /-- The approval could not be created. -/
  | deleteLink (id : LinkID)
  | list
  | unlink (peer : PeerKey)
  | confirmScope (peer : PeerKey) (id : LinkID) (expires : Time)
  /-- The link is read before. -/
  | clearScope (id : LinkID)
  | linkMail (sender : PeerKey) (o : Offer)
  | unlinkMail (sender : PeerKey) (made : WireTime)

/-- An operation and the time of it. -/
structure Event where
  now : Time
  op : Op

/-- One event. -/
def step (cfg : Config) (s : Store) (e : Event) : Store :=
  match e.op with
  | .peer key trust => { s with peers := s.peers.insert key trust }
  | .removePeer key => s.removePeer key
  | .link id peer role nonce fingerprint => s.deviceLink cfg id peer role nonce fingerprint e.now
  | .confirmLink id => s.confirmLink cfg id e.now
  | .rejectLink id => s.update (fun i l => i = id && l.state = .pendingApproval) .revoke
  | .deleteLink id => s.delete id
  | .list => s.expire e.now
  | .unlink peer => s.deviceUnlink peer e.now
  | .confirmScope peer id expires => s.confirmScope peer id expires e.now
  | .clearScope id => s.clearScope id
  | .linkMail sender o => s.linkMail cfg sender o e.now
  | .unlinkMail sender made => s.unlinkMail sender made

/-! ## What every operation keeps -/

/-- The rows that are not revoked: one role, one row for each peer, and one row in all if this device is a helper. -/
structure Hierarchy (links : Dict LinkID Link) : Prop where
  apart : ∀ i l j m, links.lookup i = some l → links.lookup j = some m → l.live = true → m.live = true →
    l.role = m.role ∧ (i ≠ j → l.peer ≠ m.peer ∧ l.role = .controller)
  count : (links.count fun _ => Link.live) ≤ maxHelpers

/-- The invariant of the tables. -/
structure Sound (s : Store) : Prop where
  hierarchy : Hierarchy s.links
  scopes : ∀ id x, s.scopes.lookup id = some x →
    ∃ l, s.links.lookup id = some l ∧ l.state = .active ∧ l.role = .helper
  kept : ∀ p k, s.offers.lookup p = some k → (p, k.body) ∈ s.offered ∧ ∀ t, (p, t) ∈ s.unlinks → t ≤ k.body.made
  watermark : ∀ p t, (p, t) ∈ s.unlinks → ∃ w, s.unlinked.lookup p = some w ∧ t ≤ w

/-- Every intent and link with `p` beyond its approval was approved after the first `n` approvals. -/
structure Since (n : Nat) (p : PeerKey) (s : Store) : Prop where
  past : n ≤ s.approved.length
  rows : ∀ id l, s.links.lookup id = some l → l.peer = p → l.state = .waiting ∨ l.state = .active →
    ∃ a ∈ s.approved.drop n, a.peer = p ∧ a.role = l.role ∧
    (l.state = .waiting → l.expires = some (storeTime (a.time + intentTTL)))

structure Keeps (s s' : Store) : Prop where
  sound : Sound s → Sound s'
  since : ∀ n p, Since n p s → Since n p s'

/-- No link becomes active. -/
structure Quiet (s s' : Store) : Prop extends Keeps s s' where
  active : ∀ id l, s'.links.lookup id = some l → l.state = .active → s.links.lookup id = some l

theorem Quiet.refl (s : Store) : Quiet s s := ⟨⟨id, fun _ _ => id⟩, fun _ _ at_id _ => at_id⟩

variable {s s' s'' : Store}

theorem Keeps.trans (first : Keeps s s') (second : Keeps s' s'') : Keeps s s'' :=
  ⟨second.sound ∘ first.sound, fun n p => second.since n p ∘ first.since n p⟩

/-- Quiet changes compose. -/
theorem Quiet.trans (first : Quiet s s') (second : Quiet s' s'') : Quiet s s'' :=
  ⟨first.toKeeps.trans second.toKeeps,
    fun id l at_id active => first.active id l (second.active id l at_id active) active⟩

section

variable {cfg : Config} {d : Dict LinkID Link} {f : Link → Link} {id : LinkID} {l : Link} {now : Time} {o : Offer}
  {p : LinkID → Link → Bool} {peer : PeerKey} {r : Store × Bool} {role : Role}

theorem lookup_update : (s.update p f).links.lookup id = (s.links.lookup id).map fun l => if p id l then f l
    else l := Dict.lookup_mapValues

/-- The rows after an update that revives none and leaves peers and roles alone. -/
theorem Hierarchy.update (h : Hierarchy s.links)
    (same : ∀ i l, p i l = true → (f l).peer = l.peer ∧ (f l).role = l.role ∧ ((f l).live = true → l.live = true)) :
    Hierarchy (s.update p f).links := by
  refine ⟨fun i l j m at_i at_j live live' => ?_, le_trans ?_ h.count⟩
  · rw [lookup_update, Option.map_eq_some_iff] at at_i at_j
    have := h.apart
    grind
  · simp only [Dict.count, Store.update, Dict.mapValues, List.countP_map]
    refine List.countP_mono_left fun e _ live => ?_
    grind

/-- Rows that were not there before wait for an approval or are revoked. -/
theorem Quiet.of_rows (approved : s'.approved = s.approved)
    (rows : ∀ id l, s'.links.lookup id = some l →
      s.links.lookup id = some l ∨ l.state = .pendingApproval ∨
      l.state = .revoked) (sound : Sound s → Sound s') : Quiet s s' := by
  have old : ∀ id l, s'.links.lookup id = some l → l.state = .waiting ∨ l.state = .active →
      s.links.lookup id = some l := by
    intro id l at_id state
    rcases rows id l at_id with old | idle | idle
    · exact old
    · exact absurd state (by simp [idle])
    · exact absurd state (by simp [idle])
  refine ⟨⟨sound, fun n p since => ⟨approved ▸ since.past, fun id l at_id of_p state => ?_⟩⟩,
    fun id l at_id active => old id l at_id (.inr active)⟩
  rw [approved]
  exact since.rows id l (old id l at_id state) of_p state

/-- A row may be revoked if it has no scope afterwards. -/
theorem Quiet.revoke (p : LinkID → Link → Bool) (scopes : Dict LinkID StoreTime)
    (kept : ∀ id x, scopes.lookup id = some x → s.scopes.lookup id = some x ∧ ∀ l, s.links.lookup id = some l →
      l.state = .active → p id l = false) :
    Quiet s { s.update p .revoke with scopes } := by
  refine Quiet.of_rows rfl (fun id l at_l => ?_) fun sound => ⟨?_, fun id x at_id => ?_, sound.kept, sound.watermark⟩
  · simp only [lookup_update, Option.map_eq_some_iff] at at_l
    grind [Link.revoke]
  · exact sound.hierarchy.update fun _ _ _ => ⟨rfl, rfl, (by intros; contradiction)⟩
  · obtain ⟨l, at_l, active, helper⟩ := sound.scopes id x (kept id x at_id).1
    refine ⟨l, ?_, active, helper⟩
    simp only [lookup_update, at_l, Option.map_some, (kept id x at_id).2 l at_l active, Bool.false_eq_true, if_false]

theorem Quiet.revokeIdle (idle : ∀ id l, s.links.lookup id = some l → p id l = true → l.state ≠ .active) :
    Quiet s (s.update p .revoke) := by
  refine Quiet.revoke p s.scopes fun id x at_id => ⟨at_id, fun l at_l active => ?_⟩
  exact Bool.eq_false_iff.mpr fun h => idle id l at_l h active

theorem Quiet.fewerOffers (offers : Dict PeerKey KeptOffer)
    (old : ∀ p k, offers.lookup p = some k → s.offers.lookup p = some k) :
    Quiet s { s with offers } :=
  Quiet.of_rows rfl (fun _ _ => .inl) fun sound =>
    { sound with kept := fun p k at_p => sound.kept p k (old p k at_p) }

theorem Quiet.expire (s : Store) (now : Time) : Quiet s (s.expire now) := by
  refine (Quiet.revokeIdle fun _ l _ lapsed active => ?_).trans
    (Quiet.fewerOffers _ fun p k at_p => (Dict.lookup_of_keep at_p).1)
  simp [Store.lapsed, active] at lapsed

theorem Quiet.revokePending (s : Store) :
    Quiet s (s.update (fun i l => p i l && l.state = .pendingApproval) .revoke) := by
  refine Quiet.revokeIdle fun _ l _ pending active => ?_
  simp [active] at pending

theorem checkHierarchy_ok {exclude : Option LinkID} (ok : s.checkHierarchy peer role exclude = .ok ()) :
    (∀ j m, (s.rowsBut exclude).lookup j = some m → m.live = true →
      m.peer ≠ peer ∧ m.role = role ∧ role = .controller) ∧
      ((s.rowsBut exclude).count fun _ => Link.live) < maxHelpers := by
  unfold Store.checkHierarchy at ok
  split at ok
  · cases ok
  · next none =>
    have rows : ∀ j m, (s.rowsBut exclude).lookup j = some m → m.live = true →
        m.peer ≠ peer ∧ m.role = role ∧ role = .controller := by
      intro j m at_j live
      have := List.findSome?_eq_none_iff.mp none ⟨j, m⟩ (List.mem_filter.mpr ⟨AList.mem_lookup_iff.mp at_j, live⟩)
      unfold refusal at this
      cases role <;> grind
    refine ⟨rows, ?_⟩
    split at ok
    · cases ok
    · next few =>
      cases role with
      | controller => exact not_le.mp fun many => few ⟨rfl, many⟩
      | helper =>
        have empty : ((s.rowsBut exclude).count fun _ => Link.live) = 0 := by
          refine List.countP_eq_zero.mpr fun e mem live => ?_
          cases (rows e.1 e.2 (AList.mem_lookup_iff.mpr mem) live).2.2
        rw [empty]
        decide

/-- A live row at a free id joins the rows that the check passed. -/
theorem Hierarchy.insert (h : Hierarchy d) (free : d.lookup id = none)
    (rows : ∀ j m, d.lookup j = some m → m.live = true → m.peer ≠ l.peer ∧ m.role = l.role ∧ l.role = .controller)
    (few : (d.count fun _ => Link.live) < maxHelpers) : Hierarchy (d.insert id l) := by
  refine ⟨fun i a j b at_i at_j live live' => ?_, ?_⟩
  · have := h.apart
    rcases Dict.lookup_insert_cases at_i with ⟨rfl, rfl⟩ | ⟨_, at_i⟩ <;>
      rcases Dict.lookup_insert_cases at_j with ⟨rfl, rfl⟩ | ⟨_, at_j⟩ <;> grind
  · rw [Dict.count_insert]
    have := Dict.count_erase_le (d := d) (a := id) (p := fun _ => Link.live)
    split <;> omega

theorem Quiet.createIntent {nonce : String} (done : s.createIntent id peer role nonce now = some s') :
    Quiet s s' := by
  refine ((Quiet.expire s now).trans (Quiet.revokePending (p := fun _ l => l.peer = peer) _)).trans ?_
  unfold Store.createIntent at done
  generalize (s.expire now).update _ _ = s₁ at done ⊢
  simp only [Option.ite_none_right_eq_some, Option.some.injEq] at done
  obtain ⟨⟨ok, free⟩, rfl⟩ := done
  obtain ⟨rows, few⟩ := checkHierarchy_ok ok
  refine Quiet.of_rows rfl (fun i l at_i => ?_) fun sound =>
    { sound with hierarchy := sound.hierarchy.insert free rows few, scopes := fun i x at_i => ?_ }
  · rcases Dict.lookup_insert_cases at_i with ⟨rfl, rfl⟩ | ⟨_, at_i⟩
    · exact .inr (.inl rfl)
    · exact .inl at_i
  · obtain ⟨l, at_l, active⟩ := sound.scopes i x at_i
    exact ⟨l, (AList.lookup_insert_ne (by grind)).trans at_l, active⟩

theorem Quiet.delete (s : Store) (id : LinkID) : Quiet s (s.delete id) := by
  unfold Store.delete
  split
  · next pending =>
    refine Quiet.of_rows rfl (fun i l at_i => .inl (Dict.lookup_of_erase at_i).2) fun sound =>
      { sound with
        hierarchy := ⟨fun i l j m at_i at_j => ?_, Dict.count_erase_le.trans sound.hierarchy.count⟩
        scopes := fun i x at_i => ?_ }
    · exact sound.hierarchy.apart i l j m (Dict.lookup_of_erase at_i).2 (Dict.lookup_of_erase at_j).2
    · obtain ⟨l, at_l, active⟩ := sound.scopes i x at_i
      exact ⟨l, (AList.lookup_erase_ne (by grind)).trans at_l, active⟩
  · exact Quiet.refl s

/-- The row that the approval was for is waiting from now on. -/
theorem Quiet.accept (now : Time) (at_id : s.links.lookup id = some l) (pending : l.state = .pendingApproval) :
    Quiet s (s.accept id l now) := by
  have rows : ∀ i m, (s.accept id l now).links.lookup i = some m →
      s.links.lookup i = some m ∨ m =
        { l with state := .waiting, created := storeTime now, expires := some (storeTime (now + intentTTL)) } := by
    intro i m at_i
    simp only [Store.accept, Store.approve, lookup_update, Option.map_eq_some_iff] at at_i
    grind
  refine ⟨⟨fun sound => ⟨?_, fun i x at_i => ?_, sound.kept, sound.watermark⟩,
    fun n p since => ⟨?_, fun i m at_i of_p state => ?_⟩⟩, ?_⟩
  · change Hierarchy (s.approve id now).links
    refine sound.hierarchy.update fun i l may => ?_
    simp only [Bool.and_eq_true, decide_eq_true_eq] at may
    exact ⟨rfl, rfl, fun _ => by simp [Link.live, may.2]⟩
  · obtain ⟨m, at_m, active, helper⟩ := sound.scopes i x at_i
    refine ⟨m, ?_, active, helper⟩
    simp [Store.accept, Store.approve, lookup_update, at_m, active]
  · exact since.past.trans (by simp [Store.accept])
  · simp only [Store.accept, List.drop_append_of_le_length since.past, List.mem_append]
    rcases rows i m at_i with old | rfl
    · obtain ⟨a, mem, facts⟩ := since.rows i m old of_p state
      exact ⟨a, .inl mem, facts⟩
    · exact ⟨_, .inr (List.mem_singleton_self _), of_p, rfl, fun _ => rfl⟩
  · intro i m at_i active
    rcases rows i m at_i with old | rfl
    · exact old
    · cases active

theorem Quiet.revokeForPeer (s : Store) (peer : PeerKey) : Quiet s (s.revokeForPeer peer) := by
  refine (Quiet.revoke (fun _ l => l.peer = peer && l.live) (s.revokeForPeer peer).scopes fun id x at_id => ?_).trans
    (Quiet.fewerOffers (s.revokeForPeer peer).offers fun p k at_p => (Dict.lookup_of_erase at_p).2)
  obtain ⟨at_id, other⟩ := Dict.lookup_of_keep at_id
  refine ⟨at_id, fun l at_l _ => ?_⟩
  simpa [at_l, or_iff_not_imp_left] using other

theorem Quiet.noteUnlink {time : Time} (none : s.offers.lookup peer = none) : Quiet s (s.noteUnlink peer time) := by
  have fresh : Sound s → ∀ p k, s.offers.lookup p = some k →
      (p, k.body) ∈ s.offered ∧ ∀ t, (p, t) ∈ s.unlinks ++ [(peer, wireTime time)] → t ≤ k.body.made := by
    intro sound p k at_p
    obtain ⟨offered, later⟩ := sound.kept p k at_p
    refine ⟨offered, fun t mem => ?_⟩
    rcases List.mem_append.mp mem with old | new
    · exact later t old
    · grind
  unfold Store.noteUnlink
  dsimp only
  split
  · next earlier =>
    obtain ⟨w, at_peer, le⟩ := Option.any_eq_true _ _ |>.mp earlier
    refine Quiet.of_rows rfl (fun _ _ => .inl) fun sound =>
      ⟨sound.hierarchy, sound.scopes, fresh sound, fun p t mem => ?_⟩
    rcases List.mem_append.mp mem with old | new
    · exact sound.watermark p t old
    · obtain ⟨rfl, rfl⟩ := Prod.mk.inj (List.mem_singleton.mp new)
      refine ⟨w, at_peer, ?_⟩
      exact Int.ediv_le_of_le_mul (by decide) (of_decide_eq_true le)
  · next later =>
    refine Quiet.of_rows rfl (fun _ _ => .inl) fun sound =>
      ⟨sound.hierarchy, sound.scopes, fresh sound, fun p t mem => ?_⟩
    by_cases same : p = peer
    · subst same
      refine ⟨wireTime time, AList.lookup_insert _, ?_⟩
      rcases List.mem_append.mp mem with old | new
      · obtain ⟨w, at_p, le⟩ := sound.watermark p t old
        rw [at_p, Option.any_some, decide_eq_true_eq, not_le] at later
        exact le.trans (Int.le_ediv_of_mul_le (by decide) later.le)
      · exact (Prod.mk.inj (List.mem_singleton.mp new)).2.le
    · obtain ⟨w, at_p, le⟩ := sound.watermark p t (by grind)
      exact ⟨w, (AList.lookup_insert_ne same).trans at_p, le⟩

theorem find_some {p : Link → Bool} (found : s.find p = some (id, l)) : s.links.lookup id = some l ∧ p l = true := by
  obtain ⟨⟨i, m⟩, first, ⟨⟩⟩ := Option.map_eq_some_iff.mp found
  exact ⟨AList.mem_lookup_iff.mpr (List.mem_of_find?_eq_some first), by simpa using List.find?_some first⟩

/-- A live row moves to another id. -/
theorem Hierarchy.rekey {id' : LinkID} {l' : Link} (h : Hierarchy d) (at_id : d.lookup id = some l)
    (free : (d.erase id).lookup id' = none) (live : l.live = true) (same : l'.peer = l.peer ∧ l'.role = l.role) :
    Hierarchy ((d.erase id).insert id' l') := by
  refine ⟨fun i a j b at_i at_j live_i live_j => ?_, ?_⟩
  · have apart := h.apart
    have old := @Dict.lookup_of_erase LinkID Link _ d
    rcases Dict.lookup_insert_cases at_i with ⟨rfl, rfl⟩ | ⟨_, at_i⟩ <;>
      rcases Dict.lookup_insert_cases at_j with ⟨rfl, rfl⟩ | ⟨_, at_j⟩ <;> grind
  · have := h.count
    rw [Dict.count_of_lookup at_id, if_pos live] at this
    rw [Dict.count_insert]
    have := Dict.count_erase_le (d := d.erase id) (a := id') (p := fun _ => Link.live)
    split <;> omega

/-- At most rows of `p` have changed. -/
structure OnlyRowsOf (p : PeerKey) (s s' : Store) : Prop where
  links : ∀ id, (s'.links.lookup id).filter (·.peer ≠ p) = (s.links.lookup id).filter (·.peer ≠ p)
  offers : ∀ q, q ≠ p → s'.offers.lookup q = s.offers.lookup q
  unlinked : ∀ q, q ≠ p → s'.unlinked.lookup q = s.unlinked.lookup q
  scopes : ∀ id, (∀ l, s.links.lookup id = some l → l.peer ≠ p) → s'.scopes.lookup id = s.scopes.lookup id
  peers : s'.peers = s.peers

theorem OnlyRowsOf.refl (p : PeerKey) (s : Store) : OnlyRowsOf p s s :=
  ⟨fun _ => rfl, fun _ _ => rfl, fun _ _ => rfl, fun _ _ => rfl, rfl⟩

/-- The waiting intent at `id` becomes an active link. -/
structure Activated (s s' : Store) (peer : PeerKey) (o : Offer) (now : Time) (id : LinkID)
    (intent : Link) : Prop where
  waiting : s.links.lookup id = some intent ∧ intent.peer = peer ∧ intent.state = .waiting
  completes : Store.completes intent o now = true
  links : ∃ id', (s.links.erase id).lookup id' = none ∧ s' = { s with
      links :=
        (s.links.erase id).insert id' { intent with state := .active, peerNonce := some o.nonce, expires := none }
      offers := s.offers.erase peer }

theorem tryActivate_cases (done : s.tryActivate cfg peer o now = some r) :
    r.2 = false ∧ Quiet s r.1 ∧ OnlyRowsOf peer s r.1 ∧ r.1.offered = s.offered ∧ r.1.unlinks = s.unlinks ∨
      r.2 = true ∧ ∃ id intent, Activated s r.1 peer o now id intent := by
  unfold Store.tryActivate at done
  split at done
  · obtain rfl := Option.some.inj done
    exact .inl ⟨rfl, Quiet.refl s, OnlyRowsOf.refl peer s, rfl, rfl⟩
  · next id intent found =>
    have waiting := find_some found
    rw [Bool.and_eq_true, decide_eq_true_eq, decide_eq_true_eq] at waiting
    split at done
    · obtain rfl := Option.some.inj done
      exact .inl ⟨rfl, Quiet.refl s, OnlyRowsOf.refl peer s, rfl, rfl⟩
    · next completes =>
      split at done
      · obtain rfl := Option.some.inj done
        refine .inl ⟨rfl, Quiet.revokeIdle fun i l at_i same active => ?_,
          { OnlyRowsOf.refl peer s with links := fun i => ?_ }, rfl, rfl⟩
        · obtain rfl := of_decide_eq_true same
          grind
        · rw [lookup_update]
          cases at_i : s.links.lookup i <;> grind [Link.revoke]
      · split at done
        · obtain rfl := Option.some.inj done
          exact .inr ⟨rfl, id, intent, waiting, by simpa using completes, _, ‹_›, rfl⟩
        · cases done

theorem Activated.keeps (activated : Activated s s' peer o now id l) : Keeps s s' := by
  obtain ⟨⟨at_id, rfl, waiting⟩, -, id', free, rfl⟩ := activated
  refine ⟨fun sound => ⟨sound.hierarchy.rekey at_id free (by simp [Link.live, waiting]) ⟨rfl, rfl⟩,
    fun i x at_i => ?_, fun p k at_p => ?_, sound.watermark⟩,
    fun n p since => ⟨since.past, fun i m at_i of_p state => ?_⟩⟩
  · obtain ⟨m, at_m, active⟩ := sound.scopes i x at_i
    have other : i ≠ id := by grind
    have old : (s.links.erase id).lookup i = some m := (AList.lookup_erase_ne other).trans at_m
    exact ⟨m, (AList.lookup_insert_ne (by grind)).trans old, active⟩
  · exact sound.kept p k (Dict.lookup_of_erase at_p).2
  · rcases Dict.lookup_insert_cases at_i with ⟨rfl, rfl⟩ | ⟨_, at_i⟩
    · obtain ⟨a, mem, of_a, role, _⟩ := since.rows id l at_id of_p (.inl waiting)
      exact ⟨a, mem, of_a, role, (by simp)⟩
    · exact since.rows i m (Dict.lookup_of_erase at_i).2 of_p state

/-- An approval that is on record is less than `intentTTL` old, and so is an offer of the peer, in the other role and
not before any unlink on record. -/
structure Backed (s : Store) (now : Time) (l : Link) : Prop where
  approved : ∃ a ∈ s.approved, a.peer = l.peer ∧ a.role = l.role ∧ now < a.time + intentTTL
  offered : ∃ o, (l.peer, o) ∈ s.offered ∧ l.role = o.role.complementary ∧ now < parseWireTime o.made + intentTTL ∧
    parseWireTime o.made ≤ now + intentTTL ∧ ∀ t, (l.peer, t) ∈ s.unlinks → t ≤ o.made

theorem Activated.backed (activated : Activated s s' peer o now id l) (since : Since 0 peer s)
    (offered : (peer, o) ∈ s.offered ∧ ∀ t, (peer, t) ∈ s.unlinks → t ≤ o.made) :
    ∀ i m, s'.links.lookup i = some m → m.state = .active → s.links.lookup i = some m ∨ Backed s' now m := by
  obtain ⟨⟨at_id, rfl, waiting⟩, completes, id', free, rfl⟩ := activated
  intro i m at_i active
  rcases Dict.lookup_insert_cases at_i with ⟨rfl, rfl⟩ | ⟨_, at_i⟩
  · refine .inr ⟨?_, o, offered.1, ?_⟩
    · obtain ⟨a, mem, of_a, role, expires⟩ := since.rows id l at_id rfl (.inl waiting)
      refine ⟨a, mem, of_a, role, ?_⟩
      simp only [Store.completes, expires waiting, Option.any_some, Bool.and_eq_true, decide_eq_true_eq] at completes
      exact completes.1.1.2.trans_le (Int.ediv_mul_le _ (by decide))
    · simp only [Store.completes, offerFresh, Bool.and_eq_true, decide_eq_true_eq] at completes
      exact ⟨completes.1.1.1, completes.2.1, completes.2.2, offered.2⟩
  · exact .inl (Dict.lookup_of_erase at_i).2

/-- What one operation does: the invariants are kept and a link becomes active only with both devices behind it. -/
structure Stepped (s : Store) (now : Time) (s' : Store) : Prop extends Keeps s s' where
  backed : ∀ id l, s'.links.lookup id = some l → l.state = .active → s.links.lookup id = some l ∨ Backed s' now l

theorem Quiet.stepped (quiet : Quiet s s') : Stepped s now s' :=
  ⟨quiet.toKeeps, fun id l at_id active => .inl (quiet.active id l at_id active)⟩

theorem tryActivate_stepped (done : s.tryActivate cfg peer o now = some r) (since : Since 0 peer s)
    (offered : (peer, o) ∈ s.offered ∧ ∀ t, (peer, t) ∈ s.unlinks → t ≤ o.made) : Stepped s now r.1 := by
  rcases tryActivate_cases done with ⟨-, quiet, -⟩ | ⟨-, id, intent, activated⟩
  · exact quiet.stepped
  · exact ⟨activated.keeps, activated.backed since offered⟩

/-- A quiet change before a step is part of the step. -/
theorem Quiet.then (quiet : Quiet s s') (stepped : Stepped s' now s'') : Stepped s now s'' :=
  ⟨quiet.toKeeps.trans stepped.toKeeps,
    fun id l at_id active => (stepped.backed id l at_id active).imp_left fun old => quiet.active id l old active⟩

theorem confirmLink_stepped (sound : Sound s) (since : ∀ p, Since 0 p s) :
    Stepped s now (s.confirmLink cfg id now) := by
  unfold Store.confirmLink
  split
  · next l passed =>
    have expired := Quiet.expire s now
    generalize s.expire now = s₁ at passed expired ⊢
    have at_id : s₁.links.lookup id = some l ∧ l.state = .pendingApproval := by
      unfold Store.precondition at passed
      grind
    have accepted := Quiet.accept now at_id.1 at_id.2
    have quiet := expired.trans accepted
    cases done : s₁.perform cfg id l now with
    | none => exact (Quiet.refl s).stepped
    | some s' =>
      unfold Store.perform at done
      generalize s₁.accept id l now = s₂ at done quiet
      split at done
      · next o found =>
        split at done
        · obtain ⟨r, activated, rfl⟩ := Option.map_eq_some_iff.mp done
          refine quiet.then (tryActivate_stepped activated (quiet.since 0 _ (since _)) ?_)
          unfold Store.offerGet at found
          have := (quiet.sound sound).kept l.peer
          grind
        · exact Option.some.inj done ▸ quiet.stepped
      · exact Option.some.inj done ▸ quiet.stepped
  · exact (Quiet.refl s).stepped

theorem Quiet.heard (s : Store) (peer : PeerKey) (o : Offer) :
    Quiet s { s with offered := s.offered ++ [(peer, o)] } :=
  Quiet.of_rows rfl (fun _ _ => .inl) fun sound =>
    { sound with kept := fun p k at_p => (sound.kept p k at_p).imp_left (List.mem_append_left _) }

theorem Quiet.keepOffer {k : KeptOffer}
    (offered : (peer, k.body) ∈ s.offered ∧ ∀ t, (peer, t) ∈ s.unlinks → t ≤ k.body.made) :
    Quiet s { s with offers := s.offers.insert peer k } := by
  refine Quiet.of_rows rfl (fun _ _ => .inl) fun sound => { sound with kept := fun p k' at_p => ?_ }
  rcases Dict.lookup_insert_cases at_p with ⟨rfl, rfl⟩ | ⟨_, at_p⟩
  · exact offered
  · exact sound.kept p k' at_p

theorem linkMail_stepped (sound : Sound s) (since : ∀ p, Since 0 p s) :
    Stepped s now (s.linkMail cfg peer o now) := by
  unfold Store.linkMail
  split
  · exact (Quiet.refl s).stepped
  · have heard := Quiet.heard s peer o
    have expired := heard.trans (Quiet.expire _ now)
    dsimp only
    generalize same : Store.expire _ now = s₁ at expired ⊢
    have offered : (peer, o) ∈ s₁.offered := same ▸ List.mem_append_right _ (List.mem_singleton_self _)
    split
    · exact expired.stepped
    · next later =>
      have offer : (peer, o) ∈ s₁.offered ∧ ∀ t, (peer, t) ∈ s₁.unlinks → t ≤ o.made := by
        refine ⟨offered, fun t mem => ?_⟩
        obtain ⟨w, at_peer, le⟩ := (expired.sound sound).watermark peer t mem
        simp only [Store.offerBeforeUnlink, at_peer, Option.any_some, Bool.or_eq_true, decide_eq_true_eq,
          not_or, not_lt] at later
        exact le.trans later.2
      split
      · exact heard.stepped
      · next activated => exact expired.then (tryActivate_stepped activated (expired.since 0 _ (since _)) offer)
      · next s' activated =>
        rcases tryActivate_cases activated with ⟨-, quiet, -, offered, unlinks⟩ | ⟨⟨⟩, -⟩
        dsimp only at quiet offered unlinks
        exact ((expired.trans quiet).trans (Quiet.keepOffer (offered.symm ▸ unlinks.symm ▸ offer))).stepped

theorem Quiet.peers (s : Store) (peers : Dict PeerKey Trust) : Quiet s { s with peers } :=
  Quiet.of_rows rfl (fun _ _ => .inl) fun sound => { sound with }

theorem Quiet.scopes (scopes : Dict LinkID StoreTime) (may : ∀ id x, scopes.lookup id = some x →
      s.scopes.lookup id = some x ∨ ∃ l, s.links.lookup id = some l ∧ l.state = .active ∧ l.role = .helper) :
    Quiet s { s with scopes } := by
  refine Quiet.of_rows rfl (fun _ _ => .inl) fun sound => { sound with scopes := fun id x at_id => ?_ }
  exact (may id x at_id).elim (sound.scopes id x) fun active => active

theorem activeHelperLink_some (found : s.activeHelperLink peer = some id) :
    ∃ l, s.links.lookup id = some l ∧ l.state = .active ∧ l.role = .helper := by
  obtain ⟨⟨i, l⟩, first, rfl⟩ := Option.map_eq_some_iff.mp found
  obtain ⟨at_id, is⟩ := find_some first
  simp only [Bool.and_eq_true, decide_eq_true_eq] at is
  exact ⟨l, at_id, is.1.2, is.2⟩

theorem step_stepped (cfg : Config) (sound : Sound s) (since : ∀ p, Since 0 p s) (e : Event) :
    Stepped s e.now (step cfg s e) := by
  obtain ⟨now, op⟩ := e
  cases op with
  | peer key trust => exact (Quiet.peers s _).stepped
  | removePeer key => exact ((Quiet.revokeForPeer s key).trans (Quiet.peers _ _)).stepped
  | link id peer role nonce fingerprint =>
    simp only [step, Store.deviceLink]
    split
    · cases done : s.createIntent id peer role nonce now with
      | none => exact (Quiet.refl s).stepped
      | some s' => exact (Quiet.createIntent done).stepped
    · exact (Quiet.refl s).stepped
  | confirmLink id => exact confirmLink_stepped sound since
  | rejectLink id => exact (Quiet.revokePending s).stepped
  | deleteLink id => exact (Quiet.delete s id).stepped
  | list => exact (Quiet.expire s now).stepped
  | unlink peer =>
    simp only [step, Store.deviceUnlink]
    split
    · exact ((Quiet.revokeForPeer s peer).trans (Quiet.noteUnlink (AList.lookup_erase _ _))).stepped
    · exact (Quiet.refl s).stepped
  | confirmScope peer id expires =>
    simp only [step, Store.confirmScope]
    split
    · next may =>
        exact (Quiet.scopes _ fun i x at_i => (Dict.lookup_insert_cases at_i).symm.imp And.right fun same =>
          same.1 ▸ activeHelperLink_some may.1).stepped
    · exact (Quiet.refl s).stepped
  | clearScope id => exact (Quiet.scopes _ fun i x at_i => .inl (Dict.lookup_of_erase at_i).2).stepped
  | linkMail sender o => exact linkMail_stepped sound since
  | unlinkMail sender made =>
    exact ((Quiet.revokeForPeer s sender).trans (Quiet.noteUnlink (AList.lookup_erase _ _))).stepped

theorem run_keeps (cfg : Config) (sound : Sound s) (since : ∀ p, Since 0 p s) (es : List Event) :
    Keeps s (run (step cfg) s es) := by
  induction es generalizing s with
  | nil => exact (Quiet.refl s).toKeeps
  | cons e es ih =>
    have first := (step_stepped cfg sound since e).toKeeps
    exact first.trans (ih (first.sound sound) fun p => first.since 0 p (since p))

theorem sound_init : Sound {} := by
  refine ⟨⟨fun _ _ _ _ h => ?_, Nat.zero_le _⟩, fun _ _ h => ?_, fun _ _ h => ?_, fun _ _ h => ?_⟩
  all_goals cases h

theorem since_init (p : PeerKey) : Since 0 p {} := ⟨le_rfl, fun _ _ h => by cases h⟩

theorem unlink_only (s : Store) (p : PeerKey) (time : Time) :
    OnlyRowsOf p s ((s.revokeForPeer p).noteUnlink p time) := by
  have same : ∀ s : Store, ∃ unlinked unlinks, s.noteUnlink p time = { s with unlinked, unlinks } ∧ ∀ q, q ≠ p →
      unlinked.lookup q = s.unlinked.lookup q := by
    intro s
    unfold Store.noteUnlink
    dsimp only
    split
    · exact ⟨_, _, rfl, fun _ _ => rfl⟩
    · exact ⟨_, _, rfl, fun _ other => AList.lookup_insert_ne other⟩
  obtain ⟨unlinked, unlinks, note, others⟩ := same (s.revokeForPeer p)
  rw [note]
  refine ⟨fun id => ?_, fun q other => AList.lookup_erase_ne other, others, fun id other => ?_, rfl⟩
  · simp only [Store.revokeForPeer, lookup_update]
    cases s.links.lookup id <;> grind [Link.revoke]
  · have none : ((s.links.lookup id).any fun l => l.peer = p && l.live) = false := by
      cases at_id : s.links.lookup id with
      | none => rfl
      | some l => simp [other l at_id]
    simp only [Store.revokeForPeer, Dict.lookup_keep, none]
    cases s.scopes.lookup id <;> rfl

/-- An activation changes rows of its peer only. -/
theorem Activated.only (activated : Activated s s' peer o now id l) : OnlyRowsOf peer s s' := by
  obtain ⟨⟨at_id, rfl, -⟩, -, id', free, rfl⟩ := activated
  refine ⟨fun i => ?_, fun q other => AList.lookup_erase_ne other, fun _ _ => rfl, fun _ _ => rfl, rfl⟩
  by_cases new : i = id' <;> by_cases same : i = id <;> grind [AList.lookup_insert, AList.lookup_insert_ne,
    AList.lookup_erase, AList.lookup_erase_ne]

theorem linkMail_only (s : Store) (o : Offer) :
    OnlyRowsOf peer s (s.linkMail cfg peer o now) ∨ OnlyRowsOf peer (s.expire now) (s.linkMail cfg peer o now) := by
  have activate {s s' : Store} {active} (done : s.tryActivate cfg peer o now = some (s',
      active)) : OnlyRowsOf peer s s' := by
    rcases tryActivate_cases done with ⟨-, -, only, -⟩ | ⟨-, id, intent, activated⟩
    · exact only
    · exact activated.only
  unfold Store.linkMail
  split
  · exact .inl (OnlyRowsOf.refl peer s)
  · dsimp only
    split
    · exact .inr ⟨fun _ => rfl, fun _ _ => rfl, fun _ _ => rfl, fun _ _ => rfl, rfl⟩
    · split
      · exact .inl ⟨fun _ => rfl, fun _ _ => rfl, fun _ _ => rfl, fun _ _ => rfl, rfl⟩
      · next done =>
        obtain ⟨links, offers, unlinked, scopes, peers⟩ := activate done
        exact .inr ⟨links, offers, unlinked, scopes, peers⟩
      · next done =>
        obtain ⟨links, offers, unlinked, scopes, peers⟩ := activate done
        exact .inr ⟨links, fun q other => (AList.lookup_insert_ne other).trans (offers q other),
          unlinked, scopes, peers⟩

theorem unlinked_since (s : Store) (p : PeerKey) : Since s.approved.length p (s.revokeForPeer p) := by
  refine ⟨le_rfl, fun id l at_id of_p state => ?_⟩
  simp only [Store.revokeForPeer, lookup_update, Option.map_eq_some_iff] at at_id
  grind [Link.revoke, Link.live]

end

/-! ## The records and the events -/

/-- The human confirms, in state `s`, the approval of the intent that `a` says. -/
def Approves (s : Store) (e : Event) (a : Approved) : Prop :=
  ∃ id l, e.op = .confirmLink id ∧ s.links.lookup id = some l ∧ l.state = .pendingApproval ∧
  a = ⟨l.peer, l.role, e.now⟩

/-- An unlink with `p`, by this side or by the other, in the second `t`. -/
def Unlinks (s : Store) (e : Event) (p : PeerKey) (t : WireTime) : Prop :=
  (e.op = .unlink p ∧ (s.peers.lookup p).isSome = true ∧ t = wireTime e.now) ∨ e.op = .unlinkMail p t

/-- `P` holds of an event of the run and of the state in which it is taken. -/
def Once (cfg : Config) (s : Store) (es : List Event) (P : Store → Event → Prop) : Prop :=
  ∃ front e rest, es = front ++ e :: rest ∧ P (run (step cfg) s front) e

structure SameRecords (s s' : Store) : Prop where
  approved : s'.approved = s.approved
  offered : s'.offered = s.offered
  unlinks : s'.unlinks = s.unlinks

section

variable {cfg : Config} {e : Event} {es : List Event} {P : Store → Event → Prop}

theorem Once.concat (h : Once cfg s es P) (e : Event) : Once cfg s (es ++ [e]) P := by
  obtain ⟨front, e', rest, rfl, holds⟩ := h
  exact ⟨front, e', rest ++ [e], by simp, holds⟩

/-- The last event of a run is one of its events. -/
theorem Once.last (h : P (run (step cfg) s es) e) : Once cfg s (es ++ [e]) P := ⟨es, e, [], rfl, h⟩

theorem once_concat : Once cfg s (es ++ [e]) P ↔ Once cfg s es P ∨ P (run (step cfg) s es) e := by
  refine ⟨?_, fun h => h.elim (·.concat e) .last⟩
  rintro ⟨front, e', rest, same, holds⟩
  obtain rfl | ⟨rest, last, rfl⟩ := List.eq_nil_or_concat' rest
  · obtain ⟨rfl, ⟨⟩⟩ := List.append_inj' same rfl
    exact .inr holds
  · rw [← List.cons_append, ← List.append_assoc] at same
    exact .inl ⟨front, e', rest, (List.append_inj' same rfl).1, holds⟩

theorem tryActivate_records {peer : PeerKey} {o : Offer} {now : Time} {r : Store × Bool}
    (done : s.tryActivate cfg peer o now = some r) : SameRecords s r.1 := by
  unfold Store.tryActivate at done
  repeat' split at done
  all_goals cases done
  all_goals exact ⟨rfl, rfl, rfl⟩

theorem noteUnlink_records (s : Store) (p : PeerKey) (time : Time) : (s.noteUnlink p time).approved = s.approved ∧
    (s.noteUnlink p time).offered = s.offered ∧
    (s.noteUnlink p time).unlinks = s.unlinks ++ [(p, wireTime time)] := by
  unfold Store.noteUnlink
  dsimp only
  split <;> exact ⟨rfl, rfl, rfl⟩

theorem confirmLink_records (cfg : Config) (s : Store) (id : LinkID) (now : Time) :
    SameRecords s (s.confirmLink cfg id now) ∨
    ∃ a, Approves s ⟨now, .confirmLink id⟩ a ∧ (s.confirmLink cfg id now).approved = s.approved ++ [a] ∧
      (s.confirmLink cfg id now).offered = s.offered ∧ (s.confirmLink cfg id now).unlinks = s.unlinks := by
  unfold Store.confirmLink
  split
  · next l passed =>
    cases done : (s.expire now).perform cfg id l now with
    | none => exact .inl ⟨rfl, rfl, rfl⟩
    | some s' =>
      have pending : s.links.lookup id = some l ∧ l.state = .pendingApproval := by
        have after : (s.expire now).links.lookup id = some l ∧ l.state = .pendingApproval := by
          unfold Store.precondition at passed
          grind
        obtain ⟨m, at_id, kept⟩ := Option.map_eq_some_iff.mp (lookup_update.symm.trans after.1)
        grind [Link.revoke]
      have records : SameRecords ((s.expire now).accept id l now) s' := by
        unfold Store.perform at done
        split at done
        · split at done
          · obtain ⟨r, activated, rfl⟩ := Option.map_eq_some_iff.mp done
            exact tryActivate_records activated
          · exact Option.some.inj done ▸ ⟨rfl, rfl, rfl⟩
        · exact Option.some.inj done ▸ ⟨rfl, rfl, rfl⟩
      exact .inr ⟨⟨l.peer, l.role, now⟩, ⟨id, l, rfl, pending.1, pending.2, rfl⟩, records.approved,
        records.offered, records.unlinks⟩
  · exact .inl ⟨rfl, rfl, rfl⟩

theorem deviceLink_records (cfg : Config) (s : Store) (id : LinkID) (peer : PeerKey) (role : Role) (nonce : String)
    (fingerprint : Bool) (now : Time) : SameRecords s (s.deviceLink cfg id peer role nonce fingerprint now) := by
  unfold Store.deviceLink
  split
  · cases done : s.createIntent id peer role nonce now with
    | none => exact ⟨rfl, rfl, rfl⟩
    | some s' =>
      unfold Store.createIntent at done
      simp only [Option.ite_none_right_eq_some, Option.some.injEq] at done
      exact done.2 ▸ ⟨rfl, rfl, rfl⟩
  · exact ⟨rfl, rfl, rfl⟩

theorem linkMail_records (cfg : Config) (s : Store) (sender : PeerKey) (o : Offer) (now : Time) :
    (s.linkMail cfg sender o now).approved = s.approved ∧ (s.linkMail cfg sender o now).unlinks = s.unlinks ∧
    ∀ x ∈ (s.linkMail cfg sender o now).offered, x ∈ s.offered ∨ x = (sender, o) := by
  unfold Store.linkMail
  split
  · exact ⟨rfl, rfl, fun x mem => .inl mem⟩
  dsimp only
  split
  · exact ⟨rfl, rfl, by simp [Store.expire, Store.update]⟩
  split
  · exact ⟨rfl, rfl, by simp⟩
  · next activated =>
    obtain ⟨approved, offered, unlinks⟩ := tryActivate_records activated
    exact ⟨approved, unlinks, by rw [offered]; simp [Store.expire, Store.update]⟩
  · next activated =>
    obtain ⟨approved, offered, unlinks⟩ := tryActivate_records activated
    exact ⟨approved, unlinks, by rw [offered]; simp [Store.expire, Store.update]⟩

/-- What is on record after an event: the approval, the offer or the unlink that the event is, and nothing else. -/
structure Recorded (s : Store) (e : Event) (s' : Store) : Prop where
  approved : s'.approved = s.approved ∨ ∃ a, Approves s e a ∧ s'.approved = s.approved ++ [a]
  offered : ∀ p o, (p, o) ∈ s'.offered → (p, o) ∈ s.offered ∨ e.op = .linkMail p o
  unlinks : ∀ p t, (p, t) ∈ s.unlinks ∨ Unlinks s e p t → (p, t) ∈ s'.unlinks

theorem SameRecords.recorded {s' : Store} (same : SameRecords s s') (none_ : ∀ p t, ¬Unlinks s e p t) :
    Recorded s e s' := by
  refine ⟨.inl same.approved, fun p o mem => .inl (same.offered ▸ mem), fun p t was => ?_⟩
  rw [same.unlinks]
  exact was.resolve_right (none_ p t)

theorem step_records (cfg : Config) (s : Store) (e : Event) : Recorded s e (step cfg s e) := by
  obtain ⟨now, op⟩ := e
  cases op with
  | confirmLink id =>
    obtain same | ⟨a, approves, approved, offered, unlinks⟩ := confirmLink_records cfg s id now
    · exact same.recorded (by simp [Unlinks])
    · refine ⟨.inr ⟨a, approves, approved⟩, fun p o mem => .inl (offered ▸ mem), fun p t was => ?_⟩
      exact unlinks ▸ was.resolve_right (by simp [Unlinks])
  | link id peer role nonce fingerprint =>
    exact (deviceLink_records cfg s id peer role nonce fingerprint now).recorded (by simp [Unlinks])
  | deleteLink id =>
    refine SameRecords.recorded ?_ (by simp [Unlinks])
    simp only [step, Store.delete]
    split <;> exact ⟨rfl, rfl, rfl⟩
  | confirmScope peer id expires =>
    refine SameRecords.recorded ?_ (by simp [Unlinks])
    simp only [step, Store.confirmScope]
    split <;> exact ⟨rfl, rfl, rfl⟩
  | unlink peer =>
    simp only [step, Store.deviceUnlink]
    obtain ⟨approved, offered, unlinks⟩ := noteUnlink_records (s.revokeForPeer peer) peer now
    split
    · refine ⟨.inl approved, fun p o mem => .inl (offered ▸ mem), fun p t was => ?_⟩
      rw [unlinks, List.mem_append, List.mem_singleton]
      refine was.imp_right ?_
      rintro (⟨⟨⟩, -, rfl⟩ | op)
      · rfl
      · simp at op
    · next unpaired =>
      refine ⟨.inl rfl, fun p o mem => .inl mem, fun p t was => was.resolve_right ?_⟩
      rintro (⟨⟨⟩, paired, -⟩ | op)
      · exact unpaired paired
      · simp at op
  | unlinkMail sender made =>
    obtain ⟨approved, offered, unlinks⟩ := noteUnlink_records (s.revokeForPeer sender) sender (parseWireTime made)
    refine ⟨.inl approved, fun p o mem => .inl (offered ▸ mem), fun p t was => ?_⟩
    show (p, t) ∈ ((s.revokeForPeer sender).noteUnlink sender (parseWireTime made)).unlinks
    rw [unlinks, List.mem_append, List.mem_singleton]
    refine was.imp_right ?_
    rintro (⟨op, -⟩ | op)
    · simp at op
    · obtain ⟨rfl, rfl⟩ := Op.unlinkMail.inj op
      rw [wireTime, parseWireTime, Int.mul_ediv_cancel _ (by decide)]
  | linkMail sender o =>
    obtain ⟨approved, unlinks, offered⟩ := linkMail_records cfg s sender o now
    refine ⟨.inl approved, fun p o' mem => (offered _ mem).imp_right ?_, fun p t was => ?_⟩
    · rintro ⟨⟩
      rfl
    · rw [step, unlinks]
      exact was.resolve_right (by simp [Unlinks])
  | _ => exact SameRecords.recorded ⟨rfl, rfl, rfl⟩ (by simp [Unlinks])

/-- What is on record was an event, and every unlink is on record. -/
theorem run_records (cfg : Config) (es : List Event) : let s := run (step cfg) {} es
    (∀ a ∈ s.approved, Once cfg {} es (Approves · · a)) ∧
    (∀ p o, (p, o) ∈ s.offered → ∃ e ∈ es, e.op = .linkMail p o) ∧
    ∀ p t, Once cfg {} es (Unlinks · · p t) → (p, t) ∈ s.unlinks := by
  induction es using List.reverseRecOn with
  | nil => simp [Once]
  | append_singleton es e ih =>
    obtain ⟨approved, offered, unlinks⟩ := ih
    obtain ⟨approved', offered', unlinks'⟩ := step_records cfg (run (step cfg) {} es) e
    rw [run_concat]
    refine ⟨fun a mem => ?_, fun p o mem => ?_, fun p t once => ?_⟩
    · obtain same | ⟨a', approves, new⟩ := approved'
      · exact (approved a (same ▸ mem)).concat e
      · rw [new, List.mem_append, List.mem_singleton] at mem
        obtain old | rfl := mem
        · exact (approved a old).concat e
        · exact .last approves
    · obtain old | now := offered' p o mem
      · obtain ⟨e', mem', op⟩ := offered p o old
        exact ⟨e', List.mem_append_left _ mem', op⟩
      · exact ⟨e, by simp, now⟩
    · exact unlinks' p t ((once_concat.mp once).imp_left (unlinks p t))

/-- Approvals that come on record after `s` are events after `s`. -/
theorem approved_since (cfg : Config) (s : Store) (es : List Event) {a : Approved}
    (mem : a ∈ (run (step cfg) s es).approved.drop s.approved.length) : Once cfg s es (Approves · · a) := by
  induction es using List.reverseRecOn with
  | nil => simp at mem
  | append_singleton es e ih =>
    rw [run_concat] at mem
    obtain same | ⟨a', approves, new⟩ := (step_records cfg (run (step cfg) s es) e).approved
    · exact (ih (same ▸ mem)).concat e
    · rw [new, List.drop_append, List.mem_append] at mem
      obtain old | new := mem
      · exact (ih old).concat e
      · rw [List.mem_singleton.mp (List.mem_of_mem_drop new)]
        exact .last approves

end

/-! ## Every run -/

/-- In the run a human here has confirmed an intent with the peer in this role, less than `intentTTL` before `now`,
and the peer has sent an offer in the other role, at a time near `now` and not before any unlink. -/
structure Agreed (cfg : Config) (es : List Event) (now : Time) (l : Link) : Prop where
  approved : ∃ a, Once cfg {} es (Approves · · a) ∧ a.peer = l.peer ∧ a.role = l.role ∧ now < a.time + intentTTL
  offered : ∃ o, (∃ e ∈ es, e.op = .linkMail l.peer o) ∧ l.role = o.role.complementary ∧
    now < parseWireTime o.made + intentTTL ∧ parseWireTime o.made ≤ now + intentTTL ∧
    ∀ t, Once cfg {} es (Unlinks · · l.peer t) → t ≤ o.made

theorem Backed.agreed {cfg : Config} {es : List Event} {now : Time} {l : Link}
    (h : Backed (run (step cfg) {} es) now l) :
    Agreed cfg es now l := by
  obtain ⟨approved, offered, unlinks⟩ := run_records cfg es
  obtain ⟨⟨a, mem, of_a⟩, o, sent, role, recent, early, later⟩ := h
  exact ⟨⟨a, approved a mem, of_a⟩, o, offered l.peer o sent, role, recent, early,
    fun t once => later t (unlinks l.peer t once)⟩

/-- An unlink by either side, or the removal of the peer. -/
def Ends (s : Store) (p : PeerKey) : Op → Prop
  | .unlink peer => peer = p ∧ (s.peers.lookup p).isSome = true
  | .removePeer key => key = p
  | .unlinkMail sender _ => sender = p
  | _ => False

/-- Who sent the mail of the event. -/
def Op.sender : Op → Option PeerKey
  | .linkMail sender _ => some sender
  | .unlinkMail sender _ => some sender
  | _ => none

theorem Ends.since {cfg : Config} {p : PeerKey} {e : Event} (ends : Ends s p e.op) :
    Since s.approved.length p (step cfg s e) := by
  obtain ⟨now, op⟩ := e
  cases op with
  | unlink peer =>
    obtain ⟨rfl, paired⟩ := ends
    simp only [step, Store.deviceUnlink, if_pos paired]
    exact (Quiet.noteUnlink (AList.lookup_erase _ _)).since _ _ (unlinked_since s _)
  | removePeer key => exact ends ▸ (Quiet.peers _ _).since _ _ (unlinked_since s _)
  | unlinkMail sender made => exact ends ▸ (Quiet.noteUnlink (AList.lookup_erase _ _)).since _ _ (unlinked_since s _)
  | _ => exact ends.elim

theorem Ends.approved {cfg : Config} {p : PeerKey} {e : Event} (ends : Ends s p e.op) :
    (step cfg s e).approved = s.approved := by
  obtain same | ⟨a, ⟨id, l, op, -⟩, -⟩ := (step_records cfg s e).approved
  · exact same
  · rw [op] at ends
    exact ends.elim

/-- In every run: the rows that are not revoked have one role, at most one row for each peer, at most one if this
device is a helper and at most `maxHelpers` otherwise; a scope belongs to an active link of a helper; a link becomes
active only when a human here has confirmed it and the peer has offered it; after an unlink or a removal only with a
confirmation that comes later; and a mail changes only rows of its sender and rows that have lapsed. -/
theorem links_need_both (cfg : Config) (es : List Event) : let s := run (step cfg) {} es
    (∀ i l j m, s.links.lookup i = some l → s.links.lookup j = some m → l.live = true → m.live = true →
      l.role = m.role ∧ (i ≠ j → l.peer ≠ m.peer ∧ l.role = .controller)) ∧
    (s.links.count fun _ => Link.live) ≤ maxHelpers ∧
    (∀ id, (s.scopes.lookup id).isSome = true →
      ∃ l, s.links.lookup id = some l ∧ l.state = .active ∧ l.role = .helper) ∧
    ∀ e, (∀ id l, (step cfg s e).links.lookup id = some l → l.state = .active →
        s.links.lookup id = some l ∨ Agreed cfg (es ++ [e]) e.now l) ∧
      (∀ p, Ends s p e.op → ∀ later, let s' := run (step cfg) (step cfg s e) later
        ∀ id l, s'.links.lookup id = some l → l.peer = p → l.state = .active →
          ∃ a, Once cfg (step cfg s e) later (Approves · · a) ∧ a.peer = p ∧ a.role = l.role) ∧
      (∀ p, e.op.sender = some p → OnlyRowsOf p s (step cfg s e) ∨ OnlyRowsOf p (s.expire e.now) (step cfg s e)) := by
  intro s
  have all := run_keeps cfg sound_init since_init es
  have sound : Sound s := all.sound sound_init
  have since : ∀ p, Since 0 p s := fun p => all.since 0 p (since_init p)
  refine ⟨sound.hierarchy.apart, sound.hierarchy.count, fun id has => ?_, fun e => ?_⟩
  · obtain ⟨x, at_id⟩ := Option.isSome_iff_exists.mp has
    exact sound.scopes id x at_id
  · have stepped := step_stepped cfg sound since e
    refine ⟨fun id l at_id active => ?_, ?_, fun p sent => ?_⟩
    · refine (stepped.backed id l at_id active).imp_right fun backed => ?_
      exact Backed.agreed (by rwa [run_concat])
    · intro p ends later s' id l at_id of_p active
      have after := run_keeps cfg (stepped.sound sound) (fun p => stepped.since 0 p (since p)) later
      obtain ⟨a, mem, of_a, role, -⟩ := (after.since _ p ends.since).rows id l at_id of_p (.inr active)
      exact ⟨a, approved_since cfg _ later (ends.approved ▸ mem), of_a, role⟩
    · obtain ⟨now, op⟩ := e
      cases op with
      | linkMail sender o => exact Option.some.inj sent ▸ linkMail_only s o
      | unlinkMail sender made => exact Option.some.inj sent ▸ .inl (unlink_only s sender _)
      | _ => cases sent

/-- The intent with `kim` lapses when a mail of `lee` comes. -/
def lateOffer : Event :=
  ⟨intentTTL, .linkMail "lee" { made := 600, controller := "me", helper := "lee", nonce := "", role := .helper }⟩

theorem lateOffer_revokes : let cfg : Config := { crypto := ⟨id⟩, self := "me", nonLoopbackRelay := false }
    let s := run (step cfg) {} [⟨0, .peer "kim" .fingerprint⟩, ⟨0, .link "i-1" "kim" .controller "" true⟩]
    ¬ OnlyRowsOf "lee" s (step cfg s lateOffer) := by
  intro cfg s only
  have := only.links "i-1"
  revert this
  decide

end Agentnet.Device
