import Mathlib.Algebra.Group.Nat.Defs
import Agentnet.Basic

/-! `internal/noise`: the messages of a handshake and the transport with explicit counters,
with an ideal AEAD: a ciphertext is the record of what was sealed. -/

namespace Agentnet.Session

abbrev SID := Nat

abbrev Ephemeral := Nat

abbrev Plaintext := String

/-- The key of one direction of a session, from the ephemerals of both sides. -/
structure Key where
  eI : Ephemeral
  eR : Ephemeral
  toResponder : Bool
  deriving DecidableEq

/-- The parts of `dataAD`. Its text has them one after another: the keys hold no newline
and the rest has fixed length. -/
structure AssociatedData where
  fromKey : PeerKey
  toKey : PeerKey
  sid : SID
  counter : Nat
  deriving DecidableEq

def dataAD (fromKey toKey : PeerKey) (sid : SID) (n : Nat) : AssociatedData := ⟨fromKey, toKey, sid, n⟩

structure Ciphertext where
  key : Key
  counter : Nat
  ad : AssociatedData
  pt : Plaintext
  deriving DecidableEq

structure Transport where
  send : Key
  recv : Key
  sendN : Nat := 0
  recvNext : Nat := 0
  deriving DecidableEq

def maxUint64 : Nat := 2 ^ 64 - 1

/-- `cs1` protects initiator to responder, `cs2` the other direction. -/
def newTransport (initiator : Bool) (eI eR : Ephemeral) : Transport where
  send := ⟨eI, eR, initiator⟩
  recv := ⟨eI, eR, !initiator⟩

namespace Transport

def «seal» (t : Transport) (ad : Nat → AssociatedData) (pt : Plaintext) : Option (Ciphertext × Transport) :=
  if t.sendN = maxUint64 then none
  else some (⟨t.send, t.sendN, ad t.sendN, pt⟩, { t with sendN := t.sendN + 1 })

inductive OpenError where
  | replay | decrypt
  deriving DecidableEq

/-- `ct` is none for bytes that nobody sealed. -/
def «open» (t : Transport) (counter : Nat) (ad : AssociatedData) (ct : Option Ciphertext) :
    Except OpenError (Plaintext × Transport) :=
  if counter < t.recvNext ∨ counter = maxUint64 then .error .replay
  else
    match ct with
    | none => .error .decrypt
    | some c =>
      if c.key = t.recv ∧ c.counter = counter ∧ c.ad = ad then
        .ok (c.pt, { t with recvNext := counter + 1 })
      else .error .decrypt

variable {pt : Plaintext} {t t' : Transport}

theorem seal_eq_some {ad : Nat → AssociatedData} {c : Ciphertext} (h : t.seal ad pt = some (c, t')) :
    t.sendN ≠ maxUint64 ∧ c = ⟨t.send, t.sendN, ad t.sendN, pt⟩ ∧ t' = { t with sendN := t.sendN + 1 } := by
  unfold «seal» at h
  split at h
  · cases h
  · next room =>
    simp only [Option.some.injEq, Prod.mk.injEq] at h
    exact ⟨room, h.1.symm, h.2.symm⟩

/-- What an opened ciphertext must be: not replayed, of the key and under its counter. -/
theorem open_eq_ok {counter : Nat} {ad : AssociatedData} {ct : Option Ciphertext}
    (h : t.open counter ad ct = .ok (pt, t')) :
    ∃ c, ct = some c ∧ t.recvNext ≤ counter ∧ c.key = t.recv ∧ c.counter = counter ∧ c.ad = ad ∧
      c.pt = pt ∧ t' = { t with recvNext := counter + 1 } := by
  unfold «open» at h
  split at h
  · cases h
  · next fresh =>
    split at h
    · cases h
    · next c =>
      split at h
      · next same =>
        simp only [Except.ok.injEq, Prod.mk.injEq] at h
        exact ⟨c, rfl, not_lt.mp fun old => fresh (.inl old), same.1, same.2.1, same.2.2, h.1, h.2.symm⟩
      · cases h

end Transport

/-! ## Handshake messages -/

/-- What messages 2 and 3 authenticate: both ephemerals, the author's identity and, by the
prologue, the identity of the other side. -/
structure Proof where
  eI : Ephemeral
  eR : Ephemeral
  author : PeerKey
  peer : PeerKey
  deriving DecidableEq

/-- The handshake messages and the data of a session. -/
inductive Body where
  | msg1 (e : Ephemeral)
  | msg2 (p : Proof)
  | msg3 (p : Proof)
  | data (counter : Nat) (ct : Option Ciphertext)
  | short
  deriving DecidableEq

inductive FrameType where
  | init | resp | fin | data | unknown
  deriving DecidableEq

/-- An envelope of a session. `sid` is none for a payload shorter than a session ID. -/
structure Frame where
  fromKey : PeerKey
  toKey : PeerKey
  type : FrameType
  sid : Option SID
  body : Body
  deriving DecidableEq

/-- Reading message 2 as the initiator with `eI`: the ephemeral of the responder. -/
def readMsg2 (self peer : PeerKey) (eI : Ephemeral) : Body → Option Ephemeral
  | .msg2 p => if p.eI = eI ∧ p.author = peer ∧ p.peer = self then some p.eR else none
  | _ => none

def readMsg3 (self peer : PeerKey) (eI eR : Ephemeral) : Body → Bool
  | .msg3 p => p.eI = eI ∧ p.eR = eR ∧ p.author = peer ∧ p.peer = self
  | _ => false

variable {body : Body} {eI eR : Ephemeral} {peer self : PeerKey}

theorem readMsg2_eq_some (h : readMsg2 self peer eI body = some eR) : body = .msg2 ⟨eI, eR, peer, self⟩ := by
  cases body with
  | msg2 p =>
    simp only [readMsg2] at h
    split at h
    · next same =>
      obtain rfl := Option.some.inj h
      obtain ⟨rfl, rfl, rfl⟩ := same
      rfl
    · cases h
  | msg1 | msg3 | data | short => cases h

theorem readMsg3_eq_true (h : readMsg3 self peer eI eR body = true) : body = .msg3 ⟨eI, eR, peer, self⟩ := by
  cases body with
  | msg3 p =>
    obtain ⟨rfl, rfl, rfl, rfl⟩ := of_decide_eq_true h
    rfl
  | msg1 | msg2 | data | short => cases h

end Agentnet.Session
