import Agentnet.Session.Moves

/-! Daemons whose frames pass through a network that replays, reorders, drops, relabels and
injects at will. The AEAD and the handshake are ideal: nobody makes a ciphertext under a key
whose two ephemerals the daemons drew, nor messages 2 and 3 in a daemon's name. -/

namespace Agentnet.Session

open Lib

/-! ## The network -/

/-- Everything that left a daemon or reached one of its handlers, in order. -/
abbrev Log := List (PeerKey × Output)

structure Net where
  managers : PeerKey → Manager
  log : Log

def newNet : Net := ⟨fun _ => newManager, []⟩

structure NetEvent where
  daemon : PeerKey
  event : Event

def netStep (w : PeerKey → World) (n : Net) (e : NetEvent) : Net where
  managers := Function.update n.managers e.daemon (step (w e.daemon) e.daemon (n.managers e.daemon) e.event)
  log := n.log ++ (outputsOf (w e.daemon) e.daemon (n.managers e.daemon) e.event).map fun o => (e.daemon, o)

namespace Output

/-- The ephemeral key that is sent for the first time. -/
def drawn : Output → Option Ephemeral
  | .frame f =>
    match f.body with
    | .msg1 e => some e
    | .msg2 p => some p.eR
    | _ => none
  | _ => none

def dial : Output → Option (SID × Ephemeral)
  | .frame f =>
    match f.sid, f.body with
    | some sid, .msg1 e => some (sid, e)
    | _, _ => none
  | _ => none

/-- The ciphertext that a frame carries. -/
def sealed : Output → Option Ciphertext
  | .frame f =>
    match f.body with
    | .data _ c => c
    | _ => none
  | _ => none

/-- The ciphertext that a delivery came from. -/
def opened : Output → Option Ciphertext
  | .deliver f _ =>
    match f.body with
    | .data _ c => c
    | _ => none
  | _ => none

def hasBody (b : Body) : Output → Bool
  | .frame f => f.body = b
  | _ => false

end Output

def Drawn (log : Log) (e : Ephemeral) : Prop := ∃ x ∈ log, x.2.drawn = some e

def Dialed (log : Log) (d : PeerKey) (sid : SID) (e : Ephemeral) : Prop :=
  ∃ x ∈ log, x.1 = d ∧ x.2.dial = some (sid, e)

/-- What the network can put into a frame, whatever its type, sender and session ID. -/
def Injectable (honest : PeerKey → Bool) (log : Log) : Body → Prop
  | .msg2 p => honest p.author → ∃ x ∈ log, x.2.hasBody (.msg2 p)
  | .msg3 p => honest p.author → ∃ x ∈ log, x.2.hasBody (.msg3 p)
  | .data _ (some c) => (∃ x ∈ log, x.2.sealed = some c) ∨ ¬(Drawn log c.key.eI ∧ Drawn log c.key.eR)
  | _ => True

/-- Random draws do not repeat, and frames come from the network. -/
def Admits (honest : PeerKey → Bool) (log : Log) : Event → Prop
  | .send _ _ x => ¬Drawn log x.ephemeral ∧ ∀ y ∈ log, ∀ a ∈ y.2.dial, a.1 ≠ x.sid
  | .receive f x => ¬Drawn log x.ephemeral ∧ Injectable honest log f.body
  | _ => True

def Possible (honest : PeerKey → Bool) (n : Net) (e : NetEvent) : Prop :=
  honest e.daemon ∧ Admits honest n.log e.event

/-! ## Keys and their owners -/

def Key.flip (k : Key) : Key := { k with toResponder := !k.toResponder }

/-- The ephemeral key of the side that seals. -/
def Key.own (k : Key) : Ephemeral := if k.toResponder then k.eI else k.eR

@[simp] theorem Key.flip_flip (k : Key) : k.flip.flip = k := by simp [Key.flip]

/-- The ephemeral key that this side drew. -/
def Sess.own (s : Sess) : Ephemeral :=
  match s.phase with
  | .initiated eI => eI
  | .responded _ eR => eR
  | .established tr => tr.send.own

def Sess.initiator (s : Sess) : Bool :=
  match s.phase with
  | .initiated _ => true
  | .responded _ _ => false
  | .established tr => tr.send.toResponder

variable {e : Ephemeral} {log : Log} {honest : PeerKey → Bool}

theorem Drawn.append (h : Drawn log e) (xs : Log) : Drawn (log ++ xs) e := by
  obtain ⟨x, mem, eq⟩ := h
  exact ⟨x, List.mem_append_left _ mem, eq⟩

theorem Dialed.append {d : PeerKey} {sid : SID} (h : Dialed log d sid e) (xs : Log) : Dialed (log ++ xs) d sid e := by
  obtain ⟨x, mem, eq⟩ := h
  exact ⟨x, List.mem_append_left _ mem, eq⟩

/-! ## Invariant -/

/-- An open session's transport, and what was sealed and opened with its keys. -/
structure TransportOk (honest : PeerKey → Bool) (log : Log) (peer : PeerKey) (tr : Transport) : Prop where
  mirrored : tr.recv = tr.send.flip
  bounded : tr.sendN ≤ maxUint64
  bothDrawn : honest peer → Drawn log tr.send.eI ∧ Drawn log tr.send.eR

/-- One session of daemon `d`. Nothing was sealed or opened with its ephemeral before it opened,
and then only under its keys and below its counters. -/
structure CellOk (honest : PeerKey → Bool) (log : Log) (d : PeerKey) (sid : SID) (s : Sess) : Prop where
  keyed : s.sid = sid
  ownDrawn : Drawn log s.own
  dialed : s.initiator = true → Dialed log d sid s.own
  transport : ∀ tr, s.phase = .established tr → TransportOk honest log s.peer tr
  sealedBelow : ∀ x ∈ log, ∀ c, x.2.sealed = some c → c.key.own = s.own →
    ∃ tr, s.phase = .established tr ∧ c.key = tr.send ∧ c.counter < tr.sendN
  openedBelow : ∀ x ∈ log, ∀ c, x.2.opened = some c → c.key.flip.own = s.own →
    ∃ tr, s.phase = .established tr ∧ c.key = tr.recv ∧ c.counter < tr.recvNext

/-- A ciphertext that daemon `d` sealed. -/
structure SealedOk (log : Log) (x : PeerKey × Output) (c : Ciphertext) : Prop where
  frame : x.2 = .frame (dataFrame x.1 c.ad.toKey c.ad.sid c)
  ad : c.ad.fromKey = x.1
  room : c.counter < maxUint64
  ownDrawn : Drawn log c.key.own
  dialed : c.key.toResponder = true → Dialed log x.1 c.ad.sid c.key.eI

structure OpenedOk (honest : PeerKey → Bool) (log : Log) (x : PeerKey × Output) (f : Frame) (pt : Plaintext)
    (c : Ciphertext) : Prop where
  body : f.body = .data c.counter (some c)
  text : pt = c.pt
  sender : f.fromKey = c.ad.fromKey
  session : f.sid = some c.ad.sid
  ad : c.ad.toKey = x.1
  wasSealed : honest f.fromKey → ∃ y ∈ log, y.2.sealed = some c
  ownDrawn : Drawn log c.key.flip.own
  dialed : c.key.toResponder = false → Dialed log x.1 c.ad.sid c.key.eI

/-- Under one ephemeral there is one key, and its counters go up. -/
def Ordered (own : Key → Ephemeral) (cs : List Ciphertext) : Prop :=
  cs.Pairwise fun a b => own a.key = own b.key → a.key = b.key ∧ a.counter < b.counter

structure LogOk (honest : PeerKey → Bool) (log : Log) : Prop where
  dialOnce : ∀ {d d' sid e e'}, Dialed log d sid e → Dialed log d' sid e' → d = d' ∧ e = e'
  finals : ∀ x ∈ log, ∀ p, x.2.hasBody (.msg3 p) = true → Drawn log p.eI
  seals : ∀ x ∈ log, ∀ c, x.2.sealed = some c → SealedOk log x c
  opens : ∀ x ∈ log, ∀ f pt, x.2 = .deliver f pt → ∃ c, OpenedOk honest log x f pt c
  sealedOrder : Ordered Key.own (log.filterMap fun x => x.2.sealed)
  openedOrder : Ordered (fun k => k.flip.own) (log.filterMap fun x => x.2.opened)

/-- The invariant of all parties and of what has happened. -/
structure Secure (honest : PeerKey → Bool) (v : PeerKey → View) (log : Log) : Prop where
  cells : ∀ d sid s, v d sid = some s → CellOk honest log d sid s
  alone : ∀ {d sid s d' sid' s'}, v d sid = some s → v d' sid' = some s' → s.own = s'.own → d = d' ∧ sid = sid'
  logOk : LogOk honest log

section

variable {honest : PeerKey → Bool} {v v' : PeerKey → View} {log : Log} {d : PeerKey} {sid : SID} {s : Sess}

/-! ### The log grows -/

variable {tr : Transport} {c : Ciphertext} {x : PeerKey × Output} {f : Frame} {pt : Plaintext} {e : Ephemeral}
  {o : Output} {out : List Output} {u u' : View}

theorem TransportOk.append {peer : PeerKey} (h : TransportOk honest log peer tr) (xs : Log) :
    TransportOk honest (log ++ xs) peer tr := by
  refine ⟨h.mirrored, h.bounded, ?_⟩
  intro trusted
  obtain ⟨eI, eR⟩ := h.bothDrawn trusted
  exact ⟨eI.append xs, eR.append xs⟩

theorem SealedOk.append (h : SealedOk log x c) (xs : Log) : SealedOk (log ++ xs) x c :=
  ⟨h.frame, h.ad, h.room, h.ownDrawn.append xs, fun dir => (h.dialed dir).append xs⟩

theorem OpenedOk.append (h : OpenedOk honest log x f pt c) (xs : Log) : OpenedOk honest (log ++ xs) x f pt c := by
  refine ⟨h.body, h.text, h.sender, h.session, h.ad, ?_, h.ownDrawn.append xs, fun dir => (h.dialed dir).append xs⟩
  intro trusted
  obtain ⟨y, mem, eq⟩ := h.wasSealed trusted
  exact ⟨y, List.mem_append_left _ mem, eq⟩

/-- A cell does not depend on entries of other keys. -/
theorem CellOk.append (h : CellOk honest log d sid s) (xs : Log)
    (seals : ∀ x ∈ xs, ∀ c, x.2.sealed = some c → c.key.own ≠ s.own)
    (opens : ∀ x ∈ xs, ∀ c, x.2.opened = some c → c.key.flip.own ≠ s.own) : CellOk honest (log ++ xs) d sid s := by
  refine ⟨h.keyed, h.ownDrawn.append xs, fun first => (h.dialed first).append xs,
    fun tr phase => (h.transport tr phase).append xs, ?_, ?_⟩
  · intro x mem c eq own
    obtain old | new := List.mem_append.mp mem
    · exact h.sealedBelow x old c eq own
    · exact absurd own (seals x new c eq)
  · intro x mem c eq own
    obtain old | new := List.mem_append.mp mem
    · exact h.openedBelow x old c eq own
    · exact absurd own (opens x new c eq)

theorem Ordered.concat {own : Key → Ephemeral} {cs : List Ciphertext} (h : Ordered own cs)
    (last : ∀ a ∈ cs, own a.key = own c.key → a.key = c.key ∧ a.counter < c.counter) : Ordered own (cs ++ [c]) := by
  refine List.pairwise_append.mpr ⟨h, List.pairwise_singleton _ _, ?_⟩
  intro a mem b isLast
  obtain rfl := List.mem_singleton.mp isLast
  exact last a mem

/-- What an entry must bring for the log to stay in order: everything about the new entry. -/
structure EntryOk (honest : PeerKey → Bool) (log : Log) (x : PeerKey × Output) : Prop where
  dial : ∀ a, x.2.dial = some a → ∀ y ∈ log, ∀ b, y.2.dial = some b → b.1 ≠ a.1
  final : ∀ p, x.2.hasBody (.msg3 p) = true → Drawn log p.eI
  sealing : ∀ c, x.2.sealed = some c → SealedOk (log ++ [x]) x c ∧
    ∀ y ∈ log, ∀ a, y.2.sealed = some a → a.key.own = c.key.own → a.key = c.key ∧ a.counter < c.counter
  opening : ∀ f pt, x.2 = .deliver f pt → ∃ c, OpenedOk honest (log ++ [x]) x f pt c ∧
    ∀ y ∈ log, ∀ a, y.2.opened = some a → a.key.flip.own = c.key.flip.own → a.key = c.key ∧ a.counter < c.counter

theorem dialed_concat (h : Dialed (log ++ [x]) d sid e) :
    Dialed log d sid e ∨ (x.1 = d ∧ x.2.dial = some (sid, e)) := by
  obtain ⟨y, mem, own, eq⟩ := h
  obtain old | new := List.mem_append.mp mem
  · exact .inl ⟨y, old, own, eq⟩
  · obtain rfl := List.mem_singleton.mp new
    exact .inr ⟨own, eq⟩

theorem Output.opened_of_deliver (h : o.opened = some c) : ∃ f pt, o = .deliver f pt := by
  cases o with
  | deliver f pt => exact ⟨f, pt, rfl⟩
  | frame | panic => cases h

theorem OpenedOk.opened (h : OpenedOk honest log x f pt c) (eq : x.2 = .deliver f pt) : x.2.opened = some c := by
  simp only [eq, Output.opened, h.body]

theorem LogOk.concat (h : LogOk honest log) (entry : EntryOk honest log x) : LogOk honest (log ++ [x]) := by
  constructor
  · intro d d' sid e e' one two
    obtain old | ⟨own, new⟩ := dialed_concat one <;> obtain old' | ⟨own', new'⟩ := dialed_concat two
    · exact h.dialOnce old old'
    · obtain ⟨y, mem, -, eq⟩ := old
      exact (entry.dial _ new' y mem _ eq rfl).elim
    · obtain ⟨y, mem, -, eq⟩ := old'
      exact (entry.dial _ new y mem _ eq rfl).elim
    · have same := Option.some.inj (new.symm.trans new')
      exact ⟨own.symm.trans own', congrArg Prod.snd same⟩
  · intro y mem p body
    obtain old | new := List.mem_append.mp mem
    · exact (h.finals y old p body).append _
    · obtain rfl := List.mem_singleton.mp new
      exact (entry.final p body).append _
  · intro y mem c eq
    obtain old | new := List.mem_append.mp mem
    · exact (h.seals y old c eq).append _
    · obtain rfl := List.mem_singleton.mp new
      exact (entry.sealing c eq).1
  · intro y mem f pt eq
    obtain old | new := List.mem_append.mp mem
    · obtain ⟨c, ok⟩ := h.opens y old f pt eq
      exact ⟨c, ok.append _⟩
    · obtain rfl := List.mem_singleton.mp new
      obtain ⟨c, ok, -⟩ := entry.opening f pt eq
      exact ⟨c, ok⟩
  · rw [List.filterMap_append]
    cases eq : x.2.sealed with
    | none => simpa [eq] using h.sealedOrder
    | some c =>
      simp only [List.filterMap_cons, eq, List.filterMap_nil]
      apply h.sealedOrder.concat
      intro a mem
      obtain ⟨y, old, was⟩ := List.mem_filterMap.mp mem
      exact (entry.sealing c eq).2 y old a was
  · rw [List.filterMap_append]
    cases eq : x.2.opened with
    | none => simpa [eq] using h.openedOrder
    | some c =>
      simp only [List.filterMap_cons, eq, List.filterMap_nil]
      apply h.openedOrder.concat
      intro a mem
      obtain ⟨y, old, was⟩ := List.mem_filterMap.mp mem
      obtain ⟨f, pt, isDelivery⟩ := Output.opened_of_deliver eq
      obtain ⟨c', ok, above⟩ := entry.opening f pt isDelivery
      obtain rfl := Option.some.inj ((ok.opened isDelivery).symm.trans eq)
      exact above y old a was

/-! ### One session changes -/

def put (v : PeerKey → View) (d : PeerKey) (sid : SID) (s : Sess) : PeerKey → View :=
  Function.update v d (Function.update (v d) sid (some s))

theorem put_cases {a : PeerKey} {b : SID} {t : Sess} (h : put v d sid s a b = some t) :
    (a = d ∧ b = sid ∧ t = s) ∨ (¬(a = d ∧ b = sid) ∧ v a b = some t) := by
  by_cases actor : a = d
  · subst actor
    rw [put, Function.update_self] at h
    by_cases same : b = sid
    · subst same
      rw [Function.update_self] at h
      exact .inl ⟨rfl, rfl, (Option.some.inj h).symm⟩
    · rw [Function.update_of_ne same] at h
      exact .inr ⟨fun both => same both.2, h⟩
  · rw [put, Function.update_of_ne actor] at h
    exact .inr ⟨fun both => actor both.1, h⟩

theorem Secure.restrict (h : Secure honest v log) (sub : ∀ a b t, v' a b = some t → v a b = some t) :
    Secure honest v' log := by
  refine ⟨?_, ?_, h.logOk⟩
  · intro d sid s found
    exact h.cells d sid s (sub d sid s found)
  · intro d sid s d' sid' s' found found' own
    exact h.alone (sub d sid s found) (sub d' sid' s' found') own

/-- A session is put in place while entries `xs` that concern only it are logged. -/
theorem Secure.put (h : Secure honest v log) {xs : Log} (cell : CellOk honest (log ++ xs) d sid s)
    (alone : ∀ a b t, v a b = some t → t.own = s.own → a = d ∧ b = sid)
    (seals : ∀ x ∈ xs, ∀ c, x.2.sealed = some c → c.key.own = s.own)
    (opens : ∀ x ∈ xs, ∀ c, x.2.opened = some c → c.key.flip.own = s.own) (logOk : LogOk honest (log ++ xs)) :
    Secure honest (put v d sid s) (log ++ xs) := by
  refine ⟨?_, ?_, logOk⟩
  · intro a b t found
    obtain ⟨rfl, rfl, rfl⟩ | ⟨other, old⟩ := put_cases found
    · exact cell
    · apply (h.cells a b t old).append
      · intro x mem c eq own
        exact other (alone a b t old (own.symm.trans (seals x mem c eq)))
      · intro x mem c eq own
        exact other (alone a b t old (own.symm.trans (opens x mem c eq)))
  · intro a b t a' b' t' found found' own
    obtain ⟨rfl, rfl, rfl⟩ | ⟨other, old⟩ := put_cases found <;>
      obtain ⟨rfl, rfl, rfl⟩ | ⟨other', old'⟩ := put_cases found'
    · exact ⟨rfl, rfl⟩
    · exact absurd (alone a' b' t' old' own.symm) other'
    · exact absurd (alone a b t old own) other
    · exact h.alone old old' own

theorem Secure.unused (h : Secure honest v log) (fresh : ¬Drawn log e) : (∀ a b t, v a b = some t → t.own ≠ e) ∧
      (∀ x ∈ log, ∀ c, x.2.sealed = some c → c.key.own ≠ e) ∧ ∀ x ∈ log, ∀ c, x.2.opened = some c →
      c.key.flip.own ≠ e := by
  refine ⟨?_, ?_, ?_⟩
  · rintro a b t found rfl
    exact fresh (h.cells a b t found).ownDrawn
  · rintro x mem c eq rfl
    exact fresh (h.logOk.seals x mem c eq).ownDrawn
  · rintro x mem c eq rfl
    obtain ⟨f, pt, isDelivery⟩ := Output.opened_of_deliver eq
    obtain ⟨c', ok⟩ := h.logOk.opens x mem f pt isDelivery
    obtain rfl := Option.some.inj ((ok.opened isDelivery).symm.trans eq)
    exact fresh ok.ownDrawn

/-- A session that starts with a fresh ephemeral key keeps the invariant. -/
theorem Secure.start (h : Secure honest v log) (keyed : s.sid = sid) (fresh : ¬Drawn log s.own)
    (draws : o.drawn = some s.own) (running : ∀ tr, s.phase ≠ .established tr)
    (dials : s.initiator = true → o.dial = some (sid, s.own)) (noSeal : o.sealed = none)
    (noOpen : ∀ f pt, o ≠ .deliver f pt) (entry : EntryOk honest log (d, o)) :
    Secure honest (Session.put v d sid s) (log ++ [(d, o)]) := by
  have here : (d, o) ∈ log ++ [(d, o)] := List.mem_append_right _ (List.mem_singleton.mpr rfl)
  have quiet : o.opened = none := by
    cases eq : o.opened with
    | none => rfl
    | some c =>
      obtain ⟨f, pt, isDelivery⟩ := Output.opened_of_deliver eq
      exact absurd isDelivery (noOpen f pt)
  obtain ⟨cells, seals, opens⟩ := h.unused fresh
  apply h.put
  · refine ⟨keyed, ⟨_, here, draws⟩, fun first => ⟨_, here, rfl, dials first⟩,
      fun tr phase => absurd phase (running tr), ?_, ?_⟩
    · intro x mem c eq own
      obtain old | new := List.mem_append.mp mem
      · exact absurd own (seals x old c eq)
      · obtain rfl := List.mem_singleton.mp new
        cases noSeal.symm.trans eq
    · intro x mem c eq own
      obtain old | new := List.mem_append.mp mem
      · exact absurd own (opens x old c eq)
      · obtain rfl := List.mem_singleton.mp new
        cases quiet.symm.trans eq
  · intro a b t found own
    exact absurd own (cells a b t found)
  · intro x mem c eq
    obtain rfl := List.mem_singleton.mp mem
    cases noSeal.symm.trans eq
  · intro x mem c eq
    obtain rfl := List.mem_singleton.mp mem
    cases quiet.symm.trans eq
  · exact h.logOk.concat entry

theorem Secure.opens (h : Secure honest v log) {s' : Sess} {xs : Log} (found : v d sid = some s)
    (running : ∀ t, s.phase ≠ .established t) (phase : s'.phase = .established tr) (keyed : s'.sid = s.sid)
    (own : s'.own = s.own) (role : s'.initiator = s.initiator) (transport : TransportOk honest log s'.peer tr)
    (noSeal : ∀ x ∈ xs, x.2.sealed = none) (noOpen : ∀ x ∈ xs, x.2.opened = none) (logOk : LogOk honest (log ++ xs)) :
    Secure honest (Session.put v d sid s') (log ++ xs) := by
  have cell := h.cells d sid s found
  apply h.put _ _ _ _ logOk
  · refine ⟨keyed.trans cell.keyed, own ▸ cell.ownDrawn.append xs, ?_, ?_, ?_, ?_⟩
    · intro first
      rw [own]
      exact (cell.dialed (role ▸ first)).append xs
    · intro t eq
      obtain rfl := Phase.established.inj (phase.symm.trans eq)
      exact transport.append xs
    · intro x mem c eq same
      obtain old | new := List.mem_append.mp mem
      · obtain ⟨t, isOpen, -⟩ := cell.sealedBelow x old c eq (same.trans own)
        exact absurd isOpen (running t)
      · cases (noSeal x new).symm.trans eq
    · intro x mem c eq same
      obtain old | new := List.mem_append.mp mem
      · obtain ⟨t, isOpen, -⟩ := cell.openedBelow x old c eq (same.trans own)
        exact absurd isOpen (running t)
      · cases (noOpen x new).symm.trans eq
  · intro a b t other same
    exact h.alone other found (same.trans own)
  · intro x mem c eq
    cases (noSeal x mem).symm.trans eq
  · intro x mem c eq
    cases (noOpen x mem).symm.trans eq

theorem CellOk.sending (cell : CellOk honest log d sid s) (phase : s.phase = .established tr) :
    s.own = tr.send.own ∧ Drawn log tr.send.own ∧ (tr.send.toResponder = true → Dialed log d sid tr.send.own) := by
  have own : s.own = tr.send.own := by simp only [Sess.own, phase]
  refine ⟨own, own ▸ cell.ownDrawn, ?_⟩
  intro dir
  exact own ▸ cell.dialed (by simp only [Sess.initiator, phase, dir])

theorem Output.hasBody_frame {b : Body} (h : (Output.frame f).hasBody b = true) : f.body = b := of_decide_eq_true h

theorem Secure.seals_one (h : Secure honest v log) (pt : Plaintext) (found : v d sid = some s)
    (phase : s.phase = .established tr) (room : tr.sendN ≠ maxUint64) :
    Secure honest (Session.put v d sid { s with phase := .established { tr with sendN := tr.sendN + 1 } })
      (log ++ [(d, .frame (dataFrame d s.peer s.sid ⟨tr.send, tr.sendN, dataAD d s.peer s.sid tr.sendN, pt⟩))]) := by
  have cell := h.cells d sid s found
  obtain ⟨own, drawn, dialed⟩ := cell.sending phase
  have transport := cell.transport tr phase
  have below : tr.sendN < maxUint64 := lt_of_le_of_ne transport.bounded room
  have entry : EntryOk honest log (d,
      .frame (dataFrame d s.peer s.sid ⟨tr.send, tr.sendN, dataAD d s.peer s.sid tr.sendN, pt⟩)) := by
    refine ⟨fun a dial => (by cases dial), fun p body => (by cases Output.hasBody_frame body), ?_,
      fun f pt isDelivery => (by cases isDelivery)⟩
    intro c eq
    obtain rfl := Option.some.inj eq
    refine ⟨⟨rfl, rfl, below, drawn.append _, ?_⟩, ?_⟩
    · intro dir
      have first := dialed dir
      rw [Key.own, if_pos dir, ← cell.keyed] at first
      exact first.append _
    · intro y mem a was same
      obtain ⟨t, isOpen, key, less⟩ := cell.sealedBelow y mem a was (same.trans own.symm)
      obtain rfl := Phase.established.inj (phase.symm.trans isOpen)
      exact ⟨key, less⟩
  apply h.put _ _ _ _ (h.logOk.concat entry)
  · refine ⟨cell.keyed, drawn.append _, fun first => (dialed first).append _, ?_, ?_, ?_⟩
    · intro t eq
      obtain rfl := Phase.established.inj eq
      exact ⟨transport.mirrored, below, (transport.append _).bothDrawn⟩
    · intro x mem c eq same
      obtain old | new := List.mem_append.mp mem
      · obtain ⟨t, isOpen, key, less⟩ := cell.sealedBelow x old c eq (same.trans own.symm)
        obtain rfl := Phase.established.inj (phase.symm.trans isOpen)
        exact ⟨_, rfl, key, Nat.lt_succ_of_lt less⟩
      · obtain rfl := List.mem_singleton.mp new
        obtain rfl := Option.some.inj eq
        exact ⟨_, rfl, rfl, Nat.lt_succ_self _⟩
    · intro x mem c eq same
      obtain old | new := List.mem_append.mp mem
      · obtain ⟨t, isOpen, key, less⟩ := cell.openedBelow x old c eq (same.trans own.symm)
        obtain rfl := Phase.established.inj (phase.symm.trans isOpen)
        exact ⟨_, rfl, key, less⟩
      · obtain rfl := List.mem_singleton.mp new
        cases eq
  · intro a b t other same
    exact h.alone other found (same.trans own.symm)
  · intro x mem c eq
    obtain rfl := List.mem_singleton.mp mem
    obtain rfl := Option.some.inj eq
    rfl
  · intro x mem c eq
    obtain rfl := List.mem_singleton.mp mem
    cases eq

theorem Secure.receives (h : Secure honest v log) (found : v d sid = some s) (phase : s.phase = .established tr)
    (peer : s.peer = f.fromKey) (named : f.sid = some sid) (body : f.body = .data c.counter (some c))
    (fresh : tr.recvNext ≤ c.counter) (key : c.key = tr.recv) (ad : c.ad = dataAD f.fromKey d s.sid c.counter)
    (which : out = [] ∨ out = [.deliver f c.pt]) (injectable : Injectable honest log f.body) :
    Secure honest (Session.put v d sid { s with phase := .established { tr with recvNext := c.counter + 1 } })
      (log ++ out.map fun o => (d, o)) := by
  have cell := h.cells d sid s found
  have transport := cell.transport tr phase
  obtain ⟨ownSend, drawn, dialed⟩ := cell.sending phase
  have own : s.own = c.key.flip.own := by rw [key, transport.mirrored, Key.flip_flip, ownSend]
  have above : ∀ y ∈ log, ∀ a, y.2.opened = some a → a.key.flip.own = c.key.flip.own →
      a.key = c.key ∧ a.counter < c.counter := by
    intro y mem a was same
    obtain ⟨t, isOpen, key', less⟩ := cell.openedBelow y mem a was (same.trans own.symm)
    obtain rfl := Phase.established.inj (phase.symm.trans isOpen)
    exact ⟨key'.trans key.symm, less.trans_le fresh⟩
  have wasSealed : honest f.fromKey → ∃ y ∈ log, y.2.sealed = some c := by
    intro trusted
    rw [body] at injectable
    refine injectable.resolve_right (not_not.mpr ?_)
    rw [key, transport.mirrored]
    exact transport.bothDrawn (peer ▸ trusted)
  have logged : LogOk honest (log ++ out.map fun o => (d, o)) := by
    obtain rfl | rfl := which
    · simpa using h.logOk
    · apply h.logOk.concat
      refine ⟨fun a dial => (by cases dial), fun p isFin => (by cases isFin), fun c eq => (by cases eq), ?_⟩
      intro g pt isDelivery
      obtain ⟨rfl, rfl⟩ := Output.deliver.inj isDelivery
      refine ⟨c, ⟨body, rfl, by rw [ad]; rfl, ?_, by rw [ad]; rfl, ?_, own ▸ cell.ownDrawn.append _, ?_⟩, above⟩
      · rw [named, ad, ← cell.keyed]
        rfl
      · intro trusted
        obtain ⟨y, mem, eq⟩ := wasSealed trusted
        exact ⟨y, List.mem_append_left _ mem, eq⟩
      · intro dir
        have dirSend : tr.send.toResponder = true := by
          rw [key, transport.mirrored] at dir
          simpa [Key.flip] using dir
        have first := dialed dirSend
        rw [Key.own, if_pos dirSend, ← cell.keyed] at first
        rw [ad, key, transport.mirrored]
        exact first.append _
  have noSeal : ∀ x ∈ out.map fun o => (d, o), x.2.sealed = none := by
    obtain rfl | rfl := which <;> simp [Output.sealed]
  have opensOwn : ∀ x ∈ out.map fun o => (d, o), ∀ a, x.2.opened = some a → a = c := by
    obtain rfl | rfl := which
    · simp
    · simp [Output.opened, body, eq_comm]
  apply h.put _ _ _ _ logged
  · refine ⟨cell.keyed, drawn.append _, fun first => (dialed first).append _, ?_, ?_, ?_⟩
    · intro t eq
      obtain rfl := Phase.established.inj eq
      exact ⟨transport.mirrored, transport.bounded, (transport.append _).bothDrawn⟩
    · intro x mem a eq same
      obtain old | new := List.mem_append.mp mem
      · obtain ⟨t, isOpen, key', less⟩ := cell.sealedBelow x old a eq (same.trans ownSend.symm)
        obtain rfl := Phase.established.inj (phase.symm.trans isOpen)
        exact ⟨_, rfl, key', less⟩
      · cases (noSeal x new).symm.trans eq
    · intro x mem a eq same
      obtain old | new := List.mem_append.mp mem
      · obtain ⟨key', less⟩ := above x old a eq (same.trans (ownSend.symm.trans own))
        exact ⟨_, rfl, key'.trans key, less.trans (Nat.lt_succ_self _)⟩
      · obtain rfl := opensOwn x new a eq
        exact ⟨_, rfl, key, Nat.lt_succ_self _⟩
  · intro a b t other same
    exact h.alone other found (same.trans ownSend.symm)
  · intro x mem a eq
    cases (noSeal x mem).symm.trans eq
  · intro x mem a eq
    obtain rfl := opensOwn x mem a eq
    exact own.symm.trans ownSend

/-! ### One event -/

theorem Output.drawn_of_msg2 {p : Proof} (h : o.hasBody (.msg2 p) = true) : o.drawn = some p.eR := by
  cases o with
  | frame f => simp only [Output.drawn, Output.hasBody_frame h]
  | deliver | panic => cases h

theorem Secure.turn (h : Secure honest v log) {e : Event} (turn : Turn d e (v d) out u)
    (admits : Admits honest log e) :
    Secure honest (Function.update v d u) (log ++ out.map fun o => (d, o)) := by
  cases turn with
  | rest =>
    rw [Function.update_eq_self, List.map_nil, List.append_nil]
    exact h
  | dial _ peer pt x =>
    refine h.start rfl admits.1 rfl (fun tr phase => (by cases phase)) (fun _ => rfl) rfl
      (fun f pt isDelivery => (by cases isDelivery)) ?_
    refine ⟨?_, fun p body => (by cases Output.hasBody_frame body), fun c eq => (by cases eq),
      fun f pt isDelivery => (by cases isDelivery)⟩
    intro a dial y mem b eq
    obtain rfl := Option.some.inj dial
    exact admits.2 y mem b eq
  | respond _ f x sid eI free body =>
    refine h.start rfl admits.1 rfl (fun tr phase => (by cases phase)) (fun first => (by cases first)) rfl
      (fun f pt isDelivery => (by cases isDelivery)) ?_
    exact ⟨fun a dial => (by cases dial), fun p body => (by cases Output.hasBody_frame body),
      fun c eq => (by cases eq), fun f pt isDelivery => (by cases isDelivery)⟩
  | openI _ f x sid s eI eR found phase body =>
    have cell := h.cells d sid s found
    have own : s.own = eI := by simp only [Sess.own, phase]
    have first : s.initiator = true := by simp only [Sess.initiator, phase]
    have drawn : Drawn log eI := own ▸ cell.ownDrawn
    have entry : EntryOk honest log (d, .frame (finFrame d s.peer sid eI eR)) := by
      refine ⟨fun a dial => (by cases dial), ?_, fun c eq => (by cases eq),
        fun f pt isDelivery => (by cases isDelivery)⟩
      intro p isFin
      obtain rfl := Body.msg3.inj (Output.hasBody_frame isFin)
      exact drawn
    refine h.opens found (fun t isOpen => (by cases phase.symm.trans isOpen)) rfl rfl own.symm first.symm
      ⟨rfl, Nat.zero_le _, ?_⟩ (by simp [finFrame, Output.sealed]) (by simp [Output.opened]) (h.logOk.concat entry)
    intro trusted
    obtain ⟨-, injectable⟩ := admits
    rw [body] at injectable
    obtain ⟨y, mem, sent⟩ := injectable trusted
    exact ⟨drawn, y, mem, Output.drawn_of_msg2 sent⟩
  | openR _ f x sid s eI eR found phase body =>
    have cell := h.cells d sid s found
    have own : s.own = eR := by simp only [Sess.own, phase]
    have second : s.initiator = false := by simp only [Sess.initiator, phase]
    refine h.opens found (fun t isOpen => (by cases phase.symm.trans isOpen)) rfl rfl own.symm second.symm
      ⟨rfl, Nat.zero_le _, ?_⟩ (by simp) (by simp) (by simpa using h.logOk)
    intro trusted
    obtain ⟨-, injectable⟩ := admits
    rw [body] at injectable
    obtain ⟨y, mem, sent⟩ := injectable trusted
    exact ⟨h.logOk.finals y mem _ sent, own ▸ cell.ownDrawn⟩
  | receive _ f x sid s tr c out found phase peer named body fresh key ad which =>
    exact h.receives found phase peer named body fresh key ad which admits.2

theorem Secure.seals (h : Secure honest v log) (eq : v d = u)
    (seals : Seals d u out u') : Secure honest (Function.update v d u') (log ++ out.map fun o => (d, o)) := by
  induction seals generalizing v log with
  | nil u =>
    rw [← eq, Function.update_eq_self, List.map_nil, List.append_nil]
    exact h
  | panic u u' out _ ih =>
    have quiet : Secure honest v (log ++ [(d, .panic)]) := by
      have entry : EntryOk honest log (d, .panic) :=
        ⟨fun a dial => (by cases dial), fun p isFin => (by cases isFin), fun c eq => (by cases eq),
          fun f pt isDelivery => (by cases isDelivery)⟩
      refine ⟨?_, h.alone, h.logOk.concat entry⟩
      intro a b t found
      exact (h.cells a b t found).append _ (by simp [Output.sealed]) (by simp [Output.opened])
    have rest := ih quiet eq
    rwa [List.append_assoc] at rest
  | cons u u' out sid s tr pt found phase room _ ih =>
    have rest := ih (h.seals_one pt (eq ▸ found) phase room) (by rw [Session.put, Function.update_self, eq])
    rwa [Session.put, Function.update_idem, List.append_assoc] at rest

theorem update_restricts (sub : Restricts u u') (a : PeerKey) (b : SID) (t : Sess)
    (found : Function.update v d u' a b = some t) : Function.update v d u a b = some t := by
  by_cases actor : a = d
  · subst actor
    rw [Function.update_self] at found ⊢
    exact sub b t found
  · rw [Function.update_of_ne actor] at found ⊢
    exact found

theorem Secure.reaction (h : Secure honest v log) {e : Event} (reaction : Reaction d e (v d) out u)
    (admits : Admits honest log e) :
    Secure honest (Function.update v d u) (log ++ out.map fun o => (d, o)) := by
  obtain ⟨u₁, u₂, u₃, turned, sealed, before, turn, seals, after, rfl⟩ := reaction
  have start : Secure honest (Function.update v d u₁) log := by
    apply h.restrict
    intro a b t found
    have old := update_restricts before a b t found
    rwa [Function.update_eq_self] at old
  have afterTurn := start.turn (d := d) (by rwa [Function.update_self]) admits
  have afterSeals := afterTurn.seals (d := d) (Function.update_self ..) seals
  rw [Function.update_idem, Function.update_idem, List.append_assoc, ← List.map_append] at afterSeals
  exact afterSeals.restrict (update_restricts after)

end

/-! ## Runs -/

def Net.view (n : Net) : PeerKey → View := fun d => (n.managers d).view

theorem secure_newNet (honest : PeerKey → Bool) : Secure honest newNet.view newNet.log := by
  refine ⟨fun d sid s found => (by cases found), fun found => (by cases found), ?_⟩
  refine ⟨?_, fun x mem => (by cases mem), fun x mem => (by cases mem), fun x mem => (by cases mem), .nil, .nil⟩
  rintro d d' sid e e' ⟨x, mem, -⟩
  cases mem

theorem netStep_secure (w : PeerKey → World) {n : Net} {e : NetEvent} (h : Secure honest n.view n.log)
    (possible : Possible honest n e) :
    Secure honest (netStep w n e).view (netStep w n e).log := by
  have keyed : Keyed (n.managers e.daemon).sessions := fun sid s found => (h.cells e.daemon sid s found).keyed
  have views : (netStep w n e).view =
      Function.update n.view e.daemon (step (w e.daemon) e.daemon (n.managers e.daemon) e.event).view := by
    funext a
    by_cases actor : a = e.daemon
    · subst actor
      simp only [Net.view, netStep, Function.update_self]
    · simp only [Net.view, netStep, Function.update_of_ne actor]
  rw [views]
  exact h.reaction (react_reaction (w e.daemon) keyed e.event) possible.2

theorem run_secure (w : PeerKey → World) (es : List NetEvent)
    (possible : Follows (netStep w) (Possible honest) newNet es) :
    Secure honest (run (netStep w) newNet es).view (run (netStep w) newNet es).log :=
  run_invariant_of (motive := fun n : Net => Secure honest n.view n.log) (fun _ _ h ok => netStep_secure w h ok)
    (secure_newNet honest) possible

/-! ## What the handlers see -/

/-- The plaintexts from `p` that the handlers of `b` got on `sid`. -/
def delivered (log : Log) (b p : PeerKey) (sid : SID) : List Plaintext :=
  log.filterMap fun x =>
    match x.2 with
    | .deliver f pt => if x.1 = b ∧ f.fromKey = p ∧ f.sid = some sid then some pt else none
    | _ => none

/-- The plaintexts that `p` sealed for `b` on `sid`. -/
def sealedOn (log : Log) (p b : PeerKey) (sid : SID) : List Plaintext :=
  log.filterMap fun x =>
    match x.2 with
    | .frame f => if x.1 = p ∧ f.toKey = b ∧ f.sid = some sid then x.2.sealed.map fun c => c.pt else none
    | _ => none

/-- Of the ciphertexts `cs`, those from `p` to `b` on `sid`. -/
def between (p b : PeerKey) (sid : SID) (cs : List Ciphertext) : List Ciphertext :=
  cs.filter fun c => c.ad.fromKey = p ∧ c.ad.toKey = b ∧ c.ad.sid = sid

section

variable {honest : PeerKey → Bool} {log : Log}

theorem delivered_eq (ok : LogOk honest log) (b p : PeerKey) (sid : SID) :
    delivered log b p sid = (between p b sid (log.filterMap fun x => x.2.opened)).map fun c => c.pt := by
  simp only [delivered, between, List.filter_filterMap, List.map_filterMap]
  apply List.filterMap_congr
  rintro ⟨d, o⟩ mem
  cases o with
  | frame | panic => rfl
  | deliver f pt =>
    obtain ⟨c, opened⟩ := ok.opens _ mem f pt rfl
    obtain rfl := opened.text
    have carried : (Output.deliver f c.pt).opened = some c := opened.opened rfl
    have receiver : c.ad.toKey = d := opened.ad
    simp only [carried, opened.sender, opened.session, receiver, Option.some.injEq, Option.filter_some,
      decide_eq_true_eq, and_left_comm]
    split <;> rfl

theorem sealedOn_eq (ok : LogOk honest log) (p b : PeerKey) (sid : SID) :
    sealedOn log p b sid = (between p b sid (log.filterMap fun x => x.2.sealed)).map fun c => c.pt := by
  simp only [sealedOn, between, List.filter_filterMap, List.map_filterMap]
  apply List.filterMap_congr
  rintro ⟨d, o⟩ mem
  cases o with
  | deliver | panic => rfl
  | frame f =>
    cases eq : (Output.frame f).sealed with
    | none => simp
    | some c =>
      have was := ok.seals _ mem c eq
      have shape : f = dataFrame d c.ad.toKey c.ad.sid c := Output.frame.inj was.frame
      have toKey : f.toKey = c.ad.toKey := by rw [shape]; rfl
      have session : f.sid = some c.ad.sid := by rw [shape]; rfl
      have sender : c.ad.fromKey = d := was.ad
      simp only [toKey, session, sender, Option.some.injEq, Option.map_some, Option.filter_some, decide_eq_true_eq]
      split <;> rfl

variable {cs : List Ciphertext} {own : Key → Ephemeral} {b p : PeerKey} {c : Ciphertext} {sid : SID}

theorem Ordered.key_eq (h : Ordered own cs) {a b : Ciphertext}
    (mem : a ∈ cs) (mem' : b ∈ cs) (same : own a.key = own b.key) : a.key = b.key := by
  have symmetric : Std.Symm fun a b : Ciphertext => own a.key = own b.key → a.key = b.key :=
    ⟨fun _ _ one eq => (one eq.symm).symm⟩
  have keys : cs.Pairwise fun a b => own a.key = own b.key → a.key = b.key := h.imp fun both eq => (both eq).1
  exact keys.forall_of_forall (fun _ _ _ => rfl) mem mem' same

/-- By the counter. -/
def Ciphertext.before (a b : Ciphertext) : Prop := a.counter < b.counter

instance : Std.Irrefl Ciphertext.before := ⟨fun a => Nat.lt_irrefl a.counter⟩

instance : Std.Antisymm Ciphertext.before := ⟨fun _ _ one two => absurd one (Nat.lt_asymm two)⟩

/-- Ciphertexts of one key are in the order of their counters. -/
theorem Ordered.before {part : List Ciphertext} (h : Ordered own cs)
    (sub : part.Sublist cs) {k : Key} (keys : ∀ c ∈ part, c.key = k) : part.Pairwise Ciphertext.before := by
  refine (h.sublist sub).imp_of_mem ?_
  intro a b mem mem' both
  exact (both (by rw [keys a mem, keys b mem'])).2

/-- What `b` opened from an honest peer was sealed by it, and one of the two dialed the session. -/
theorem opened_origin (ok : LogOk honest log) (trusted : honest p = true)
    (mem : c ∈ between p b sid (log.filterMap fun x => x.2.opened)) :
    c ∈ (log.filterMap fun x => x.2.sealed) ∧ (c.key.toResponder = false → Dialed log b sid c.key.eI) ∧
      (c.key.toResponder = true → Dialed log p sid c.key.eI) := by
  obtain ⟨listed, fits⟩ := List.mem_filter.mp mem
  obtain ⟨fromP, toB, onSid⟩ := of_decide_eq_true fits
  obtain ⟨x, logged, eq⟩ := List.mem_filterMap.mp listed
  obtain ⟨f, pt, isDelivery⟩ := Output.opened_of_deliver eq
  obtain ⟨c', opened⟩ := ok.opens x logged f pt isDelivery
  obtain rfl := Option.some.inj ((opened.opened isDelivery).symm.trans eq)
  obtain ⟨y, sent, was⟩ := opened.wasSealed (by rw [opened.sender, fromP]; exact trusted)
  have sealed := ok.seals y sent _ was
  refine ⟨List.mem_filterMap.mpr ⟨y, sent, was⟩, ?_, ?_⟩
  · intro dir
    have dialed := opened.dialed dir
    rwa [← opened.ad, toB, onSid] at dialed
  · intro dir
    have dialed := sealed.dialed dir
    rwa [← sealed.ad, fromP, onSid] at dialed

/-- All that `b` opened from an honest peer on one session ID is under one key. The peer, or
`b` itself, drew that ID once. -/
theorem one_key (ok : LogOk honest log) (trusted : honest p = true) (other : p ≠ b)
    {c' : Ciphertext} (mem : c ∈ between p b sid (log.filterMap fun x => x.2.opened))
    (mem' : c' ∈ between p b sid (log.filterMap fun x => x.2.opened)) : c.key = c'.key := by
  obtain ⟨sealed, asResponder, asInitiator⟩ := opened_origin ok trusted mem
  obtain ⟨sealed', asResponder', asInitiator'⟩ := opened_origin ok trusted mem'
  cases dir : c.key.toResponder <;> cases dir' : c'.key.toResponder
  · -- `b` dialed both: one ephemeral of `b`, so one key
    obtain ⟨-, same⟩ := ok.dialOnce (asResponder dir) (asResponder' dir')
    have own : c.key.flip.own = c'.key.flip.own := by simp [Key.flip, Key.own, dir, dir', same]
    exact ok.openedOrder.key_eq (List.mem_of_mem_filter mem) (List.mem_of_mem_filter mem') own
  · exact absurd (ok.dialOnce (asInitiator' dir') (asResponder dir)).1 other
  · exact absurd (ok.dialOnce (asInitiator dir) (asResponder' dir')).1 other
  · obtain ⟨-, same⟩ := ok.dialOnce (asInitiator dir) (asInitiator' dir')
    have own : c.key.own = c'.key.own := by simp [Key.own, dir, dir', same]
    exact ok.sealedOrder.key_eq sealed sealed' own

theorem opened_sublist (ok : LogOk honest log) (trusted : honest p = true)
    (other : p ≠ b) : (between p b sid (log.filterMap fun x => x.2.opened)).Sublist
      (between p b sid (log.filterMap fun x => x.2.sealed)) := by
  cases eq : between p b sid (log.filterMap fun x => x.2.opened) with
  | nil => exact List.nil_sublist _
  | cons first rest =>
    rw [← eq]
    have keys : ∀ c ∈ between p b sid (log.filterMap fun x => x.2.opened), c.key = first.key :=
      fun c mem => one_key ok trusted other mem (eq ▸ List.mem_cons_self)
    have sub : between p b sid (log.filterMap fun x => x.2.opened) ⊆
        (between p b sid (log.filterMap fun x => x.2.sealed)).filter fun c => c.key = first.key := by
      intro c mem
      refine List.mem_filter.mpr ⟨List.mem_filter.mpr ⟨?_, (List.mem_filter.mp mem).2⟩, decide_eq_true (keys c mem)⟩
      exact (opened_origin ok trusted mem).1
    have increasing := ok.openedOrder.before List.filter_sublist keys
    have increasing' : ((between p b sid (log.filterMap fun x => x.2.sealed)).filter
        fun c => c.key = first.key).Pairwise Ciphertext.before :=
      ok.sealedOrder.before (List.filter_sublist.trans List.filter_sublist) fun c mem =>
        of_decide_eq_true (List.mem_filter.mp mem).2
    exact (List.sublist_of_subperm_of_pairwise (List.subperm_of_subset increasing.nodup sub) increasing
      increasing').trans List.filter_sublist

end

/-- No counter is used twice under one key, and the last one not at all. -/
def NoReuse (log : Log) : Prop :=
  (log.filterMap fun x => x.2.sealed).Pairwise (fun a b => a.key = b.key → a.counter ≠ b.counter) ∧
    ∀ c ∈ log.filterMap fun x => x.2.sealed, c.counter < maxUint64

/-- Data frames that do not open leave daemon `b` as it is. -/
def FailedOpenInert (w : World) (b : PeerKey) (m : Manager) : Prop :=
  ∀ (f : Frame) (x : Inputs) (sid : SID) (s : Sess) (tr : Transport) (n : Nat) (ct : Option Ciphertext)
    (err : Transport.OpenError), f.type = .data → f.sid = some sid → f.body = .data n ct →
    m.sessions.lookup sid = some s → s.phase = .established tr →
    tr.open n (dataAD f.fromKey b s.sid n) ct = .error err → react w b m (.receive f x) = (m, [])

theorem failed_open_inert (w : World) (b : PeerKey) (m : Manager) : FailedOpenInert w b m := by
  intro f x sid s tr n ct err isData named body found phase failed
  simp only [react, handle, isData, named, onData, body, found, phase, failed]
  split
  · rfl
  · split <;> rfl

theorem noReuse (ok : LogOk honest log) : NoReuse log := by
  constructor
  · refine ok.sealedOrder.imp ?_
    intro a b both same
    exact ((both (by rw [same])).2).ne
  · intro c mem
    obtain ⟨x, logged, eq⟩ := List.mem_filterMap.mp mem
    exact (ok.seals x logged c eq).room

/-- Whatever the network does: what the handlers of `b` get from an honest peer on one session
ID is a subsequence of what that peer sealed for it there. -/
theorem session_data_subsequence (w : PeerKey → World) (honest : PeerKey → Bool) (es : List NetEvent)
    (possible : Follows (netStep w) (Possible honest) newNet es) : (∀ b p sid, honest p = true → p ≠ b →
      (delivered (run (netStep w) newNet es).log b p sid).Sublist
        (sealedOn (run (netStep w) newNet es).log p b sid)) ∧
      NoReuse (run (netStep w) newNet es).log ∧
      ∀ b, FailedOpenInert (w b) b ((run (netStep w) newNet es).managers b) := by
  have ok := (run_secure w es possible).logOk
  refine ⟨?_, noReuse ok, fun b => failed_open_inert (w b) b _⟩
  intro b p sid trusted other
  rw [delivered_eq ok, sealedOn_eq ok]
  exact (opened_sublist ok trusted other).map _

/-! A conversation: `a` dials `b`, and the network replays, holds back and relabels. -/

instance (log : Log) (e : Ephemeral) : Decidable (Drawn log e) :=
  inferInstanceAs (Decidable (∃ x ∈ log, x.2.drawn = some e))

instance (honest : PeerKey → Bool) (log : Log) : (body : Body) → Decidable (Injectable honest log body)
  | .msg2 p => inferInstanceAs (Decidable (honest p.author → ∃ x ∈ log, x.2.hasBody (.msg2 p)))
  | .msg3 p => inferInstanceAs (Decidable (honest p.author → ∃ x ∈ log, x.2.hasBody (.msg3 p)))
  | .data _ (some c) => inferInstanceAs (Decidable
      ((∃ x ∈ log, x.2.sealed = some c) ∨ ¬(Drawn log c.key.eI ∧ Drawn log c.key.eR)))
  | .data _ none | .msg1 _ | .short => inferInstanceAs (Decidable True)

instance (honest : PeerKey → Bool) (log : Log) : (e : Event) → Decidable (Admits honest log e)
  | .send _ _ x => inferInstanceAs (Decidable (¬Drawn log x.ephemeral ∧ ∀ y ∈ log, ∀ a ∈ y.2.dial, a.1 ≠ x.sid))
  | .receive f x => inferInstanceAs (Decidable (¬Drawn log x.ephemeral ∧ Injectable honest log f.body))
  | .sendData _ _ | .error _ | .drop _ | .dropGated _ | .sweep _ => inferInstanceAs (Decidable True)

instance (honest : PeerKey → Bool) (n : Net) (e : NetEvent) : Decidable (Possible honest n e) :=
  inferInstanceAs (Decidable (_ ∧ _))

def chatWorld : World := ⟨fun _ => some "chat", id, fun _ => true⟩

def chatData (sid : SID) (n : Nat) (pt : Plaintext) : NetEvent :=
  ⟨"b", .receive ⟨"a", "b", .data, some sid, .data n (some ⟨⟨100, 200, true⟩, n, dataAD "a" "b" 1 n, pt⟩)⟩
    { ephemeral := 300 + n }⟩

/-- The second message never arrives, the first comes twice and once under another ID. -/
def chat : List NetEvent :=
  [⟨"a", .send "b" "one" { sid := 1, ephemeral := 100 }⟩,
    ⟨"b", .receive (dialFrame "a" "b" 1 100) { ephemeral := 200 }⟩,
   ⟨"a", .receive (respFrame "b" "a" 1 100 200) { ephemeral := 201 }⟩,
   ⟨"b", .receive (finFrame "a" "b" 1 100 200) { ephemeral := 202 }⟩,
   ⟨"a", .send "b" "two" { sid := 2, ephemeral := 203 }⟩,
   ⟨"a", .send "b" "three" { sid := 2, ephemeral := 203 }⟩,
   chatData 1 0 "one", chatData 1 0 "one", chatData 2 0 "one", chatData 1 2 "three", chatData 1 0 "one"]

theorem chat_subsequence : Follows (netStep fun _ => chatWorld) (Possible fun _ => true) newNet chat ∧
      delivered (run (netStep fun _ => chatWorld) newNet chat).log "b" "a" 1 = ["one", "three"] ∧
      (delivered (run (netStep fun _ => chatWorld) newNet chat).log "b" "a" 1).Sublist
        (sealedOn (run (netStep fun _ => chatWorld) newNet chat).log "a" "b" 1) :=
  have possible : Follows (netStep fun _ => chatWorld) (Possible fun _ => true) newNet chat := by decide +kernel
  ⟨possible, by decide +kernel,
    (session_data_subsequence (fun _ => chatWorld) (fun _ => true) chat possible).1 "b" "a" 1 rfl (by decide)⟩

end Agentnet.Session
