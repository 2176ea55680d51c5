import Agentnet.Session.Manager

/-! The three maps of the manager agree, and no send meets a session that is missing or not
open. Both rest on `openLocked` not evicting the session it has just opened. -/

namespace Agentnet.Session

open Lib

/-- The session of `peer` under `sid` is open. -/
def OpenAt (m : Manager) (peer : PeerKey) (sid : SID) : Prop :=
  ∃ s tr, m.sessions.lookup sid = some s ∧ s.phase = .established tr ∧ s.peer = peer

/-- Our own handshake with `peer` under `sid` is in progress. -/
def DialingAt (m : Manager) (peer : PeerKey) (sid : SID) : Prop :=
  ∃ s eI, m.sessions.lookup sid = some s ∧ s.phase = .initiated eI ∧ s.peer = peer

/-- The invariant of the manager's maps. -/
structure Consistent (m : Manager) : Prop where
  keyed : Keyed m.sessions
  current : ∀ p sid, m.current p = some sid → OpenAt m p sid
  dialing : ∀ p sid, m.dialing p = some sid → DialingAt m p sid
  openCap : ∀ p, Dict.count m.sessions (fun _ s => s.isOpen p) ≤ maxOpenPerPeer
  pendingCap : ∀ p, Dict.count m.sessions (fun _ s => s.isPending p) ≤ maxPendingPerPeer

theorem consistent_newManager : Consistent newManager := by
  constructor
  · intro sid s found
    cases found
  · intro p sid h
    cases h
  · intro p sid h
    cases h
  · intro p
    exact Nat.zero_le _
  · intro p
    exact Nat.zero_le _

variable {p : PeerKey} {s : Sess} {tr : Transport} {e : Ephemeral} {m : Manager}

theorem Sess.isOpen_established (h : s.phase = .established tr) :
    s.isOpen p = decide (s.peer = p) ∧ s.isPending p = false := by
  simp only [Sess.isOpen, Sess.isPending, h, and_self]

theorem Sess.isOpen_initiated (h : s.phase = .initiated e) : s.isOpen p = false ∧ s.isPending p = false := by
  simp only [Sess.isOpen, Sess.isPending, h, and_self]

theorem Sess.isPending_responded {e' : Ephemeral} (h : s.phase = .responded e e') :
    s.isPending p = decide (s.peer = p) ∧ s.isOpen p = false := by
  simp only [Sess.isOpen, Sess.isPending, h, and_self]

/-- `delete(m.current, peer)` when it names `sid`: as only `peer` could have it there, no slot
names it afterwards. -/
theorem slot_cleared {slot : PeerKey → Option SID} {peer : PeerKey} {sid a : SID}
    (owner : ∀ q, slot q = some sid → q = peer)
    (left : (if slot peer = some sid then Function.update slot peer none else slot) p = some a) :
    slot p = some a ∧ a ≠ sid := by
  split at left
  · by_cases mine : p = peer
    · subst mine
      rw [Function.update_self] at left
      cases left
    · rw [Function.update_of_ne mine] at left
      refine ⟨left, ?_⟩
      rintro rfl
      exact mine (owner p left)
  · next other =>
    refine ⟨left, ?_⟩
    rintro rfl
    obtain rfl := owner p left
    exact other left

/-! ## One change of the maps -/

section

variable {m : Manager} {self : PeerKey}

theorem Consistent.withQueue (h : Consistent m) (q : PeerKey → List Plaintext) :
    Consistent { m with queue := q } := { h with }

variable {s : Sess} {sid : SID}

theorem Consistent.current_owner (h : Consistent m)
    (found : m.sessions.lookup sid = some s) (p : PeerKey) (cur : m.current p = some sid) : p = s.peer := by
  obtain ⟨o, t, at_sid, -, own⟩ := h.current p sid cur
  obtain rfl := Option.some.inj (found.symm.trans at_sid)
  exact own.symm

theorem Consistent.dialing_owner (h : Consistent m)
    (found : m.sessions.lookup sid = some s) (p : PeerKey) (dial : m.dialing p = some sid) : p = s.peer := by
  obtain ⟨o, e, at_sid, -, own⟩ := h.dialing p sid dial
  obtain rfl := Option.some.inj (found.symm.trans at_sid)
  exact own.symm

theorem Consistent.counters (h : Consistent m) {tr : Transport} (tr' : Transport)
    (found : m.sessions.lookup sid = some s) (phase : s.phase = .established tr) :
    Consistent { m with sessions := m.sessions.insert sid { s with phase := .established tr' } } := by
  have alike : ∀ p, Sess.isOpen p { s with phase := .established tr' } = s.isOpen p ∧
      Sess.isPending p { s with phase := .established tr' } = s.isPending p := by
    intro p
    simp only [Sess.isOpen, Sess.isPending, phase, and_self]
  constructor
  · exact h.keyed.insert (h.keyed sid s found)
  · intro p a cur
    obtain ⟨o, t, at_a, isOpen, own⟩ := h.current p a cur
    by_cases same : a = sid
    · subst same
      obtain rfl := Option.some.inj (found.symm.trans at_a)
      exact ⟨_, tr', AList.lookup_insert _, rfl, own⟩
    · exact ⟨o, t, (AList.lookup_insert_ne same).trans at_a, isOpen, own⟩
  · intro p a dial
    obtain ⟨o, e, at_a, running, own⟩ := h.dialing p a dial
    have ne : a ≠ sid := by
      rintro rfl
      obtain rfl := Option.some.inj (found.symm.trans at_a)
      rw [phase] at running
      cases running
    exact ⟨o, e, (AList.lookup_insert_ne ne).trans at_a, running, own⟩
  · intro p
    exact (Dict.count_insert_same found (alike p).1).trans_le (h.openCap p)
  · intro p
    exact (Dict.count_insert_same found (alike p).2).trans_le (h.pendingCap p)

/-- And one that is dropped. -/
theorem Consistent.drop (h : Consistent m) (sid : SID) : Consistent (dropLocked m sid) := by
  unfold dropLocked
  split
  · exact h
  · next s found =>
    constructor
    · exact h.keyed.erase sid
    · intro p a cur
      have kept := slot_cleared (h.current_owner found) cur
      obtain ⟨o, t, at_a, isOpen, own⟩ := h.current p a kept.1
      exact ⟨o, t, (AList.lookup_erase_ne kept.2).trans at_a, isOpen, own⟩
    · intro p a dial
      have kept := slot_cleared (h.dialing_owner found) dial
      obtain ⟨o, e, at_a, running, own⟩ := h.dialing p a kept.1
      exact ⟨o, e, (AList.lookup_erase_ne kept.2).trans at_a, running, own⟩
    · intro p
      exact Dict.count_erase_le.trans (h.openCap p)
    · intro p
      exact Dict.count_erase_le.trans (h.pendingCap p)

theorem Consistent.dropAll (h : Consistent m) (sids : List SID) : Consistent (sids.foldl dropLocked m) := by
  induction sids generalizing m with
  | nil => exact h
  | cons sid sids ih => exact ih (h.drop sid)

/-- An error frame keeps the manager consistent. -/
theorem Consistent.error (h : Consistent m) (peer : PeerKey) : Consistent (handleError m peer) := by
  unfold handleError
  split
  · exact h
  · exact h.drop _

/-- So does a new session, if the peer has room for it. -/
theorem Consistent.fresh (h : Consistent m) (free : m.sessions.lookup sid = none) (own : s.sid = sid)
    (notOpen : ∀ p, s.isOpen p = false)
    (room : ∀ p, s.isPending p = true → Dict.count m.sessions (fun _ s => s.isPending p) < maxPendingPerPeer) :
    Consistent { m with sessions := m.sessions.insert sid s } := by
  have ne : ∀ {a : SID} {o : Sess}, m.sessions.lookup a = some o → a ≠ sid := by
    rintro a o found rfl
    rw [free] at found
    cases found
  constructor
  · exact h.keyed.insert own
  · intro p a cur
    obtain ⟨o, t, at_a, rest⟩ := h.current p a cur
    exact ⟨o, t, (AList.lookup_insert_ne (ne at_a)).trans at_a, rest⟩
  · intro p a dial
    obtain ⟨o, e, at_a, rest⟩ := h.dialing p a dial
    exact ⟨o, e, (AList.lookup_insert_ne (ne at_a)).trans at_a, rest⟩
  · intro p
    rw [Dict.count_insert, notOpen p, if_neg Bool.false_ne_true]
    exact Dict.count_erase_le.trans (h.openCap p)
  · intro p
    have less : Dict.count (m.sessions.erase sid) (fun _ s => s.isPending p) ≤ _ := Dict.count_erase_le
    rw [Dict.count_insert]
    split
    · next pending => exact (Nat.succ_le_succ less).trans (room p pending)
    · exact less.trans (h.pendingCap p)

theorem Consistent.limitPending (h : Consistent m) (peer : PeerKey) (order : Nat → List SID) :
    Consistent (limitPendingLocked m peer order) := by
  have cut : Trimmed (Sess.isPending peer) _ m.sessions (limitPendingLocked m peer order).sessions :=
    trimAll_trimmed h.keyed
  constructor
  · intro sid s found
    exact h.keyed sid s (cut.sub sid s found)
  · intro p a cur
    obtain ⟨o, t, at_a, isOpen, own⟩ := h.current p a cur
    exact ⟨o, t, cut.kept a o at_a (Sess.isOpen_established isOpen).2, isOpen, own⟩
  · intro p a dial
    obtain ⟨o, e, at_a, running, own⟩ := h.dialing p a dial
    exact ⟨o, e, cut.kept a o at_a (Sess.isOpen_initiated running).2, running, own⟩
  · intro p
    exact (cut.fewer _).trans (h.openCap p)
  · intro p
    exact (cut.fewer _).trans (h.pendingCap p)

end

/-! ## Opening -/

/-- The session that opens now is not the one that goes: there is room for it, or some open
session of the peer is strictly older. -/
def TieFree (m : Manager) (peer : PeerKey) (now : Time) : Prop :=
  Dict.count m.sessions (fun _ s => s.isOpen peer) < maxOpenPerPeer ∨
    ∃ sid s, m.sessions.lookup sid = some s ∧ s.isOpen peer = true ∧ s.opened < now

section

variable {m : Manager} {self : PeerKey} {s : Sess} {tr : Transport} {now : Time} {order : Nat → List SID}

theorem openLocked_lookup (h : Consistent m) (found : m.sessions.lookup s.sid = some s)
    (running : ∀ p, s.isOpen p = false) (free : TieFree m s.peer now) :
    (openLocked m s tr now order).sessions.lookup s.sid =
      some { s with phase := .established tr, opened := now } := by
  have keyed : Keyed (m.sessions.insert s.sid { s with phase := .established tr, opened := now }) :=
    h.keyed.insert rfl
  have added : Dict.count (m.sessions.insert s.sid { s with phase := .established tr, opened := now })
      (fun _ o => o.isOpen s.peer) = Dict.count m.sessions (fun _ o => o.isOpen s.peer) + 1 := by
    rw [Dict.count_insert, Dict.count_of_lookup found, running s.peer]
    simp [Sess.isOpen]
  apply trimAll_keeps_newer keyed (AList.lookup_insert _)
  · rw [added]
    exact Nat.succ_le_succ (h.openCap s.peer)
  · rw [added]
    obtain room | ⟨a, o, at_a, isOpen, before⟩ := free
    · exact .inl room
    · refine .inr ⟨a, o, ?_, isOpen, before⟩
      have ne : a ≠ s.sid := by
        rintro rfl
        obtain rfl := Option.some.inj (found.symm.trans at_a)
        rw [running] at isOpen
        cases isOpen
      exact (AList.lookup_insert_ne ne).trans at_a

theorem Consistent.opens (h : Consistent m) (found : m.sessions.lookup s.sid = some s)
    (running : ∀ p, s.isOpen p = false) (free : TieFree m s.peer now) : Consistent (openLocked m s tr now order) := by
  have stays : (openLocked m s tr now order).sessions.lookup s.sid = _ := openLocked_lookup h found running free
  have keyed : Keyed (m.sessions.insert s.sid { s with phase := .established tr, opened := now }) :=
    h.keyed.insert rfl
  have cut : Trimmed (Sess.isOpen s.peer) maxOpenPerPeer _ (openLocked m s tr now order).sessions :=
    trimAll_trimmed keyed
  constructor
  · intro sid o at_sid
    exact keyed sid o (cut.sub sid o at_sid)
  · intro p a cur
    by_cases mine : p = s.peer
    · subst mine
      obtain rfl : s.sid = a := by simpa [openLocked] using cur
      exact ⟨_, tr, stays, rfl, rfl⟩
    · have old : m.current p = some a := by simpa [openLocked, mine] using cur
      obtain ⟨o, t, at_a, isOpen, own⟩ := h.current p a old
      have ne : a ≠ s.sid := by
        rintro rfl
        obtain rfl := Option.some.inj (found.symm.trans at_a)
        exact mine own.symm
      refine ⟨o, t, cut.kept a o ((AList.lookup_insert_ne ne).trans at_a) ?_, isOpen, own⟩
      rw [(Sess.isOpen_established isOpen).1, own, decide_eq_false mine]
  · intro p a dial
    have old := slot_cleared (h.dialing_owner found) dial
    obtain ⟨o, e, at_a, running, own⟩ := h.dialing p a old.1
    exact ⟨o, e, cut.kept a o ((AList.lookup_insert_ne old.2).trans at_a) (Sess.isOpen_initiated running).1,
      running, own⟩
  · intro p
    by_cases mine : p = s.peer
    · exact mine ▸ cut.bound
    · refine (cut.fewer _).trans ?_
      rw [Dict.count_insert]
      have other : Sess.isOpen p { s with phase := .established tr, opened := now } = false := by
        simpa [Sess.isOpen] using fun same => mine same.symm
      rw [other, if_neg Bool.false_ne_true]
      exact Dict.count_erase_le.trans (h.openCap p)
  · intro p
    refine (cut.fewer _).trans ?_
    rw [Dict.count_insert]
    exact Dict.count_erase_le.trans (h.pendingCap p)

end

/-! ## Handlers -/

/-- What a handler leaves: consistent maps, and no panic on the way. -/
def Sound (r : Manager × List Output) : Prop := Consistent r.1 ∧ Output.panic ∉ r.2

theorem Sound.quiet (h : Consistent m) : Sound (m, []) := ⟨h, List.not_mem_nil⟩

theorem Sound.frame (h : Consistent m) (f : Frame) : Sound (m, [.frame f]) := ⟨h, by simp⟩

theorem sealLocked_established (self : PeerKey) (pt : Plaintext) (phase : s.phase = .established tr) :
    sealLocked self pt (some s) = .exhausted ∨
    ∃ tr' f, sealLocked self pt (some s) = .sealed { s with phase := .established tr' } f := by
  simp only [sealLocked, phase]
  split
  · exact .inl rfl
  · exact .inr ⟨_, _, rfl⟩

theorem sealAll_established (self : PeerKey) (pts : List Plaintext) (phase : s.phase = .established tr) :
    (∃ tr', (sealAll self s pts).1 = { s with phase := .established tr' }) ∧
    Output.panic ∉ (sealAll self s pts).2 := by
  induction pts generalizing s tr with
  | nil => exact ⟨⟨tr, by simp only [sealAll, ← phase]⟩, List.not_mem_nil⟩
  | cons pt pts ih =>
    obtain stopped | ⟨tr', f, sealed⟩ := sealLocked_established self pt phase
    · simp only [sealAll, stopped]
      exact ⟨⟨tr, by rw [← phase]⟩, List.not_mem_nil⟩
    · obtain ⟨⟨last, rest⟩, safe⟩ := ih (s := { s with phase := .established tr' }) rfl
      simp only [sealAll, sealed]
      refine ⟨⟨last, rest⟩, ?_⟩
      intro mem
      obtain first | later := List.mem_cons.mp mem
      · cases first
      · exact safe later

section

variable {m : Manager} {self : PeerKey}

variable {p : PeerKey} {sid : SID} {x : Inputs}

theorem Consistent.sealOn (h : Consistent m) (isOpen : OpenAt m p sid) (pt : Plaintext) :
    Sound (sealOn self m sid pt) := by
  obtain ⟨s, tr, found, phase, -⟩ := isOpen
  obtain stopped | ⟨tr', f, sealed⟩ := sealLocked_established self pt phase
  · simp only [Session.sealOn, found, stopped]
    exact .quiet h
  · simp only [Session.sealOn, found, sealed]
    exact .frame (h.counters tr' found phase) f

theorem Consistent.flush (h : Consistent m) {s : Sess} {tr : Transport} (found : m.sessions.lookup s.sid = some s)
    (phase : s.phase = .established tr) : Sound (flush self m s) := by
  obtain ⟨⟨tr', last⟩, safe⟩ := sealAll_established self (m.queue s.peer) phase
  refine ⟨?_, safe⟩
  have here : s.sid ∈ m.sessions := AList.lookup_isSome.mp (by rw [found]; rfl)
  simp only [Session.flush, here, if_true, last]
  exact (h.counters tr' found phase).withQueue _

theorem Consistent.prepareApp (h : Consistent m) (peer : PeerKey) (pt : Plaintext)
    (free : x.sid ∉ m.sessions) : Sound (prepareApp self m peer pt x) := by
  unfold Session.prepareApp
  split
  · next sid cur => exact h.sealOn (h.current peer sid cur) pt
  · split
    · exact .quiet h
    · dsimp only
      split
      · exact .quiet (h.withQueue _)
      · split
        · exact .quiet (h.withQueue _)
        · refine .frame ?_ _
          have absent : m.sessions.lookup x.sid = none := AList.lookup_eq_none.mpr free
          have added := h.fresh (s := ⟨x.sid, peer, .initiated x.ephemeral, x.now, 0⟩) absent rfl
            (fun _ => rfl) (fun _ pending => by cases pending)
          refine { added with dialing := ?_ }
          intro p a dial
          by_cases mine : p = peer
          · subst mine
            obtain rfl : x.sid = a := by simpa using dial
            exact ⟨_, x.ephemeral, AList.lookup_insert _, rfl, rfl⟩
          · exact added.dialing p a (by simpa [mine] using dial)

theorem Consistent.sealCurrent (h : Consistent m) (peer : PeerKey) (pt : Plaintext) :
    Sound (sealCurrent self m peer pt) := by
  unfold Session.sealCurrent
  split
  · exact .quiet h
  · next sid cur => exact h.sealOn (h.current peer sid cur) pt

theorem Consistent.onInit (h : Consistent m) (peer : PeerKey) (sid : SID) (body : Body) (x : Inputs) :
    Sound (onInit self m peer sid body x) := by
  unfold Session.onInit
  split
  · exact .quiet h
  · split
    · exact .quiet h
    · next unknown =>
      have limited := h.limitPending peer x.order
      have cut : Trimmed (Sess.isPending peer) (maxPendingPerPeer - 1) m.sessions
          (limitPendingLocked m peer x.order).sessions := trimAll_trimmed h.keyed
      dsimp only
      split
      · next e _ =>
        refine .frame
          (limited.fresh (s := ⟨sid, peer, .responded e x.ephemeral, x.now, 0⟩) ?_ rfl (fun _ => rfl) ?_) _
        · cases found : (limitPendingLocked m peer x.order).sessions.lookup sid with
          | none => rfl
          | some s => cases (AList.lookup_eq_none.mpr unknown).symm.trans (cut.sub sid s found)
        · intro p pending
          obtain rfl : peer = p := of_decide_eq_true pending
          exact Nat.lt_succ_of_le cut.bound
      · exact .quiet limited

theorem Consistent.openAndFlush (h : Consistent m) (self : PeerKey) (tr : Transport) {s : Sess}
    (found : m.sessions.lookup sid = some s) (running : ∀ p, s.isOpen p = false) (free : TieFree m s.peer x.now) :
    Sound (Session.flush self
      (openLocked m s tr x.now x.order) { s with phase := .established tr, opened := x.now }) := by
  obtain rfl := h.keyed sid s found
  have stays : (openLocked m s tr x.now x.order).sessions.lookup s.sid = _ := openLocked_lookup h found running free
  exact (h.opens found running free).flush stays rfl

theorem Consistent.onResp (h : Consistent m) (peer : PeerKey) (sid : SID) (body : Body)
    (free : TieFree m peer x.now) : Sound (onResp self m peer sid body x) := by
  unfold Session.onResp
  split
  · exact .quiet h
  · next s found =>
    split
    · exact .quiet h
    · next own =>
      obtain rfl := not_not.mp own
      split
      · exact .quiet h
      · exact .quiet h
      · next eI phase =>
        split
        · exact .quiet (h.drop sid)
        · next eR accepted =>
          split
          · exact .quiet (h.drop sid)
          · obtain ⟨after, safe⟩ :=
              h.openAndFlush self (newTransport true eI eR) found (fun _ => (Sess.isOpen_initiated phase).1) free
            refine ⟨after, ?_⟩
            intro mem
            obtain first | later := List.mem_cons.mp mem
            · cases first
            · exact safe later

theorem Consistent.onFin (h : Consistent m) (peer : PeerKey) (sid : SID) (body : Body)
    (free : TieFree m peer x.now) : Sound (onFin self m peer sid body x) := by
  unfold Session.onFin
  split
  · exact .quiet h
  · next s found =>
    split
    · exact .quiet h
    · next own =>
      obtain rfl := not_not.mp own
      split
      · exact .quiet h
      · exact .quiet h
      · next eI eR phase =>
        split
        · exact h.openAndFlush self _ found (fun _ => (Sess.isPending_responded phase).2) free
        · exact .quiet (h.drop sid)

theorem Consistent.handlePlaintext (h : Consistent m) (w : World) (f : Frame) (pt : Plaintext) (x : Inputs)
    (isOpen : OpenAt m p sid) : Sound (handlePlaintext w self m f sid pt x) := by
  unfold Session.handlePlaintext
  split
  · exact .quiet h
  · split
    · exact h.sealOn isOpen _
    · exact .quiet h
  · exact .quiet h
  · split
    · exact .quiet h
    · split
      · exact ⟨h, by simp⟩
      · exact .quiet h

theorem Consistent.onData (h : Consistent m) (w : World) (f : Frame) (sid : SID) (x : Inputs) :
    Sound (onData w self m f sid x) := by
  unfold Session.onData
  split
  · next n ct _ =>
    split
    · exact .quiet h
    · next s found =>
      split
      · exact .quiet h
      · exact .quiet h
      · next tr phase =>
        split
        · exact .quiet h
        · split
          · exact .quiet h
          · next pt tr' _ =>
            exact (h.counters tr' found phase).handlePlaintext w f pt x ⟨_, tr', AList.lookup_insert _, rfl, rfl⟩
  all_goals exact .quiet h

end

/-! ## Runs -/

/-- A drawn session ID is not in use, and an answer or a third message does not come when the
peer's four open sessions were all opened at this very time or later. -/
def Orderly (m : Manager) : Event → Prop
  | .send _ _ x => x.sid ∉ m.sessions
  | .receive f x => f.type = .resp ∨ f.type = .fin → TieFree m f.fromKey x.now
  | _ => True

theorem Consistent.react (h : Consistent m) (w : World) (self : PeerKey) {e : Event}
    (orderly : Orderly m e) : Sound (react w self m e) := by
  cases e with
  | send peer pt x => exact h.prepareApp peer pt orderly
  | sendData peer pt => exact h.sealCurrent peer pt
  | receive f x =>
    change Sound (handle w self m f x)
    unfold handle
    split
    · exact .quiet h
    · split
      · exact .quiet h
      · exact h.onInit _ _ _ x
      · next isResp => exact h.onResp _ _ _ (orderly (.inl isResp))
      · next isFin => exact h.onFin _ _ _ (orderly (.inr isFin))
      · exact h.onData w f _ x
      · exact .quiet h
  | error peer => exact .quiet (h.error peer)
  | drop sid => exact .quiet (h.drop sid)
  | dropGated refused => exact .quiet (h.dropAll _)
  | sweep now => exact .quiet (h.dropAll _)

/-- On every run without such a tie the maps agree, the limits hold, and no send panics. -/
theorem manager_consistent (w : World) (self : PeerKey) (es : List Event)
    (orderly : Follows (step w self) Orderly newManager es) : Consistent (run (step w self) newManager es) ∧
      Output.panic ∉ outputs (step w self) (outputsOf w self) newManager es := by
  induction es using List.reverseRecOn with
  | nil => exact ⟨consistent_newManager, List.not_mem_nil⟩
  | append_singleton es e ih =>
    obtain ⟨before, last⟩ := Follows.append.mp orderly
    obtain ⟨consistent, safe⟩ := ih before
    obtain ⟨after, quiet⟩ := consistent.react w self last.1
    rw [run_concat, outputs_concat]
    refine ⟨after, ?_⟩
    intro mem
    obtain early | now := List.mem_append.mp mem
    · exact safe early
    · exact quiet now

def bareWorld : World := ⟨fun _ => none, id, fun _ => false⟩

def sessionFrame (type : FrameType) (sid : SID) (body : Body) : Frame := ⟨"a", "b", type, some sid, body⟩

/-- Our own handshake and four of the peer's are under way at time 0. -/
def underWay : List Event :=
  .send "a" "hello" { sid := 10, ephemeral := 100 } ::
    [1, 2, 3, 4].map fun k => .receive (sessionFrame .init k (.msg1 k)) { ephemeral := 10 + k }

/-- They finish, the peer's four at `now` and then ours at `late`, which visits the map with
session 10 first. -/
def finish (now late : Time) : List Event :=
  ([1, 2, 3, 4].map fun k => .receive (sessionFrame .fin k (.msg3 ⟨k, 10 + k, "a", "b"⟩)) { now := now }) ++
  [.receive (sessionFrame .resp 10 (.msg2 ⟨100, 200, "a", "b"⟩)) { now := late, order := fun _ => [10] },
   .send "a" "again" { now := late, sid := 11, ephemeral := 101 }]

instance (m : Manager) (peer : PeerKey) (now : Time) : Decidable (TieFree m peer now) :=
  decidable_of_iff (Dict.count m.sessions (fun _ s => s.isOpen peer) < maxOpenPerPeer ∨
      ∃ e ∈ m.sessions.entries, e.2.isOpen peer = true ∧ e.2.opened < now) <| by
    constructor
    · rintro (room | ⟨e, stored, rest⟩)
      · exact .inl room
      · exact .inr ⟨e.1, e.2, AList.mem_lookup_iff.mpr stored, rest⟩
    · rintro (room | ⟨sid, s, found, rest⟩)
      · exact .inl room
      · exact .inr ⟨⟨sid, s⟩, AList.mem_lookup_iff.mp found, rest⟩

instance (m : Manager) : (e : Event) → Decidable (Orderly m e)
  | .send _ _ x => inferInstanceAs (Decidable (x.sid ∉ m.sessions))
  | .receive f x => inferInstanceAs (Decidable (f.type = .resp ∨ f.type = .fin → TieFree m f.fromKey x.now))
  | .sendData _ _ | .error _ | .drop _ | .dropGated _ | .sweep _ => inferInstanceAs (Decidable True)

/-- With the last handshake one tick later, everything is in order. -/
theorem later_tick_consistent : Follows (step bareWorld "b") Orderly newManager (underWay ++ finish 1 2) ∧
      Consistent (run (step bareWorld "b") newManager (underWay ++ finish 1 2)) :=
  have orderly : Follows (step bareWorld "b") Orderly newManager (underWay ++ finish 1 2) := by decide +kernel
  ⟨orderly, (manager_consistent bareWorld "b" _ orderly).1⟩

/-- In one tick, the session that opens last is evicted at once: `current` names a session
that is gone, and the next send panics. -/
theorem one_tick_panics : let m := run (step bareWorld "b") newManager (underWay ++ (finish 1 1).dropLast)
    m.current "a" = some 10 ∧ m.sessions.lookup 10 = none ∧
      outputsOf bareWorld "b" m (.send "a" "again" { now := 1, sid := 11, ephemeral := 101 }) = [.panic] := by
  decide +kernel

end Agentnet.Session
