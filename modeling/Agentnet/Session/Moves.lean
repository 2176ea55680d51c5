import Agentnet.Session.Manager

/-! What one event does to the sessions of a daemon, said once: some are forgotten, at most one
handshake or data frame takes its turn, messages are sealed, some are forgotten. -/

namespace Agentnet.Session

open Lib

/-- The sessions by their ids. -/
abbrev View := SID → Option Sess

/-- The sessions alone. -/
def Manager.view (m : Manager) : View := fun sid => m.sessions.lookup sid

def Restricts (v v' : View) : Prop := ∀ sid s, v' sid = some s → v sid = some s

theorem Restricts.refl (v : View) : Restricts v v := fun _ _ h => h

theorem Restricts.trans {v v' v'' : View} (h : Restricts v v') (h' : Restricts v' v'') : Restricts v v'' :=
  fun sid s found => h sid s (h' sid s found)

def dialFrame (self peer : PeerKey) (sid : SID) (e : Ephemeral) : Frame := ⟨self, peer, .init, some sid, .msg1 e⟩

def respFrame (self peer : PeerKey) (sid : SID) (eI eR : Ephemeral) : Frame :=
  ⟨self, peer, .resp, some sid, .msg2 ⟨eI, eR, self, peer⟩⟩

def finFrame (self peer : PeerKey) (sid : SID) (eI eR : Ephemeral) : Frame :=
  ⟨self, peer, .fin, some sid, .msg3 ⟨eI, eR, self, peer⟩⟩

def dataFrame (self peer : PeerKey) (sid : SID) (ct : Ciphertext) : Frame :=
  ⟨self, peer, .data, some sid, .data ct.counter (some ct)⟩

/-- The one change of an event that draws an ephemeral or depends on a frame. -/
inductive Turn (self : PeerKey) : Event → View → List Output → View → Prop where
  | rest (e : Event) (v : View) : Turn self e v [] v
  | dial (v : View) (peer : PeerKey) (pt : Plaintext) (x : Inputs) :
      Turn self (.send peer pt x) v [.frame (dialFrame self peer x.sid x.ephemeral)]
        (Function.update v x.sid (some ⟨x.sid, peer, .initiated x.ephemeral, x.now, 0⟩))
  | respond (v : View) (f : Frame) (x : Inputs) (sid : SID) (eI : Ephemeral) :
      v sid = none → f.body = .msg1 eI →
      Turn self (.receive f x) v [.frame (respFrame self f.fromKey sid eI x.ephemeral)]
        (Function.update v sid (some ⟨sid, f.fromKey, .responded eI x.ephemeral, x.now, 0⟩))
  | openI (v : View) (f : Frame) (x : Inputs) (sid : SID) (s : Sess) (eI eR : Ephemeral) :
      v sid = some s → s.phase = .initiated eI → f.body = .msg2 ⟨eI, eR, s.peer, self⟩ →
      Turn self (.receive f x) v [.frame (finFrame self s.peer sid eI eR)]
        (Function.update v sid (some { s with phase := .established (newTransport true eI eR), opened := x.now }))
  | openR (v : View) (f : Frame) (x : Inputs) (sid : SID) (s : Sess) (eI eR : Ephemeral) :
      v sid = some s → s.phase = .responded eI eR → f.body = .msg3 ⟨eI, eR, s.peer, self⟩ →
      Turn self (.receive f x) v []
        (Function.update v sid (some { s with phase := .established (newTransport false eI eR), opened := x.now }))
  | receive (v : View) (f : Frame) (x : Inputs) (sid : SID) (s : Sess) (tr : Transport) (c : Ciphertext)
      (out : List Output) :
      v sid = some s → s.phase = .established tr → s.peer = f.fromKey → f.sid = some sid →
      f.body = .data c.counter (some c) → tr.recvNext ≤ c.counter → c.key = tr.recv →
      c.ad = dataAD f.fromKey self s.sid c.counter → out = [] ∨ out = [.deliver f c.pt] →
      Turn self (.receive f x) v out
        (Function.update v sid (some { s with phase := .established { tr with recvNext := c.counter + 1 } }))

inductive Seals (self : PeerKey) : View → List Output → View → Prop where
  | nil (v : View) : Seals self v [] v
  | panic (v v' : View) (out : List Output) : Seals self v out v' → Seals self v (.panic :: out) v'
  | cons (v v' : View) (out : List Output) (sid : SID) (s : Sess) (tr : Transport) (pt : Plaintext) :
      v sid = some s → s.phase = .established tr → tr.sendN ≠ maxUint64 →
      Seals self (Function.update v sid
        (some { s with phase := .established { tr with sendN := tr.sendN + 1 } })) out v' →
      Seals self v (.frame (dataFrame self s.peer s.sid
        ⟨tr.send, tr.sendN, dataAD self s.peer s.sid tr.sendN, pt⟩) :: out) v'

def Reaction (self : PeerKey) (e : Event) (v : View) (out : List Output) (v' : View) : Prop :=
  ∃ v₁ v₂ v₃ turned sealed, Restricts v v₁ ∧ Turn self e v₁ turned v₂ ∧ Seals self v₂ sealed v₃ ∧ Restricts v₃ v' ∧
  out = turned ++ sealed

section

variable {self : PeerKey} {e : Event} {v v' v'' : View} {out : List Output}

theorem Reaction.ofRestricts (h : Restricts v v') : Reaction self e v [] v' :=
  ⟨v', v', v', [], [], h, .rest e v', .nil v', .refl v', rfl⟩

theorem Reaction.ofTurn (h : Turn self e v out v') : Reaction self e v out v' :=
  ⟨v, v', v', out, [], .refl v, h, .nil v', .refl v', (List.append_nil out).symm⟩

theorem Reaction.ofSeals (h : Seals self v out v') : Reaction self e v out v' :=
  ⟨v, v, v', [], out, .refl v, .rest e v, h, .refl v', rfl⟩

/-- A turn after sessions were dropped. -/
theorem Reaction.after (h : Restricts v v') (h' : Turn self e v' out v'') : Reaction self e v out v'' :=
  ⟨v', v'', v'', out, [], h, h', .nil v'', .refl v'', (List.append_nil out).symm⟩

end

/-! ## Every event is a reaction -/

section

variable {self : PeerKey} {m : Manager}

theorem view_insert (m : Manager) (sid : SID) (s : Sess) :
    Manager.view { m with sessions := m.sessions.insert sid s } = Function.update m.view sid (some s) := by
  funext a
  by_cases same : a = sid
  · subst same
    rw [Function.update_self]
    exact AList.lookup_insert _
  · rw [Function.update_of_ne same]
    exact AList.lookup_insert_ne same

theorem sealLocked_eq_sealed {pt : Plaintext} {o : Option Sess} {s' : Sess} {f : Frame}
    (h : sealLocked self pt o = .sealed s' f) :
    ∃ s tr, o = some s ∧ s.phase = .established tr ∧ tr.sendN ≠ maxUint64 ∧
      s' = { s with phase := .established { tr with sendN := tr.sendN + 1 } } ∧
      f = dataFrame self s.peer s.sid ⟨tr.send, tr.sendN, dataAD self s.peer s.sid tr.sendN, pt⟩ := by
  cases o with
  | none => cases h
  | some s =>
    cases phase : s.phase with
    | initiated | responded =>
      simp only [sealLocked, phase] at h
      cases h
    | established tr =>
      simp only [sealLocked, phase] at h
      split at h
      · cases h
      · next ct tr' sealed =>
        obtain ⟨room, rfl, rfl⟩ := Transport.seal_eq_some sealed
        simp only [Sealed.sealed.injEq] at h
        exact ⟨s, tr, rfl, phase, room, h.1.symm, h.2.symm⟩

theorem sealOn_seals (m : Manager) (sid : SID) (pt : Plaintext) :
    Seals self m.view (sealOn self m sid pt).2 (sealOn self m sid pt).1.view := by
  unfold sealOn
  split
  · exact .panic _ _ _ (.nil _)
  · exact .nil _
  · next s' f sealed =>
    obtain ⟨s, tr, found, phase, room, rfl, rfl⟩ := sealLocked_eq_sealed sealed
    rw [view_insert]
    exact .cons _ _ _ sid s tr pt found phase room (.nil _)

theorem sealAll_seals (self : PeerKey) (pts : List Plaintext) {v : View} {s : Sess} (found : v s.sid = some s) :
    Seals self v (sealAll self s pts).2 (Function.update v s.sid (some (sealAll self s pts).1)) := by
  have same : Function.update v s.sid (some s) = v := by
    rw [← found]
    exact Function.update_eq_self _ _
  induction pts generalizing v s with
  | nil =>
    simp only [sealAll, same]
    exact .nil v
  | cons pt pts ih =>
    cases eq : sealLocked self pt (some s) with
    | panic =>
      simp only [sealAll, eq, same]
      exact .panic _ _ _ (.nil v)
    | exhausted =>
      simp only [sealAll, eq, same]
      exact .nil v
    | sealed s' f =>
      obtain ⟨o, tr, own, phase, room, rfl, rfl⟩ := sealLocked_eq_sealed eq
      obtain rfl := Option.some.inj own
      simp only [sealAll, eq]
      have rest :=
        ih (v := Function.update v s.sid (some { s with phase := .established { tr with sendN := tr.sendN + 1 } }))
        (s := { s with phase := .established { tr with sendN := tr.sendN + 1 } })
        (Function.update_self ..) (by rw [Function.update_idem])
      rw [Function.update_idem] at rest
      exact .cons _ _ _ s.sid s tr pt found phase room rest

theorem dropLocked_restricts (m : Manager) (sid : SID) : Restricts m.view (dropLocked m sid).view := by
  unfold dropLocked
  split
  · exact .refl _
  · intro a s found
    exact (Dict.lookup_of_erase found).2

theorem dropAll_restricts (sids : List SID) (m : Manager) : Restricts m.view (sids.foldl dropLocked m).view := by
  induction sids generalizing m with
  | nil => exact .refl _
  | cons sid sids ih => exact (dropLocked_restricts m sid).trans (ih _)

theorem handleError_restricts (m : Manager) (peer : PeerKey) : Restricts m.view (handleError m peer).view := by
  unfold handleError
  split
  · exact .refl _
  · exact dropLocked_restricts m _

theorem openAndFlush_seals (self : PeerKey) (keyed : Keyed m.sessions) (s : Sess) (tr : Transport) (x : Inputs) :
    ∃ v, Seals self
        (Function.update m.view s.sid (some { s with phase := .established tr, opened := x.now }))
        (flush self (openLocked m s tr x.now x.order) { s with phase := .established tr, opened := x.now }).2 v ∧
      Restricts v (flush self
        (openLocked m s tr x.now x.order) { s with phase := .established tr, opened := x.now }).1.view := by
  have cut : Trimmed (Sess.isOpen s.peer) maxOpenPerPeer
      (m.sessions.insert s.sid { s with phase := .established tr, opened := x.now })
      (openLocked m s tr x.now x.order).sessions := trimAll_trimmed (keyed.insert rfl)
  have opened : ∀ a o, (openLocked m s tr x.now x.order).sessions.lookup a = some o →
      Function.update m.view s.sid (some { s with phase := .established tr, opened := x.now }) a = some o := by
    intro a o found
    rw [← view_insert]
    exact cut.sub a o found
  have seals := sealAll_seals self (m.queue s.peer)
    (v := Function.update m.view s.sid (some { s with phase := .established tr, opened := x.now }))
    (s := { s with phase := .established tr, opened := x.now }) (Function.update_self ..)
  refine ⟨_, seals, ?_⟩
  intro a o found
  by_cases mine : a = s.sid
  · subst mine
    unfold flush at found
    dsimp only at found
    split at found
    · rw [Function.update_self]
      exact (AList.lookup_insert _).symm.trans found
    · next gone => cases (AList.lookup_eq_none.mpr gone).symm.trans found
  · rw [Function.update_of_ne mine]
    refine opened a o ?_
    unfold flush at found
    dsimp only at found
    split at found
    · exact (AList.lookup_insert_ne mine).symm.trans found
    · exact found

theorem prepareApp_reaction (m : Manager) (peer : PeerKey) (pt : Plaintext) (x : Inputs) :
    Reaction self (.send peer pt x) m.view (prepareApp self m peer pt x).2 (prepareApp self m peer pt x).1.view := by
  unfold prepareApp
  split
  · exact .ofSeals (sealOn_seals m _ pt)
  · split
    · exact .ofRestricts (.refl _)
    · dsimp only
      split
      · exact .ofRestricts (.refl _)
      · split
        · exact .ofRestricts (.refl _)
        · apply Reaction.ofTurn
          have turn : Turn self _ _ _ _ := Turn.dial m.view peer pt x
          rw [← view_insert] at turn
          exact turn

theorem onInit_reaction (keyed : Keyed m.sessions) (f : Frame) (sid : SID) (x : Inputs) :
    Reaction self (.receive f x) m.view (onInit self m f.fromKey sid f.body x).2
      (onInit self m f.fromKey sid f.body x).1.view := by
  have limited : Restricts m.view (limitPendingLocked m f.fromKey x.order).view :=
    (trimAll_trimmed keyed : Trimmed (Sess.isPending f.fromKey) (maxPendingPerPeer - 1) m.sessions _).sub
  unfold onInit
  split
  · exact .ofRestricts (.refl _)
  · split
    · exact .ofRestricts (.refl _)
    · next unknown =>
      dsimp only
      split
      · next _ _ _ eI _ isMsg1 =>
        refine .after limited ?_
        rw [view_insert]
        refine .respond _ f x sid eI ?_ isMsg1
        cases found : (limitPendingLocked m f.fromKey x.order).view sid with
        | none => rfl
        | some s => cases (AList.lookup_eq_none.mpr unknown).symm.trans (limited sid s found)
      · exact .ofRestricts limited

theorem onResp_reaction (keyed : Keyed m.sessions) (f : Frame) (sid : SID) (x : Inputs) :
    Reaction self (.receive f x) m.view (onResp self m f.fromKey sid f.body x).2
      (onResp self m f.fromKey sid f.body x).1.view := by
  unfold onResp
  split
  · exact .ofRestricts (.refl _)
  · next s found =>
    split
    · exact .ofRestricts (.refl _)
    · next own =>
      split
      · exact .ofRestricts (.refl _)
      · exact .ofRestricts (.refl _)
      · next eI phase =>
        split
        · exact .ofRestricts (dropLocked_restricts m sid)
        · next eR accepted =>
          split
          · exact .ofRestricts (dropLocked_restricts m sid)
          · have peer := not_not.mp own
            obtain rfl := keyed sid s found
            obtain ⟨v, seals, left⟩ := openAndFlush_seals self keyed s (newTransport true eI eR) x
            have body := readMsg2_eq_some accepted
            rw [← peer] at body ⊢
            exact ⟨_, _, v, _, _, .refl _, .openI m.view f x s.sid s eI eR found phase body, seals, left, rfl⟩

theorem onFin_reaction (keyed : Keyed m.sessions) (f : Frame) (sid : SID) (x : Inputs) :
    Reaction self (.receive f x) m.view (onFin self m f.fromKey sid f.body x).2
      (onFin self m f.fromKey sid f.body x).1.view := by
  unfold onFin
  split
  · exact .ofRestricts (.refl _)
  · next s found =>
    split
    · exact .ofRestricts (.refl _)
    · next own =>
      split
      · exact .ofRestricts (.refl _)
      · exact .ofRestricts (.refl _)
      · next eI eR phase =>
        split
        · next accepted =>
          have peer := not_not.mp own
          obtain rfl := keyed sid s found
          obtain ⟨v, seals, left⟩ := openAndFlush_seals self keyed s (newTransport false eI eR) x
          have body := readMsg3_eq_true accepted
          rw [← peer] at body
          exact ⟨_, _, v, _, _, .refl _, .openR m.view f x s.sid s eI eR found phase body, seals, left, rfl⟩
        · exact .ofRestricts (dropLocked_restricts m sid)

theorem handlePlaintext_reaction (w : World) (m : Manager) {e : Event} {v : View} (f : Frame) (sid : SID)
    (pt : Plaintext) (x : Inputs) (turn : ∀ out, out = [] ∨ out = [.deliver f pt] → Turn self e v out m.view) :
    Reaction self e v (handlePlaintext w self m f sid pt x).2 (handlePlaintext w self m f sid pt x).1.view := by
  have nothing := Reaction.ofTurn (turn [] (.inl rfl))
  unfold handlePlaintext
  split
  · exact nothing
  · split
    · exact ⟨_, _, _, _, _, .refl _, turn [] (.inl rfl), sealOn_seals m sid _, .refl _, rfl⟩
    · exact nothing
  · exact nothing
  · split
    · exact nothing
    · split
      · exact .ofTurn (turn _ (.inr rfl))
      · exact nothing

theorem onData_reaction (w : World) (m : Manager) (f : Frame) {sid : SID} (named : f.sid = some sid) (x : Inputs) :
    Reaction self (.receive f x) m.view (onData w self m f sid x).2 (onData w self m f sid x).1.view := by
  unfold onData
  split
  · next n ct body =>
    split
    · exact .ofRestricts (.refl _)
    · next s found =>
      split
      · exact .ofRestricts (.refl _)
      · exact .ofRestricts (.refl _)
      · next tr phase =>
        split
        · exact .ofRestricts (.refl _)
        · next own =>
          split
          · exact .ofRestricts (.refl _)
          · next pt tr' opened =>
            obtain ⟨c, rfl, fresh, key, rfl, ad, rfl, rfl⟩ := Transport.open_eq_ok opened
            apply handlePlaintext_reaction
            intro out which
            rw [view_insert]
            exact .receive m.view f x sid s tr c out found phase (not_not.mp own) named body fresh key ad which
  all_goals exact .ofRestricts (.refl _)

theorem react_reaction (w : World) (keyed : Keyed m.sessions) (e : Event) :
    Reaction self e m.view (outputsOf w self m e) (step w self m e).view := by
  unfold outputsOf step
  cases e with
  | send peer pt x => exact prepareApp_reaction m peer pt x
  | sendData peer pt =>
    simp only [react]
    unfold sealCurrent
    split
    · exact .ofRestricts (.refl _)
    · exact .ofSeals (sealOn_seals m _ pt)
  | receive f x =>
    simp only [react]
    unfold handle
    split
    · exact .ofRestricts (.refl _)
    · split
      · exact .ofRestricts (.refl _)
      · exact onInit_reaction keyed f _ x
      · exact onResp_reaction keyed f _ x
      · exact onFin_reaction keyed f _ x
      · next named _ => exact onData_reaction w m f named x
      · exact .ofRestricts (.refl _)
  | error peer => exact .ofRestricts (handleError_restricts m peer)
  | drop sid => exact .ofRestricts (dropLocked_restricts m sid)
  | dropGated refused => exact .ofRestricts (dropAll_restricts _ m)
  | sweep now => exact .ofRestricts (dropAll_restricts _ m)

end

end Agentnet.Session
