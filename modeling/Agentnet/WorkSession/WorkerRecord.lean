import Agentnet.WorkSession.Protocol

/-! The worker in the abstract: its record of the request, which it alone moves and
announces, the tombstone of an early cancel, and the session that mirrors the
requester's. -/

namespace Agentnet.WorkSession.Protocol

variable {ρ : Type}

/-- A state of the request with its number; also what a lifecycle mail announces. -/
structure Numbered where
  state : Request.State
  seq : Nat
  deriving DecidableEq

structure Worker (ρ : Type) where
  request : Option Numbered
  tombstone : Option StoreTime
  session : Option (MirrorRow ρ)
  submitted : List (Nat × ρ)
  closes : Nat
  replies : List Numbered

namespace Worker

def initial : Worker ρ := ⟨none, none, none, [], 0, []⟩

/-- The session, or what it will start from. -/
def row (s : Worker ρ) : MirrorRow ρ := s.session.getD ⟨.initial, none, none⟩

def mirror (s : Worker ρ) : Mirror ρ := ⟨s.row, s.submitted, s.closes⟩

def reply (s : Worker ρ) (i : Numbered) : Worker ρ := { s with request := some i, replies := s.replies ++ [i] }

def accept (s : Worker ρ) (seq : Nat) : Worker ρ := { s.reply ⟨.accepted, seq⟩ with session := some s.row }

def submit (s : Worker ρ) (x : ρ) : Worker ρ :=
  { s with session := some { s.row with result := some x, resultRound := some s.row.round }
           submitted := s.submitted ++ [(s.row.round, x)] }

/-- The completion that goes with a close; a request that is not accepted stays. -/
def complete (s : Worker ρ) : Worker ρ :=
  match s.request with
  | some i => if i.state = .accepted then s.reply ⟨.completed, i.seq + 1⟩ else s
  | none => s

/-- What an event says about time, the direct path of a completion and the local close. -/
inductive Label where
  | plain
  | direct
  | alone
  | born (now : Time) (created : WireTime)
  | early (now : Time)
  | pruned (now : Time)

/-- A step of the worker; `announced` as for the mirror. -/
inductive Step (announced : Tuple → Prop) (s : Worker ρ) : Label → Worker ρ → Prop where
  | idle : Step announced s .plain s
  | receives (now : Time) (created : WireTime) (unknown : s.request = none)
      (uncancelled : s.tombstone = none) :
      Step announced s (.born now created) { s with request := some ⟨.pending, 0⟩ }
  | receivesAccepting (now : Time) (created : WireTime) (unknown : s.request = none)
      (uncancelled : s.tombstone = none) : Step announced s (.born now created) (s.accept 1)
  | refuses (now : Time) (created : WireTime) (unknown : s.request = none)
      (uncancelled : s.tombstone = none) :
      Step announced s (.born now created) (s.reply ⟨.declined, 1⟩)
  | consumes (t : StoreTime) (unknown : s.request = none) (cancelled : s.tombstone = some t) :
      Step announced s .plain { s with request := some ⟨.cancelled, 1⟩, tombstone := none }
  | cancelsEarly (now : Time) (unknown : s.request = none) :
      Step announced s (.early now)
        { s with tombstone := some (storeTime now), replies := s.replies ++ [⟨.cancelled, 1⟩] }
  | prunes (now : Time) (t : StoreTime) (cancelled : s.tombstone = some t) :
      Step announced s (.pruned now) { s with tombstone := none }
  | accepts (i : Numbered) (known : s.request = some i)
      (waiting : i.state = .pending ∨ i.state = .deferred) :
      Step announced s .plain (s.accept (i.seq + 1))
  | answers (i : Numbered) (x : ρ) (known : s.request = some i)
      (waiting : i.state = .pending ∨ i.state = .deferred) (isOpen : s.row.state = .open)
      (first : ¬(s.row.result.isSome ∧ s.row.resultRound = some s.row.round)) :
      Step announced s .plain ((s.accept (i.seq + 1)).submit x)
  | ends (i : Numbered) (state : Request.State) (known : s.request = some i)
      (waiting : i.state = .pending ∨ i.state = .deferred)
      (kind : state = .declined ∨ state = .deferred ∨ state = .cancelled) :
      Step announced s .plain (s.reply ⟨state, i.seq + 1⟩)
  | completes (i : Numbered) (known : s.request = some i) (accepted : i.state = .accepted) :
      Step announced s .direct (s.reply ⟨.completed, i.seq + 1⟩)
  | echoes (i : Numbered) (known : s.request = some i) (answered : i.state ≠ .pending) :
      Step announced s .plain { s with replies := s.replies ++ [i] }
  | submits (r : MirrorRow ρ) (x : ρ) (opened : s.session = some r) (isOpen : r.state = .open)
      (first : ¬(r.result.isSome ∧ r.resultRound = some r.round)) :
      Step announced s .plain (s.submit x)
  | follows (r : MirrorRow ρ) (m : Tuple) (opened : s.session = some r) (heard : announced m)
      (higher : r.seq < m.seq) (live : r.state.isClosed = false)
      (goesOn : m.state.isClosed = false) :
      Step announced s .plain { s with session := some (r.follow m) }
  | closes (r : MirrorRow ρ) (m : Tuple) (opened : s.session = some r) (heard : announced m)
      (higher : r.seq < m.seq) (live : r.state.isClosed = false)
      (ends : m.state.isClosed = true) :
      Step announced s .plain
        (complete { s with session := some (r.follow m), closes := s.closes + 1 })
  | fallsBack (r : MirrorRow ρ) (i : Numbered) (opened : s.session = some r)
      (live : r.state.isClosed = false) (known : s.request = some i)
      (accepted : i.state = .accepted) :
      Step announced s .alone
        (complete { s with session := some { r with state := .closed .cancelled }
                           closes := s.closes + 1 })

variable {announced : Tuple → Prop} {s s' : Worker ρ} {label : Label}

variable {r : MirrorRow ρ} {i : Numbered}

theorem row_of_session (h : s.session = some r) : s.row = r := by
  rw [row, h, Option.getD_some]

theorem mirror_complete (s : Worker ρ) : s.complete.mirror = s.mirror := by
  unfold complete
  split
  · split <;> rfl
  · rfl

theorem row_complete (s : Worker ρ) : s.complete.row = s.row := congrArg Mirror.row (mirror_complete s)

/-- A step of the record is a step of the mirror. -/
theorem Step.mirror (step : s.Step announced label s') : s.mirror.Step announced s'.mirror := by
  cases step with
  | idle => exact .idle
  | receives now created unknown uncancelled => exact .idle
  | receivesAccepting now created unknown uncancelled => exact .idle
  | refuses now created unknown uncancelled => exact .idle
  | consumes t unknown cancelled => exact .idle
  | cancelsEarly now unknown => exact .idle
  | prunes now t cancelled => exact .idle
  | accepts i known waiting => exact .idle
  | answers i x known waiting isOpen first => exact .submits x isOpen first
  | ends i state known waiting kind => exact .idle
  | completes i known accepted => exact .idle
  | echoes i known answered => exact .idle
  | submits r x opened isOpen first =>
    have own := row_of_session opened
    exact .submits x (by rw [Worker.mirror, own]; exact isOpen)
      (by rw [Worker.mirror, own]; exact first)
  | follows r m opened heard higher live goesOn =>
    have own := row_of_session opened
    have step : s.mirror.Step announced _ :=
      .follows m heard (by rw [Worker.mirror, own]; exact higher)
        (by rw [Worker.mirror, own]; exact live)
    simp only [Worker.mirror, own, goesOn, Bool.toNat_false, Nat.add_zero] at step ⊢
    exact step
  | closes r m opened heard higher live ends =>
    have own := row_of_session opened
    have step : s.mirror.Step announced _ :=
      .follows m heard (by rw [Worker.mirror, own]; exact higher)
        (by rw [Worker.mirror, own]; exact live)
    rw [mirror_complete]
    simp only [Worker.mirror, own, ends, Bool.toNat_true] at step ⊢
    exact step
  | fallsBack r i opened live known accepted =>
    have own := row_of_session opened
    have step : s.mirror.Step announced _ := .fallsBack (by rw [Worker.mirror, own]; exact live)
    rw [mirror_complete]
    simp only [Worker.mirror, own] at step ⊢
    exact step

theorem Step.tuple (step : s.Step announced label s') (notAlone : label ≠ .alone) :
    s'.row.toTuple = s.row.toTuple ∨ announced s'.row.toTuple := by
  cases step with
  | idle => exact .inl rfl
  | receives now created unknown uncancelled => exact .inl rfl
  | receivesAccepting now created unknown uncancelled => exact .inl rfl
  | refuses now created unknown uncancelled => exact .inl rfl
  | consumes t unknown cancelled => exact .inl rfl
  | cancelsEarly now unknown => exact .inl rfl
  | prunes now t cancelled => exact .inl rfl
  | accepts i known waiting => exact .inl rfl
  | answers i x known waiting isOpen first => exact .inl rfl
  | ends i state known waiting kind => exact .inl rfl
  | completes i known accepted => exact .inl rfl
  | echoes i known answered => exact .inl rfl
  | submits r x opened isOpen first => exact .inl rfl
  | follows r m opened heard higher live goesOn => exact .inr heard
  | closes r m opened heard higher live ends =>
    rw [row_complete]
    exact .inr heard
  | fallsBack r i opened live known accepted => exact absurd rfl notAlone

theorem Step.alone (step : s.Step announced .alone s') : s.row.state.isClosed = false ∧
      s'.row.toTuple = { s.row.toTuple with state := .closed .cancelled } := by
  cases step with
  | fallsBack r i opened live known accepted =>
    rw [row_complete, row_of_session opened]
    exact ⟨live, rfl⟩

theorem Step.direct (step : s.Step announced .direct s') : ∃ i, s.request = some i ∧ i.state = .accepted := by
  cases step with
  | completes i known accepted => exact ⟨i, known, accepted⟩

/-! ## Accepted means open -/

/-- The request is accepted exactly while its session is live, and no session exists
before. -/
structure Paired (s : Worker ρ) : Prop where
  opened : ∀ i, s.request = some i → i.state = .accepted → ∃ r, s.session = some r ∧ r.state.isClosed = false
  live : ∀ r, s.session = some r → r.state.isClosed = false → ∃ i, s.request = some i ∧ i.state = .accepted
  before : (∀ i, s.request = some i → i.state = .pending ∨ i.state = .deferred) → s.session = none

theorem initial_paired : (initial : Worker ρ).Paired := ⟨by simp [initial], by simp [initial],
  fun _ => rfl⟩

theorem Paired.unopened (paired : s.Paired) (known : s.request = some i)
    (waiting : i.state = .pending ∨ i.state = .deferred) : s.session = none :=
  paired.before fun j known' => by
    cases known.symm.trans known'
    exact waiting

theorem Paired.of_idle (known : s.request = some i) (idle : i.state ≠ .accepted)
    (notLive : ∀ r, s.session = some r → r.state.isClosed = true)
    (before : i.state = .pending ∨ i.state = .deferred → s.session = none) : s.Paired where
  opened := fun j known' accepted => by
    cases known.symm.trans known'
    exact absurd accepted idle
  live := fun r session live => by
    rw [notLive r session] at live
    cases live
  before := fun waiting => before (waiting i known)

theorem Paired.of_accepted (known : s.request = some i) (accepted : i.state = .accepted)
    (session : s.session = some r) (live : r.state.isClosed = false) : s.Paired where
  opened := fun _ _ _ => ⟨r, session, live⟩
  live := fun _ _ _ => ⟨i, known, accepted⟩
  before := fun waiting => by
    rcases waiting i known with h | h <;> rw [accepted] at h <;> cases h

theorem Paired.complete (known : s.request = some i) (accepted : i.state = .accepted) (session : s.session = some r)
    (closed : r.state.isClosed = true) : s.complete.Paired := by
  rw [Worker.complete, known]
  dsimp only
  rw [if_pos accepted]
  refine .of_idle (i := ⟨.completed, i.seq + 1⟩) rfl (by simp) (fun r' session' => ?_) ?_
  · cases session.symm.trans session'
    exact closed
  · rintro (h | h) <;> cases h

/-- The mirror and the record stay paired, over every step but a direct one. -/
theorem Paired.step (paired : s.Paired) (step : s.Step announced label s') (indirect : label ≠ .direct) :
    s'.Paired := by
  have unopened_of_unknown : s.request = none → s.session = none := fun unknown =>
    paired.before fun i known => by cases unknown.symm.trans known
  have row_initial : s.session = none → s.row.state.isClosed = false := fun unopened => by
    rw [row, unopened]
    rfl
  cases step with
  | idle => exact paired
  | receives now created unknown uncancelled =>
    have unopened := unopened_of_unknown unknown
    exact .of_idle rfl (by simp) (fun r h => by cases unopened.symm.trans h) fun _ => unopened
  | receivesAccepting now created unknown uncancelled =>
    exact .of_accepted rfl rfl rfl (row_initial (unopened_of_unknown unknown))
  | refuses now created unknown uncancelled =>
    have unopened := unopened_of_unknown unknown
    exact .of_idle rfl (by simp) (fun r h => by cases unopened.symm.trans h) fun _ => unopened
  | consumes t unknown cancelled =>
    have unopened := unopened_of_unknown unknown
    exact .of_idle rfl (by simp) (fun r h => by cases unopened.symm.trans h) fun _ => unopened
  | cancelsEarly now unknown => exact ⟨paired.opened, paired.live, paired.before⟩
  | prunes now t cancelled => exact ⟨paired.opened, paired.live, paired.before⟩
  | accepts i known waiting => exact .of_accepted rfl rfl rfl (row_initial (paired.unopened known waiting))
  | answers i x known waiting isOpen first =>
    exact .of_accepted rfl rfl rfl (row_initial (paired.unopened known waiting))
  | ends i state known waiting kind =>
    have unopened := paired.unopened known waiting
    refine .of_idle rfl ?_ (fun r h => by cases unopened.symm.trans h) fun _ => unopened
    rcases kind with rfl | rfl | rfl <;> simp
  | completes i known accepted => exact absurd rfl indirect
  | echoes i known answered => exact ⟨paired.opened, paired.live, paired.before⟩
  | submits r x opened isOpen first =>
    have live : r.state.isClosed = false := by rw [isOpen]; rfl
    obtain ⟨i, known, accepted⟩ := paired.live r opened live
    refine .of_accepted known accepted rfl ?_
    rw [row_of_session opened]
    exact live
  | follows r m opened heard higher live goesOn =>
    obtain ⟨i, known, accepted⟩ := paired.live r opened live
    exact .of_accepted known accepted rfl goesOn
  | closes r m opened heard higher live ends =>
    obtain ⟨i, known, accepted⟩ := paired.live r opened live
    exact .complete known accepted rfl ends
  | fallsBack r i opened live known accepted => exact .complete known accepted rfl rfl

end Worker

end Agentnet.WorkSession.Protocol
