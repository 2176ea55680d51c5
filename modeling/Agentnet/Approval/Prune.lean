import Mathlib.Algebra.GroupWithZero.Nat
import Agentnet.Basic
import Agentnet.Lib.Run

/-! One `data_prune` approval: the end of the `createPruneApproval` that asked for it, the human's decision with its
callback, and the `runPrune` calls that name it. A step is what one goroutine does under one lock or in one
transaction. -/

namespace Agentnet.Prune

open Lib

def pruneAuthTTL : Int := hour

/-- A prune the human approved or is asked to approve. -/
structure PruneAuth (κ : Type) where
  olderThan : Int
  cutoff : Time
  counts : κ
  removed : κ
  approved : Bool
  expiry : Time
deriving DecidableEq

/-- What `Show` answers for the stored approval. -/
inductive State where
  | pending | approved (decided : Time) | rejected | expired
deriving DecidableEq

/-- How far `createPruneApproval` has come. -/
inductive Stage where
  | counting | stored | returned | recorded | published
deriving DecidableEq

/-- The callback of the decision. `Perform` has read the recorded id already; `OnReject` reads it when it runs. -/
inductive Hook where
  | approve (seen : Bool)
  | onReject
deriving DecidableEq

inductive Answer (κ : Type) where
  | pending (cutoff : Time)
  | batch (cutoff : Time) (counts : κ) (more : Bool)
  | failed
  | differs | rejected | expired | unknown | notRunning | lapsed
deriving DecidableEq

/-- Where a `runPrune` call is. -/
inductive Phase (κ : Type) where
  | begun
  | absent
  | waiting (cutoff : Time)
  | dropping (answer : Answer κ)
  | admitted (expiry : Time)
  | queued
  | running (auth : PruneAuth κ)
  | booking (cutoff : Time) (counts : κ) (more : Bool)
  | ending (cutoff : Time) (counts : κ)
  | answered (answer : Answer κ)
deriving DecidableEq

structure Call (κ : Type) where
  olderThan : Int
  phase : Phase κ
deriving DecidableEq

/-- Who holds `run`: a call of this approval or one of another. -/
inductive Holder where
  | call (c : Nat)
  | other
deriving DecidableEq

/-- What the calls share: the entry in memory and the lock `run`. -/
structure Shared (κ : Type) where
  entry : Option (PruneAuth κ) := none
  lock : Option Holder := none

variable {κ : Type}

def Shared.approve (m : Shared κ) (expiry : Time) : Shared κ :=
  { m with entry := m.entry.map fun p => { p with approved := true, expiry := expiry } }

def Shared.addRemoved [Add κ] (m : Shared κ) (counts : κ) : Shared κ :=
  { m with entry := m.entry.map fun p => { p with removed := p.removed + counts } }

def Shared.drop (m : Shared κ) : Shared κ := { m with entry := none }

def Shared.unlock (m : Shared κ) : Shared κ := { m with lock := none }

structure Approval (κ : Type) extends Shared κ where
  now : Time := 0
  row : Option State := none
  stage : Stage := .counting
  hook : Option Hook := none
  calls : Nat → Option (Call κ) := fun _ => none

/-- `aid` is not empty: the creator has recorded the id. -/
def Approval.named (s : Approval κ) : Bool := s.stage = .recorded || s.stage = .published

/-- The next statement of `createPruneApproval`: the approval is stored, `Create` returns, the id is recorded, the
entry is set. -/
def createPruneApproval (asked : PruneAuth κ) (s : Approval κ) : Approval κ :=
  match s.stage with
  | .counting => { s with stage := .stored, row := some .pending }
  | .stored => { s with stage := .returned }
  | .returned => { s with stage := .recorded }
  | .recorded => { s with stage := .published, entry := some asked }
  | .published => s

/-- The next statement of call `c`; `result` is what a batch would report there, and none if the database fails, for
`Show` as for a batch. -/
def runPrune [Add κ] (c : Nat) (call : Call κ) (now : Time) (row : Option State) (result : Option (κ × Bool))
    (m : Shared κ) : Shared κ × Phase κ :=
  match call.phase with
  | .begun =>
    match m.entry with
    | none => (m, .absent)
    | some auth =>
      if auth.olderThan ≠ call.olderThan then (m, .answered .differs)
      else if auth.approved = false then (m, .waiting auth.cutoff)
      else (m, .admitted auth.expiry)
  | .absent =>
    if result = none then (m, .answered .failed)
    else
      match row with
      | none => (m, .answered .unknown)
      | some .rejected => (m, .answered .rejected)
      | some .expired => (m, .answered .expired)
      | some _ => (m, .answered .notRunning)
  | .waiting cutoff =>
    if result = none then (m, .answered .failed)
    else
      match row with
      | none => (m, .answered .unknown)
      | some .rejected => (m, .dropping .rejected)
      | some .expired => (m, .dropping .expired)
      | some _ => (m, .answered (.pending cutoff))
  | .dropping answer => (m.drop, .answered answer)
  | .admitted expiry => if expiry < now then (m, .dropping .lapsed) else (m, .queued)
  | .queued =>
    if m.lock.isSome then (m, .queued)
    else
      match m.entry with
      | none => (m, .answered .notRunning)
      | some auth => ({ m with lock := some (.call c) }, .running auth)
  | .running auth =>
    match result with
    | none => (m.unlock, .answered .failed)
    | some (counts, more) => (m, .booking auth.cutoff counts more)
  | .booking cutoff counts more =>
    if more then ((m.addRemoved counts).unlock, .answered (.batch cutoff counts true))
    else (m.addRemoved counts, .ending cutoff counts)
  | .ending cutoff counts => (m.drop.unlock, .answered (.batch cutoff counts false))
  | .answered answer => (m, .answered answer)

/-- What can happen around one prune approval. -/
inductive Event (κ : Type) where
  | tick (now : Time)
  | create
  | confirm
  | reject
  | expire
  | callback
  | begin_ (c : Nat) (olderThan : Int)
  | call (c : Nat) (result : Option (κ × Bool))
  | otherLocks
  | otherUnlocks

/-- One event. The calls are told apart by a number. -/
def step [Add κ] (asked : PruneAuth κ) (s : Approval κ) : Event κ → Approval κ
  | .tick now => { s with now := max s.now now }
  | .create => createPruneApproval asked s
  | .confirm =>
    if s.row = some .pending then { s with row := some (.approved s.now), hook := some (.approve s.named) } else s
  | .reject => if s.row = some .pending then { s with row := some .rejected, hook := some .onReject } else s
  | .expire => if s.row = some .pending then { s with row := some .expired, hook := some .onReject } else s
  | .callback =>
    -- no entry has the empty id
    match s.hook with
    | none => s
    | some (.approve seen) =>
      { s with hook := none, toShared := if seen then s.toShared.approve (s.now + pruneAuthTTL) else s.toShared }
    | some .onReject => { s with hook := none, toShared := if s.named then s.toShared.drop else s.toShared }
  | .begin_ c olderThan =>
    if s.calls c = none then { s with calls := Function.update s.calls c (some ⟨olderThan, .begun⟩) } else s
  | .call c result =>
    match s.calls c with
    | none => s
    | some call =>
      let (m, phase) := runPrune c call s.now s.row result s.toShared
      { s with toShared := m, calls := Function.update s.calls c (some { call with phase := phase }) }
  | .otherLocks => if s.lock = none then { s with lock := some .other } else s
  | .otherUnlocks => if s.lock = some .other then { s with lock := none } else s

/-- The entry as `createPruneApproval` sets it. -/
def asks [Zero κ] (olderThan : Int) (cutoff : Time) (counts : κ) : PruneAuth κ :=
  ⟨olderThan, cutoff, counts, 0, false, 0⟩

/-! ## Invariants -/

def Ended (row : Option State) : Prop := row = some .rejected ∨ row = some .expired

def Lapsed (row : Option State) (now : Time) : Prop := ∃ d, row = some (.approved d) ∧ d + pruneAuthTTL < now

/-- Approved, and every time past `t` is too late. -/
def ApprovedBy (row : Option State) (t : Time) : Prop := ∃ d, row = some (.approved d) ∧ d + pruneAuthTTL ≤ t

variable {row : Option State} {now t : Time} {hook : Option Hook} {calls : Nat → Option (Call κ)}

/-- The callback and the calls are where the row lets them be. -/
structure Placed (row : Option State) (now : Time) (hook : Option Hook) (calls : Nat → Option (Call κ)) : Prop where
  clock : ∀ d, row = some (.approved d) → d ≤ now
  approves : ∀ seen, hook = some (.approve seen) → ∃ d, row = some (.approved d)
  rejects : hook = some .onReject → Ended row
  drops : ∀ c o a, calls c = some ⟨o, .dropping a⟩ → Ended row ∨ Lapsed row now
  admits : ∀ c o u, calls c = some ⟨o, .admitted u⟩ → ApprovedBy row u

/-- What the calls rest on stays true as time goes on. -/
theorem Placed.later (h : Placed row now hook calls) (le : now ≤ t) : Placed row t hook calls := by
  refine { h with clock := fun d at_ => le_trans (h.clock d at_) le, drops := fun c o a found => ?_ }
  obtain ended | ⟨d, at_, late⟩ := h.drops c o a found
  · exact .inl ended
  · exact .inr ⟨d, at_, lt_of_lt_of_le late le⟩

/-- Before the decision nothing waits on the row. -/
theorem Placed.decided {row' : Option State} {hook' : Option Hook} (h : Placed row now hook calls)
    (undecided : row = none ∨ row = some .pending) (clock : ∀ d, row' = some (.approved d) → d ≤ now)
    (approves : ∀ seen, hook' = some (.approve seen) → ∃ d, row' = some (.approved d))
    (rejects : hook' = some .onReject → Ended row') : Placed row' now hook' calls := by
  refine ⟨clock, approves, rejects, fun c o a found => ?_, fun c o u found => ?_⟩
  · have := h.drops c o a found
    grind [Ended, Lapsed]
  · have := h.admits c o u found
    grind [ApprovedBy]

/-- Once the hook has run, nothing is asked of it. -/
theorem Placed.run (h : Placed row now hook calls) : Placed row now none calls :=
  { h with approves := by simp, rejects := by simp }

/-- Call `c` is put to a place the row allows. -/
theorem Placed.put (h : Placed row now hook calls) {c : Nat} {o : Int} {phase : Phase κ}
    (drops : ∀ a, phase = .dropping a → Ended row ∨ Lapsed row now)
    (admits : ∀ u, phase = .admitted u → ApprovedBy row u) :
    Placed row now hook (Function.update calls c (some ⟨o, phase⟩)) := by
  refine { h with drops := fun c' o' a found => ?_, admits := fun c' o' u found => ?_ }
  · rw [Function.update_apply] at found
    split at found
    · exact drops a (by simp_all)
    · exact h.drops c' o' a found
  · rw [Function.update_apply] at found
    split at found
    · exact admits u (by simp_all)
    · exact h.admits c' o' u found

/-- The invariant: the entry and the calls agree with the row. -/
structure Sound (asked : PruneAuth κ) (s : Approval κ) : Prop where
  fresh : s.row = none ↔ s.stage = .counting
  entry : ∀ p, s.entry = some p → s.stage = .published ∧ p.olderThan = asked.olderThan
  granted : ∀ p, s.entry = some p → p.approved = true → ApprovedBy s.row p.expiry
  placed : Placed s.row s.now s.hook s.calls

theorem start_sound (asked : PruneAuth κ) : Sound asked ({} : Approval κ) :=
  ⟨by simp, by simp, by simp, by simp, by simp, by simp, by simp, by simp⟩

variable [Add κ] {asked : PruneAuth κ} {s : Approval κ} {c : Nat} {call : Call κ} {r : Option (κ × Bool)}
  {m : Shared κ} {p : PruneAuth κ}

theorem runPrune_entry {p' : PruneAuth κ} (h : (runPrune c call now row r m).1.entry = some p') :
    ∃ p, m.entry = some p ∧ p'.olderThan = p.olderThan ∧ p'.approved = p.approved ∧ p'.expiry = p.expiry := by
  unfold runPrune at h
  split at h <;> grind [Shared.drop, Shared.unlock, Shared.addRemoved, Option.map_eq_some_iff]

theorem runPrune_dropping {a : Answer κ} (h : (runPrune c call now row r m).2 = .dropping a) :
    Ended row ∨ ∃ u, call.phase = .admitted u ∧ u < now := by
  unfold runPrune at h
  split at h <;> grind [Ended]

theorem runPrune_admitted {u : Time} (h : (runPrune c call now row r m).2 = .admitted u) :
    ∃ p, m.entry = some p ∧ p.approved = true ∧ p.expiry = u := by
  unfold runPrune at h
  split at h <;> grind

theorem sound_call (h : Sound asked s) (found : s.calls c = some call) (r : Option (κ × Bool)) : Sound asked { s with
      toShared := (runPrune c call s.now s.row r s.toShared).1
      calls :=
        Function.update s.calls c (some { call with phase := (runPrune c call s.now s.row r s.toShared).2 }) } := by
  refine ⟨h.fresh, fun p' set => ?_, fun p' set approved => ?_,
    h.placed.put (fun a dropping => ?_) (fun u admitted => ?_)⟩
  · obtain ⟨p, before, older, -⟩ := runPrune_entry set
    rw [older]
    exact h.entry p before
  · obtain ⟨p, before, -, same, expiry⟩ := runPrune_entry set
    rw [expiry]
    exact h.granted p before (same ▸ approved)
  · obtain ended | ⟨u, admitted, late⟩ := runPrune_dropping dropping
    · exact .inl ended
    · obtain ⟨d, at_, le⟩ := h.placed.admits c call.olderThan u (by rw [found, ← admitted])
      exact .inr ⟨d, at_, lt_of_le_of_lt le late⟩
  · obtain ⟨p, set, approved, rfl⟩ := runPrune_admitted admitted
    exact h.granted p set approved

/-- The invariant over one event; the prune was asked for without an approval. -/
theorem sound_step (unapproved : asked.approved = false) (h : Sound asked s) (e : Event κ) :
    Sound asked (step asked s e) := by
  have undecided {row : Option State} {hook : Option Hook} (pending : s.row = some .pending) (stored : row ≠ none)
      (placed : Placed row s.now hook s.calls) : Sound asked { s with row := row, hook := hook } := by
    refine ⟨⟨fun none_ => absurd none_ stored, fun stage => ?_⟩, h.entry, fun p set approved => ?_, placed⟩
    · cases pending.symm.trans (h.fresh.mpr stage)
    obtain ⟨d, at_, -⟩ := h.granted p set approved
    cases pending.symm.trans at_
  cases e with
  | tick now => exact { h with placed := h.placed.later (le_max_left ..) }
  | create =>
    simp only [step, createPruneApproval]
    split
    · next stage =>
      have unset (p : PruneAuth κ) (set : s.entry = some p) : False := by simp [h.entry p set] at stage
      exact ⟨by simp, fun p set => (unset p set).elim, fun p set => (unset p set).elim,
        h.placed.decided (.inl (h.fresh.mpr stage)) (by simp)
          (fun seen waits => by simpa [h.fresh.mpr stage] using h.placed.approves seen waits)
          (fun waits => by simpa [Ended, h.fresh.mpr stage] using h.placed.rejects waits)⟩
    · next stage =>
        exact { h with fresh := by simp [h.fresh, stage], entry := fun p set => by simp [h.entry p set] at stage }
    · next stage =>
        exact { h with fresh := by simp [h.fresh, stage], entry := fun p set => by simp [h.entry p set] at stage }
    · next stage =>
      refine { h with fresh := by simp [h.fresh, stage], entry := by simp, granted := ?_ }
      rintro p ⟨⟩ approved
      simp [unapproved] at approved
    · exact h
  | confirm =>
    simp only [step]
    split
    · next pending =>
        exact undecided pending (by simp)
          (h.placed.decided (.inr pending) (by rintro d ⟨⟩; exact le_rfl) (by simp) (by simp))
    · exact h
  | reject =>
    simp only [step]
    split
    · next pending =>
        exact undecided pending (by simp) (h.placed.decided (.inr pending) (by simp) (by simp) fun _ => .inl rfl)
    · exact h
  | expire =>
    simp only [step]
    split
    · next pending =>
        exact undecided pending (by simp) (h.placed.decided (.inr pending) (by simp) (by simp) fun _ => .inr rfl)
    · exact h
  | callback =>
    simp only [step]
    split
    · exact h
    · next seen waits =>
      obtain ⟨d, at_⟩ := h.placed.approves seen waits
      cases seen with
      | false => exact { h with placed := h.placed.run }
      | true =>
        refine { h with placed := h.placed.run, entry := fun p' set => ?_, granted := fun p' set _ => ?_ }
        · obtain ⟨p, before, rfl⟩ := Option.map_eq_some_iff.mp set
          exact h.entry p before
        · obtain ⟨p, before, rfl⟩ := Option.map_eq_some_iff.mp set
          exact ⟨d, at_, add_le_add_left (h.placed.clock d at_) _⟩
    · cases s.named with
      | false => exact { h with placed := h.placed.run }
      | true =>
        exact { h with placed := h.placed.run, entry := by simp [Shared.drop], granted := by simp [Shared.drop] }
  | begin_ c o =>
    simp only [step]
    split
    · exact { h with placed := h.placed.put (by simp) (by simp) }
    · exact h
  | call c r =>
    simp only [step]
    split
    · exact h
    · next call found => exact sound_call h found r
  | otherLocks | otherUnlocks =>
    simp only [step]
    split <;> exact { h with }

/-! ## What one step does -/

theorem entry_cases (asked : PruneAuth κ) (s : Approval κ) (e : Event κ) :
    (step asked s e).entry = s.entry ∨ s.stage = .recorded ∨
    (s.hook = some (.approve true) ∧ e = .callback ∧
      (step asked s e).entry = (s.toShared.approve (s.now + pruneAuthTTL)).entry) ∨
    (s.hook = some .onReject ∧ (step asked s e).entry = none) ∨
    ∃ c call r, s.calls c = some call ∧ (step asked s e).entry = (runPrune c call s.now s.row r s.toShared).1.entry ∧
      (step asked s e).calls c = some { call with phase := (runPrune c call s.now s.row r s.toShared).2 } := by
  cases e with
  | callback => grind [step, Shared.drop]
  | call c r =>
    simp only [step]
    split
    · exact .inl rfl
    · next call found => exact .inr (.inr (.inr (.inr ⟨c, call, r, found, rfl, by simp⟩)))
  | create =>
    simp only [step, createPruneApproval]
    split <;> simp_all
  | tick now => exact .inl rfl
  | confirm | reject | expire | begin_ c o | otherLocks | otherUnlocks =>
    left
    simp only [step]
    split <;> rfl

theorem stage_step (published : s.stage = .published) (e : Event κ) : (step asked s e).stage = .published := by
  cases e with
  | create => simp [step, createPruneApproval, published]
  | tick now => exact published
  | callback | confirm | reject | expire | begin_ c o | call c r | otherLocks | otherUnlocks =>
    simp only [step]
    split <;> exact published

theorem now_step (s : Approval κ) (e : Event κ) : s.now ≤ (step asked s e).now := by
  cases e with
  | tick now => exact le_max_left ..
  | create =>
    simp only [step, createPruneApproval]
    split <;> exact le_rfl
  | callback | confirm | reject | expire | begin_ c o | call c r | otherLocks | otherUnlocks =>
    simp only [step]
    split <;> exact le_rfl

/-- The row and the callback change together, while the row is undecided. -/
theorem row_cases (asked : PruneAuth κ) (s : Approval κ) (e : Event κ) :
    ((step asked s e).row = s.row ∧
      ((step asked s e).hook = s.hook ∨ (e = .callback ∧ (step asked s e).hook = none))) ∨
    (s.stage = .counting ∧ (step asked s e).row = some .pending) ∨
    (s.row = some .pending ∧
      (Ended (step asked s e).row ∨ e = .confirm ∧ (step asked s e).hook = some (.approve s.named))) := by
  cases e with
  | create =>
    simp only [step, createPruneApproval]
    split <;> simp_all
  | tick now => exact .inl ⟨rfl, .inl rfl⟩
  | callback | confirm | reject | expire | begin_ c o | call c r | otherLocks | otherUnlocks => grind [step, Ended]

theorem publishes (e : Event κ) (after : (step asked s e).stage = .published) :
    s.stage = .published ∨ ∃ p, (step asked s e).entry = some p := by
  cases e with
  | create =>
    simp only [step, createPruneApproval] at after ⊢
    split at after <;> simp_all
  | tick now => exact .inl after
  | callback | confirm | reject | expire | begin_ c o | call c r | otherLocks | otherUnlocks =>
    simp only [step] at after
    split at after <;> exact .inl after

theorem answered_step {o : Int} {a : Answer κ} (found : s.calls c = some ⟨o, .answered a⟩) (e : Event κ) :
    (step asked s e).calls c = some ⟨o, .answered a⟩ := by
  cases e with
  | begin_ c' o' =>
    simp only [step]
    split <;> grind [Function.update_apply]
  | call c' r =>
    simp only [step]
    split
    · exact found
    · next call found' =>
      by_cases same : c = c'
      · subst same
        obtain rfl := Option.some.inj (found.symm.trans found')
        simp [runPrune]
      · simpa [Function.update_of_ne same] using found
  | create =>
    simp only [step, createPruneApproval]
    split <;> exact found
  | tick now => exact found
  | callback | confirm | reject | expire | otherLocks | otherUnlocks =>
    simp only [step]
    split <;> exact found

/-- Where a call comes from. -/
theorem calls_back (asked : PruneAuth κ) (s : Approval κ) (e : Event κ)
    (after : (step asked s e).calls c = some call) :
    (s.calls c = none ∧ call.phase = .begun) ∨ s.calls c = some call ∨ ∃ call₀ r, s.calls c = some call₀ ∧
      call = { call₀ with phase := (runPrune c call₀ s.now s.row r s.toShared).2 } ∧
      (step asked s e).entry = (runPrune c call₀ s.now s.row r s.toShared).1.entry := by
  cases e with
  | begin_ c' o =>
    simp only [step] at after
    split at after <;> grind [Function.update_apply]
  | call c' r =>
    simp only [step] at after ⊢
    split at after
    · exact .inr (.inl after)
    · next call' found => grind [Function.update_apply]
  | create =>
    simp only [step, createPruneApproval] at after
    split at after <;> exact .inr (.inl after)
  | tick now => exact .inr (.inl after)
  | callback | confirm | reject | expire | otherLocks | otherUnlocks =>
    simp only [step] at after
    split at after <;> exact .inr (.inl after)

/-! ## Approved prunes -/

/-- The last batch has reported, or the time of the approval is over. -/
def Approval.Spent (s : Approval κ) : Prop :=
  (∃ c o cutoff n, s.calls c = some ⟨o, .answered (.batch cutoff n false)⟩) ∨ Lapsed s.row s.now

def Approval.Granted (s : Approval κ) : Prop := ∃ p, s.entry = some p ∧ p.approved = true

theorem approved_step {d : Time} (h : Sound asked s) (at_ : s.row = some (.approved d)) (e : Event κ) :
    (step asked s e).row = some (.approved d) := by
  obtain ⟨same, -⟩ | ⟨counting, -⟩ | ⟨pending, -⟩ := row_cases asked s e
  · exact same.trans at_
  · cases (h.fresh.mpr counting).symm.trans at_
  · cases pending.symm.trans at_

theorem spent_step (h : Sound asked s) (spent : s.Spent) (e : Event κ) : (step asked s e).Spent := by
  obtain ⟨c, o, cutoff, n, found⟩ | ⟨d, at_, late⟩ := spent
  · exact .inl ⟨c, o, cutoff, n, answered_step found e⟩
  · exact .inr ⟨d, approved_step h at_ e, lt_of_lt_of_le late (now_step s e)⟩

theorem runPrune_drops (c : Nat) (call : Call κ) (now : Time) (row : Option State) (r : Option (κ × Bool))
    (set : m.entry = some p) :
    (∃ p', (runPrune c call now row r m).1.entry = some p' ∧ p'.approved = p.approved) ∨
    (∃ a, call.phase = .dropping a) ∨
      ∃ cutoff n, (runPrune c call now row r m).2 = .answered (.batch cutoff n false) := by
  unfold runPrune
  split <;> grind [Shared.drop, Shared.unlock, Shared.addRemoved]

/-- An entry goes only with the approval's end, its time, or the last batch. -/
theorem entry_step (h : Sound asked s) (e : Event κ) (set : s.entry = some p) :
    (∃ p', (step asked s e).entry = some p' ∧ (p.approved = true → p'.approved = true)) ∨ Ended s.row ∨
    (step asked s e).Spent := by
  obtain same | recorded | ⟨-, -, approved⟩ | ⟨hook, -⟩ | ⟨c, call, r, found, entry, place⟩ := entry_cases asked s e
  · exact .inl ⟨p, same.trans set, id⟩
  · simp [h.entry p set] at recorded
  · rw [approved, Shared.approve, set]
    exact .inl ⟨_, rfl, fun _ => rfl⟩
  · exact .inr (.inl (h.placed.rejects hook))
  · obtain ⟨p', kept, approved⟩ | ⟨a, dropping⟩ | ⟨cutoff, n, done⟩ := runPrune_drops c call s.now s.row r set
    · exact .inl ⟨p', entry.trans kept, fun h => approved.trans h⟩
    · obtain ended | lapsed := h.placed.drops c call.olderThan a (by rw [found, ← dropping])
      · exact .inr (.inl ended)
      · exact .inr (.inr (spent_step h (.inr lapsed) e))
    · exact .inr (.inr (.inl ⟨c, call.olderThan, cutoff, n, by rw [place, done]⟩))

/-- Once `createPruneApproval` is done no entry appears, and an approved one stays approved. -/
theorem entry_back (published : s.stage = .published) (e : Event κ) {p' : PruneAuth κ}
    (after : (step asked s e).entry = some p') :
    ∃ p, s.entry = some p ∧ (p.approved = true → p'.approved = true) := by
  obtain same | recorded | ⟨-, -, approved⟩ | ⟨-, none_⟩ | ⟨c, call, r, found, entry, -⟩ := entry_cases asked s e
  · exact ⟨p', same ▸ after, id⟩
  · simp [published] at recorded
  · obtain ⟨p, before, rfl⟩ := Option.map_eq_some_iff.mp (approved.symm.trans after)
    exact ⟨p, before, fun _ => rfl⟩
  · simp [none_] at after
  · obtain ⟨p, before, -, approved, -⟩ := runPrune_entry (entry.symm.trans after)
    exact ⟨p, before, fun h => approved.trans h⟩

/-- The human's yes is not forgotten: the callback is still to come, or the entry knows it. -/
structure Live (s : Approval κ) : Prop where
  waiting : s.row = some .pending → s.stage = .published → (∃ p, s.entry = some p) ∨ s.Spent
  approved : ∀ d, s.row = some (.approved d) → s.stage = .published ∧
    ((s.hook = some (.approve true) ∧ ((∃ p, s.entry = some p) ∨ s.Spent)) ∨
      (s.hook = none ∧ (s.Granted ∨ s.Spent) ∧ ∀ p, s.entry = some p → p.approved = true))

/-- The approval is confirmed only after its entry was set. -/
def Prompt (s : Approval κ) (e : Event κ) : Prop := e = .confirm → s.stage = .published

theorem kept_or_spent (h : Sound asked s) (open_ : ¬ Ended s.row) (e : Event κ)
    (has : (∃ p, s.entry = some p) ∨ s.Spent) :
    (∃ p, (step asked s e).entry = some p) ∨ (step asked s e).Spent := by
  obtain ⟨p, set⟩ | spent := has
  · obtain ⟨p', kept, -⟩ | ended | spent := entry_step h e set
    · exact .inl ⟨p', kept⟩
    · exact absurd ended open_
    · exact .inr spent
  · exact .inr (spent_step h spent e)

theorem granted_step (h : Sound asked s) (e : Event κ) (granted : s.Granted ∨ s.Spent) :
    (step asked s e).Granted ∨ (step asked s e).Spent := by
  obtain ⟨p, set, approved⟩ | spent := granted
  · obtain ⟨p', kept, still⟩ | ended | spent := entry_step h e set
    · exact .inl ⟨p', kept, still approved⟩
    · obtain ⟨d, at_, -⟩ := h.granted p set approved
      simp [Ended, at_] at ended
    · exact .inr spent
  · exact .inr (spent_step h spent e)

/-- What waits for an answer stays live, if the approval is confirmed after its entry was set. -/
theorem live_step (h : Sound asked s) (live : Live s) (prompt : Prompt s e) : Live (step asked s e) := by
  refine ⟨fun pending published => ?_, fun d at_ => ?_⟩
  · obtain before | set := publishes e published
    · have undecided : s.row = some .pending := by
        obtain ⟨same, -⟩ | ⟨counting, -⟩ | ⟨undecided, -⟩ := row_cases asked s e
        · exact same ▸ pending
        · cases before.symm.trans counting
        · exact undecided
      exact kept_or_spent h (by simp [Ended, undecided]) e (live.waiting undecided before)
    · exact .inl set
  obtain ⟨same, hook⟩ | ⟨-, pending⟩ | ⟨pending, ended | ⟨rfl, hook⟩⟩ := row_cases asked s e
  · have before := same ▸ at_
    obtain ⟨published, state⟩ := live.approved d before
    refine ⟨stage_step published e, ?_⟩
    obtain ⟨waits, has⟩ | ⟨ran, granted, known⟩ := state
    · obtain still | ⟨rfl, ran⟩ := hook
      · exact .inl ⟨still.trans waits, kept_or_spent h (by simp [Ended, before]) e has⟩
      · have entry : (step asked s .callback).entry = (s.toShared.approve (s.now + pruneAuthTTL)).entry := by
          simp [step, waits]
        refine .inr ⟨ran, ?_, fun p' set => ?_⟩
        · obtain ⟨p, set⟩ | spent := has
          · rw [Shared.approve, set] at entry
            exact .inl ⟨_, entry, rfl⟩
          · exact .inr (spent_step h spent _)
        · obtain ⟨p, -, rfl⟩ := Option.map_eq_some_iff.mp (entry.symm.trans set)
          rfl
    · refine .inr ⟨?_, granted_step h e granted, fun p' set => ?_⟩
      · obtain still | ⟨-, ran⟩ := hook
        · exact still.trans ran
        · exact ran
      · obtain ⟨p, before, approved⟩ := entry_back published e set
        exact approved (known p before)
  · cases pending.symm.trans at_
  · simp [Ended, at_] at ended
  · have published := prompt rfl
    have has := kept_or_spent h (by simp [Ended, pending]) .confirm (live.waiting pending published)
    exact ⟨stage_step published _, .inl ⟨by simp [hook, Approval.named, published], has⟩⟩

/-! ## Calls that begin later -/

/-- Where a call for an approved prune may be. -/
def Phase.Serves : Phase κ → Prop
  | .begun | .admitted _ | .queued | .running _ | .booking .. | .ending .. | .answered (.batch ..)
  | .answered .failed => True
  | _ => False

theorem runPrune_serves (c : Nat) (call : Call κ) (now : Time) (row : Option State) (r : Option (κ × Bool))
    (set : m.entry = some p) (approved : p.approved = true) (older : p.olderThan = call.olderThan)
    (serves : call.phase.Serves) :
    (runPrune c call now row r m).2.Serves ∨ ∃ u, call.phase = .admitted u ∧ u < now := by
  obtain ⟨o, phase⟩ := call
  cases phase with
  | begun => simp [runPrune, set, approved, older, Phase.Serves]
  | admitted u => by_cases late : u < now <;> simp [runPrune, late, Phase.Serves]
  | queued => cases lock : m.lock <;> simp [runPrune, set, lock, Phase.Serves]
  | running auth => cases r <;> simp [runPrune, Phase.Serves]
  | booking cutoff n more => cases more <;> simp [runPrune, Phase.Serves]
  | ending cutoff n => simp [runPrune, Phase.Serves]
  | answered a => exact .inl serves
  | absent | waiting _ | dropping _ => exact serves.elim

/-- The approval has run its course, or call `c` is served. -/
def Served (asked : PruneAuth κ) (c : Nat) (s : Approval κ) : Prop :=
  s.Spent ∨ (s.Granted ∧ ∀ call, s.calls c = some call → call.olderThan = asked.olderThan → call.phase.Serves)

theorem served_step (h : Sound asked s) (served : Served asked c s) (e : Event κ) :
    Served asked c (step asked s e) := by
  obtain spent | ⟨granted, place⟩ := served
  · exact .inl (spent_step h spent e)
  obtain granted' | spent := granted_step h e (.inl granted)
  · by_cases spent : (step asked s e).Spent
    · exact .inl spent
    refine .inr ⟨granted', fun call after older => ?_⟩
    obtain ⟨-, begun⟩ | before | ⟨call₀, r, before, rfl, -⟩ := calls_back asked s e after
    · simp [begun, Phase.Serves]
    · exact place call before older
    · obtain ⟨p, set, approved⟩ := granted
      obtain serves | ⟨u, admitted, late⟩ :=
        runPrune_serves c call₀ s.now s.row r set approved ((h.entry p set).2.trans older.symm)
          (place call₀ before older)
      · exact serves
      · obtain ⟨d, at_, le⟩ := h.placed.admits c call₀.olderThan u (by rw [before, ← admitted])
        exact absurd (spent_step h (.inr ⟨d, at_, lt_of_le_of_lt le late⟩) e) spent
  · exact .inl spent

/-- With no unapproved entry, call `c` never waits for the human. -/
def Undelayed (c : Nat) (s : Approval κ) : Prop :=
  (∀ p, s.entry = some p → p.approved = true) ∧ ∀ call, s.calls c = some call →
  ∀ cutoff, call.phase ≠ .waiting cutoff ∧
      call.phase ≠ .dropping (.pending cutoff) ∧ call.phase ≠ .answered (.pending cutoff)

theorem undelayed_step (published : s.stage = .published) (h : Undelayed c s) (e : Event κ) :
    Undelayed c (step asked s e) := by
  refine ⟨fun p' after => ?_, fun call after cutoff => ?_⟩
  · obtain ⟨p, set, approved⟩ := entry_back published e after
    exact approved (h.1 p set)
  · obtain ⟨-, begun⟩ | before | ⟨call₀, r, before, rfl, -⟩ := calls_back asked s e after
    · simp [begun]
    · exact h.2 call before cutoff
    · have place := h.2 call₀ before
      have entry := h.1
      unfold runPrune
      split <;> grind

/-- The approval is over, and call `c` is on its way to drop the entry unless the database fails it. -/
def Dropped (asked : PruneAuth κ) (c : Nat) (s : Approval κ) : Prop :=
  s.entry = none ∨ ∀ call, s.calls c = some call → call.olderThan = asked.olderThan →
    call.phase = .begun ∨ (∃ cutoff, call.phase = .waiting cutoff) ∨ (∃ a, call.phase = .dropping a) ∨
      call.phase = .answered .failed

theorem dropped_step (h : Sound asked s) (published : s.stage = .published) (ended : Ended s.row)
    (dropped : Dropped asked c s) (e : Event κ) :
    Dropped asked c (step asked s e) := by
  cases after : (step asked s e).entry with
  | none => exact .inl after
  | some p' =>
    obtain ⟨p, set, -⟩ := entry_back published e after
    have unapproved : p.approved = false := by
      by_contra approved
      obtain ⟨d, at_, -⟩ := h.granted p set (by simpa using approved)
      simp [Ended, at_] at ended
    have place := dropped.resolve_left (by simp [set])
    refine .inr fun call moved older => ?_
    obtain ⟨-, begun⟩ | before | ⟨call₀, r, before, rfl, entry⟩ := calls_back asked s e moved
    · exact .inl begun
    · exact place call before older
    · have older₀ := (h.entry p set).2.trans older.symm
      rw [after] at entry
      obtain begun | ⟨cutoff, waiting⟩ | ⟨a, dropping⟩ | failed := place call₀ before older
      · simp [runPrune, begun, set, unapproved, older₀]
      · cases r with
        | none => simp [runPrune, waiting]
        | some result => obtain row | row := ended <;> simp [runPrune, waiting, row]
      · simp [runPrune, dropping, Shared.drop] at entry
      · simp [runPrune, failed]

theorem sound_run (unapproved : asked.approved = false) (es : List (Event κ)) :
    Sound asked (run (step asked) {} es) :=
  run_invariant (motive := Sound asked) (fun _ e h => sound_step unapproved h e) (start_sound asked) es

theorem ended_step (h : Sound asked s) (ended : Ended s.row) (e : Event κ) : Ended (step asked s e).row := by
  obtain ⟨same, -⟩ | ⟨counting, -⟩ | ⟨pending, -⟩ := row_cases asked s e
  · rwa [same]
  · simp [Ended, h.fresh.mpr counting] at ended
  · simp [Ended, pending] at ended

theorem served_run (unapproved : asked.approved = false) {d : Time} (h : Sound asked s) (live : Live s)
    (at_ : s.row = some (.approved d)) (ran : s.hook = none) (unbegun : s.calls c = none) (fs : List (Event κ)) :
    Served asked c (run (step asked) s fs) ∧ Undelayed c (run (step asked) s fs) ∧
    (run (step asked) s fs).row = some (.approved d) := by
  obtain ⟨published, ⟨waits, -⟩ | ⟨-, granted, known⟩⟩ := live.approved d at_
  · cases ran.symm.trans waits
  have start : Served asked c s := by
    obtain granted | spent := granted
    · exact .inr ⟨granted, by simp [unbegun]⟩
    · exact .inl spent
  refine (run_invariant (motive := fun t => (Sound asked t ∧ t.stage = .published) ∧ Served asked c t ∧
    Undelayed c t ∧ t.row = some (.approved d))
    ?_ ⟨⟨h, published⟩, start, ⟨known, by simp [unbegun]⟩, at_⟩ fs).2
  rintro t e ⟨⟨h, published⟩, served, undelayed, at_⟩
  exact ⟨⟨sound_step unapproved h e, stage_step published e⟩, served_step h served e,
    undelayed_step published undelayed e, approved_step h at_ e⟩

theorem dropped_run (unapproved : asked.approved = false) (h : Sound asked s) (ended : Ended s.row)
    (published : s.stage = .published) (unbegun : s.calls c = none) (fs : List (Event κ)) :
    Dropped asked c (run (step asked) s fs) := by
  refine (run_invariant (motive := fun t => (Sound asked t ∧ t.stage = .published) ∧ Ended t.row ∧ Dropped asked c t)
    ?_ ⟨⟨h, published⟩, ended, .inr (by simp [unbegun])⟩ fs).2.2
  rintro t e ⟨⟨h, published⟩, ended, dropped⟩
  exact ⟨⟨sound_step unapproved h e, stage_step published e⟩, ended_step h ended e,
    dropped_step h published ended dropped e⟩

/-- The statements a call has before it at most. -/
def Phase.left : Phase κ → Nat
  | .begun => 7
  | .admitted _ => 6
  | .queued => 5
  | .running _ => 4
  | .booking .. => 3
  | .ending .. | .waiting _ => 2
  | .absent | .dropping _ => 1
  | .answered _ => 0

theorem call_moves (found : s.calls c = some call) (open_ : call.phase.left ≠ 0)
    (free : call.phase = .queued → s.lock = none) (r : Option (κ × Bool)) : ∃ phase,
    (step asked s (.call c r)).calls c = some { call with phase := phase } ∧ phase.left < call.phase.left := by
  refine ⟨(runPrune c call s.now s.row r s.toShared).2, by simp [step, found], ?_⟩
  unfold runPrune
  split <;> grind [Phase.left]

/-- Confirmed after its entry was set, a prune runs a batch for every call that begins once the callback has run,
until one reports the end; a rejected or expired one leaves no entry behind such a call that could read the
approval; and every statement brings a call nearer to its answer. -/
theorem approved_prune_runs [Zero κ] (olderThan : Int) (cutoff : Time) (counts : κ) :
    let next := step (asks olderThan cutoff counts)
    (∀ es, Follows next Prompt {} es → let s := run next {} es
      ∀ d, s.row = some (.approved d) → s.hook = none → ∀ fs c, s.calls c = none → let t := run next s fs
        ∀ call a, t.calls c = some call → call.olderThan = olderThan → call.phase = .answered a →
          (∀ cutoff, a ≠ .pending cutoff) ∧ (t.now ≤ d + pruneAuthTTL →
            (∃ cutoff n more, a = .batch cutoff n more) ∨ a = .failed ∨
              ∃ c o cutoff n, t.calls c = some ⟨o, .answered (.batch cutoff n false)⟩)) ∧
    (∀ es, let s := run next {} es
      Ended s.row → s.stage = .published → ∀ fs c, s.calls c = none → let t := run next s fs
        ∀ call a, t.calls c = some call → call.olderThan = olderThan → call.phase = .answered a → a ≠ .failed →
          t.entry = none) ∧
    ∀ (s : Approval κ) c call r, s.calls c = some call → call.phase.left ≠ 0 →
    (call.phase = .queued → s.lock = none) →
      ∃ phase, (next s (.call c r)).calls c = some { call with phase := phase } ∧ phase.left < call.phase.left := by
  refine ⟨?_, ?_, fun s c call r found open_ free => call_moves found open_ free r⟩
  · intro es prompt s d at_ ran fs c unbegun t call a found older answered
    have live : Sound (asks olderThan cutoff counts) s ∧ Live s :=
      run_invariant_of (motive := fun s => Sound (asks olderThan cutoff counts) s ∧ Live s)
        (fun _ e h prompt => ⟨sound_step rfl h.1 e, live_step h.1 h.2 prompt⟩) ⟨start_sound _,
          by simp, by simp⟩ prompt
    obtain ⟨served, undelayed, still⟩ := served_run rfl live.1 live.2 at_ ran unbegun fs
    refine ⟨?_, fun timely => ?_⟩
    · rintro cutoff rfl
      exact (undelayed.2 call found cutoff).2.2 answered
    · obtain (⟨c', o, cut, n, done⟩ | ⟨d', at', late⟩) | ⟨-, serves⟩ := served
      · exact .inr (.inr ⟨c', o, cut, n, done⟩)
      · obtain rfl : d = d' := by simpa using still.symm.trans at'
        exact absurd late (not_lt.mpr timely)
      · have := serves call found older
        rw [answered] at this
        cases a with
        | batch cut n more => exact .inl ⟨cut, n, more, rfl⟩
        | failed => exact .inr (.inl rfl)
        | _ => exact this.elim
  · intro es s ended published fs c unbegun t call a found older answered read
    obtain none_ | place := dropped_run rfl (sound_run rfl es) ended published unbegun fs
    · exact none_
    · have := place call found older
      simp [answered, read] at this

/-- The approval of a prune of 35 s is stored, published and confirmed, and the callback has run. -/
def confirmedPrune : List (Event Nat) := [.create, .create, .create, .create, .confirm, .callback]

/-- A call that then begins and runs the only batch. -/
def onlyBatch : List (Event Nat) := .begin_ 0 35 :: List.replicate 6 (.call 0 (some (1, false)))

/-- The call of a confirmed prune answers with its batch, and one of a rejected prune drops the entry. -/
theorem confirmed_prune_answers : let next := step (asks 35 0 1)
    let s := run next (run next {} confirmedPrune) onlyBatch
    let r := run next (run next {} [.create, .create, .reject, .callback, .create, .create])
      (.begin_ 0 35 :: List.replicate 3 (.call 0 (some (1, false))))
    s.calls 0 = some ⟨35, .answered (.batch 0 1 false)⟩ ∧
    ((∃ cutoff n more, Answer.batch 0 1 false = .batch cutoff n more) ∨
      Answer.batch 0 1 false = .failed ∨ ∃ c o cutoff n, s.calls c = some ⟨o, .answered (.batch cutoff n false)⟩) ∧
    r.calls 0 = some ⟨35, .answered .rejected⟩ ∧ r.entry = none := by
  obtain ⟨approved, ended, -⟩ := approved_prune_runs 35 0 (1 : Nat)
  have prompt : Follows (step (asks 35 0 (1 : Nat))) Prompt {} confirmedPrune := by
    simp [confirmedPrune, Follows, Prompt, step, createPruneApproval]
  exact ⟨by decide, (approved confirmedPrune prompt 0 rfl rfl onlyBatch 0 rfl ⟨35, .answered (.batch 0 1 false)⟩ _
      (by decide) rfl rfl).2 (by decide),
    by decide, ended _ (.inl rfl) rfl _ 0 rfl ⟨35, .answered .rejected⟩ .rejected (by decide) rfl rfl (by simp)⟩

/-- The human confirms before `Create` has returned: the callback finds no recorded id, the entry is set unapproved
after it, and every call answers that the prune still waits. -/
theorem early_confirm_lost : let asked : PruneAuth Nat := asks 35 0 1
    let s := run (step asked) {} [.create, .confirm, .callback, .create, .create, .create]
    s.row = some (.approved 0) ∧ s.hook = none ∧ s.stage = .published ∧
      (run (step asked) s [.begin_ 0 35, .call 0 (some (1, false)), .call 0 (some (1, false))]).calls 0 =
        some ⟨35, .answered (.pending 0)⟩ := by
  decide

end Agentnet.Prune
