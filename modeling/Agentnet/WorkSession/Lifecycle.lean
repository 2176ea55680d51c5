import Agentnet.WorkSession.Agreement

/-! The two daemons run the protocol, and the life of a request at its recipient. -/

namespace Agentnet
open Lib WorkSession.Protocol

variable {δ : Type}

/-- Whatever is lost, repeated or reordered between the daemons, they run the protocol. -/
theorem daemons_run_protocol (p : Parties δ) (undebated : δ) (es fs : List PairEvent) :
    (Pair.after p undebated []).system = .initial ∧
      Relation.ReflTransGen System.Step (Pair.after p undebated es).system
        (Pair.after p undebated (es ++ fs)).system := by
  have both := run_invariant (motive := fun s : Pair δ => s.Inv ∧
      Relation.ReflTransGen System.Step (Pair.after p undebated es).system s.system)
    (fun s e inv => ⟨inv.1.step (p := p) e, inv.2.tail (inv.1.refines e).system⟩)
      ⟨Pair.after_inv p undebated es, .refl⟩ fs
  refine ⟨rfl, ?_⟩
  rw [show Pair.after p undebated (es ++ fs) = _ from run_append ..]
  exact both.2

namespace WorkSession.Protocol

/-- A transition of a request at its recipient. -/
inductive Next : Option Numbered → Numbered → Prop where
  | arrives : Next none ⟨.pending, 0⟩
  | answered {state : Request.State} (kind : state = .accepted ∨ state = .declined ∨ state = .cancelled) :
      Next none ⟨state, 1⟩
  | moves {i : Numbered} {state : Request.State} (waiting : i.state = .pending ∨ i.state = .deferred)
      (kind : state = .accepted ∨ state = .declined ∨ state = .deferred ∨ state = .cancelled) :
      Next (some i) ⟨state, i.seq + 1⟩
  | completes {i : Numbered} (accepted : i.state = .accepted) : Next (some i) ⟨.completed, i.seq + 1⟩

def earlyCancel : Numbered := ⟨.cancelled, 1⟩

/-- What an event makes of the row and of the replies sent so far. -/
inductive Announces (old : Option Numbered) (sent : List Numbered) : Option Numbered → List Numbered → Prop where
  | quiet : Announces old sent old sent
  | echoes {i : Numbered} (known : old = some i) : Announces old sent old (sent ++ [i])
  | early (unknown : old = none) : Announces old sent old (sent ++ [earlyCancel])
  | stores {i : Numbered} (unknown : old = none) (next : Next old i) : Announces old sent (some i) sent
  | replies {i : Numbered} (next : Next old i) : Announces old sent (some i) (sent ++ [i])

variable {ρ : Type} {announced : Tuple → Prop} {s s' : Worker ρ} {label : Worker.Label} {old new : Option Numbered}
  {sent sent' : List Numbered}

theorem announces_complete (s : Worker ρ) : Announces s.request s.replies s.complete.request s.complete.replies := by
  unfold Worker.complete
  split
  · next i known =>
    split
    · next accepted => exact .replies (known ▸ .completes accepted)
    · exact .quiet
  · exact .quiet

theorem Worker.Step.announces (step : s.Step announced label s') :
    Announces s.request s.replies s'.request s'.replies := by
  cases step with
  | receives now created unknown => exact .stores unknown (unknown ▸ .arrives)
  | receivesAccepting now created unknown => exact .replies (unknown ▸ .answered (.inl rfl))
  | refuses now created unknown => exact .replies (unknown ▸ .answered (.inr (.inl rfl)))
  | consumes t unknown => exact .stores unknown (unknown ▸ .answered (.inr (.inr rfl)))
  | cancelsEarly now unknown => exact .early unknown
  | accepts i known waiting => exact .replies (known ▸ .moves waiting (.inl rfl))
  | answers i x known waiting => exact .replies (known ▸ .moves waiting (.inl rfl))
  | ends i state known waiting kind => exact .replies (known ▸ .moves waiting (.inr kind))
  | completes i known accepted => exact .replies (known ▸ .completes accepted)
  | echoes i known => exact .echoes known
  | closes r m => exact announces_complete { s with session := some (r.follow m), closes := s.closes + 1 }
  | fallsBack r =>
    exact announces_complete { s with session := some { r with state := .closed .cancelled }, closes := s.closes + 1 }
  | idle | prunes | submits | follows => exact .quiet

/-- Replies about a stored request have its number or a lower one, and two with one number say the same. -/
structure Ordered (row : Option Numbered) (sent : List Numbered) : Prop where
  row : ∀ i ∈ sent, i = earlyCancel ∨ ∃ r, row = some r ∧ (i = r ∨ i.seq < r.seq)
  alike : ∀ i ∈ sent, ∀ j ∈ sent, i.seq = j.seq → i = j ∨ i = earlyCancel ∨ j = earlyCancel

/-- Announcements stay in the order of their numbers. -/
theorem Ordered.step (h : Ordered old sent) (announces : Announces old sent new sent') : Ordered new sent' := by
  obtain ⟨row, alike⟩ := h
  cases announces with
  | quiet => exact ⟨row, alike⟩
  | echoes known => constructor <;> grind
  | early unknown => constructor <;> grind
  | stores unknown next => constructor <;> grind
  | replies next => cases next <;> constructor <;> grind

end WorkSession.Protocol

/-- The recipient's row of a request moves by its transitions only, each of which it announces unless it has just
stored the row, and what it announced under one number is one state. -/
theorem request_life_cycle (p : Parties δ) (undebated : δ) (es : List PairEvent) : let s := Pair.after p undebated es
    (∀ e, let t := Pair.after p undebated (es ++ [e])
      Announces s.b.worker.request s.b.worker.replies t.b.worker.request t.b.worker.replies) ∧
    Ordered s.b.worker.request s.b.worker.replies := by
  have step : ∀ s : Pair δ, s.Inv → ∀ e : PairEvent,
      Announces s.b.worker.request s.b.worker.replies (e.step p s).b.worker.request
        (e.step p s).b.worker.replies := by
    intro s inv e
    have refines := inv.refines (p := p) e
    generalize e.step p s = t at refines
    cases refines with
    | worker we label b acts refines => exact refines.step.announces
    | stays | requester => exact .quiet
  have both := run_invariant (motive := fun s : Pair δ => s.Inv ∧ Ordered s.b.worker.request s.b.worker.replies)
    (fun s e h => ⟨h.1.step (p := p) e, h.2.step (step s h.1 e)⟩) ⟨Pair.initial_inv undebated,
      by constructor <;> simp [Pair.initial, Cell.worker, replied]⟩ es
  refine ⟨fun e => ?_, both.2⟩
  rw [show Pair.after p undebated (es ++ [e]) = _ from run_concat ..]
  exact step _ both.1 e

end Agentnet
