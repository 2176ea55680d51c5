/-! Taking a computation that may fail apart at its steps. -/

namespace Agentnet.Lib

universe u v

variable {ε : Type u} {α β : Type v}

/-- Fail with `e` unless `p` holds. -/
def require (p : Prop) [Decidable p] (e : ε) : Except ε PUnit := if p then .ok () else .error e

variable {e : ε} {f : α → Except ε β} {x : Except ε α} {γ : Type v}

@[simp] theorem require_eq_ok {p : Prop} [Decidable p] {u : PUnit} : require p e = .ok u ↔ p := by
  unfold require
  split
  · exact ⟨fun _ => ‹p›, fun _ => rfl⟩
  · exact ⟨fun h => (by cases h), fun h => absurd h ‹¬p›⟩

/-- A sequence succeeds when both parts do. -/
theorem bind_eq_ok {b : β} : (x >>= f) = .ok b ↔ ∃ a, x = .ok a ∧ f a = .ok b := by
  cases x with
  | error e => exact ⟨fun h => (by cases h), fun ⟨_, h, _⟩ => (by cases h)⟩
  | ok a => exact ⟨fun h => ⟨a, rfl, h⟩, fun ⟨_, h, hb⟩ => by cases h; exact hb⟩

theorem map_eq_ok {f : α → β} {b : β} : x.map f = .ok b ↔ ∃ a, x = .ok a ∧ f a = b := by
  cases x with
  | error e => exact ⟨fun h => (by cases h), fun ⟨_, h, _⟩ => (by cases h)⟩
  | ok a => exact ⟨fun h => ⟨a, rfl, Except.ok.inj h⟩, fun ⟨_, h, hb⟩ => by cases h; exact congrArg _ hb⟩

theorem bind_eq_error : (x >>= f) = .error e ↔ x = .error e ∨ ∃ a, x = .ok a ∧ f a = .error e := by
  cases x with
  | error e' => exact ⟨fun h => .inl (by cases h; rfl), fun h => by
    rcases h with h | ⟨_, h, _⟩
    · cases h; rfl
    · cases h⟩
  | ok a => exact ⟨fun h => .inr ⟨a, rfl, h⟩, fun h => by
    rcases h with h | ⟨_, h, he⟩
    · cases h
    · cases h; exact he⟩

theorem require_eq_error {p : Prop} [Decidable p] {e' : ε} : require p e = .error e' ↔ ¬p ∧ e = e' := by
  unfold require
  split
  · exact ⟨fun h => (by cases h), fun h => absurd ‹p› h.1⟩
  · exact ⟨fun h => ⟨‹¬p›, Except.error.inj h⟩, fun h => by rw [h.2]⟩

@[simp] theorem ok_bind (a : α) (f : α → Except ε β) : (Except.ok a >>= f) = f a := rfl

@[simp] theorem error_bind (e : ε) (f : α → Except ε β) : ((Except.error e : Except ε α) >>= f) = .error e := rfl

@[simp] theorem map_ok (f : α → γ) (a : α) : (Except.ok a : Except ε α).map f = .ok (f a) := rfl

@[simp] theorem map_error (f : α → γ) (e : ε) : (Except.error e : Except ε α).map f = .error e := rfl

@[simp] theorem map_bind (f : β → γ) (x : Except ε α) (g : α → Except ε β) :
    (x >>= g).map f = x >>= fun a => (g a).map f := by
  cases x <;> rfl

@[simp] theorem mapError_eq_ok {ε' : Type u} {f : ε → ε'} {a : α} : x.mapError f = .ok a ↔ x = .ok a := by
  cases x with
  | error e => exact ⟨fun h => (by cases h), fun h => (by cases h)⟩
  | ok b => exact ⟨fun h => congrArg _ (Except.ok.inj h), fun h => congrArg _ (Except.ok.inj h)⟩

theorem bind_fst (x : Except ε (α × β)) : (x >>= fun p => .ok p.1) = x.map Prod.fst := by
  cases x <;> rfl

end Agentnet.Lib
