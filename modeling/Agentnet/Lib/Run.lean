import Mathlib.Data.List.Induction
import Mathlib.Order.Basic

/-! Runs of a deterministic machine: the events carry every choice of the
environment, so a run is a fold over a list of events. -/

namespace Agentnet.Lib

variable {σ τ ε : Type*}

/-- The state after executing `es` from `s`. -/
def run (step : σ → ε → σ) (s : σ) (es : List ε) : σ := es.foldl step s

@[simp] theorem run_nil (step : σ → ε → σ) (s : σ) : run step s [] = s := rfl

@[simp] theorem run_cons (step : σ → ε → σ) (s : σ) (e : ε) (es : List ε) :
    run step s (e :: es) = run step (step s e) es := rfl

theorem run_append (step : σ → ε → σ) (s : σ) (es fs : List ε) :
    run step s (es ++ fs) = run step (run step s es) fs := List.foldl_append

@[simp] theorem run_concat (step : σ → ε → σ) (s : σ) (es : List ε) (e : ε) :
    run step s (es ++ [e]) = step (run step s es) e := by
  rw [run_append, run_cons, run_nil]

/-- Every event of the run meets `guard` in the state it is taken from. -/
def Follows (step : σ → ε → σ) (guard : σ → ε → Prop) : σ → List ε → Prop
  | _, [] => True
  | s, e :: es => guard s e ∧ Follows step guard (step s e) es

instance Follows.decidable (step : σ → ε → σ) (guard : σ → ε → Prop) [∀ s e, Decidable (guard s e)] :
    (s : σ) → (es : List ε) → Decidable (Follows step guard s es)
  | _, [] => inferInstanceAs (Decidable True)
  | s, e :: es =>
    have := Follows.decidable step guard (step s e) es
    inferInstanceAs (Decidable (_ ∧ _))

variable {es : List ε} {guard : σ → ε → Prop} {s : σ} {step : σ → ε → σ} {motive : σ → Prop}

/-- A rule over two runs in turn. -/
theorem Follows.append {fs : List ε} : Follows step guard s (es ++ fs) ↔
      Follows step guard s es ∧ Follows step guard (run step s es) fs := by
  induction es generalizing s with
  | nil => simp [Follows]
  | cons e es ih => simp only [List.cons_append, Follows, ih, run_cons, and_assoc]

theorem run_invariant_of
    (preserved : ∀ s e, motive s → guard s e → motive (step s e)) (start : motive s)
    (follows : Follows step guard s es) : motive (run step s es) := by
  induction es generalizing s with
  | nil => exact start
  | cons e es ih => exact ih (preserved s e start follows.1) follows.2

theorem run_invariant (preserved : ∀ s e, motive s → motive (step s e)) (start : motive s) (es : List ε) :
    motive (run step s es) := by
  induction es generalizing s with
  | nil => exact start
  | cons e es ih => exact ih (preserved s e start)

theorem run_history {motive : List ε → σ → Prop} (start : motive [] s)
    (extend : ∀ es e, motive es (run step s es) → motive (es ++ [e]) (step (run step s es) e))
    (es : List ε) : motive es (run step s es) := by
  induction es using List.reverseRecOn with
  | nil => exact start
  | append_singleton es e ih => simpa only [run_concat] using extend es e ih

/-! ## Moments of a run -/

section Moments

variable {step : σ → ε → σ} {s : σ} {es : List ε} {n : Nat}

/-- The state after the first `n` events. -/
def runTo (step : σ → ε → σ) (s : σ) (es : List ε) (n : Nat) : σ := run step s (es.take n)

theorem runTo_succ {e : ε} (found : es[n]? = some e) : runTo step s es (n + 1) = step (runTo step s es n) e := by
  rw [runTo, List.take_add_one, found, Option.toList_some, run_concat, runTo]

theorem runTo_of_none (past : es[n]? = none) : runTo step s es (n + 1) = runTo step s es n := by
  rw [runTo, List.take_add_one, past, Option.toList_none, List.append_nil, runTo]

theorem runTo_induction {motive : σ → Prop} {m : Nat} (start : motive (runTo step s es m))
    (preserved : ∀ p e, m ≤ p → motive (runTo step s es p) → motive (step (runTo step s es p) e)) (le : m ≤ n) :
    motive (runTo step s es n) := by
  induction le with
  | refl => exact start
  | @step n le ih =>
    cases found : es[n]? with
    | none => rwa [runTo_of_none found]
    | some e =>
      rw [runTo_succ found]
      exact preserved n e le ih

/-- Each event of a run that follows a rule obeys it in the state it meets. -/
theorem Follows.at {guard : σ → ε → Prop} (follows : Follows step guard s es) {e : ε} (found : es[n]? = some e) :
    guard (runTo step s es n) e := by
  induction n generalizing s es with
  | zero =>
    cases es with
    | nil => cases found
    | cons f es =>
      cases found
      exact follows.1
  | succ n ih =>
    cases es with
    | nil => cases found
    | cons f es => exact ih follows.2 found

end Moments

/-! ## Outputs -/

section Outputs

variable {ω : Type*}

def traced (step : σ → ε → σ) (out : σ → ε → List ω) (s : σ × List ω) (e : ε) : σ × List ω :=
  (step s.1 e, s.2 ++ out s.1 e)

def outputs (step : σ → ε → σ) (out : σ → ε → List ω) (s : σ) (es : List ε) : List ω :=
  (run (traced step out) (s, []) es).2

theorem run_traced_fst (step : σ → ε → σ) (out : σ → ε → List ω) (s : σ × List ω) (es : List ε) :
    (run (traced step out) s es).1 = run step s.1 es := by
  induction es generalizing s with
  | nil => rfl
  | cons e es ih => exact ih (traced step out s e)

theorem outputs_concat (step : σ → ε → σ) (out : σ → ε → List ω) (s : σ) (es : List ε) (e : ε) :
    outputs step out s (es ++ [e]) = outputs step out s es ++ out (run step s es) e := by
  simp only [outputs, run_concat, traced, run_traced_fst]

end Outputs

/-! ## Clocks -/

section Clock

variable {T : Type*} [Preorder T] {time : ε → T}

/-- The clock, which reads `t` at first, never goes back. -/
def Clocked (time : ε → T) : T → List ε → Prop
  | _, [] => True
  | t, e :: es => t ≤ time e ∧ Clocked time (time e) es

instance Clocked.decidable (time : ε → T) [DecidableLE T] :
    (t : T) → (es : List ε) → Decidable (Clocked time t es)
  | _, [] => inferInstanceAs (Decidable True)
  | _, e :: es =>
    have := Clocked.decidable time (time e) es
    inferInstanceAs (Decidable (_ ∧ _))

/-- The time of the last event. -/
def clock (time : ε → T) (t : T) (es : List ε) : T := run (fun _ e => time e) t es

variable {es : List ε} {t : T} {motive : T → σ → Prop} {step : σ → ε → σ}

/-- A clock that does not go back, over two runs in turn. -/
theorem Clocked.append {fs : List ε} :
    Clocked time t (es ++ fs) ↔ Clocked time t es ∧ Clocked time (clock time t es) fs := by
  induction es generalizing t with
  | nil => simp [Clocked, clock]
  | cons e es ih =>
    simp only [List.cons_append, Clocked, ih, and_assoc]
    rfl

theorem Clocked.le_of_mem (clocked : Clocked time t es) {e : ε} (mem : e ∈ es) : t ≤ time e := by
  induction es generalizing t with
  | nil => cases mem
  | cons f es ih =>
    cases mem with
    | head => exact clocked.1
    | tail _ mem => exact clocked.1.trans (ih clocked.2 mem)

/-- Events in turn have times in order. -/
theorem Clocked.le (clocked : Clocked time t es) {m n : Nat} {e f : ε} (le : m ≤ n) (first : es[m]? = some e)
    (second : es[n]? = some f) : time e ≤ time f := by
  induction m generalizing t es n with
  | zero =>
    cases es with
    | nil => cases first
    | cons g es =>
      cases first
      cases n with
      | zero =>
        cases second
        exact le_rfl
      | succ n => exact clocked.2.le_of_mem (List.mem_of_getElem? second)
  | succ m ih =>
    cases es with
    | nil => cases first
    | cons g es =>
      obtain ⟨n, rfl⟩ := Nat.exists_eq_add_of_lt le
      exact ih clocked.2 (by omega) first second

theorem run_clocked_of {guard : σ → ε → Prop}
    (preserved : ∀ t s e, motive t s → t ≤ time e → guard s e → motive (time e) (step s e)) {s : σ}
    (start : motive t s) (clocked : Clocked time t es) (follows : Follows step guard s es) :
    motive (clock time t es) (run step s es) := by
  induction es generalizing t s with
  | nil => exact start
  | cons e es ih => exact ih (preserved t s e start clocked.1 follows.1) clocked.2 follows.2

theorem run_clocked (preserved : ∀ t s e, motive t s → t ≤ time e → motive (time e) (step s e)) {s : σ}
    (start : motive t s) (clocked : Clocked time t es) : motive (clock time t es) (run step s es) := by
  induction es generalizing t s with
  | nil => exact start
  | cons e es ih => exact ih (preserved t s e start clocked.1) clocked.2

end Clock

end Agentnet.Lib
