import Agentnet.Approval.Store
import Mathlib.Logic.Relation

/-! The life of one approval: what the store knows under an id, the moves a step can make with it, and the stages
that these moves lead through. -/

namespace Agentnet.Approval

open Lib Relation

variable {μ : Type}

structure Slot (μ : Type) where
  entry : Option (Live μ) := none
  draft : Option Draft := none
  row : Option Row := none
  job : Option Job := none
  timed : Bool := false
  used : Bool := false
  performed : Nat := 0
  hooked : Nat := 0
  tests : Nat := 0
  created : List StoreTime := []

/-- Everything the store has of one approval. -/
def Store.slot (s : Store μ) (id : ApprovalID) : Slot μ where
  entry := s.pending.lookup id
  draft := s.drafts.lookup id
  row := s.rows.lookup id
  job := s.jobs.lookup id
  timed := s.timed.contains id
  used := s.used.contains id
  performed := s.performed.count id
  hooked := s.hooked.count id
  tests := s.tested.countP fun t => decide (t.id = id)
  created := (s.created.filter fun c => decide (c.1 = id)).map Prod.snd

def Job.Writes : Job → Prop
  | .reject | .expire | .hookThenRetry _ => True
  | .hook | .retry _ _ => False

/-- The row stays, or it was pending and is expired as of `d`. -/
def MayExpire (d : StoreTime) (old new : Option Row) : Prop :=
  new = old ∨ ∃ r, old = some r ∧ r.state = .pending ∧ new = some { r with state := .expired, decided := some d }

theorem MayExpire.not_approved {d : StoreTime} {old new : Option Row} (may : MayExpire d old new)
    (kept : ∀ r ∈ old, r.state ≠ .approved) :
    ∀ r ∈ new, r.state ≠ .approved := by
  intro r mem
  rcases may with rfl | ⟨_, _, _, rfl⟩
  · exact kept r mem
  · cases mem
    exact State.noConfusion

def Row.tried (r : Row) : Row := { r with attempts := r.attempts + 1, state := .pending, decided := none }

namespace Slot

/-- What a step at `now` may do under one id, a reservation apart. -/
inductive Move (now : Time) : Slot μ → Slot μ → Prop
  | release {a : Slot μ} {d : Draft} (draft : a.draft = some d) :
      Move now a { a with entry := a.entry.filter fun e => !e.reserved, draft := none }
  | forget {a : Slot μ} {d : Draft} (draft : a.draft = some d) : Move now a { a with entry := none, draft := none }
  | drop {a : Slot μ} {e : Live μ} (entry : a.entry = some e) (reserved : e.reserved = true) :
      Move now a { a with entry := none }
  | store {a : Slot μ} {d : Draft} {e e' : Live μ} (draft : a.draft = some d) (entry : a.entry = some e)
      (stored : e'.reserved = false)
      (attempts : e'.attempts = e.attempts) :
      Move now a { a with
        entry := some e', draft := none, timed := true, created := storeTime d.now :: a.created
        row := some {
          kind := d.kind, subject := d.subject, summary := d.summary, created := storeTime d.now
          expires := storeTime (d.now + ttl) } }
  | touch {a : Slot μ} {e e' : Live μ} (entry : a.entry = some e) (reserved : e'.reserved = e.reserved)
      (attempts : e'.attempts = e.attempts) :
      Move now a { a with entry := some e' }
  | take {a : Slot μ} {e : Live μ} {j : Job} (entry : a.entry = some e) (live : e.reserved = false ∨ a.timed = true)
      (writes : j = .reject ∨ j = .expire) : Move now a { a with entry := none, job := some j }
  | expire {a : Slot μ} {e : Live μ} {r : Row} (entry : a.entry = some e) (live : e.reserved = false)
      (row : a.row = some r) :
      Move now a { a with entry := none, row := some (Store.decide' .expired now r), job := some .hook }
  | approve {a : Slot μ} {e : Live μ} {r : Row} (entry : a.entry = some e) (live : e.reserved = false)
      (row : a.row = some r) :
      Move now a { a with entry := none, row := some (Store.decide' .approved now r), performed := a.performed + 1 }
  | count {a : Slot μ} {e e' : Live μ} {r : Row} (entry : a.entry = some e) (live : e.reserved = false)
      (row : a.row = some r)
      (live' : e'.reserved = false) (attempts : e'.attempts = e.attempts + 1) (room : e.attempts + 1 < maxAttempts) :
      Move now a { a with entry := some e', row := some r.tried, tests := a.tests + 1 }
  | exhaust {a : Slot μ} {e : Live μ} {r : Row} (entry : a.entry = some e) (live : e.reserved = false)
      (row : a.row = some r) :
      Move now a { a with
        entry := none, row := some (Store.decide' .rejected now { r with attempts := r.attempts + 1 }), job :=
          some .hook, tests := a.tests + 1 }
  | give {a : Slot μ} {e : Live μ} {r r' : Row} (entry : a.entry = some e) (live : e.reserved = false)
      (row : a.row = some r)
      (open' : r' = r ∨ r' = r.tried) :
      Move now a { a with entry := none, row := some r', job := some .reject, tests := a.tests + 1 }
  | rejectRow {a : Slot μ} {new : Option Row} (job : a.job = some .reject)
      (row : new = a.row ∨ new = a.row.map (Store.decide' .rejected now)) :
      Move now a { a with row := new, job := some .hook }
  | hook {a : Slot μ} (job : a.job = some .hook) : Move now a { a with job := none, hooked := a.hooked + 1 }
  | expireFails {a : Slot μ} (job : a.job = some .expire) :
      Move now a { a with job := some (.hookThenRetry (storeTime now)) }
  | written {a : Slot μ} {r : Row} (job : a.job = some .expire) (row : a.row = some r)
      (pending : r.state = .pending) :
      Move now a { a with row := some (Store.decide' .expired now r), job := some .hook }
  | decided {a : Slot μ} (job : a.job = some .expire) (row : ∀ r, a.row = some r → r.state ≠ .pending) :
      Move now a { a with job := none }
  | hookFirst {a : Slot μ} {d : StoreTime} (job : a.job = some (.hookThenRetry d)) :
      Move now a { a with job := some (.retry d 1), hooked := a.hooked + 1 }
  | retry {a : Slot μ} {d : StoreTime} {n : Nat} (job : a.job = some (.retry d n)) :
      Move now a { a with job := some (.retry d (n + 1)) }
  | retryEnds {a : Slot μ} {d : StoreTime} {n : Nat} {new : Option Row} (job : a.job = some (.retry d n))
      (row : MayExpire d a.row new) :
      Move now a { a with row := new, job := none }
  | prune {a : Slot μ} {r : Row} {d : StoreTime} (row : a.row = some r) (state : r.state ≠ .pending)
      (decided : r.decided = some d)
      (old : d < storeTime (now - decidedRetention)) : Move now a { a with row := none }
  | restart {a : Slot μ} {new : Option Row} (row : MayExpire (storeTime now) a.row new) :
      Move now a { a with entry := none, draft := none, row := new, job := none, timed := false }

/-- The slot of an id that is drawn by `Create`. -/
def reserve (e : Live μ) (d : Draft) (a : Slot μ) : Slot μ :=
  { a with entry := some e, draft := some d, used := true }

/-- The stages of an approval. An entry that is not reserved has a pending row and no job; what has left memory is
either performed, or its hook is still to run, or the hook has run. -/
inductive Ok : Slot μ → Prop
  | fresh : Ok {}
  | reserved {e : Live μ} {d : Draft} (reserved : e.reserved = true) (untried : e.attempts = 0) :
      Ok { entry := some e, draft := some d, used := true }
  | lost {d : Option Draft} : Ok { draft := d, used := true }
  | live {e : Live μ} {r : Row} {n : Nat} {c : List StoreTime} (live : e.reserved = false)
      (pending : r.state = .pending)
      (tests : n = e.attempts) (room : n < maxAttempts) :
      Ok { entry := some e, row := some r, timed := true, used := true, tests := n, created := c }
  | approved {o : Option Row} {timed : Bool} {n : Nat} {c : List StoreTime}
      (approved : ∀ r ∈ o, r.state = .approved) (few : n ≤ maxAttempts) :
      Ok { row := o, timed, used := true, performed := 1, tests := n, created := c }
  | writing {r : Row} {j : Job} {n : Nat} {c : List StoreTime} (pending : r.state = .pending) (writes : j.Writes)
      (few : n ≤ maxAttempts) :
      Ok { row := some r, job := some j, timed := true, used := true, tests := n, created := c }
  | owed {o : Option Row} {n : Nat} {c : List StoreTime} (kept : ∀ r ∈ o, r.state ≠ .approved)
      (few : n ≤ maxAttempts) :
      Ok { row := o, job := some .hook, timed := true, used := true, tests := n, created := c }
  | retrying {r : Row} {d : StoreTime} {m n : Nat} {c : List StoreTime} (pending : r.state = .pending)
      (few : n ≤ maxAttempts) :
      Ok { row := some r, job := some (.retry d m), timed := true, used := true, hooked := 1, tests := n
           created := c }
  | ended {o : Option Row} {timed : Bool} {n : Nat} {c : List StoreTime} (kept : ∀ r ∈ o, r.state ≠ .approved)
      (few : n ≤ maxAttempts) :
      Ok { row := o, timed, used := true, hooked := 1, tests := n, created := c }
  | left {o : Option Row} {n : Nat} {c : List StoreTime} (few : n ≤ maxAttempts) :
      Ok { row := o, used := true, tests := n, created := c }

variable {a b : Slot μ} {e : Live μ} {now : Time} {r : Row}

theorem Ok.reserve {d : Draft} (ok : a.Ok) (fresh : a.used = false) (reserved : e.reserved = true)
    (untried : e.attempts = 0) : (a.reserve e d).Ok := by
  cases ok with
  | fresh => exact .reserved reserved untried
  | _ => cases fresh

/-- The invariant of one approval, over every move. -/
theorem Move.ok (move : Move now a b) (ok : a.Ok) : b.Ok := by
  cases move with
  | release draft =>
    cases ok with
    | reserved reserved untried =>
      simp only [Option.filter, reserved]
      exact .lost
    | lost => exact .lost
    | _ => cases draft
  | forget draft =>
    cases ok with
    | reserved => exact .lost
    | lost => exact .lost
    | _ => cases draft
  | drop entry reserved =>
    cases ok with
    | reserved => exact .lost
    | live live =>
      cases entry
      cases reserved.symm.trans live
    | _ => cases entry
  | store draft entry stored attempts =>
    cases ok with
    | reserved _ untried =>
      cases entry
      exact .live (r := { kind := _, subject := _, summary := _, created := _, expires := _ }) stored rfl
        (attempts.trans untried).symm (Nat.zero_lt_succ 2)
    | lost => cases entry
    | _ => cases draft
  | touch entry reserved attempts =>
    cases ok with
    | reserved isReserved untried =>
      cases entry
      exact .reserved (reserved.trans isReserved) (attempts.trans untried)
    | live live pending tests room =>
      cases entry
      exact .live (reserved.trans live) pending (tests.trans attempts.symm) room
    | _ => cases entry
  | take entry live writes =>
    cases ok with
    | reserved reserved =>
      cases entry
      rcases live with live | live
      · cases reserved.symm.trans live
      · cases live
    | live _ pending _ room =>
      refine .writing pending ?_ room.le
      rcases writes with rfl | rfl <;> exact trivial
    | _ => cases entry
  | expire entry live row =>
    cases ok with
    | live _ _ _ room => exact .owed (o := some _) (by simp [Store.decide']) room.le
    | reserved => cases row
    | _ => cases entry
  | approve entry live row =>
    cases ok with
    | live _ _ _ room => exact .approved (o := some _) (by simp [Store.decide']) room.le
    | reserved => cases row
    | _ => cases entry
  | @count _ _ r entry live row live' attempts room =>
    cases ok with
    | live _ _ tests =>
      cases entry
      subst tests
      exact .live (r := r.tried) live' rfl attempts.symm room
    | reserved => cases row
    | _ => cases entry
  | exhaust entry live row =>
    cases ok with
    | live _ _ _ room => exact .owed (o := some _) (by simp [Store.decide']) room
    | reserved => cases row
    | _ => cases entry
  | give entry live row open' =>
    cases ok with
    | live _ old _ room =>
      cases row
      refine .writing ?_ trivial room
      rcases open' with rfl | rfl
      · exact old
      · rfl
    | reserved => cases row
    | _ => cases entry
  | rejectRow job row =>
    cases ok with
    | writing pending _ few =>
      rcases row with rfl | rfl
      · exact .owed (o := some _) (by simp [pending]) few
      · exact .owed (o := some _) (by simp [Store.decide']) few
    | _ => cases job
  | hook job =>
    cases ok with
    | owed row few => exact .ended row few
    | writing _ writes =>
      cases job
      exact writes.elim
    | _ => cases job
  | expireFails job =>
    cases ok with
    | writing pending _ few => exact .writing pending trivial few
    | _ => cases job
  | written job row pending =>
    cases ok with
    | writing _ _ few => exact .owed (o := some _) (by simp [Store.decide']) few
    | _ => cases job
  | decided job row =>
    cases ok with
    | writing pending => exact absurd pending (row _ rfl)
    | _ => cases job
  | hookFirst job =>
    cases ok with
    | writing pending _ few => exact .retrying pending few
    | _ => cases job
  | retry job =>
    cases ok with
    | retrying pending few => exact .retrying pending few
    | writing _ writes =>
      cases job
      exact writes.elim
    | _ => cases job
  | retryEnds job row =>
    cases ok with
    | retrying pending few => exact .ended (row.not_approved (by simp [pending])) few
    | writing _ writes =>
      cases job
      exact writes.elim
    | _ => cases job
  | prune row state =>
    cases ok with
    | fresh => cases row
    | reserved => cases row
    | lost => cases row
    | live _ pending =>
      cases row
      exact absurd pending state
    | approved _ few => exact .approved (o := none) (by simp) few
    | writing pending =>
      cases row
      exact absurd pending state
    | owed _ few => exact .owed (o := none) (by simp) few
    | retrying pending =>
      cases row
      exact absurd pending state
    | ended _ few => exact .ended (o := none) (by simp) few
    | left few => exact .left few
  | restart row =>
    cases ok with
    | fresh =>
      rcases row with rfl | ⟨_, found, _⟩
      · exact .fresh
      · cases found
    | reserved => exact .left (Nat.zero_le _)
    | lost => exact .left (Nat.zero_le _)
    | live _ _ _ room => exact .left room.le
    | approved approved few =>
      rcases row with rfl | ⟨r, found, pending, _⟩
      · exact .approved approved few
      · cases pending.symm.trans (approved r found)
    | writing _ _ few => exact .left few
    | owed _ few => exact .left few
    | retrying pending few => exact .ended (row.not_approved (by simp [pending])) few
    | ended kept few => exact .ended (row.not_approved kept) few
    | left few => exact .left few

/-! ## What the stages say -/

theorem Ok.exclusive (ok : a.Ok) : a.performed + a.hooked ≤ 1 := by
  cases ok <;> simp

theorem Ok.few (ok : a.Ok) : a.tests ≤ maxAttempts := by
  cases ok with
  | live _ _ _ room => exact room.le
  | fresh => exact Nat.zero_le _
  | reserved => exact Nat.zero_le _
  | lost => exact Nat.zero_le _
  | _ => assumption

theorem Ok.pending_row (ok : a.Ok) (entry : a.entry = some e) (stored : e.reserved = false) :
    ∃ r, a.row = some r ∧ r.state = .pending := by
  cases ok with
  | reserved reserved =>
    cases entry
    cases reserved.symm.trans stored
  | live _ pending => exact ⟨_, rfl, pending⟩
  | _ => cases entry

theorem Ok.unperformed (ok : a.Ok) (timed : a.timed = true) (row : a.row = some r) (other : r.state ≠ .approved) :
    a.performed = 0 := by
  cases ok with
  | approved approved => exact absurd (approved r row) other
  | _ => rfl

theorem Ok.hook (ok : a.Ok) (timed : a.timed = true) (gone : a.entry = none) (unperformed : a.performed = 0) :
    a.hooked = 1 ∧ (a.job = none ∨ ∃ d n, a.job = some (.retry d n)) ∨
      a.hooked = 0 ∧ (a.job = some .hook ∨ ∃ r j, a.row = some r ∧ r.state = .pending ∧
        a.job = some j ∧ j.Writes) := by
  cases ok with
  | live => cases gone
  | approved => cases unperformed
  | writing pending writes => exact .inr ⟨rfl, .inr ⟨_, _, rfl, pending, rfl, writes⟩⟩
  | owed => exact .inr ⟨rfl, .inl rfl⟩
  | retrying => exact .inl ⟨rfl, .inr ⟨_, _, rfl⟩⟩
  | ended => exact .inl ⟨rfl, .inl rfl⟩
  | _ => cases timed

/-- A decided row: nothing in memory, and whatever the table holds is `r`. -/
structure Settled (r : Row) (a : Slot μ) : Prop where
  used : a.used = true
  entry : a.entry = none
  draft : a.draft = none
  row : ∀ r', a.row = some r' → r' = r

theorem Ok.settled (ok : a.Ok) (row : a.row = some r) (decided : r.state ≠ .pending) : a.Settled r := by
  cases ok with
  | fresh => cases row
  | reserved => cases row
  | lost => cases row
  | live _ pending =>
    cases row
    exact absurd pending decided
  | _ => exact ⟨rfl, rfl, rfl, fun r' found => Option.some.inj (found.symm.trans row)⟩

theorem Ok.pending_of_job {j : Job} (ok : a.Ok) (job : a.job = some j) (writes : j ≠ .hook) :
    ∃ r, a.row = some r ∧ r.state = .pending := by
  cases ok with
  | writing pending => exact ⟨_, rfl, pending⟩
  | retrying pending => exact ⟨_, rfl, pending⟩
  | owed => exact absurd (Option.some.inj job).symm writes
  | _ => cases job

theorem Move.settled (move : Move now a b) (ok : a.Ok) (decided : r.state ≠ .pending) (settled : a.Settled r) :
    b.Settled r := by
  obtain ⟨used, entry, draft, row⟩ := settled
  have unwritten : ∀ {j : Job}, a.job = some j → j = .hook := by
    intro j job
    by_contra writes
    obtain ⟨r', found, pending⟩ := ok.pending_of_job job writes
    exact decided (row r' found ▸ pending)
  cases move with
  | release d => cases d.symm.trans draft
  | forget d => cases d.symm.trans draft
  | drop e => cases e.symm.trans entry
  | store d => cases d.symm.trans draft
  | touch e => cases e.symm.trans entry
  | take e => cases e.symm.trans entry
  | expire e => cases e.symm.trans entry
  | approve e => cases e.symm.trans entry
  | count e => cases e.symm.trans entry
  | exhaust e => cases e.symm.trans entry
  | give e => cases e.symm.trans entry
  | rejectRow job => cases unwritten job
  | hook job => exact ⟨used, entry, draft, row⟩
  | expireFails job => cases unwritten job
  | written job => cases unwritten job
  | decided job => cases unwritten job
  | hookFirst job => cases unwritten job
  | retry job => cases unwritten job
  | retryEnds job => cases unwritten job
  | prune _ _ => exact ⟨used, entry, draft, fun _ found => by cases found⟩
  | restart row' =>
    refine ⟨used, rfl, rfl, ?_⟩
    intro r' found
    rcases row' with rfl | ⟨old, found', pending, _⟩
    · exact row r' found
    · exact absurd (row old found' ▸ pending) decided

/-- No move brings an approval back into memory. -/
theorem Move.entry (move : Move now a b) (absent : a.entry = none) : b.entry = none := by
  cases move with
  | release => simp only [absent, Option.filter_none]
  | forget => rfl
  | drop => rfl
  | store _ entry => cases entry.symm.trans absent
  | touch entry => cases entry.symm.trans absent
  | take => rfl
  | expire => rfl
  | approve => rfl
  | count entry => cases entry.symm.trans absent
  | exhaust => rfl
  | give => rfl
  | restart => rfl
  | _ => exact absent

theorem ok_of_moves (moves : ReflTransGen (Move now) a b) (ok : a.Ok) : b.Ok := by
  induction moves with
  | refl => exact ok
  | tail _ move ih => exact move.ok ih

theorem settled_of_moves (moves : ReflTransGen (Move now) a b) (ok : a.Ok)
    (decided : r.state ≠ .pending) (settled : a.Settled r) : b.Settled r := by
  induction moves with
  | refl => exact settled
  | tail before move ih => exact move.settled (ok_of_moves before ok) decided ih

theorem entry_of_moves (moves : ReflTransGen (Move now) a b) (absent : a.entry = none) : b.entry = none := by
  induction moves with
  | refl => exact absent
  | tail _ move ih => exact move.entry ih

end Slot

end Agentnet.Approval
