import Agentnet.Approval.Moves

/-! An approval decides once: its action is performed or its hook is run, never both and never twice. -/

namespace Agentnet.Approval

open Lib

namespace Store

variable {μ : Type} {s : Store μ} {id : ApprovalID}

/-- The `confirm` of `id` with `code` that commits its action: the code has the stored check value, the stored
expiry has not come, and what the transaction checked held. -/
structure Commits (cfg : Config μ) (s : Store μ) (now : Time) (id : ApprovalID) (code : String) (io : ConfirmIO)
    (e : Live μ) (r : Row) :
    Prop where
  entry : s.pending.lookup id = some e
  stored : e.reserved = false
  mac : e.mac = some (cfg.codeMAC s.key id code)
  row : s.rows.lookup id = some r
  pending : r.state = .pending
  before : now < parseStoreTime r.expires
  precondition : e.action.precondition = true → io.precondition = true
  rebuild : e.action.rebuild = true → io.rebuilt = some r.summary
  commit : io.commit = true

variable {io : ConfirmIO} {live : Live μ} {now : Time} {row : Row} {ok : Bool}

theorem performed_badCode : (s.badCode id live row io now).1.performed = s.performed := by
  unfold badCode
  dsimp only
  repeat' split
  all_goals rfl

theorem performed_approve : (s.approve id live row io now).1.performed = s.performed ∨
      checkAction live.action row.summary io = true ∧ io.commit = true ∧
      (s.approve id live row io now).1.performed = id :: s.performed := by
  unfold approve
  dsimp only
  split_ifs with _ checked _ committed
  · exact .inl rfl
  · exact .inl rfl
  · exact .inl rfl
  · exact .inl rfl
  · exact .inr ⟨by simpa using checked, by simpa using committed, rfl⟩

/-- An action is performed by a `confirm` that commits it. -/
theorem Ok.commits [DecidableEq μ] (cfg : Config μ) (ok : s.Ok) (e : Event)
    (acted : (s.step cfg e).performed ≠ s.performed) :
    ∃ id code io live row, e.op = .confirm id code io ∧ Commits cfg s e.now id code io live row ∧
      (s.step cfg e).performed = id :: s.performed := by
  obtain quiet | ⟨id, code, io, live, row, op, entry, stored, found, before, ⟨_, same⟩ | ⟨mac, same⟩⟩ :=
    step_quiet cfg s e
  · exact absurd quiet.performed acted
  · rw [same, performed_badCode] at acted
    exact absurd rfl acted
  · rw [same] at acted ⊢
    obtain unchanged | ⟨checked, committed, performed⟩ := @performed_approve μ s id io live e.now row
    · exact absurd unchanged acted
    obtain ⟨row', found', pending⟩ := (ok id).pending_row entry stored
    obtain rfl := Option.some.inj (found.symm.trans found')
    simp only [checkAction, Bool.and_eq_true, Bool.or_eq_true, Bool.not_eq_true', decide_eq_true_eq] at checked
    refine ⟨id, code, io, live, row, op, ⟨entry, stored, mac, found, pending, before, ?_, ?_, committed⟩, performed⟩
    · intro set
      exact checked.1.resolve_left (by simp [set])
    · intro set
      exact checked.2.resolve_left (by simp [set])

theorem settled_run [DecidableEq μ] (cfg : Config μ) {r : Row} (ok : s.Ok) (decided : r.state ≠ .pending)
    (settled : (s.slot id).Settled r) (es : List Event) : ((run (step cfg) s es).slot id).Settled r := by
  suffices both : (run (step cfg) s es).Ok ∧ ((run (step cfg) s es).slot id).Settled r from both.2
  refine run_invariant (motive := fun s : Store μ => s.Ok ∧ (s.slot id).Settled r) ?_ ⟨ok, settled⟩ es
  intro s e ⟨ok, settled⟩
  refine ⟨ok_step cfg s e ok, ?_⟩
  obtain moves | ⟨new, _, _, _, _, _, t, _, cleared, _, _, _, reserves⟩ := step_cases cfg s e
  · exact Slot.settled_of_moves (moves.slot id) (ok id) decided settled
  · have kept := Slot.settled_of_moves (cleared.moves.slot id) (ok id) decided settled
    have other : id ≠ new := by
      rintro rfl
      exact reserves.fresh (List.contains_iff_mem.mp kept.used)
    rwa [reserves.elsewhere id other]

/-! ## The hook -/

/-- One job runs at most its own hook. -/
theorem hooked_work (id : ApprovalID) (ok : Bool) (now : Time) (s : Store μ) :
    (s.work id ok now).hooked = s.hooked ∨ (s.work id ok now).hooked = id :: s.hooked := by
  have written : ∀ d, (s.writeExpired id d).1.hooked = s.hooked := by
    intro d
    obtain ⟨_, _, _, same⟩ | ⟨_, same⟩ := writeExpired_cases id d s <;> rw [same]
  unfold work
  split
  · exact .inl rfl
  · split_ifs <;> exact .inl rfl
  · exact .inr rfl
  · dsimp only
    split_ifs
    · exact .inl rfl
    · exact .inl (written _)
    · exact .inl (written _)
  · exact .inr rfl
  · split_ifs
    · exact .inl rfl
    · exact .inl rfl
    · exact .inl (written _)

theorem work_hook (job : s.jobs.lookup id = some .hook ∨ ∃ d, s.jobs.lookup id = some (.hookThenRetry d)) :
    (s.work id ok now).hooked = id :: s.hooked := by
  obtain job | ⟨d, job⟩ := job <;> simp only [work, job, runOnReject, endJob, setJob]

theorem work_writes {j : Job} {r : Row} (job : s.jobs.lookup id = some j) (writes : j.Writes)
    (row : s.rows.lookup id = some r) (pending : r.state = .pending) : (s.work id ok now).hooked = id :: s.hooked ∨
      (s.work id ok now).jobs.lookup id = some .hook ∨
      ∃ d, (s.work id ok now).jobs.lookup id = some (.hookThenRetry d) := by
  cases j with
  | reject => exact .inr (.inl (by simp [work, job, setJob]))
  | expire =>
    obtain ⟨_, _, _, same⟩ | ⟨decided, _⟩ := writeExpired_cases id (storeTime now) s
    · cases ok
      · exact .inr (.inr ⟨_, by simp [work, job, setJob]; rfl⟩)
      · exact .inr (.inl (by simp [work, job, same, setJob]))
    · exact absurd pending (decided r row)
  | hookThenRetry d => exact .inl (work_hook (.inr ⟨d, job⟩))
  | hook => exact writes.elim
  | retry => exact writes.elim

/-- An approval of this process that left memory without being performed: the hook has run, or it is among the next
two steps of the approval's own job, whatever the writes do. -/
theorem Ok.hooked (ok : s.Ok) (timed : id ∈ s.timed) (gone : s.pending.lookup id = none)
    (unperformed : s.performed.count id = 0) (first second : Bool) (now now' : Time) :
    ((s.work id first now).work id second now').hooked.count id = 1 := by
  have atMost : ((s.work id first now).work id second now').hooked.count id ≤ 1 :=
    le_trans (Nat.le_add_left _ _)
      (((@moves_work μ now' id second _).ok ((@moves_work μ now id first s).ok ok)) id).exclusive
  have grows : ∀ {t : Store μ} {b : Bool} {at' : Time}, t.hooked.count id ≤ (t.work id b at').hooked.count id := by
    intro t b at'
    obtain same | more := hooked_work id b at' t
    · rw [same]
    · rw [more, List.count_cons_self]
      exact Nat.le_succ _
  have ran : ∀ {t : Store μ} {b : Bool} {at' : Time}, (t.work id b at').hooked = id :: t.hooked →
      1 ≤ (t.work id b at').hooked.count id := by
    intro t b at' more
    rw [more, List.count_cons_self]
    exact Nat.le_add_left 1 _
  refine le_antisymm atMost ?_
  obtain ⟨one, _⟩ | ⟨_, job | ⟨r, j, row, pending, job, writes⟩⟩ :=
    (ok id).hook (List.contains_iff_mem.mpr timed) gone unperformed
  · exact one.ge.trans (grows.trans grows)
  · exact (ran (work_hook (.inl job))).trans grows
  · obtain more | next := @work_writes μ s id now first j r job writes row pending
    · exact (ran more).trans grows
    · exact ran (work_hook next)

/-- Every run of the store from any tables. `Perform` commits or `OnReject` runs, never both and never twice; a
commit is a `confirm` with the right code before the stored expiry whose checks passed in its transaction; a decided
row stays as it is for as long as it is kept; what is in memory and not reserved has a pending row; and an approval
that this process stored and that is rejected or expired, or just gone from memory unperformed, has its hook run
once, at the latest in the next two steps of its own job. -/
theorem decides_once [DecidableEq μ] (cfg : Config μ) (key : Nat) (rows : Dict ApprovalID Row)
    (wrongCodes : WrongCodes) (es : List Event) (id : ApprovalID) :
    let s := run (step cfg) (boot key rows wrongCodes : Store μ) es
    s.performed.count id + s.hooked.count id ≤ 1 ∧
    (∀ e, (s.step cfg e).performed ≠ s.performed →
      ∃ k code io live row, e.op = .confirm k code io ∧ Commits cfg s e.now k code io live row ∧
      (s.step cfg e).performed = k :: s.performed) ∧
    (∀ r fs r', s.rows.lookup id = some r → r.state ≠ .pending →
      (run (step cfg) s fs).rows.lookup id = some r' → r' = r) ∧
    (∀ e, s.pending.lookup id = some e → e.reserved = false → ∃ r, s.rows.lookup id = some r ∧ r.state = .pending) ∧
    (id ∈ s.timed → (∃ r, s.rows.lookup id = some r ∧ (r.state = .rejected ∨ r.state = .expired)) ∨
        s.pending.lookup id = none ∧ s.performed.count id = 0 →
      ∀ now now' first second,
      (run (step cfg) s [⟨now, .work id first⟩, ⟨now', .work id second⟩]).hooked.count id = 1) := by
  have ok : (run (step cfg) (boot key rows wrongCodes : Store μ) es).Ok := ok_run cfg (ok_boot key rows wrongCodes) es
  dsimp only
  generalize run (step cfg) (boot key rows wrongCodes : Store μ) es = s at ok
  refine ⟨(ok id).exclusive, ok.commits cfg, ?_, ?_, ?_⟩
  · intro r fs r' row decided found
    exact (settled_run cfg ok decided ((ok id).settled row decided) fs).row r' found
  · intro e entry stored
    exact (ok id).pending_row entry stored
  · intro timed ended now now' first second
    have gone : s.pending.lookup id = none ∧ s.performed.count id = 0 := by
      rcases ended with ⟨r, row, state⟩ | gone
      · have decided : r.state ≠ .pending := by rcases state with state | state <;> simp [state]
        have other : r.state ≠ .approved := by rcases state with state | state <;> simp [state]
        exact ⟨((ok id).settled row decided).entry, (ok id).unperformed (List.contains_iff_mem.mpr timed) row other⟩
      · exact gone
    exact ok.hooked timed gone.1 gone.2 first second now now'

/-- Check values that show everything, and summaries that are all safe. -/
def plainConfig : Config String where
  codeMAC key id code := toString key ++ id ++ code
  safe _ := true

/-- `Create`, from the reservation to the row. -/
def createAt (now : Time) (id : ApprovalID) : List Event :=
  [⟨now, .create id .grant "g-1" "Read src/" { precondition := true } {}⟩, ⟨now, .storeApproval id "271828" true⟩]

/-- Two approvals: one is confirmed, one is rejected while the write of its row fails. -/
def twoEnds : List Event :=
  createAt 0 "a-1" ++ createAt 1 "a-2" ++ [⟨2, .confirm "a-1" "271828" {}⟩, ⟨3, .reject "a-2"⟩]

/-- The approved row survives a second `confirm`, and the rejected approval has its hook run. -/
theorem twoEnds_decide :
    (∀ r', (run (step plainConfig) (run (step plainConfig) (boot 0 ∅ .absent) twoEnds)
      [⟨4, .confirm "a-1" "271828" {}⟩]).rows.lookup "a-1" =
        some r' → r'.state = .approved) ∧ (run (step plainConfig) (run (step plainConfig) (boot 0 ∅ .absent) twoEnds)
        [⟨4, .work "a-2" false⟩, ⟨4, .work "a-2" true⟩]).hooked.count "a-2" = 1 := by
  have row : ∃ r, (run (step plainConfig) (boot 0 ∅ .absent) twoEnds).rows.lookup "a-1" = some r ∧
      r.state = .approved := by
    decide
  obtain ⟨r, found, approved⟩ := row
  have first := (decides_once plainConfig 0 ∅ .absent twoEnds "a-1").2.2.1
  have second := (decides_once plainConfig 0 ∅ .absent twoEnds "a-2").2.2.2.2
  refine ⟨fun r' found' => ?_, second (by decide) (.inr ⟨by decide, by decide⟩) 4 4 false true⟩
  rw [first r _ r' found (by simp [approved]) found', approved]

end Store

end Agentnet.Approval
