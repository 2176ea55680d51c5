import Agentnet.Approval.Lifecycle
import Agentnet.Lib.Run

/-! Every step of the store is, under every id, a sequence of moves. -/

namespace Agentnet.Approval

open Lib Relation

namespace Store

variable {μ : Type} {s t u : Store μ} {id k : ApprovalID} {now : Time}

/-- What happens under each id on the way from `s` to `t`. No id is drawn. -/
structure Moves (now : Time) (s t : Store μ) : Prop where
  used : t.used = s.used
  slot : ∀ id, ReflTransGen (Slot.Move now) (s.slot id) (t.slot id)

theorem Moves.refl (now : Time) (s : Store μ) : Moves now s s := ⟨rfl, fun _ => .refl⟩

theorem Moves.trans (first : Moves now s t) (second : Moves now t u) : Moves now s u :=
  ⟨second.used.trans first.used, fun id => (first.slot id).trans (second.slot id)⟩

/-- A change of one approval only. -/
theorem Moves.single (id : ApprovalID) (used : t.used = s.used) (elsewhere : ∀ k, k ≠ id → t.slot k = s.slot k)
    (here : Slot.Move now (s.slot id) (t.slot id)) : Moves now s t := by
  refine ⟨used, fun k => ?_⟩
  by_cases same : k = id
  · subst same
    exact .single here
  · rw [elsewhere k same]

/-! ## The parts of a step -/

variable {e : Live μ} {j : Job} {f : Row → Row} {r : Row} {io : ConfirmIO}

theorem slot_setEntry : (s.setEntry id e).slot id = { s.slot id with entry := some e } := by
  simp only [slot, setEntry, AList.lookup_insert]

theorem slot_setEntry_ne (other : k ≠ id) : (s.setEntry id e).slot k = s.slot k := by
  simp only [slot, setEntry, AList.lookup_insert_ne other]

theorem slot_take : (s.take id j).slot id = { s.slot id with entry := none, job := some j } := by
  simp only [slot, take, AList.lookup_erase, AList.lookup_insert]

theorem slot_take_ne (other : k ≠ id) : (s.take id j).slot k = s.slot k := by
  simp only [slot, take, AList.lookup_erase_ne other, AList.lookup_insert_ne other]

theorem slot_setJob : (s.setJob id j).slot id = { s.slot id with job := some j } := by
  simp only [slot, setJob, AList.lookup_insert]

theorem slot_setJob_ne (other : k ≠ id) : (s.setJob id j).slot k = s.slot k := by
  simp only [slot, setJob, AList.lookup_insert_ne other]

theorem slot_endJob : (s.endJob id).slot id = { s.slot id with job := none } := by
  simp only [slot, endJob, AList.lookup_erase]

theorem slot_endJob_ne (other : k ≠ id) : (s.endJob id).slot k = s.slot k := by
  simp only [slot, endJob, AList.lookup_erase_ne other]

theorem slot_runOnReject : (s.runOnReject id).slot id = { s.slot id with hooked := (s.slot id).hooked + 1 } := by
  simp only [slot, runOnReject, List.count_cons_self]

theorem slot_runOnReject_ne (other : k ≠ id) : (s.runOnReject id).slot k = s.slot k := by
  simp only [slot, runOnReject, List.count_cons_of_ne other.symm]

theorem slot_setRow : (s.setRow id f).slot id = { s.slot id with row := (s.slot id).row.map f } := by
  cases found : s.rows.lookup id with
  | none => simp only [slot, setRow, found, Option.map_none]
  | some r => simp only [slot, setRow, found, AList.lookup_insert, Option.map_some]

theorem slot_setRow_ne (other : k ≠ id) : (s.setRow id f).slot k = s.slot k := by
  cases found : s.rows.lookup id with
  | none => simp only [slot, setRow, found]
  | some r => simp only [slot, setRow, found, AList.lookup_insert_ne other]

theorem moves_touch {e' : Live μ} (found : s.pending.lookup id = some e) (reserved : e'.reserved = e.reserved)
    (attempts : e'.attempts = e.attempts) : Moves now s (s.setEntry id e') := by
  refine .single id rfl (fun k other => slot_setEntry_ne other) ?_
  rw [slot_setEntry]
  exact .touch found reserved attempts

theorem moves_take (found : s.pending.lookup id = some e) (live : e.reserved = false ∨ id ∈ s.timed)
    (writes : j = .reject ∨ j = .expire) : Moves now s (s.take id j) := by
  refine .single id rfl (fun k other => slot_take_ne other) ?_
  rw [slot_take]
  exact .take found (live.imp_right List.contains_iff_mem.mpr) writes

theorem moves_expireLocked (found : s.pending.lookup id = some e) (live : e.reserved = false)
    (row : s.rows.lookup id = some r) : Moves now s (s.expireLocked id now) := by
  refine .single id rfl (fun k other => (slot_take_ne other).trans (slot_setRow_ne other)) ?_
  rw [expireLocked, slot_take, slot_setRow, show (s.slot id).row = some r from row]
  exact .expire found live row

theorem checkExpiry_expired {ok : Bool} (h : s.checkExpiry id now ok = .expired) :
    ∃ r, s.rows.lookup id = some r := by
  unfold checkExpiry at h
  split at h
  · cases h
  · exact ⟨_, ‹_›⟩

theorem checkExpiry_running {ok : Bool} (h : s.checkExpiry id now ok = .running r) :
    s.rows.lookup id = some r ∧ now < parseStoreTime r.expires := by
  unfold checkExpiry at h
  split at h
  · cases h
  · rename_i found
    split_ifs at h with _ before
    cases h
    exact ⟨found, before⟩

theorem moves_sweepExpired (fails : ApprovalID → Bool) (ids : List ApprovalID) (s : Store μ) :
    Moves now s (s.sweepExpired now fails ids).1 := by
  fun_induction sweepExpired now fails ids s with
  | case1 => exact .refl now _
  | case2 _ _ _ _ ih => exact ih
  | case3 _ _ _ _ _ _ ih => exact ih
  | case4 => exact .refl now _
  | case5 _ _ _ _ _ _ _ _ ih => exact ih
  | case6 id ids s e found live expired ih =>
    obtain ⟨r, row⟩ := checkExpiry_expired expired
    exact (moves_expireLocked found (by simpa using live) row).trans ih

theorem lookup_lockJobs {l : List (Sigma fun _ : ApprovalID => Live μ)} (nodup : l.NodupKeys)
    (jobs : Dict ApprovalID Job) :
    (l.foldl (fun jobs e => if e.2.reserved then jobs else jobs.insert e.1 Job.reject) jobs).lookup k =
      if (l.dlookup k).any (fun e => !e.reserved) then some Job.reject else jobs.lookup k := by
  induction l generalizing jobs with
  | nil => rfl
  | cons x l ih =>
    obtain ⟨a, e⟩ := x
    obtain ⟨absent, rest⟩ := List.nodupKeys_cons.mp nodup
    rw [List.foldl_cons, ih rest]
    by_cases same : k = a
    · subst same
      rw [List.dlookup_eq_none.mpr absent, List.dlookup_cons_eq]
      cases reserved : e.reserved <;> simp [reserved]
    · rw [List.dlookup_cons_ne l ⟨a, e⟩ same]
      cases reserved : e.reserved <;> simp [AList.lookup_insert_ne same]

theorem slot_dropAllLocked : s.dropAllLocked.slot k = { s.slot k with
      entry := none
      job := if (s.slot k).entry.any (fun e => !e.reserved) then some .reject else (s.slot k).job } := by
  simp only [slot, dropAllLocked, AList.lookup_empty, lookup_lockJobs s.pending.nodupKeys]
  rfl

theorem moves_dropAllLocked (s : Store μ) : Moves now s s.dropAllLocked := by
  refine ⟨rfl, fun k => ?_⟩
  rw [slot_dropAllLocked]
  cases found : (s.slot k).entry with
  | none =>
    simp only [Option.any_none, Bool.false_eq_true, if_false]
    rw [← found]
  | some e =>
    cases reserved : e.reserved with
    | false =>
      simp only [Option.any_some, reserved, Bool.not_false, if_true]
      exact .single (.take found (.inl reserved) (.inl rfl))
    | true =>
      simp only [Option.any_some, reserved, Bool.not_true, Bool.false_eq_true, if_false]
      exact .single (.drop found reserved)

theorem moves_pruneDecided (s : Store μ) : Moves now s (s.pruneDecided now) := by
  refine ⟨rfl, fun k => ?_⟩
  have rows : (s.pruneDecided now).slot k = { s.slot k with row := (s.slot k).row.filter fun r =>
      !(r.state != .pending && r.decided.any fun d => decide (d < storeTime (now - decidedRetention))) } := by
    simp only [slot, pruneDecided, Dict.lookup_keep]
  rw [rows]
  cases found : (s.slot k).row with
  | none => rw [Option.filter_none, ← found]
  | some r =>
    rw [Option.filter_some]
    split_ifs with kept
    · rw [← found]
    · simp only [Bool.not_eq_true', Bool.not_eq_false, Bool.and_eq_true, bne_iff_ne, Option.any_eq_true,
        decide_eq_true_eq] at kept
      obtain ⟨state, d, decided, old⟩ := kept
      exact .single (.prune found state decided old)

/-! ## The operations -/

variable {cfg : Config μ}

/-- What the first section of `Create` clears away before it looks at the caps. -/
inductive Cleared (now : Time) (s : Store μ) : Store μ → Prop
  | swept (fails : ApprovalID → Bool) (ids : List ApprovalID) : Cleared now s (s.sweepExpired now fails ids).1
  | pruned (fails : ApprovalID → Bool) (ids : List ApprovalID) :
      Cleared now s ((s.sweepExpired now fails ids).1.pruneDecided now)

/-- Clearing is a sequence of moves. -/
theorem Cleared.moves (cleared : Cleared now s t) : Moves now s t := by
  cases cleared with
  | swept fails ids => exact moves_sweepExpired fails ids s
  | pruned fails ids => exact (moves_sweepExpired fails ids s).trans (moves_pruneDecided _)

/-- The first section of `Create` does nothing, clears, or also reserves a slot below the caps. -/
theorem create_cases (cfg : Config μ) (id : ApprovalID) (kind : Kind) (subject summary : String)
    (action : Action) (io : CreateIO) (now : Time) (s : Store μ) :
    (s.create cfg id kind subject summary action io now).1 = s ∨ ∃ t, Cleared now s t ∧
        ((s.create cfg id kind subject summary action io now).1 = t ∨
          locked now s.wrongCodes = false ∧ t.pending.entries.length < maxPending ∧
          t.countCreatedSince (now - hour) < maxPerHour ∧
            (s.create cfg id kind subject summary action io now).1 = { t with
                pending := t.pending.insert id { action }
                drafts := t.drafts.insert id { kind, subject, summary, now }
                used := id :: t.used }) := by
  unfold create
  dsimp only
  split_ifs with _ _ unlocked swept
  · exact .inl rfl
  · exact .inl rfl
  · exact .inl rfl
  · right
    have cleared : Cleared now s
        (if io.prune then (s.sweepExpired now io.fails (s.ordered io.order)).1.pruneDecided now
        else (s.sweepExpired now io.fails (s.ordered io.order)).1) := by
      split_ifs
      · exact .pruned _ _
      · exact .swept _ _
    refine ⟨_, cleared, ?_⟩
    unfold reserve
    dsimp only
    generalize (if io.prune then (s.sweepExpired now io.fails (s.ordered io.order)).1.pruneDecided now
      else (s.sweepExpired now io.fails (s.ordered io.order)).1) = t
    split_ifs with full _ often
    · exact .inl rfl
    · exact .inl rfl
    · exact .inl rfl
    · exact .inl rfl
    · exact .inl rfl
    · exact .inr ⟨by simpa using unlocked, by omega, by omega, rfl⟩
  · exact .inr ⟨_, .swept _ _, .inl rfl⟩

theorem moves_windowReady (id : ApprovalID) (handle : Nat) (s : Store μ) : Moves now s (s.windowReady id handle) := by
  unfold windowReady
  split
  · rename_i e _ found
    exact moves_touch found rfl rfl
  · exact .refl now s

theorem moves_createFails (id : ApprovalID) (s : Store μ) : Moves now s (s.createFails id) := by
  unfold createFails
  split
  · exact .refl now s
  rename_i d draft
  refine .single id rfl ?_ ?_
  · intro k other
    simp only [slot, dropReserved, AList.lookup_erase_ne other]
    split_ifs
    · rw [AList.lookup_erase_ne other]
    · rfl
  · have moved : Slot.Move now (s.slot id) _ := .release draft
    cases found : s.pending.lookup id with
    | none => simpa [slot, dropReserved, found] using moved
    | some e => cases reserved : e.reserved <;> simpa [slot, dropReserved, found, reserved, Option.filter] using moved

theorem moves_storeApproval (id : ApprovalID) (code : String) (ok : Bool) (s : Store μ) :
    Moves now s (s.storeApproval cfg id code ok).1 := by
  unfold storeApproval
  split
  · exact .refl now s
  rename_i d draft
  have gone : Slot.Move now (s.slot id) _ := .forget draft
  dsimp only
  split
  · rename_i absent
    refine .single id rfl ?_ ?_
    · intro k other
      simp only [slot, AList.lookup_erase_ne other]
    · simpa [slot, absent] using gone
  rename_i e found
  have forgot : Moves now s { s with drafts := s.drafts.erase id, pending := s.pending.erase id } := by
    refine .single id rfl ?_ ?_
    · intro k other
      simp only [slot, AList.lookup_erase_ne other]
    · simpa [slot] using gone
  split_ifs
  · exact forgot
  · exact forgot
  · refine .single id rfl ?_ ?_
    · intro k other
      simp [slot, AList.lookup_erase_ne other, AList.lookup_insert_ne other, other, Ne.symm other]
    · have moved : Slot.Move now (s.slot id) _ :=
        @Slot.Move.store μ now
          (s.slot id) _ e { e with mac := some (cfg.codeMAC s.key id code), reserved := false } draft found rfl rfl
      simpa [slot] using moved

theorem moves_counted {b : Bool} (found : s.pending.lookup id = some e) (live : e.reserved = false)
    (row : s.rows.lookup id = some r) : let s' := { s with tested := ⟨id, now, b⟩ :: s.tested }.recordBadCode id r now
    Moves now s (if decide (maxAttempts ≤ r.attempts + 1) then s'.take id .hook
      else if !decide (maxAttempts ≤ r.attempts + 1) && decide (maxAttempts ≤ e.attempts + 1) then s'.take id .reject
      else s'.setEntry id { e with handle := none, attempts := e.attempts + 1 }) := by
  have elsewhere : ∀ k, k ≠ id →
      ({ s with tested := ⟨id, now, b⟩ :: s.tested }.recordBadCode id r now).slot k = s.slot k := by
    intro k other
    simp [slot, recordBadCode, AList.lookup_insert_ne other, Ne.symm other]
  have here : ({ s with tested := ⟨id, now, b⟩ :: s.tested }.recordBadCode id r now).slot id = { s.slot id with
        row := some (if maxAttempts ≤ r.attempts + 1
          then decide' .rejected now { r with attempts := r.attempts + 1 } else r.tried)
        tests := (s.slot id).tests + 1 } := by
    simp [slot, recordBadCode, Row.tried]
  dsimp only
  split_ifs with rejected behind
  · refine .single id rfl (fun k other => (slot_take_ne other).trans (elsewhere k other)) ?_
    rw [slot_take, here, if_pos (of_decide_eq_true rejected)]
    exact .exhaust found live row
  · refine .single id rfl (fun k other => (slot_take_ne other).trans (elsewhere k other)) ?_
    rw [slot_take, here, if_neg (by simpa using rejected)]
    exact .give found live row (.inr rfl)
  · refine .single id rfl (fun k other => (slot_setEntry_ne other).trans (elsewhere k other)) ?_
    rw [slot_setEntry, here, if_neg (by simpa using rejected)]
    refine .count found live row live rfl ?_
    simp only [decide_eq_true_eq] at rejected
    simp only [rejected, decide_false, Bool.not_false, Bool.true_and, decide_eq_true_eq] at behind
    omega

theorem moves_badCode (found : s.pending.lookup id = some e) (live : e.reserved = false)
    (row : s.rows.lookup id = some r) : Moves now s (s.badCode id e r io now).1 := by
  have counted := @moves_counted _ s id now e r io.record found live row
  unfold badCode
  dsimp only at counted ⊢
  split
  · refine .single id rfl ?_ ?_
    · intro k other
      rw [slot_take_ne other]
      simp [slot, Ne.symm other]
    · have moved : Slot.Move now (s.slot id) _ := .give found live row (.inl rfl)
      rw [slot_take]
      simpa [slot, row] using moved
  · split
    · exact counted.trans (moves_dropAllLocked _)
    · exact counted

theorem moves_approve (found : s.pending.lookup id = some e) (live : e.reserved = false)
    (row : s.rows.lookup id = some r) : Moves now s (s.approve id e r io now).1 := by
  have touched : Moves now s (s.setEntry id { e with handle := none }) := moves_touch found rfl rfl
  have found' : (s.setEntry id { e with handle := none }).pending.lookup id = some { e with handle := none } :=
    AList.lookup_insert _
  unfold approve
  dsimp only
  split_ifs
  · exact touched
  · exact touched.trans (moves_take found' (.inl live) (.inl rfl))
  · exact touched
  · exact touched
  · refine touched.trans (.single id rfl ?_ ?_)
    · intro k other
      simp only [slot, AList.lookup_erase_ne other, AList.lookup_insert_ne other, List.count_cons_of_ne other.symm]
    · have moved : Slot.Move now ((s.setEntry id { e with handle := none }).slot id) _ := .approve found' live row
      simpa only [slot, AList.lookup_erase, AList.lookup_insert, List.count_cons_self] using moved

theorem moves_confirm [DecidableEq μ] {code : String} : Moves now s (s.confirm cfg id code io now).1 := by
  unfold confirm
  split
  · exact .refl now s
  rename_i e found
  split
  · exact .refl now s
  rename_i reserved
  have live : e.reserved = false := by simpa using reserved
  split
  · exact .refl now s
  · obtain ⟨r, row⟩ := checkExpiry_expired ‹_›
    exact moves_expireLocked found live row
  · obtain ⟨row, _⟩ := checkExpiry_running ‹_›
    split_ifs
    · exact moves_badCode found live row
    · exact moves_approve found live row

theorem moves_takePending (id : ApprovalID) (s : Store μ) : Moves now s (s.takePending id) := by
  unfold takePending
  split
  · exact .refl now s
  · rename_i found
    split_ifs with reserved
    · exact .refl now s
    · exact moves_take found (.inl (by simpa using reserved)) (.inl rfl)

theorem moves_expireNow (id : ApprovalID) (s : Store μ) : Moves now s (s.expireNow id) := by
  unfold expireNow
  split_ifs with timed
  · split
    · exact .refl now s
    · rename_i found
      exact moves_take found (.inr timed) (.inr rfl)
  · exact .refl now s

theorem writeExpired_cases (id : ApprovalID) (decided : StoreTime) (s : Store μ) :
    (∃ r, s.rows.lookup id = some r ∧ r.state = .pending ∧
      s.writeExpired id decided =
        ({ s with rows := s.rows.insert id { r with state := .expired, decided := some decided } }, true)) ∨
    ((∀ r, s.rows.lookup id = some r → r.state ≠ .pending) ∧ s.writeExpired id decided = (s, false)) := by
  unfold writeExpired
  cases found : s.rows.lookup id with
  | none =>
    refine .inr ⟨?_, rfl⟩
    intro r absent
    cases absent
  | some r =>
    by_cases pending : r.state = .pending
    · exact .inl ⟨r, rfl, pending, if_pos pending⟩
    · refine .inr ⟨?_, if_neg pending⟩
      intro r' same
      exact Option.some.inj same ▸ pending

theorem moves_work (id : ApprovalID) (ok : Bool) (s : Store μ) : Moves now s (s.work id ok now) := by
  unfold work
  split
  · exact .refl now s
  · rename_i job
    split_ifs
    · refine .single id rfl (fun k other => (slot_setJob_ne other).trans (slot_setRow_ne other)) ?_
      rw [slot_setJob, slot_setRow]
      exact .rejectRow job (.inr rfl)
    · refine .single id rfl (fun k other => slot_setJob_ne other) ?_
      rw [slot_setJob]
      exact .rejectRow job (.inl rfl)
  · rename_i job
    refine .single id rfl (fun k other => (slot_endJob_ne other).trans (slot_runOnReject_ne other)) ?_
    rw [slot_endJob, slot_runOnReject]
    exact .hook job
  · rename_i job
    split_ifs
    · refine .single id rfl (fun k other => slot_setJob_ne other) ?_
      rw [slot_setJob]
      exact .expireFails job
    · obtain ⟨r, row, pending, same⟩ | ⟨decided, same⟩ := writeExpired_cases id (storeTime now) s
      · rw [same]
        dsimp only
        rw [if_pos rfl]
        refine .single id rfl (fun k other => (slot_setJob_ne other).trans ?_) ?_
        · simp only [slot, AList.lookup_insert_ne other]
        · have moved : Slot.Move now (s.slot id) _ := .written job row pending
          rw [slot_setJob]
          simpa only [slot, AList.lookup_insert, decide'] using moved
      · rw [same]
        dsimp only
        rw [if_neg Bool.false_ne_true]
        refine .single id rfl (fun k other => slot_endJob_ne other) ?_
        rw [slot_endJob]
        exact .decided job decided
  · rename_i job
    refine .single id rfl (fun k other => (slot_setJob_ne other).trans (slot_runOnReject_ne other)) ?_
    rw [slot_setJob, slot_runOnReject]
    exact .hookFirst job
  · rename_i d _ job
    split_ifs
    · refine .single id rfl (fun k other => slot_endJob_ne other) ?_
      rw [slot_endJob]
      exact .retryEnds job (.inl rfl)
    · refine .single id rfl (fun k other => slot_setJob_ne other) ?_
      rw [slot_setJob]
      exact .retry job
    · obtain ⟨r, row, pending, same⟩ | ⟨_, same⟩ := writeExpired_cases id d s
      · rw [same]
        refine .single id rfl (fun k other => (slot_endJob_ne other).trans ?_) ?_
        · simp only [slot, setUnwritten, AList.lookup_insert_ne other]
        · have moved : Slot.Move now (s.slot id) _ := .retryEnds job (.inr ⟨r, row, pending, rfl⟩)
          rw [slot_endJob]
          simpa only [slot, setUnwritten, AList.lookup_insert] using moved
      · rw [same]
        refine .single id rfl (fun k other => slot_endJob_ne other) ?_
        rw [slot_endJob]
        exact .retryEnds job (.inl rfl)

theorem moves_reopen (id : ApprovalID) (s : Store μ) : Moves now s (s.reopen id) := by
  unfold reopen
  split
  · exact .refl now s
  · rename_i e found
    split_ifs
    · exact .refl now s
    · exact moves_touch found rfl rfl

theorem moves_reopened (id : ApprovalID) (handle : Option Nat) (s : Store μ) :
    Moves now s (s.reopened id handle) := by
  unfold reopened
  split
  · exact .refl now s
  · rename_i e found
    split_ifs <;> exact moves_touch found rfl rfl

theorem moves_answered (id : ApprovalID) (handle : Nat) (s : Store μ) : Moves now s (s.answered id handle) := by
  unfold answered
  split
  · exact .refl now s
  · rename_i e found
    split_ifs
    · exact moves_touch found rfl rfl
    · exact .refl now s

theorem dlookup_map {V : Type} (f : ApprovalID → V → V) (l : List (Sigma fun _ : ApprovalID => V)) :
    (l.map fun e => (⟨e.1, f e.1 e.2⟩ : Sigma fun _ : ApprovalID => V)).dlookup k = (l.dlookup k).map (f k) := by
  induction l with
  | nil => rfl
  | cons x l ih =>
    obtain ⟨a, v⟩ := x
    by_cases same : k = a
    · subst same
      simp only [List.map_cons, List.dlookup_cons_eq, Option.map_some]
    · rw [List.map_cons, List.dlookup_cons_ne _ ⟨a, _⟩ same, List.dlookup_cons_ne l ⟨a, v⟩ same, ih]

theorem moves_close (s : Store μ) : Moves now s s.close := by
  refine ⟨rfl, fun k => ?_⟩
  have entries : s.close.slot k =
      { s.slot k with entry := (s.slot k).entry.map fun e => { e with handle := none } } := by
    simp only [slot, close, AList.lookup, dlookup_map fun _ (e : Live μ) => { e with handle := none }]
  rw [entries]
  cases found : (s.slot k).entry with
  | none => rw [Option.map_none, ← found]
  | some e => exact .single (.touch found rfl rfl)

theorem moves_restart (key : Nat) (written : ApprovalID → Bool) (prune : Bool) (s : Store μ) :
    Moves now s (s.restart key written prune now) := by
  have fresh : Moves now s ({ s with
      key, pending := ∅, closed := false, unwritten := [], drafts := ∅, jobs := ∅, rejecting := [], timed :=
        [] }.expireStale written now) := by
    refine ⟨rfl, fun k => ?_⟩
    simp only [slot, expireStale, AList.lookup_empty, List.contains_nil]
    refine .single (.restart ?_)
    simp only [AList.lookup, dlookup_map fun id (r : Row) => if r.state = .pending ∧
      written id then decide' .expired now r else r]
    cases found : s.rows.entries.dlookup k with
    | none => exact .inl rfl
    | some r =>
      rw [Option.map_some]
      split_ifs with stale
      · exact .inr ⟨r, rfl, stale.1, rfl⟩
      · exact .inl rfl
  unfold restart
  dsimp only
  split_ifs
  · exact fresh.trans (moves_pruneDecided _)
  · exact fresh

/-- What a `Create` that passes the caps leaves. -/
structure Reserves (now : Time) (id : ApprovalID) (s t : Store μ) : Prop where
  fresh : id ∉ s.used
  used : t.used = id :: s.used
  elsewhere : ∀ k, k ≠ id → t.slot k = s.slot k
  slot : ∃ e d, e.reserved = true ∧ e.attempts = 0 ∧ d.now = now ∧ t.slot id = (s.slot id).reserve e d

/-- A step moves every approval, or it is a `Create` that passes the caps. -/
theorem step_cases [DecidableEq μ] (cfg : Config μ) (s : Store μ) (e : Event) : Moves e.now s (s.step cfg e) ∨
      ∃ id kind subject summary action io t, e.op = .create id kind subject summary action io ∧ Cleared e.now s t ∧
        locked e.now s.wrongCodes = false ∧ t.pending.entries.length < maxPending ∧
        t.countCreatedSince (e.now - hour) < maxPerHour ∧
        Reserves e.now id t (s.step cfg e) := by
  obtain ⟨now, op⟩ := e
  cases op with
  | create id kind subject summary action io =>
    change Moves now s (if id ∈ s.used then s else (s.create cfg id kind subject summary action io now).1) ∨ _
    split_ifs with used
    · exact .inl (.refl now s)
    obtain same | ⟨t, cleared, same | ⟨unlocked, room, seldom, same⟩⟩ :=
      create_cases cfg id kind subject summary action io now s
    · rw [same]
      exact .inl (.refl now s)
    · rw [same]
      exact .inl cleared.moves
    · right
      refine ⟨id, kind, subject, summary, action, io, t, rfl, cleared, unlocked, room, seldom, ?_⟩
      have step : s.step cfg ⟨now, .create id kind subject summary action io⟩ = _ := (if_neg used).trans same
      rw [step]
      refine ⟨cleared.moves.used ▸ used, rfl, ?_, { action }, { kind, subject, summary, now }, rfl, rfl, rfl, ?_⟩
      · intro k other
        simp [slot, AList.lookup_insert_ne other, other]
      · simp [slot, Slot.reserve]
  | windowReady id handle => exact .inl (moves_windowReady id handle s)
  | createFails id => exact .inl (moves_createFails id s)
  | storeApproval id code ok => exact .inl (moves_storeApproval id code ok s)
  | confirm id code io => exact .inl moves_confirm
  | reject id => exact .inl (moves_takePending id s)
  | rejectSubjects subjects => exact .inl ⟨rfl, fun _ => .refl⟩
  | rejectNext =>
    left
    change Moves now s s.rejectNext
    unfold rejectNext
    split
    · exact .refl now s
    · rename_i id rest _
      have same : Moves now s { s with rejecting := rest } := ⟨rfl, fun _ => .refl⟩
      exact same.trans (moves_takePending id _)
  | expireNow id => exact .inl (moves_expireNow id s)
  | work id ok => exact .inl (moves_work id ok s)
  | list order fails => exact .inl (moves_sweepExpired fails _ s)
  | reopen id => exact .inl (moves_reopen id s)
  | reopened id handle => exact .inl (moves_reopened id handle s)
  | answered id handle => exact .inl (moves_answered id handle s)
  | close => exact .inl (moves_close s)
  | restart key written prune => exact .inl (moves_restart key written prune s)

/-! ## What only a code can do -/

/-- Nothing is performed and no code is tested. -/
structure Quiet (s t : Store μ) : Prop where
  performed : t.performed = s.performed
  tested : t.tested = s.tested
  wrongCodes : t.wrongCodes = s.wrongCodes

theorem Quiet.refl (s : Store μ) : Quiet s s := ⟨rfl, rfl, rfl⟩

theorem quiet_sweepExpired (fails : ApprovalID → Bool) (ids : List ApprovalID) (s : Store μ) :
    Quiet s (s.sweepExpired now fails ids).1 := by
  fun_induction sweepExpired now fails ids s with
  | case1 => exact .refl _
  | case2 _ _ _ _ ih => exact ih
  | case3 _ _ _ _ _ _ ih => exact ih
  | case4 => exact .refl _
  | case5 _ _ _ _ _ _ _ _ ih => exact ih
  | case6 _ _ _ _ _ _ _ ih => exact ⟨ih.performed, ih.tested, ih.wrongCodes⟩

/-- Clearing performs nothing. -/
theorem Cleared.quiet (cleared : Cleared now s t) : Quiet s t := by
  cases cleared with
  | swept fails ids => exact quiet_sweepExpired fails ids s
  | pruned fails ids =>
    have swept := @quiet_sweepExpired μ now fails ids s
    exact ⟨swept.performed, swept.tested, swept.wrongCodes⟩

theorem quiet_takePending (id : ApprovalID) (s : Store μ) : Quiet s (s.takePending id) := by
  unfold takePending
  split
  · exact .refl s
  · split_ifs
    · exact .refl s
    · exact ⟨rfl, rfl, rfl⟩

theorem quiet_work (id : ApprovalID) (ok : Bool) (s : Store μ) : Quiet s (s.work id ok now) := by
  have written : ∀ d, Quiet s (s.writeExpired id d).1 := by
    intro d
    obtain ⟨r, _, _, same⟩ | ⟨_, same⟩ := writeExpired_cases id d s
    · rw [same]
      exact ⟨rfl, rfl, rfl⟩
    · rw [same]
      exact .refl s
  unfold work
  split
  · exact .refl s
  · split_ifs <;> exact ⟨rfl, rfl, rfl⟩
  · exact ⟨rfl, rfl, rfl⟩
  · obtain ⟨performed, tested, wrongCodes⟩ := written (storeTime now)
    dsimp only
    split_ifs
    · exact ⟨rfl, rfl, rfl⟩
    · exact ⟨performed, tested, wrongCodes⟩
    · exact ⟨performed, tested, wrongCodes⟩
  · exact ⟨rfl, rfl, rfl⟩
  · rename_i d _ _
    obtain ⟨performed, tested, wrongCodes⟩ := written d
    split_ifs
    · exact ⟨rfl, rfl, rfl⟩
    · exact ⟨rfl, rfl, rfl⟩
    · exact ⟨performed, tested, wrongCodes⟩

/-- A step that is not quiet is a `confirm` of a live approval before its expiry, with a wrong code or with the
right one. -/
theorem step_quiet [DecidableEq μ] (cfg : Config μ) (s : Store μ) (e : Event) : Quiet s (s.step cfg e) ∨
      ∃ id code io live row, e.op = .confirm id code io ∧ s.pending.lookup id = some live ∧ live.reserved = false ∧
        s.rows.lookup id = some row ∧ e.now < parseStoreTime row.expires ∧
        (live.mac ≠ some (cfg.codeMAC s.key id code) ∧ s.step cfg e = (s.badCode id live row io e.now).1 ∨
          live.mac = some (cfg.codeMAC s.key id code) ∧ s.step cfg e = (s.approve id live row io e.now).1) := by
  obtain ⟨now, op⟩ := e
  cases op with
  | create id kind subject summary action io =>
    left
    change Quiet s (if id ∈ s.used then s else (s.create cfg id kind subject summary action io now).1)
    split_ifs
    · exact .refl s
    obtain same | ⟨t, cleared, same | ⟨_, _, _, same⟩⟩ := create_cases cfg id kind subject summary action io now s
    · rw [same]
      exact .refl s
    · rw [same]
      exact cleared.quiet
    · rw [same]
      exact ⟨cleared.quiet.performed, cleared.quiet.tested, cleared.quiet.wrongCodes⟩
  | windowReady id handle =>
    left
    change Quiet s (s.windowReady id handle)
    unfold windowReady
    split <;> exact ⟨rfl, rfl, rfl⟩
  | createFails id =>
    left
    change Quiet s (s.createFails id)
    unfold createFails
    split <;> exact ⟨rfl, rfl, rfl⟩
  | storeApproval id code ok =>
    left
    change Quiet s (s.storeApproval cfg id code ok).1
    unfold storeApproval
    split
    · exact .refl s
    dsimp only
    split
    · exact ⟨rfl, rfl, rfl⟩
    · split_ifs <;> exact ⟨rfl, rfl, rfl⟩
  | confirm id code io =>
    change Quiet s (s.confirm cfg id code io now).1 ∨ _
    have step : s.step cfg ⟨now, .confirm id code io⟩ = (s.confirm cfg id code io now).1 := rfl
    rw [step]
    unfold confirm
    split
    · exact .inl (.refl s)
    rename_i live found
    split
    · exact .inl (.refl s)
    rename_i reserved
    split
    · exact .inl (.refl s)
    · exact .inl ⟨rfl, rfl, rfl⟩
    · rename_i row running
      obtain ⟨stored, before⟩ := checkExpiry_running running
      refine .inr ⟨id, code, io, live, row, rfl, found, by simpa using reserved, stored, before, ?_⟩
      split_ifs with wrong
      · exact .inl ⟨Ne.symm wrong, rfl⟩
      · exact .inr ⟨(not_ne_iff.mp wrong).symm, rfl⟩
  | reject id => exact .inl (quiet_takePending id s)
  | rejectSubjects subjects => exact .inl ⟨rfl, rfl, rfl⟩
  | rejectNext =>
    left
    change Quiet s s.rejectNext
    unfold rejectNext
    split
    · exact .refl s
    · rename_i id rest _
      obtain ⟨performed, tested, wrongCodes⟩ := quiet_takePending id { s with rejecting := rest }
      exact ⟨performed, tested, wrongCodes⟩
  | expireNow id =>
    left
    change Quiet s (s.expireNow id)
    unfold expireNow
    split_ifs
    · split <;> exact ⟨rfl, rfl, rfl⟩
    · exact .refl s
  | work id ok => exact .inl (quiet_work id ok s)
  | list order fails => exact .inl (quiet_sweepExpired fails _ s)
  | reopen id =>
    left
    change Quiet s (s.reopen id)
    unfold reopen
    split
    · exact .refl s
    · split_ifs <;> exact ⟨rfl, rfl, rfl⟩
  | reopened id handle =>
    left
    change Quiet s (s.reopened id handle)
    unfold reopened
    split
    · exact .refl s
    · split_ifs <;> exact ⟨rfl, rfl, rfl⟩
  | answered id handle =>
    left
    change Quiet s (s.answered id handle)
    unfold answered
    split
    · exact .refl s
    · split_ifs <;> exact ⟨rfl, rfl, rfl⟩
  | close => exact .inl ⟨rfl, rfl, rfl⟩
  | restart key written prune =>
    left
    change Quiet s (s.restart key written prune now)
    unfold restart
    dsimp only
    split_ifs <;> exact ⟨rfl, rfl, rfl⟩

/-! ## Runs -/

def Ok (s : Store μ) : Prop := ∀ id, (s.slot id).Ok

/-- So do the moves of one step. -/
theorem Moves.ok (moves : Moves now s t) (ok : s.Ok) : t.Ok := fun id => Slot.ok_of_moves (moves.slot id) (ok id)

/-- A reservation keeps the invariant of every approval. -/
theorem Reserves.ok (reserves : Reserves now id s t) (ok : s.Ok) : t.Ok := by
  intro k
  by_cases same : k = id
  · subst same
    obtain ⟨e, d, reserved, untried, _, here⟩ := reserves.slot
    rw [here]
    refine (ok k).reserve ?_ reserved untried
    exact Bool.eq_false_iff.mpr fun used => reserves.fresh (List.contains_iff_mem.mp used)
  · rw [reserves.elsewhere k same]
    exact ok k

theorem ok_step [DecidableEq μ] (cfg : Config μ) (s : Store μ) (e : Event) (ok : s.Ok) : (s.step cfg e).Ok := by
  obtain moves | ⟨_, _, _, _, _, _, _, _, cleared, _, _, _, reserves⟩ := step_cases cfg s e
  · exact moves.ok ok
  · exact reserves.ok (cleared.moves.ok ok)

theorem ok_boot (key : Nat) (rows : Dict ApprovalID Row) (wrongCodes : WrongCodes) :
    (boot key rows wrongCodes : Store μ).Ok := by
  intro id
  cases found : rows.lookup id with
  | none =>
    have absent : rows.keys.contains id = false := by
      rw [Bool.eq_false_iff, ne_eq, List.contains_iff_mem]
      exact AList.lookup_eq_none.mp found
    simp only [slot, boot, found, absent]
    exact .fresh
  | some r =>
    have present : rows.keys.contains id = true :=
      List.contains_iff_mem.mpr (AList.lookup_isSome.mp (by rw [found]; rfl) : id ∈ rows)
    simp only [slot, boot, found, present]
    exact .left (Nat.zero_le _)

theorem ok_run [DecidableEq μ] (cfg : Config μ) (ok : s.Ok) (es : List Event) : (run (step cfg) s es).Ok :=
  run_invariant (ok_step cfg) ok es

end Store

end Agentnet.Approval
