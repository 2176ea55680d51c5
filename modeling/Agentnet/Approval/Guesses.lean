import Agentnet.Approval.Decides

/-! How many wrong codes can be tested: three for each approval, and ten in a day over all of them. -/

namespace Agentnet.Approval

open Lib

/-! ## The window of wrong codes -/

variable {now : Time} {w : WrongCodes}

/-- What `wrongCodesIn` reads later is part of what it reads now. -/
theorem wrongCodesIn_later {later : Time} (readable : w ≠ .undecodable) (order : now ≤ later) :
    wrongCodesIn later w = (wrongCodesIn now w).filter fun t => decide (later - wrongCodeWindow < t) := by
  cases w with
  | absent => rfl
  | undecodable => exact absurd rfl readable
  | stored times =>
    simp only [wrongCodesIn, List.filter_filter]
    refine List.filter_congr fun t _ => ?_
    rw [← Bool.decide_and, decide_eq_decide]
    constructor
    · intro newer
      exact ⟨newer, lt_of_le_of_lt (Int.sub_le_sub_right order _) newer⟩
    · exact And.left

theorem locked_undecodable (now : Time) : locked now .undecodable = true := by
  simp [locked, wrongCodesIn]

theorem readable_of_unlocked (unlocked : locked now w = false) : w ≠ .undecodable := by
  rintro rfl
  cases (locked_undecodable now).symm.trans unlocked

theorem unlocked_later {later : Time} (unlocked : locked now w = false) (order : now ≤ later) :
    locked later w = false := by
  have fewer := List.length_filter_le (fun t => decide (later - wrongCodeWindow < t)) (wrongCodesIn now w)
  rw [← wrongCodesIn_later (readable_of_unlocked unlocked) order] at fewer
  simp only [locked, decide_eq_false_iff_not] at unlocked ⊢
  omega

theorem parse_storeTime_of_stored {t : Time} (readable : w ≠ .undecodable) (mem : t ∈ wrongCodesIn now w) :
    parseStoreTime (storeTime t) = t := by
  cases w with
  | absent => cases mem
  | undecodable => exact absurd rfl readable
  | stored times =>
    obtain ⟨stamp, _, rfl⟩ := List.mem_map.mp (List.mem_of_mem_filter mem)
    exact congrArg parseStoreTime (Int.mul_ediv_cancel stamp (by decide : (1000000 : Int) ≠ 0))

/-- The window after a wrong code at `now`. -/
theorem wrongCodesIn_record {later : Time} (readable : w ≠ .undecodable) (order : now ≤ later) :
    wrongCodesIn later (recordWrongCodeIn now w).1 =
      wrongCodesIn later w ++ [parseStoreTime (storeTime now)].filter fun t =>
        decide (later - wrongCodeWindow < t) := by
  have kept : (wrongCodesIn now w).map (parseStoreTime ∘ storeTime) = wrongCodesIn now w :=
    (List.map_congr_left fun t mem => parse_storeTime_of_stored readable mem).trans (List.map_id' _)
  rw [wrongCodesIn_later readable order, ← List.filter_append]
  have stored : ((wrongCodesIn now w ++ [now]).map storeTime).map parseStoreTime = wrongCodesIn now w ++
      [parseStoreTime (storeTime now)] := by
    rw [List.map_map, List.map_append, kept, List.map_cons, List.map_nil, Function.comp_apply]
  exact congrArg (List.filter fun t => decide (later - wrongCodeWindow < t)) stored

namespace Store

variable {μ : Type} {s t : Store μ}

/-- The stored times of the wrong codes that were counted in the table. -/
def recorded (s : Store μ) : List StoreTime := (s.tested.filter Test.recorded).map fun t => storeTime t.at'

/-- At the time `clock`: while anything is in memory the window has room from now on; and the window holds every
counted wrong code that is newer than a day. -/
structure Window (clock : Time) (s : Store μ) : Prop where
  room : (∀ id, s.pending.lookup id = none) ∨ ∀ now, clock ≤ now → locked now s.wrongCodes = false
  held : ∀ now, clock ≤ now →
    (s.recorded.countP fun c => decide (now - wrongCodeWindow < parseStoreTime c)) ≤
      (wrongCodesIn now s.wrongCodes).length
  daily : ∀ x, (s.recorded.countP fun c => decide (x ≤ c ∧ c < x + 86400000)) ≤ maxWrongPerDay

variable {now : Time} {test : Test} {e : Live μ} {id : ApprovalID} {io : ConfirmIO} {r : Row}

/-- Recorded codes only leave the window. -/
theorem Window.later {clock : Time} (window : Window clock s) (order : clock ≤ now) : Window now s :=
  ⟨window.room.imp_right fun room later h => room later (order.trans h),
    fun later h => window.held later (order.trans h), window.daily⟩

/-- What neither counts a code nor puts anything into an empty memory keeps the window. -/
theorem Window.same {clock : Time} (window : Window clock s) (recorded : t.recorded = s.recorded)
    (codes : t.wrongCodes = s.wrongCodes) (entries : ((∀ id, s.pending.lookup id = none) →
      ∀ id, t.pending.lookup id = none) ∨ locked clock s.wrongCodes = false) : Window clock t := by
  obtain ⟨room, held, daily⟩ := window
  refine ⟨?_, ?_, ?_⟩
  · rw [codes]
    rcases entries with entries | unlocked
    · exact room.imp_left entries
    · exact .inr fun now order => unlocked_later unlocked order
  · rwa [recorded, codes]
  · rwa [recorded]

theorem Quiet.recorded (quiet : Quiet s t) : t.recorded = s.recorded := by
  rw [Store.recorded, quiet.tested, Store.recorded]

/-- Only `Create` puts an approval into memory. -/
theorem Moves.pending (moves : Moves now s t) (empty : ∀ id, s.pending.lookup id = none) (id : ApprovalID) :
    t.pending.lookup id = none :=
  Slot.entry_of_moves (moves.slot id) (empty id)

/-- What was stored less than a day before `now`, counted in whole milliseconds, is newer than the cutoff. -/
theorem newer_of_window {x c : StoreTime} (first : x ≤ c) (last : storeTime now < x + 86400000) :
    now - wrongCodeWindow < parseStoreTime c := by
  have cutoff : ∀ x c now : Int, x ≤ c → now / 1000000 < x + 86400000 →
      now - 24 * (60 * (60 * 1000000000)) < c * 1000000 := by
    intro x c now first last
    omega
  exact cutoff x c now first last

theorem recorded_cons (on : test.recorded = true) :
    ({ s with tested := test :: s.tested } : Store μ).recorded = storeTime test.at' :: s.recorded := by
  simp only [recorded, List.filter_cons_of_pos on, List.map_cons]

theorem recorded_cons_of_not (off : test.recorded = false) :
    ({ s with tested := test :: s.tested } : Store μ).recorded = s.recorded := by
  simp only [recorded, List.filter_cons, off, Bool.false_eq_true, if_false]

theorem records_badCode : (s.badCode id e r io now).1.tested = ⟨id, now, io.record⟩ :: s.tested ∧
      (s.badCode id e r io now).1.wrongCodes = if io.record then (recordWrongCodeIn now s.wrongCodes).1
        else s.wrongCodes := by
  cases written : io.record with
  | false => simp only [badCode, written, take, Bool.not_false, if_true, Bool.false_eq_true, if_false, and_self]
  | true =>
    unfold badCode
    simp only [written, Bool.not_true, Bool.false_eq_true, if_false, if_true]
    repeat' split
    all_goals exact ⟨rfl, rfl⟩

theorem pending_badCode (written : io.record = true)
    (full : (recordWrongCodeIn now s.wrongCodes).2 = true) (k : ApprovalID) :
    (s.badCode id e r io now).1.pending.lookup k = none := by
  simp only [badCode, written, Bool.not_true, Bool.false_eq_true, if_false, full, if_true, dropAllLocked,
    AList.lookup_empty]

theorem window_badCode (window : Window now s)
    (entry : s.pending.lookup id = some e) (written : io.record = true) : Window now (s.badCode id e r io now).1 := by
  obtain ⟨tested, codes⟩ := @records_badCode μ s now e id io r
  rw [written] at tested
  rw [written, if_pos rfl] at codes
  have recorded : (s.badCode id e r io now).1.recorded = storeTime now :: s.recorded := by
    rw [Store.recorded, tested]
    exact recorded_cons (s := s) rfl
  have open' : ∀ later, now ≤ later → locked later s.wrongCodes = false := by
    refine window.room.resolve_left fun empty => ?_
    cases entry.symm.trans (empty id)
  have readable := readable_of_unlocked (open' now le_rfl)
  refine ⟨?_, ?_, ?_⟩
  · by_cases full : (recordWrongCodeIn now s.wrongCodes).2 = true
    · exact .inl (pending_badCode written full)
    · right
      intro later order
      rw [codes]
      refine unlocked_later ?_ order
      have short := wrongCodesIn_record readable (le_refl now)
      simp only [recordWrongCodeIn, decide_eq_true_eq, List.length_append, List.length_singleton] at full
      rw [locked, short, decide_eq_false_iff_not, List.length_append]
      have one := List.length_filter_le (fun t => decide (now - wrongCodeWindow < t)) [parseStoreTime (storeTime now)]
      simp only [List.length_singleton] at one
      omega
  · intro later order
    rw [recorded, codes, wrongCodesIn_record readable order, List.length_append, List.countP_cons]
    refine Nat.add_le_add (window.held later order) ?_
    split_ifs with newer
    · rw [List.filter_cons_of_pos (by simpa using newer)]
      exact Nat.le_add_left 1 _
    · exact Nat.zero_le _
  · intro x
    rw [recorded, List.countP_cons]
    split_ifs with inside
    · have few : (wrongCodesIn now s.wrongCodes).length < maxWrongPerDay := by
        simpa [locked] using open' now le_rfl
      have held := window.held now le_rfl
      have others : (s.recorded.countP fun c => decide (x ≤ c ∧ c < x + 86400000)) ≤
          s.recorded.countP fun c => decide (now - wrongCodeWindow < parseStoreTime c) := by
        refine List.countP_mono_left fun c _ within => ?_
        simp only [decide_eq_true_eq] at within inside ⊢
        exact newer_of_window within.1 inside.2
      omega
    · exact window.daily x

theorem records_approve :
    (s.approve id e r io now).1.tested = s.tested ∧ (s.approve id e r io now).1.wrongCodes = s.wrongCodes := by
  unfold approve
  dsimp only
  split_ifs <;> exact ⟨rfl, rfl⟩

theorem window_step [DecidableEq μ] (cfg : Config μ) (clock : Time) (s : Store μ) (e : Event)
    (window : Window clock s) (order : clock ≤ e.now) : Window e.now (s.step cfg e) := by
  have here := window.later order
  obtain quiet | ⟨id, code, io, live, row, op, entry, stored, found, before, ⟨_, same⟩ | ⟨_, same⟩⟩ :=
    step_quiet cfg s e
  · refine here.same quiet.recorded quiet.wrongCodes ?_
    obtain moves | ⟨_, _, _, _, _, _, _, _, _, unlocked, _⟩ := step_cases cfg s e
    · exact .inl moves.pending
    · exact .inr unlocked
  · rw [same]
    cases written : io.record with
    | true => exact window_badCode here entry written
    | false =>
      obtain ⟨tested, codes⟩ := @records_badCode μ s e.now live id io row
      rw [written] at tested codes
      refine here.same ?_ codes (.inl (moves_badCode entry stored found).pending)
      rw [recorded, tested]
      exact recorded_cons_of_not (s := s) rfl
  · rw [same]
    obtain ⟨tested, codes⟩ := @records_approve μ s e.now live id io row
    refine here.same ?_ codes (.inl (moves_approve entry stored found).pending)
    rw [recorded, tested, recorded]

theorem window_boot (start : Time) (key : Nat) (rows : Dict ApprovalID Row) (wrongCodes : WrongCodes) :
    Window start (boot key rows wrongCodes : Store μ) := by
  refine ⟨.inl fun id => AList.lookup_empty id, ?_, ?_⟩
  · intro now _
    exact Nat.zero_le _
  · intro x
    exact Nat.zero_le _

/-- A wrong code is always recorded. -/
def Written (e : Event) : Prop := ∀ id code io, e.op = .confirm id code io → io.record = true

theorem recorded_run [DecidableEq μ] (cfg : Config μ) {es : List Event} (written : ∀ e ∈ es, Written e)
    (all : ∀ t ∈ s.tested, t.recorded = true) :
    ∀ t ∈ (run (step cfg) s es).tested, t.recorded = true := by
  induction es generalizing s with
  | nil => exact all
  | cons e es ih =>
    obtain ⟨first, rest⟩ := List.forall_mem_cons.mp written
    refine ih rest ?_
    obtain quiet | ⟨id, code, io, live, row, op, _, _, _, _, ⟨_, same⟩ | ⟨_, same⟩⟩ := step_quiet cfg s e
    · rw [quiet.tested]
      exact all
    · rw [same, records_badCode.1]
      exact List.forall_mem_cons.mpr ⟨first id code io op, all⟩
    · rw [same, records_approve.1]
      exact all

/-- While the window is full, a `Create` is refused and one that waited for its window stores nothing. -/
theorem refused_of_locked (cfg : Config μ) (empty : ∀ id, s.pending.lookup id = none)
    (full : locked now s.wrongCodes = true) (id : ApprovalID) :
    (∀ kind subject summary action io, (s.create cfg id kind subject summary action io now).1 = s) ∧
      ∀ code ok, (s.storeApproval cfg id code ok).1.rows = s.rows ∧
      (s.storeApproval cfg id code ok).1.pending = s.pending := by
  constructor
  · intro kind subject summary action io
    unfold create
    rw [if_pos full]
    split_ifs <;> rfl
  · intro code ok
    unfold storeApproval
    split
    · exact ⟨rfl, rfl⟩
    · dsimp only
      rw [empty id]
      exact ⟨rfl, rfl⟩

/-- Every run under a clock that does not go back. Each approval has at most three wrong codes tested, whatever the
writes do. If they succeed, at most ten wrong codes have stored times within one day, a day being counted in the
whole milliseconds in which they are stored. The tenth within a day fills the window; while it is full nothing is in
memory, `Create` changes nothing and a `Create` that waited for its window stores nothing. -/
theorem codes_capped [DecidableEq μ] (cfg : Config μ) (key : Nat) (rows : Dict ApprovalID Row)
    (wrongCodes : WrongCodes) (start : Time) (es : List Event) (clocked : Clocked Event.now start es) :
    let s := run (step cfg) (boot key rows wrongCodes : Store μ) es
    (∀ id, (s.tested.countP fun t => decide (t.id = id)) ≤ 3) ∧
    ((∀ e ∈ es, Written e) →
      (∀ x, (s.tested.countP fun t => decide (x ≤ storeTime t.at' ∧ storeTime t.at' < x + 86400000)) ≤ 10) ∧
      ∀ now, clock Event.now start es ≤ now →
        10 ≤ (s.tested.countP fun t => decide (now - 24 * hour < parseStoreTime (storeTime t.at'))) →
        locked now s.wrongCodes = true) ∧
    ∀ now, clock Event.now start es ≤ now → locked now s.wrongCodes = true → (∀ id, s.pending.lookup id = none) ∧
      ∀ id, (∀ kind subject summary action io, (s.create cfg id kind subject summary action io now).1 = s) ∧
        ∀ code ok, (s.storeApproval cfg id code ok).1.rows = s.rows ∧
        (s.storeApproval cfg id code ok).1.pending = s.pending := by
  have ok : (run (step cfg) (boot key rows wrongCodes : Store μ) es).Ok := ok_run cfg (ok_boot key rows wrongCodes) es
  have window : Window (clock Event.now start es) (run (step cfg) (boot key rows wrongCodes : Store μ) es) :=
    run_clocked (motive := Window) (fun c s e => window_step cfg c s e)
      (window_boot start key rows wrongCodes) clocked
  have all : (∀ e ∈ es, Written e) →
      ∀ t ∈ (run (step cfg) (boot key rows wrongCodes : Store μ) es).tested, t.recorded = true :=
    fun written => recorded_run cfg written fun t mem => by cases mem
  dsimp only
  generalize run (step cfg) (boot key rows wrongCodes : Store μ) es = s at ok window all
  refine ⟨fun id => (ok id).few, ?_, ?_⟩
  · intro written
    have same : s.recorded = s.tested.map fun t => storeTime t.at' := by
      rw [recorded, List.filter_eq_self.mpr (all written)]
    have held := window.held
    have daily := window.daily
    simp only [same, List.countP_map] at held daily
    refine ⟨daily, ?_⟩
    intro now order ten
    exact decide_eq_true (ten.trans (held now order))
  · intro now order full
    have empty : ∀ id, s.pending.lookup id = none := by
      refine window.room.resolve_right fun room => ?_
      cases full.symm.trans (room now order)
    exact ⟨empty, refused_of_locked cfg empty full⟩

/-- `n` wrong codes for `id`. -/
def guesses (now : Time) (id : ApprovalID) (n : Nat) : List Event := List.replicate n ⟨now, .confirm id "000000" {}⟩

/-- Ten wrong codes just before the end of a millisecond, and one more when that millisecond is a day old. -/
def elevenGuesses : List Event :=
  ["a-1", "a-2", "a-3", "a-4"].flatMap (createAt 999999) ++
    (guesses 999999 "a-1" 3 ++ guesses 999999 "a-2" 3 ++ guesses 999999 "a-3" 3 ++ guesses 999999 "a-4" 1) ++
    createAt (24 * hour) "a-5" ++ guesses (24 * hour) "a-5" 1

instance (e : Event) : Decidable (Written e) :=
  match e with
  | ⟨_, .confirm id code io⟩ =>
    decidable_of_iff (io.record = true) ⟨fun h _ _ _ same => by cases same; exact h, fun h => h id code io rfl⟩
  | ⟨_, .create ..⟩ | ⟨_, .windowReady ..⟩ | ⟨_, .createFails _⟩ | ⟨_, .storeApproval ..⟩ | ⟨_, .reject _⟩ | ⟨_,
      .rejectSubjects _⟩
  | ⟨_, .rejectNext⟩ | ⟨_, .expireNow _⟩ | ⟨_, .work ..⟩ | ⟨_, .list ..⟩ | ⟨_, .reopen _⟩ | ⟨_, .reopened ..⟩ | ⟨_,
      .answered ..⟩ | ⟨_, .close⟩
  | ⟨_, .restart ..⟩ => .isTrue fun _ _ _ same => nomatch same

/-- Eleven wrong codes in less than a day, with a clock that does not go back and every write succeeding: the window
is kept in whole milliseconds, so it has room up to a millisecond early. -/
theorem elevenGuesses_tested : Clocked Event.now 0 elevenGuesses ∧ (∀ e ∈ elevenGuesses, Written e) ∧
      ((run (step plainConfig) (boot 0 ∅ .absent) elevenGuesses).tested.countP fun t => decide (999999 ≤ t.at' ∧
        t.at' < 999999 + 24 * hour)) = 11 := by
  decide +kernel

/-- The same run is within the cap of the stored times, and its tenth wrong code left nothing in memory. -/
theorem elevenGuesses_capped : ((run (step plainConfig) (boot 0 ∅ .absent) elevenGuesses).tested.countP fun t =>
        decide (1 ≤ storeTime t.at' ∧ storeTime t.at' < 1 + 86400000)) ≤ 10 ∧
      ∀ id, (run (step plainConfig) (boot 0 ∅ .absent) (elevenGuesses.take 18)).pending.lookup id = none := by
  have all := codes_capped plainConfig 0 ∅ .absent 0 elevenGuesses (by decide +kernel)
  have ten := codes_capped plainConfig 0 ∅ .absent 0 (elevenGuesses.take 18) (by decide +kernel)
  refine ⟨(all.2.1 (by decide +kernel)).1 1, ?_⟩
  exact (ten.2.2 999999 (by decide +kernel)
    (ten.2.1 (by decide +kernel) |>.2 999999 (by decide +kernel) (by decide +kernel))).1

end Store

end Agentnet.Approval
