import Mathlib.Data.List.Perm.Subperm
import Agentnet.Approval.Guesses

/-! How many approvals there can be: five in memory, and twenty created in an hour as long as the calls of `Create`
do not overlap. -/

namespace Agentnet.Approval

open Lib Relation

variable {μ : Type}

namespace Slot

variable {a b : Slot μ} {now : Time}

/-- The job will write `d` as the time of the decision. -/
def Retries (a : Slot μ) (d : StoreTime) : Prop := a.job = some (.hookThenRetry d) ∨ ∃ n, a.job = some (.retry d n)

/-- The times of an approval fit together at the time `t`: a draft and a row are not from the future, and the row of
an approval that was stored is there until its decision, which is not before its creation, is past the retention. -/
structure Dated (t : Time) (a : Slot μ) : Prop where
  draft : ∀ d, a.draft = some d → d.now ≤ t
  once : a.created.length ≤ 1
  past : ∀ c ∈ a.created, c ≤ storeTime t
  retry : ∀ c ∈ a.created, ∀ d, a.Retries d → c ≤ d
  row : ∀ c ∈ a.created, ∀ r, a.row = some r → r.created = c ∧ ∀ d, r.decided = some d → c ≤ d
  gone : ∀ c ∈ a.created, a.row = none → c < storeTime (t - decidedRetention)

/-- The times stay in order as the clock goes on. -/
theorem Dated.later {t t' : Time} (dated : a.Dated t) (order : t ≤ t') : a.Dated t' := by
  obtain ⟨draft, once, past, retry, row, gone⟩ := dated
  refine ⟨fun d found => (draft d found).trans order, once,
    fun c mem => (past c mem).trans (storeTime_mono order), retry, row, ?_⟩
  intro c mem none
  exact (gone c mem none).trans_le (storeTime_mono (Int.sub_le_sub_right order _))

/-- The row stays, or it is decided now or as of the time its job holds. -/
inductive Decides (now : Time) (a : Slot μ) : Option Row → Prop
  | same : Decides now a a.row
  | changed {r r' : Row} (row : a.row = some r) (created : r'.created = r.created)
      (decided : ∀ d, r'.decided = some d → r.decided = some d ∨ d = storeTime now ∨ a.Retries d) :
      Decides now a (some r')

theorem Decides.mayExpire {d : StoreTime} {new : Option Row} (may : MayExpire d a.row new)
    (date : d = storeTime now ∨ a.Retries d) :
    Decides now a new := by
  rcases may with rfl | ⟨r, row, _, rfl⟩
  · exact .same
  · exact .changed row rfl fun d' same => .inr (Option.some.inj same ▸ date)

theorem Dated.keep (dated : a.Dated now) (draft : b.draft = a.draft ∨ b.draft = none)
    (created : b.created = a.created) (job : ∀ d, b.Retries d → a.Retries d ∨ d = storeTime now)
    (row : Decides now a b.row) : b.Dated now := by
  refine ⟨?_, created ▸ dated.once, ?_, ?_, ?_, ?_⟩
  · intro d found
    rcases draft with same | none
    · exact dated.draft d (same ▸ found)
    · cases none.symm.trans found
  · rw [created]
    exact dated.past
  · rw [created]
    intro c mem d retries
    obtain old | rfl := job d retries
    · exact dated.retry c mem d old
    · exact dated.past c mem
  · rw [created]
    intro c mem r found
    generalize b.row = new at row found
    cases row with
    | same => exact dated.row c mem r found
    | changed row same decided =>
      cases found
      obtain ⟨first, before⟩ := dated.row c mem _ row
      refine ⟨same.trans first, ?_⟩
      intro d found
      obtain old | rfl | retries := decided d found
      · exact before d old
      · exact dated.past c mem
      · exact dated.retry c mem d retries
  · rw [created]
    intro c mem none
    generalize b.row = new at row none
    cases row with
    | same => exact dated.gone c mem none
    | changed => cases none

theorem Move.dated (move : Move now a b) (ok : a.Ok) (dated : a.Dated now) : b.Dated now := by
  have same : ∀ d, a.Retries d → a.Retries d ∨ d = storeTime now := fun d retries => .inl retries
  have never : ∀ {b : Slot μ} {j : Job}, b.job = some j → (∀ d, j ≠ .hookThenRetry d) → (∀ d n, j ≠ .retry d n) →
      ∀ d, b.Retries d → a.Retries d ∨ d = storeTime now := by
    rintro b j job first more d (found | ⟨n, found⟩)
    · exact absurd (Option.some.inj (job.symm.trans found)) (first d)
    · exact absurd (Option.some.inj (job.symm.trans found)) (more d n)
  have ended : ∀ {b : Slot μ}, b.job = none → ∀ d, b.Retries d → a.Retries d ∨ d = storeTime now := by
    rintro b job d (found | ⟨n, found⟩) <;> cases job.symm.trans found
  cases move with
  | release => exact dated.keep (.inr rfl) rfl same .same
  | forget => exact dated.keep (.inr rfl) rfl same .same
  | drop => exact dated.keep (.inl rfl) rfl same .same
  | store draft entry =>
    cases ok with
    | reserved =>
      cases draft
      have before := dated.draft _ rfl
      refine ⟨(fun _ found => by cases found), le_rfl, ?_, ?_, ?_, ?_⟩
      · rintro c (_ | ⟨_, ⟨⟩⟩)
        exact storeTime_mono before
      · rintro c _ d' (found | ⟨n, found⟩) <;> cases found
      · rintro c (_ | ⟨_, ⟨⟩⟩) r found
        cases found
        exact ⟨rfl, fun _ none => by cases none⟩
      · rintro c _ none
        cases none
    | lost => cases entry
    | _ => cases draft
  | touch => exact dated.keep (.inl rfl) rfl same .same
  | take _ _ writes =>
    refine dated.keep (.inl rfl) rfl ?_ .same
    rcases writes with rfl | rfl
    · exact never rfl (by simp) (by simp)
    · exact never rfl (by simp) (by simp)
  | expire _ _ row =>
    exact dated.keep (.inl rfl) rfl (never rfl (by simp) (by simp))
      (.changed row rfl fun d same => .inr (.inl (Option.some.inj same).symm))
  | approve _ _ row =>
    exact dated.keep (.inl rfl) rfl same (.changed row rfl fun d same => .inr (.inl (Option.some.inj same).symm))
  | count _ _ row => exact dated.keep (.inl rfl) rfl same (.changed row rfl fun d none => by cases none)
  | exhaust _ _ row =>
    exact dated.keep (.inl rfl) rfl (never rfl (by simp) (by simp))
      (.changed row rfl fun d same => .inr (.inl (Option.some.inj same).symm))
  | give _ _ row open' =>
    refine dated.keep (.inl rfl) rfl (never rfl (by simp) (by simp)) ?_
    rcases open' with rfl | rfl
    · exact .changed row rfl fun d old => .inl old
    · exact .changed row rfl fun d none => by cases none
  | rejectRow _ row =>
    refine dated.keep (.inl rfl) rfl (never rfl (by simp) (by simp)) ?_
    rcases row with rfl | rfl
    · exact .same
    · dsimp only
      cases found : a.row with
      | none =>
        have kept : Decides now a a.row := .same
        rwa [found] at kept
      | some r => exact .changed found rfl fun d same => .inr (.inl (Option.some.inj same).symm)
  | hook => exact dated.keep (.inl rfl) rfl (ended rfl) .same
  | expireFails =>
    refine dated.keep (.inl rfl) rfl ?_ .same
    rintro d (found | ⟨n, found⟩)
    · cases found
      exact .inr rfl
    · cases found
  | written _ row =>
    exact dated.keep (.inl rfl) rfl (never rfl (by simp) (by simp))
      (.changed row rfl fun d same => .inr (.inl (Option.some.inj same).symm))
  | decided => exact dated.keep (.inl rfl) rfl (ended rfl) .same
  | hookFirst job =>
    refine dated.keep (.inl rfl) rfl ?_ .same
    rintro d (found | ⟨n, found⟩)
    · cases found
    · cases found
      exact .inl (.inl job)
  | retry job =>
    refine dated.keep (.inl rfl) rfl ?_ .same
    rintro d (found | ⟨n, found⟩)
    · cases found
    · cases found
      exact .inl (.inr ⟨_, job⟩)
  | retryEnds job row => exact dated.keep (.inl rfl) rfl (ended rfl) (.mayExpire row (.inr (.inr ⟨_, job⟩)))
  | prune row state decided old =>
    obtain ⟨draft, once, past, retry, rows, gone⟩ := dated
    refine ⟨draft, once, past, retry, (fun c mem r found => by cases found), ?_⟩
    intro c mem _
    exact ((rows c mem _ row).2 _ decided).trans_lt old
  | restart row => exact dated.keep (.inr rfl) rfl (ended rfl) (.mayExpire row (.inl rfl))

/-- The hour from `x` on, in the milliseconds of the table. -/
def inHour (x c : StoreTime) : Bool := decide (x ≤ c ∧ c ≤ x + 3600000)

def waits (a : Slot μ) : Bool := a.entry.any Live.reserved

/-- The approval has a creation time in the hour, or it is reserved and will have one if it is stored. -/
def counts (x : StoreTime) (a : Slot μ) : Bool :=
  a.created.any (inHour x) || (a.waits && a.draft.any fun d => inHour x (storeTime d.now))

theorem Move.waits (move : Move now a b) (waits : b.waits = true) : a.waits = true := by
  cases move with
  | release =>
    simp only [Slot.waits, Option.any_eq_true, Option.filter_eq_some_iff] at waits
    obtain ⟨e, ⟨_, stored⟩, reserved⟩ := waits
    simp [reserved] at stored
  | store _ _ stored => cases stored.symm.trans waits
  | touch entry reserved =>
    rw [Slot.waits, entry]
    exact reserved.symm.trans waits
  | count _ _ _ live => cases live.symm.trans waits
  | forget => cases waits
  | drop => cases waits
  | take => cases waits
  | expire => cases waits
  | approve => cases waits
  | exhaust => cases waits
  | give => cases waits
  | restart => cases waits
  | _ => exact waits

variable {x : StoreTime}

theorem Move.counts (move : Move now a b) (ok : a.Ok) (counts : b.counts x = true) : a.counts x = true := by
  simp only [Slot.counts, Bool.or_eq_true, Bool.and_eq_true] at counts ⊢
  have keeps : ∀ {draft : Option Draft}, (draft = a.draft ∨ draft = none) → b.waits = true →
      (draft.any fun d => inHour x (storeTime d.now)) = true →
      a.waits = true ∧ (a.draft.any fun d => inHour x (storeTime d.now)) = true := by
    rintro draft (rfl | rfl) waits inside
    · exact ⟨move.waits waits, inside⟩
    · cases inside
  cases move with
  | store draft entry =>
    rcases counts with created | ⟨_, inside⟩
    · simp only [List.any_cons, Bool.or_eq_true] at created
      rcases created with new | old
      · right
        cases ok with
        | reserved reserved =>
          cases entry
          cases draft
          exact ⟨reserved, new⟩
        | lost => cases entry
        | _ => cases draft
      · exact .inl old
    · cases inside
  | release => exact counts.imp_right fun both => keeps (.inr rfl) both.1 both.2
  | forget => exact counts.imp_right fun both => keeps (.inr rfl) both.1 both.2
  | restart => exact counts.imp_right fun both => keeps (.inr rfl) both.1 both.2
  | _ => exact counts.imp_right fun both => keeps (.inl rfl) both.1 both.2

theorem dated_of_moves (moves : ReflTransGen (Move now) a b) (ok : a.Ok) (dated : a.Dated now) : b.Dated now := by
  induction moves with
  | refl => exact dated
  | tail before move ih => exact move.dated (ok_of_moves before ok) ih

theorem waits_of_moves (moves : ReflTransGen (Move now) a b) (waits : b.waits = true) : a.waits = true := by
  induction moves with
  | refl => exact waits
  | tail _ move ih => exact ih (move.waits waits)

theorem counts_of_moves (moves : ReflTransGen (Move now) a b) (ok : a.Ok) (counts : b.counts x = true) :
    a.counts x = true := by
  induction moves with
  | refl => exact counts
  | tail before move ih => exact ih (move.counts (ok_of_moves before ok) counts)

end Slot

namespace Store

variable {s t : Store μ} {now : Time} {id : ApprovalID}

/-- How many approvals count for the hour from `x` on. -/
def inHour (x : StoreTime) (s : Store μ) : Nat := s.used.countP fun id => (s.slot id).counts x

theorem mem_keys_pending : id ∈ s.pending.keys ↔ (s.slot id).entry ≠ none := by
  rw [← AList.mem_keys, ← AList.lookup_isSome, Option.isSome_iff_ne_none]
  rfl

theorem length_pending_le {ids : List ApprovalID} (subset : ∀ id, (t.slot id).entry ≠ none → id ∈ ids) :
    t.pending.entries.length ≤ ids.length := by
  have keys : t.pending.keys.length = t.pending.entries.length := List.length_map _
  rw [← keys]
  exact (t.pending.keys_nodup.subperm fun id mem => subset id (mem_keys_pending.mp mem)).length_le

theorem Moves.length_pending (moves : Moves now s t) : t.pending.entries.length ≤ s.pending.entries.length := by
  have keys : s.pending.keys.length = s.pending.entries.length := List.length_map _
  rw [← keys]
  refine length_pending_le fun id present => mem_keys_pending.mpr fun absent => ?_
  exact present (Slot.entry_of_moves (moves.slot id) absent)

theorem Reserves.length_pending (reserves : Reserves now id s t) :
    t.pending.entries.length ≤ s.pending.entries.length + 1 := by
  have keys : (id :: s.pending.keys).length = s.pending.entries.length + 1 := congrArg Nat.succ (List.length_map _)
  rw [← keys]
  refine length_pending_le fun k present => ?_
  by_cases same : k = id
  · exact same ▸ List.mem_cons_self
  · rw [reserves.elsewhere k same] at present
    exact List.mem_cons_of_mem id (mem_keys_pending.mpr present)

/-- The caps, with room for `extra` reservations that were made while others waited. -/
structure Capped (extra : Nat) (clock : Time) (s : Store μ) : Prop where
  ok : s.Ok
  nodup : s.used.Nodup
  dated : ∀ id, (s.slot id).Dated clock
  five : s.pending.entries.length ≤ maxPending
  hour : ∀ x, s.inHour x ≤ maxPerHour + extra

variable {clock : Time} {extra : Nat} {x : StoreTime}

theorem Capped.later (capped : Capped extra clock s) (order : clock ≤ now) : Capped extra now s :=
  { capped with dated := fun id => (capped.dated id).later order }

theorem Capped.moves (capped : Capped extra now s) (moves : Moves now s t) : Capped extra now t := by
  refine ⟨moves.ok capped.ok, moves.used ▸ capped.nodup, ?_, moves.length_pending.trans capped.five, ?_⟩
  · intro id
    exact Slot.dated_of_moves (moves.slot id) (capped.ok id) (capped.dated id)
  · intro x
    refine le_trans ?_ (capped.hour x)
    rw [inHour, moves.used]
    exact List.countP_mono_left fun id _ counts => Slot.counts_of_moves (moves.slot id) (capped.ok id) counts

/-- The approvals that are reserved and not stored yet. -/
def waiting (s : Store μ) : List ApprovalID := s.pending.keys.filter fun id => (s.slot id).waits

/-- A time of the hour that reaches to `now` is one that the hourly count sees, and far from the retention. -/
theorem since_le {c : StoreTime} (reaches : storeTime now ≤ x + 3600000) (inside : x ≤ c) :
    storeTime (now - Agentnet.hour) ≤ c ∧ storeTime (now - decidedRetention) ≤ c := by
  have times : ∀ x c now : Int, now / 1000000 ≤ x + 3600000 → x ≤ c →
      (now - 60 * (60 * 1000000000)) / 1000000 ≤ c ∧ (now - 30 * (24 * (60 * (60 * 1000000000)))) / 1000000 ≤ c := by
    intro x c now reaches inside
    omega
  exact times x c now reaches inside

/-- What counts for an hour that reaches to `now`: a row that the hourly count sees, or a reserved slot. -/
theorem inHour_le (capped : Capped extra now s) (reaches : storeTime now ≤ x + 3600000) :
    s.inHour x ≤ s.countCreatedSince (now - Agentnet.hour) + s.waiting.length := by
  let seen := (s.rows.entries.filter fun e => decide (storeTime (now - Agentnet.hour) ≤ e.2.created)).map Sigma.fst
  have length : seen.length = s.countCreatedSince (now - Agentnet.hour) := by
    rw [List.length_map, ← List.countP_eq_length_filter]
    rfl
  rw [inHour, List.countP_eq_length_filter, ← length, ← List.length_append]
  refine ((capped.nodup.filter _).subperm fun id mem => ?_).length_le
  obtain ⟨_, counts⟩ := List.mem_filter.mp mem
  simp only [Slot.counts, Bool.or_eq_true, Bool.and_eq_true] at counts
  rcases counts with created | ⟨waits, _⟩
  · obtain ⟨c, stored, inside⟩ := List.any_eq_true.mp created
    have first := (of_decide_eq_true inside).1
    obtain ⟨since, kept⟩ := since_le reaches first
    cases found : (s.slot id).row with
    | none => exact absurd ((capped.dated id).gone c stored found) (not_lt.mpr kept)
    | some r =>
      refine List.mem_append_left _
        (List.mem_map.mpr ⟨⟨id, r⟩, List.mem_filter.mpr ⟨AList.mem_lookup_iff.mp found, ?_⟩, rfl⟩)
      rw [((capped.dated id).row c stored r found).1]
      exact decide_eq_true since
  · refine List.mem_append_right _ (List.mem_filter.mpr ⟨mem_keys_pending.mpr ?_, waits⟩)
    intro absent
    rw [Slot.waits, absent] at waits
    cases waits

/-- An id that was never used has nothing stored. -/
theorem Ok.fresh (ok : s.Ok) (unused : id ∉ s.used) : s.slot id = {} := by
  have stage := ok id
  have used : (s.slot id).used = false := Bool.eq_false_iff.mpr fun used => unused (List.contains_iff_mem.mp used)
  generalize s.slot id = a at stage used
  cases stage with
  | fresh => rfl
  | _ => cases used

theorem Capped.reserves (capped : Capped extra now s) (reserves : Reserves now id s t)
    (room : s.pending.entries.length < maxPending) (seldom : s.countCreatedSince (now - Agentnet.hour) < maxPerHour)
    (few : s.waiting.length ≤ extra) : Capped extra now t := by
  obtain ⟨e, d, _, _, at', here⟩ := reserves.slot
  rw [capped.ok.fresh reserves.fresh] at here
  refine ⟨reserves.ok capped.ok, ?_, ?_, reserves.length_pending.trans room, ?_⟩
  · rw [reserves.used]
    exact List.nodup_cons.mpr ⟨reserves.fresh, capped.nodup⟩
  · intro k
    by_cases same : k = id
    · subst same
      rw [here]
      refine ⟨?_, Nat.zero_le 1, ?_, ?_, ?_, ?_⟩
      · rintro _ ⟨⟩
        exact at'.le
      all_goals exact fun c mem => by cases mem
    · rw [reserves.elsewhere k same]
      exact capped.dated k
  · intro x
    have others : (s.used.countP fun k => (t.slot k).counts x) = s.inHour x := by
      refine List.countP_congr fun k mem => ?_
      rw [reserves.elsewhere k fun same => reserves.fresh (same ▸ mem)]
    rw [inHour, reserves.used, List.countP_cons, others, here]
    split_ifs with counts
    · simp only [Slot.counts, Slot.reserve, List.any_nil, Bool.false_or, Bool.and_eq_true, Option.any_some] at counts
      have reaches := (of_decide_eq_true counts.2).2
      rw [at'] at reaches
      have within := inHour_le capped reaches
      omega
    · exact capped.hour x

/-- The caps over one event; `few` bounds the drafts that wait when a `Create` reserves. -/
theorem Capped.step [DecidableEq μ] (cfg : Config μ) (capped : Capped extra clock s) (e : Event)
    (order : clock ≤ e.now) (few : ∀ id kind subject summary action io,
      e.op = .create id kind subject summary action io → ∀ t, Moves e.now s t →
      t.pending.entries.length < maxPending → t.waiting.length ≤ extra) : Capped extra e.now (s.step cfg e) := by
  have here := capped.later order
  obtain moves | ⟨id, kind, subject, summary, action, io, t, op, cleared, _, room, seldom, reserves⟩ :=
    step_cases cfg s e
  · exact here.moves moves
  · exact (here.moves cleared.moves).reserves reserves room seldom
      (few id kind subject summary action io op t cleared.moves room)

theorem capped_boot (extra : Nat) (start : Time) (key : Nat) (rows : Dict ApprovalID Row) (wrongCodes : WrongCodes) :
    Capped extra start (boot key rows wrongCodes : Store μ) := by
  have none : ∀ id, ((boot key rows wrongCodes : Store μ).slot id).created = [] := fun _ => rfl
  refine ⟨ok_boot key rows wrongCodes, rows.keys_nodup, ?_, Nat.zero_le _, ?_⟩
  · intro id
    refine ⟨(fun d found => by cases found), Nat.zero_le 1, ?_, ?_, ?_, ?_⟩
    all_goals
      rw [none]
      exact fun c mem => by cases mem
  · intro x
    have nothing : (boot key rows wrongCodes : Store μ).inHour x = 0 := by
      rw [inHour, List.countP_eq_zero]
      intro id _ counts
      cases counts
    rw [nothing]
    exact Nat.zero_le _

def Op.isCreate : Op → Bool
  | .create .. => true
  | _ => false

/-- A `Create` is not begun while another one waits between its reservation and its row. -/
def Alone (s : Store μ) (e : Event) : Prop := e.op.isCreate = true → ∀ p ∈ s.pending.entries, p.2.reserved = false

instance (s : Store μ) (e : Event) : Decidable (Alone s e) := inferInstanceAs (Decidable (_ → _))

theorem waiting_of_alone {e : Event} (alone : Alone s e) (op : e.op.isCreate = true) (moves : Moves now s t) :
    t.waiting.length ≤ 0 := by
  rw [waiting, List.filter_eq_nil_iff.mpr, List.length_nil]
  intro k _ waits
  have before := Slot.waits_of_moves (moves.slot k) waits
  obtain ⟨live, found, reserved⟩ := (Option.any_eq_true _ _).mp before
  cases reserved.symm.trans (alone op ⟨k, live⟩ (AList.mem_lookup_iff.mp found))

theorem countP_created_le (capped : Capped extra clock s) (x : StoreTime) :
    (s.created.countP fun c => decide (x ≤ c.2 ∧ c.2 ≤ x + 3600000)) ≤ s.inHour x := by
  have once : (s.created.map Prod.fst).Nodup := by
    rw [List.nodup_iff_count_le_one]
    intro id
    have few := (capped.dated id).once
    rw [slot, List.length_map, ← List.countP_eq_length_filter] at few
    rw [List.count_eq_countP, List.countP_map]
    exact few
  rw [inHour, List.countP_eq_length_filter, List.countP_eq_length_filter, ← List.length_map Prod.fst]
  refine ((once.sublist (List.filter_sublist.map Prod.fst)).subperm fun id mem => ?_).length_le
  obtain ⟨⟨k, c⟩, stored, rfl⟩ := List.mem_map.mp mem
  obtain ⟨logged, inside⟩ := List.mem_filter.mp stored
  have created : c ∈ (s.slot k).created :=
    List.mem_map.mpr ⟨(k, c), List.mem_filter.mpr ⟨logged, decide_eq_true rfl⟩, rfl⟩
  refine List.mem_filter.mpr ⟨?_, ?_⟩
  · by_contra unused
    rw [capped.ok.fresh unused] at created
    cases created
  · rw [Slot.counts, List.any_eq_true.mpr ⟨c, created, inside⟩, Bool.true_or]

/-- Every run under a clock that does not go back. At most five approvals are in memory, reserved ones included. At
most twenty-four have their creation time in one hour; and at most twenty if no `Create` begins while another one
waits between its reservation and its row. -/
theorem creation_capped [DecidableEq μ] (cfg : Config μ) (key : Nat) (rows : Dict ApprovalID Row)
    (wrongCodes : WrongCodes) (start : Time) (es : List Event) (clocked : Clocked Event.now start es) :
    let s := run (step cfg) (boot key rows wrongCodes : Store μ) es
    s.pending.entries.length ≤ 5 ∧
    (∀ x, (s.created.countP fun c => decide (x ≤ c.2 ∧ c.2 ≤ x + 3600000)) ≤ 24) ∧
    (Follows (step cfg) Alone (boot key rows wrongCodes) es →
      ∀ x, (s.created.countP fun c => decide (x ≤ c.2 ∧ c.2 ≤ x + 3600000)) ≤ 20) := by
  have general : Capped 4 (clock Event.now start es) (run (step cfg) (boot key rows wrongCodes : Store μ) es) := by
    refine run_clocked (motive := Capped 4) ?_ (capped_boot 4 start key rows wrongCodes) clocked
    intro c s e capped order
    refine capped.step cfg e order ?_
    intro _ _ _ _ _ _ _ t _ room
    have all : t.waiting.length ≤ t.pending.keys.length := List.length_filter_le _ _
    rw [AList.keys, List.keys, List.length_map] at all
    exact all.trans (Nat.le_of_lt_succ room)
  refine ⟨general.five, fun x => (countP_created_le general x).trans (general.hour x), ?_⟩
  intro follows x
  have strict : Capped 0 (clock Event.now start es) (run (step cfg) (boot key rows wrongCodes : Store μ) es) := by
    refine run_clocked_of (motive := Capped 0) ?_ (capped_boot 0 start key rows wrongCodes) clocked follows
    intro c s e capped order alone
    refine capped.step cfg e order ?_
    intro id kind subject summary action io op t moves _
    exact waiting_of_alone alone (op ▸ rfl) moves
  exact (countP_created_le strict x).trans (strict.hour x)

def nineteen : List Event :=
  ["a", "b", "c", "d", "e", "f", "g", "h", "i", "j", "k", "l", "m", "n", "o", "p", "q", "r", "s"].flatMap fun id =>
    createAt 0 id ++ [⟨0, .reject id⟩]

def overlapping : List Event :=
  nineteen ++ [⟨1, .create "x" .grant "g-1" "Read src/" {} {}⟩, ⟨1, .create "y" .grant "g-1" "Read src/" {} {}⟩,
      ⟨2, .storeApproval "x" "271828" true⟩, ⟨2, .storeApproval "y" "314159" true⟩]

/-- Twenty-one approvals with one creation time: both calls of `Create` saw the nineteen rows and not each other. -/
theorem overlapping_exceeds : Clocked Event.now 0 overlapping ∧
      ((run (step plainConfig) (boot 0 ∅ .absent) overlapping).created.countP fun c => decide (0 ≤ c.2 ∧
        c.2 ≤ 0 + 3600000)) = 21 := by
  decide +kernel

theorem nineteen_capped :
    ((run (step plainConfig) (boot 0 ∅ .absent) (nineteen ++ createAt 1 "x")).created.countP fun c =>
      decide (0 ≤ c.2 ∧ c.2 ≤ 0 + 3600000)) ≤ 20 := by
  refine (creation_capped plainConfig 0 ∅ .absent 0 (nineteen ++ createAt 1 "x") (by decide +kernel)).2.2 ?_ 0
  decide +kernel

end Store

end Agentnet.Approval
