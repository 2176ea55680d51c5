import Agentnet.Relay.Totals

/-! First deliveries: connections of a recipient claim rows from their cursors while rows
are added, acked, swept and marks pruned. -/

namespace Agentnet.Relay

open Lib Envelope

/-! ## What a claim reads -/

theorem readRows_starts (maxBytes total : Nat) (rows : List Row) : readRows maxBytes total rows <+: rows := by
  induction rows generalizing total with
  | nil => exact List.prefix_rfl
  | cons r rest ih =>
    unfold readRows
    rw [List.cons_prefix_cons]
    refine ⟨rfl, ?_⟩
    split
    · exact List.nil_prefix
    · exact ih _

variable {rows : List Row} {cfg : QueueConfig}

theorem readRows_ne_nil {maxBytes total : Nat} (h : rows ≠ []) : readRows maxBytes total rows ≠ [] := by
  cases rows with
  | nil => exact absurd rfl h
  | cons r rest => exact List.cons_ne_nil _ _

theorem mem_deliverable {now : Time} {toKey : PeerKey} {after : Nat} {r : Row} :
    r ∈ deliverable cfg now toKey after rows ↔
      r ∈ rows ∧ r.toKey = toKey ∧ after < r.seq ∧ unexpired cfg now r = true := by
  simp [deliverable]

section Claim

variable {cfg : QueueConfig} {now : Time} {toKey : PeerKey} {after limit maxBytes : Nat} {q : Queue}

theorem claimable_starts :
    claimable cfg now toKey after limit maxBytes q <+: deliverable cfg now toKey after q.rows := by
  unfold claimable
  split
  · exact List.nil_prefix
  · exact (readRows_starts ..).trans (List.take_prefix _ _)

variable {r : Row}

theorem mem_claimable (h : r ∈ claimable cfg now toKey after limit maxBytes q) :
    r ∈ q.rows ∧ r.toKey = toKey ∧ after < r.seq ∧ unexpired cfg now r = true :=
  mem_deliverable.mp (claimable_starts.subset h)

theorem delivered_le_of_mem_claimable (h : r ∈ claimable cfg now toKey after limit maxBytes q) :
    q.delivered toKey ≤ after := by
  unfold claimable at h
  split at h
  · cases h
  · next reached => exact not_lt.mp reached

theorem pairwise_claimable : (claimable cfg now toKey after limit maxBytes q).Pairwise (·.seq < ·.seq) :=
  (q.table.ordered.filter _).sublist claimable_starts.sublist

theorem claimable_complete (h : r ∈ deliverable cfg now toKey after q.rows) :
    r ∈ claimable cfg now toKey after limit maxBytes q ∨
      ∀ r' ∈ claimable cfg now toKey after limit maxBytes q, r'.seq < r.seq := by
  have initial : claimable cfg now toKey after limit maxBytes q <+: deliverable cfg now toKey after q.rows :=
    claimable_starts
  obtain ⟨rest, split⟩ := initial
  rw [← split, List.mem_append] at h
  rcases h with returned | left
  · exact .inl returned
  · right
    have sorted : (deliverable cfg now toKey after q.rows).Pairwise (·.seq < ·.seq) := q.table.ordered.filter _
    rw [← split, List.pairwise_append] at sorted
    exact fun r' member => sorted.2.2 r' member r left

theorem claimable_ne_nil (reached : q.delivered toKey ≤ after) (some_rows : 0 < limit)
    (h : r ∈ deliverable cfg now toKey after q.rows) : claimable cfg now toKey after limit maxBytes q ≠ [] := by
  rw [claimable, if_neg (not_lt.mpr reached)]
  apply readRows_ne_nil
  rw [ne_eq, List.take_eq_nil_iff]
  rintro (zero | empty)
  · omega
  · exact List.ne_nil_of_mem h empty

end Claim

/-! ## Connections -/

structure Drains where
  queue : Queue
  cursor : Nat → Nat

/-- `redelivered`: the cursor passes rows that were delivered before, up to the mark. -/
inductive DrainEvent where
  | store (e : QueueEvent)
  | connect (c : Nat)
  | claim (c limit maxBytes : Nat) (now : Time) (fault : Bool)
  | redelivered (c upto : Nat)

def DrainEvent.claimTime : DrainEvent → Option Time
  | .claim _ _ _ now _ => some now
  | _ => none

def Drains.seek (s : Drains) (c n : Nat) : Drains := { s with cursor := Function.update s.cursor c n }

theorem Drains.cursor_seek (s : Drains) (c n c' : Nat) :
    (s.seek c n).cursor c' = if c' = c then n else s.cursor c' := by
  simp only [Drains.seek, Function.update_apply]

section Drains

variable (cfg : QueueConfig) (keyOf : Nat → PeerKey)

/-- The rows that an event hands to a connection as first deliveries. -/
def firstDeliveries (s : Drains) : DrainEvent → List Row
  | .claim c limit maxBytes now false => (claim cfg now (keyOf c) (s.cursor c) limit maxBytes s.queue).1
  | _ => []

def claimStep (s : Drains) : DrainEvent → Drains
  | .store e => { s with queue := step cfg s.queue e }
  | .connect c => s.seek c 0
  | .claim c limit maxBytes now false =>
    let (rows, _, q) := claim cfg now (keyOf c) (s.cursor c) limit maxBytes s.queue
    match rows.getLast? with
    | none => { s with queue := q }
    | some last => { s with queue := q }.seek c last.seq
  | .claim _ _ _ _ true => s
  | .redelivered c upto => s.seek c (max (s.cursor c) (min upto (s.queue.delivered (keyOf c))))

/-- An empty queue and no cursors. -/
def Drains.initial : Drains := ⟨.empty, fun _ => 0⟩

abbrev drainsAfter (es : List DrainEvent) : Drains := run (claimStep cfg keyOf) .initial es

/-- The rows that were handed out for the first time, in order. -/
abbrev delivered (es : List DrainEvent) : List Row :=
  outputs (claimStep cfg keyOf) (firstDeliveries cfg keyOf) .initial es

end Drains

/-- What adding, acking, sweeping, pruning and reopening do to rows and marks. -/
structure StoreChange (q q' : Queue) : Prop where
  rows : ∀ r ∈ q'.rows, r ∈ q.rows ∨ q.table.lastSeq < r.seq
  lastSeq : q.table.lastSeq ≤ q'.table.lastSeq
  marks : ∀ k, q'.marks k = q.marks k ∨ q'.marks k = none ∧ ∀ r ∈ q'.rows, r.toKey ≠ k

/-- Each move of the queue as a change of the store. -/
theorem QueueMove.change {q q' : Queue} {e : QueueEvent} (move : QueueMove cfg q e q') : StoreChange q q' := by
  cases move with
  | same | reopened => exact ⟨fun r h => .inl h, le_rfl, fun k => .inl rfl⟩
  | acked | swept => exact ⟨fun r h => .inl (List.mem_filter.mp h).1, le_rfl, fun k => .inl rfl⟩
  | added h frame now fresh room =>
    refine ⟨?_, Nat.le_succ _, fun k => .inl rfl⟩
    intro r stored
    rcases List.mem_append.mp stored with old | new
    · exact .inl old
    · obtain rfl := List.mem_singleton.mp new
      exact .inr (Nat.lt_succ_self _)
  | pruned keys =>
    refine ⟨fun r h => .inl h, le_rfl, ?_⟩
    intro k
    by_cases gone : k ∈ keys ∧ ∀ r ∈ q.rows, r.toKey ≠ k
    · exact .inr ⟨if_pos gone, gone.2⟩
    · exact .inl (if_neg gone)

/-- What an event can do to the queue and the cursors, with the rows it hands out. -/
inductive DrainMove (cfg : QueueConfig) (keyOf : Nat → PeerKey) (s : Drains) :
    DrainEvent → Drains → List Row → Prop where
  | same (e : DrainEvent) : DrainMove cfg keyOf s e s []
  | stored (e : QueueEvent) (q : Queue) (change : StoreChange s.queue q) :
      DrainMove cfg keyOf s (.store e) { s with queue := q } []
  | connected (c : Nat) : DrainMove cfg keyOf s (.connect c) (s.seek c 0) []
  | claimed (c limit maxBytes : Nat) (now : Time) (rows : List Row) (last : Row)
      (read : rows = claimable cfg now (keyOf c) (s.cursor c) limit maxBytes s.queue)
      (ends : rows.getLast? = some last) :
      DrainMove cfg keyOf s (.claim c limit maxBytes now false)
        ({ s with queue := s.queue.raise (keyOf c) last.seq }.seek c last.seq) rows
  | redelivered (c upto : Nat) (n : Nat) (within : n ≤ max (s.cursor c) (s.queue.delivered (keyOf c))) :
      DrainMove cfg keyOf s (.redelivered c upto) (s.seek c n) []

theorem claimStep_move (cfg : QueueConfig) (keyOf : Nat → PeerKey) (s : Drains) (e : DrainEvent) :
    DrainMove cfg keyOf s e (claimStep cfg keyOf s e) (firstDeliveries cfg keyOf s e) := by
  cases e with
  | store e => exact .stored e _ (step_move cfg s.queue e).change
  | connect c => exact .connected c
  | redelivered c upto => exact .redelivered c upto _ (max_le_max le_rfl (min_le_right _ _))
  | claim c limit maxBytes now fault =>
    cases fault with
    | true => exact .same _
    | false =>
      simp only [claimStep, firstDeliveries, claim]
      cases ends : (claimable cfg now (keyOf c) (s.cursor c) limit maxBytes s.queue).getLast? with
      | none => exact .same _
      | some last =>
        simp only [ends]
        exact .claimed c limit maxBytes now _ last rfl ends

theorem firstDeliveries_claim (cfg : QueueConfig) (keyOf : Nat → PeerKey) (s : Drains)
    (c limit maxBytes : Nat) (now : Time) :
    firstDeliveries cfg keyOf s (.claim c limit maxBytes now false) = claimable cfg now (keyOf c)
      (s.cursor c) limit maxBytes s.queue := by
  simp only [firstDeliveries, claim]
  split
  · next none_left => exact (List.getLast?_eq_none_iff.mp none_left).symm
  · rfl

/-! ## Marks -/

/-- While a row at or below `m` is stored, the mark of its recipient stays at `m` or above. -/
def MarkKept (k : PeerKey) (m : Nat) (s : Drains) : Prop :=
  m ≤ s.queue.table.lastSeq ∧ ∀ r ∈ s.queue.rows, r.toKey = k → r.seq ≤ m → ∃ m', s.queue.marks k = some m' ∧ m ≤ m'

theorem markKept_step (cfg : QueueConfig) (keyOf : Nat → PeerKey) {k : PeerKey} {m : Nat} (s : Drains)
    (e : DrainEvent) (h : MarkKept k m s) : MarkKept k m (claimStep cfg keyOf s e) := by
  obtain ⟨bound, kept⟩ := h
  have move := claimStep_move cfg keyOf s e
  generalize claimStep cfg keyOf s e = s' at move
  generalize firstDeliveries cfg keyOf s e = rows at move
  cases move with
  | same | connected | redelivered => exact ⟨bound, kept⟩
  | stored e q change =>
    refine ⟨le_trans bound change.lastSeq, ?_⟩
    intro r stored own low
    have old : r ∈ s.queue.rows := by
      rcases change.rows r stored with old | new
      · exact old
      · omega
    rcases change.marks k with same | ⟨-, none_left⟩
    · rw [same]
      exact kept r old own low
    · exact absurd own (none_left r stored)
  | claimed c limit maxBytes now rows last read ends =>
    refine ⟨bound, ?_⟩
    intro r stored own low
    obtain ⟨m', mark, le⟩ := kept r stored own low
    by_cases mine : k = keyOf c
    · subst mine
      refine ⟨_, s.queue.marks_raise_self _ _, le_trans ?_ (Nat.le_max_left _ _)⟩
      rw [Queue.delivered, mark]
      exact le
    · exact ⟨m', (s.queue.marks_raise_of_ne mine _).trans mark, le⟩

/-! ## Claims -/

/-- How the rows handed out, the marks and the cursors stand to the stored rows. -/
structure Claimed (keyOf : Nat → PeerKey) (cfg : QueueConfig) (es : List DrainEvent) (s : Drains)
    (out : List Row) : Prop where
  cursor_le : ∀ c, s.cursor c ≤ s.queue.table.lastSeq
  mark_le : ∀ k, s.queue.delivered k ≤ s.queue.table.lastSeq
  out_le : ∀ r ∈ out, r.seq ≤ s.queue.table.lastSeq
  behind : ∀ c, ∀ r ∈ s.queue.rows, r.toKey = keyOf c → r.seq ≤ s.cursor c → r.seq ≤ s.queue.delivered (keyOf c)
  handed : ∀ r' ∈ out, ∀ r ∈ s.queue.rows, r.toKey = r'.toKey → r.seq ≤ r'.seq → r'.seq ≤ s.queue.delivered r'.toKey
  ordered : ∀ k, (out.filter (·.toKey = k)).Pairwise (·.seq < ·.seq)
  passed : ∀ r ∈ s.queue.rows, r.seq ≤ s.queue.delivered r.toKey →
    r ∈ out ∨ ∃ e ∈ es, ∃ t, e.claimTime = some t ∧ unexpired cfg t r = false

theorem claimed_initial (keyOf : Nat → PeerKey) (cfg : QueueConfig) : Claimed keyOf cfg [] .initial [] where
  cursor_le _ := le_rfl
  mark_le _ := le_rfl
  out_le _ h := by cases h
  behind _ _ h := by cases h
  handed _ h := by cases h
  ordered _ := .nil
  passed _ h := by cases h

theorem getLast?_mem_and_le (sorted : rows.Pairwise (·.seq < ·.seq)) {last : Row}
    (ends : rows.getLast? = some last) : last ∈ rows ∧ ∀ r ∈ rows, r.seq ≤ last.seq := by
  obtain ⟨init, rfl⟩ := List.getLast?_eq_some_iff.mp ends
  refine ⟨List.mem_append_right _ (List.mem_singleton_self _), ?_⟩
  intro r member
  rcases List.mem_append.mp member with before | same
  · exact le_of_lt ((List.pairwise_append.mp sorted).2.2 r before last (List.mem_singleton_self _))
  · exact le_of_eq (congrArg Row.seq (List.mem_singleton.mp same))

section Preserved

variable {keyOf : Nat → PeerKey} {cfg : QueueConfig} {es : List DrainEvent} {s : Drains} {out : List Row}

theorem Claimed.more (h : Claimed keyOf cfg es s out) (e : DrainEvent) : Claimed keyOf cfg (es ++ [e]) s out := by
  refine { h with passed := ?_ }
  intro r stored low
  rcases h.passed r stored low with returned | ⟨e', member, t, time, expired⟩
  · exact .inl returned
  · exact .inr ⟨e', List.mem_append_left _ member, t, time, expired⟩

variable {q q' : Queue}

theorem delivered_le_of_change (change : StoreChange q q') (k : PeerKey) : q'.delivered k ≤ q.delivered k := by
  unfold Queue.delivered
  rcases change.marks k with same | ⟨gone, -⟩
  · rw [same]
  · rw [gone]
    exact Nat.zero_le _

/-- A stored row of `k` shows that no step pruned the mark of `k`. -/
theorem delivered_eq_of_change (change : StoreChange q q') {r : Row} (stored : r ∈ q'.rows) :
    q'.delivered r.toKey = q.delivered r.toKey := by
  rcases change.marks r.toKey with same | ⟨-, none_left⟩
  · simp only [Queue.delivered, same]
  · exact absurd rfl (none_left r stored)

/-- A change of the store keeps what the claims handed out. -/
theorem Claimed.stored (h : Claimed keyOf cfg es s out) (change : StoreChange s.queue q) :
    Claimed keyOf cfg es { s with queue := q } out where
  cursor_le c := le_trans (h.cursor_le c) change.lastSeq
  mark_le k := le_trans (le_trans (delivered_le_of_change change k) (h.mark_le k)) change.lastSeq
  out_le r member := le_trans (h.out_le r member) change.lastSeq
  behind c r stored own low := by
    rcases change.rows r stored with old | new
    · have before := h.behind c r old own low
      rw [← own] at before ⊢
      exact le_of_le_of_eq before (delivered_eq_of_change change stored).symm
    · exact absurd (le_trans low (h.cursor_le c)) (not_le.mpr new)
  handed r' member r stored own low := by
    rcases change.rows r stored with old | new
    · have before := h.handed r' member r old own low
      rw [← own] at before ⊢
      exact le_of_le_of_eq before (delivered_eq_of_change change stored).symm
    · exact absurd (le_trans low (h.out_le r' member)) (not_le.mpr new)
  ordered := h.ordered
  passed r stored low := by
    rw [delivered_eq_of_change change stored] at low
    rcases change.rows r stored with old | new
    · exact h.passed r old low
    · exact absurd (le_trans low (h.mark_le _)) (not_le.mpr new)

/-- A cursor may move up to what was delivered. -/
theorem Claimed.seek (h : Claimed keyOf cfg es s out) {c n : Nat}
    (within : n ≤ max (s.cursor c) (s.queue.delivered (keyOf c))) : Claimed keyOf cfg es (s.seek c n) out where
  cursor_le c' := by
    rw [Drains.cursor_seek]
    split
    · exact le_trans within (max_le (h.cursor_le c) (h.mark_le _))
    · exact h.cursor_le c'
  mark_le := h.mark_le
  out_le := h.out_le
  behind c' r stored own low := by
    rw [Drains.cursor_seek] at low
    split at low
    · next same =>
      subst same
      rcases le_max_iff.mp (le_trans low within) with old | delivered
      · exact h.behind c' r stored own old
      · exact delivered
    · exact h.behind c' r stored own low
  __ := h

/-- A claim by connection `c` at its cursor. -/
theorem Claimed.claimed (h : Claimed keyOf cfg es s out) {c limit maxBytes : Nat} {now : Time}
    {rows : List Row} {last : Row} (read : rows = claimable cfg now (keyOf c) (s.cursor c) limit maxBytes s.queue)
    (ends : rows.getLast? = some last) :
    Claimed keyOf cfg (es ++ [.claim c limit maxBytes now false])
      { s with queue := s.queue.raise (keyOf c) last.seq } (out ++ rows) := by
  have sorted : rows.Pairwise (·.seq < ·.seq) := read ▸ pairwise_claimable
  obtain ⟨last_mem, last_max⟩ := getLast?_mem_and_le sorted ends
  have facts : ∀ r ∈ rows, r ∈ s.queue.rows ∧ r.toKey = keyOf c ∧ s.cursor c < r.seq ∧
      unexpired cfg now r = true := fun r member => mem_claimable (read ▸ member)
  have reached : s.queue.delivered (keyOf c) ≤ s.cursor c := delivered_le_of_mem_claimable (read ▸ last_mem)
  have raised : (s.queue.raise (keyOf c) last.seq).delivered (keyOf c) = last.seq := by
    rw [Queue.delivered_raise_self]
    exact max_eq_right (le_trans reached (le_of_lt (facts last last_mem).2.2.1))
  -- a row returned now lies above every row of the key returned before
  have above : ∀ r' ∈ out, ∀ r ∈ rows, r'.toKey = keyOf c → r'.seq < r.seq := by
    intro r' before r now_returned own
    obtain ⟨stored, key, beyond, -⟩ := facts r now_returned
    by_contra low
    have mark := h.handed r' before r stored (key.trans own.symm) (not_lt.mp low)
    rw [own] at mark
    omega
  refine ⟨h.cursor_le, ?_, ?_, ?_, ?_, ?_, ?_⟩
  · intro k
    by_cases mine : k = keyOf c
    · subst mine
      exact le_of_eq_of_le raised (s.queue.table.bounded _ (facts last last_mem).1)
    · exact le_of_eq_of_le (s.queue.delivered_raise_of_ne mine _) (h.mark_le k)
  · intro r member
    rcases List.mem_append.mp member with before | new
    · exact h.out_le r before
    · exact s.queue.table.bounded r (facts r new).1
  · intro c' r stored own low
    exact le_trans (h.behind c' r stored own low) (Queue.delivered_le_raise ..)
  · intro r' member r stored own low
    rcases List.mem_append.mp member with before | new
    · exact le_trans (h.handed r' before r stored own low) (Queue.delivered_le_raise ..)
    · rw [(facts r' new).2.1]
      exact le_of_le_of_eq (last_max r' new) raised.symm
  · intro k
    rw [List.filter_append, List.pairwise_append]
    refine ⟨h.ordered k, sorted.filter _, ?_⟩
    intro r' before r new
    simp only [List.mem_filter, decide_eq_true_eq] at before new
    apply above r' before.1 r new.1
    rw [before.2, ← new.2, (facts r new.1).2.1]
  · intro r stored low
    by_cases mine : r.toKey = keyOf c
    · by_cases old : r.seq ≤ s.cursor c
      · have before := h.behind c r stored mine old
        rw [← mine] at before
        rcases h.passed r stored before with returned | ⟨e, member, t, time, expired⟩
        · exact .inl (List.mem_append_left _ returned)
        · exact .inr ⟨e, List.mem_append_left _ member, t, time, expired⟩
      · cases fresh : unexpired cfg now r with
        | false => exact .inr ⟨_, List.mem_append_right _ (List.mem_singleton_self _), now, rfl, fresh⟩
        | true =>
          left
          have waiting : r ∈ deliverable cfg now (keyOf c) (s.cursor c) s.queue.rows :=
            mem_deliverable.mpr ⟨stored, mine, not_le.mp old, fresh⟩
          have complete : r ∈ rows ∨ ∀ r' ∈ rows, r'.seq < r.seq := read ▸ claimable_complete waiting
          rcases complete with returned | beyond
          · exact List.mem_append_right _ returned
          · rw [mine] at low
            exact absurd (le_of_le_of_eq low raised) (not_le.mpr (beyond last last_mem))
    · have kept := s.queue.delivered_raise_of_ne mine last.seq
      rcases h.passed r stored (le_of_le_of_eq low kept) with returned | ⟨e, member, t, time, expired⟩
      · exact .inl (List.mem_append_left _ returned)
      · exact .inr ⟨e, List.mem_append_left _ member, t, time, expired⟩

end Preserved

theorem claimed_step {keyOf : Nat → PeerKey} {es : List DrainEvent} {s s' : Drains}
    {out : List Row} {e : DrainEvent} (h : Claimed keyOf cfg es s out)
    (move : DrainMove cfg keyOf s e s' rows) : Claimed keyOf cfg (es ++ [e]) s' (out ++ rows) := by
  cases move with
  | same => simpa using h.more e
  | stored e q change => simpa using (h.stored change).more _
  | connected c => simpa using (h.seek (Nat.zero_le _)).more _
  | redelivered c upto n within => simpa using (h.seek within).more _
  | claimed c limit maxBytes now rows last read ends =>
    apply (h.claimed read ends).seek
    exact le_trans (by rw [Queue.delivered_raise_self]; exact le_max_right _ _) (le_max_right _ _)

theorem claimed_run (keyOf : Nat → PeerKey) (cfg : QueueConfig) (es : List DrainEvent) :
    Claimed keyOf cfg es (drainsAfter cfg keyOf es) (delivered cfg keyOf es) := by
  induction es using List.reverseRecOn with
  | nil => exact claimed_initial keyOf cfg
  | append_singleton es e ih =>
    rw [drainsAfter, run_concat, delivered, outputs_concat]
    exact claimed_step ih (claimStep_move cfg keyOf _ e)

/-- Each row is claimed at most once and the rows of a recipient in increasing order, no mark
is lowered or removed over a stored row, and no connection passes an unexpired row that
nobody claimed: what lies above its cursor is returned from the lowest row on, and what lies
behind it or behind the mark was claimed or had expired at a claim. -/
theorem first_delivery_once (cfg : QueueConfig) (keyOf : Nat → PeerKey) (es : List DrainEvent) :
    (∀ k, ((delivered cfg keyOf es).filter (·.toKey = k)).Pairwise (·.seq < ·.seq)) ∧
      (∀ fs k m, (drainsAfter cfg keyOf es).queue.marks k = some m →
        ∀ r ∈ (drainsAfter cfg keyOf (es ++ fs)).queue.rows, r.toKey = k → r.seq ≤ m →
          ∃ m', (drainsAfter cfg keyOf (es ++ fs)).queue.marks k = some m' ∧ m ≤ m') ∧
      (∀ c limit maxBytes now, ∀ r ∈ (drainsAfter cfg keyOf es).queue.rows, r.toKey = keyOf c →
        (drainsAfter cfg keyOf es).cursor c < r.seq → unexpired cfg now r = true →
        (drainsAfter cfg keyOf es).queue.delivered (keyOf c) ≤ (drainsAfter cfg keyOf es).cursor c → 0 < limit →
          let rows := firstDeliveries cfg keyOf (drainsAfter cfg keyOf es) (.claim c limit maxBytes now false)
          rows ≠ [] ∧ (r ∈ rows ∨ ∀ r' ∈ rows, r'.seq < r.seq)) ∧
      ∀ c, ∀ r ∈ (drainsAfter cfg keyOf es).queue.rows, r.toKey = keyOf c →
      r.seq ≤ max ((drainsAfter cfg keyOf es).cursor c)
          ((drainsAfter cfg keyOf es).queue.delivered (keyOf c)) →
        r ∈ delivered cfg keyOf es ∨ ∃ e ∈ es, ∃ t, DrainEvent.claimTime e = some t ∧ unexpired cfg t r = false := by
  have inv := claimed_run keyOf cfg es
  refine ⟨inv.ordered, ?_, ?_, ?_⟩
  · intro fs k m mark r stored own low
    have start : MarkKept k m (drainsAfter cfg keyOf es) := by
      refine ⟨?_, fun _ _ _ _ => ⟨m, mark, le_rfl⟩⟩
      have bound := inv.mark_le k
      rwa [Queue.delivered, mark] at bound
    have kept := run_invariant (markKept_step cfg keyOf) start fs
    rw [drainsAfter, run_append] at stored ⊢
    exact kept.2 r stored own low
  · intro c limit maxBytes now r stored own beyond fresh reached some_rows
    have waiting := mem_deliverable.mpr ⟨stored, own, beyond, fresh⟩
    rw [firstDeliveries_claim]
    exact ⟨claimable_ne_nil reached some_rows waiting, claimable_complete waiting⟩
  · intro c r stored own low
    apply inv.passed r stored
    rw [own]
    rcases le_max_iff.mp low with behind | marked
    · exact inv.behind c r stored own behind
    · exact marked

/-- Two connections of one recipient: the second claims after the first. -/
def twoClaims : List DrainEvent :=
  [.store (.add (sampleHeaderOf "1") [0] false 0 false), .claim 0 64 1 0 false,
    .store (.add (sampleHeaderOf "2") [0] false 0 false), .redelivered 1 1]

def wideConfig : QueueConfig := { ttl := day, maxCount := 10, maxBytes := 10 }

theorem twoClaims_once : (drainsAfter wideConfig (fun _ => "b") twoClaims).queue.marks "b" = some 1 ∧
      ((drainsAfter wideConfig (fun _ => "b") twoClaims).queue.rows.map Row.seq) = [1, 2] ∧
      ((firstDeliveries wideConfig (fun _ => "b") (drainsAfter wideConfig (fun _ => "b") twoClaims)
        (.claim 1 64 1 0 false)) ≠ []) := by
  obtain ⟨-, -, complete, -⟩ := first_delivery_once wideConfig (fun _ => "b") twoClaims
  refine ⟨by decide +kernel, by decide +kernel, ?_⟩
  exact (complete 1 64 1 0 ⟨2, "b", "a", "2", 0, [0]⟩ (by decide +kernel) rfl (by decide +kernel)
    (by decide +kernel) (by decide +kernel) (by decide)).1

end Agentnet.Relay
