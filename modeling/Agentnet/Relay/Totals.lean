import Mathlib.Algebra.BigOperators.Group.List.Basic
import Mathlib.Data.Nat.Cast.Order.Ring
import Agentnet.Relay.Queue

/-! The totals in memory against the stored rows, and what the caps of `add` bound. -/

namespace Agentnet.Relay

open Lib Envelope

/-! ## Usage of a list of rows -/

theorem usageOf_cons (r : Row) (rows : List Row) : usageOf (r :: rows) = (usageOf rows).change 1 r.size := by
  simp [usageOf, Usage.change, add_comm]

theorem usageOf_concat (rows : List Row) (r : Row) : usageOf (rows ++ [r]) = (usageOf rows).change 1 r.size := by
  simp [usageOf, Usage.change]

theorem Usage.change_undo (u : Usage) (n b : Int) : (u.change n b).change (-n) (-b) = u := by
  simp [Usage.change]

variable {rows rows' held : List Row} {cfg : QueueConfig} {now t : Time} {r : Row} {hd : Header} {q : Queue}

theorem usageOf_perm (h : rows.Perm rows') : usageOf rows = usageOf rows' := by
  simp only [usageOf, h.length_eq, (h.map _).sum_eq]

def Usage.Le (u v : Usage) : Prop := u.n ≤ v.n ∧ u.bytes ≤ v.bytes

theorem usageOf_le (h : rows.Sublist rows') : (usageOf rows).Le (usageOf rows') := by
  induction h with
  | slnil => exact ⟨le_rfl, le_rfl⟩
  | cons r _ ih =>
    rw [usageOf_cons]
    simp only [Usage.Le, Usage.change] at ih ⊢
    omega
  | cons_cons r _ ih =>
    rw [usageOf_cons, usageOf_cons]
    simp only [Usage.Le, Usage.change] at ih ⊢
    omega

theorem sentBy_cons (f : PeerKey) (r : Row) (rows : List Row) :
    sentBy f (r :: rows) = if r.fromKey = f then r :: sentBy f rows else sentBy f rows := by
  simp [sentBy, List.filter_cons]

theorem groupOf_getD (rows : List Row) : (groupOf rows).getD {} = usageOf rows := by
  unfold groupOf
  split
  · next none_left =>
    rw [none_left]
    rfl
  · rfl

theorem groupOf_of_usage (rows : List Row) :
    (if (usageOf rows).n ≤ 0 then none else some (usageOf rows)) = groupOf rows := by
  cases rows with
  | nil => rfl
  | cons r rows =>
    rw [if_neg, groupOf, if_neg (List.cons_ne_nil r rows)]
    simp only [usageOf, List.length_cons]
    omega

/-! ## Totals that count a list of rows -/

/-- The totals are those of the rows held. -/
structure Counts (t : Totals) (held : List Row) : Prop where
  senders : ∀ f, t.senders f = groupOf (sentBy f held)
  total : t.total = usageOf held

theorem counts_rebuildTotals (rows : List Row) : Counts (rebuildTotals rows) rows := ⟨fun _ => rfl, rfl⟩

namespace Counts

variable {t : Totals} {held held' : List Row}

/-- The totals forget the order of rows. -/
theorem perm (h : Counts t held) (p : held.Perm held') : Counts t held' := by
  constructor
  · intro f
    have sent : (sentBy f held).Perm (sentBy f held') := p.filter _
    rw [h.senders f, groupOf, groupOf, usageOf_perm sent]
    simp only [← List.length_eq_zero_iff, sent.length_eq]
  · rw [h.total, usageOf_perm p]

theorem adjust (h : Counts t held) {f : PeerKey} {n b : Int}
    (sent : usageOf (sentBy f held') = (usageOf (sentBy f held)).change n b)
    (others : ∀ g, g ≠ f → sentBy g held' = sentBy g held) (all : usageOf held' = (usageOf held).change n b) :
    Counts (t.adjust f n b) held' := by
  constructor
  · intro g
    by_cases same : g = f
    · subst same
      simp only [Totals.adjust, Function.update_self, h.senders, groupOf_getD, ← sent]
      exact groupOf_of_usage _
    · simp only [Totals.adjust, Function.update_of_ne same, h.senders, others g same]
  · simp only [Totals.adjust, h.total, all]

/-- One row more is counted once. -/
theorem added (h : Counts t held) (r : Row) : Counts (t.adjust r.fromKey 1 r.size) (r :: held) := by
  apply h.adjust
  · rw [sentBy_cons, if_pos rfl, usageOf_cons]
  · intro g other
    rw [sentBy_cons, if_neg (Ne.symm other)]
  · exact usageOf_cons r held

theorem dropped {r : Row} (h : Counts t (r :: held)) : Counts (t.adjust r.fromKey (-1) (-r.size)) held := by
  apply h.adjust
  · rw [sentBy_cons, if_pos rfl, usageOf_cons, Usage.change_undo]
  · intro g other
    rw [sentBy_cons, if_neg (Ne.symm other)]
  · rw [usageOf_cons, Usage.change_undo]

theorem droppedAll {gone : List Row} (h : Counts t (gone ++ held)) : Counts (dropAll t gone) held := by
  induction gone generalizing t with
  | nil => exact h
  | cons r gone ih => exact ih h.dropped

end Counts

/-! ## The rows an interrupted ack took out of the table -/

/-- The rows whose ack failed after its DELETE, since the last open. -/
def lostStep (cfg : QueueConfig) (s : Queue × List Row) (e : QueueEvent) : Queue × List Row :=
  (step cfg s.1 e, match e with
    | .ack toKey sender id false false => s.1.rows.filter (isEnvelope toKey sender id) ++ s.2
    | .reopen => []
    | _ => s.2)

/-- The lost rows of a run. -/
def lost (cfg : QueueConfig) (es : List QueueEvent) : List Row := (run (lostStep cfg) (.empty, []) es).2

theorem run_lostStep_fst (cfg : QueueConfig) (s : Queue × List Row) (es : List QueueEvent) :
    (run (lostStep cfg) s es).1 = run (step cfg) s.1 es := by
  induction es generalizing s with
  | nil => rfl
  | cons e es ih => exact ih (lostStep cfg s e)

theorem lostStep_nil (cfg : QueueConfig) {es : List QueueEvent} (h : ∀ e ∈ es, e.unread = false)
    {s : Queue × List Row} (empty : s.2 = []) : (run (lostStep cfg) s es).2 = [] := by
  induction es generalizing s with
  | nil => exact empty
  | cons e es ih =>
    obtain ⟨here, rest⟩ := List.forall_mem_cons.mp h
    apply ih rest
    cases e with
    | ack toKey sender id read fault =>
      cases read with
      | true => cases fault <;> exact empty
      | false =>
        cases fault with
        | true => exact empty
        | false => cases here
    | reopen => rfl
    | add | sweepBatch | pruneBatch => exact empty

theorem lost_reopen (cfg : QueueConfig) (es : List QueueEvent) {rest : List QueueEvent}
    (h : ∀ e ∈ rest, e.unread = false) : lost cfg (es ++ .reopen :: rest) = [] := by
  unfold lost
  rw [run_append, run_cons]
  exact lostStep_nil cfg h rfl

def heldBy (s : Queue × List Row) : List Row := s.1.rows ++ s.2

theorem filter_not_mem_append {gone : List Row} (nodup : rows.Nodup) (distinct : gone.Nodup)
    (sub : gone ⊆ rows) : (gone ++ rows.filter fun r => !decide (r ∈ gone)).Perm rows := by
  have inside : (rows.filter fun r => decide (r ∈ gone)).Perm gone := by
    rw [List.perm_ext_iff_of_nodup (nodup.filter _) distinct]
    intro r
    simp only [List.mem_filter, decide_eq_true_eq, and_iff_right_iff_imp]
    exact fun h => sub h
  exact (inside.symm.append_right _).trans (List.filter_append_perm _ rows)

theorem Table.nodup (t : Table) : t.rows.Nodup := t.distinct.of_map _

theorem nodup_expiredBatch (cfg : QueueConfig) (now : Time) (nodup : rows.Nodup) :
    (expiredBatch cfg now rows).Nodup :=
  ((List.perm_insertionSort _ _).nodup_iff.mpr (nodup.filter _)).sublist (List.take_sublist _ _)

theorem mem_expiredBatch (h : r ∈ expiredBatch cfg now rows) : r ∈ rows ∧ unexpired cfg now r = false := by
  have sorted := (List.perm_insertionSort _ _).mem_iff.mp (List.mem_of_mem_take h)
  simpa using sorted

/-- The totals count every held row, over one event. -/
theorem counts_lostStep (cfg : QueueConfig) (s : Queue × List Row) (e : QueueEvent)
    (h : Counts s.1.totals (heldBy s)) :
    Counts (lostStep cfg s e).1.totals (heldBy (lostStep cfg s e)) := by
  obtain ⟨q, l⟩ := s
  simp only [heldBy] at h ⊢
  cases e with
  | ack toKey sender id read fault =>
    cases fault with
    | true => cases read <;> exact h
    | false =>
      have parts := List.filter_append_perm (isEnvelope toKey sender id) q.rows
      cases read with
      | true =>
        apply Counts.droppedAll
        apply h.perm
        rw [← List.append_assoc]
        exact parts.symm.append_right l
      | false =>
        apply h.perm
        simp only [lostStep, step, ack, Table.delete]
        rw [← List.append_assoc]
        exact (parts.symm.trans List.perm_append_comm).append_right l
  | sweepBatch now fault =>
    cases fault with
    | true => exact h
    | false =>
      apply Counts.droppedAll
      apply h.perm
      rw [← List.append_assoc]
      have parts := filter_not_mem_append q.table.nodup (nodup_expiredBatch cfg now q.table.nodup) fun r h =>
          (mem_expiredBatch h).1
      exact parts.symm.append_right l
  | reopen =>
    simp only [lostStep, List.append_nil]
    exact counts_rebuildTotals _
  | pruneBatch keys => exact h
  | add hd frame low now fault =>
    have move := step_move cfg q (.add hd frame low now fault)
    simp only [lostStep]
    generalize step cfg q (.add hd frame low now fault) = q' at move
    cases move with
    | same => exact h
    | added _ _ _ fresh room =>
      have one := h.added (q.table.nextRow hd (storeTime now) frame)
      apply one.perm
      have last : (q.rows ++ [q.table.nextRow hd (storeTime now) frame] ++ l).Perm
          (q.table.nextRow hd (storeTime now) frame :: (q.rows ++ l)) := by
        rw [List.append_assoc]
        exact List.perm_middle
      exact last.symm

/-! ## Caps over everything held -/

theorem usageOf_le_of_subperm (h : rows.Subperm rows') : (usageOf rows).Le (usageOf rows') := by
  obtain ⟨m, same, sub⟩ := h
  rw [← usageOf_perm same]
  exact usageOf_le sub

theorem held_cases (cfg : QueueConfig) (s : Queue × List Row) (e : QueueEvent) :
    (heldBy (lostStep cfg s e)).Subperm (heldBy s) ∨
      ∃ h frame now, checkCaps cfg false now h (frame : Bytes).length s.1 = .ok () ∧ (heldBy (lostStep cfg s e)).Perm
          (s.1.table.nextRow h (storeTime now) frame :: heldBy s) := by
  obtain ⟨q, l⟩ := s
  have move := step_move cfg q e
  simp only [heldBy, lostStep]
  generalize step cfg q e = q' at move
  cases move with
  | same e whole =>
    left
    split
    · cases whole
    · rw [List.append_nil]
      exact (List.sublist_append_left q.rows l).subperm
    · exact List.Subperm.refl _
  | added h frame now fresh room =>
    refine .inr ⟨h, frame, now, room, ?_⟩
    simp only [Queue.rows, Table.insert, List.append_assoc]
    exact List.perm_middle
  | acked toKey sender id read =>
    left
    have parts := List.filter_append_perm (isEnvelope toKey sender id) q.rows
    cases read with
    | true => exact (List.filter_sublist.append_right l).subperm
    | false =>
      simp only [Queue.rows, ack, Table.delete]
      rw [← List.append_assoc]
      exact ((List.perm_append_comm.trans parts).append_right l).subperm
  | swept now => exact .inl (List.filter_sublist.append_right l).subperm
  | pruned keys => exact .inl (List.Subperm.refl _)
  | reopened =>
    left
    rw [List.append_nil]
    exact (List.sublist_append_left q.rows l).subperm

/-- What the caps on the relay and on each sender bound. A sender with no row may add one
frame of any size. -/
structure HeldWithin (cfg : QueueConfig) (held : List Row) : Prop where
  total : 0 < cfg.totalBytes → (usageOf held).bytes ≤ cfg.totalBytes
  senderCount : ∀ f, 0 < cfg.senderCount → (usageOf (sentBy f held)).n ≤ cfg.senderCount
  senderBytes : ∀ f, 0 < cfg.senderBytes →
    (usageOf (sentBy f held)).bytes ≤ cfg.senderBytes ∨ (usageOf (sentBy f held)).n ≤ 1

theorem HeldWithin.shrink {held' : List Row} (h : HeldWithin cfg held) (sub : held'.Subperm held) :
    HeldWithin cfg held' := by
  have fewer : ∀ f, (usageOf (sentBy f held')).Le (usageOf (sentBy f held)) :=
    fun f => usageOf_le_of_subperm (sub.filter _)
  constructor
  · exact fun cap => le_trans (usageOf_le_of_subperm sub).2 (h.total cap)
  · exact fun f cap => le_trans (fewer f).1 (h.senderCount f cap)
  · intro f cap
    rcases h.senderBytes f cap with bytes | one
    · exact .inl (le_trans (fewer f).2 bytes)
    · exact .inr (le_trans (fewer f).1 one)

theorem senderFull_groupOf {size : Int} (room : ¬senderFull cfg size (groupOf rows)) :
    rows = [] ∨ ¬overCount cfg.senderCount (usageOf rows).n ∧
    ¬overBytes cfg.senderBytes (usageOf rows).bytes size := by
  unfold groupOf at room
  split at room
  · next none_left => exact .inl none_left
  · exact .inr (not_or.mp room)

/-- The caps on what is held, when a row passes `checkCaps`. -/
theorem HeldWithin.add (h : HeldWithin cfg held) (counts : Counts q.totals held) (own : r.fromKey = hd.fromKey)
    (room : checkCaps cfg false now hd r.size q = .ok ()) : HeldWithin cfg (r :: held) := by
  obtain ⟨-, total, sender, -, -⟩ := checkCaps_eq_ok.mp room
  rw [counts.total] at total
  rw [counts.senders, ← own] at sender
  constructor
  · intro cap
    rw [usageOf_cons]
    simp only [overBytes, cap, true_and, not_lt] at total
    exact total
  · intro f cap
    rw [sentBy_cons]
    split
    · next same =>
      subst same
      rw [usageOf_cons]
      rcases senderFull_groupOf sender with empty | ⟨count, -⟩
      · simp only [empty, usageOf, Usage.change, List.length_nil]
        omega
      · simp only [overCount, cap, true_and, not_le] at count
        exact count
    · exact h.senderCount f cap
  · intro f cap
    rw [sentBy_cons]
    split
    · next same =>
      subst same
      rw [usageOf_cons]
      rcases senderFull_groupOf sender with empty | ⟨-, bytes⟩
      · exact .inr (by simp [empty, usageOf, Usage.change])
      · simp only [overBytes, cap, true_and, not_lt] at bytes
        exact .inl bytes
    · exact h.senderBytes f cap

theorem heldWithin_lostStep (cfg : QueueConfig) (s : Queue × List Row) (e : QueueEvent)
    (h : Counts s.1.totals (heldBy s) ∧ HeldWithin cfg (heldBy s)) :
    Counts (lostStep cfg s e).1.totals (heldBy (lostStep cfg s e)) ∧ HeldWithin cfg (heldBy (lostStep cfg s e)) := by
  refine ⟨counts_lostStep cfg s e h.1, ?_⟩
  rcases held_cases cfg s e with shrunk | ⟨hd, frame, now, room, grown⟩
  · exact h.2.shrink shrunk
  · have more := h.2.add (r := s.1.table.nextRow hd (storeTime now) frame) h.1 rfl room
    exact more.shrink grown.subperm

theorem held_run (cfg : QueueConfig) (es : List QueueEvent) :
    Counts (after cfg es).totals ((after cfg es).rows ++ lost cfg es) ∧
      HeldWithin cfg ((after cfg es).rows ++ lost cfg es) := by
  have start : HeldWithin cfg [] :=
    ⟨fun _ => Int.natCast_nonneg _, fun _ _ => Int.natCast_nonneg _, fun _ _ => .inl (Int.natCast_nonneg _)⟩
  have held := run_invariant (heldWithin_lostStep cfg) (s := (Queue.empty, [])) ⟨counts_rebuildTotals [], start⟩ es
  simp only [heldBy, run_lostStep_fst] at held
  exact held

/-! ## Caps over the unexpired rows of a pair and of a recipient -/

def PairWithin (cfg : QueueConfig) (u : Usage) : Prop :=
  (0 < cfg.pairCount → u.n ≤ cfg.pairCount) ∧ (0 < cfg.pairBytes → u.bytes ≤ cfg.pairBytes)

def RecipientWithin (cfg : QueueConfig) (u : Usage) : Prop := u.n ≤ cfg.maxCount ∧ u.bytes ≤ cfg.maxBytes

/-- A bound on the rows that a query selects, which time only makes fewer, holds for every
later time once it holds with the new row at the time of the add. -/
theorem bound_concat (select : Time → Row → Bool) (bound : Usage → Prop)
    (fades : ∀ {now t r}, now ≤ t → select t r = true → select now r = true)
    (down : ∀ {u v : Usage}, u.Le v → bound v → bound u) (later : now ≤ t)
    (before : bound (usageOf (rows.filter (select t))))
    (room : select now r = true → bound ((usageOf (rows.filter (select now))).change 1 r.size)) :
    bound (usageOf ((rows ++ [r]).filter (select t))) := by
  rw [List.filter_append]
  cases chosen : select t r with
  | false => simpa [List.filter_cons, chosen] using before
  | true =>
    have now_chosen := fades later chosen
    apply down _ (room now_chosen)
    have fewer := usageOf_le (List.monotone_filter_right rows fun r => fades (r := r) later)
    simp only [List.filter_cons, chosen, if_true, List.filter_nil, usageOf_concat]
    exact ⟨Int.add_le_add_right fewer.1 _, Int.add_le_add_right fewer.2 _⟩

theorem rows_cases {q' : Queue} {e : QueueEvent} (move : QueueMove cfg q e q') : q'.rows.Sublist q.rows ∨
      ∃ h frame now, e = .add h frame false now false ∧ checkCaps cfg false now h (frame : Bytes).length q = .ok () ∧
        q'.rows = q.rows ++ [q.table.nextRow h (storeTime now) frame] := by
  cases move with
  | added h frame now fresh room => exact .inr ⟨h, frame, now, rfl, room, rfl⟩
  | acked | swept => exact .inl List.filter_sublist
  | same | pruned | reopened => exact .inl (List.Sublist.refl _)

def QueueEvent.addedBy (t : Time) : QueueEvent → Prop
  | .add _ _ _ now _ => now ≤ t
  | _ => True

/-- The caps on pairs and recipients bound the unexpired rows from the last add on. -/
def CapsAt (cfg : QueueConfig) (t : Time) (rows : List Row) : Prop :=
  (∀ toKey f, PairWithin cfg (usageOf (pairRows cfg t toKey f rows))) ∧
    ∀ toKey, RecipientWithin cfg (usageOf (recipientRows cfg t toKey rows))

theorem CapsAt.shrink (h : CapsAt cfg t rows) (sub : rows'.Sublist rows) : CapsAt cfg t rows' := by
  constructor
  · intro toKey f
    have fewer := usageOf_le (sub.filter fun r => r.toKey = toKey ∧ r.fromKey = f ∧ unexpired cfg t r)
    exact ⟨fun cap => le_trans fewer.1 ((h.1 toKey f).1 cap), fun cap => le_trans fewer.2 ((h.1 toKey f).2 cap)⟩
  · intro toKey
    have fewer := usageOf_le (sub.filter fun r => r.toKey = toKey ∧ unexpired cfg t r)
    exact ⟨le_trans fewer.1 (h.2 toKey).1, le_trans fewer.2 (h.2 toKey).2⟩

/-- The caps of the stored rows. -/
theorem CapsAt.add (h : CapsAt cfg t q.rows) (later : now ≤ t) {frame : Bytes}
    (room : checkCaps cfg false now hd frame.length q = .ok ()) :
    CapsAt cfg t (q.rows ++ [q.table.nextRow hd (storeTime now) frame]) := by
  obtain ⟨-, -, -, pair, recipient⟩ := checkCaps_eq_ok.mp room
  constructor
  · intro toKey f
    refine bound_concat (fun t r => r.toKey = toKey ∧ r.fromKey = f ∧
      unexpired cfg t r) (PairWithin cfg) ?_ ?_ later (h.1 toKey f) ?_
    · intro now t r le chosen
      simp only [decide_eq_true_eq] at chosen ⊢
      exact ⟨chosen.1, chosen.2.1, unexpired_anti le chosen.2.2⟩
    · exact fun le within => ⟨fun cap => le_trans le.1 (within.1 cap), fun cap => le_trans le.2 (within.2 cap)⟩
    · intro chosen
      simp only [decide_eq_true_eq] at chosen
      obtain ⟨rfl, rfl, -⟩ := chosen
      simp only [overCount, overBytes, not_or, not_and, not_le, not_lt] at pair
      exact pair
  · intro toKey
    refine bound_concat (fun t r => r.toKey = toKey ∧
      unexpired cfg t r) (RecipientWithin cfg) ?_ ?_ later (h.2 toKey) ?_
    · intro now t r le chosen
      simp only [decide_eq_true_eq] at chosen ⊢
      exact ⟨chosen.1, unexpired_anti le chosen.2⟩
    · exact fun le within => ⟨le_trans le.1 within.1, le_trans le.2 within.2⟩
    · intro chosen
      simp only [decide_eq_true_eq] at chosen
      obtain ⟨rfl, -⟩ := chosen
      simp only [not_or, not_le, not_lt] at recipient
      exact recipient

theorem capsAt_run (cfg : QueueConfig) (t : Time) (es : List QueueEvent) (h : ∀ e ∈ es, e.addedBy t) :
    CapsAt cfg t (after cfg es).rows := by
  have start : CapsAt cfg t Queue.empty.rows :=
    ⟨fun _ _ => ⟨fun _ => Int.natCast_nonneg _, fun _ => Int.natCast_nonneg _⟩,
      fun _ => ⟨Int.natCast_nonneg _, Int.natCast_nonneg _⟩⟩
  refine run_history (motive := fun es (q : Queue) => (∀ e ∈ es, QueueEvent.addedBy t e) →
    CapsAt cfg t q.rows) (fun _ => start) ?_ es h
  intro es e ih times
  have before := ih fun e' member => times e' (List.mem_append_left _ member)
  rcases rows_cases (step_move cfg (run (step cfg) .empty es) e) with shrunk | ⟨hd, frame, now, rfl, room, grown⟩
  · exact before.shrink shrunk
  · rw [grown]
    exact before.add (times _ (List.mem_append_right _ (List.mem_singleton_self _))) room

/-- A frame that is not over the byte cap of a sender by itself. -/
def QueueEvent.fits (cfg : QueueConfig) : QueueEvent → Prop
  | .add _ frame _ _ _ => 0 < cfg.senderBytes → frame.length ≤ cfg.senderBytes
  | _ => True

theorem rows_fit (cfg : QueueConfig) (cap : 0 < cfg.senderBytes) {es : List QueueEvent} (h : ∀ e ∈ es, e.fits cfg) :
    ∀ r ∈ (after cfg es).rows, r.size ≤ cfg.senderBytes := by
  induction es using List.reverseRecOn with
  | nil => exact fun r member => by cases member
  | append_singleton es e ih =>
    have before := ih fun e member => h e (List.mem_append_left _ member)
    rw [after, run_concat]
    rcases rows_cases (step_move cfg (after cfg es) e) with shrunk | ⟨hd, frame, now, rfl, room, grown⟩
    · exact fun r member => before r (shrunk.subset member)
    · intro r member
      rw [grown] at member
      rcases List.mem_append.mp member with old | new
      · exact before r old
      · rw [List.mem_singleton.mp new]
        exact h (.add hd frame false now false) (by simp) cap

/-- One frame is at most the cap as well, if every frame is. -/
theorem senderBytes_of_fits (cfg : QueueConfig) {es : List QueueEvent} (h : ∀ e ∈ es, e.fits cfg)
    (within : HeldWithin cfg (after cfg es).rows) (f : PeerKey) (cap : 0 < cfg.senderBytes) :
    (usageOf (sentBy f (after cfg es).rows)).bytes ≤ cfg.senderBytes := by
  rcases within.senderBytes f cap with bytes | one
  · exact bytes
  · cases rows : sentBy f (after cfg es).rows with
    | nil => simp [usageOf]
    | cons r rest =>
      have stored : r ∈ (after cfg es).rows := (List.mem_filter.mp (rows ▸ List.mem_cons_self : r ∈ sentBy f _)).1
      have alone : rest = [] := by
        rw [rows] at one
        simp only [usageOf, List.length_cons] at one
        exact List.eq_nil_of_length_eq_zero (by omega)
      have small := rows_fit cfg cap h r stored
      subst alone
      simpa [usageOf] using small

theorem step_add_stored (cfg : QueueConfig) {h : Header}
    (stored : (h.toKey, h.fromKey, h.id) ∈ q.rows.map Row.key) (frame : Bytes) (low : Bool) (now : Time)
    (fault : Bool) : step cfg q (.add h frame low now fault) = q := by
  cases fault with
  | true => rfl
  | false => simp only [step, add, stored, dite_true]

/-- The totals count the stored rows and those whose ack was cut off after its DELETE since
the last open: none, if every ack reads its result. The caps bound the stored rows of the relay
and of each sender, one frame of a sender without rows apart, which is no exception if every frame
fits; and they bound the unexpired rows of each pair and recipient. -/
theorem queue_totals_and_caps (cfg : QueueConfig) (es : List QueueEvent) :
    (∀ f, ((after cfg es).totals.senders f).getD {} = usageOf (sentBy f ((after cfg es).rows ++ lost cfg es))) ∧
    (after cfg es).totals.total = usageOf ((after cfg es).rows ++ lost cfg es) ∧
    ((∀ e ∈ es, e.unread = false) → lost cfg es = []) ∧
    (∀ rest, (∀ e ∈ rest, QueueEvent.unread e = false) → lost cfg (es ++ .reopen :: rest) = []) ∧
    HeldWithin cfg (after cfg es).rows ∧
    ((∀ e ∈ es, e.fits cfg) → ∀ f, 0 < cfg.senderBytes →
      (usageOf (sentBy f (after cfg es).rows)).bytes ≤ cfg.senderBytes) ∧
    (∀ t, (∀ e ∈ es, e.addedBy t) → CapsAt cfg t (after cfg es).rows) ∧
    ∀ h, (h.toKey, h.fromKey, h.id) ∈ (after cfg es).rows.map Row.key →
      ∀ frame low now fault, step cfg (after cfg es) (.add h frame low now fault) = after cfg es := by
  obtain ⟨counts, within⟩ := held_run cfg es
  have stored : HeldWithin cfg (after cfg es).rows := within.shrink (List.sublist_append_left _ _).subperm
  refine ⟨?_, counts.total, ?_, ?_, stored, fun fit => senderBytes_of_fits cfg fit stored, ?_, ?_⟩
  · intro f
    rw [counts.senders f, groupOf_getD]
  · exact fun read => lostStep_nil cfg read rfl
  · exact fun rest read => lost_reopen cfg es read
  · exact fun t times => capsAt_run cfg t es times
  · exact fun h stored frame low now fault => step_add_stored cfg stored frame low now fault

def sampleHeaderOf (id : String) : Header := { fromKey := "a", toKey := "b", id := id }

/-- Two frames of one pair, the second when the first has expired. -/
def lateAdds : List QueueEvent :=
  [.add (sampleHeaderOf "1") [0, 0] false 0 false, .add (sampleHeaderOf "2") [0, 0] false (2 * day) false]

def tightConfig : QueueConfig := { ttl := day, maxCount := 1, maxBytes := 2, pairCount := 1, pairBytes := 2 }

theorem lateAdds_within : let cfg := { tightConfig with senderBytes := 4 }
    lost cfg lateAdds = [] ∧ (usageOf (sentBy "a" (after cfg lateAdds).rows)).bytes ≤ 4 ∧
    CapsAt cfg (2 * day) (after cfg lateAdds).rows := by
  intro cfg
  obtain ⟨-, -, whole, -, -, bytes, caps, -⟩ := queue_totals_and_caps cfg lateAdds
  have read : ∀ e ∈ lateAdds, e.unread = false := by
    simp [lateAdds, QueueEvent.unread]
  have fit : ∀ e ∈ lateAdds, e.fits cfg := by
    simp [lateAdds, QueueEvent.fits, cfg]
  have times : ∀ e ∈ lateAdds, e.addedBy (2 * day) := by
    simp only [lateAdds, List.forall_mem_cons, QueueEvent.addedBy]
    exact ⟨by decide, le_rfl, by simp⟩
  exact ⟨whole read, bytes fit "a" (by decide), caps _ times⟩

/-- Expired rows that are still stored pass the caps of a pair and a recipient, the first
frame of a sender passes its byte cap, and a cut-off ack leaves a row in the totals. -/
theorem stored_rows_pass_caps : ((after tightConfig lateAdds).rows.map Row.key = [("b", "a", "1"), ("b", "a", "2")] ∧
        tightConfig.pairCount = 1 ∧ tightConfig.maxCount = 1) ∧
      (usageOf (sentBy "a" (after { tightConfig with senderBytes := 1 } (lateAdds.take 1)).rows)).bytes = 2 ∧
      (after tightConfig (lateAdds.take 1 ++ [.ack "b" "a" "1" false false])).rows = [] ∧
      (after tightConfig (lateAdds.take 1 ++ [.ack "b" "a" "1" false false])).totals.total = ⟨1, 2⟩ := by
  refine ⟨⟨by decide +kernel, rfl, rfl⟩, by decide +kernel, by decide +kernel, by decide +kernel⟩

end Agentnet.Relay
