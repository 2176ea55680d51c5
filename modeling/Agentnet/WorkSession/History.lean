import Agentnet.WorkSession.Agreement

/-! The worker's session is a past of the requester's: along every run its tuple is
one the requester's session had, unless the worker closed alone. -/

namespace Agentnet
open Agentnet.Lib
open WorkSession WorkSession.Protocol

variable {δ : Type}

/-- State, outcome, number and round of the session, initial before it is opened. -/
def Cell.tuple (c : Cell δ) : Tuple :=
  match c.session with
  | none => .initial
  | some row => ⟨row.state, row.seq, row.round⟩

theorem Cell.requester_tuple (c : Cell δ) : c.requester.row.toTuple = c.tuple := by
  cases opened : c.session with
  | none => simp only [Requester.row, Cell.requester, Cell.tuple, opened, Option.map_none, Option.getD_none]
  | some row =>
    rw [row_requester opened]
    simp only [Cell.tuple, opened]
    rfl

theorem Cell.worker_tuple (c : Cell δ) : c.worker.row.toTuple = c.tuple := by
  cases opened : c.session with
  | none => simp only [Worker.row, Cell.worker, Cell.tuple, opened, Option.map_none, Option.getD_none]
  | some row =>
    rw [row_worker opened]
    simp only [Cell.tuple, opened]
    rfl

/-! ## Where the worker's tuple comes from -/

/-- A tuple of the worker after `es`: the initial one, one the requester had at some
time, or that of a local close for a peer without sessions. -/
inductive MirroredFrom (p : Parties δ) (undebated : δ) (es : List PairEvent) : Tuple → Prop where
  | initial : MirroredFrom p undebated es .initial
  | authority (past : List PairEvent) (earlier : past <+: es) :
      MirroredFrom p undebated es (Pair.after p undebated past).a.tuple
  | alone (past : List PairEvent) (unsupported : Bool) (now : Time)
      (earlier : past ++ [.worker (.checkPhase1Fallback unsupported) now] <+: es)
      (live : (Pair.after p undebated past).b.tuple.state.isClosed = false) :
      MirroredFrom p undebated es
        { (Pair.after p undebated past).b.tuple with state := .closed .cancelled }

/-- Every announcement was the authority's state at some moment. -/
def AnnouncedFrom (p : Parties δ) (undebated : δ) (es : List PairEvent) (s : Pair δ) : Prop :=
  ∀ m, s.system.heard m → ∃ past, past <+: es ∧ (Pair.after p undebated past).a.tuple = m

variable {p : Parties δ} {undebated : δ} {es : List PairEvent}

/-- What was mirrored once stays a fact of the run. -/
theorem MirroredFrom.later {t : Tuple} (h : MirroredFrom p undebated es t) (e : PairEvent) :
    MirroredFrom p undebated (es ++ [e]) t := by
  cases h with
  | initial => exact .initial
  | authority past earlier => exact .authority past (earlier.trans (List.prefix_append ..))
  | alone past unsupported now earlier live =>
    exact .alone past unsupported now (earlier.trans (List.prefix_append ..)) live

variable {s s' : Pair δ} {e : PairEvent}

theorem AnnouncedFrom.later (h : AnnouncedFrom p undebated es s) (e : PairEvent) :
    AnnouncedFrom p undebated (es ++ [e]) s := by
  intro m heard
  obtain ⟨past, earlier, same⟩ := h m heard
  exact ⟨past, earlier.trans (List.prefix_append ..), same⟩

theorem Pair.after_concat (e : PairEvent) :
    Pair.after p undebated (es ++ [e]) = e.step p (Pair.after p undebated es) := run_concat ..

theorem fallback_of_alone {we : WorkerEvent} (acts : e.AtWorker s we) (labels : WorkerLabels s.b we .alone) :
    ∃ unsupported now, e = .worker (.checkPhase1Fallback unsupported) now := by
  cases labels with
  | op op now _ kind =>
    cases kind with
    | buries _ _ buries => cases buries
    | alone unsupported =>
      cases acts
      exact ⟨unsupported, now, rfl⟩
  | mail m intake tombstones now _ buries => cases buries

theorem mirroredFrom_step (announced : AnnouncedFrom p undebated es (Pair.after p undebated es))
    (mirrored : MirroredFrom p undebated es (Pair.after p undebated es).b.tuple)
    (step : Pair.after p undebated (es ++ [e]) = s') (refines : (Pair.after p undebated es).Refines e s') :
    AnnouncedFrom p undebated (es ++ [e]) s' ∧ MirroredFrom p undebated (es ++ [e]) s'.b.tuple := by
  cases refines with
  | stays => exact ⟨announced.later e, mirrored.later e⟩
  | requester re label a acts refines labels =>
    refine ⟨fun m heard => ?_, mirrored.later e⟩
    rcases refines.step.authority.announces heard with old | new
    · exact announced.later e m old
    · refine ⟨es ++ [e], List.prefix_rfl, ?_⟩
      rw [step, new]
      exact (Cell.requester_tuple a).symm
  | worker we label b acts refines labels =>
    refine ⟨announced.later e, ?_⟩
    by_cases notAlone : label ≠ .alone
    · rcases refines.step.tuple notAlone with same | heard
      · rw [Cell.worker_tuple, Cell.worker_tuple] at same
        exact same ▸ mirrored.later e
      · obtain ⟨past, earlier, same⟩ := announced _ heard
        rw [Cell.worker_tuple] at same
        exact same ▸ .authority past (earlier.trans (List.prefix_append ..))
    · cases not_not.mp notAlone
      obtain ⟨unsupported, now, rfl⟩ := fallback_of_alone acts labels
      obtain ⟨live, same⟩ := refines.step.alone
      have live' := congrArg Tuple.state (Cell.worker_tuple (Pair.after p undebated es).b) ▸ live
      rw [Cell.worker_tuple, Cell.worker_tuple] at same
      exact same ▸ .alone es unsupported now List.prefix_rfl live'

theorem mirroredFrom_after (p : Parties δ) (undebated : δ) (es : List PairEvent) :
    MirroredFrom p undebated es (Pair.after p undebated es).b.tuple := by
  have both : AnnouncedFrom p undebated es (Pair.after p undebated es) ∧
      MirroredFrom p undebated es (Pair.after p undebated es).b.tuple := by
    refine run_history (motive := fun es s => AnnouncedFrom p undebated es s ∧
      MirroredFrom p undebated es s.b.tuple) ⟨fun m heard => absurd heard List.not_mem_nil, .initial⟩
      (fun es e ih => ?_) es
    have refines := (Pair.after_inv p undebated es).refines (p := p) e
    exact mirroredFrom_step ih.1 ih.2 (Pair.after_concat e) refines
  exact both.2

/-! ## One step of a session -/

/-- A step of the requester's session: at most one numbered transition, none once it
is closed. -/
structure Cell.AuthorityStep (c c' : Cell δ) : Prop where
  numbered : c'.tuple = c.tuple ∨ c'.tuple.seq = c.tuple.seq + 1
  final : c.tuple.state.isClosed → c'.tuple = c.tuple

/-- A step of the worker's session: the number never goes down, and nothing changes
once it is closed. -/
structure Cell.MirrorStep (c c' : Cell δ) : Prop where
  seq : c.tuple.seq ≤ c'.tuple.seq
  final : c.tuple.state.isClosed → c'.tuple = c.tuple

/-- The grants were revoked and an experience record was stored once if the session is
closed, and never before. -/
structure Cell.ClosedOnce (c : Cell δ) : Prop where
  revocations : c.revocations = c.tuple.state.isClosed.toNat
  experience : c.experience.length = c.tuple.state.isClosed.toNat

theorem Pair.Inv.closedOnce (inv : s.Inv) : s.a.ClosedOnce ∧ s.b.ClosedOnce := by
  have a : s.a.revocations = s.a.tuple.state.isClosed.toNat := by
    rw [← Cell.requester_tuple]
    exact inv.system.authority.closes
  have b : s.b.revocations = s.b.tuple.state.isClosed.toNat := by
    rw [← Cell.worker_tuple]
    exact inv.system.closes
  exact ⟨⟨a, inv.a.records.trans a⟩, b, inv.b.records.trans b⟩

theorem Pair.Refines.sessions (refines : s.Refines e s') : s.a.AuthorityStep s'.a ∧ s.b.MirrorStep s'.b := by
  have stays : s.a.AuthorityStep s.a ∧ s.b.MirrorStep s.b := ⟨⟨.inl rfl, fun _ => rfl⟩, le_rfl, fun _ => rfl⟩
  cases refines with
  | stays => exact stays
  | requester re label a acts refines labels =>
    refine ⟨⟨?_, fun closed => ?_⟩, stays.2⟩
    · rw [← Cell.requester_tuple, ← Cell.requester_tuple]
      exact refines.step.authority.seq.imp_left (congrArg AuthorityRow.toTuple)
    · rw [← Cell.requester_tuple] at closed ⊢
      rw [← Cell.requester_tuple]
      exact congrArg AuthorityRow.toTuple (refines.step.authority.closed closed)
  | worker we label b acts refines labels =>
    refine ⟨stays.1, ?_, fun closed => ?_⟩
    · rw [← Cell.worker_tuple, ← Cell.worker_tuple]
      exact refines.step.mirror.seq
    · rw [← Cell.worker_tuple] at closed ⊢
      rw [← Cell.worker_tuple]
      exact refines.step.mirror.closed closed

/-- The worker's session mirrors the requester's, in every run: where its tuple comes
from, how each of the two moves, and that each closes once. -/
theorem mirror_is_past_of_authority (p : Parties δ) (undebated : δ) (es : List PairEvent) :
    MirroredFrom p undebated es (Pair.after p undebated es).b.tuple ∧
      (Pair.after p undebated es).a.ClosedOnce ∧ (Pair.after p undebated es).b.ClosedOnce ∧
      ∀ e, (Pair.after p undebated es).a.AuthorityStep (Pair.after p undebated (es ++ [e])).a ∧
        (Pair.after p undebated es).b.MirrorStep (Pair.after p undebated (es ++ [e])).b := by
  have inv := Pair.after_inv p undebated es
  obtain ⟨a, b⟩ := inv.closedOnce
  refine ⟨mirroredFrom_after p undebated es, a, b, fun e => ?_⟩
  rw [Pair.after_concat]
  exact (inv.refines e).sessions

end Agentnet
