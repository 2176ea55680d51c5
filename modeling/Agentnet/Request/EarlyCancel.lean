import Agentnet.Request.RowHistory

/-! A cancel that overtakes its request: its tombstone outlives every request it could
be for, as long as the clock does not go back. -/

namespace Agentnet
open Agentnet.Lib
open Request (Row)

variable {δ : Type} {w : Wiring δ} {k : Key} {c c' : Cell δ} {e : WorkerEvent}

/-- The recipient's cell after the events `es`, from the start. -/
def workerAfter (w : Wiring δ) (k : Key) (undebated : δ) (es : List WorkerEvent) : Cell δ :=
  run (workerStep w k) { debate := undebated } es

/-- Why a request that a cancel of time `t` overtook is not stored at `now` in another
state than cancelled: the tombstone waits for it, its row exists, or it is too old. -/
inductive Request.Shielded (t : StoreTime) (now : Time) (c : Cell δ) : Prop where
  | buried (t' : Tombstone) (unknown : c.request = none) (buried : c.tombstone = some t')
      (late : t ≤ t'.receivedAt)
  | cancelled (row : Row) (known : c.request = some row) (state : row.state = .cancelled)
  | old (old : t < storeTime (now - Request.tombstoneMaxAge))

namespace Request.Shielded

variable {t : StoreTime} {now : Time}

theorem moves (shielded : Shielded t now c) (moves : c.Moves c') : Shielded t now c' := by
  cases shielded with
  | buried t' unknown buried late => exact .buried t' (moves.unknown unknown) (moves.tombstone.trans buried) late
  | cancelled row known state =>
    obtain ⟨row', known', later⟩ := moves.later known
    exact .cancelled row' known' ((later.ended (by rw [state]; rfl)).trans state)
  | old old => exact .old old

theorem buries (shielded : Shielded t now c) (past : t ≤ storeTime now) (buries : c.Buries now c') :
    Shielded t now c' := by
  cases buries with
  | prunes request tombstone =>
    cases shielded with
    | buried t' unknown buried late =>
      by_cases young : storeTime (now - tombstoneMaxAge) ≤ t'.receivedAt
      · refine .buried t' (request.trans unknown) (tombstone.trans ?_) late
        simp only [pruneTombstone, buried, Option.filter_some, young, decide_true, if_true]
      · exact .old (lt_of_le_of_lt late (not_le.mp young))
    | cancelled row known state => exact .cancelled row (request.trans known) state
    | old old => exact .old old
  | early unknown request t' tombstone received => exact .buried t' request tombstone (received ▸ past)

theorem stores {r : Body} {hash : String} {i : Intake} {row : Row} {outcome : ReceiveOutcome}
    (shielded : Shielded t now c) (unknown : c.request = none) (stores : Stores c r hash i now row outcome) :
    row.state = .cancelled ∨ t < storeTime (now - tombstoneMaxAge) ∧ now - parseWireTime r.created ≤ maxAge := by
  cases stores with
  | cancelled t' buried state origin => exact .inl state
  | declined code unburied young state origin =>
    cases shielded with
    | buried t' unknown' buried late => cases unburied.symm.trans buried
    | cancelled row known state => cases unknown.symm.trans known
    | old old => exact .inr ⟨old, young⟩
  | pending accepted unburied young room moves =>
    cases shielded with
    | buried t' unknown' buried late => cases unburied.symm.trans buried
    | cancelled row known state => cases unknown.symm.trans known
    | old old => exact .inr ⟨old, young⟩

theorem later {now' : Time} (shielded : Shielded t now c) (h : now ≤ now') : Shielded t now' c := by
  cases shielded with
  | buried t' unknown buried late => exact .buried t' unknown buried late
  | cancelled row known state => exact .cancelled row known state
  | old old => exact .old (lt_of_lt_of_le old (storeTime_mono (Int.sub_le_sub_right h _)))

/-- The shield of a tombstone, over one event. -/
theorem step (hooks : w.debates.KeepRows) (shielded : Shielded t now c) (past : t ≤ storeTime now)
    (clock : now ≤ e.time) : Shielded t e.time (workerStep w k c e) := by
  have shielded := shielded.later clock
  have past := past.trans (storeTime_mono clock)
  cases workerStep_rowStep (k := k) (c := c) hooks e with
  | moves moves => exact shielded.moves moves
  | buries buries => exact shielded.buries past buries
  | stores m r i tombstones now' outcome event carried applied stored =>
    obtain ⟨hash, row, _, known, stores⟩ := stored.stored
    subst event
    rcases shielded.stores stored.unknown stores with state | ⟨old, _⟩
    · exact .cancelled row known state
    · exact .old old

end Request.Shielded

/-- The request arrives after its cancel. -/
def Consumes (w : Wiring δ) (k : Key) (c : Cell δ) (e : WorkerEvent) : Prop :=
  c.tombstone.isSome ∧ c.request = none ∧ (workerStep w k c e).request.isSome

theorem run_request (hooks : w.debates.KeepRows) {row : Row} (known : c.request = some row)
    (es : List WorkerEvent) : ∃ row', (run (workerStep w k) c es).request = some row' := by
  refine run_invariant (motive := fun c : Cell δ => ∃ row, c.request = some row) ?_ ⟨row, known⟩ es
  rintro c e ⟨row, known⟩
  obtain ⟨row', known', _⟩ := (workerStep_rowStep (k := k) hooks e).later known
  exact ⟨row', known'⟩

theorem consumes_once (hooks : w.debates.KeepRows) {undebated : δ} {es fs : List WorkerEvent}
    {e' : WorkerEvent} (consumes : Consumes w k (workerAfter w k undebated es) e) :
    ¬Consumes w k (workerAfter w k undebated (es ++ e :: fs)) e' := by
  intro again
  obtain ⟨row, known⟩ := Option.isSome_iff_exists.mp consumes.2.2
  obtain ⟨row', known'⟩ := run_request (k := k) hooks known fs
  have unknown := again.2.1
  rw [workerAfter, run_append] at unknown
  cases unknown.symm.trans known'

theorem buried_of_early {m : Mail} {b : Request.CancelBody} {i : Request.Intake} {tombstones : Nat}
    {now : Time} (inWindow : m.receivable now = true) (carried : m.body = .cancel b) (own : b.request = k.id)
    (early : Request.applyCancel w k c m.created b tombstones now = .ok (c', .early)) :
    Request.Shielded (storeTime now) now (workerStep w k c (.mail m i tombstones now)) := by
  have guard : m.receivable now ∧ m.body.requestID = k.id := ⟨inWindow, by rw [carried]; exact own⟩
  rw [workerStep, if_pos guard, receiveAtWorker, carried]
  dsimp only
  rw [early]
  simp only [Request.applyCancel, bind_eq_ok] at early
  obtain ⟨_, _, early⟩ := early
  split at early
  · next unknown =>
    unfold Request.applyEarlyCancel at early
    dsimp only at early
    split at early
    · cases early
    · cases early
      exact .buried _ unknown rfl le_rfl
  · split at early
    · cases early
    split at early
    · cases early
    rw [bind_eq_ok] at early
    obtain ⟨_, _, done⟩ := early
    cases done

theorem old_of_pruned {created : WireTime} {t now : Time}
    (pruned : storeTime t < storeTime (now - Request.tombstoneMaxAge))
    (early : parseWireTime created ≤ parseStoreTime (storeTime t) + day) :
    ¬now - parseWireTime created ≤ Request.maxAge := by
  unfold storeTime parseStoreTime Request.tombstoneMaxAge Request.maxAge day hour minute second StoreTime Time at *
  omega

/-- Once a cancel that overtook its request is stored, and while the clock does not go
back, no request of its id that was created up to a day later is stored in another state
than cancelled; and a tombstone is consumed at most once. -/
theorem early_cancel_wins (w : Wiring δ) (k : Key) (undebated : δ) (hooks : w.debates.KeepRows)
    (past later : List WorkerEvent) (m : Mail) (b : Request.CancelBody) (i : Request.Intake)
    (tombstones : Nat) (now : Time) (c' : Cell δ) (inWindow : m.receivable now = true)
    (carried : m.body = .cancel b) (own : b.request = k.id)
    (early : Request.applyCancel w k (workerAfter w k undebated past) m.created b tombstones now = .ok (c', .early))
    (clocked : Clocked WorkerEvent.time now later) : (∀ m' r i' tombstones' now' row, m'.body = .request r →
      clock WorkerEvent.time now later ≤ now' → parseWireTime r.created ≤ parseStoreTime (storeTime now) + day →
      (workerAfter w k undebated (past ++ .mail m i tombstones now :: later)).request = none →
      (workerStep w k (workerAfter w k undebated (past ++ .mail m i tombstones now :: later))
        (.mail m' i' tombstones' now')).request = some row → row.state = .cancelled) ∧
    ∀ es e fs e', Consumes w k (workerAfter w k undebated es) e →
    ¬Consumes w k (workerAfter w k undebated (es ++ e :: fs)) e' := by
  refine ⟨?_, fun es e fs e' => consumes_once hooks⟩
  intro m' r i' tombstones' now' row request clock' created unknown known
  have shielded : storeTime now ≤ storeTime (clock WorkerEvent.time now later) ∧
      Request.Shielded (storeTime now) (clock WorkerEvent.time now later)
        (workerAfter w k undebated (past ++ .mail m i tombstones now :: later)) := by
    rw [workerAfter, run_append]
    refine run_clocked (motive := fun t (c : Cell δ) => storeTime now ≤ storeTime t ∧
      Request.Shielded (storeTime now) t c) (fun t c e shielded clock => ?_)
      ⟨le_rfl, buried_of_early inWindow carried own early⟩ clocked
    exact ⟨shielded.1.trans (storeTime_mono clock), shielded.2.step hooks shielded.1 clock⟩
  obtain ⟨_, r', _, _, _, _, _, event, carried', _, _, _, stores⟩ := storedBy_of_new hooks unknown known
  cases event
  cases request.symm.trans carried'
  rcases (shielded.2.later clock').stores unknown stores with state | ⟨old, young⟩
  · exact state
  · exact absurd young (old_of_pruned old created)

/-- The cancel of `sampleTask` that arrives first. -/
def sampleCancel : Request.CancelBody := { at' := 0, request := sampleParties.id }

/-- The request that arrives after its cancel is stored cancelled. -/
theorem sampleCancel_wins : ∃ row, (workerStep sampleParties.atWorker sampleParties.workerKey
      (workerAfter sampleParties.atWorker sampleParties.workerKey () [.mail ⟨0, .cancel sampleCancel⟩ {} 0 0,
        .op .pruneTombstones day])
          (.mail ⟨0, .request (sampleTask.request sampleParties.requester sampleParties.requesterKey 0 0)⟩
        {} 0 (2 * day))).request = some row ∧ row.state = .cancelled := by
  have stored : (Request.applyCancel sampleParties.atWorker sampleParties.workerKey
        (workerAfter sampleParties.atWorker sampleParties.workerKey () []) 0 sampleCancel 0 0).map
        Prod.snd = .ok .early ∧
      (workerAfter sampleParties.atWorker sampleParties.workerKey ()
        [.mail ⟨0, .cancel sampleCancel⟩ {} 0 0, .op .pruneTombstones day]).request.isNone = true ∧
      (workerStep sampleParties.atWorker sampleParties.workerKey
        (workerAfter sampleParties.atWorker sampleParties.workerKey () [.mail ⟨0, .cancel sampleCancel⟩ {} 0 0,
          .op .pruneTombstones day])
            (.mail ⟨0, .request (sampleTask.request sampleParties.requester sampleParties.requesterKey
          0 0)⟩ {} 0 (2 * day))).request.isSome = true := by
    decide +kernel
  obtain ⟨⟨c', outcome⟩, early, rfl⟩ := map_eq_ok.mp stored.1
  obtain ⟨row, known⟩ := Option.isSome_iff_exists.mp stored.2.2
  exact ⟨row, known, (early_cancel_wins _ _ () DebateHooks.undebated_keepRows []
    [.op .pruneTombstones day] ⟨0, .cancel sampleCancel⟩ sampleCancel {} 0 0 c' (by decide) rfl rfl
    early (by decide)).1 _ _ _ _ _ row rfl (by decide) (by decide)
    (Option.isNone_iff_eq_none.mp stored.2.1) known⟩

end Agentnet
