import Agentnet.WorkSession.ReceiveRefinement

/-! Runs of the requester against a worker that may send anything: when its session
may still be open, and what its record of the request says in the end. -/

namespace Agentnet
open Agentnet.Lib
open WorkSession WorkSession.Protocol
open Request (JsonObject)

variable {δ : Type}

/-- The requester's cell after the events `es`, from the start. -/
def requesterAfter (w : Wiring δ) (k : Key) (undebated : δ) (es : List RequesterEvent) : Cell δ :=
  run (requesterStep w k) { debate := undebated } es

variable {w : Wiring δ} {k : Key} {undebated : δ} {es : List RequesterEvent} {c : Cell δ}

theorem requesterAfter_concat (e : RequesterEvent) : requesterAfter w k undebated (es ++ [e]) =
    requesterStep w k (requesterAfter w k undebated es) e :=
  run_concat ..

def anyResult (_ : Nat) (_ : JsonObject) : Prop := True

theorem requesterStep_refines_any (cell : RequesterCell c) (e : RequesterEvent) :
    ∃ label, Refines anyResult c label (requesterStep w k c e) ∧ Labels c e label :=
  requesterStep_refines cell fun _ _ _ _ _ _ _ _ => trivial

/-! ## No open session for an ended request -/

def Cell.sessionOpen (c : Cell δ) : Bool := c.session.any fun row => row.state == .open

def Cell.requestEnded (c : Cell δ) : Bool := c.request.any fun out => out.state.ended

/-- The user asks for changes. -/
def RequesterEvent.requestsChanges : RequesterEvent → Bool
  | .op (.requestChanges _) _ => true
  | _ => false

/-- No changes are requested, and no accept that was overtaken by the end of the
request opens a session. -/
def Timely (c : Cell δ) (e : RequesterEvent) : Prop :=
  e.requestsChanges = false ∧ (c.requestEnded = true → staleAccept c e = false)

instance (c : Cell δ) (e : RequesterEvent) : Decidable (Timely c e) := inferInstanceAs (Decidable (_ ∧ (_ → _)))

theorem requestEnded_iff : c.requestEnded = true ↔ ∃ o, c.requester.out = some o ∧ o.state.ended := by
  unfold Cell.requestEnded Cell.requester
  cases c.request with
  | none => simp
  | some out => simp [Request.Row.out]

theorem sessionOpen_iff : c.sessionOpen = true ↔ ∃ r, c.requester.session = some r ∧ r.state = .open := by
  unfold Cell.sessionOpen Cell.requester
  cases c.session with
  | none => simp
  | some row => simp [Session.authorityRow]

theorem ended_step {e : RequesterEvent} (cell : RequesterCell c) (ended : c.requester.Ended) (timely : Timely c e) :
    RequesterCell (requesterStep w k c e) ∧ (requesterStep w k c e).requester.Ended := by
  obtain ⟨label, refines, labels⟩ := requesterStep_refines_any (w := w) (k := k) cell e
  refine ⟨refines.cell, ended.step refines.step (fun reopening => ?_) fun opening o known => ?_⟩
  · obtain ⟨changes, now, rfl⟩ := labels.reopening reopening
    cases timely.1
  · by_contra finished
    have finished' : c.requestEnded = true := requestEnded_iff.mpr ⟨o, known, by simpa using finished⟩
    rcases labels.opening opening with ⟨out, known', live⟩ | stale
    · simp only [Cell.requestEnded, known', Option.any_some, live] at finished'
      cases finished'
    · cases (timely.2 finished').symm.trans stale

/-- In every run whose steps are timely, no session is open once the request is over. -/
theorem no_open_session_of_timely (w : Wiring δ) (k : Key) (undebated : δ) (es : List RequesterEvent)
    (timely : Follows (requesterStep w k) Timely { debate := undebated } es)
    (ended : (requesterAfter w k undebated es).requestEnded = true) :
    (requesterAfter w k undebated es).sessionOpen = false := by
  have inv : RequesterCell (requesterAfter w k undebated es) ∧ (requesterAfter w k undebated es).requester.Ended :=
    run_invariant_of (motive := fun c => RequesterCell c ∧ c.requester.Ended)
      (fun _ _ inv timely => ended_step inv.1 inv.2 timely) ⟨.blank undebated, (by rintro _ _ ⟨⟩)⟩ timely
  by_contra isOpen
  obtain ⟨o, known, finished⟩ := requestEnded_iff.mp ended
  obtain ⟨r, opened, isOpen⟩ := sessionOpen_iff.mp (by simpa using isOpen)
  exact inv.2 o r known opened finished isOpen

/-- A mail of the worker of `sampleParties`. -/
def sampleReply (seq : Nat) (content : Request.ReplyContent) : RequesterEvent :=
  .mail ⟨0, .reply { at' := 0, request := sampleParties.id, seq, content }⟩ none 0

def completedRun : List RequesterEvent :=
  [.op (.submit sampleTask 0 false) 0, sampleReply 1 .accept, sampleReply 2 (.complete "" none)]

theorem completedRun_closes_session : (requesterAfter sampleParties.atRequester sampleParties.requesterKey ()
      completedRun).sessionOpen = false := by
  have timely : Follows (requesterStep sampleParties.atRequester sampleParties.requesterKey) Timely { debate := () }
      completedRun ∧
      (requesterAfter sampleParties.atRequester sampleParties.requesterKey () completedRun).requestEnded = true := by
    decide +kernel
  exact no_open_session_of_timely _ _ _ _ timely.1 timely.2

def overtakenAccept : List RequesterEvent :=
  [.op (.submit sampleTask 0 false) 0, sampleReply 2 (.complete "" none), sampleReply 1 .accept]

/-- The late accept opens a session for a request that is completed. -/
theorem overtaken_accept_opens_session : (∀ e ∈ overtakenAccept, e.requestsChanges = false) ∧
      (requesterAfter sampleParties.atRequester sampleParties.requesterKey () overtakenAccept).requestEnded = true ∧
      (requesterAfter sampleParties.atRequester sampleParties.requesterKey () overtakenAccept).sessionOpen =
        true := by
  decide +kernel

/-! ## The record of the request -/

/-- What holds in every state of the requester, whatever the worker sends. -/
structure RequesterInv (c : Cell δ) : Prop where
  cell : RequesterCell c
  record : c.requester.Shows d14Part
  authority : c.requester.authority.Inv anyResult

/-- The invariant of the requester's cell, over every event. -/
theorem RequesterInv.step (inv : RequesterInv c) (e : RequesterEvent) : RequesterInv (requesterStep w k c e) := by
  obtain ⟨label, refines, _⟩ := requesterStep_refines_any (w := w) (k := k) inv.cell e
  exact ⟨refines.cell, inv.record.step refines.step, inv.authority.step refines.step.authority⟩

theorem requesterInv_after (w : Wiring δ) (k : Key) (undebated : δ) (es : List RequesterEvent) :
    RequesterInv (requesterAfter w k undebated es) :=
  run_invariant (fun _ e inv => inv.step e) ⟨.blank undebated, ⟨(by rintro _ _ _ ⟨⟩), (by rintro _ _ _ ⟨⟩)⟩,
    Authority.initial_inv _⟩ es

theorem row_after_append (w : Wiring δ) (k : Key) (undebated : δ) (past later : List RequesterEvent) :
    (requesterAfter w k undebated (past ++ later)).requester.row = (requesterAfter w k undebated past).requester.row ∨
      (requesterAfter w k undebated past).requester.row.seq <
        (requesterAfter w k undebated (past ++ later)).requester.row.seq := by
  induction later using List.reverseRecOn with
  | nil => exact .inl (by rw [List.append_nil])
  | append_singleton later e ih =>
    have inv := requesterInv_after w k undebated (past ++ later)
    obtain ⟨label, refines, _⟩ := requesterStep_refines_any (w := w) (k := k) inv.cell e
    rw [← List.append_assoc, requesterAfter_concat]
    rcases refines.step.authority.seq with same | next
    · exact ih.imp same.trans fun lower => by
        rw [show Requester.row _ = _ from same]
        exact lower
    · refine .inr (lt_of_le_of_lt ?_ (Nat.lt_of_lt_of_eq (Nat.lt_succ_self _) next.symm))
      exact ih.elim (fun same => by rw [← same]; exact le_rfl) le_of_lt

/-- A result that was applied is under review. -/
theorem applyResult_applied {b : ResultBody} {quarantine : Quarantine} {quarantined : Bool}
    {c' : Cell δ} {now : Time} (cell : RequesterCell c)
    (h : applyResult w k c b quarantine now = .ok (c', .applied quarantined)) :
    c'.requester.row.state.underReview ∧ 1 ≤ c'.requester.row.seq := by
  simp only [applyResult, bind_eq_ok] at h
  obtain ⟨result, _, h⟩ := h
  split at h
  · cases h
  next out known =>
  split at h
  · cases h
  split at h
  · cases h
  rcases created : findOrCreate w k c out.teamID now with ⟨c₁, row⟩
  obtain ⟨_, opened, _, _⟩ := findOrCreate_spec cell created
  rw [created] at h
  dsimp only at h
  split at h
  · cases h
  split at h
  · cases h
  simp only [bind_eq_ok] at h
  obtain ⟨held, _, c₂, stored, done⟩ := h
  cases done
  obtain ⟨row', ⟨_, _, _, _, same⟩, _, _, review⟩ := storeResult_moved opened stored
  have own : c'.requester.row = row'.authorityRow := row_requester (by rw [same])
  rw [own, review]
  exact ⟨by cases quarantined <;> rfl, Nat.le_add_left ..⟩

/-- Some `ws.result` was applied on the way. -/
def ResultApplied (w : Wiring δ) (k : Key) (undebated : δ) (es : List RequesterEvent) : Prop :=
  ∃ past m b quarantine now c' quarantined, past ++ [.mail m quarantine now] <+: es ∧
    m.receivable now ∧ m.body = .result b ∧ b.request = k.id ∧
    applyResult w k (requesterAfter w k undebated past) b quarantine now = .ok (c', .applied quarantined)

theorem seq_of_resultApplied (applied : ResultApplied w k undebated es)
    (closed : (requesterAfter w k undebated es).requester.row.state.isClosed = true) :
    2 ≤ (requesterAfter w k undebated es).requester.row.seq := by
  obtain ⟨past, m, b, quarantine, now, c', quarantined, ⟨later, rfl⟩, inWindow, isResult, own, applied⟩ := applied
  have after : requesterAfter w k undebated (past ++ [.mail m quarantine now]) = c' := by
    have guard : m.receivable now ∧ m.body.requestID = k.id := ⟨inWindow, by rw [isResult]; exact own⟩
    rw [requesterAfter_concat, requesterStep, if_pos guard, isResult, receiveAtRequester, applied]
    rfl
  obtain ⟨review, seq⟩ := applyResult_applied (requesterInv_after w k undebated past).cell applied
  rcases row_after_append w k undebated (past ++ [.mail m quarantine now]) later with same | higher
  · rw [same, after, State.live_of_underReview review] at closed
    cases closed
  · rw [after] at higher
    omega

/-- What the requester's record of a completed request says once its session is closed,
whatever the worker sent: the D14 part of the accepted result, or the fixed note when a
result was ever applied. -/
theorem record_holds_accepted_result (w : Wiring δ) (k : Key) (undebated : δ)
    (es : List RequesterEvent) (out : Request.Row) (row : Session)
    (known : (requesterAfter w k undebated es).request = some out)
    (opened : (requesterAfter w k undebated es).session = some row) (completed : out.state = .completed) :
    (row.state = .closed .accepted → ∃ stored result, row.result = some stored ∧
      decodeStoredResult stored = .ok result ∧ out.note = none ∧
      out.result = some (Request.resultCanonicalValue result.d14)) ∧
    (row.state = .closed .cancelled → ResultApplied w k undebated es →
      out.note = some "session cancelled" ∧ out.result = none) := by
  have inv := requesterInv_after w k undebated es
  have known' : (requesterAfter w k undebated es).requester.out = some out.out := by
    simp only [Cell.requester, known, Option.map_some]
  have own := row_requester opened
  constructor
  · intro accepted
    have shown := inv.record.accepted _ _ known' (session_requester opened) completed accepted
    obtain ⟨x, stored, _⟩ := inv.authority.result (by
      rw [Requester.authority, own]
      exact congrArg forgets accepted)
    rw [Requester.authority, own] at stored
    have stored' : row.result = some x := stored
    rw [show row.authorityRow.result = some x from stored, view, d14Part] at shown
    split at shown
    · next result decodes =>
      have content := Option.some.inj shown
      exact ⟨x, result, stored', decodes, (congrArg Content.note content).symm,
        (congrArg Content.result content).symm⟩
    · cases shown
  · intro cancelled applied
    have late := seq_of_resultApplied applied (by
      rw [own]
      exact congrArg State.isClosed cancelled)
    rw [own] at late
    have content := inv.record.cancelled _ _ known' (session_requester opened) completed cancelled late
    exact ⟨congrArg Content.note content, congrArg Content.result content⟩

/-- A result of the worker of `sampleParties`. -/
def sampleResult : ResultBody where
  at' := 0
  request := sampleParties.id
  result := [("status", .str "pass"), ("verification", .str "none")]
  round := 1
  session := "s-"

/-- The result is accepted, and the worker completes with content of its own. -/
def acceptedThenCompleted : List RequesterEvent :=
  [.op (.submit sampleTask 0 false) 0, sampleReply 1 .accept, .mail ⟨0, .result sampleResult⟩ none 0,
    .op .acceptResult 0, sampleReply 2 (.complete "other" (some [("status", .str "fail")]))]

theorem acceptedThenCompleted_record : ∃ out row stored result,
      (requesterAfter sampleParties.atRequester sampleParties.requesterKey () acceptedThenCompleted).request =
        some out ∧
      (requesterAfter sampleParties.atRequester sampleParties.requesterKey () acceptedThenCompleted).session =
        some row ∧
      row.result = some stored ∧ decodeStoredResult stored = .ok result ∧ out.note = none ∧
      out.result = some (Request.resultCanonicalValue result.d14) := by
  have states : (requesterAfter sampleParties.atRequester sampleParties.requesterKey ()
        acceptedThenCompleted).request.map (·.state) = some .completed ∧
      (requesterAfter sampleParties.atRequester sampleParties.requesterKey ()
        acceptedThenCompleted).session.map (·.state) = some (.closed .accepted) := by
    decide +kernel
  obtain ⟨out, known, completed⟩ := Option.map_eq_some_iff.mp states.1
  obtain ⟨row, opened, accepted⟩ := Option.map_eq_some_iff.mp states.2
  obtain ⟨stored, result, shown⟩ :=
    (record_holds_accepted_result _ _ () acceptedThenCompleted out row known opened completed).1 accepted
  exact ⟨out, row, stored, result, known, opened, shown⟩

end Agentnet
