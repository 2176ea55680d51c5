import Agentnet.WorkSession.ReceiveRefinement
import Agentnet.WorkSession.WorkerRefinement

/-! The two daemons of one request together. Every event of the pair is a step of the
session protocol, so what holds of the protocol holds of the daemons. -/

namespace Agentnet
open Agentnet.Lib
open WorkSession WorkSession.Protocol
open Request (JsonObject)

variable {δ : Type} {p : Parties δ} {s : Pair δ}

/-! ## Events of the pair -/

inductive PairEvent.AtRequester (s : Pair δ) : PairEvent → RequesterEvent → Prop where
  | op (op : RequesterOp) (now : Time) : AtRequester s (.requester op now) (.op op now)
  | mail (i : Nat) (quarantine : Quarantine) (now : Time) (m : Mail)
      (sent : s.b.sent[i]? = some m) :
      AtRequester s (.toRequester i quarantine now) (.mail m quarantine now)

inductive PairEvent.AtWorker (s : Pair δ) : PairEvent → WorkerEvent → Prop where
  | op (op : WorkerOp) (now : Time) : AtWorker s (.worker op now) (.op op now)
  | mail (i : Nat) (intake : Request.Intake) (tombstones : Nat) (now : Time) (m : Mail)
      (sent : s.a.sent[i]? = some m) :
      AtWorker s (.toWorker i intake tombstones now) (.mail m intake tombstones now)

theorem PairEvent.step_cases (p : Parties δ) (s : Pair δ) (e : PairEvent) :
    e.step p s = s ∨ (∃ re, e.AtRequester s re ∧
        e.step p s = { s with a := requesterStep p.atRequester p.requesterKey s.a re }) ∨
      ∃ we, e.AtWorker s we ∧ e.step p s = { s with b := workerStep p.atWorker p.workerKey s.b we } := by
  cases e with
  | requester op now => exact .inr (.inl ⟨_, .op op now, rfl⟩)
  | worker op now => exact .inr (.inr ⟨_, .op op now, rfl⟩)
  | toRequester i quarantine now =>
    cases sent : s.b.sent[i]? with
    | none => exact .inl (by simp only [PairEvent.step, sent])
    | some m => exact .inr (.inl ⟨_, .mail i quarantine now m sent, by simp only [PairEvent.step, sent]⟩)
  | toWorker i intake tombstones now =>
    cases sent : s.a.sent[i]? with
    | none => exact .inl (by simp only [PairEvent.step, sent])
    | some m => exact .inr (.inr ⟨_, .mail i intake tombstones now m sent, by simp only [PairEvent.step, sent]⟩)

/-! ## The protocol the pair runs -/

def Pair.system (s : Pair δ) : System JsonObject := ⟨s.a.requester.authority, s.b.worker.mirror⟩

/-- The invariant of both cells, and of the protocol they make up. -/
structure Pair.Inv (s : Pair δ) : Prop where
  a : RequesterCell s.a
  b : WorkerCell s.b
  system : s.system.Inv

theorem Pair.initial_inv (undebated : δ) : (Pair.initial undebated).Inv where
  a := .blank undebated
  b := .blank undebated
  system := System.initial_inv

variable {k : Key} {m : Mail} {w : Wiring δ} {b : StateBody} {t : Tuple} {c c' : Cell δ} {now : Time}
  {x : JsonObject}

theorem Pair.Inv.came {b : ResultBody} {result : WorkSession.Result} (inv : s.Inv) (sent : m ∈ s.b.sent)
    (isResult : m.body = .result b) (checked : checkResultBody w k b = .ok result) :
    s.system.arrived b.round (resultCanonicalValue result) := by
  obtain ⟨r, valid, canonical⟩ := inv.b.results m sent b isResult
  simp only [checkResultBody, bind_eq_ok] at checked
  obtain ⟨_, _, _, _, decoded, decodes, _, _, _, _, _, _, done⟩ := checked
  cases done
  rw [canonical, decodeResult_resultCanonicalValue (validateResult_wellFormed valid)] at decodes
  cases decodes
  rw [← canonical]
  exact List.mem_filterMap.mpr ⟨m, sent, by rw [isResult]; rfl⟩

theorem Pair.heard (sent : m ∈ s.a.sent) (isState : m.body = .state b) (tuple : b.tuple? = some t) :
    s.system.heard t :=
  List.mem_filterMap.mpr ⟨m, sent, by rw [isState]; exact tuple⟩

/-- Every `request` mail of the requester is no debate. -/
theorem Pair.Inv.undebated {r : Request.Body} (inv : s.Inv) (sent : m ∈ s.a.sent)
    (isRequest : m.body = .request r) : r.type ≠ .debate := by
  obtain ⟨row, known, stored⟩ := inv.a.request.sent m sent r isRequest
  rw [inv.a.request.body row r known stored]
  exact inv.a.request.typ row known

/-- What one event of the pair does: nothing, or a step of one of the parties. -/
inductive Pair.Refines (s : Pair δ) (e : PairEvent) : Pair δ → Prop where
  | stays : Refines s e s
  | requester (re : RequesterEvent) (label : Requester.Label) (a : Cell δ)
      (acts : e.AtRequester s re) (refines : Agentnet.Refines s.system.arrived s.a label a)
      (labels : Labels s.a re label) : Refines s e { s with a := a }
  | worker (we : WorkerEvent) (label : Worker.Label) (b : Cell δ) (acts : e.AtWorker s we)
      (refines : WorkerRefines s.system.heard s.b label b) (labels : WorkerLabels s.b we label) :
      Refines s e { s with b := b }

/-- Each event is a step of the protocol, or none. -/
theorem Pair.Inv.refines (inv : s.Inv) (e : PairEvent) : s.Refines e (e.step p s) := by
  rcases e.step_cases p s with same | ⟨re, acts, same⟩ | ⟨we, acts, same⟩
  · rw [same]
    exact .stays
  · have came : ∀ m quarantine now b result, re = .mail m quarantine now → m.body = .result b →
        checkResultBody p.atRequester p.requesterKey b = .ok result →
        s.system.arrived b.round (resultCanonicalValue result) := by
      rintro m quarantine now b result rfl isResult checked
      cases acts with
      | mail i _ _ _ sent => exact inv.came (List.mem_of_getElem? sent) isResult checked
    obtain ⟨label, refines, labels⟩ := requesterStep_refines inv.a came
    rw [same]
    exact .requester re label _ acts refines labels
  · have undebated : ∀ m intake tombstones now r, we = .mail m intake tombstones now → m.body = .request r →
        r.type ≠ .debate := by
      rintro m intake tombstones now r rfl isRequest
      cases acts with
      | mail i _ _ _ _ sent => exact inv.undebated (List.mem_of_getElem? sent) isRequest
    have heard : ∀ m intake tombstones now b t, we = .mail m intake tombstones now →
        m.body = .state b → b.tuple? = some t → s.system.heard t := by
      rintro m intake tombstones now b t rfl isState tuple
      cases acts with
      | mail i _ _ _ _ sent => exact Pair.heard (List.mem_of_getElem? sent) isState tuple
    obtain ⟨label, refines, labels⟩ := workerStep_refines inv.b undebated heard
    rw [same]
    exact .worker we label _ acts refines labels

theorem Pair.Refines.system {e : PairEvent} {s' : Pair δ} (refines : s.Refines e s') : s.system.Step s'.system := by
  cases refines with
  | stays => exact .authority _ .idle
  | requester re label a acts refines labels => exact .authority _ refines.step.authority
  | worker we label b acts refines labels => exact .mirror _ refines.step.mirror

/-- The invariant of the two daemons, over every event. -/
theorem Pair.Inv.step (inv : s.Inv) (e : PairEvent) : (e.step p s).Inv := by
  have refines := inv.refines (p := p) e
  have system := inv.system.step refines.system
  generalize e.step p s = s' at refines system ⊢
  cases refines with
  | stays => exact inv
  | requester re label a acts refines labels => exact ⟨refines.cell, inv.b, system⟩
  | worker we label b acts refines labels => exact ⟨inv.a, refines.cell, system⟩

theorem Pair.after_inv (p : Parties δ) (undebated : δ) (es : List PairEvent) : (Pair.after p undebated es).Inv :=
  run_invariant (fun _ e inv => inv.step e) (Pair.initial_inv undebated) es

/-! ## The accepted result -/

/-- The `ws.state` bodies among the sent mails. -/
def stateBodies (sent : List Mail) : List StateBody :=
  sent.filterMap fun m =>
    match m.body with
    | .state b => some b
    | _ => none

theorem mem_stateBodies {sent : List Mail} : b ∈ stateBodies sent ↔ ∃ m ∈ sent, m.body = .state b := by
  simp only [stateBodies, List.mem_filterMap]
  refine exists_congr fun m => and_congr_right fun _ => ?_
  cases m.body <;> simp

theorem outcome_of_tuple (h : b.tuple? = some t) : t.state.outcome = b.outcome := by
  unfold StateBody.tuple? at h
  split at h
  · next state read =>
    cases h
    unfold stateOf at read
    split at read <;> cases read <;> simp only [State.outcome, *]
  · cases h

/-- What a `ws.state` that is applied met: a live session with a lower number. -/
theorem applyState_applied (h : applyState w k c b now = .ok (c', .applied)) :
    ∃ row state, c.session = some row ∧ b.tuple? = some ⟨state, b.seq, b.round⟩ ∧
      row.seq < b.seq ∧ row.state.isClosed = false ∧ applyNewState k c row b state now = .ok c' := by
  simp only [applyState, bind_eq_ok] at h
  obtain ⟨state, checked, h⟩ := h
  split at h
  · cases h
  next row opened =>
  split at h
  · cases h
  split at h
  · split at h <;> cases h
  next higher =>
  split at h
  · cases h
  next live =>
  rw [bind_eq_ok] at h
  obtain ⟨c₁, applied, done⟩ := h
  cases done
  exact ⟨row, state, opened, tuple_of_checkStateBody checked, not_le.mp higher, by simpa using live, applied⟩

/-- The mails of a completion that goes with a close: one for an accepted request. -/
def completions (k : Key) (request : Option Request.Row) (note : String) (result : Option Request.Result)
    (now : Time) : List Mail :=
  match request with
  | some row =>
    if row.state = .accepted then
      [⟨wireTime now, .reply (Request.completeReply k (row.stateSeq + 1) note result now)⟩]
    else []
  | none => []

theorem completeOnClose_sent {note : String} {result : Option Request.Result}
    (h : completeOnClose k c note result now = .ok c') :
    c'.session = c.session ∧ c'.sent = c.sent ++ completions k c.request note result now := by
  unfold completeOnClose at h
  split at h
  · next done completed =>
    cases h
    obtain ⟨row, stored, known, accepted, _, rfl⟩ := Request.completeInTx_ok completed
    refine ⟨rfl, ?_⟩
    simp only [completions, known, accepted, if_true]
    rfl
  · next state msg refused =>
    cases h
    obtain ⟨row, known, notAccepted⟩ := Request.completeInTx_badState refused rfl
    simp only [completions, known, notAccepted, if_false, List.append_nil, and_self]
  · cases h

theorem applyNewState_accepted {row : Session} (opened : c.session = some row) (stored : row.result = some x)
    (ofRound : row.resultRound = some b.round) (h : applyNewState k c row b (.closed .accepted) now = .ok c') :
    ∃ held result, c'.session = some held ∧ held.result = some x ∧ held.resultRound = some b.round ∧
    decodeStoredResult x = .ok result ∧ c'.sent = c.sent ++ completions k c.request "" (some result.d14) now := by
  simp only [applyNewState, closeMirror, closeContent, stored, ofRound, if_true, bind_eq_ok] at h
  obtain ⟨c₁, recorded, ⟨note, result⟩, ⟨decoded, decodes, content⟩, completed⟩ := h
  cases content
  obtain ⟨_, record, rfl⟩ := writeExperienceTx_ok recorded
  obtain ⟨session, sent⟩ := completeOnClose_sent completed
  refine ⟨mirrorRow b (.closed .accepted) now row, decoded, ?_, ?_, ?_, decodes, sent⟩
  · rw [session]
    simp only [Cell.revokeGrants, Cell.updateSession, opened, Option.map_some]
  · exact stored
  · exact ofRound

/-- The requester closed its session with `x` accepted in that round. -/
structure AcceptedIn (round : Nat) (x : JsonObject) (row : Session) : Prop where
  state : row.state = .closed .accepted
  round : row.round = round
  result : row.result = some x

theorem session_of_result (h : c.requester.row.result = some x) :
    ∃ row, c.session = some row ∧ row.authorityRow = c.requester.row := by
  cases opened : c.session with
  | none =>
    simp only [Requester.row, Cell.requester, opened, Option.map_none, Option.getD_none] at h
    cases h
  | some row => exact ⟨row, rfl, (row_requester opened).symm⟩

/-- When the worker applies an accepting close, it holds the very result that the
requester reviewed in that round, and completes the request with its D14 part. The
result it stores is at any time one of the current round. -/
theorem worker_completes_with_reviewed_result (p : Parties δ) (undebated : δ) (es : List PairEvent) :
    (∀ b now c', b ∈ stateBodies (Pair.after p undebated es).a.sent → b.outcome = some .accepted →
      applyState p.atWorker p.workerKey (Pair.after p undebated es).b b now = .ok (c', .applied) →
      ∃ x reviewed held result, (Pair.after p undebated es).a.session = some reviewed ∧
        AcceptedIn b.round x reviewed ∧ c'.session = some held ∧ held.result = some x ∧
        held.resultRound = some b.round ∧ decodeStoredResult x = .ok result ∧
        c'.sent = (Pair.after p undebated es).b.sent ++ completions p.workerKey
          (Pair.after p undebated es).b.request "" (some result.d14) now) ∧
    ∀ row x, (Pair.after p undebated es).b.session = some row → row.result = some x →
    row.resultRound = some row.round ∧ (row.round, x) ∈ submitted (Pair.after p undebated es).b.sent := by
  have inv := Pair.after_inv p undebated es
  generalize Pair.after p undebated es = s at inv ⊢
  constructor
  · intro b now c' announced accepted applied
    obtain ⟨m, sent, isState⟩ := mem_stateBodies.mp announced
    obtain ⟨row, state, opened, tuple, higher, live, done⟩ := applyState_applied applied
    have isAccepted : state = .closed .accepted := State.outcome_eq_some.mp ((outcome_of_tuple tuple).trans accepted)
    subst isAccepted
    have own : s.system.mirror.row = row.mirrored := row_worker opened
    obtain ⟨final, x, reviewed, held, ofRound⟩ :=
      inv.system.agreement (Pair.heard sent isState tuple) (by rw [own]; exact higher)
        (by rw [own]; exact live) rfl
    obtain ⟨reviewedRow, session, same⟩ := session_of_result reviewed
    rw [own] at held ofRound
    obtain ⟨heldRow, result, done⟩ := applyNewState_accepted opened held ofRound done
    have final' : reviewedRow.authorityRow.toTuple = ⟨.closed .accepted, b.seq, b.round⟩ :=
      (congrArg AuthorityRow.toTuple same).trans final
    exact ⟨x, reviewedRow, heldRow, result, session, ⟨congrArg Tuple.state final', congrArg Tuple.round final',
        (congrArg AuthorityRow.result same).trans reviewed⟩, done⟩
  · intro row x opened stored
    have own : s.system.mirror.row = row.mirrored := row_worker opened
    have held := inv.system.held x (by rw [own]; exact stored)
    rw [own] at held
    exact held

/-- A request that is accepted, answered in its first round and reviewed. -/
def reviewedRun : List PairEvent :=
  [.requester (.submit sampleTask 0 false) 0, .toWorker 0 {} 0 0, .worker .accept 0, .toRequester 0 none 0,
    .worker (.submitResult { d14 := { status := "pass" }, verification := "none" } .byAgent) 0,
    .toRequester 1 none 0, .requester .acceptResult 0]

def acceptedBody : StateBody where
  at' := 0
  request := sampleParties.id
  round := 1
  seq := 2
  session := "s-"
  state := .closed
  outcome := some .accepted
  verification := "none"

theorem reviewedRun_completes : ∃ c' x reviewed held result, applyState sampleParties.atWorker sampleParties.workerKey
        (Pair.after sampleParties () reviewedRun).b acceptedBody 0 = .ok (c', .applied) ∧
      (Pair.after sampleParties () reviewedRun).a.session = some reviewed ∧
      AcceptedIn 1 x reviewed ∧ c'.session = some held ∧ held.result = some x ∧
      held.resultRound = some 1 ∧ decodeStoredResult x = .ok result ∧
      c'.sent = (Pair.after sampleParties () reviewedRun).b.sent ++
        completions sampleParties.workerKey (Pair.after sampleParties () reviewedRun).b.request ""
          (some result.d14) 0 := by
  have announced : acceptedBody ∈ stateBodies (Pair.after sampleParties () reviewedRun).a.sent ∧
      (applyState sampleParties.atWorker sampleParties.workerKey
        (Pair.after sampleParties () reviewedRun).b acceptedBody 0).map Prod.snd = .ok .applied := by
    decide +kernel
  obtain ⟨⟨c', _⟩, ok, rfl⟩ := map_eq_ok.mp announced.2
  obtain ⟨x, reviewed, held, result, agrees⟩ :=
    (worker_completes_with_reviewed_result sampleParties () reviewedRun).1 acceptedBody 0 c' announced.1 rfl ok
  exact ⟨c', x, reviewed, held, result, ok, agrees⟩

end Agentnet
