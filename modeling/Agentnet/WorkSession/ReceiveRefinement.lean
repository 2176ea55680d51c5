import Agentnet.WorkSession.Refinement

/-! The mails of the worker at the requester's cell, as steps of the abstract
requester: the lifecycle mails with their session hooks, `ws.result` and `ws.cancel`. -/

namespace Agentnet
open Agentnet.Lib
open WorkSession WorkSession.Protocol
open Request (JsonObject)

variable {δ : Type} {arrived : Nat → JsonObject → Prop} {c c' : Cell δ} {row : Session}
  {w : Wiring δ} {k : Key} {reply : Request.Reply} {now : Time}

/-! ## The mirror of the request -/

theorem sessionEndedTx_cancelsOpen (cell : RequesterCell c) (h : sessionEndedTx w k c now = .ok c') :
    CancelsOpen c c' := by
  unfold sessionEndedTx at h
  split at h
  · next unopened =>
    cases h
    exact .of_unopened cell unopened
  · next row opened =>
    split at h
    · next notOpen =>
      cases h
      exact .of_notOpen cell opened notOpen
    · next isOpen =>
      rw [(cell.session row opened).2] at h
      exact closeSessionTx_cancelsOpen cell opened (not_not.mp isOpen) h

theorem mirrorHooks_requester {typ : Request.RequestType} {state : Request.State} (cell : RequesterCell c)
    (work : typ ≠ .debate) (h : Request.mirrorHooks w k c typ state now = .ok c') : RequesterCell c' ∧ c'.requester =
      if state = .declined ∨ state = .cancelled then c.requester.cancelOpen else c.requester := by
  have undebated : w.endDebateTx k typ now c = .ok c := if_neg work
  cases state with
  | declined =>
    rw [Request.mirrorHooks, undebated, ok_bind] at h
    have done := sessionEndedTx_cancelsOpen cell h
    exact ⟨done.cell, done.requester⟩
  | cancelled =>
    rw [Request.mirrorHooks, undebated, ok_bind] at h
    have done := sessionEndedTx_cancelsOpen cell h
    exact ⟨done.cell, done.requester⟩
  | completed =>
    rw [Request.mirrorHooks, undebated] at h
    cases h
    exact ⟨cell, rfl⟩
  | pending =>
    cases h
    exact ⟨cell, rfl⟩
  | accepted =>
    cases h
    exact ⟨cell, rfl⟩
  | deferred =>
    cases h
    exact ⟨cell, rfl⟩

variable {extra : Request.Row → Request.Row} {teamID : TeamID} {note : String}
  {result : Option Request.Result} {content : CompleteContent} {quarantined : Bool} {quarantine : Quarantine}

theorem mirrorUpdate_requester {row : Request.Row} (cell : RequesterCell c)
    (known : c.request = some row) (keeps : ∀ r, (extra r).typ = r.typ ∧ (extra r).body = r.body)
    (f : Out JsonObject → Out JsonObject) (out : ∀ r, (extra r).out = f r.out)
    (h : Request.mirrorUpdate w k c row reply extra now = .ok c') :
    RequesterCell c' ∧ c'.requester = c.requester.mirror f reply.content.state reply.seq := by
  have known' : c.requester.out = some row.out := by
    simp only [Cell.requester, known, Option.map_some]
  unfold Request.mirrorUpdate at h
  rw [Requester.mirror, known']
  split at h
  · next news =>
    have done := mirrorHooks_requester (cell.updateRequest (by exact fun _ => keeps _))
      (cell.request.typ row known) h
    refine ⟨done.1, done.2.trans ?_⟩
    have updated : ∀ g : Request.Row → Request.Row, (g row).out = f { row.out with
        state := reply.content.state, seq := reply.seq } → (c.updateRequest g).requester =
        { c.requester with out := some (f { row.out with
          state := reply.content.state, seq := reply.seq }) } := by
      intro g same
      simp only [Cell.requester, Cell.updateRequest, known, Option.map_some, same]
    simp only [show row.out.seq < reply.seq from news, if_true]
    rw [updated _ (out _)]
  · next stale =>
    cases h
    exact ⟨cell, (if_neg (show ¬row.out.seq < reply.seq from stale)).symm⟩

theorem answerCancel_requester {row : Request.Row} {final : Request.State} (cell : RequesterCell c) :
    RequesterCell (Request.answerCancel row final now c) ∧
    (Request.answerCancel row final now c).requester = c.requester := by
  unfold Request.answerCancel
  split
  · exact ⟨cell.updateRequest fun _ => ⟨rfl, rfl⟩, requester_updateRequest_keep fun _ => rfl⟩
  · exact ⟨cell, rfl⟩

/-- `applyMirror` on the record; `extra` are the columns of the kind. -/
theorem applyMirror_requester (cell : RequesterCell c) (h : Request.applyMirror w k c reply extra now = .ok c')
    (f : Out JsonObject → Out JsonObject) (out : ∀ r, (extra r).out = f r.out)
    (keeps : ∀ r, (extra r).typ = r.typ ∧ (extra r).body = r.body) :
    RequesterCell c' ∧ c'.requester = c.requester.mirror f reply.content.state reply.seq := by
  unfold Request.applyMirror at h
  split at h
  · next unknown =>
    cases h
    refine ⟨cell, ?_⟩
    simp only [Requester.mirror, Cell.requester, unknown, Option.map_none]
  · next row known =>
    rw [bind_eq_ok] at h
    obtain ⟨c₁, updated, answered⟩ := h
    obtain ⟨cell₁, same⟩ := mirrorUpdate_requester cell known keeps f out updated
    cases answered
    obtain ⟨cell₂, same₂⟩ := answerCancel_requester cell₁
    exact ⟨cell₂, same₂.trans same⟩

/-! ## Accept -/

/-- `OpenSession` keeps a session that exists. -/
theorem openSession_requester (cell : RequesterCell c) (h : openSession w k .requester c teamID now = .ok c') :
    RequesterCell c' ∧ c'.requester = { c.requester with session := some c.requester.row } := by
  rcases openSession_ok cell.request.typ h with ⟨isSome, rfl⟩ | ⟨unopened, sid, rfl⟩
  · obtain ⟨row, opened⟩ := Option.isSome_iff_exists.mp isSome
    refine ⟨cell, ?_⟩
    rw [row_requester opened, ← session_requester opened]
  · refine ⟨⟨cell.request, ?_, ?_, cell.records⟩, ?_⟩
    · rintro s ⟨⟩
      exact ⟨rfl, rfl⟩
    · rintro s b ⟨⟩ last
      cases last
    · simp only [Cell.requester, Requester.row, unopened, Option.map_none, Option.getD_none, Option.map_some]
      rfl

theorem opened_refines {out : Request.Row} (known : c.request = some out) (cell : RequesterCell c')
    (same : c'.requester = { c.requester with session := some c.requester.row }) :
    ∃ label, Refines arrived c label c' ∧ label ≠ .reopening ∧ (label = .opening → c.session = none) := by
  cases opened : c.session with
  | some row =>
    rw [row_requester opened, ← session_requester opened] at same
    exact ⟨.plain, .quiet cell same, (by simp), (by simp)⟩
  | none =>
    have unopened : c.requester.session = none := by
      simp only [Cell.requester, opened, Option.map_none]
    refine ⟨.opening, ⟨cell, ?_⟩, (by simp), fun _ => rfl⟩
    rw [same, Requester.row, unopened]
    exact .opens out.out (by simp only [Cell.requester, known, Option.map_some]) unopened

theorem request_of_out {o : Out JsonObject} (h : c.requester.out = some o) :
    ∃ out, c.request = some out ∧ out.out = o :=
  Option.map_eq_some_iff.mp h

theorem applyAccept_refines (cell : RequesterCell c) (accept : reply.content = .accept)
    (h : Request.applyAccept w k c reply now = .ok c') : ∃ label, Refines arrived c label c' ∧ label ≠ .reopening ∧
      (label = .opening → c.session = none ∧ ∃ out, c.request = some out ∧ reply.seq ≤ out.stateSeq) := by
  simp only [Request.applyAccept, bind_eq_ok] at h
  obtain ⟨_, _, c₁, mirrored, h⟩ := h
  obtain ⟨cell₁, same⟩ := applyMirror_requester cell mirrored id (fun _ => rfl) (fun _ => ⟨rfl, rfl⟩)
  rw [accept] at same
  cases known : c.request with
  | none =>
    have unknown : c₁ = c := by
      simp only [Request.applyMirror, known] at mirrored
      exact (Except.ok.inj mirrored).symm
    subst unknown
    rw [known] at h
    cases h
    exact ⟨.plain, .quiet cell rfl, (by simp), (by simp)⟩
  | some out =>
    have known' : c.requester.out = some out.out := by
      simp only [Cell.requester, known, Option.map_some]
    by_cases news : out.stateSeq < reply.seq
    · have heard := same.trans (Requester.mirror_accepted known' news)
      obtain ⟨out₁, known₁, _⟩ := request_of_out (congrArg Requester.out heard)
      rw [known₁] at h
      obtain ⟨cell₂, same₂⟩ := openSession_requester cell₁ h
      refine ⟨.plain, ⟨cell₂, ?_⟩, (by simp), (by simp)⟩
      rw [same₂, heard]
      exact .hears out.out .accepted reply.seq known' news (by simp)
    · have kept := same.trans (Requester.mirror_stale known' news)
      obtain ⟨out₁, known₁, _⟩ := request_of_out ((congrArg Requester.out kept).trans known')
      rw [known₁] at h
      obtain ⟨cell₂, same₂⟩ := openSession_requester cell₁ h
      rw [kept] at same₂
      obtain ⟨label, refines, noReopen, unopened⟩ := opened_refines known cell₂ same₂
      exact ⟨label, refines, noReopen, fun opening => ⟨unopened opening, out, rfl, not_lt.mp news⟩⟩

/-! ## Complete -/

/-- What is stored of a completion whose own content is `note` and `result`. -/
def WorkSession.CompleteContent.Stores (content : CompleteContent) (note : String)
    (result : Option Request.Result) (stored : Content JsonObject) : Prop :=
  stored.note = nullIfEmpty (if content.override then content.note else note) ∧
    Request.storedResult (if content.override then content.result else result) = .ok stored.result

/-- Dropped content leaves nothing. -/
theorem Stores.drop {stored : Content JsonObject} (h : CompleteContent.drop.Stores note result stored) :
    stored = .empty := by
  obtain ⟨note', result'⟩ := h
  cases stored with
  | mk n r =>
    cases note'
    cases result'
    rfl

/-- `EarlyComplete` on a work session: an open one closes, and the content agrees with
the session. -/
theorem earlyCompleteWork_ok (cell : RequesterCell c) (opened : c.session = some row)
    (h : earlyCompleteWork c row quarantined now = .ok (c', content)) :
    CancelsOpen c c' ∧ ∀ note result stored, content.Stores note result stored →
    c.requester.allows d14Part stored := by
  unfold Requester.allows
  rw [session_requester opened]
  unfold earlyCompleteWork at h
  split at h
  · next outcome isClosed =>
    rw [bind_eq_ok] at h
    obtain ⟨⟨viewNote, viewResult⟩, shown, done⟩ := h
    cases done
    refine ⟨.of_notOpen cell opened (by simp [isClosed]), fun note result stored stores => ?_⟩
    simp only [Session.authorityRow, isClosed]
    rw [requesterView_ok shown stores.2]
    exact congrArg some (congrArg (fun n => Content.mk n stored.result) stores.1.symm)
  · next awaiting =>
    cases h
    refine ⟨.of_notOpen cell opened (by simp [awaiting]), fun note result stored stores => ?_⟩
    simpa only [Session.authorityRow, awaiting] using Stores.drop stores
  · next quarantined =>
    cases h
    refine ⟨.of_notOpen cell opened (by simp [quarantined]), fun note result stored stores => ?_⟩
    simpa only [Session.authorityRow, quarantined] using Stores.drop stores
  · next isOpen =>
    rw [bind_eq_ok] at h
    obtain ⟨c₁, close, done⟩ := h
    cases done
    refine ⟨closeSessionTx_cancelsOpen cell opened isOpen close, fun note result stored stores => ?_⟩
    simp only [Session.authorityRow, isOpen]
    intro phase2
    rw [if_pos phase2] at stores
    obtain ⟨note', result'⟩ := stores
    cases stored with
    | mk n r =>
      cases note'
      cases result'
      rfl

theorem earlyComplete_ok (cell : RequesterCell c)
    (h : earlyComplete w k c note result quarantine now = .ok (c', content)) :
    CancelsOpen c c' ∧ ∀ note result stored, content.Stores note result stored →
    c.requester.allows d14Part stored := by
  unfold earlyComplete at h
  split at h
  · next unopened =>
    have unopened' : c.requester.session = none := by
      simp only [Cell.requester, unopened, Option.map_none]
    have same : c' = c := by
      unfold earlyCompleteNoSession at h
      split at h
      · exact (Prod.mk.inj (Except.ok.inj h)).1.symm
      · rw [bind_eq_ok] at h
        obtain ⟨_, _, done⟩ := h
        exact (Prod.mk.inj (Except.ok.inj done)).1.symm
    subst same
    refine ⟨.of_unopened cell unopened, fun _ _ _ _ => ?_⟩
    rw [Requester.allows, unopened']
    exact trivial
  · next row opened =>
    rw [(cell.session row opened).2, bind_eq_ok] at h
    obtain ⟨quarantined, _, h⟩ := h
    exact earlyCompleteWork_ok cell opened h

theorem storedOrBadBody_ok {stored : Option JsonObject}
    (h : Request.storedOrBadBody result = .ok stored) : Request.storedResult result = .ok stored := by
  unfold Request.storedOrBadBody at h
  split at h
  · next same =>
    cases h
    exact same
  · cases h

theorem applyComplete_refines {result : Option JsonObject}
    {withhold : Bool} (cell : RequesterCell c) (complete : reply.content = .complete note result)
    (h : Request.applyComplete w k c reply note result quarantine now = .ok (c', withhold)) :
    Refines arrived c .plain c' := by
  simp only [Request.applyComplete, bind_eq_ok] at h
  obtain ⟨decoded, _, ⟨c₁, content⟩, early, stored, canonical, c₂, mirrored, done⟩ := h
  cases done
  obtain ⟨cancels, allowed⟩ := earlyComplete_ok cell early
  have stores : content.Stores note decoded ⟨_, stored⟩ := ⟨rfl, storedOrBadBody_ok canonical⟩
  obtain ⟨cell₂, same⟩ := applyMirror_requester cancels.cell mirrored
    (fun o => { o with content := ⟨_, stored⟩ }) (fun _ => rfl) (fun _ => ⟨rfl, rfl⟩)
  refine ⟨cell₂, ?_⟩
  rw [complete] at same
  rw [same, Request.ReplyContent.state, Requester.mirror_completed, cancels.requester]
  exact .completes reply.seq _ (allowed note decoded _ stores)

theorem applyReply_refines (cell : RequesterCell c) (h : Request.applyReply w k c reply quarantine now = .ok c') :
    ∃ label, Refines arrived c label c' ∧ label ≠ .reopening ∧
    (label = .opening → reply.content = .accept ∧ c.session = none ∧
        ∃ out, c.request = some out ∧ reply.seq ≤ out.stateSeq) := by
  unfold Request.applyReply at h
  split at h
  · next accept =>
    obtain ⟨label, refines, noReopen, stale⟩ := applyAccept_refines cell accept h
    exact ⟨label, refines, noReopen, fun opening => ⟨accept, stale opening⟩⟩
  · next code reason declines =>
    simp only [Request.applyDecline, bind_eq_ok] at h
    obtain ⟨_, _, _, _, mirrored⟩ := h
    obtain ⟨cell₁, same⟩ := applyMirror_requester cell mirrored id (fun _ => rfl) (fun _ => ⟨rfl, rfl⟩)
    rw [declines] at same
    exact ⟨.plain, ⟨cell₁, same ▸ Requester.mirror_step _ (by rintro ⟨⟩) (by rintro ⟨⟩)⟩,
      (by rintro ⟨⟩), (by rintro ⟨⟩)⟩
  · next until' defers =>
    simp only [Request.applyDefer, bind_eq_ok] at h
    obtain ⟨_, _, _, _, _, _, mirrored⟩ := h
    obtain ⟨cell₁, same⟩ := applyMirror_requester cell mirrored id (fun _ => rfl) (fun _ => ⟨rfl, rfl⟩)
    rw [defers] at same
    exact ⟨.plain, ⟨cell₁, same ▸ Requester.mirror_step _ (by rintro ⟨⟩) (by rintro ⟨⟩)⟩,
      (by rintro ⟨⟩), (by rintro ⟨⟩)⟩
  · next note result completes =>
    rw [bind_eq_ok] at h
    obtain ⟨⟨c₁, withhold⟩, applied, done⟩ := h
    cases done
    exact ⟨.plain, applyComplete_refines cell completes applied, (by simp), (by simp)⟩
  · next cancels =>
    simp only [Request.applyCancelled, bind_eq_ok] at h
    obtain ⟨_, _, mirrored⟩ := h
    obtain ⟨cell₁, same⟩ := applyMirror_requester cell mirrored id (fun _ => rfl) (fun _ => ⟨rfl, rfl⟩)
    rw [cancels] at same
    exact ⟨.plain, ⟨cell₁, same ▸ Requester.mirror_step _ (by rintro ⟨⟩) (by rintro ⟨⟩)⟩,
      (by rintro ⟨⟩), (by rintro ⟨⟩)⟩

/-! ## `ws.result` and `ws.cancel` -/

theorem findOrCreate_spec (cell : RequesterCell c) (h : findOrCreate w k c teamID now = (c', row)) :
    RequesterCell c' ∧ c'.session = some row ∧ row.authorityRow = c.requester.row ∧
      c'.requester = { c.requester with session := some c.requester.row } := by
  unfold findOrCreate at h
  split at h
  · next row₀ opened =>
    cases h
    refine ⟨cell, opened, (row_requester opened).symm, ?_⟩
    rw [row_requester opened, ← session_requester opened]
  · next unopened =>
    cases h
    have initial : c.requester.row = ⟨.initial, none⟩ := by
      simp only [Requester.row, Cell.requester, unopened, Option.map_none, Option.getD_none]
    refine ⟨⟨cell.request, ?_, ?_, cell.records⟩, rfl, initial.symm, ?_⟩
    · rintro s ⟨⟩
      exact ⟨rfl, rfl⟩
    · rintro s b ⟨⟩ last
      cases last
    · rw [initial]
      rfl

theorem storeResult_moved {round : Nat} {result : WorkSession.Result} (opened : c.session = some row)
    (h : storeResult c row round result quarantined now = .ok c') :
    ∃ row', MovedTo c row' c' ∧ row'.role = row.role ∧ row'.kind = row.kind ∧
      row'.authorityRow = ⟨⟨if quarantined then .quarantined else .awaitingResult, row.seq + 1,
        row.round⟩, some (resultCanonicalValue result)⟩ := by
  simp only [storeResult, bind_eq_ok] at h
  obtain ⟨_, _, done⟩ := h
  cases done
  exact ⟨_, sendState_moved opened (by exact fun _ => rfl) (tuple_stateBody ..), rfl, rfl, rfl⟩

theorem applyResult_refines {b : ResultBody} {outcome : ResultOutcome} (cell : RequesterCell c)
    (came : ∀ result, checkResultBody w k b = .ok result → arrived b.round (resultCanonicalValue result))
    (h : applyResult w k c b quarantine now = .ok (c', outcome)) :
    ∃ label, Refines arrived c label c' ∧ label ≠ .reopening ∧
      (label = .opening → ∃ out, c.request = some out ∧ out.state.ended = false) := by
  simp only [applyResult, bind_eq_ok] at h
  obtain ⟨result, checked, h⟩ := h
  split at h
  · cases h
    exact ⟨.plain, .quiet cell rfl, (by simp), (by simp)⟩
  · next out known =>
    split at h
    · cases h
      exact ⟨.plain, .quiet cell rfl, (by simp), (by simp)⟩
    split at h
    · cases h
      exact ⟨.plain, .quiet cell rfl, (by simp), (by simp)⟩
    next live =>
    have live' : out.state.ended = false := by simpa using live
    rcases created : findOrCreate w k c out.teamID now with ⟨c₁, row⟩
    obtain ⟨cell₁, opened, own, same⟩ := findOrCreate_spec cell created
    have onlyOpened : ∃ label, Refines arrived c label c₁ ∧ label ≠ .reopening ∧
        (label = .opening → ∃ out, c.request = some out ∧ out.state.ended = false) := by
      obtain ⟨label, refines, noReopen, _⟩ := opened_refines known cell₁ same
      exact ⟨label, refines, noReopen, fun _ => ⟨out, known, live'⟩⟩
    rw [created] at h
    dsimp only at h
    split at h
    · cases h
      exact onlyOpened
    next isOpen =>
    split at h
    · cases h
      exact onlyOpened
    next inRound =>
    rw [bind_eq_ok] at h
    obtain ⟨quarantined, _, h⟩ := h
    rw [bind_eq_ok] at h
    obtain ⟨c₂, stored, done⟩ := h
    cases done
    obtain ⟨row', moved, role, work, review⟩ := storeResult_moved opened stored
    obtain ⟨role₀, work₀⟩ := cell₁.session row opened
    have state' : row'.state = if quarantined then .quarantined else .awaitingResult :=
      congrArg (fun r => r.state) review
    have came' : arrived row.round (resultCanonicalValue result) := not_not.mp inRound ▸ came result checked
    refine ⟨.plain, ⟨moved.requesterCell cell₁ (role.trans role₀) (work.trans work₀), ?_⟩, (by simp), (by simp)⟩
    rw [moved.requester (by rw [state']; cases quarantined <;> rfl), same, review]
    have step : c.requester.Step d14Part arrived .plain _ :=
      .reviews out.out (resultCanonicalValue result) (if quarantined then .quarantined else .awaitingResult)
        (by simp only [Cell.requester, known, Option.map_some]) live'
        (by rw [← own]; exact not_not.mp isOpen)
        (by rw [← own]; exact came')
        (by cases quarantined <;> rfl)
    rw [← own] at step
    exact step

theorem applyCancel_refines {b : WorkSession.CancelBody} {outcome : WorkSession.CancelOutcome × Bool}
    (cell : RequesterCell c) (h : WorkSession.applyCancel w k c b quarantine now = .ok (c', outcome)) :
    Refines arrived c .plain c' := by
  simp only [WorkSession.applyCancel, bind_eq_ok] at h
  obtain ⟨_, _, withhold, _, h⟩ := h
  split at h
  · cases h
    exact .quiet cell rfl
  · next row opened =>
    split at h
    · cases h
      exact .quiet cell rfl
    · next isOpen =>
      rw [(cell.session row opened).2, bind_eq_ok] at h
      obtain ⟨c₁, close, done⟩ := h
      cases done
      exact (closeSessionTx_cancelsOpen cell opened (not_not.mp isOpen) close).refines

/-! ## Every event -/

/-- An accept that the record has already overtaken reaches a request without session. -/
def staleAccept (c : Cell δ) : RequesterEvent → Bool
  | .op _ _ => false
  | .mail m _ _ =>
    match m.body, c.session, c.request with
    | .reply reply, none, some out => reply.content.state == .accepted && decide (reply.seq ≤ out.stateSeq)
    | _, _, _ => false

/-- Which event a label of the protocol stands for. -/
structure Labels (c : Cell δ) (e : RequesterEvent) (label : Requester.Label) : Prop where
  reopening : label = .reopening → ∃ changes now, e = .op (.requestChanges changes) now
  opening : label = .opening → (∃ out, c.request = some out ∧ out.state.ended = false) ∨ staleAccept c e

theorem Labels.plain (c : Cell δ) (e : RequesterEvent) : Labels c e .plain := ⟨(by simp), (by simp)⟩

theorem receiveAtRequester_refines {m : Mail} (cell : RequesterCell c)
    (came : ∀ b result, m.body = .result b → checkResultBody w k b = .ok result →
      arrived b.round (resultCanonicalValue result)) (h : receiveAtRequester w k c m.body quarantine now = .ok c') :
    ∃ label, Refines arrived c label c' ∧ Labels c (.mail m quarantine now) label := by
  unfold receiveAtRequester at h
  split at h
  · next b isResult =>
    rw [bind_eq_ok] at h
    obtain ⟨⟨c₁, outcome⟩, applied, done⟩ := h
    cases done
    obtain ⟨label, refines, noReopen, live⟩ := applyResult_refines cell (came b · isResult) applied
    exact ⟨label, refines, fun h => absurd h noReopen, fun opening => .inl (live opening)⟩
  · next b isCancel =>
    rw [bind_eq_ok] at h
    obtain ⟨⟨c₁, outcome⟩, applied, done⟩ := h
    cases done
    exact ⟨.plain, applyCancel_refines cell applied, .plain ..⟩
  · next reply isReply =>
    obtain ⟨label, refines, noReopen, stale⟩ := applyReply_refines cell h
    refine ⟨label, refines, fun h => absurd h noReopen, fun opening => .inr ?_⟩
    obtain ⟨accept, unopened, out, known, old⟩ := stale opening
    simp only [staleAccept, isReply, unopened, known, accept]
    exact decide_eq_true old
  · cases h
    exact ⟨.plain, .quiet cell rfl, .plain ..⟩

theorem requesterStep_refines {e : RequesterEvent} (cell : RequesterCell c)
    (came : ∀ m quarantine now b result, e = .mail m quarantine now → m.body = .result b →
      checkResultBody w k b = .ok result → arrived b.round (resultCanonicalValue result)) :
    ∃ label, Refines arrived c label (requesterStep w k c e) ∧ Labels c e label := by
  have stays : ∃ label, Refines arrived c label c ∧ Labels c e label := ⟨.plain, .quiet cell rfl, .plain ..⟩
  cases e with
  | op op now =>
    simp only [requesterStep]
    cases ran : op.run w k c now with
    | error e => exact stays
    | ok c' =>
      obtain ⟨label, refines, noOpen, reopens⟩ := op.refines cell ran
      refine ⟨label, refines, fun h => ?_, fun h => absurd h noOpen⟩
      obtain ⟨changes, rfl⟩ := reopens h
      exact ⟨changes, now, rfl⟩
  | mail m quarantine now =>
    simp only [requesterStep]
    split
    · cases ran : receiveAtRequester w k c m.body quarantine now with
      | error e => exact stays
      | ok c' =>
        exact receiveAtRequester_refines cell (fun b result => came m quarantine now b result rfl) ran
    · exact stays

theorem RequesterCell.blank (undebated : δ) : RequesterCell ({ debate := undebated } : Cell δ) where
  request := ⟨by simp, by simp, by simp⟩
  session := by simp
  echo := by simp
  records := rfl

end Agentnet
