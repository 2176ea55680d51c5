import Mathlib.Data.Option.Basic
import Agentnet.Machine

/-! What an event of the recipient does to its request row, debates included: the row is
stored once, by a received request, and moves until it is over. -/

namespace Agentnet
open Agentnet.Lib
open WorkSession

variable {δ : Type}

/-- The clock of the event. -/
def WorkerEvent.time : WorkerEvent → Time
  | .op _ now => now
  | .mail _ _ _ now => now

namespace Request

/-- The columns of an `in` row that are written once, when it is stored. -/
structure Origin where
  teamID : TeamID
  typ : RequestType
  urgency : Urgency
  urgencyDeclared : Urgency
  downgradedBy : Option DowngradedBy
  bodyHash : String
  created : WireTime
  receivedAt : Option StoreTime
  introducer : Option PeerKey
  introducedAt : Option StoreTime
  deriving DecidableEq

def Row.origin (r : Row) : Origin where
  teamID := r.teamID
  typ := r.typ
  urgency := r.urgency
  urgencyDeclared := r.urgencyDeclared
  downgradedBy := r.downgradedBy
  bodyHash := r.bodyHash
  created := r.created
  receivedAt := r.receivedAt
  introducer := r.introducer
  introducedAt := r.introducedAt

/-- A later version of the row: it keeps its origin, and its state once it is over; only
the user declines it later. -/
structure Row.Moves (r r' : Row) : Prop where
  origin : r'.origin = r.origin
  ended : r.state.ended = true → r'.state = r.state
  code : r'.declineCode = r.declineCode ∨ r'.declineCode = some .user

namespace Row.Moves

variable {r r' r'' : Row}

theorem refl (r : Row) : r.Moves r := ⟨rfl, fun _ => rfl, .inl rfl⟩

theorem trans (first : r.Moves r') (second : r'.Moves r'') : r.Moves r'' where
  origin := second.origin.trans first.origin
  ended := fun finished => by
    have same := first.ended finished
    rw [second.ended (by rw [same]; exact finished), same]
  code := by
    rcases second.code with same | user
    · rw [same]
      exact first.code
    · exact .inr user

theorem of_live (live : r.state.ended = false) (origin : r'.origin = r.origin)
    (code : r'.declineCode = r.declineCode) : r.Moves r' :=
  ⟨origin, fun finished => (by cases live.symm.trans finished), .inl code⟩

theorem typ (moves : r.Moves r') : r'.typ = r.typ := congrArg Origin.typ moves.origin

theorem isOpen (moves : r.Moves r') (isOpen : r'.state.isOpen = true) : r.state.isOpen = true := by
  by_contra finished
  have ended : r.state.ended = true := by
    revert finished
    cases r.state <;> decide
  rw [moves.ended ended] at isOpen
  exact finished isOpen

end Row.Moves

end Request

open Request (Row)

/-- The request row moves, none is stored, and the tombstone stays. -/
structure Cell.Moves (c c' : Cell δ) : Prop where
  row : Option.Rel Row.Moves c.request c'.request
  tombstone : c'.tombstone = c.tombstone

namespace Cell.Moves

variable {c c' c'' : Cell δ}

theorem of_same (same : c'.request = c.request) (tombstone : c'.tombstone = c.tombstone) : c.Moves c' := by
  refine ⟨?_, tombstone⟩
  rw [same]
  cases c.request with
  | none => exact .none
  | some r => exact .some (.refl r)

theorem refl (c : Cell δ) : c.Moves c := of_same rfl rfl

theorem trans (first : c.Moves c') (second : c'.Moves c'') : c.Moves c'' := by
  refine ⟨?_, second.tombstone.trans first.tombstone⟩
  obtain ⟨first, _⟩ := first
  obtain ⟨second, _⟩ := second
  generalize c.request = r at *
  generalize c'.request = r' at *
  generalize c''.request = r'' at *
  cases first with
  | none => exact second
  | some moves =>
    cases second with
    | some moves' => exact .some (moves.trans moves')

theorem reply {f : Row → Row} {r : Row} (known : c.request = some r) (moves : r.Moves (f r))
    (now : Time) (body : MailBody) : c.Moves ((c.updateRequest f).submitTx now body) := by
  refine ⟨?_, rfl⟩
  rw [Cell.submitTx, Cell.updateRequest, known, Option.map_some]
  exact .some moves

/-- A request that is known stays known, and its row only moves. -/
theorem later (moves : c.Moves c') {r : Row} (known : c.request = some r) :
    ∃ r', c'.request = some r' ∧ r.Moves r' := by
  have row := moves.row
  rw [known] at row
  cases known' : c'.request with
  | none =>
    rw [known'] at row
    cases row
  | some r' =>
    rw [known'] at row
    exact ⟨r', rfl, Option.rel_some_some.mp row⟩

theorem unknown (moves : c.Moves c') (unknown : c.request = none) : c'.request = none := by
  have row := moves.row
  rw [unknown] at row
  cases known : c'.request with
  | none => rfl
  | some r =>
    rw [known] at row
    cases row

end Cell.Moves

/-- The hooks that the recipient calls complete or keep the request, as other
transactions do. -/
structure DebateHooks.KeepRows (h : DebateHooks δ) : Prop where
  openedTx : ∀ {role k now} {c c' : Cell δ}, h.openedTx role k now c = .ok c' → c.Moves c'
  abandonTx : ∀ {k now} {c c' : Cell δ}, h.abandonTx k now c = .ok c' → c.Moves c'
  receivedTx : ∀ {k body now} {c c' : Cell δ}, h.receivedTx k body now c = .ok c' → c.Moves c'
  endedTx : ∀ {k now} {c c' : Cell δ}, h.endedTx k now c = .ok c' → c.Moves c'

theorem DebateHooks.undebated_keepRows : DebateHooks.undebated.KeepRows where
  openedTx := by
    rintro _ _ _ c _ ⟨⟩
    exact .refl c
  abandonTx := by
    rintro _ _ c _ ⟨⟩
    exact .refl c
  receivedTx := by
    rintro _ _ _ c _ ⟨⟩
    exact .refl c
  endedTx := by
    rintro _ _ c _ ⟨⟩
    exact .refl c

variable {w : Wiring δ} {k : Key} {c c' : Cell δ} {now : Time}

theorem endDebateTx_moves (hooks : w.debates.KeepRows) {typ : Request.RequestType}
    (h : w.endDebateTx k typ now c = .ok c') : c.Moves c' := by
  unfold Wiring.endDebateTx at h
  split at h
  · exact hooks.endedTx h
  · cases h
    exact .refl c

theorem openSession_moves (hooks : w.debates.KeepRows) {role : Role} {teamID : TeamID}
    (h : openSession w k role c teamID now = .ok c') : c.Moves c' := by
  simp only [openSession] at h
  split at h
  · exact (Cell.Moves.of_same (by split <;> rfl) (by split <;> rfl)).trans (hooks.openedTx h)
  · cases h
    exact .of_same (by split <;> rfl) (by split <;> rfl)

/-! ## The recipient's transitions -/

theorem transitionRow_moves {tb : Request.TransitionBuild} {reply : Request.Reply} {r : Row}
    (live : r.state.ended = false) (extra : ∀ r : Row, r.Moves (tb.extra r)) :
    r.Moves (Request.transitionRow tb reply now r) := by
  have answered : r.Moves { r with
      state := tb.content.state, stateSeq := reply.seq, stateAt := some (wireTime now)
      lastReply := some reply, lastReplySent := some (storeTime now), updated := storeTime now } :=
    .of_live live rfl rfl
  have moved := answered.trans (extra _)
  unfold Request.transitionRow
  dsimp only
  split
  · exact moved.trans ⟨rfl, fun _ => rfl, .inl rfl⟩
  · exact moved

theorem transitionTx_moves {allowed : Request.State → Bool}
    {build : Row → Nat → Except Error Request.TransitionBuild} (hooks : w.debates.KeepRows)
    (live : ∀ s, allowed s = true → s.ended = false)
    (extra : ∀ r seq tb, build r seq = .ok tb → ∀ r : Row, r.Moves (tb.extra r))
    (h : Request.transitionTx w k c allowed build now = .ok c') : c.Moves c' := by
  simp only [Request.transitionTx, bind_eq_ok, require_eq_ok, Request.findInRow_eq_ok] at h
  obtain ⟨r, known, _, ok, tb, built, h⟩ := h
  have moved : c.Moves (Request.transitioned k c r tb now) :=
    .reply known (transitionRow_moves (live _ ok) (extra r _ tb built)) now _
  split at h
  · exact moved.trans (endDebateTx_moves hooks h)
  · exact moved.trans (openSession_moves hooks h)
  · cases h
    exact moved

theorem live_of_waiting (s : Request.State) (h : Request.allowedAcceptDeclineDefer s = true) : s.ended = false := by
  cases s <;> first | rfl | cases h

theorem live_of_accepted (s : Request.State) (h : Request.allowedComplete s = true) : s.ended = false := by
  cases s <;> first | rfl | cases h

theorem acceptInTx_moves {onlyType : Option Request.RequestType} (hooks : w.debates.KeepRows)
    (h : Request.acceptInTx w k c onlyType now = .ok c') : c.Moves c' := by
  refine transitionTx_moves hooks live_of_waiting (fun r seq tb built => ?_) h
  rw [bind_eq_ok] at built
  obtain ⟨_, _, done⟩ := built
  cases done
  exact fun _ => ⟨rfl, fun _ => rfl, .inl rfl⟩

variable {note : String} {result : Option Request.Result} {found : Bool} {submitter : Submitter}
  {created : WireTime} {tombstones : Nat} {i : Request.Intake} {e : WorkerEvent}

theorem completeInTx_moves (h : Request.completeInTx k c note result now = .ok c') : c.Moves c' := by
  obtain ⟨r, stored, known, accepted, _, rfl⟩ := Request.completeInTx_ok h
  exact .reply known (.of_live (by rw [accepted]; rfl) rfl rfl) now _

theorem completeOnClose_moves (h : completeOnClose k c note result now = .ok c') : c.Moves c' := by
  unfold completeOnClose at h
  split at h
  · next done completed =>
    cases h
    exact completeInTx_moves completed
  · cases h
    exact .refl c
  · cases h

/-! ## The worker's side of the session -/

theorem submitResultTx_moves {result : WorkSession.Result}
    (h : submitResultTx c result submitter now = .ok (c', found)) : c.Moves c' := by
  unfold submitResultTx at h
  split at h
  · cases h
    exact .refl c
  · simp only [submitResultRow, bind_eq_ok] at h
    obtain ⟨_, ⟨_, _, _, _, _, _, _, _, _, _, _, _, _, _, done⟩, done'⟩ := h
    cases done
    cases done'
    exact .of_same rfl rfl

theorem submitResult_moves {result : WorkSession.Result}
    (h : submitResult c result submitter now = .ok (c', found)) : c.Moves c' := by
  simp only [submitResult, bind_eq_ok] at h
  obtain ⟨_, _, h⟩ := h
  exact submitResultTx_moves h

theorem writeExperienceTx_moves {f : Session → Session} {row : Session} {outcome : Outcome} {verification : String}
    {by' : Option Role} {cancelledBy : Option CancelledBy}
    (h : writeExperienceTx (c.updateSession f).revokeGrants row outcome verification by' cancelledBy now = .ok c') :
    c.Moves c' := by
  simp only [writeExperienceTx, Cell.insertExperience, bind_eq_ok] at h
  obtain ⟨_, _, done⟩ := h
  cases done
  exact .of_same rfl rfl

theorem submitCancel_moves {reason : String} (hooks : w.debates.KeepRows)
    (h : submitCancel w k c reason submitter now = .ok c') :
    c.Moves c' := by
  simp only [submitCancel, bind_eq_ok] at h
  obtain ⟨_, _, row, _, _, _, _, _, _, _, h⟩ := h
  split at h
  · exact (Cell.Moves.of_same (by split <;> rfl) (by split <;> rfl)).trans (hooks.abandonTx h)
  · cases h
    exact .of_same (by split <;> rfl) (by split <;> rfl)

theorem checkPhase1Fallback_moves {unsupported : Bool} (h : checkPhase1Fallback k c unsupported now = .ok c') :
    c.Moves c' := by
  unfold checkPhase1Fallback at h
  split at h
  · cases h
    exact .refl c
  split at h
  · cases h
    exact .refl c
  simp only [bind_eq_ok] at h
  obtain ⟨c₁, recorded, _, _, completed⟩ := h
  exact (writeExperienceTx_moves recorded).trans (completeInTx_moves completed)

theorem applyState_moves {b : StateBody} {outcome : StateOutcome} (h : applyState w k c b now = .ok (c', outcome)) :
    c.Moves c' := by
  simp only [applyState, bind_eq_ok] at h
  obtain ⟨state, _, h⟩ := h
  split at h
  · cases h
    exact .refl c
  split at h
  · cases h
    exact .refl c
  split at h
  · split at h <;> cases h
    · exact .of_same rfl rfl
    · exact .refl c
  split at h
  · cases h
    exact .refl c
  rw [bind_eq_ok] at h
  obtain ⟨c₁, applied, done⟩ := h
  cases done
  unfold applyNewState at applied
  dsimp only at applied
  split at applied
  · simp only [closeMirror, bind_eq_ok] at applied
    obtain ⟨c₂, recorded, _, _, completed⟩ := applied
    exact (writeExperienceTx_moves recorded).trans (completeOnClose_moves completed)
  · split at applied <;> cases applied <;> exact .of_same rfl rfl
  · cases applied
    exact .of_same rfl rfl

/-- What a cancel that overtook its request does to the tombstone, and the prune. -/
inductive Cell.Buries (c : Cell δ) (now : Time) (c' : Cell δ) : Prop where
  | prunes (request : c'.request = c.request)
      (tombstone : c'.tombstone = (Request.pruneTombstone now c).tombstone)
  | early (unknown : c.request = none) (request : c'.request = none) (t : Tombstone)
      (tombstone : c'.tombstone = some t) (received : t.receivedAt = storeTime now)

theorem applyCancel_moves {b : Request.CancelBody} {outcome : Request.CancelOutcome} (hooks : w.debates.KeepRows)
    (h : Request.applyCancel w k c created b tombstones now = .ok (c', outcome)) : c.Moves c' ∨ c.Buries now c' := by
  simp only [Request.applyCancel, bind_eq_ok] at h
  obtain ⟨_, _, h⟩ := h
  split at h
  · next unknown =>
    refine .inr ?_
    unfold Request.applyEarlyCancel at h
    dsimp only at h
    split at h
    · cases h
      exact .prunes rfl rfl
    · cases h
      exact .early unknown unknown _ rfl rfl
  next row known =>
  refine .inl ?_
  split at h
  · cases h
    exact .refl c
  split at h
  · cases h
    exact .refl c
  next waits =>
  rw [bind_eq_ok] at h
  obtain ⟨c₁, ended, done⟩ := h
  cases done
  have live := live_of_waiting _ (not_not.mp waits)
  exact (Cell.Moves.reply known (.of_live live rfl rfl) now _).trans (endDebateTx_moves hooks ended)

theorem resubmitStale_moves : c.Moves (Request.resubmitStale c now) := by
  unfold Request.resubmitStale
  split
  · exact .refl c
  next row known =>
  split
  · exact .refl c
  · exact .refl c
  split
  · exact .refl c
  · exact .reply known ⟨rfl, fun _ => rfl, .inl rfl⟩ now _

/-! ## The one way a row is stored -/

/-- How a received request is stored: what the tombstone, the age and the open caps
allowed. -/
inductive Request.Stores (c : Cell δ) (r : Request.Body) (hash : String) (i : Request.Intake)
    (now : Time) (row : Row) : Request.ReceiveOutcome → Prop where
  | cancelled (t : Tombstone) (buried : c.tombstone = some t) (state : row.state = .cancelled)
      (origin : row.origin = (Request.inRow r hash i now).origin) :
      Stores c r hash i now row .cancelled
  | declined (code : Request.DeclineCode) (unburied : c.tombstone = none)
      (young : now - parseWireTime r.created ≤ Request.maxAge) (state : row.state = .declined)
      (origin : row.origin = (Request.inRow r hash i now).origin) :
      Stores c r hash i now row (.declined code)
  | pending (accepted : Bool) (unburied : c.tombstone = none)
      (young : now - parseWireTime r.created ≤ Request.maxAge)
      (room : i.openCapReached now = false) (moves : (Request.pendingRow r hash i now).Moves row) :
      Stores c r hash i now row (.stored accepted)

namespace Request.Stores

variable {r : Request.Body} {hash : String} {i : Request.Intake} {row : Row}
  {outcome : Request.ReceiveOutcome}

theorem origin (stores : Request.Stores c r hash i now row outcome) :
    row.typ = r.type ∧ row.receivedAt = some (storeTime now) ∧
      row.introducer = i.introduction.map Request.Introduction.by' ∧
      row.introducedAt = i.introduction.map Request.Introduction.at' := by
  have read {origin : Request.Origin} (same : row.origin = origin) :
      row.typ = origin.typ ∧ row.receivedAt = origin.receivedAt ∧
        row.introducer = origin.introducer ∧ row.introducedAt = origin.introducedAt := by
    subst same
    exact ⟨rfl, rfl, rfl, rfl⟩
  cases stores with
  | cancelled t buried state origin => exact read origin
  | declined code unburied young state origin => exact read origin
  | pending accepted unburied young room moves => exact read moves.origin

theorem room (stores : Request.Stores c r hash i now row outcome) (isOpen : row.state.isOpen = true) :
    i.openCapReached now = false := by
  cases stores with
  | cancelled t buried state origin =>
    rw [state] at isOpen
    cases isOpen
  | declined code unburied young state origin =>
    rw [state] at isOpen
    cases isOpen
  | pending accepted unburied young room moves => exact room

end Request.Stores

/-- The request `r` passes its checks and the daily caps, and is stored. -/
structure Request.StoredAt (w : Wiring δ) (k : Key) (c : Cell δ) (created : WireTime)
    (r : Request.Body) (i : Request.Intake) (now : Time) (c' : Cell δ)
    (outcome : Request.ReceiveOutcome) : Prop where
  unknown : c.request = none
  daily : i.checkDailyCaps now = .ok ()
  stored : ∃ hash row, Request.checkRequest w k created r = .ok hash ∧ c'.request = some row ∧
    Request.Stores c r hash i now row outcome

/-- `apply` keeps a row that exists, and stores at most one. -/
theorem apply_stores {r : Request.Body} {outcome : Request.ReceiveOutcome} (hooks : w.debates.KeepRows)
    (h : Request.apply w k c created r i now = .ok (c', outcome)) : (∃ row, c.request = some row) ∧ c' = c ∨
      Request.StoredAt w k c created r i now c' outcome := by
  simp only [Request.apply, bind_eq_ok] at h
  obtain ⟨hash, checked, h⟩ := h
  split at h
  · next row known =>
    cases h
    exact .inl ⟨⟨row, known⟩, rfl⟩
  next unknown =>
  simp only [Request.applyNew, bind_eq_ok] at h
  obtain ⟨_, _, _, _, _, daily, h⟩ := h
  suffices ∃ row, c'.request = some row ∧ Request.Stores c r hash i now row outcome by
    obtain ⟨row, known, stores⟩ := this
    exact .inr ⟨unknown, daily, hash, row, checked, known, stores⟩
  split at h
  · next t buried =>
    cases h
    exact ⟨_, rfl, .cancelled t buried rfl rfl⟩
  next unburied =>
  simp only [bind_eq_ok, require_eq_ok] at h
  obtain ⟨_, young, h⟩ := h
  split at h
  · cases h
    exact ⟨_, rfl, .declined _ unburied young rfl rfl⟩
  next accepted =>
  have room : i.openCapReached now = false := by
    unfold Request.Intake.declineCode at accepted
    split at accepted
    · cases accepted
    · simpa using accepted
  have stored (c₁ : Cell δ) (auto : Bool)
      (moves : Cell.Moves { c with request := some (Request.pendingRow r hash i now) } c₁) :
      ∃ row, c₁.request = some row ∧ Request.Stores c r hash i now row (.stored auto) := by
    obtain ⟨row, known, moves⟩ := moves.later rfl
    exact ⟨row, known, .pending auto unburied young room moves⟩
  unfold Request.storePending at h
  dsimp only at h
  split at h
  · rw [bind_eq_ok] at h
    obtain ⟨c₁, received, done⟩ := h
    cases done
    exact stored c' false (hooks.receivedTx received)
  split at h
  · rw [bind_eq_ok] at h
    obtain ⟨c₁, accepted, done⟩ := h
    cases done
    exact stored _ true ((acceptInTx_moves hooks accepted).trans (.of_same rfl rfl))
  · cases h
    exact stored _ false (.refl _)

/-! ## Every event -/

theorem WorkerOp.moves {op : WorkerOp} (hooks : w.debates.KeepRows) (h : op.run w k c now = .ok c') :
    c.Moves c' ∨ c.Buries now c' := by
  by_cases prunes : op = .pruneTombstones
  · subst prunes
    cases h
    exact .inr (.prunes rfl rfl)
  refine .inl ?_
  cases op with
  | accept =>
    simp only [WorkerOp.run, Request.accept] at h
    refine transitionTx_moves hooks live_of_waiting ?_ h
    rintro r seq tb ⟨⟩
    exact fun _ => ⟨rfl, fun _ => rfl, .inl rfl⟩
  | acceptInTx onlyType runner =>
    simp only [WorkerOp.run, bind_eq_ok] at h
    obtain ⟨c₁, accepted, done⟩ := h
    cases done
    refine (acceptInTx_moves hooks accepted).trans ?_
    split
    · exact .of_same rfl rfl
    · exact .refl c₁
  | decline reason =>
    simp only [WorkerOp.run, Request.decline, bind_eq_ok] at h
    obtain ⟨_, _, h⟩ := h
    refine transitionTx_moves hooks live_of_waiting ?_ h
    rintro r seq tb ⟨⟩
    exact fun _ => ⟨rfl, fun _ => rfl, .inr rfl⟩
  | defer until' =>
    simp only [WorkerOp.run, Request.defer] at h
    refine transitionTx_moves hooks live_of_waiting (fun r seq tb built => ?_) h
    simp only [bind_eq_ok] at built
    obtain ⟨_, _, _, _, done⟩ := built
    cases done
    exact fun _ => ⟨rfl, fun _ => rfl, .inl rfl⟩
  | completeShorthand note result =>
    simp only [WorkerOp.run, bind_eq_ok] at h
    obtain ⟨_, _, ⟨c₁, found⟩, submitted, done⟩ := h
    cases done
    exact submitResult_moves submitted
  | completeTx note result =>
    simp only [WorkerOp.run, Request.completeTx, bind_eq_ok] at h
    obtain ⟨_, _, _, _, h⟩ := h
    refine transitionTx_moves hooks live_of_accepted (fun r seq tb built => ?_) h
    simp only [bind_eq_ok] at built
    obtain ⟨_, _, done⟩ := built
    cases done
    exact fun _ => ⟨rfl, fun _ => rfl, .inl rfl⟩
  | answerQuestion result =>
    simp only [WorkerOp.run, WorkSession.answerQuestion, bind_eq_ok] at h
    obtain ⟨_, _, c₁, accepted, ⟨c₂, found⟩, submitted, _, _, done⟩ := h
    cases done
    exact (acceptInTx_moves hooks accepted).trans (submitResultTx_moves submitted)
  | submitResult result submitter =>
    simp only [WorkerOp.run, bind_eq_ok] at h
    obtain ⟨⟨c₁, found⟩, submitted, done⟩ := h
    cases done
    exact submitResult_moves submitted
  | submitCancel reason submitter => exact submitCancel_moves hooks h
  | checkPhase1Fallback unsupported => exact checkPhase1Fallback_moves h
  | resubmitStale =>
    cases h
    exact resubmitStale_moves
  | pruneTombstones => exact absurd rfl prunes
  | grants gs =>
    cases h
    exact .of_same rfl rfl

/-- What an event does to the row and the tombstone of the recipient. -/
inductive Request.RowStep (w : Wiring δ) (k : Key) (c : Cell δ) (e : WorkerEvent) (c' : Cell δ) :
    Prop where
  | moves (moves : c.Moves c')
  | buries (buries : c.Buries e.time c')
  | stores (m : Mail) (r : Request.Body) (i : Request.Intake) (tombstones : Nat) (now : Time)
      (outcome : Request.ReceiveOutcome) (event : e = .mail m i tombstones now)
      (carried : m.body = .request r)
      (applied : Request.apply w k c m.created r i now = .ok (c', outcome))
      (stored : Request.StoredAt w k c m.created r i now c' outcome)

theorem receiveAtWorker_rowStep {m : Mail} (hooks : w.debates.KeepRows)
    (h : receiveAtWorker w k c m i tombstones now = .ok c') :
    Request.RowStep w k c (.mail m i tombstones now) c' := by
  unfold receiveAtWorker at h
  split at h
  · next r carried =>
    rw [bind_eq_ok] at h
    obtain ⟨⟨c₁, outcome⟩, applied, done⟩ := h
    cases done
    rcases apply_stores hooks applied with ⟨_, same⟩ | stored
    · exact .moves (same ▸ .refl c)
    · exact .stores m r i tombstones now outcome rfl carried applied stored
  · rw [bind_eq_ok] at h
    obtain ⟨⟨c₁, outcome⟩, applied, done⟩ := h
    cases done
    exact (applyCancel_moves hooks applied).elim .moves fun buries => .buries buries
  · rw [bind_eq_ok] at h
    obtain ⟨⟨c₁, outcome⟩, applied, done⟩ := h
    cases done
    exact .moves (applyState_moves applied)
  · cases h
    exact .moves (.refl c)

theorem workerStep_rowStep (hooks : w.debates.KeepRows) (e : WorkerEvent) :
    Request.RowStep w k c e (workerStep w k c e) := by
  cases e with
  | op op now =>
    simp only [workerStep]
    cases ran : op.run w k c now with
    | error e => exact .moves (.refl c)
    | ok c' => exact (WorkerOp.moves hooks ran).elim .moves fun buries => .buries buries
  | mail m i tombstones now =>
    simp only [workerStep]
    split
    · cases ran : receiveAtWorker w k c m i tombstones now with
      | error e => exact .moves (.refl c)
      | ok c' => exact receiveAtWorker_rowStep hooks ran
    · exact .moves (.refl c)

/-- The event carries a request that is stored as `row`. -/
inductive Request.StoredBy (w : Wiring δ) (k : Key) (c : Cell δ) (e : WorkerEvent) (c' : Cell δ)
    (row : Row) : Prop where
  | intro (m : Mail) (r : Request.Body) (i : Request.Intake) (tombstones : Nat) (now : Time)
      (hash : String) (outcome : Request.ReceiveOutcome) (event : e = .mail m i tombstones now)
      (carried : m.body = .request r)
      (applied : Request.apply w k c m.created r i now = .ok (c', outcome))
      (daily : i.checkDailyCaps now = .ok ())
      (checked : Request.checkRequest w k m.created r = .ok hash)
      (stores : Request.Stores c r hash i now row outcome)

theorem storedBy_of_new {row : Row} (hooks : w.debates.KeepRows)
    (unknown : c.request = none) (known : (workerStep w k c e).request = some row) :
    Request.StoredBy w k c e (workerStep w k c e) row := by
  cases workerStep_rowStep (k := k) (c := c) hooks e with
  | moves moves => cases (moves.unknown unknown).symm.trans known
  | buries buries =>
    cases buries with
    | prunes request tombstone => cases (request.trans unknown).symm.trans known
    | early unknown' request => cases request.symm.trans known
  | stores m r i tombstones now outcome event carried applied stored =>
    obtain ⟨hash, row', checked, known', stores⟩ := stored.stored
    cases known'.symm.trans known
    exact ⟨m, r, i, tombstones, now, hash, outcome, event, carried, applied, stored.daily, checked, stores⟩

/-- The same for one step. -/
theorem Request.RowStep.later (step : Request.RowStep w k c e c') {r : Row}
    (known : c.request = some r) : ∃ r', c'.request = some r' ∧ r.Moves r' := by
  cases step with
  | moves moves => exact moves.later known
  | buries buries =>
    cases buries with
    | prunes request tombstone => exact ⟨r, request.trans known, .refl r⟩
    | early unknown => cases unknown.symm.trans known
  | stores m r' i tombstones now outcome event carried applied stored => cases stored.unknown.symm.trans known

end Agentnet
