import Agentnet.Request.Mirror

/-! The recipient's state machine: accept, decline, defer and complete of an `in`
row, each with the lifecycle mail it announces. -/

namespace Agentnet.Request
open Agentnet.Lib
open WorkSession (openSession)

variable {δ : Type}

/-- The `in` row of the cell. -/
def findInRow (c : Cell δ) : Except Error Row :=
  match c.request with
  | some row => .ok row
  | none => .error .unknownRequest

def allowedAcceptDeclineDefer (s : State) : Bool := s == .pending || s == .deferred
def allowedComplete (s : State) : Bool := s == .accepted

/-- What a transition makes of the row, and the reply it sends. -/
structure TransitionBuild where
  content : ReplyContent
  extra : Row → Row := id
  firstResponse : Option FirstResponse := none

/-- The row after a transition: the first response is kept once set. -/
def transitionRow (tb : TransitionBuild) (reply : Reply) (now : Time) (r : Row) : Row :=
  let r := tb.extra
    { r with
      state := tb.content.state, stateSeq := reply.seq, stateAt := some (wireTime now)
      lastReply := some reply, lastReplySent := some (storeTime now), updated := storeTime now }
  match tb.firstResponse, r.firstResponse with
  | some first, none => { r with firstResponse := some first, firstResponseAt := some (storeTime now) }
  | _, _ => r

/-- The reply that announces the transition. -/
def TransitionBuild.reply (tb : TransitionBuild) (k : Key) (seq : Nat) (now : Time) : Reply where
  at' := wireTime now
  request := k.id
  seq := seq
  content := tb.content

/-- The cell after the row moved and its reply was submitted, before the hooks. -/
def transitioned (k : Key) (c : Cell δ) (row : Row) (tb : TransitionBuild) (now : Time) : Cell δ :=
  (c.updateRequest (transitionRow tb (tb.reply k (row.stateSeq + 1) now) now)).submitTx now
    (.reply (tb.reply k (row.stateSeq + 1) now))

/-- `transitionTx`. -/
def transitionTx (w : Wiring δ) (k : Key) (c : Cell δ) (allowed : State → Bool)
    (build : Row → Nat → Except Error TransitionBuild) (now : Time) : Except Error (Cell δ) := do
  let row ← findInRow c
  require (allowed row.state) (badState k.id row)
  let tb ← build row (row.stateSeq + 1)
  let c := transitioned k c row tb now
  match tb.content with
  | .decline _ _ => w.endDebateTx k row.typ now c
  | .accept => openSession w k .worker c row.teamID now
  | _ => .ok c

variable {c c' : Cell δ} {k : Key} {now : Time} {note : String} {result : Option Result} {e : Error}

theorem findInRow_eq_ok {row : Row} : findInRow c = .ok row ↔ c.request = some row := by
  unfold findInRow
  split <;> simp [*]

/-- What a transition that succeeds has checked and written. -/
theorem transitionTx_ok {w : Wiring δ} {allowed : State → Bool} {build : Row → Nat → Except Error TransitionBuild}
    (undebated : ∀ r, c.request = some r → r.typ ≠ .debate) (h : transitionTx w k c allowed build now = .ok c') :
    ∃ row tb, c.request = some row ∧ allowed row.state = true ∧ build row (row.stateSeq + 1) = .ok tb ∧
      (if tb.content.state = .accepted
        then openSession w k .worker (transitioned k c row tb now) row.teamID now = .ok c'
      else c' = transitioned k c row tb now) := by
  simp only [transitionTx, bind_eq_ok, require_eq_ok, findInRow_eq_ok] at h
  obtain ⟨row, known, _, ok, tb, built, h⟩ := h
  refine ⟨row, tb, known, ok, built, ?_⟩
  have work : row.typ ≠ .debate := undebated row known
  split at h
  · next code reason content =>
    rw [Wiring.endDebateTx, if_neg work] at h
    rw [content, if_neg (by rintro ⟨⟩)]
    exact (Except.ok.inj h).symm
  · next content =>
    rw [content, if_pos (show ReplyContent.accept.state = .accepted from rfl)]
    exact h
  · next noDecline noAccept =>
    rw [if_neg]
    · exact (Except.ok.inj h).symm
    · cases content : tb.content with
      | accept => exact absurd content noAccept
      | decline code reason => exact absurd content (noDecline code reason)
      | defer until' => rintro ⟨⟩
      | complete note result => rintro ⟨⟩
      | cancelled => rintro ⟨⟩

/-- `Accept`. -/
def accept (w : Wiring δ) (k : Key) (c : Cell δ) (now : Time) : Except Error (Cell δ) :=
  transitionTx w k c allowedAcceptDeclineDefer
    (fun _ _ => .ok { content := .accept, firstResponse := some .accept }) now

/-- `acceptInTx`: `AcceptInTx` refuses every type but `onlyType`, `AutoAcceptInTx` none. -/
def acceptInTx (w : Wiring δ) (k : Key) (c : Cell δ) (onlyType : Option RequestType) (now : Time) :
    Except Error (Cell δ) :=
  transitionTx w k c allowedAcceptDeclineDefer
    (fun row _ => do
      require (onlyType.all fun t => t == row.typ) (.requestBadState row.state.text
        (k.id ++ " is a " ++ row.typ.text ++ " request and " ++ row.state.text ++ ": accept it first"))
      return { content := .accept, firstResponse := some .accept }) now

/-- `Decline`. -/
def decline (w : Wiring δ) (k : Key) (c : Cell δ) (reason : String) (now : Time) : Except Error (Cell δ) := do
  orField (checkCodePoints "reason" reason 1 500 "")
  transitionTx w k c allowedAcceptDeclineDefer
    (fun _ _ => .ok
      { content := .decline .user reason, firstResponse := some .decline
        extra := fun r => { r with declineCode := some .user, reason := some reason } }) now

/-- `Defer`. -/
def defer (w : Wiring δ) (k : Key) (c : Cell δ) (until' : Time) (now : Time) : Except Error (Cell δ) :=
  transitionTx w k c allowedAcceptDeclineDefer
    (fun _ _ => do
      require (now < until') (.field ⟨"until", "must be in the future"⟩)
      require (until' ≤ now + maxDeferAhead)
        (.field ⟨"until", "must be at most 90 days from now"⟩)
      return { content := .defer (wireTime until'), firstResponse := some .defer
               extra := fun r => { r with deferredUntil := some (wireTime until') } }) now

def completeSizeOrFailed : Except String String → Except Error Unit
  | .error e => .error (.failed e)
  | .ok canon => checkCompleteSize canon

def checkComplete (reply : Reply) (note : String) (result : Option Result) : Except Error Unit :=
  completeSizeOrFailed (completeCanonical reply note (result.map resultCanonicalValue))

/-- The second transaction of `Complete`: the direct path, taken when the first one
found no session. -/
def completeTx (w : Wiring δ) (k : Key) (c : Cell δ) (note : String) (result : Option Result)
    (now : Time) : Except Error (Cell δ) := do
  let stored ← storedResult result
  transitionTx w k c allowedComplete
    (fun _ seq => do
      let content := ReplyContent.complete note (result.map resultCanonicalValue)
      checkComplete { at' := wireTime now, request := k.id, seq, content } note result
      return { content, extra := fun r => { r with note := nullIfEmpty note, result := stored } })
    now

/-- The row after a completion inside a transaction of the session. -/
def completedRow (note : String) (stored : Option JsonObject) (reply : Reply) (now : Time) (r : Row) : Row :=
  { r with
    state := .completed, stateSeq := reply.seq, stateAt := some (wireTime now)
    note := nullIfEmpty note, result := stored
    lastReply := some reply, lastReplySent := some (storeTime now)
    updated := storeTime now }

def completeReply (k : Key) (seq : Nat) (note : String) (result : Option Result) (now : Time) : Reply where
  at' := wireTime now
  request := k.id
  seq := seq
  content := .complete note (result.map resultCanonicalValue)

/-- `CompleteInTx`: the completion inside the transaction that closes the session. -/
def completeInTx (k : Key) (c : Cell δ) (note : String) (result : Option Result) (now : Time) :
    Except Error (Cell δ) := do
  orField (validateComplete note result)
  let row ← findInRow c
  require (row.state = .accepted) (badState k.id row)
  let reply := completeReply k (row.stateSeq + 1) note result now
  checkComplete reply note result
  let stored ← storedResult result
  return (c.updateRequest (completedRow note stored reply now)).submitTx now (.reply reply)

theorem completeInTx_ok (h : completeInTx k c note result now = .ok c') :
    ∃ row stored, c.request = some row ∧ row.state = .accepted ∧ storedResult result = .ok stored ∧
      c' = (c.updateRequest
        (completedRow note stored (completeReply k (row.stateSeq + 1) note result now) now)).submitTx now
        (.reply (completeReply k (row.stateSeq + 1) note result now)) := by
  simp only [completeInTx, bind_eq_ok, require_eq_ok, findInRow_eq_ok] at h
  obtain ⟨_, _, row, known, _, accepted, _, _, stored, canonical, done⟩ := h
  exact ⟨row, stored, known, accepted, canonical, (Except.ok.inj done).symm⟩

def isRequestState : Error → Bool
  | .requestBadState _ _ => true
  | _ => false

theorem orField_error {α : Type} {x : Except FieldError α} (h : orField x = .error e) : isRequestState e = false := by
  unfold orField at h
  split at h <;> cases h
  rfl

theorem completeSizeOrFailed_error {canon : Except String String}
    (h : completeSizeOrFailed canon = .error e) : isRequestState e = false := by
  cases canon with
  | error _ =>
    cases h
    rfl
  | ok canon =>
    obtain ⟨what, size, limit, rfl⟩ := checkCompleteSize_error h
    rfl

theorem storedResult_error (h : storedResult result = .error e) : isRequestState e = false := by
  unfold storedResult at h
  split at h
  · cases h
  · split at h <;> cases h
    rfl

/-- The one error of `CompleteInTx` about the state of a request. -/
theorem completeInTx_badState (h : completeInTx k c note result now = .error e)
    (badState : isRequestState e = true) : ∃ row, c.request = some row ∧ row.state ≠ .accepted := by
  simp only [completeInTx, bind_eq_error, require_eq_error, findInRow_eq_ok] at h
  rcases h with h | ⟨_, _, h | ⟨row, known, ⟨ended, _⟩ | ⟨_, _, h | ⟨_, _, h | ⟨_, _, h⟩⟩⟩⟩⟩
  · rw [orField_error h] at badState
    cases badState
  · unfold findInRow at h
    split at h <;> cases h
    cases badState
  · exact ⟨row, known, ended⟩
  · rw [completeSizeOrFailed_error h] at badState
    cases badState
  · rw [storedResult_error h] at badState
    cases badState
  · cases h

def resendThrottle : Int := 10 * minute

/-- `resubmitStale`: the echo of the last reply as a new mail, in a transaction of
its own that swallows every error. -/
def resubmitStale (c : Cell δ) (now : Time) : Cell δ :=
  match c.request with
  | none => c
  | some row =>
    match row.state, row.lastReply with
    | .pending, _ => c
    | _, none => c
    | _, some reply =>
      if row.lastReplySent.any fun t => decide (now - parseStoreTime t < resendThrottle) then c
      else (c.updateRequest fun r => { r with lastReplySent := some (storeTime now) }).submitTx
        now (.reply reply)

end Agentnet.Request
