import Agentnet.Request.Lifecycle

/-! The worker's session, a mirror of the requester's: what the worker submits, the
`ws.state` mails it follows, and the local close for a peer without sessions. -/

namespace Agentnet.WorkSession
open Agentnet.Lib

variable {δ : Type}

/-- Who submits on the worker's side: an agent, or the helper's runner. -/
inductive Submitter where
  | byAgent | byRunner
  deriving DecidableEq

def errRunnerSession (row : Session) : Error :=
  .sessionBadState row.state.text (row.id ++ " is a run session: the helper's runner reports it")

/-- The part of `submitResultTx` on a session that exists. -/
def submitResultRow (c : Cell δ) (row : Session) (result : Result) (submitter : Submitter)
    (now : Time) : Except Error (Cell δ) := do
  require (row.kind = .work) (debateBadState row "debates have no result")
  require (¬(row.runner ∧ submitter ≠ .byRunner)) (errRunnerSession row)
  require (row.state = .open ∧ row.cancel ≠ some .requested) (badState row)
  -- One result per round: the worker cannot know whether an earlier one was applied.
  require (¬(row.result.isSome ∧ row.resultRound = some row.round))
    (.sessionBadState row.state.text ("a result for round " ++ toString row.round ++
      " was already submitted; wait for the requester or cancel"))
  let canon ← canonOr .failed
    (resultBodyCanonical row.id row.requestID row.round (wireTime now) result)
  checkResultSize canon
  let _ ← canonOr .failed (canonicalResult result)
  let c := c.submitTx now (.result
    { at' := wireTime now, request := row.requestID, result := resultCanonicalValue result
      round := row.round, session := row.id })
  return c.updateSession fun r =>
    { r with
      result := some (resultCanonicalValue result), resultRound := some row.round
      updated := storeTime now }

/-- `submitResultTx`; the flag is whether a session exists at all. -/
def submitResultTx (c : Cell δ) (result : Result) (submitter : Submitter) (now : Time) :
    Except Error (Cell δ × Bool) :=
  match c.session with
  | none => .ok (c, false)
  | some row => do
    let c ← submitResultRow c row result submitter now
    return (c, true)

/-- `SubmitResult`. -/
def submitResult (c : Cell δ) (result : Result) (submitter : Submitter) (now : Time) :
    Except Error (Cell δ × Bool) := do
  orField (validateResult result)
  submitResultTx c result submitter now

/-- The result that `CompleteShorthand` submits for a completion. -/
def shorthandResult (note : String) (result : Option Request.Result) : Result where
  d14 := result.getD { status := "n/a" }
  verification := "none"
  notes := note

/-- `CompleteShorthand`: the first transaction of `Complete`. -/
def completeShorthand (c : Cell δ) (note : String) (result : Option Request.Result) (now : Time) :
    Except Error (Cell δ × Bool) :=
  submitResult c (shorthandResult note result) .byAgent now

/-- `AnswerQuestion`: accept and answer a question in one transaction. -/
def answerQuestion (w : Wiring δ) (k : Key) (c : Cell δ) (result : Result) (now : Time) : Except Error (Cell δ) := do
  orField (validateResult result)
  let c ← Request.acceptInTx w k c (some .question) now
  let (c, found) ← submitResultTx c result .byAgent now
  require (found = true) (.failed "worksession: session missing right after accept")
  return c

/-- `submitCancelTx`. -/
def submitCancelTx (c : Cell δ) (row : Session) (reason : String) (now : Time) : Cell δ :=
  (c.submitTx now (.wsCancel
    { at' := wireTime now, request := row.requestID, session := row.id, reason })).updateSession
    fun r => { r with cancel := some .requested, updated := storeTime now }

/-- `SubmitCancel`. A cancel that is already requested is not sent again. -/
def submitCancel (w : Wiring δ) (k : Key) (c : Cell δ) (reason : String) (submitter : Submitter)
    (now : Time) : Except Error (Cell δ) := do
  orField (whenPresent reason (checkCodePoints "reason" reason 1 500 ""))
  let r ← findRow c
  require (r.role = .worker) .notWorker
  require (¬(r.runner ∧ submitter ≠ .byRunner)) (errRunnerSession r)
  require (¬r.state.isClosed) (badState r)
  let c := if r.cancel = some .requested then c else submitCancelTx c r reason now
  match r.kind with
  | .debate => w.debates.abandonTx k now c
  | .work => return c

/-- State and outcome of a `ws.state` body: an outcome is present iff it is closed. -/
def stateOf : StateName → Option Outcome → Except Error State
  | .closed, some outcome => .ok (.closed outcome)
  | .open, none => .ok .open
  | .awaitingResult, none => .ok .awaitingResult
  | .quarantined, none => .ok .quarantined
  | _, _ => .error (.badBody "worksession: outcome is present iff state is closed")

/-- The checks of a `ws.state` body, before any row is read. -/
def checkStateBody (w : Wiring δ) (k : Key) (b : StateBody) : Except Error State := do
  require (1 ≤ b.round) (.badBody "worksession: round must be >= 1")
  require (1 ≤ b.seq) (.badBody "worksession: seq must be >= 1")
  require (b.session = deriveID w.crypto k.peer w.self b.request)
    (.badBody "worksession: session is not the derived id for (from, to, request)")
  let state ← stateOf b.state b.outcome
  require (b.changes = "" ∨ (b.state = .open ∧ 2 ≤ b.round))
    (.badBody "worksession: changes is only present with state open and round >= 2")
  orBadBody "worksession"
    (whenPresent b.changes (checkCodePoints "changes" b.changes 1 4000 "\n\t"))
  require (b.verification = "" ∨ b.outcome = some .accepted)
    (.badBody "worksession: verification is only present with outcome accepted")
  require (b.verification ∈ ["", "none", "tests_passed", "human_accepted"])
    (.badBody "worksession: verification must be none, tests_passed or human_accepted")
  return state

inductive StateOutcome where
  | orphan | ignoredKind | duplicate | closed | applied
  deriving DecidableEq

/-- The cancel mark after a new state: an answer clears it, a refusal marks it. -/
def cancelAfter (state : State) (cancel : Option Request.CancelMark) : Option Request.CancelMark :=
  if state.underReview then
    if cancel = some .requested then some .refused else cancel
  else none

/-- The round that produced the stored result is over without being accepted. -/
def clearsResult (state : State) : Bool := state == .open || state == .closed .cancelled

/-- The row after a state of the authority. -/
def mirrorRow (b : StateBody) (state : State) (now : Time) (r : Session) : Session :=
  { r with
    state := state, seq := b.seq, round := b.round, stateAt := b.at', updated := storeTime now
    cancel := cancelAfter state r.cancel
    changes := nullIfEmpty b.changes
    verification := if b.verification = "" then r.verification else some b.verification
    closed := if state.isClosed then some b.at' else r.closed
    result := if clearsResult state then none else r.result
    resultRound := if clearsResult state then none else r.resultRound }

/-- The content of the completion when the mirror closes: the D14 part of the stored
result of the accepted round, or the fixed note of a cancel. -/
def closeContent (row : Session) (outcome : Outcome) (round : Nat) : Except Error (String × Option Request.Result) :=
  match outcome, row.result with
  | .cancelled, _ => .ok ("session cancelled", none)
  | .accepted, none => .ok ("", none)
  | .accepted, some stored =>
    if row.resultRound = some round then do
      let result ← decodeStoredResult stored
      return ("", some result.d14)
    else .ok ("", none)

/-- Complete the request on the step into closed. A request that is no longer accepted
has nothing left to complete; any other error aborts. -/
def completeOnClose (k : Key) (c : Cell δ) (note : String) (result : Option Request.Result) (now : Time) :
    Except Error (Cell δ) :=
  match Request.completeInTx k c note result now with
  | .ok done => .ok done
  | .error (.requestBadState _ _) => .ok c
  | .error e => .error e

/-- The close of the mirror: grants, experience record and the request. `row` is the
session before the mail. -/
def closeMirror (k : Key) (c : Cell δ) (row : Session) (b : StateBody) (outcome : Outcome)
    (now : Time) : Except Error (Cell δ) := do
  let cancelledBy :=
    match outcome with
    | .accepted => none
    | .cancelled => some (CancelledBy.role (if row.cancel = some .requested then .worker else .requester))
  let c ← writeExperienceTx c.revokeGrants { row with round := b.round } outcome b.verification
    (verificationActor b.verification) cancelledBy now
  let (note, result) ← closeContent row outcome b.round
  completeOnClose k c note result now

/-- A `ws.state` with a higher sequence number on a session that is not closed. A new
round of a run session is cancelled at once. -/
def applyNewState (k : Key) (c : Cell δ) (row : Session) (b : StateBody) (state : State) (now : Time) :
    Except Error (Cell δ) :=
  let c := c.updateSession (mirrorRow b state now)
  match state with
  | .closed outcome => closeMirror k c row b outcome now
  | .open => if 2 ≤ b.round ∧ row.runner then .ok (submitCancelTx c row "" now) else .ok c
  | _ => .ok c

/-- `applyState`. -/
def applyState (w : Wiring δ) (k : Key) (c : Cell δ) (b : StateBody) (now : Time) :
    Except Error (Cell δ × StateOutcome) := do
  let state ← checkStateBody w k b
  match c.session with
  | none => return (c, .orphan)
  | some row =>
    if row.kind = .debate then return (c, .ignoredKind)
    else if b.seq ≤ row.seq then
      -- The echo of the state the mirror already has answers a pending cancel.
      if b.seq = row.seq ∧ row.cancel = some .requested ∧ state.underReview then
        return (c.updateSession fun r => { r with cancel := some .refused, updated := storeTime now }, .duplicate)
      else return (c, .duplicate)
    else if row.state.isClosed then return (c, .closed)
    else do
      let c ← applyNewState k c row b state now
      return (c, .applied)

/-- The content of the completion of a local close: the last submitted result. -/
def fallbackContent (row : Session) : Except Error (String × Option Request.Result) :=
  match row.result with
  | none => .ok ("session cancelled", none)
  | some stored => do
    let result ← decodeStoredResult stored
    return (result.notes, some result.d14)

/-- `CheckPhase1Fallback`: the peer answered `unsupported_kind`, so it has no sessions.
The mirror closes locally and the request completes; any error rolls both back. -/
def checkPhase1Fallback (k : Key) (c : Cell δ) (unsupported : Bool) (now : Time) : Except Error (Cell δ) :=
  match c.session with
  | none => .ok c
  | some row =>
    if row.state.isClosed ∨ row.kind = .debate ∨ unsupported = false then .ok c
    else do
      let c := c.updateSession fun r =>
        { r with
          state := .closed .cancelled, closed := some (wireTime now), stateAt := wireTime now
          updated := storeTime now }
      let c ← writeExperienceTx c.revokeGrants row .cancelled "" none (some .timeout) now
      let (note, result) ← fallbackContent row
      Request.completeInTx k c note result now

end Agentnet.WorkSession
