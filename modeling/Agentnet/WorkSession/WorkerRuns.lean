import Agentnet.Request.RowHistory
import Agentnet.WorkSession.WorkerRefinement

/-! Runs of the worker against a requester that may send anything: when an accepted
request is one with a live session. -/

namespace Agentnet
open Agentnet.Lib
open WorkSession WorkSession.Protocol

variable {δ : Type}

/-- The worker's daemon. Calls run concurrently: `completing` are those of `Complete` that
found no session in their first transaction and have not begun the second one. -/
structure WorkerDaemon (δ : Type) where
  cell : Cell δ
  completing : List (String × Option Request.Result) := []

/-- The first transaction of `Complete`, up to what it found. -/
def completeFirst (c : Cell δ) (note : String) (result : Option Request.Result) (now : Time) :
    Except Error (Cell δ × Bool) := do
  orField (Request.validateComplete note result)
  let _ ← Request.findInRow c
  completeShorthand c note result now

namespace WorkerDaemon

/-- Before the first event. -/
def initial (undebated : δ) : WorkerDaemon δ := { cell := { debate := undebated } }

/-- A step of the daemon. The second transaction of `Complete` is that of a call whose
first one found no session. -/
def step (w : Wiring δ) (k : Key) (d : WorkerDaemon δ) : WorkerEvent → WorkerDaemon δ
  | .op (.completeShorthand note result) now =>
    match completeFirst d.cell note result now with
    | .ok (c, true) => { d with cell := c }
    | .ok (c, false) => { cell := c, completing := d.completing ++ [(note, result)] }
    | .error _ => d
  | .op (.completeTx note result) now =>
    if (note, result) ∈ d.completing then
      { cell := workerStep w k d.cell (.op (.completeTx note result) now)
        completing := d.completing.erase (note, result) }
    else d
  | e => { d with cell := workerStep w k d.cell e }

/-- The daemon after the events `es`, from the start. -/
def after (w : Wiring δ) (k : Key) (undebated : δ) (es : List WorkerEvent) : WorkerDaemon δ :=
  run (step w k) (initial undebated) es

end WorkerDaemon

variable {w : Wiring δ} {k : Key} {c : Cell δ} {d : WorkerDaemon δ} {e : WorkerEvent}

theorem WorkerDaemon.step_cell (w : Wiring δ) (k : Key) (d : WorkerDaemon δ) (e : WorkerEvent) :
    (d.step w k e).cell = workerStep w k d.cell e ∨ (d.step w k e).cell = d.cell := by
  unfold WorkerDaemon.step
  split
  · next note result now =>
    cases first : completeFirst d.cell note result now with
    | error e => exact .inr rfl
    | ok found =>
      simp only [completeFirst, bind_eq_ok] at first
      obtain ⟨_, valid, _, _, submitted⟩ := first
      have ran : workerStep w k d.cell (.op (.completeShorthand note result) now) = found.1 := by
        simp only [workerStep, WorkerOp.run, valid, submitted]
        rfl
      left
      split <;> simp_all
  · split
    · exact .inl rfl
    · exact .inr rfl
  · exact .inl rfl

/-- Whenever the second transaction of `Complete` runs, the request has no session. -/
def DirectUnopened (d : WorkerDaemon δ) : WorkerEvent → Prop
  | .op (.completeTx _ _) _ => d.cell.session.isNone = true
  | _ => True

instance (d : WorkerDaemon δ) : (e : WorkerEvent) → Decidable (DirectUnopened d e)
  | .op (.completeTx _ _) _ => inferInstanceAs (Decidable (_ = _))
  | .op .accept _ | .op (.acceptInTx _ _) _ | .op (.decline _) _ | .op (.defer _) _
  | .op (.completeShorthand _ _) _ | .op (.answerQuestion _) _ | .op (.submitResult _ _) _
  | .op (.submitCancel _ _) _ | .op (.checkPhase1Fallback _) _ | .op .resubmitStale _
  | .op .pruneTombstones _ | .op (.grants _) _ | .mail _ _ _ _ => inferInstanceAs (Decidable True)

def Cell.Debated (c : Cell δ) : Prop := ∃ r, c.request = some r ∧ r.typ = .debate

theorem Cell.Debated.step (hooks : w.debates.KeepRows) (debated : c.Debated) (e : WorkerEvent) :
    (workerStep w k c e).Debated := by
  obtain ⟨r, known, debate⟩ := debated
  obtain ⟨r', known', moves⟩ := (workerStep_rowStep (k := k) hooks e).later known
  exact ⟨r', known', moves.typ.trans debate⟩

theorem receive_debate {m : Mail} {r : Request.Body} {i : Request.Intake} {tombstones : Nat}
    {now : Time} (hooks : w.debates.KeepRows) (carried : m.body = .request r) (debate : r.type = .debate) :
    workerStep w k c (.mail m i tombstones now) = c ∨ (workerStep w k c (.mail m i tombstones now)).Debated := by
  simp only [workerStep, receiveAtWorker, carried]
  split
  · cases applied : Request.apply w k c m.created r i now with
    | error e => exact .inl rfl
    | ok received =>
      rcases apply_stores hooks applied with ⟨_, same⟩ | ⟨_, _, _, row, _, known, stores⟩
      · exact .inl same
      · exact .inr ⟨row, known, stores.origin.1.trans debate⟩
  · exact .inl rfl

def anyState (_ : Tuple) : Prop := True

theorem WorkerLabels.direct (labels : WorkerLabels c e .direct) :
    ∃ note result now, e = .op (.completeTx note result) now := by
  cases labels with
  | op op now label kind =>
    cases kind with
    | buries op label buries => cases buries
    | direct note result => exact ⟨note, result, now, rfl⟩
  | mail m i tombstones now label buries cancels => cases buries

/-- A request that is no debate is accepted exactly while its session is live. -/
def Cell.PairedOrDebated (c : Cell δ) : Prop := c.Debated ∨ WorkerCell c ∧ c.worker.Paired

/-- The invariant of the worker's cell, over every event. -/
theorem Cell.PairedOrDebated.step (hooks : w.debates.KeepRows) (inv : c.PairedOrDebated)
    (unopened : ∀ note result now, e = .op (.completeTx note result) now → c.session = none) :
    (workerStep w k c e).PairedOrDebated := by
  obtain debated | ⟨cell, paired⟩ := inv
  · exact .inl (debated.step hooks e)
  by_cases debate : ∃ m i tombstones now r, e = .mail m i tombstones now ∧ m.body = .request r ∧ r.type = .debate
  · obtain ⟨m, i, tombstones, now, r, rfl, carried, debate⟩ := debate
    rcases receive_debate (k := k) (c := c) hooks carried debate with same | debated
    · exact .inr (same.symm ▸ ⟨cell, paired⟩)
    · exact .inl debated
  · have undebated : ∀ m i tombstones now r, e = .mail m i tombstones now →
        m.body = .request r → r.type ≠ .debate := fun m i tombstones now r mail carried typ =>
      debate ⟨m, i, tombstones, now, r, mail, carried, typ⟩
    obtain ⟨label, refines, labels⟩ : ∃ label, WorkerRefines anyState c label (workerStep w k c e) ∧
      WorkerLabels c e label :=
      workerStep_refines cell undebated fun _ _ _ _ _ _ _ _ _ => trivial
    refine .inr ⟨refines.cell, paired.step refines.step ?_⟩
    rintro rfl
    obtain ⟨note, result, now, rfl⟩ := labels.direct
    obtain ⟨i, known, accepted⟩ := refines.step.direct
    obtain ⟨r, opened, _⟩ := paired.opened i known accepted
    rw [Cell.worker, unopened note result now rfl] at opened
    cases opened

theorem WorkerDaemon.after_paired (hooks : w.debates.KeepRows) {undebated : δ} {es : List WorkerEvent}
    (unopened : Follows (WorkerDaemon.step w k) DirectUnopened (.initial undebated) es) :
    (WorkerDaemon.after w k undebated es).cell.PairedOrDebated := by
  have start : (WorkerDaemon.initial undebated).cell.PairedOrDebated := .inr ⟨.blank undebated, Worker.initial_paired⟩
  refine run_invariant_of (motive := fun d : WorkerDaemon δ => d.cell.PairedOrDebated)
    (fun d e inv unopened => ?_) start unopened
  rcases d.step_cell w k e with same | same
  · rw [same]
    refine inv.step hooks ?_
    rintro note result now rfl
    exact Option.isNone_iff_eq_none.mp unopened
  · rw [same]
    exact inv

def WorkerDaemon.Fails (w : Wiring δ) (k : Key) (d : WorkerDaemon δ) : WorkerEvent → Prop
  | .op (.completeShorthand note result) now => ∃ e, completeFirst d.cell note result now = .error e
  | .op op now => ∃ e, op.run w k d.cell now = .error e
  | .mail m i tombstones now => ∃ e, receiveAtWorker w k d.cell m i tombstones now = .error e

theorem WorkerDaemon.Fails.unchanged (fails : d.Fails w k e) : (d.step w k e).cell = d.cell := by
  rcases d.step_cell w k e with same | same
  · rw [same]
    unfold WorkerDaemon.Fails at fails
    split at fails
    · next note result now =>
      obtain ⟨e, failed⟩ := fails
      rw [← same, WorkerDaemon.step, failed]
    · obtain ⟨e, failed⟩ := fails
      rw [workerStep, failed, commit]
    · obtain ⟨e, failed⟩ := fails
      rw [workerStep, failed, commit, ite_self]
  · exact same

theorem completeFirst_unfound {c' : Cell δ} {note : String} {result : Option Request.Result}
    {now : Time} (h : completeFirst c note result now = .ok (c', false)) : c' = c := by
  simp only [completeFirst, completeShorthand, submitResult, bind_eq_ok] at h
  obtain ⟨_, _, _, _, _, _, h⟩ := h
  unfold submitResultTx at h
  split at h
  · cases h
    rfl
  · rw [bind_eq_ok] at h
    obtain ⟨_, _, done⟩ := h
    cases done

/-- In every run in which the second transaction of `Complete` only runs on a request
without a session, a request that is no debate is accepted exactly while its worker
session is live. A call that fails changes nothing, nor does the first transaction of a
`Complete` that goes on to the second. -/
theorem accepted_iff_live_of_direct_unopened (w : Wiring δ) (k : Key) (undebated : δ) (hooks : w.debates.KeepRows)
    (es : List WorkerEvent) (unopened : Follows (WorkerDaemon.step w k) DirectUnopened (.initial undebated) es) :
    (∀ r, (WorkerDaemon.after w k undebated es).cell.request = some r → r.typ ≠ .debate →
      (r.state = .accepted ↔ ∃ s, (WorkerDaemon.after w k undebated es).cell.session = some s ∧
        s.role = .worker ∧ s.state.isClosed = false)) ∧ (∀ e, (WorkerDaemon.after w k undebated es).Fails w k e →
      ((WorkerDaemon.after w k undebated es).step w k e).cell = (WorkerDaemon.after w k undebated es).cell) ∧
    ∀ note result now c, completeFirst (WorkerDaemon.after w k undebated es).cell note result now =
      .ok (c, false) → c = (WorkerDaemon.after w k undebated es).cell := by
  refine ⟨fun r known work => ?_, fun e fails => fails.unchanged, fun note result now c => completeFirst_unfound⟩
  obtain ⟨r', known', debate⟩ | ⟨cell, paired⟩ := WorkerDaemon.after_paired hooks unopened
  · cases known.symm.trans known'
    exact absurd debate work
  constructor
  · intro accepted
    obtain ⟨m, opened, live⟩ := paired.opened r.numbered (request_worker known) accepted
    obtain ⟨s, opened', rfl⟩ := Option.map_eq_some_iff.mp opened
    exact ⟨s, opened', (cell.session s opened').1, live⟩
  · rintro ⟨s, opened, _, live⟩
    obtain ⟨i, known', accepted⟩ := paired.live s.mirrored (session_worker opened) live
    cases (request_worker known).symm.trans known'
    exact accepted

/-- The request of `sampleTask` arrives. -/
def sampleArrival : WorkerEvent :=
  .mail ⟨0, .request (sampleTask.request sampleParties.requester sampleParties.requesterKey 0 0)⟩
    {} 0 0

/-- Accept, then a completion that becomes the result of the session. -/
def completedWithSession : List WorkerEvent := [sampleArrival, .op .accept 0, .op (.completeShorthand "" none) 0]

theorem completedWithSession_live : ∃ s, (WorkerDaemon.after sampleParties.atWorker sampleParties.workerKey ()
        completedWithSession).cell.session = some s ∧ s.role = .worker ∧ s.state.isClosed = false := by
  have run : Follows (WorkerDaemon.step sampleParties.atWorker sampleParties.workerKey) DirectUnopened (.initial ())
        completedWithSession ∧
      (WorkerDaemon.after sampleParties.atWorker sampleParties.workerKey ()
        completedWithSession).cell.request.map (fun r => (r.typ, r.state)) =
        some (.task, .accepted) := by
    decide +kernel
  obtain ⟨r, known, is⟩ := Option.map_eq_some_iff.mp run.2
  have ⟨typ, accepted⟩ := Prod.mk.inj is
  exact ((accepted_iff_live_of_direct_unopened _ _ () DebateHooks.undebated_keepRows _ run.1).1 r known
    (by rw [typ]; simp)).mp accepted

def acceptedWhileCompleting : List WorkerEvent :=
  [sampleArrival, .op (.completeShorthand "" none) 0, .op .accept 0, .op (.completeTx "" none) 0]

/-- The request is completed and its session is open. -/
theorem acceptedWhileCompleting_open : (WorkerDaemon.after sampleParties.atWorker sampleParties.workerKey ()
        acceptedWhileCompleting).cell.request.map (fun r => (r.typ, r.state)) = some (.task, .completed) ∧
      (WorkerDaemon.after sampleParties.atWorker sampleParties.workerKey ()
        acceptedWhileCompleting).cell.session.map (fun s => (s.role, s.state)) = some (.worker, .open) := by
  decide +kernel

end Agentnet
