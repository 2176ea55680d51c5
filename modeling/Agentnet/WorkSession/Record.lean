import Agentnet.WorkSession.Protocol

/-! The requester in the abstract: the authority of a session together with its own
record of the request, which the worker's lifecycle mails move and the close of the
session settles. -/

namespace Agentnet.WorkSession.Protocol

variable {ρ κ : Type}

structure Content (κ : Type) where
  note : Option String
  result : Option κ

def Content.empty : Content κ := ⟨none, none⟩

def Content.cancelled : Content κ := ⟨some "session cancelled", none⟩

structure Out (κ : Type) where
  state : Request.State
  seq : Nat
  content : Content κ

structure Requester (ρ κ : Type) where
  out : Option (Out κ)
  session : Option (AuthorityRow ρ)
  announced : List Tuple
  closes : Nat

/-- What a completed record shows for a closed session; `part` is the part of a
result that belongs to the request, when the result can be read. -/
def view (part : ρ → Option κ) : Outcome → Option ρ → Option (Content κ)
  | .cancelled, _ => some .cancelled
  | .accepted, none => some .empty
  | .accepted, some x => (part x).map fun y => ⟨none, some y⟩

def Out.settle (content : Content κ) (o : Out κ) : Out κ :=
  if o.state = .completed then { o with content := content } else o

def Out.complete (seq : Nat) (content : Content κ) (o : Out κ) : Out κ :=
  if o.seq < seq then ⟨.completed, seq, content⟩ else o

def AuthorityRow.cancel (r : AuthorityRow ρ) : AuthorityRow ρ := ⟨⟨.closed .cancelled, r.seq + 1, r.round⟩, r.result⟩

namespace Requester

/-- The session, or what it will start from. -/
def row (s : Requester ρ κ) : AuthorityRow ρ := s.session.getD ⟨.initial, none⟩

def authority (s : Requester ρ κ) : Authority ρ := ⟨s.row, s.announced, s.closes⟩

def move (s : Requester ρ κ) (r : AuthorityRow ρ) : Requester ρ κ :=
  { s with session := some r, announced := s.announced ++ [r.toTuple]
           closes := s.closes + r.state.isClosed.toNat }

def close (s : Requester ρ κ) (r : AuthorityRow ρ) (content : Content κ) : Requester ρ κ :=
  { s.move r with out := s.out.map (Out.settle content) }

def cancelOpen (s : Requester ρ κ) : Requester ρ κ :=
  match s.session with
  | none => s
  | some r => if r.state = .open then s.close r.cancel .cancelled else s

/-- A lifecycle mail that is news and no completion. An accept opens the session. -/
def hear (s : Requester ρ κ) (o : Out κ) (state : Request.State) (seq : Nat) : Requester ρ κ :=
  let s' := { s with out := some { o with state := state, seq := seq } }
  match state with
  | .declined => s'.cancelOpen
  | .cancelled => s'.cancelOpen
  | .accepted => { s' with session := some s'.row }
  | _ => s'

/-- A lifecycle mail on the record: only a higher number moves it, and the end of the
request cancels an open session. -/
def mirror (s : Requester ρ κ) (extra : Out κ → Out κ) (state : Request.State) (seq : Nat) : Requester ρ κ :=
  match s.out with
  | none => s
  | some o =>
    if o.seq < seq then
      let s' := { s with out := some (extra { o with state := state, seq := seq }) }
      if state = .declined ∨ state = .cancelled then s'.cancelOpen else s'
    else s

/-- The content a completion may store, by the state of the session it meets. -/
def allows (part : ρ → Option κ) (s : Requester ρ κ) (content : Content κ) : Prop :=
  match s.session with
  | none => True
  | some r =>
    match r.state with
    | .closed outcome => view part outcome r.result = some content
    | .open => 1 < r.round ∨ 0 < r.seq → content = .cancelled
    | _ => content = .empty

inductive Label where
  | plain | opening | reopening
  deriving DecidableEq

/-- A step of the requester. `arrived` as for the authority; a result is taken only
while the request is not over. -/
inductive Step (part : ρ → Option κ) (arrived : Nat → ρ → Prop) (s : Requester ρ κ) :
    Label → Requester ρ κ → Prop where
  | idle : Step part arrived s .plain s
  | echoes (m : Tuple) (old : m ∈ s.announced) :
      Step part arrived s .plain { s with announced := s.announced ++ [m] }
  | submits (unknown : s.out = none) :
      Step part arrived s .plain { s with out := some ⟨.pending, 0, .empty⟩ }
  | opens (o : Out κ) (known : s.out = some o) (unopened : s.session = none) :
      Step part arrived s .opening { s with session := some ⟨.initial, none⟩ }
  | reviews (o : Out κ) (x : ρ) (state : State) (known : s.out = some o)
      (live : o.state.ended = false) (isOpen : s.row.state = .open)
      (came : arrived s.row.round x) (review : state.underReview) :
      Step part arrived s .plain (s.move ⟨⟨state, s.row.seq + 1, s.row.round⟩, some x⟩)
  | reopens (review : s.row.state.underReview) :
      Step part arrived s .reopening
        (s.move ⟨⟨.open, s.row.seq + 1, s.row.round + 1⟩, none⟩)
  | releases (quarantined : s.row.state = .quarantined) :
      Step part arrived s .plain
        (s.move ⟨⟨.awaitingResult, s.row.seq + 1, s.row.round⟩, s.row.result⟩)
  | accepts (content : Content κ) (awaiting : s.row.state = .awaitingResult)
      (shown : view part .accepted s.row.result = some content) :
      Step part arrived s .plain
        (s.close ⟨⟨.closed .accepted, s.row.seq + 1, s.row.round⟩, s.row.result⟩ content)
  | discards (quarantined : s.row.state = .quarantined) :
      Step part arrived s .plain
        (s.close ⟨⟨.closed .cancelled, s.row.seq + 1, s.row.round⟩, none⟩ .cancelled)
  | cancels : Step part arrived s .plain s.cancelOpen
  | hears (o : Out κ) (state : Request.State) (seq : Nat) (known : s.out = some o)
      (news : o.seq < seq) (unfinished : state ≠ .completed) :
      Step part arrived s .plain (s.hear o state seq)
  | completes (seq : Nat) (content : Content κ) (allowed : s.allows part content) :
      Step part arrived s .plain
        { s.cancelOpen with out := s.cancelOpen.out.map (Out.complete seq content) }

variable {part : ρ → Option κ} {arrived : Nat → ρ → Prop} {s s' : Requester ρ κ} {label : Label}

/-! ## The session of the requester is the authority -/

variable {r : AuthorityRow ρ} {o : Out κ} {seq : Nat} {state : Request.State} {content : Content κ}

theorem row_of_session (h : s.session = some r) : s.row = r := by
  rw [row, h, Option.getD_some]

theorem move_authority (move : Move arrived s.row r) : s.authority.Step arrived (s.move r).authority := .moves r move

theorem cancelOpen_authority (s : Requester ρ κ) : s.authority.Step arrived s.cancelOpen.authority := by
  unfold cancelOpen
  split
  · exact .idle
  · next r opened =>
    split
    · next isOpen =>
      have step : Move arrived s.row r.cancel := by
        rw [row_of_session opened]
        exact .cancel isOpen
      exact move_authority step
    · exact .idle

theorem hear_authority : s.authority.Step arrived (s.hear o state seq).authority := by
  have ended : s.authority.Step arrived _ :=
    cancelOpen_authority { s with out := some { o with state := state, seq := seq } }
  cases state with
  | declined => exact ended
  | cancelled => exact ended
  | accepted => exact .idle
  | pending => exact .idle
  | deferred => exact .idle
  | completed => exact .idle

/-- A step of the record is a step of the authority. -/
theorem Step.authority (step : s.Step part arrived label s') : s.authority.Step arrived s'.authority := by
  cases step with
  | idle => exact .idle
  | echoes m old => exact .echoes m old
  | submits unknown => exact .idle
  | opens o known unopened =>
    have same : s.row = ⟨.initial, none⟩ := by rw [row, unopened]; rfl
    have keeps : Requester.authority { s with session := some ⟨.initial, none⟩ } = s.authority := by
      simp only [Requester.authority, same]
      rfl
    rw [keeps]
    exact .idle
  | reviews o x state known live isOpen came review => exact move_authority (.result x state isOpen came review)
  | reopens review => exact move_authority (.changes review)
  | releases quarantined => exact move_authority (.release quarantined)
  | accepts content awaiting shown => exact move_authority (.accept awaiting)
  | discards quarantined => exact move_authority (.discard quarantined)
  | cancels => exact cancelOpen_authority s
  | hears o state seq known news unfinished => exact hear_authority
  | completes seq content allowed => exact cancelOpen_authority s

/-! ## Lifecycle mails -/

theorem mirror_step (seq : Nat) (unfinished : state ≠ .completed)
    (silent : state ≠ .accepted) : s.Step part arrived .plain (s.mirror id state seq) := by
  unfold mirror
  split
  · exact .idle
  · next o known =>
    split
    · next news =>
      have step : s.Step part arrived .plain _ := .hears o state seq known news unfinished
      cases state with
      | declined => exact step
      | cancelled => exact step
      | pending => exact step
      | deferred => exact step
      | accepted => exact absurd rfl silent
      | completed => exact absurd rfl unfinished
    · exact .idle

theorem mirror_stale {extra : Out κ → Out κ} (known : s.out = some o) (stale : ¬o.seq < seq) :
    s.mirror extra state seq = s := by
  simp only [mirror, known, stale, if_false]

theorem mirror_accepted (known : s.out = some o) (news : o.seq < seq) :
    s.mirror id .accepted seq = { s with out := some { o with state := .accepted, seq := seq } } := by
  simp only [mirror, known, news, if_true, reduceCtorEq, or_self, if_false, id]

theorem mirror_completed (s : Requester ρ κ) (seq : Nat) (content : Content κ) :
    s.mirror (fun o => { o with content := content }) .completed seq =
      { s with out := s.out.map (Out.complete seq content) } := by
  unfold mirror Out.complete
  split
  · next unknown => rw [unknown, Option.map_none, ← unknown]
  · next o known =>
    rw [known, Option.map_some]
    split
    · rfl
    · rw [← known]

/-! ## The record shows what the session decided -/

/-- A completed record of a closed session shows the accepted result, or the fixed note
once a result was ever under review. -/
structure Shows (part : ρ → Option κ) (s : Requester ρ κ) : Prop where
  accepted : ∀ o r, s.out = some o → s.session = some r → o.state = .completed →
    r.state = .closed .accepted → view part .accepted r.result = some o.content
  cancelled : ∀ o r, s.out = some o → s.session = some r → o.state = .completed →
    r.state = .closed .cancelled → 2 ≤ r.seq → o.content = .cancelled

theorem Shows.of_live (session : s.session = some r) (live : r.state.isClosed = false) : s.Shows part where
  accepted := fun o r' _ opened _ closed => by
    cases session.symm.trans opened
    rw [closed] at live
    cases live
  cancelled := fun o r' _ opened _ closed => by
    cases session.symm.trans opened
    rw [closed] at live
    cases live

theorem Shows.of_unfinished (out : s.out = some o) (unfinished : o.state ≠ .completed) : s.Shows part where
  accepted := fun o' _ known _ completed => by
    cases out.symm.trans known
    exact absurd completed unfinished
  cancelled := fun o' _ known _ completed => by
    cases out.symm.trans known
    exact absurd completed unfinished

theorem settle_state (content : Content κ) (o : Out κ) : (o.settle content).state = o.state := by
  unfold Out.settle
  split <;> rfl

theorem settle_content (completed : o.state = .completed) : (o.settle content).content = content := by
  rw [Out.settle, if_pos completed]

theorem Shows.close {outcome : Outcome} (closed : r.state = .closed outcome)
    (shown : view part outcome r.result = some content) :
    (s.close r content).Shows part := by
  have settled : ∀ o, (s.close r content).out = some o → o.state = .completed → o.content = content := by
    intro o known completed
    obtain ⟨o', _, rfl⟩ := Option.map_eq_some_iff.mp known
    rw [settle_state] at completed
    exact settle_content completed
  constructor
  · intro o r' known opened completed accepted
    cases opened
    rw [settled o known completed, ← shown]
    cases closed.symm.trans accepted
    rfl
  · intro o r' known opened completed cancelled _
    cases opened
    cases closed.symm.trans cancelled
    rw [settled o known completed]
    exact (Option.some.inj shown).symm

theorem Shows.cancelOpen (shows' : s.Shows part) : s.cancelOpen.Shows part := by
  unfold Requester.cancelOpen
  split
  · exact shows'
  · split
    · exact Shows.close rfl rfl
    · exact shows'

theorem hear_out (unfinished : state ≠ .completed) : ∃ o', (s.hear o state seq).out = some o' ∧ o'.state = state := by
  have cancelOpen_out : ∀ t : Requester ρ κ, t.out = some { o with state := state, seq := seq } →
      ∃ o', t.cancelOpen.out = some o' ∧ o'.state = state := by
    intro t known
    unfold Requester.cancelOpen
    split
    · exact ⟨_, known, rfl⟩
    · split
      · exact ⟨_, by rw [Requester.close, known]; rfl, settle_state _ _⟩
      · exact ⟨_, known, rfl⟩
  cases state with
  | declined => exact cancelOpen_out _ rfl
  | cancelled => exact cancelOpen_out _ rfl
  | accepted => exact ⟨_, rfl, rfl⟩
  | pending => exact ⟨_, rfl, rfl⟩
  | deferred => exact ⟨_, rfl, rfl⟩
  | completed => exact absurd rfl unfinished

theorem allows_closed (allowed : s.allows part content) (opened : s.cancelOpen.session = some r) :
    (r.state = .closed .accepted → view part .accepted r.result = some content) ∧
      (r.state = .closed .cancelled → 2 ≤ r.seq → content = .cancelled) := by
  unfold Requester.cancelOpen at opened
  unfold allows at allowed
  split at opened
  · next unopened => cases unopened.symm.trans opened
  · next r₀ session =>
    simp only [session] at allowed
    split at opened
    · next isOpen =>
      cases opened
      simp only [isOpen] at allowed
      exact ⟨(by rintro ⟨⟩), fun _ late => allowed (.inr (Nat.lt_of_succ_lt_succ late))⟩
    · cases session.symm.trans opened
      refine ⟨fun closed => by simpa only [closed] using allowed, fun closed _ => ?_⟩
      simp only [closed] at allowed
      exact (Option.some.inj allowed).symm

theorem Shows.completes (shows' : s.Shows part) (allowed : s.allows part content) :
    Shows part { s.cancelOpen with out := s.cancelOpen.out.map (Out.complete seq content) } := by
  constructor
  · intro o r known opened completed closed
    obtain ⟨o₀, known₀, rfl⟩ := Option.map_eq_some_iff.mp known
    by_cases news : o₀.seq < seq
    · rw [Out.complete, if_pos news]
      exact (allows_closed allowed opened).1 closed
    · rw [Out.complete, if_neg news] at completed ⊢
      exact shows'.cancelOpen.accepted o₀ r known₀ opened completed closed
  · intro o r known opened completed closed late
    obtain ⟨o₀, known₀, rfl⟩ := Option.map_eq_some_iff.mp known
    by_cases news : o₀.seq < seq
    · rw [Out.complete, if_pos news]
      exact (allows_closed allowed opened).2 closed late
    · rw [Out.complete, if_neg news] at completed ⊢
      exact shows'.cancelOpen.cancelled o₀ r known₀ opened completed closed late

/-- The request shows how its session closed, over one step. -/
theorem Shows.step (shows' : s.Shows part) (step : s.Step part arrived label s') : s'.Shows part := by
  cases step with
  | idle => exact shows'
  | echoes m old => exact ⟨shows'.accepted, shows'.cancelled⟩
  | submits unknown => exact .of_unfinished rfl (by simp)
  | opens o known unopened => exact .of_live rfl rfl
  | reviews o x state known live isOpen came review => exact .of_live rfl (State.live_of_underReview review)
  | reopens review => exact .of_live rfl rfl
  | releases quarantined => exact .of_live rfl rfl
  | accepts content awaiting shown => exact .close rfl shown
  | discards quarantined => exact .close rfl rfl
  | cancels => exact shows'.cancelOpen
  | hears o state seq known news unfinished =>
    obtain ⟨o', known', same⟩ := hear_out unfinished
    exact .of_unfinished known' (same ▸ unfinished)
  | completes seq content allowed => exact shows'.completes allowed

/-! ## The end of the request ends an open session -/

def Ended (s : Requester ρ κ) : Prop := ∀ o r, s.out = some o → s.session = some r → o.state.ended → r.state ≠ .open

theorem Ended.of_notOpen (session : s.session = some r) (notOpen : r.state ≠ .open) : s.Ended := by
  intro o r' _ opened _
  cases session.symm.trans opened
  exact notOpen

theorem Ended.of_live (out : s.out = some o) (live : o.state.ended = false) : s.Ended := by
  intro o' r known _ ended
  cases out.symm.trans known
  rw [live] at ended
  cases ended

/-- After `cancelOpen` no session is open at all. -/
theorem cancelOpen_notOpen (opened : s.cancelOpen.session = some r) : r.state ≠ .open := by
  unfold Requester.cancelOpen at opened
  split at opened
  · next unopened => cases unopened.symm.trans opened
  · next r₀ session =>
    split at opened
    · cases opened
      rintro ⟨⟩
    · next notOpen =>
      cases session.symm.trans opened
      exact notOpen

/-- An ended request has no open session, over one step that does not reopen it. -/
theorem Ended.step (ended : s.Ended) (step : s.Step part arrived label s') (noReopen : label ≠ .reopening)
    (timely : label = .opening → ∀ o, s.out = some o → o.state.ended = false) : s'.Ended := by
  cases step with
  | idle => exact ended
  | echoes m old => exact ended
  | submits unknown => exact .of_live rfl rfl
  | opens o known unopened => exact .of_live known (timely rfl o known)
  | reviews o x state known live isOpen came review =>
    refine .of_notOpen rfl ?_
    rintro rfl
    cases review
  | reopens review => exact absurd rfl noReopen
  | releases quarantined => exact .of_notOpen rfl (by simp)
  | accepts content awaiting shown => exact .of_notOpen rfl (by simp)
  | discards quarantined => exact .of_notOpen rfl (by simp)
  | cancels => exact fun _ _ _ opened _ => cancelOpen_notOpen opened
  | hears o state seq known news unfinished =>
    cases state with
    | declined => exact fun _ _ _ opened _ => cancelOpen_notOpen opened
    | cancelled => exact fun _ _ _ opened _ => cancelOpen_notOpen opened
    | accepted => exact .of_live rfl rfl
    | pending => exact .of_live rfl rfl
    | deferred => exact .of_live rfl rfl
    | completed => exact absurd rfl unfinished
  | completes seq content allowed => exact fun _ _ _ opened _ => cancelOpen_notOpen opened

end Requester

end Agentnet.WorkSession.Protocol
