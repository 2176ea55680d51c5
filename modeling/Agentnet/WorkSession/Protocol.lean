import Agentnet.WorkSession.Session

/-! The session protocol in its own terms: an authority that numbers its
transitions and announces each one, and a mirror that follows announcements with a
higher number and submits results. Announcements and results only accumulate, so
they may be delivered late, in any order, more than once or not at all. A session
that was not opened yet counts as one in its initial state. -/

namespace Agentnet.WorkSession.Protocol

variable {ρ : Type}

/-- What an announcement carries: the state with its outcome, the number of the
transition, and the round. -/
structure Tuple where
  state : State
  seq : Nat
  round : Nat
  deriving DecidableEq

def Tuple.initial : Tuple := ⟨.open, 0, 1⟩

structure AuthorityRow (ρ : Type) extends Tuple where
  result : Option ρ

/-- `closes` counts the closes that were carried out. -/
structure Authority (ρ : Type) where
  row : AuthorityRow ρ
  announced : List Tuple
  closes : Nat

def Authority.initial : Authority ρ := ⟨⟨.initial, none⟩, [], 0⟩

/-- One transition of the authority. `arrived n x` is a submitted result `x` of
round `n`. -/
inductive Move (arrived : Nat → ρ → Prop) (r : AuthorityRow ρ) : AuthorityRow ρ → Prop where
  | result (x : ρ) (state : State) (isOpen : r.state = .open) (came : arrived r.round x)
      (review : state.underReview) : Move arrived r ⟨⟨state, r.seq + 1, r.round⟩, some x⟩
  | accept (awaiting : r.state = .awaitingResult) :
      Move arrived r ⟨⟨.closed .accepted, r.seq + 1, r.round⟩, r.result⟩
  | changes (review : r.state.underReview) :
      Move arrived r ⟨⟨.open, r.seq + 1, r.round + 1⟩, none⟩
  | release (quarantined : r.state = .quarantined) :
      Move arrived r ⟨⟨.awaitingResult, r.seq + 1, r.round⟩, r.result⟩
  | discard (quarantined : r.state = .quarantined) :
      Move arrived r ⟨⟨.closed .cancelled, r.seq + 1, r.round⟩, none⟩
  | cancel (isOpen : r.state = .open) :
      Move arrived r ⟨⟨.closed .cancelled, r.seq + 1, r.round⟩, r.result⟩

/-- A step of the authority. An old announcement may be repeated at any time. -/
inductive Authority.Step (arrived : Nat → ρ → Prop) (a : Authority ρ) : Authority ρ → Prop where
  | idle : Step arrived a a
  | moves (r : AuthorityRow ρ) (move : Move arrived a.row r) :
      Step arrived a
        { row := r, announced := a.announced ++ [r.toTuple]
          closes := a.closes + r.state.isClosed.toNat }
  | echoes (m : Tuple) (old : m ∈ a.announced) :
      Step arrived a { a with announced := a.announced ++ [m] }

/-- The mirror's row: the tuple it follows, its own last result and that one's round. -/
structure MirrorRow (ρ : Type) extends Tuple where
  result : Option ρ
  resultRound : Option Nat

structure Mirror (ρ : Type) where
  row : MirrorRow ρ
  submitted : List (Nat × ρ)
  closes : Nat

def Mirror.initial : Mirror ρ := ⟨⟨.initial, none, none⟩, [], 0⟩

def forgets (s : State) : Bool := s == .open || s == .closed .cancelled

/-- The row after following `m`. -/
def MirrorRow.follow (r : MirrorRow ρ) (m : Tuple) : MirrorRow ρ where
  toTuple := m
  result := if forgets m.state then none else r.result
  resultRound := if forgets m.state then none else r.resultRound

/-- A step of the mirror. It submits once per round, follows only a higher number, and
may close on its own when the authority does not speak the protocol. -/
inductive Mirror.Step (announced : Tuple → Prop) (b : Mirror ρ) : Mirror ρ → Prop where
  | idle : Step announced b b
  | submits (x : ρ) (isOpen : b.row.state = .open)
      (first : ¬(b.row.result.isSome ∧ b.row.resultRound = some b.row.round)) :
      Step announced b
        { b with row := { b.row with result := some x, resultRound := some b.row.round }
                 submitted := b.submitted ++ [(b.row.round, x)] }
  | follows (m : Tuple) (heard : announced m) (higher : b.row.seq < m.seq)
      (live : b.row.state.isClosed = false) :
      Step announced b
        { b with row := b.row.follow m, closes := b.closes + m.state.isClosed.toNat }
  | fallsBack (live : b.row.state.isClosed = false) :
      Step announced b
        { b with row := { b.row with state := .closed .cancelled }, closes := b.closes + 1 }

/-! ## The authority -/

/-- The announcements are the past of the row: numbered without repetition, with
rounds that grow with the numbers, and a close only at the end. -/
structure Authority.Inv (arrived : Nat → ρ → Prop) (a : Authority ρ) : Prop where
  round : 1 ≤ a.row.round
  bound : ∀ m ∈ a.announced, 1 ≤ m.seq ∧ m.seq ≤ a.row.seq ∧ 1 ≤ m.round ∧ m.round ≤ a.row.round
  top : ∀ m ∈ a.announced, m.seq = a.row.seq → m = a.row.toTuple
  order : ∀ m ∈ a.announced, ∀ m' ∈ a.announced, m.seq ≤ m'.seq → m.round ≤ m'.round
  fresh : ∀ m ∈ a.announced, m.state = .open → 2 ≤ m.round ∧ ∀ m' ∈ a.announced, m'.seq < m.seq → m'.round < m.round
  final : ∀ m ∈ a.announced, m.state.isClosed → m = a.row.toTuple
  reviewed : ∀ m ∈ a.announced, forgets m.state = false → ∃ x, arrived m.round x
  result : forgets a.row.state = false → ∃ x, a.row.result = some x ∧ arrived a.row.round x
  closes : a.closes = a.row.state.isClosed.toNat

theorem Authority.initial_inv (arrived : Nat → ρ → Prop) : (Authority.initial : Authority ρ).Inv arrived := by
  constructor <;> simp [Authority.initial, Tuple.initial, forgets]

variable {a a' : Authority ρ} {r r' : AuthorityRow ρ} {m : Tuple} {announced : Tuple → Prop} {b b' : Mirror ρ}

theorem Authority.Inv.mono {arrived arrived' : Nat → ρ → Prop}
    (inv : a.Inv arrived) (grows : ∀ n x, arrived n x → arrived' n x) : a.Inv arrived' :=
  { inv with
    reviewed := fun m old kept => by
      obtain ⟨x, came⟩ := inv.reviewed m old kept
      exact ⟨x, grows _ _ came⟩
    result := fun kept => by
      obtain ⟨x, stored, came⟩ := inv.result kept
      exact ⟨x, stored, grows _ _ came⟩ }

theorem Move.facts {arrived : Nat → ρ → Prop} (move : Move arrived r r') :
    r.state.isClosed = false ∧ r'.seq = r.seq + 1 ∧
      (r'.state = .open ∧ r'.round = r.round + 1 ∨ r'.state ≠ .open ∧ r'.round = r.round) := by
  cases move with
  | result x state isOpen came review =>
    refine ⟨by rw [isOpen]; rfl, rfl, .inr ⟨?_, rfl⟩⟩
    rintro rfl
    exact absurd review (by decide)
  | accept awaiting => exact ⟨by rw [awaiting]; rfl, rfl, .inr ⟨(by simp), rfl⟩⟩
  | changes review => exact ⟨State.live_of_underReview review, rfl, .inl ⟨rfl, rfl⟩⟩
  | release quarantined => exact ⟨by rw [quarantined]; rfl, rfl, .inr ⟨(by simp), rfl⟩⟩
  | discard quarantined => exact ⟨by rw [quarantined]; rfl, rfl, .inr ⟨(by simp), rfl⟩⟩
  | cancel isOpen => exact ⟨by rw [isOpen]; rfl, rfl, .inr ⟨(by simp), rfl⟩⟩

theorem Move.result_kept {arrived : Nat → ρ → Prop} (move : Move arrived r r')
    (before : forgets r.state = false → ∃ x, r.result = some x ∧ arrived r.round x)
    (after : forgets r'.state = false) : ∃ x, r'.result = some x ∧ arrived r'.round x := by
  cases move with
  | result x state isOpen came review => exact ⟨x, rfl, came⟩
  | accept awaiting => exact before (by rw [awaiting]; rfl)
  | changes review => cases after
  | release quarantined => exact before (by rw [quarantined]; rfl)
  | discard quarantined => cases after
  | cancel isOpen => cases after

theorem Authority.Inv.moves {arrived : Nat → ρ → Prop} (inv : a.Inv arrived) (move : Move arrived a.row r) :
    Authority.Inv arrived
      { row := r, announced := a.announced ++ [r.toTuple]
        closes := a.closes + r.state.isClosed.toNat } := by
  obtain ⟨live, seq, round⟩ := move.facts
  have rounds : a.row.round ≤ r.round := by omega
  -- No earlier announcement was a close: it would be the row's own tuple.
  have past : ∀ m ∈ a.announced, m.state.isClosed = false := by
    intro m old
    by_contra closed
    have same := inv.final m old (by simpa using closed)
    rw [same, live] at closed
    exact closed rfl
  have mem : ∀ {m}, m ∈ a.announced ++ [r.toTuple] → m ∈ a.announced ∨ m = r.toTuple := by simp
  constructor
  · exact inv.round.trans rounds
  · intro m heard
    rcases mem heard with old | rfl
    · have := inv.bound m old
      simp only
      omega
    · have := inv.round
      simp only
      omega
  · intro m heard same
    rcases mem heard with old | rfl
    · have := inv.bound m old
      simp only at same
      omega
    · rfl
  · intro m heard m' heard' le
    rcases mem heard with old | rfl <;> rcases mem heard' with old' | rfl
    · exact inv.order m old m' old' le
    · exact (inv.bound m old).2.2.2.trans rounds
    · have := inv.bound m' old'
      omega
    · exact le_rfl
  · intro m heard isOpen
    rcases mem heard with old | rfl
    · refine ⟨(inv.fresh m old isOpen).1, fun m' heard' lt => ?_⟩
      rcases mem heard' with old' | rfl
      · exact (inv.fresh m old isOpen).2 m' old' lt
      · have := inv.bound m old
        omega
    · have next : r.round = a.row.round + 1 := by
        rcases round with ⟨_, next⟩ | ⟨no, _⟩
        · exact next
        · exact absurd isOpen no
      have := inv.round
      refine ⟨by omega, fun m' heard' lt => ?_⟩
      rcases mem heard' with old' | rfl
      · have := inv.bound m' old'
        omega
      · omega
  · intro m heard closed
    rcases mem heard with old | rfl
    · rw [past m old] at closed
      cases closed
    · rfl
  · intro m heard kept
    rcases mem heard with old | rfl
    · exact inv.reviewed m old kept
    · obtain ⟨x, _, came⟩ := move.result_kept inv.result kept
      exact ⟨x, came⟩
  · exact move.result_kept inv.result
  · simp only [inv.closes, live, Bool.toNat_false, Nat.zero_add]

theorem Authority.Inv.echoes {arrived : Nat → ρ → Prop} (inv : a.Inv arrived) (old : m ∈ a.announced) :
    Authority.Inv arrived { a with announced := a.announced ++ [m] } := by
  have mem : ∀ x, x ∈ a.announced ++ [m] ↔ x ∈ a.announced := by
    intro x
    simp only [List.mem_append, List.mem_singleton, or_iff_left_iff_imp]
    rintro rfl
    exact old
  exact
    { round := inv.round
      bound := fun x heard => inv.bound x ((mem x).mp heard)
      top := fun x heard => inv.top x ((mem x).mp heard)
      order := fun x heard y heard' => inv.order x ((mem x).mp heard) y ((mem y).mp heard')
      fresh := fun x heard isOpen =>
        ⟨(inv.fresh x ((mem x).mp heard) isOpen).1,
          fun y heard' => (inv.fresh x ((mem x).mp heard) isOpen).2 y ((mem y).mp heard')⟩
      final := fun x heard => inv.final x ((mem x).mp heard)
      reviewed := fun x heard => inv.reviewed x ((mem x).mp heard)
      result := inv.result
      closes := inv.closes }

/-- The authority's half. -/
theorem Authority.Inv.step {arrived : Nat → ρ → Prop} (inv : a.Inv arrived) (step : a.Step arrived a') :
    a'.Inv arrived := by
  cases step with
  | idle => exact inv
  | moves r move => exact inv.moves move
  | echoes m old => exact inv.echoes old

theorem Authority.Step.closed {arrived : Nat → ρ → Prop} (step : a.Step arrived a')
    (closed : a.row.state.isClosed) : a'.row = a.row := by
  cases step with
  | idle => rfl
  | moves r move => rw [move.facts.1] at closed; cases closed
  | echoes m old => rfl

theorem Authority.Step.quarantined {arrived : Nat → ρ → Prop} (step : a.Step arrived a')
    (before : a.row.state = .quarantined) (after : a'.row.state = .quarantined) : a'.row = a.row := by
  cases step with
  | idle => rfl
  | echoes m old => rfl
  | moves r move =>
    cases move with
    | result x state isOpen came review => cases isOpen.symm.trans before
    | accept awaiting => cases after
    | changes review => cases after
    | release quarantined => cases after
    | discard quarantined => cases after
    | cancel isOpen => cases after

/-- A change of the row takes the next number. -/
theorem Authority.Step.seq {arrived : Nat → ρ → Prop} (step : a.Step arrived a') :
    a'.row = a.row ∨ a'.row.seq = a.row.seq + 1 := by
  cases step with
  | idle => exact .inl rfl
  | moves r move => exact .inr move.facts.2.1
  | echoes m old => exact .inl rfl

theorem Authority.Step.announces {arrived : Nat → ρ → Prop} (step : a.Step arrived a') (heard : m ∈ a'.announced) :
    m ∈ a.announced ∨ m = a'.row.toTuple := by
  cases step with
  | idle => exact .inl heard
  | moves r move => simpa using heard
  | echoes m' old =>
    rcases List.mem_append.mp heard with h | h
    · exact .inl h
    · exact .inl (by rwa [List.mem_singleton.mp h])

/-! ## The mirror -/

/-- The mirror never goes back. -/
theorem Mirror.Step.seq (step : b.Step announced b') : b.row.seq ≤ b'.row.seq := by
  cases step with
  | idle => exact le_rfl
  | submits x isOpen first => exact le_rfl
  | follows m heard higher live => exact higher.le
  | fallsBack live => exact le_rfl

/-- A closed mirror stays as it is. -/
theorem Mirror.Step.closed (step : b.Step announced b') (closed : b.row.state.isClosed) :
    b'.row.toTuple = b.row.toTuple := by
  cases step with
  | idle => rfl
  | submits x isOpen first => rfl
  | follows m heard higher live => rw [live] at closed; cases closed
  | fallsBack live => rw [live] at closed; cases closed

/-! ## The two parties -/

structure System (ρ : Type) where
  authority : Authority ρ
  mirror : Mirror ρ

namespace System

/-- The worker has submitted the result in this round. -/
def arrived (s : System ρ) (n : Nat) (x : ρ) : Prop := (n, x) ∈ s.mirror.submitted

/-- The authority has announced the state. -/
def heard (s : System ρ) (m : Tuple) : Prop := m ∈ s.authority.announced

inductive Step (s : System ρ) : System ρ → Prop where
  | authority (a : Authority ρ) (step : s.authority.Step s.arrived a) : Step s { s with authority := a }
  | mirror (b : Mirror ρ) (step : s.mirror.Step s.heard b) : Step s { s with mirror := b }

/-- The mirror's number and round are those of an announcement, and its last result
is the only one of its round. -/
structure Inv (s : System ρ) : Prop where
  authority : s.authority.Inv s.arrived
  place : s.mirror.row.seq = 0 ∧ s.mirror.row.round = 1 ∨ ∃ m, s.heard m ∧ m.seq = s.mirror.row.seq ∧
    m.round = s.mirror.row.round
  state : s.mirror.row.toTuple = .initial ∨ s.heard s.mirror.row.toTuple ∨ s.mirror.row.state = .closed .cancelled
  past : ∀ n x, s.arrived n x → n ≤ s.mirror.row.round
  current : ∀ x, s.arrived s.mirror.row.round x → s.mirror.row.state ≠ .closed .cancelled →
    s.mirror.row.result = some x ∧ s.mirror.row.resultRound = some s.mirror.row.round
  held : ∀ x, s.mirror.row.result = some x →
    s.mirror.row.resultRound = some s.mirror.row.round ∧ s.arrived s.mirror.row.round x
  closes : s.mirror.closes = s.mirror.row.state.isClosed.toNat

def initial : System ρ := ⟨.initial, .initial⟩

theorem initial_inv : (initial : System ρ).Inv where
  authority := Authority.initial_inv _
  place := .inl ⟨rfl, rfl⟩
  state := .inl rfl
  past := by intros; contradiction
  current := by intros; contradiction
  held := by intros; contradiction
  closes := rfl

variable {s : System ρ}

variable {m : Tuple}

theorem Inv.round_le (inv : s.Inv) (heard : s.heard m) (higher : s.mirror.row.seq < m.seq) :
    s.mirror.row.round ≤ m.round ∧ (m.state = .open → s.mirror.row.round < m.round) := by
  rcases inv.place with ⟨seq, round⟩ | ⟨m', heard', seq, round⟩
  · have bound := inv.authority.bound m heard
    refine ⟨by omega, fun isOpen => ?_⟩
    have := (inv.authority.fresh m heard isOpen).1
    omega
  · have order := inv.authority.order m' heard' m heard (by omega)
    refine ⟨by omega, fun isOpen => ?_⟩
    have := (inv.authority.fresh m heard isOpen).2 m' heard' (by omega)
    omega

theorem live_ne_cancelled {st : State} (live : st.isClosed = false) : st ≠ .closed .cancelled := by
  rintro rfl
  cases live

theorem Inv.result_of_arrived (inv : s.Inv) (live : s.mirror.row.state.isClosed = false) {x : ρ}
    (came : s.arrived s.mirror.row.round x) :
    s.mirror.row.result = some x ∧ s.mirror.row.resultRound = some s.mirror.row.round :=
  inv.current x came (live_ne_cancelled live)

theorem Inv.follows (inv : s.Inv) (heard : s.heard m)
    (higher : s.mirror.row.seq < m.seq) (live : s.mirror.row.state.isClosed = false) : Inv { s with mirror :=
      { s.mirror with row := s.mirror.row.follow m
                      closes := s.mirror.closes + m.state.isClosed.toNat } } where
  authority := inv.authority
  place := .inr ⟨m, heard, rfl, rfl⟩
  state := .inr (.inl heard)
  past := fun n x came => (inv.past n x came).trans (inv.round_le heard higher).1
  current := by
    intro x came kept
    have le := inv.past m.round x came
    have ge := inv.round_le heard higher
    have same : s.mirror.row.round = m.round := by
      change m.round ≤ s.mirror.row.round at le
      omega
    have notOpen : m.state ≠ .open := fun isOpen => absurd (ge.2 isOpen) (by omega)
    have keeps : forgets m.state = false := by simpa [forgets] using ⟨notOpen, kept⟩
    have held := inv.result_of_arrived live (x := x) (by rw [same]; exact came)
    simp only [MirrorRow.follow, keeps, Bool.false_eq_true, if_false]
    rw [same] at held
    exact held
  held := by
    intro x stored
    simp only [MirrorRow.follow] at stored ⊢
    split at stored
    · cases stored
    next keeps =>
    -- A result of the announced round arrived, so the mirror is in that round already.
    have keeps' : forgets m.state = false := by simpa using keeps
    obtain ⟨y, came⟩ := inv.authority.reviewed m heard keeps'
    have le := inv.past m.round y came
    have ge := (inv.round_le heard higher).1
    have same : s.mirror.row.round = m.round := by omega
    have own := inv.held x stored
    rw [same] at own
    rw [if_neg keeps]
    exact own
  closes := by simp [MirrorRow.follow, inv.closes, live]

theorem Inv.submits (inv : s.Inv) {x : ρ} (isOpen : s.mirror.row.state = .open)
    (first : ¬(s.mirror.row.result.isSome ∧
      s.mirror.row.resultRound = some s.mirror.row.round)) : Inv { s with mirror :=
      { s.mirror with
        row := { s.mirror.row with result := some x, resultRound := some s.mirror.row.round }
        submitted := s.mirror.submitted ++ [(s.mirror.row.round, x)] } } where
  authority := inv.authority.mono fun n y came => List.mem_append_left _ came
  __ := inv
  past := by
    intro n y came
    rcases List.mem_append.mp came with old | new
    · exact inv.past n y old
    · have same : n = s.mirror.row.round := (Prod.mk.inj (List.mem_singleton.mp new)).1
      exact same.le
  current := by
    intro y came _
    rcases List.mem_append.mp came with old | new
    · have held := inv.result_of_arrived (by rw [isOpen]; rfl) old
      exact absurd ⟨by rw [held.1]; rfl, held.2⟩ first
    · exact ⟨by rw [(Prod.mk.inj (List.mem_singleton.mp new)).2], rfl⟩
  held := by
    rintro y ⟨⟩
    exact ⟨rfl, List.mem_append_right _ (List.mem_singleton.mpr rfl)⟩

theorem Inv.fallsBack (inv : s.Inv) (live : s.mirror.row.state.isClosed = false) : Inv { s with mirror :=
      { s.mirror with row := { s.mirror.row with state := .closed .cancelled }
                      closes := s.mirror.closes + 1 } } where
  __ := inv
  state := .inr (.inr rfl)
  current := fun _ _ kept => absurd rfl kept
  closes := by simp [inv.closes, live]

/-- The invariant of the protocol, over every step. -/
theorem Inv.step {s' : System ρ} (inv : s.Inv) (step : s.Step s') : s'.Inv := by
  cases step with
  | authority a step =>
    have grows : ∀ m, s.heard m → m ∈ a.announced := by
      intro m heard
      cases step with
      | idle => exact heard
      | moves r move => exact List.mem_append_left _ heard
      | echoes m' old => exact List.mem_append_left _ heard
    exact
      { authority := inv.authority.step step
        place := inv.place.imp_right fun ⟨m, heard, same⟩ => ⟨m, grows m heard, same⟩
        state := inv.state.imp_right (Or.imp_left (grows _))
        past := inv.past
        current := inv.current
        held := inv.held
        closes := inv.closes }
  | mirror b step =>
    cases step with
    | idle => exact inv
    | submits x isOpen first => exact inv.submits isOpen first
    | follows m heard higher live => exact inv.follows heard higher live
    | fallsBack live => exact inv.fallsBack live

theorem Inv.agreement (inv : s.Inv) (heard : s.heard m)
    (higher : s.mirror.row.seq < m.seq) (live : s.mirror.row.state.isClosed = false)
    (accepted : m.state = .closed .accepted) :
    s.authority.row.toTuple = m ∧ ∃ x, s.authority.row.result = some x ∧
      s.mirror.row.result = some x ∧ s.mirror.row.resultRound = some m.round := by
  have final := inv.authority.final m heard (by rw [accepted]; rfl)
  obtain ⟨x, stored, came⟩ := inv.authority.result (by rw [← final, accepted]; rfl)
  have round : s.authority.row.round = m.round := by rw [final]
  have le := inv.past _ _ came
  have ge := (inv.round_le heard higher).1
  have same : s.mirror.row.round = m.round := by omega
  have held := inv.result_of_arrived live (x := x) (by rw [same, ← round]; exact came)
  rw [same] at held
  exact ⟨final.symm, x, stored, held⟩

end System

end Agentnet.WorkSession.Protocol
