import Agentnet.Team.Introductions

/-! Re-entry into a team: a team of another owner becomes active only by a pending join. -/

namespace Agentnet.Team

open Lib

namespace Store

variable {s : Store} {e : Event} {id : TeamID}

def isActive (s : Store) (id : TeamID) : Bool := (s.teams.lookup id).any fun t => decide (t.state = .active)

theorem isActive_of_lookup {t : TeamRow} (found : s.teams.lookup id = some t) :
    s.isActive id = decide (t.state = .active) := by
  rw [isActive, found, Option.any_some]

theorem orElse_of {ε : Type} {motive : Store → Prop} {x : Except ε Store} (failed : motive s)
    (done : ∀ s', x = .ok s' → motive s') :
    motive (s.orElse x) := by
  cases same : x with
  | error => exact failed
  | ok s' => exact done s' same

/-- The two stores are of one daemon and have the same pending joins. -/
def Kept (s s' : Store) : Prop := s'.self = s.self ∧ s'.pendingJoins = s.pendingJoins

/-- No other event touches the pending joins. -/
theorem step_keeps (redeems : ∀ owner lookup, e.op ≠ .recordPendingJoin owner lookup)
    (roster : ∀ sender r, e.op ≠ .roster sender r) :
    Kept s (step s e) := by
  obtain ⟨now, op⟩ := e
  cases op with
  | pair | verify | removePeer | recordInvite | keys | ownerRemoved => exact ⟨rfl, rfl⟩
  | recordPendingJoin owner lookup => exact absurd rfl (redeems owner lookup)
  | roster sender r => exact absurd rfl (roster sender r)
  | create k name =>
    refine orElse_of (motive := Kept s) ⟨rfl, rfl⟩ ?_
    intro s' done
    obtain ⟨_, _, rfl⟩ := create_eq_ok done
    exact ⟨rfl, rfl⟩
  | rename k name =>
    refine orElse_of (motive := Kept s) ⟨rfl, rfl⟩ ?_
    intro s' done
    obtain ⟨_, _, _, rfl⟩ := rename_eq_ok done
    exact ⟨rfl, rfl⟩
  | removeMember k key =>
    refine orElse_of (motive := Kept s) ⟨rfl, rfl⟩ ?_
    intro s' done
    obtain ⟨_, _, _, _, rfl⟩ := removeMember_eq_ok done
    exact ⟨rfl, rfl⟩
  | delete k =>
    refine orElse_of (motive := Kept s) ⟨rfl, rfl⟩ ?_
    intro s' done
    obtain ⟨_, _, rfl⟩ := delete_eq_ok done
    exact ⟨rfl, rfl⟩
  | leave k =>
    refine orElse_of (motive := Kept s) ⟨rfl, rfl⟩ ?_
    intro s' done
    obtain ⟨_, _, _, rfl⟩ := leave_eq_ok done
    exact ⟨rfl, rfl⟩
  | join sender lookup =>
    refine orElse_of (motive := Kept s) ⟨rfl, rfl⟩ ?_
    intro s' done
    obtain ⟨_, applied, rfl⟩ := map_eq_ok.mp done
    obtain ⟨same, _⟩ | ⟨_, _, _, _, _, _, rfl, ⟨same, _⟩ | ⟨_, _, _, ⟨_, _, same⟩ | ⟨_, _, _, same⟩⟩⟩ :=
      applyJoin_cases applied <;> rw [same] <;> exact ⟨rfl, rfl⟩
  | leaveMail sender team created =>
    obtain same | ⟨_, _, _, _, _, same⟩ := applyLeave_cases s sender team created now
    · exact ⟨congrArg (fun x => x.1.self) same, congrArg (fun x => x.1.pendingJoins) same⟩
    · exact ⟨(congrArg (fun x => x.1.self) same).trans rfl, (congrArg (fun x => x.1.pendingJoins) same).trans rfl⟩

theorem step_roster (s : Store) (now : Time) (sender : PeerKey) (r : Roster) :
    step s ⟨now, .roster sender r⟩ = s ∨ ∃ s₀, s.Applies sender r now s₀ ∧
    step s ⟨now, .roster sender r⟩ = s₀.writeRoster r now := by
  refine orElse_of (motive := fun s' => s' = s ∨ ∃ s₀, s.Applies sender r now s₀ ∧
    s' = s₀.writeRoster r now) (.inl rfl) ?_
  intro s' done
  obtain ⟨_, applied, rfl⟩ := map_eq_ok.mp done
  obtain ⟨same, _⟩ | ⟨s₀, applies, same, _⟩ := applyRoster_cases applied
  · exact .inl same
  · exact .inr ⟨s₀, applies, same⟩

theorem mem_pendingJoins_step {j : PendingJoin} (mem : j ∈ (step s e).pendingJoins) :
    j ∈ s.pendingJoins ∨ e.op = .recordPendingJoin j.owner j.lookup := by
  by_cases redeems : ∃ owner lookup, e.op = .recordPendingJoin owner lookup
  · obtain ⟨owner, lookup, op⟩ := redeems
    obtain ⟨now, _⟩ := e
    cases op
    obtain mem | mem := List.mem_append.mp mem
    · exact .inl (List.mem_of_mem_filter mem)
    · cases List.mem_singleton.mp mem
      exact .inr rfl
  by_cases roster : ∃ sender r, e.op = .roster sender r
  · obtain ⟨sender, r, op⟩ := roster
    obtain ⟨now, _⟩ := e
    cases op
    obtain same | ⟨s₀, applies, same⟩ := step_roster s _ sender r
    · rw [same] at mem
      exact .inl mem
    · rw [same] at mem
      have mem : j ∈ s₀.pendingJoins := mem
      obtain ⟨rfl, _⟩ | ⟨⟨_, consumes⟩, _⟩ := applies.admitted
      · exact .inl mem
      · rw [consumes.rest] at mem
        exact .inl (List.mem_of_mem_filter mem)
  · rw [(step_keeps (fun owner lookup op => redeems ⟨owner, lookup, op⟩)
      (fun sender r op => roster ⟨sender, r, op⟩)).2] at mem
    exact .inl mem

theorem self_step (s : Store) (e : Event) : (step s e).self = s.self := by
  by_cases redeems : ∃ owner lookup, e.op = .recordPendingJoin owner lookup
  · obtain ⟨owner, lookup, op⟩ := redeems
    obtain ⟨now, _⟩ := e
    cases op
    rfl
  by_cases roster : ∃ sender r, e.op = .roster sender r
  · obtain ⟨sender, r, op⟩ := roster
    obtain ⟨now, _⟩ := e
    cases op
    obtain same | ⟨s₀, applies, same⟩ := step_roster s _ sender r
    · rw [same]
    · rw [same]
      exact applies.same.1
  · exact (step_keeps (fun owner lookup op => redeems ⟨owner, lookup,
      op⟩) (fun sender r op => roster ⟨sender, r, op⟩)).1

/-! ## Consent -/

theorem started_step {t : TeamRow} (found : (step s e).teams.lookup id = some t) (active : t.state = .active)
    (other : t.owner ≠ s.self) (before : s.isActive id = false) : ∃ r j, e.op = .roster t.owner r ∧ r.id = id ∧
    j ∈ s.pendingJoins ∧ j.owner = t.owner ∧ storeTime e.now < j.expires ∧
      ∀ k ∈ (step s e).pendingJoins, ¬ (k.owner = j.owner ∧ k.lookup = j.lookup) := by
  have team := step_team s e id
  rw [found] at team
  generalize same : some t = x at team
  cases team with
  | same =>
    rw [isActive_of_lookup same.symm, active] at before
    cases before
  | created =>
    cases same
    exact absurd rfl other
  | owned owned =>
    cases same
    exact absurd (owned.owner.trans owned.self) other
  | left =>
    cases same
    cases active
  | @roster sender r _ op applies sameID =>
    subst sameID
    cases same
    obtain ⟨now, _⟩ := e
    cases op
    cases applies.owner
    obtain same | ⟨s₀, applies, same⟩ := step_roster s _ r.owner r
    · rw [same] at found
      rw [isActive_of_lookup found, active] at before
      cases before
    obtain ⟨_, t, row, stillActive⟩ | ⟨⟨j, consumes⟩, _, _⟩ := applies.admitted
    · rw [isActive_of_lookup row, stillActive] at before
      cases before
    · refine ⟨r, j, rfl, rfl, consumes.mem, consumes.made, consumes.live, ?_⟩
      intro k mem
      rw [same] at mem
      have mem : k ∈ s₀.pendingJoins := mem
      rw [consumes.rest, List.mem_filter, consumes.made.symm] at mem
      have other := mem.2
      rintro ⟨owner, lookup⟩
      simp [owner, lookup] at other

section Run

variable {self : PeerKey} {ownCard : Card} {es : List Event} {n m : Nat}

/-- The daemon after the first `n` events. -/
def after (self : PeerKey) (ownCard : Card) (es : List Event) (n : Nat) : Store :=
  runTo step (fresh self ownCard) es n

theorem after_succ {e : Event} (found : es[n]? = some e) :
    after self ownCard es (n + 1) = step (after self ownCard es n) e := runTo_succ found

theorem after_of_none (past : es[n]? = none) : after self ownCard es (n + 1) = after self ownCard es n :=
  runTo_of_none past

theorem self_after : (after self ownCard es n).self = self :=
  runTo_induction (motive := fun s : Store => s.self = self) (m := 0) rfl
    (fun _ e _ same => (self_step _ e).trans same) (Nat.zero_le n)

theorem redeemed {j : PendingJoin} (mem : j ∈ (after self ownCard es n).pendingJoins) :
    ∃ m, m < n ∧ (∃ now, es[m]? = some ⟨now, .recordPendingJoin j.owner j.lookup⟩) ∧ ∀ p, m < p → p ≤ n →
    j ∈ (after self ownCard es p).pendingJoins := by
  induction n with
  | zero => cases mem
  | succ n ih =>
    have since : j ∈ (after self ownCard es n).pendingJoins →
        ∃ m, m < n + 1 ∧ (∃ now, es[m]? = some ⟨now, .recordPendingJoin j.owner j.lookup⟩) ∧
        ∀ p, m < p → p ≤ n + 1 → j ∈ (after self ownCard es p).pendingJoins := by
      intro earlier
      obtain ⟨m, lt, made, since⟩ := ih earlier
      refine ⟨m, by omega, made, ?_⟩
      intro p past le
      obtain le | rfl := Nat.le_succ_iff.mp le
      · exact since p past le
      · exact mem
    cases found : es[n]? with
    | none =>
      apply since
      rwa [Store.after_of_none found] at mem
    | some e =>
      have stepped := mem
      rw [Store.after_succ found] at stepped
      obtain earlier | op := mem_pendingJoins_step stepped
      · exact since earlier
      · obtain ⟨now, _⟩ := e
        cases op
        refine ⟨n, by omega, ⟨now, found⟩, ?_⟩
        intro p past le
        obtain rfl : p = n + 1 := by omega
        exact mem

theorem owner_after {id : TeamID} {t : TeamRow}
    (found : (after self ownCard es m).teams.lookup id = some t) (le : m ≤ n) :
    ∃ t', (after self ownCard es n).teams.lookup id = some t' ∧ t'.owner = t.owner := by
  refine runTo_induction (motive := fun s : Store => ∃ t', s.teams.lookup id = some t' ∧
    t'.owner = t.owner) ⟨t, found, rfl⟩ ?_ le
  rintro p e _ ⟨t', found, owner⟩
  obtain ⟨t'', found', owner', _⟩ := team_step _ e found
  exact ⟨t'', found', owner'.trans owner⟩

end Run

end Store

/-! ## Runs -/

/-- The step ends the team `id` for this daemon. -/
def Stopped (s s' : Store) (id : TeamID) : Prop := s.isActive id = true ∧ s'.isActive id = false

/-- The step makes the team `id`, now the row `t`, active, and another peer owns it. -/
structure Started (s s' : Store) (id : TeamID) (t : TeamRow) : Prop where
  found : s'.teams.lookup id = some t
  active : t.state = .active
  other : t.owner ≠ s.self
  before : s.isActive id = false

instance (s s' : Store) (id : TeamID) : Decidable (Stopped s s' id) := inferInstanceAs (Decidable (_ ∧ _))

/-- When a team of another owner stops being active, every pending join with its owner has expired. -/
def Spent (s : Store) (e : Event) : Prop :=
  ∀ x ∈ s.teams.entries, x.2.owner ≠ s.self → Stopped s (step s e) x.1 → ∀ j ∈ s.pendingJoins, j.owner = x.2.owner →
  j.expires ≤ storeTime e.now

instance (s : Store) (e : Event) : Decidable (Spent s e) :=
  inferInstanceAs (Decidable (∀ x ∈ s.teams.entries, x.2.owner ≠ s.self → Stopped s (step s e) x.1 →
    ∀ j ∈ s.pendingJoins, _ → _))

/-- The `n`-th event made the team active by the pending join that the `m`-th event made, since which the team has
not stopped. -/
structure Consented (me : PeerKey) (ownCard : Card) (es : List Event) (n m : Nat) (id : TeamID)
    (owner : PeerKey) : Prop where
  earlier : m < n
  roster : ∃ now r, es[n]? = some ⟨now, .roster owner r⟩ ∧ r.id = id
  /-- The row was there from the moment the user redeemed the invite, and this event deletes it. -/
  redeemed : ∃ now lookup, es[m]? = some ⟨now, .recordPendingJoin owner lookup⟩ ∧
    (∀ p, m < p → p ≤ n → ∃ j ∈ (Store.after me ownCard es p).pendingJoins, j.owner = owner ∧ j.lookup = lookup) ∧
    ∀ j ∈ (Store.after me ownCard es (n + 1)).pendingJoins, ¬ (j.owner = owner ∧ j.lookup = lookup)
  since : ∀ p, m ≤ p → p < n → ¬ Stopped (Store.after me ownCard es p) (Store.after me ownCard es (p + 1)) id

open Store (after fresh)

variable {self : PeerKey} {ownCard : Card} {es : List Event}

/-- One redeemed invite starts one team. -/
theorem Consented.unique {n n' m : Nat} {id id' : TeamID} {owner owner' : PeerKey}
    (first : Consented self ownCard es n m id owner) (second : Consented self ownCard es n' m id' owner') :
    n' = n ∧ id' = id := by
  have not_before : ∀ {n n' id id' owner owner'}, Consented self ownCard es n m id owner →
      Consented self ownCard es n' m id' owner' → ¬ n < n' := by
    intro n n' id id' owner owner' first second lt
    obtain ⟨_, _, made, _, gone⟩ := first.redeemed
    obtain ⟨_, _, made', there, _⟩ := second.redeemed
    cases made.symm.trans made'
    obtain ⟨j, mem, key⟩ := there (n + 1) (by have := first.earlier; omega) lt
    exact gone j mem key
  have same : n' = n := by
    have := not_before first second
    have := not_before second first
    omega
  subst same
  obtain ⟨_, _, found, rfl⟩ := first.roster
  obtain ⟨_, _, found', rfl⟩ := second.roster
  cases found.symm.trans found'
  exact ⟨rfl, rfl⟩

/-- A team that starts was consented to before. -/
theorem exists_consented {t₀ : Time} (clocked : Clocked Event.now t₀ es)
    (follows : Follows step Spent (fresh self ownCard) es) {n : Nat} {id : TeamID} {t : TeamRow}
    (started : Started (after self ownCard es n) (after self ownCard es (n + 1)) id t) :
    ∃ m, Consented self ownCard es n m id t.owner := by
  obtain ⟨found, active, other, before⟩ := started
  cases event : es[n]? with
  | none =>
    rw [Store.after_of_none event] at found
    rw [Store.isActive_of_lookup found, active] at before
    cases before
  | some e =>
    have stepped := found
    rw [Store.after_succ event] at stepped
    obtain ⟨r, j, op, sameID, mem, owner, live, gone⟩ := Store.started_step stepped active other before
    obtain ⟨m, lt, ⟨now, made⟩, there⟩ := Store.redeemed mem
    obtain ⟨now', _⟩ := e
    cases op
    refine ⟨m, lt, ⟨now', r, event, sameID⟩, ⟨now, j.lookup, owner ▸ made, ?_, ?_⟩, ?_⟩
    · intro p past le
      exact ⟨j, there p past le, owner, rfl⟩
    · intro k mem
      rw [Store.after_succ event] at mem
      exact owner ▸ gone k mem
    · intro p past before stopped
      -- The join was stored when the team stopped, so it had expired by then and all the more at this event.
      cases stops : es[p]? with
      | none =>
        obtain ⟨active, ended⟩ := stopped
        rw [Store.after_of_none stops] at ended
        cases active.symm.trans ended
      | some f =>
        obtain ⟨active, ended⟩ := stopped
        obtain rfl | past := Nat.eq_or_lt_of_le past
        · cases made.symm.trans stops
          rw [Store.after_succ stops] at ended
          cases active.symm.trans ended
        rw [Store.isActive, Option.any_eq_true] at active
        obtain ⟨t₁, row, active⟩ := active
        obtain ⟨t₂, later, sameOwner⟩ := Store.owner_after row (n := n + 1) (by omega)
        cases found.symm.trans later
        rw [Store.after_succ stops] at ended
        have spent : Spent (after self ownCard es p) f := follows.at stops
        have expired := spent ⟨id, t₁⟩ (AList.mem_lookup_iff.mp row) ?_ ⟨?_,
            ended⟩ j (there p past (by omega)) (owner.trans sameOwner)
        · have later := clocked.le (Nat.le_of_lt before) stops event
          have := storeTime_mono later
          exact absurd live (not_lt.mpr (expired.trans this))
        · rw [← sameOwner, Store.self_after]
          rwa [Store.self_after] at other
        · exact (Store.isActive_of_lookup row).trans active

/-- Every start of a team of another owner has a pending join of its own, which the user made after the team last
stopped. -/
theorem reentry_needs_consent {t₀ : Time} (clocked : Clocked Event.now t₀ es)
    (follows : Follows step Spent (fresh self ownCard) es) :
    ∃ made : Nat → Nat, ∀ n id t, Started (after self ownCard es n) (after self ownCard es (n + 1)) id t →
      Consented self ownCard es n (made n) id t.owner ∧
        ∀ n' id' t', Started (after self ownCard es n') (after self ownCard es (n' + 1)) id' t' → made n' = made n →
        n' = n ∧ id' = id := by
  have choice : ∀ n, ∃ m, ∀ id t, Started (after self ownCard es n) (after self ownCard es (n + 1)) id t →
      Consented self ownCard es n m id t.owner := by
    intro n
    by_cases starts : ∃ id t, Started (after self ownCard es n) (after self ownCard es (n + 1)) id t
    · obtain ⟨id, t, started⟩ := starts
      obtain ⟨m, consented⟩ := exists_consented clocked follows started
      refine ⟨m, ?_⟩
      intro id' t' started'
      obtain ⟨_, consented'⟩ := exists_consented clocked follows started'
      obtain ⟨_, r, event, rfl⟩ := consented.roster
      obtain ⟨_, r', event', rfl⟩ := consented'.roster
      have same := event.symm.trans event'
      rw [Option.some.injEq, Event.mk.injEq, Op.roster.injEq] at same
      obtain ⟨_, _, rfl⟩ := same
      obtain rfl := Option.some.inj (started.found.symm.trans started'.found)
      exact consented
    · exact ⟨0, fun id t started => absurd ⟨id, t, started⟩ starts⟩
  choose made consented using choice
  refine ⟨made, fun n id t started => ⟨consented n id t started, ?_⟩⟩
  intro n' id' t' started' same
  exact (consented n id t started).unique (same ▸ consented n' id' t' started')

/-! ## Two invites of one owner -/

def boss : PeerKey := "boss"
def kim : PeerKey := "kim"
def crew : TeamID := "t-00000000000000000000000000000000"

def cardOf (key : PeerKey) : Card := ⟨key, key, ""⟩

/-- The roster of `boss` that lists `kim`. -/
def crewRoster (epoch : Int) : Roster where
  id := crew
  name := "crew"
  owner := boss
  epoch := epoch
  state := .active
  members := [boss, kim].map fun key => ⟨key, 0, cardOf key, none⟩

def events (ops : List Op) : List Event := ops.map (⟨0, ·⟩)

/-- `kim` redeems two invites, leaves the team and is listed again. -/
def revived : List Event := events [.pair (cardOf boss) .code none, .recordPendingJoin boss "a",
    .recordPendingJoin boss "b", .roster boss (crewRoster 1),
  .leave crew, .roster boss (crewRoster 2)]

theorem started_of_isActive {s s' : Store} {id : TeamID} (before : s.isActive id = false)
    (active : s'.isActive id = true)
    (other : (s'.teams.lookup id).any (fun t => decide (t.owner = s.self)) = false) : ∃ t, Started s s' id t := by
  rw [Store.isActive, Option.any_eq_true] at active
  obtain ⟨t, found, active⟩ := active
  rw [found, Option.any_some] at other
  exact ⟨t, found, of_decide_eq_true active, of_decide_eq_false other, before⟩

/-- The second pending join, made before the team was left, makes it active again. -/
theorem revived_without_consent : Clocked Event.now 0 revived ∧
    Stopped (after kim (cardOf kim) revived 4) (after kim (cardOf kim) revived 5) crew ∧
    (∃ t, Started (after kim (cardOf kim) revived 5) (after kim (cardOf kim) revived 6) crew t) ∧
    ∀ m now owner lookup, revived[m]? = some ⟨now, .recordPendingJoin owner lookup⟩ → m < 4 := by
  refine ⟨by decide, by decide +kernel,
    started_of_isActive (by decide +kernel) (by decide +kernel) (by decide +kernel), ?_⟩
  intro m now owner lookup made
  match m, made with
  | 0, _ | 1, _ | 2, _ | 3, _ => decide
  | 4, made | 5, made | n + 6, made => cases made

/-- `kim` redeems the second invite after leaving. -/
def rejoined : List Event :=
  events [.pair (cardOf boss) .code none, .recordPendingJoin boss "a", .roster boss (crewRoster 1), .leave crew,
    .recordPendingJoin boss "b", .roster boss (crewRoster 2)]

theorem rejoined_with_consent :
    (∃ t, Started (after kim (cardOf kim) rejoined 5) (after kim (cardOf kim) rejoined 6) crew t) ∧
    ∃ made : Nat → Nat, ∀ n id t,
    Started (after kim (cardOf kim) rejoined n) (after kim (cardOf kim) rejoined (n + 1)) id t →
      Consented kim (cardOf kim) rejoined n (made n) id t.owner ∧
        ∀ n' id' t', Started (after kim (cardOf kim) rejoined n')
          (after kim (cardOf kim) rejoined (n' + 1)) id' t' → made n' = made n → n' = n ∧ id' = id :=
  ⟨started_of_isActive (by decide +kernel) (by decide +kernel) (by decide +kernel),
    reentry_needs_consent (show Clocked Event.now 0 rejoined by decide) (by decide +kernel)⟩

end Agentnet.Team
