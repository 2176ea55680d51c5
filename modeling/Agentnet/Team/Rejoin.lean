import Agentnet.Team.Consent

/-! A `team.leave` that was under way while its sender was invited again. -/

namespace Agentnet.Team

open Lib

namespace Store

variable {s : Store} {e : Event} {team : TeamID} {peer : PeerKey} {a : WireTime}

/-- The own team lists the peer since `a`. -/
def Lists (s : Store) (team : TeamID) (peer : PeerKey) (a : WireTime) : Prop :=
  ∃ t, s.teams.lookup team = some t ∧ t.owner = s.self ∧ t.members.lookup peer = some a

/-- The event is a join of the peer that succeeds. -/
def joins (s : Store) (e : Event) (team : TeamID) (peer : PeerKey) : Bool :=
  match e.op with
  | .join sender lookup =>
    match s.applyJoin sender lookup e.now with
    | .ok (_, .joined _) => decide (sender = peer) && (s.invites.lookup lookup).any fun i => decide (i.team = team)
    | _ => false
  | _ => false

variable {id : TeamID} {t : TeamRow} {es : List Event} {self : PeerKey} {created : WireTime} {now : Time}

theorem lists_setTeam (h : Lists (s.setTeam id t) team peer a) :
    (team = id ∧ t.owner = s.self ∧ t.members.lookup peer = some a) ∨ Lists s team peer a := by
  obtain ⟨t', found, own, added⟩ := h
  by_cases same : team = id
  · subst same
    rw [setTeam, AList.lookup_insert] at found
    cases found
    exact .inl ⟨rfl, own, added⟩
  · rw [setTeam, AList.lookup_insert_ne same] at found
    exact .inr ⟨t', found, own, added⟩

/-- A change of an own team that gives the peer no new row. -/
theorem lists_owned {t' : TeamRow} (h : Lists (s.setTeam id t') team peer a) (found : s.teams.lookup id = some t)
    (owner : t'.owner = t.owner) (kept : t'.members.lookup peer = some a → t.members.lookup peer = some a) :
    Lists s team peer a := by
  obtain ⟨rfl, own, added⟩ | before := lists_setTeam h
  · exact ⟨t, found, owner.symm.trans own, kept added⟩
  · exact before

theorem lists_orElse {ε : Type} {x : Except ε Store} (h : Lists (s.orElse x) team peer a)
    (done : ∀ s', x = .ok s' → Lists s' team peer a → Lists s team peer a) : Lists s team peer a :=
  orElse_of (motive := fun s' => Lists s' team peer a → Lists s team peer a) (fun h => h) done h

theorem lookup_erase_some {members : Dict PeerKey WireTime} {key : PeerKey}
    (found : (members.erase key).lookup peer = some a) :
    members.lookup peer = some a := by
  by_cases same : peer = key
  · rw [same, AList.lookup_erase] at found
    cases found
  · rwa [AList.lookup_erase_ne same] at found

/-- Only a join of the peer lists it, with the time of the owner. -/
theorem lists_step (other : peer ≠ s.self) (outside : ∀ r, e.op ≠ .roster s.self r)
    (h : Lists (step s e) team peer a) :
    Lists s team peer a ∨ (a = wireTime e.now ∧ s.joins e team peer = true) := by
  obtain ⟨now, op⟩ := e
  cases op with
  | pair | verify | removePeer | recordInvite | recordPendingJoin | keys => exact .inl h
  | create id name =>
    refine .inl (lists_orElse h fun s' done h => ?_)
    obtain ⟨-, -, rfl⟩ := create_eq_ok done
    obtain ⟨rfl, -, added⟩ | before := lists_setTeam h
    · rw [newTeam, AList.lookup_insert_ne other, AList.lookup_empty] at added
      cases added
    · exact before
  | rename id name =>
    refine .inl (lists_orElse h fun s' done h => ?_)
    obtain ⟨-, t, owned, rfl⟩ := rename_eq_ok done
    exact lists_owned h owned.found rfl fun added => added
  | removeMember id key =>
    refine .inl (lists_orElse h fun s' done h => ?_)
    obtain ⟨t, owned, -, -, rfl⟩ := removeMember_eq_ok done
    exact lists_owned h owned.found rfl lookup_erase_some
  | delete id =>
    refine .inl (lists_orElse h fun s' done h => ?_)
    obtain ⟨t, owned, rfl⟩ := delete_eq_ok done
    exact lists_owned h owned.found rfl fun added => added
  | leave id =>
    refine .inl (lists_orElse h fun s' done h => ?_)
    obtain ⟨t, found, -, rfl⟩ := leave_eq_ok done
    exact lists_owned (h : Lists (s.setTeam id _) team peer a) found rfl fun added => added
  | ownerRemoved owner =>
    obtain ⟨t, found, own, added⟩ := h
    change (Dict.mapValues s.teams fun _ t => leaveTeam owner now t).lookup team = some t at found
    rw [Dict.lookup_mapValues] at found
    obtain ⟨t', before, rfl⟩ := Option.map_eq_some_iff.mp found
    have same : (leaveTeam owner now t').owner = t'.owner ∧ (leaveTeam owner now t').members = t'.members := by
      rw [leaveTeam]
      split <;> exact ⟨rfl, rfl⟩
    rw [same.2] at added
    exact .inl ⟨t', before, same.1.symm.trans own, added⟩
  | roster sender r =>
    obtain same | ⟨s₀, applies, same⟩ := step_roster s now sender r
    · exact .inl (same ▸ h)
    · obtain ⟨self, -, teams⟩ := applies.same
      obtain ⟨t, found, own, added⟩ := h
      rw [same, writeRoster_teams, teams] at found
      rw [same, show (s₀.writeRoster r now).self = s.self from self] at own
      by_cases written : team = r.id
      · subst written
        rw [AList.lookup_insert] at found
        cases found
        cases applies.owner
        exact absurd (congrArg (Op.roster · r) (show r.owner = s.self from own)) (outside r)
      · rw [AList.lookup_insert_ne written] at found
        exact .inl ⟨t, found, own, added⟩
  | join sender lookup =>
    change Lists (s.orElse ((s.applyJoin sender lookup now).map Prod.fst)) team peer a at h
    cases applied : s.applyJoin sender lookup now with
    | error => exact .inl (by rwa [applied] at h)
    | ok result =>
      obtain ⟨s', o⟩ := result
      rw [applied] at h
      change Lists s' team peer a at h
      obtain ⟨rfl, -⟩ | ⟨i, invited, sent, -, -, spent, rfl,
        ⟨rfl, -⟩ | ⟨t, -, rfl, ⟨owned, -, rfl⟩ | ⟨owned, new, -, rfl⟩⟩⟩ := applyJoin_cases applied
      · exact .inl h
      · exact .inl h
      · exact .inl (lists_owned (h : Lists (s.setTeam i.team _) team peer a) owned.found rfl fun added => added)
      · obtain ⟨rfl, own, added⟩ | before := lists_setTeam (h : Lists (s.setTeam i.team _) team peer a)
        · by_cases same : peer = sender
          · subst same
            rw [TeamRow.bumpEpoch, AList.lookup_insert] at added
            cases added
            exact .inr ⟨rfl, by simp [joins, applied, invited]⟩
          · rw [TeamRow.bumpEpoch, AList.lookup_insert_ne same] at added
            exact .inl ⟨t, owned.found, owned.self, added⟩
        · exact .inl before
  | leaveMail sender id created =>
    change Lists (s.applyLeave sender id created now).1 team peer a at h
    obtain same | ⟨t, -, owned, -, -, same⟩ := applyLeave_cases s sender id created now
    · exact .inl (by rwa [same] at h)
    · rw [same] at h
      exact .inl (lists_owned h owned.found rfl lookup_erase_some)

/-! ## Runs -/

/-- Every row of the peer in the own team has a time with `p`. -/
def Since (team : TeamID) (peer : PeerKey) (p : WireTime → Prop) (s : Store) : Prop := ∀ a, s.Lists team peer a → p a

/-- No roster of one's own comes in as a mail. -/
def Outside (self : PeerKey) (e : Event) : Prop := ∀ r, e.op ≠ .roster self r

theorem since_run (other : peer ≠ self) {p : WireTime → Prop} (own : s.self = self) (start : Since team peer p s)
    (quiet : Follows step (fun s e => Outside self e ∧ s.joins e team peer = false) s es) :
    Since team peer p (run step s es) := by
  refine (run_invariant_of (motive := fun s => s.self = self ∧ Since team peer p s) ?_ ⟨own, start⟩ quiet).2
  rintro s e ⟨rfl, since⟩ ⟨outside, none_⟩
  refine ⟨self_step s e, fun a h => ?_⟩
  obtain before | ⟨-, joined⟩ := lists_step other outside h
  · exact since a before
  · cases none_.symm.trans joined

theorem since_clock {ownCard : Card} (other : peer ≠ self) {t₀ : Time} (clocked : Clocked Event.now t₀ es)
    (outside : Follows step (fun _ e => Outside self e) (fresh self ownCard) es) :
    (run step (fresh self ownCard) es).self = self ∧
      Since team peer (· ≤ wireTime (clock Event.now t₀ es)) (run step (fresh self ownCard) es) := by
  refine run_clocked_of (motive := fun now s => s.self = self ∧
    Since team peer (· ≤ wireTime now) s) ?_ ⟨rfl, ?_⟩ clocked outside
  · rintro now s e ⟨rfl, since⟩ le outside
    refine ⟨self_step s e, fun a h => ?_⟩
    obtain before | ⟨rfl, -⟩ := lists_step other outside h
    · exact (since a before).trans (Int.ediv_le_ediv (by decide) le)
    · exact le_rfl
  · rintro a ⟨t, found, -⟩
    cases found.symm.trans (AList.lookup_empty team)

/-! ## Leaves -/

/-- The leave is older than the row by more than the skew. -/
theorem leave_stale (since : Since team peer (fun a => parseWireTime created + maxSkew < parseWireTime a) s) :
    s.applyLeave peer team created now = (s, false) := by
  obtain same | ⟨t, active, owned, member, listed, same⟩ := applyLeave_cases s peer team created now
  · exact same
  · obtain ⟨a, added⟩ := Option.ne_none_iff_exists'.mp listed
    have late := since a ⟨t, owned.found, owned.self, added⟩
    rw [applyLeave, owned.found]
    simp [active, owned.self.symm, member, added, late]

/-- A leave that is not older than the membership, up to the skew, removes it. -/
theorem leave_current (found : s.teams.lookup team = some t) (active : t.state = .active)
    (own : t.owner = s.self) (other : peer ≠ s.self)
    (since : Since team peer (fun a => parseWireTime a ≤ parseWireTime created + maxSkew) s) (a : WireTime) :
    ¬ Lists (s.applyLeave peer team created now).1 team peer a := by
  have notStale : ((t.members.lookup peer).any fun a =>
      decide (parseWireTime created + maxSkew < parseWireTime a)) = false := by
    cases added : t.members.lookup peer with
    | none => rfl
    | some a => exact decide_eq_false (Int.not_lt.mpr (since a ⟨t, found, own, added⟩))
  have live : ¬ (t.state ≠ .active ∨ t.owner ≠ s.self ∨ peer = t.owner) := by simp [active, own, other]
  rw [applyLeave, found]
  dsimp only
  rw [if_neg live, notStale, if_neg Bool.false_ne_true]
  cases removed : s.removeMember team peer now with
  | ok s' =>
    obtain ⟨t', owned, -, -, rfl⟩ := removeMember_eq_ok removed
    rintro ⟨t'', found', -, added⟩
    rw [setTeam, AList.lookup_insert] at found'
    cases found'
    cases (AList.lookup_erase peer t'.members).symm.trans added
  | error err =>
    rintro ⟨t', found', -, added⟩
    cases found.symm.trans found'
    have listed : t.members.lookup peer ≠ none := added ▸ Option.some_ne_none a
    have done : s.removeMember team peer now =
        .ok (s.setTeam team ({ t with members := t.members.erase peer }.bumpEpoch now)) := by
      simp [removeMember, ownedTeam, getTeam, found, own, other, listed, require]
    cases removed.symm.trans done

/-- A join is applied in a team of one's own only. -/
theorem joins_owned (joined : s.joins e team peer = true) : ∃ t, s.teams.lookup team = some t ∧ t.owner = s.self := by
  obtain ⟨now, op⟩ := e
  cases op with
  | join sender lookup =>
    rw [joins] at joined
    dsimp only at joined
    split at joined
    · next applied =>
      obtain ⟨-, _, none_⟩ | ⟨i, invited, -, -, -, spent, -, ⟨-, _, none_⟩ | ⟨t, -, -, ⟨owned, -⟩ | ⟨owned, -⟩⟩⟩ :=
        applyJoin_cases applied
      · cases none_
      · cases none_
      all_goals
        have same : i.team = team := by
          rw [invited] at joined
          simpa using (Bool.and_eq_true_iff.mp joined).2
        exact same ▸ ⟨t, owned.found, owned.self⟩
    · cases joined
  | _ => cases joined

theorem owned_run (found : s.teams.lookup team = some t) (own : t.owner = s.self) (es : List Event) :
    ∃ t', (run step s es).teams.lookup team = some t' ∧ t'.owner = (run step s es).self := by
  refine run_invariant (motive := fun s : Store => ∃ t, s.teams.lookup team = some t ∧
    t.owner = s.self) ?_ ⟨t, found, own⟩ es
  rintro s e ⟨t, found, own⟩
  obtain ⟨t', found', owner, -⟩ := team_step s e found
  exact ⟨t', found', owner.trans (own.trans (self_step s e).symm)⟩

theorem self_run (s : Store) (es : List Event) : (run step s es).self = s.self :=
  run_invariant (motive := fun s' => s'.self = s.self) (fun s' e same => (self_step s' e).trans same) rfl es

end Store

open Store

theorem wireTime_skew {a now clock : Int} (le : a ≤ wireTime now) (within : now - maxSkew ≤ clock) :
    parseWireTime a ≤ parseWireTime (wireTime clock) + maxSkew := by
  simp only [wireTime, maxSkew, minute, second] at le within
  change (a * 1000000000 : Int) ≤ clock / 1000000000 * 1000000000 + 600000000000
  omega

theorem clock_concat {t₀ : Time} (es : List Event) (e : Event) :
    clock Event.now t₀ (es ++ [e]) = e.now := run_concat ..

/-- Between a join of the member that succeeds and a leave of it, with no other such join between them: where the
join found the member not listed, a leave that was made more than the skew before the second of the join changes
nothing; and a leave that was made after the join, by a clock within the skew, leaves the member not listed. -/
theorem leave_after_rejoin {self peer : PeerKey} (other : peer ≠ self) (ownCard : Card) {team : TeamID} {t₀ : Time}
    {before between : List Event} {e : Event} (clocked : Clocked Event.now t₀ (before ++ [e]))
    (outside : Follows step (fun _ e => Outside self e) (fresh self ownCard) (before ++ [e]))
    (joined : (run step (fresh self ownCard) before).joins e team peer = true)
    (quiet : Follows step (fun s e => Outside self e ∧
      s.joins e team peer = false) (run step (fresh self ownCard) (before ++ [e])) between) (created : WireTime)
        (now : Time) : let s := run step (fresh self ownCard) (before ++ [e] ++ between)
    ((∀ a, ¬ Lists (run step (fresh self ownCard) before) team peer a) →
      parseWireTime created + maxSkew < parseWireTime (wireTime e.now) →
      s.applyLeave peer team created now = (s, false)) ∧
    ∀ clock, e.now - maxSkew ≤ clock → created = wireTime clock → s.isActive team = true →
      ∀ a, ¬ Lists (s.applyLeave peer team created now).1 team peer a := by
  intro s
  have self₁ : (run step (fresh self ownCard) (before ++ [e])).self = self := self_run _ _
  have self₂ : s.self = self := self_run _ _
  have through {p : WireTime → Prop} (start : Since team peer p (run step (fresh self ownCard) (before ++ [e]))) :
      Since team peer p s := by
    rw [show s = _ from run_append ..]
    exact since_run other self₁ start quiet
  constructor
  · intro new late
    refine leave_stale (through fun a h => ?_)
    rw [run_concat] at h
    have first := (Follows.append.mp outside).2.1
    obtain before | ⟨rfl, -⟩ :=
      lists_step (self_run (fresh self ownCard) before ▸ other) (self_run (fresh self ownCard) before ▸ first) h
    · exact absurd before (new a)
    · exact late
  · rintro clock within rfl active
    have since := through (since_clock other clocked outside).2
    obtain ⟨t₁, found₁, own₁⟩ := joins_owned joined
    obtain ⟨t, found, own⟩ := owned_run found₁ own₁ ([e] ++ between)
    rw [← run_append, ← List.append_assoc] at found own
    refine leave_current found ?_ own (self₂ ▸ other) fun a h => ?_
    · rw [isActive_of_lookup found] at active
      exact of_decide_eq_true active
    · have le := since a h
      rw [clock_concat] at le
      exact wireTime_skew le within

/-! ## A rejoin while the member is listed -/

/-- `boss` invites `kim`, who joins at once; `kim` is invited again and joins again two hours later. -/
def rejoins : List Event := [⟨0, .create crew "crew"⟩, ⟨0, .recordInvite "a" crew "" kim⟩, ⟨0, .join kim "a"⟩,
    ⟨2 * hour, .recordInvite "b" crew "" kim⟩,
  ⟨2 * hour, .join kim "b"⟩]

def rejoinStore (n : Nat) : Store := run step (fresh boss (cardOf boss)) (rejoins.take n)

/-- The leave was made after one hour; the second join did not renew the row. -/
theorem stale_leave_removes :
    Clocked Event.now 0 rejoins ∧ (rejoinStore 4).joins ⟨2 * hour, .join kim "b"⟩ crew kim = true ∧
    parseWireTime (wireTime hour) + maxSkew < 2 * hour ∧
    ((rejoinStore 5).teams.lookup crew).any (fun t => (t.members.lookup kim).isSome) = true ∧
    (((rejoinStore 5).applyLeave kim crew (wireTime hour) (3 * hour)).1.teams.lookup crew).any
      (fun t => (t.members.lookup kim).isNone) = true := by
  decide +kernel

/-- `kim` leaves before being invited and joining again; the team is renamed after that. -/
def leaves : List Event := rejoins.take 3 ++ [⟨hour,
    .leaveMail kim crew (wireTime hour)⟩] ++ rejoins.drop 3 ++ [⟨3 * hour, .rename crew "ants"⟩]

def leaveStore (n : Nat) : Store := run step (fresh boss (cardOf boss)) (leaves.take n)

/-- The second join found `kim` not listed: a copy of the first leave changes nothing, and a new one is taken. -/
theorem first_join_kept : (leaveStore 7).applyLeave kim crew (wireTime hour) (4 * hour) = (leaveStore 7, false) ∧
    ∀ a, ¬ Lists ((leaveStore 7).applyLeave kim crew (wireTime (3 * hour)) (4 * hour)).1 crew kim a := by
  have clocked : Clocked Event.now 0 (leaves.take 5 ++ [⟨2 * hour, .join kim "b"⟩]) := by decide
  have outside : Follows step (fun _ e => Outside boss e) (fresh boss (cardOf boss))
      (leaves.take 5 ++ [⟨2 * hour, .join kim "b"⟩]) :=
    ⟨by simp [Outside], by simp [Outside], by simp [Outside], by simp [Outside], by simp [Outside],
      by simp [Outside], trivial⟩
  have quiet : Follows step (fun s e => Outside boss e ∧ s.joins e crew kim = false)
    (run step (fresh boss (cardOf boss)) (leaves.take 5 ++ [⟨2 * hour, .join kim "b"⟩]))
    [⟨3 * hour, .rename crew "ants"⟩] :=
    ⟨⟨by simp [Outside], rfl⟩, trivial⟩
  have other : kim ≠ boss := by decide
  have joined : (leaveStore 5).joins ⟨2 * hour, .join kim "b"⟩ crew kim = true := by decide +kernel
  have new : ∀ a, ¬ Lists (leaveStore 5) crew kim a := by
    have none_ : ((leaveStore 5).teams.lookup crew).all (fun t => (t.members.lookup kim).isNone) = true := by
      decide +kernel
    rintro a ⟨t, found, -, added⟩
    rw [found, Option.all_some, added] at none_
    cases none_
  constructor
  · exact (leave_after_rejoin other (cardOf boss) clocked outside joined quiet (wireTime hour) (4 * hour)).1 new
      (by decide)
  · exact (leave_after_rejoin other (cardOf boss) clocked outside joined quiet (wireTime (3 * hour)) (4 * hour)).2
      (3 * hour) (by decide) rfl
      (by decide +kernel)

end Agentnet.Team
