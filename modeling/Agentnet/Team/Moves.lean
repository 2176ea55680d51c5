import Agentnet.Team.Store
import Agentnet.Lib.Run

/-! What one step of a daemon can do to a row of `peers` and to a team. -/

namespace Agentnet.Team

open Lib

/-! ## Rows of peers -/

/-- What rosters of `owner` do to a row, where `listed` says that they list its key. -/
inductive Refreshed (owner : PeerKey) (listed : Prop) : Option Peer → Option Peer → Prop
  | same {x : Option Peer} : Refreshed owner listed x x
  | introduced {card : Card} {at' : WireTime} {keys : List Announcement} (member : listed) :
      Refreshed owner listed none (some ⟨card, at', .team, keys, some owner⟩)
  | mailbox {p : Peer} {keys : List Announcement} (member : listed) (direct : p.introducedBy = none) :
      Refreshed owner listed (some p) (some { p with mailboxKeys := keys })
  | refreshed {p : Peer} {card : Card} {keys : List Announcement} (member : listed)
      (introduced : p.introducedBy ≠ none) :
      Refreshed owner listed (some p) (some { p with card, mailboxKeys := keys })

namespace Refreshed

variable {owner : PeerKey} {listed : Prop} {a b c : Option Peer}

/-- Refreshes compose. -/
theorem trans (first : Refreshed owner listed a b) (second : Refreshed owner listed b c) :
    Refreshed owner listed a c := by
  cases first with
  | same => exact second
  | introduced member =>
    cases second with
    | same => exact .introduced member
    | mailbox _ direct => cases direct
    | refreshed => exact .introduced member
  | mailbox member direct =>
    cases second with
    | same => exact .mailbox member direct
    | mailbox => exact .mailbox member direct
    | refreshed _ introduced => exact absurd direct introduced
  | refreshed member introduced =>
    cases second with
    | same => exact .refreshed member introduced
    | mailbox _ direct => exact absurd direct introduced
    | refreshed => exact .refreshed member introduced

theorem mono {listed' : Prop} (weaker : listed → listed') (h : Refreshed owner listed a b) :
    Refreshed owner listed' a b := by
  cases h with
  | same => exact .same
  | introduced member => exact .introduced (weaker member)
  | mailbox member direct => exact .mailbox (weaker member) direct
  | refreshed member introduced => exact .refreshed (weaker member) introduced

end Refreshed

theorem introduce_refreshed (owner : PeerKey) (now : Time) (peers : Peers) (m : RosterMember) (k : PeerKey) :
    Refreshed owner (k = m.key) (peers.lookup k) ((introduce owner now peers m).lookup k) := by
  unfold introduce
  by_cases same : k = m.key
  · subst same
    cases peers.lookup m.key with
    | none =>
      dsimp only
      rw [AList.lookup_insert]
      exact .introduced rfl
    | some p =>
      obtain ⟨card, pairedAt, trust, keys, introducedBy⟩ := p
      cases introducedBy with
      | none =>
        dsimp only
        rw [AList.lookup_insert]
        exact .mailbox rfl rfl
      | some o =>
        dsimp only
        rw [AList.lookup_insert]
        exact .refreshed rfl (by simp)
  · split
    · rw [AList.lookup_insert_ne same]
      exact .same
    · dsimp only
      split <;> rw [AList.lookup_insert_ne same] <;> exact .same

theorem introduced_refreshed (owner : PeerKey) (now : Time) (members : List RosterMember)
    (peers : Peers) (k : PeerKey) :
    Refreshed owner (k ∈ members.map RosterMember.key) (peers.lookup k)
      ((members.foldl (introduce owner now) peers).lookup k) := by
  induction members generalizing peers with
  | nil => exact .same
  | cons m members ih =>
    have first := introduce_refreshed owner now peers m k
    exact (first.mono fun same => List.mem_cons.mpr (.inl same)).trans
      ((ih _).mono fun mem => List.mem_cons_of_mem _ mem)

theorem Trust.rank_raise (old new : Trust) : old.rank ≤ (old.raise new).rank := by
  unfold Trust.raise
  split
  · exact le_rfl
  · next higher => exact (Nat.lt_of_not_le higher).le

/-! ## Collected peers -/

namespace Store

variable {s : Store}

theorem sharesTeam_iff {k : PeerKey} :
    s.sharesTeam k = true ↔ ∃ id t, s.teams.lookup id = some t ∧ t.state = .active ∧ k ∈ t.members := by
  unfold sharesTeam
  rw [List.any_eq_true]
  constructor
  · rintro ⟨⟨id, t⟩, mem, shares⟩
    obtain ⟨active, member⟩ := decide_eq_true_eq.mp shares
    exact ⟨id, t, AList.mem_lookup_iff.mpr mem, active, member⟩
  · rintro ⟨id, t, found, active, member⟩
    exact ⟨⟨id, t⟩, AList.mem_lookup_iff.mp found, decide_eq_true ⟨active, member⟩⟩

/-- Every introduced peer is a member of a team whose local state is active. -/
def Collected (s : Store) : Prop :=
  ∀ k p, s.peers.lookup k = some p → p.introducedBy ≠ none →
  ∃ id t, s.teams.lookup id = some t ∧ t.state = .active ∧ k ∈ t.members

theorem lookup_gcIntroduced (k : PeerKey) :
    s.gcIntroduced.peers.lookup k = (s.peers.lookup k).filter fun p => p.introducedBy.isNone || s.sharesTeam k :=
      Dict.lookup_keep

theorem collected_gcIntroduced : s.gcIntroduced.Collected := by
  intro k p found introduced
  rw [lookup_gcIntroduced, Option.filter_eq_some_iff] at found
  have shares : s.sharesTeam k = true := by
    obtain direct | shares := Bool.or_eq_true_iff.mp found.2
    · exact absurd (Option.isNone_iff_eq_none.mp direct) introduced
    · exact shares
  exact sharesTeam_iff.mp shares

theorem gcIntroduced_cases (k : PeerKey) : s.gcIntroduced.peers.lookup k = s.peers.lookup k ∨
      s.gcIntroduced.peers.lookup k = none ∧ ∃ p, s.peers.lookup k = some p ∧ p.introducedBy ≠ none := by
  rw [lookup_gcIntroduced]
  cases found : s.peers.lookup k with
  | none => exact .inl rfl
  | some p =>
    cases kept : p.introducedBy.isNone || s.sharesTeam k with
    | true => exact .inl (Option.filter_eq_some_iff.mpr ⟨rfl, kept⟩)
    | false =>
      refine .inr ⟨?_, p, rfl, ?_⟩
      · rw [Option.filter_eq_none_iff]
        intro q same
        cases same
        rw [kept]
        exact Bool.false_ne_true
      · intro direct
        rw [direct] at kept
        cases kept

end Store

/-! ## Operations of the owner -/

namespace Store

variable {s s' : Store}

variable {id : TeamID} {t : TeamRow} {key sender : PeerKey} {now : Time} {name : String}
  {joins : List PendingJoin} {r : Roster}

theorem ownedTeam_eq_ok (h : s.ownedTeam id = .ok t) : s.teams.lookup id = some t ∧ t.owner = s.self := by
  unfold ownedTeam getTeam at h
  cases found : s.teams.lookup id with
  | none =>
    rw [found] at h
    cases h
  | some t' =>
    rw [found] at h
    simp only [ok_bind, bind_eq_ok, require_eq_ok] at h
    obtain ⟨_, owner, same⟩ := h
    cases same
    exact ⟨rfl, owner⟩

structure Owned (s : Store) (id : TeamID) (t t' : TeamRow) : Prop where
  found : s.teams.lookup id = some t
  self : t.owner = s.self
  owner : t'.owner = t.owner
  epoch : t'.epoch = t.epoch + 1

theorem addMember_eq_ok (h : s.addMember id key now = .ok s') :
    ∃ t, s.Owned id t ({ t with members := t.members.insert key (wireTime now) }.bumpEpoch now) ∧
    t.members.entries.length < maxMembers ∧
      t.members.lookup key = none ∧
      s' = s.setTeam id ({ t with members := t.members.insert key (wireTime now) }.bumpEpoch now) := by
  simp only [addMember, bind_eq_ok, require_eq_ok] at h
  obtain ⟨t, owned, _, few, _, new, same⟩ := h
  obtain ⟨found, self⟩ := ownedTeam_eq_ok owned
  exact ⟨t, ⟨found, self, rfl, rfl⟩, few, new, (Except.ok.inj same).symm⟩

theorem removeMember_eq_ok (h : s.removeMember id key now = .ok s') :
    ∃ t, s.Owned id t ({ t with members := t.members.erase key }.bumpEpoch now) ∧ key ≠ t.owner ∧
    t.members.lookup key ≠ none ∧ s' = s.setTeam id ({ t with members := t.members.erase key }.bumpEpoch now) := by
  simp only [removeMember, bind_eq_ok, require_eq_ok] at h
  obtain ⟨t, owned, _, other, _, member, same⟩ := h
  obtain ⟨found, self⟩ := ownedTeam_eq_ok owned
  exact ⟨t, ⟨found, self, rfl, rfl⟩, other, member, (Except.ok.inj same).symm⟩

theorem rename_eq_ok (h : s.rename id name now = .ok s') :
    validName name = true ∧ ∃ t, s.Owned id t ({ t with name }.bumpEpoch now) ∧
    s' = s.setTeam id ({ t with name }.bumpEpoch now) := by
  simp only [rename, bind_eq_ok, require_eq_ok] at h
  obtain ⟨_, valid, t, owned, same⟩ := h
  obtain ⟨found, self⟩ := ownedTeam_eq_ok owned
  exact ⟨valid, t, ⟨found, self, rfl, rfl⟩, (Except.ok.inj same).symm⟩

theorem delete_eq_ok (h : s.delete id now = .ok s') :
    ∃ t, s.Owned id t ({ t with state := .dissolved }.bumpEpoch now) ∧
    s' = s.setTeam id ({ t with state := .dissolved }.bumpEpoch now) := by
  simp only [delete, bind_eq_ok] at h
  obtain ⟨t, owned, same⟩ := h
  obtain ⟨found, self⟩ := ownedTeam_eq_ok owned
  exact ⟨t, ⟨found, self, rfl, rfl⟩, (Except.ok.inj same).symm⟩

theorem create_eq_ok (h : s.create id name now = .ok s') :
    s.teams.lookup id = none ∧ validName name = true ∧ s' = s.setTeam id (s.newTeam name now) := by
  simp only [create, bind_eq_ok, require_eq_ok] at h
  obtain ⟨_, valid, _, _, _, new, same⟩ := h
  exact ⟨new, valid, (Except.ok.inj same).symm⟩

theorem leave_eq_ok (h : s.leave id now = .ok s') :
    ∃ t, s.teams.lookup id = some t ∧ t.owner ≠ s.self ∧
    s' = (s.setTeam id { t with state := .left, updated := storeTime now }).gcIntroduced := by
  unfold leave getTeam at h
  cases found : s.teams.lookup id with
  | none =>
    rw [found] at h
    cases h
  | some t =>
    rw [found] at h
    simp only [ok_bind, bind_eq_ok, require_eq_ok] at h
    obtain ⟨_, other, same⟩ := h
    exact ⟨t, rfl, other, (Except.ok.inj same).symm⟩

/-! ## Rosters -/

/-- A live pending join of the owner is used up. -/
structure Consumes (owner : PeerKey) (now : Time) (s s' : Store) (j : PendingJoin) : Prop where
  mem : j ∈ s.pendingJoins
  made : j.owner = owner
  live : storeTime now < j.expires
  rest : s' =
    { s with pendingJoins := s.pendingJoins.filter fun k => !decide (k.owner = owner ∧ k.lookup = j.lookup) }

theorem oldest_mem {j : PendingJoin} (h : oldest joins = some j) : j ∈ joins := by
  induction joins generalizing j with
  | nil => cases h
  | cons k joins ih =>
    unfold oldest at h
    split at h
    · next l found =>
      cases h
      split_ifs
      · exact List.mem_cons_of_mem _ (ih found)
      · exact List.mem_cons_self
    · cases h
      exact List.mem_cons_self

theorem consumePendingJoin_eq_some {owner : PeerKey} (h : s.consumePendingJoin owner now = some s') :
    ∃ j, Consumes owner now s s' j := by
  unfold consumePendingJoin at h
  obtain ⟨j, found, rfl⟩ := Option.map_eq_some_iff.mp h
  obtain ⟨mem, live⟩ := List.mem_filter.mp (oldest_mem found)
  obtain ⟨same, live⟩ := decide_eq_true_eq.mp live
  exact ⟨j, mem, same, live, rfl⟩

/-- The roster is written over the tables `s₀`, which are `s` after a pending join was consumed where the team is
new or was not active. -/
structure Applies (s : Store) (sender : PeerKey) (r : Roster) (now : Time) (s₀ : Store) : Prop where
  parsed : parseRoster r = .ok ()
  owner : r.owner = sender
  trusted : ∃ p, s.peers.lookup sender = some p ∧ (p.trust = .code ∨ p.trust = .fingerprint)
  newer : ∀ t, s.teams.lookup r.id = some t → t.owner = r.owner ∧ t.epoch < r.epoch
  admitted : (s₀ = s ∧ ∃ t, s.teams.lookup r.id = some t ∧ t.state = .active) ∨
    (∃ j, Consumes r.owner now s s₀ j) ∧ s.joinable r = true ∧ ∀ t, s.teams.lookup r.id = some t → t.state ≠ .active

/-- The store a roster is applied to has the same peers and teams. -/
theorem Applies.same {s₀ : Store} (h : s.Applies sender r now s₀) :
    s₀.self = s.self ∧ s₀.peers = s.peers ∧ s₀.teams = s.teams := by
  obtain ⟨rfl, _⟩ | ⟨⟨j, consumes⟩, _⟩ := h.admitted
  · exact ⟨rfl, rfl, rfl⟩
  · rw [consumes.rest]
    exact ⟨rfl, rfl, rfl⟩

theorem applyRoster_cases {o : Outcome} (h : s.applyRoster sender r now = .ok (s', o)) :
    (s' = s ∧ ∀ st, o ≠ .applied st) ∨ ∃ s₀, s.Applies sender r now s₀ ∧ s' = s₀.writeRoster r now ∧
    o = .applied (r.localState s.self) := by
  have admitted : ∀ {s₀}, s.admission r now = some s₀ →
      (∃ j, Consumes r.owner now s s₀ j) ∧ s.joinable r = true ∧ s₀.self = s.self := by
    intro s₀ admission
    unfold Store.admission at admission
    split at admission
    · next joinable =>
      obtain ⟨j, consumes⟩ := consumePendingJoin_eq_some admission
      exact ⟨⟨j, consumes⟩, joinable, by rw [consumes.rest]⟩
    · cases admission
  simp only [applyRoster, bind_eq_ok, require_eq_ok] at h
  obtain ⟨_, parsed, _, owner, h⟩ := h
  cases peer : s.peers.lookup sender with
  | none =>
    rw [peer] at h
    cases h
  | some p =>
    rw [peer] at h
    dsimp only at h
    split at h
    · next trusted =>
      have h := Except.ok.inj h
      unfold receiveRoster at h
      dsimp only at h
      cases team : s.teams.lookup r.id with
      | none =>
        rw [team] at h
        dsimp only at h
        cases admission : s.admission r now with
        | none =>
          rw [admission] at h
          cases h
          exact .inl ⟨rfl, (by simp)⟩
        | some s₀ =>
          rw [admission] at h
          cases h
          obtain ⟨consumes, joinable, self⟩ := admitted admission
          exact .inr ⟨s₀, ⟨parsed, owner, ⟨p, peer, trusted⟩, (by rw [team]; simp),
            .inr ⟨consumes, joinable, by rw [team]; simp⟩⟩, rfl, by rw [self]⟩
      | some t =>
        rw [team] at h
        dsimp only at h
        split at h
        · cases h
          exact .inl ⟨rfl, (by simp)⟩
        next owned =>
          have owned := not_not.mp owned
          split at h
          · cases h
            exact .inl ⟨rfl, (by simp)⟩
          next newer =>
            have row : ∀ t₀, s.teams.lookup r.id = some t₀ → t₀.owner = r.owner ∧ t₀.epoch < r.epoch := by
              intro t₀ same
              cases team.symm.trans same
              exact ⟨owned, not_le.mp newer⟩
            split at h
            · next active =>
              cases h
              exact .inr ⟨s, ⟨parsed, owner, ⟨p, peer, trusted⟩, row, .inl ⟨rfl, t, team, active⟩⟩, rfl, rfl⟩
            · next inactive =>
              cases admission : s.admission r now with
              | none =>
                rw [admission] at h
                cases h
                exact .inl ⟨rfl, (by simp)⟩
              | some s₀ =>
                rw [admission] at h
                cases h
                obtain ⟨consumes, joinable, self⟩ := admitted admission
                refine .inr ⟨s₀, ⟨parsed, owner, ⟨p, peer, trusted⟩, row, .inr ⟨consumes, joinable, ?_⟩⟩,
                  rfl, by rw [self]⟩
                intro t₀ same
                cases team.symm.trans same
                exact inactive
    · have h := Except.ok.inj h
      cases h
      exact .inl ⟨rfl, (by simp)⟩

theorem writeRoster_teams (s : Store) (r : Roster) (now : Time) :
    (s.writeRoster r now).teams = s.teams.insert r.id (s.rosterTeam r now (s.teams.lookup r.id)) := rfl

/-! ## One step -/

/-- What a step can make of the team `id`. -/
inductive TeamStep (s : Store) (e : Event) (id : TeamID) : Option TeamRow → Prop
  | same : TeamStep s e id (s.teams.lookup id)
  | created {name : String} (op : e.op = .create id name) (new : s.teams.lookup id = none) :
      TeamStep s e id (some (s.newTeam name e.now))
  | owned {t t' : TeamRow} (owned : s.Owned id t t') (state : t'.state = t.state ∨ t'.state = .dissolved)
      (op : ∀ o r, e.op ≠ .roster o r) :
      TeamStep s e id (some t')
  | left {t : TeamRow} (found : s.teams.lookup id = some t) (op : ∀ o r, e.op ≠ .roster o r) :
      TeamStep s e id (some { t with state := .left, updated := storeTime e.now })
  | roster {sender : PeerKey} {r : Roster} {s₀ : Store} (op : e.op = .roster sender r)
      (applies : s.Applies sender r e.now s₀) (same : r.id = id) :
      TeamStep s e id (some (s₀.rosterTeam r e.now (s.teams.lookup id)))

/-- Storing one team is no step of another. -/
theorem TeamStep.setTeam {e : Event} {k : TeamID} (new : TeamStep s e id (some t)) :
    TeamStep s e k ((s.setTeam id t).teams.lookup k) := by
  by_cases same : k = id
  · subst same
    rwa [Store.setTeam, AList.lookup_insert]
  · rw [Store.setTeam, AList.lookup_insert_ne same]
    exact .same

theorem applyJoin_cases {peer : PeerKey} {lookup : String} {o : JoinOutcome}
    (h : s.applyJoin peer lookup now = .ok (s', o)) :
    (s' = s ∧ ∃ reason, o = .ignored reason) ∨ ∃ i, s.invites.lookup lookup = some i ∧ i.peer = peer ∧
    i.used = none ∧ storeTime now < i.expires ∧
      ∃ spent : Store, spent = { s with invites := s.invites.insert lookup { i with used := some (storeTime now) } } ∧
        ((s' = spent ∧ ∃ reason, o = .ignored reason) ∨ ∃ t, t.state = .active ∧ o = .joined (t.epoch + 1) ∧
          (s.Owned i.team t (t.bumpEpoch now) ∧ t.members.lookup peer ≠ none ∧
            s' = spent.setTeam i.team (t.bumpEpoch now) ∨
            s.Owned i.team t ({ t with members := t.members.insert peer (wireTime now) }.bumpEpoch now) ∧
            t.members.lookup peer = none ∧ t.members.entries.length < maxMembers ∧
              s' = spent.setTeam i.team
                ({ t with members := t.members.insert peer (wireTime now) }.bumpEpoch now))) := by
  unfold applyJoin at h
  cases found : s.invites.lookup lookup with
  | none =>
    rw [found] at h
    cases h
    exact .inl ⟨rfl, _, rfl⟩
  | some i =>
    rw [found] at h
    dsimp only at h
    split at h
    · cases h
      exact .inl ⟨rfl, _, rfl⟩
    next live =>
      obtain ⟨peer', unused, live⟩ := not_not.mp live
      refine .inr ⟨i, rfl, peer', unused, live, _, rfl, ?_⟩
      cases team : s.teams.lookup i.team with
      | none =>
        rw [team] at h
        cases h
        exact .inl ⟨rfl, _, rfl⟩
      | some t =>
        rw [team] at h
        dsimp only at h
        split at h
        · cases h
          exact .inl ⟨rfl, _, rfl⟩
        next active =>
          obtain ⟨active, self⟩ := not_or.mp active
          split at h
          · next member =>
            cases h
            exact .inr ⟨t, not_not.mp active, rfl, .inl ⟨⟨team, not_not.mp self, rfl, rfl⟩, member, rfl⟩⟩
          next new =>
            split at h
            · cases h
              exact .inl ⟨rfl, _, rfl⟩
            next few =>
              simp only [bind_eq_ok] at h
              obtain ⟨s'', added, same⟩ := h
              cases same
              obtain ⟨t', owned, few, new, rfl⟩ := addMember_eq_ok added
              cases team.symm.trans owned.found
              exact .inr ⟨t, not_not.mp active, rfl, .inr ⟨⟨team, owned.self, rfl, rfl⟩, new, few, rfl⟩⟩

theorem applyLeave_cases (s : Store) (peer : PeerKey) (team : TeamID) (created : WireTime) (now : Time) :
    s.applyLeave peer team created now = (s, false) ∨ ∃ t, t.state = .active ∧
    s.Owned team t ({ t with members := t.members.erase peer }.bumpEpoch now) ∧
      peer ≠ t.owner ∧ t.members.lookup peer ≠ none ∧
      s.applyLeave peer team created now =
        (s.setTeam team ({ t with members := t.members.erase peer }.bumpEpoch now), true) := by
  unfold applyLeave
  cases found : s.teams.lookup team with
  | none => exact .inl rfl
  | some t =>
    dsimp only
    split
    · exact .inl rfl
    next active =>
      split
      · exact .inl rfl
      · cases removed : s.removeMember team peer now with
        | error => exact .inl rfl
        | ok s' =>
          obtain ⟨t', owned, other, member, same⟩ := removeMember_eq_ok removed
          cases found.symm.trans owned.found
          exact .inr ⟨t, not_not.mp (not_or.mp active).1, owned, other, member, by rw [same]⟩

theorem step_team (s : Store) (e : Event) (id : TeamID) : TeamStep s e id ((step s e).teams.lookup id) := by
  obtain ⟨now, op⟩ := e
  have failed : ∀ {ε : Type} {x : ε},
      TeamStep s ⟨now, op⟩ id ((s.orElse (Except.error x : Except ε Store)).teams.lookup id) := .same
  cases op with
  | pair | verify | removePeer | recordInvite | recordPendingJoin | keys => exact .same
  | create k name =>
    cases done : s.create k name now with
    | error => simpa only [step, done] using failed
    | ok s' =>
      obtain ⟨new, _, rfl⟩ := create_eq_ok done
      simp only [step, done, orElse]
      exact .setTeam (.created rfl new)
  | rename k name =>
    cases done : s.rename k name now with
    | error => simpa only [step, done] using failed
    | ok s' =>
      obtain ⟨_, t, owned, rfl⟩ := rename_eq_ok done
      simp only [step, done, orElse]
      exact .setTeam (.owned owned (.inl rfl) (by simp))
  | removeMember k key =>
    cases done : s.removeMember k key now with
    | error => simpa only [step, done] using failed
    | ok s' =>
      obtain ⟨t, owned, _, _, rfl⟩ := removeMember_eq_ok done
      simp only [step, done, orElse]
      exact .setTeam (.owned owned (.inl rfl) (by simp))
  | delete k =>
    cases done : s.delete k now with
    | error => simpa only [step, done] using failed
    | ok s' =>
      obtain ⟨t, owned, rfl⟩ := delete_eq_ok done
      simp only [step, done, orElse]
      exact .setTeam (.owned owned (.inr rfl) (by simp))
  | leave k =>
    cases done : s.leave k now with
    | error => simpa only [step, done] using failed
    | ok s' =>
      obtain ⟨t, found, _, rfl⟩ := leave_eq_ok done
      simp only [step, done, orElse]
      exact TeamStep.setTeam (.left found (by simp))
  | ownerRemoved owner =>
    show TeamStep s _ id ((Dict.mapValues s.teams fun _ t => leaveTeam owner now t).lookup id)
    have kept : TeamStep s ⟨now, .ownerRemoved owner⟩ id (s.teams.lookup id) := .same
    rw [Dict.lookup_mapValues]
    cases found : s.teams.lookup id with
    | none => rwa [found] at kept
    | some t =>
      rw [Option.map_some, leaveTeam]
      split_ifs
      · exact .left found (by simp)
      · rwa [found] at kept
  | roster sender r =>
    cases done : s.applyRoster sender r now with
    | error => simpa only [step, done, map_error] using failed
    | ok result =>
      obtain ⟨s', o⟩ := result
      simp only [step, done, map_ok, orElse]
      obtain ⟨rfl, _⟩ | ⟨s₀, applies, rfl, _⟩ := applyRoster_cases done
      · exact .same
      · rw [writeRoster_teams, applies.same.2.2]
        by_cases same : id = r.id
        · rw [same, AList.lookup_insert]
          exact .roster rfl applies rfl
        · rw [AList.lookup_insert_ne same]
          exact .same
  | join sender lookup =>
    cases done : s.applyJoin sender lookup now with
    | error => simpa only [step, done, map_error] using failed
    | ok result =>
      obtain ⟨s', o⟩ := result
      simp only [step, done, map_ok, orElse]
      obtain ⟨rfl, _⟩ | ⟨i, _, _, _, _, spent, rfl, ⟨rfl, _⟩ | ⟨t, _, _, ⟨owned, _, rfl⟩ | ⟨owned, _, _, rfl⟩⟩⟩ :=
        applyJoin_cases done
      · exact .same
      · exact .same
      · exact TeamStep.setTeam (.owned owned (.inl rfl) (by simp))
      · exact TeamStep.setTeam (.owned owned (.inl rfl) (by simp))
  | leaveMail sender team created =>
    obtain same | ⟨t, _, owned, _, _, same⟩ := applyLeave_cases s sender team created now
    · simp only [step, same]
      exact .same
    · simp only [step, same]
      exact TeamStep.setTeam (.owned owned (.inl rfl) (by simp))

end Store

end Agentnet.Team
