import Agentnet.Team.Moves

/-! Introductions are contained: what rosters of a team can do to the peers and the teams of a daemon. -/

namespace Agentnet.Team

open Lib

/-- What one step can make of a row of `peers`. -/
inductive PeerStep (s : Store) (e : Event) (k : PeerKey) : Option Peer → Option Peer → Prop
  | same {x : Option Peer} : PeerStep s e k x x
  /-- A pairing or a verification. -/
  | confirmed {x : Option Peer} {p' : Peer} (own : e.op.isMail = false)
      (trust : ∀ p, x = some p → p.trust.rank ≤ p'.trust.rank)
      (introduced : p'.introducedBy = none ∨ ∃ p, x = some p ∧ p'.introducedBy = p.introducedBy ∧
        (p.trust = .team → p'.trust = .team)) :
      PeerStep s e k x (some p')
  | removed {x : Option Peer} (own : e.op.isMail = false) : PeerStep s e k x none
  | collected {p : Peer} (introduced : p.introducedBy ≠ none) : PeerStep s e k (some p) none
  | keys {p : Peer} {keys : List Announcement} {ann : Announcement} (op : e.op = .keys k ann) :
      PeerStep s e k (some p) (some { p with mailboxKeys := keys })
  | roster {sender : PeerKey} {r : Roster} {s₀ : Store} {x y : Option Peer} (op : e.op = .roster sender r)
      (applies : s.Applies sender r e.now s₀)
      (refreshed : Refreshed sender (k ∈ r.members.map RosterMember.key) x y) : PeerStep s e k x y

namespace PeerStep

variable {s : Store} {e : Event} {k : PeerKey}

/-- A pairing never lowers the trust. -/
theorem pair (card : Card) (now : Time) (trust : Trust) (mbox : Option Announcement) (k : PeerKey) :
    PeerStep s ⟨now, .pair card trust mbox⟩ k (s.peers.lookup k)
      ((addTrusted s.peers card now trust mbox).lookup k) := by
  unfold addTrusted
  by_cases same : k = card.key
  · subst same
    cases s.peers.lookup card.key with
    | none =>
      dsimp only
      rw [AList.lookup_insert]
      exact .confirmed rfl (by simp) (.inl rfl)
    | some p =>
      dsimp only
      rw [AList.lookup_insert]
      refine .confirmed rfl ?_ (.inl rfl)
      rintro _ ⟨⟩
      exact Trust.rank_raise _ _
  · split <;> rw [AList.lookup_insert_ne same] <;> exact .same

theorem raise_team {old new : Trust} (lower : ¬ (new = .code ∨ new = .fingerprint)) (team : old = .team) :
    old.raise new = .team := by
  subst team
  cases new with
  | relay | team => rfl
  | code => exact absurd (.inl rfl) lower
  | fingerprint => exact absurd (.inr rfl) lower

/-- A verification never lowers the trust. -/
theorem verify (now : Time) (key : PeerKey) (trust : Trust) (k : PeerKey) :
    PeerStep s ⟨now, .verify key trust⟩ k (s.peers.lookup k) ((setTrust s.peers key trust).lookup k) := by
  unfold setTrust
  by_cases same : k = key
  · subst same
    cases found : s.peers.lookup k with
    | none =>
      dsimp only
      rw [found]
      exact .same
    | some p =>
      dsimp only
      rw [AList.lookup_insert]
      refine .confirmed rfl ?_ ?_
      · rintro _ ⟨⟩
        exact Trust.rank_raise _ _
      · split_ifs with direct
        · exact .inl rfl
        · exact .inr ⟨p, rfl, rfl, raise_team direct⟩
  · split
    · rw [AList.lookup_insert_ne same]
      exact .same
    · exact .same

theorem mergeKeys (now : Time) (sender : PeerKey) (ann : Announcement) (k : PeerKey) :
    PeerStep s ⟨now, .keys sender ann⟩ k (s.peers.lookup k) ((mergeKeys s.peers sender ann).lookup k) := by
  unfold Team.mergeKeys
  by_cases same : k = sender
  · subst same
    cases found : s.peers.lookup k with
    | none =>
      dsimp only
      rw [found]
      exact .same
    | some p =>
      dsimp only
      rw [AList.lookup_insert]
      exact .keys rfl
  · split
    · rw [AList.lookup_insert_ne same]
      exact .same
    · exact .same

theorem gc (s' : Store) (kept : s'.peers = s.peers) (k : PeerKey) :
    PeerStep s e k (s.peers.lookup k) (s'.gcIntroduced.peers.lookup k) := by
  obtain same | ⟨gone, p, found, introduced⟩ := Store.gcIntroduced_cases (s := s') k
  · rw [same, kept]
    exact .same
  · rw [gone, ← kept, found]
    exact .collected introduced

theorem writeRoster {sender : PeerKey} {r : Roster} {s₀ : Store} (op : e.op = .roster sender r)
    (applies : s.Applies sender r e.now s₀) (k : PeerKey) :
    PeerStep s e k (s.peers.lookup k) ((s₀.writeRoster r e.now).peers.lookup k) := by
  have refreshed :=
    introduced_refreshed r.owner e.now (r.members.filter fun m => !decide (m.key = s₀.self)) s₀.peers k
  rw [applies.same.2.1, applies.owner] at refreshed
  have listed : k ∈ (r.members.filter fun m => !decide (m.key = s₀.self)).map RosterMember.key →
      k ∈ r.members.map RosterMember.key :=
    fun mem => (List.filter_sublist.map _).subset mem
  have refreshed := refreshed.mono listed
  unfold Store.writeRoster
  dsimp only [Store.setTeam]
  obtain same | ⟨gone, p, found, introduced⟩ := Store.gcIntroduced_cases k
  · rw [same]
    dsimp only
    rw [applies.same.2.1, applies.owner]
    exact .roster op applies refreshed
  · rw [gone]
    dsimp only at found
    rw [applies.same.2.1, applies.owner] at found
    rw [found] at refreshed
    generalize s.peers.lookup k = x at refreshed
    cases refreshed with
    | same => exact .collected introduced
    | introduced => exact .same
    | mailbox _ direct => exact absurd direct introduced
    | refreshed => exact .collected introduced

end PeerStep

namespace Store

variable {s s' : Store}

theorem applyJoin_peers {peer : PeerKey} {lookup : String} {now : Time} {o : JoinOutcome}
    (h : s.applyJoin peer lookup now = .ok (s', o)) :
    s'.peers = s.peers := by
  obtain ⟨rfl, _⟩ | ⟨_, _, _, _, _, _, rfl, ⟨rfl, _⟩ | ⟨t, _, _, ⟨_, _, rfl⟩ | ⟨_, _, _, rfl⟩⟩⟩ :=
    applyJoin_cases h <;> rfl

theorem applyLeave_peers (s : Store) (peer : PeerKey) (team : TeamID) (created : WireTime) (now : Time) :
    (s.applyLeave peer team created now).1.peers = s.peers := by
  obtain same | ⟨_, _, _, _, _, same⟩ := applyLeave_cases s peer team created now <;> rw [same]
  rfl

/-- What any event does to one peer. -/
theorem step_peer (s : Store) (e : Event) (k : PeerKey) :
    PeerStep s e k (s.peers.lookup k) ((step s e).peers.lookup k) := by
  obtain ⟨now, op⟩ := e
  have quiet : ∀ {s' : Store}, s'.peers = s.peers →
      PeerStep s ⟨now, op⟩ k (s.peers.lookup k) (s'.peers.lookup k) := by
    intro s' same
    rw [same]
    exact .same
  cases op with
  | pair card trust mbox => exact .pair card now trust mbox k
  | verify key trust => exact .verify now key trust k
  | removePeer key =>
    by_cases same : k = key
    · subst same
      simp only [step, AList.lookup_erase]
      exact .removed rfl
    · simp only [step, AList.lookup_erase_ne same]
      exact .same
  | create id name =>
    cases done : s.create id name now with
    | error => exact quiet (by simp only [step, done, orElse])
    | ok s' =>
      obtain ⟨_, _, rfl⟩ := create_eq_ok done
      exact quiet (by simp only [step, done, orElse, setTeam])
  | rename id name =>
    cases done : s.rename id name now with
    | error => exact quiet (by simp only [step, done, orElse])
    | ok s' =>
      obtain ⟨_, _, _, rfl⟩ := rename_eq_ok done
      exact quiet (by simp only [step, done, orElse, setTeam])
  | removeMember id key =>
    cases done : s.removeMember id key now with
    | error => exact quiet (by simp only [step, done, orElse])
    | ok s' =>
      obtain ⟨_, _, _, _, rfl⟩ := removeMember_eq_ok done
      exact quiet (by simp only [step, done, orElse, setTeam])
  | delete id =>
    cases done : s.delete id now with
    | error => exact quiet (by simp only [step, done, orElse])
    | ok s' =>
      obtain ⟨_, _, rfl⟩ := delete_eq_ok done
      exact quiet (by simp only [step, done, orElse, setTeam])
  | leave id =>
    cases done : s.leave id now with
    | error => exact quiet (by simp only [step, done, orElse])
    | ok s' =>
      obtain ⟨t, _, _, rfl⟩ := leave_eq_ok done
      simp only [step, done, orElse]
      exact PeerStep.gc (s := s) (s.setTeam id { t with state := .left, updated := storeTime now }) rfl k
  | ownerRemoved owner =>
    exact PeerStep.gc (s := s) { s with teams := Dict.mapValues s.teams fun _ t => leaveTeam owner now t } rfl k
  | recordInvite | recordPendingJoin => exact .same
  | roster sender r =>
    cases done : s.applyRoster sender r now with
    | error => exact quiet (by simp only [step, done, map_error, orElse])
    | ok result =>
      obtain ⟨s', o⟩ := result
      simp only [step, done, map_ok, orElse]
      obtain ⟨rfl, _⟩ | ⟨s₀, applies, rfl, _⟩ := applyRoster_cases done
      · exact .same
      · exact .writeRoster rfl applies k
  | join sender lookup =>
    cases done : s.applyJoin sender lookup now with
    | error => exact quiet (by simp only [step, done, map_error, orElse])
    | ok result => exact quiet (by simpa only [step, done, map_ok, orElse] using applyJoin_peers done)
  | leaveMail sender team created => exact quiet (applyLeave_peers s sender team created now)
  | keys sender ann => exact .mergeKeys now sender ann k

def Unchained (s : Store) : Prop := ∀ k p, s.peers.lookup k = some p → p.introducedBy ≠ none → p.trust = .team

theorem unchained_step (unchained : s.Unchained) (e : Event) : (step s e).Unchained := by
  intro k p' found introduced
  have peer := step_peer s e k
  rw [found] at peer
  generalize before : s.peers.lookup k = x at peer
  cases peer with
  | same => exact unchained k p' before introduced
  | confirmed _ _ kept =>
    obtain direct | ⟨p, rfl, same, team⟩ := kept
    · exact absurd direct introduced
    · exact team (unchained k p before (same ▸ introduced))
  | @keys p => exact unchained k p before introduced
  | roster _ _ refreshed =>
    cases refreshed with
    | same => exact unchained k p' before introduced
    | introduced => rfl
    | @mailbox p => exact unchained k p before introduced
    | @refreshed p => exact unchained k p before introduced

end Store

/-- The operation ran to the end of a transaction that collects introduced peers. -/
def Event.Collects (e : Event) (s : Store) : Prop :=
  match e.op with
  | .roster sender r => ∃ s' st, s.applyRoster sender r e.now = .ok (s', .applied st)
  | .leave id => ∃ s', s.leave id e.now = .ok s'
  | .ownerRemoved _ => True
  | _ => False

structure Contained (s : Store) (e : Event) : Prop where
  /-- The trust of a row never decreases, and no mail raises it. -/
  trust : ∀ k p p', s.peers.lookup k = some p → (step s e).peers.lookup k = some p' →
    p.trust.rank ≤ p'.trust.rank ∧ (e.op.isMail = true → p'.trust = p.trust)
  /-- A row is introduced only by a roster of an owner that was itself confirmed directly. -/
  introduced : ∀ k p' o, (step s e).peers.lookup k = some p' → p'.introducedBy = some o →
    (∃ p, s.peers.lookup k = some p ∧ p.introducedBy = some o) ∨ s.peers.lookup k = none ∧ (∃ r, e.op = .roster o r) ∧
        ∃ p, s.peers.lookup o = some p ∧ (p.trust = .code ∨ p.trust = .fingerprint) ∧ p.introducedBy = none
  /-- A row that a mail makes is one of a roster, of a listed member, introduced by the sender and with trust
  `team`. -/
  created : ∀ k p', s.peers.lookup k = none → (step s e).peers.lookup k = some p' → e.op.isMail = true →
    ∃ sender r, e.op = .roster sender r ∧ k ∈ r.members.map RosterMember.key ∧ p'.introducedBy = some sender ∧
      p'.trust = .team
  /-- A roster changes no other team, of an introduced peer only the card and the mailbox keys, or removes it, and
  of a directly paired member only the mailbox keys. -/
  roster : ∀ sender r, e.op = .roster sender r → (∀ id, id ≠ r.id → (step s e).teams.lookup id = s.teams.lookup id) ∧
    ∀ k p, s.peers.lookup k = some p → (step s e).peers.lookup k = some p ∨
      p.introducedBy ≠ none ∧ ((step s e).peers.lookup k = none ∨
        ∃ card mailboxKeys, (step s e).peers.lookup k = some { p with card, mailboxKeys }) ∨
      p.introducedBy = none ∧ k ∈ r.members.map RosterMember.key ∧
      ∃ mailboxKeys, (step s e).peers.lookup k = some { p with mailboxKeys }
  /-- The owner of a team never changes, and with its name or its members its epoch increases. -/
  team : ∀ id t, s.teams.lookup id = some t → ∃ t', (step s e).teams.lookup id = some t' ∧ t'.owner = t.owner ∧
    (t.epoch < t'.epoch ∨ t'.epoch = t.epoch ∧ t'.name = t.name ∧ t'.members = t.members ∧
      ((∃ sender r, e.op = .roster sender r) → t' = t))
  /-- After a roster that was applied, a leave and the removal of an owner every introduced peer shares an active
  team. -/
  collected : e.Collects s → (step s e).Collected

namespace Store

variable {s : Store}

theorem trust_step (s : Store) (e : Event) {k : PeerKey} {p p' : Peer} (before : s.peers.lookup k = some p)
    (after : (step s e).peers.lookup k = some p') :
    p.trust.rank ≤ p'.trust.rank ∧ (e.op.isMail = true → p'.trust = p.trust) := by
  have peer := step_peer s e k
  rw [before, after] at peer
  cases peer with
  | same => exact ⟨le_rfl, fun _ => rfl⟩
  | confirmed own trust => exact ⟨trust p rfl, fun mail => absurd (own.symm.trans mail) Bool.false_ne_true⟩
  | keys => exact ⟨le_rfl, fun _ => rfl⟩
  | roster _ _ refreshed => cases refreshed <;> exact ⟨le_rfl, fun _ => rfl⟩

theorem introduced_step (unchained : s.Unchained) (e : Event) {k o : PeerKey} {p' : Peer}
    (after : (step s e).peers.lookup k = some p') (introduced : p'.introducedBy = some o) :
    (∃ p, s.peers.lookup k = some p ∧ p.introducedBy = some o) ∨
      s.peers.lookup k = none ∧ (∃ r, e.op = .roster o r) ∧
        ∃ p, s.peers.lookup o = some p ∧ (p.trust = .code ∨ p.trust = .fingerprint) ∧ p.introducedBy = none := by
  have peer := step_peer s e k
  rw [after] at peer
  generalize before : s.peers.lookup k = x at peer
  cases peer with
  | same => exact .inl ⟨p', rfl, introduced⟩
  | confirmed _ _ kept =>
    obtain direct | ⟨p, rfl, same, _⟩ := kept
    · cases direct.symm.trans introduced
    · exact .inl ⟨p, rfl, same ▸ introduced⟩
  | keys => exact .inl ⟨_, rfl, introduced⟩
  | @roster sender r _ _ _ op applies refreshed =>
    cases refreshed with
    | same => exact .inl ⟨p', rfl, introduced⟩
    | introduced =>
      cases introduced
      obtain ⟨p, found, trusted⟩ := applies.trusted
      refine .inr ⟨rfl, ⟨r, op⟩, p, found, trusted, ?_⟩
      by_contra chained
      have team := unchained _ p found chained
      rw [team] at trusted
      exact absurd trusted (by decide)
    | mailbox => exact .inl ⟨_, rfl, introduced⟩
    | refreshed => exact .inl ⟨_, rfl, introduced⟩

theorem created_step (e : Event) (mail : e.op.isMail = true) {k : PeerKey} {p' : Peer}
    (before : s.peers.lookup k = none) (after : (step s e).peers.lookup k = some p') :
    ∃ sender r, e.op = .roster sender r ∧
      k ∈ r.members.map RosterMember.key ∧ p'.introducedBy = some sender ∧ p'.trust = .team := by
  have peer := step_peer s e k
  rw [before, after] at peer
  cases peer with
  | confirmed own => exact absurd (own.symm.trans mail) Bool.false_ne_true
  | @roster sender r _ _ _ op _ refreshed =>
    cases refreshed with
    | introduced member => exact ⟨sender, r, op, member, rfl, rfl⟩

theorem roster_step (e : Event) {sender : PeerKey} {r : Roster} (op : e.op = .roster sender r)
    {k : PeerKey} {p : Peer} (before : s.peers.lookup k = some p) : (step s e).peers.lookup k = some p ∨
      p.introducedBy ≠ none ∧ ((step s e).peers.lookup k = none ∨
        ∃ card mailboxKeys, (step s e).peers.lookup k = some { p with card, mailboxKeys }) ∨
      p.introducedBy = none ∧ k ∈ r.members.map RosterMember.key ∧
      ∃ mailboxKeys, (step s e).peers.lookup k = some { p with mailboxKeys } := by
  have mail : e.op.isMail = true := by
    rw [op]
    rfl
  have peer := step_peer s e k
  rw [before] at peer
  generalize (step s e).peers.lookup k = y at peer
  cases peer with
  | same => exact .inl rfl
  | confirmed own => exact absurd (own.symm.trans mail) Bool.false_ne_true
  | removed own => exact absurd (own.symm.trans mail) Bool.false_ne_true
  | collected introduced => exact .inr (.inl ⟨introduced, .inl rfl⟩)
  | keys other => cases op.symm.trans other
  | roster op' _ refreshed =>
    cases op.symm.trans op'
    cases refreshed with
    | same => exact .inl rfl
    | mailbox member direct => exact .inr (.inr ⟨direct, member, _, rfl⟩)
    | refreshed _ introduced => exact .inr (.inl ⟨introduced, .inr ⟨_, _, rfl⟩⟩)

theorem team_step (s : Store) (e : Event) {id : TeamID} {t : TeamRow} (found : s.teams.lookup id = some t) :
    ∃ t', (step s e).teams.lookup id = some t' ∧ t'.owner = t.owner ∧
      (t.epoch < t'.epoch ∨ t'.epoch = t.epoch ∧ t'.name = t.name ∧ t'.members = t.members ∧
        ((∃ sender r, e.op = .roster sender r) → t' = t)) := by
  have team := step_team s e id
  generalize (step s e).teams.lookup id = y at team
  cases team with
  | same => exact ⟨t, found, rfl, .inr ⟨rfl, rfl, rfl, fun _ => rfl⟩⟩
  | created _ new => cases new.symm.trans found
  | owned owned =>
    cases owned.found.symm.trans found
    refine ⟨_, rfl, owned.owner, .inl ?_⟩
    rw [owned.epoch]
    omega
  | left found' op =>
    cases found'.symm.trans found
    exact ⟨_, rfl, rfl, .inr ⟨rfl, rfl, rfl, fun ⟨o, r, roster⟩ => absurd roster (op o r)⟩⟩
  | roster _ applies same =>
    obtain ⟨owner, newer⟩ := applies.newer t (same ▸ found)
    exact ⟨_, rfl, owner.symm, .inl newer⟩

theorem collected_step (e : Event) (collects : e.Collects s) : (step s e).Collected := by
  obtain ⟨now, op⟩ := e
  cases op with
  | roster sender r =>
    obtain ⟨s', st, done⟩ := collects
    obtain ⟨_, ignored⟩ | ⟨s₀, _, rfl, _⟩ := applyRoster_cases done
    · exact absurd rfl (ignored st)
    · simp only [step, done, map_ok, orElse]
      exact collected_gcIntroduced
  | leave id =>
    obtain ⟨s', done⟩ := collects
    obtain ⟨t, _, _, rfl⟩ := leave_eq_ok done
    simp only [step, done, orElse]
    exact collected_gcIntroduced
  | ownerRemoved owner => exact collected_gcIntroduced
  | _ => cases collects

/-- A store with nothing but the own card. -/
def fresh (self : PeerKey) (ownCard : Card) : Store := { self, ownCard }

theorem unchained_run (self : PeerKey) (ownCard : Card) (es : List Event) :
    (run step (fresh self ownCard) es).Unchained :=
  run_invariant (motive := Unchained) (fun _ e unchained => unchained_step unchained e)
    (fun k _ found => Option.some_ne_none _ (found.symm.trans (AList.lookup_empty k)) |>.elim) es

theorem introductions_contained (self : PeerKey) (ownCard : Card) (es : List Event) (e : Event) :
    Contained (run step (fresh self ownCard) es) e where
  trust := fun _ _ _ before after => trust_step _ e before after
  introduced := fun _ _ _ after introduced => introduced_step (unchained_run self ownCard es) e after introduced
  created := fun _ _ before after mail => created_step e mail before after
  roster := fun sender r op => by
    refine ⟨?_, fun k p before => roster_step e op before⟩
    intro id other
    have team := step_team (run step (fresh self ownCard) es) e id
    generalize (step (run step (fresh self ownCard) es) e).teams.lookup id = y at team
    cases team with
    | same => rfl
    | created op' => cases op.symm.trans op'
    | owned _ _ op' => exact absurd op (op' sender r)
    | left _ op' => exact absurd op (op' sender r)
    | roster op' _ same =>
      cases op.symm.trans op'
      exact absurd same.symm other
  team := fun _ _ found => team_step _ e found
  collected := collected_step e

end Store

end Agentnet.Team
