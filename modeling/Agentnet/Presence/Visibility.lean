import Agentnet.Basic
import Agentnet.Lib.Run

/-! Who was told that this daemon is online: `sendAll` and `SyncVisibility` among changes of the teams and of the
mode. -/

namespace Agentnet.Presence.Visibility

open Lib

inductive State where
  | online
  | offline
  deriving DecidableEq

inductive Mode where
  | visible
  | onlyTeam (team : TeamID)
  | invisible
  deriving DecidableEq

structure Membership where
  id : TeamID
  active : Bool
  members : List PeerKey

/-- The tables and the mode. `keys` are the peers with a mailbox key. -/
structure Env where
  self : PeerKey
  teams : List Membership := []
  keys : List PeerKey := []
  mode : Mode := .visible

def checkTeamGone (env : Env) : Env :=
  match env.mode with
  | .onlyTeam id =>
    if env.teams.any fun t => decide (t.id = id) && t.active then env else { env with mode := .invisible }
  | _ => env

/-- `visibleSet`, as a set. -/
def visibleSet (env : Env) : List PeerKey :=
  let listed : List PeerKey := match (checkTeamGone env).mode with
    | .invisible => []
    | .onlyTeam id => (env.teams.filter fun t => decide (t.id = id)).flatMap Membership.members
    | .visible => (env.teams.filter Membership.active).flatMap Membership.members
  listed.filter fun p => !decide (p = env.self) && decide (p ∈ env.keys)

inductive Job where
  /-- A tick, or `SendNow`. -/
  | sendAll
  | syncVisibility
  deriving DecidableEq

structure Sender where
  env : Env
  visible : List PeerKey := []
  /-- The peers in `visiblePubs`. -/
  visiblePubs : List PeerKey := []
  /-- The holder of `sendMu`, and the set that it read. -/
  job : Option (Job × List PeerKey) := none
  /-- Nothing changed since the job read the set. -/
  current : Bool := false
  /-- A `SyncVisibility` has run after the last change. -/
  synced : Bool := false
  /-- The last message to each peer. -/
  last : PeerKey → Option State := fun _ => none

/-- `sendOne`, over a connection that takes every message. -/
def sendOne (state : State) (s : Sender) (peer : PeerKey) : Sender :=
  if peer ∈ s.env.keys ∨ (state = .offline ∧ peer ∈ s.visiblePubs) then
    { s with last := Function.update s.last peer (some state) } else s

/-- The part of `SyncVisibility` after `visibleSet`. -/
def swap (s : Sender) (next : List PeerKey) : Sender :=
  let leaving := s.visible.filter fun p => decide (p ∉ next)
  let entering := next.filter fun p => decide (p ∉ s.visible)
  let pubs := next.filter (fun p => decide (p ∈ s.env.keys)) ++ leaving.filter fun p => decide (p ∈ s.visiblePubs)
  leaving.foldl (sendOne .offline) (entering.foldl (sendOne .online) { s with visible := next, visiblePubs := pubs })

/-- A change of what peers may see, and the jobs of the sender. -/
inductive Event where
  | change (env : Env)
  | start (job : Job)
  | finish

/-- One event; a job reads its peers when it starts and tells them when it finishes. -/
def step (s : Sender) : Event → Sender
  | .change env => { s with env, current := false, synced := false }
  | .start job =>
    if s.job.isSome then s
    else { s with env := checkTeamGone s.env, job := some (job, visibleSet s.env), current := true }
  | .finish =>
    match s.job with
    | none => s
    | some (.sendAll, peers) => { peers.foldl (sendOne .online) s with job := none }
    | some (.syncVisibility, next) => { swap s next with job := none, synced := s.current }

/-- A heartbeat goes to peers of the last sync only, and a peer keeps its key while a sync runs. -/
def Quiet (s : Sender) : Event → Prop
  | .change _ => True
  | .start .syncVisibility => True
  | .start .sendAll => ∀ p ∈ visibleSet s.env, p ∈ s.visible
  | .finish => ∀ next, s.job = some (.syncVisibility, next) → ∀ p ∈ next, p ∈ s.env.keys

/-! ## Sends -/

section

variable {s : Sender} {state : State} {p : PeerKey}

/-- Everything but the last messages is the same. -/
structure SameSet (s s' : Sender) : Prop where
  env : s'.env = s.env
  visible : s'.visible = s.visible
  visiblePubs : s'.visiblePubs = s.visiblePubs
  job : s'.job = s.job
  current : s'.current = s.current
  synced : s'.synced = s.synced

theorem sends (state : State) (peers : List PeerKey) (s : Sender) :
    SameSet s (peers.foldl (sendOne state) s) ∧ ∀ p, (peers.foldl (sendOne state) s).last p =
      if p ∈ peers ∧ (p ∈ s.env.keys ∨ (state = .offline ∧ p ∈ s.visiblePubs)) then some state else s.last p := by
  induction peers generalizing s with
  | nil => exact ⟨⟨rfl, rfl, rfl, rfl, rfl, rfl⟩, fun p => by simp⟩
  | cons peer peers ih =>
    obtain ⟨⟨env, visible, pubs, job, current, synced⟩, last⟩ := ih (sendOne state s peer)
    rw [List.foldl_cons]
    by_cases sent : peer ∈ s.env.keys ∨ (state = .offline ∧ peer ∈ s.visiblePubs)
    · have one : sendOne state s peer = { s with last := Function.update s.last peer (some state) } := if_pos sent
      rw [one] at env visible pubs job current synced last ⊢
      refine ⟨⟨env, visible, pubs, job, current, synced⟩, fun p => ?_⟩
      rw [last]
      by_cases same : p = peer
      · subst same
        simp [sent]
      · simp [same]
    · have one : sendOne state s peer = s := if_neg sent
      rw [one] at env visible pubs job current synced last ⊢
      refine ⟨⟨env, visible, pubs, job, current, synced⟩, fun p => ?_⟩
      rw [last]
      by_cases same : p = peer
      · subst same
        simp [sent]
      · simp [same]

theorem visibleSet_checkTeamGone (env : Env) : visibleSet (checkTeamGone env) = visibleSet env := by
  have twice : checkTeamGone (checkTeamGone env) = checkTeamGone env := by
    cases mode : env.mode with
    | onlyTeam id =>
      by_cases found : (env.teams.any fun t => decide (t.id = id) && t.active) = true
      · have same : checkTeamGone env = env := by simp only [checkTeamGone, mode, if_pos found]
        rw [same, same]
      · simp only [checkTeamGone, mode, if_neg found]
    | _ => simp only [checkTeamGone, mode]
  have tables : (checkTeamGone env).self = env.self ∧ (checkTeamGone env).teams = env.teams ∧
      (checkTeamGone env).keys = env.keys := by
    rw [checkTeamGone]
    split
    · split <;> exact ⟨rfl, rfl, rfl⟩
    · exact ⟨rfl, rfl, rfl⟩
  simp only [visibleSet, twice, tables]

/-- What holds of a run in which heartbeats go to the peers of the last sync. -/
structure Told (s : Sender) : Prop where
  inside : ∀ p ∈ s.visible, s.last p = some .online ∧ p ∈ s.visiblePubs
  outside : ∀ p, p ∉ s.visible → s.last p ≠ some .online
  beat : ∀ peers, s.job = some (.sendAll, peers) → ∀ p ∈ peers, p ∈ s.visible
  read : s.current = true → ∀ job peers, s.job = some (job, peers) → peers = visibleSet s.env
  synced : s.synced = true → ∀ p, p ∈ s.visible ↔ p ∈ visibleSet s.env

theorem swap_spec (told : Told s) {next : List PeerKey} (keyed : ∀ p ∈ next, p ∈ s.env.keys) :
    (swap s next).env = s.env ∧ (swap s next).visible = next ∧
      (∀ p ∈ next, (swap s next).last p = some .online ∧ p ∈ (swap s next).visiblePubs) ∧
      ∀ p, p ∉ next → (swap s next).last p ≠ some .online := by
  unfold swap
  extract_lets leaving entering pubs
  obtain ⟨first, online⟩ := sends .online entering { s with visible := next, visiblePubs := pubs }
  obtain ⟨second, offline⟩ :=
    sends .offline leaving (entering.foldl (sendOne .online) { s with visible := next, visiblePubs := pubs })
  have keys := first.env
  have kept := first.visiblePubs
  refine ⟨second.env.trans first.env, second.visible.trans first.visible, fun p mem => ⟨?_, ?_⟩, fun p absent => ?_⟩
  · have stays : p ∉ leaving := by simp [leaving, mem]
    rw [offline, if_neg fun h => stays h.1, online]
    by_cases old : p ∈ s.visible
    · simp [entering, old, (told.inside p old).1]
    · simp [entering, old, mem, keyed p mem]
  · rw [second.visiblePubs, first.visiblePubs]
    simp [pubs, mem, keyed p mem]
  · have out : p ∉ entering := by simp [entering, absent]
    rw [offline, online, if_neg fun h : p ∈ entering ∧ _ => out h.1, kept]
    by_cases old : p ∈ s.visible
    · simp [leaving, pubs, old, absent, (told.inside p old).2]
    · simpa [leaving, old] using told.outside p old

/-- What each peer was told last, over one event. -/
theorem told_step {e : Event} (told : Told s) (quiet : Quiet s e) : Told (step s e) := by
  obtain ⟨inside, outside, beat, read, synced⟩ := told
  cases e with
  | change env => exact ⟨inside, outside, beat, (by intros; contradiction), (by intros; contradiction)⟩
  | start job =>
    rw [step]
    split
    · exact ⟨inside, outside, beat, read, synced⟩
    · refine ⟨inside, outside, ?_, ?_, ?_⟩
      · rintro peers ⟨⟩
        exact quiet
      · rintro - job peers ⟨⟩
        exact (visibleSet_checkTeamGone s.env).symm
      · rw [visibleSet_checkTeamGone]
        exact synced
  | finish =>
    cases job : s.job with
    | none =>
      simp only [step, job]
      exact ⟨inside, outside, fun peers => beat peers, read, synced⟩
    | some j =>
      obtain ⟨_ | _, peers⟩ := j
      · simp only [step, job]
        obtain ⟨same, last⟩ := sends .online peers s
        refine ⟨fun p mem => ?_, fun p absent => ?_, (by simp), fun _ _ _ h => (by cases h), fun done p => ?_⟩
        · rw [same.visible] at mem
          obtain ⟨online, key⟩ := inside p mem
          rw [same.visiblePubs, last, online, ite_self]
          exact ⟨rfl, key⟩
        · rw [same.visible] at absent
          rw [last, if_neg fun sent => absent (beat peers job p sent.1)]
          exact outside p absent
        · rw [same.visible, same.env]
          exact synced (same.synced.symm.trans done) p
      · simp only [step, job]
        obtain ⟨env, visible, entered, left⟩ := swap_spec ⟨inside, outside, beat, read, synced⟩ (quiet peers job)
        refine ⟨fun p mem => entered p (visible ▸ mem), fun p absent => left p (visible ▸ absent), (by simp),
          fun _ _ _ h => (by cases h), fun done p => ?_⟩
        have set := read done _ _ job
        rw [visible, env, set]

end

/-- In a run whose heartbeats go to peers of the last sync only, and in which no peer loses its mailbox key while a
sync runs: after a sync that followed the last change, no peer outside the visible set was last told online, and
every peer in it was. -/
theorem everyone_told {env : Env} {es : List Event} (quiet : Follows step Quiet { env } es) :
    let s := run step { env } es
    s.synced = true → (∀ p, p ∉ visibleSet s.env → s.last p ≠ some .online) ∧
    ∀ p ∈ visibleSet s.env, s.last p = some .online := by
  intro s synced
  have told : Told s := by
    refine run_invariant_of (motive := Told) (fun s e told quiet => told_step told quiet) ?_ quiet
    exact ⟨(by simp), (by simp), (by simp), (by simp), (by simp)⟩
  exact ⟨fun p absent => told.outside p (absent ∘ (told.synced synced p).mp),
    fun p mem => (told.inside p ((told.synced synced p).mpr mem)).1⟩

/-! ## A peer that comes and goes between two syncs -/

def alone : Env := { self := "me" }

def joined : Env := { self := "me", teams := [⟨"crew", true, ["me", "kim"]⟩], keys := ["kim"] }

/-- `kim` joins, is synced, and leaves. -/
def greeted : List Event :=
  [.start .syncVisibility, .finish, .change joined, .start .syncVisibility, .finish, .start .sendAll, .finish,
    .change { alone with keys := [] }, .start .syncVisibility, .finish]

theorem greeted_told : (run step { env := alone } greeted).synced = true ∧
    ∀ p, p ∉ visibleSet (run step { env := alone } greeted).env →
    (run step { env := alone } greeted).last p ≠ some .online := by
  have quiet : Follows step Quiet { env := alone } greeted := by
    refine ⟨trivial, ?_, trivial, trivial, ?_, by unfold Quiet; decide, by rintro _ ⟨⟩, trivial, trivial, ?_, trivial⟩
    all_goals
      rintro _ ⟨⟩
      decide
  exact ⟨by decide, (everyone_told quiet (by decide)).1⟩

/-- A heartbeat reaches `kim` before the sync of the change that added it; the change that removes it comes before
both syncs. -/
theorem no_goodbye : let s := run step { env := alone } [.start .syncVisibility, .finish, .change joined,
      .start .sendAll, .finish, .change alone, .start .syncVisibility, .finish, .start .syncVisibility, .finish]
    s.synced = true ∧ "kim" ∉ visibleSet s.env ∧ s.last "kim" = some .online := by
  decide

end Agentnet.Presence.Visibility
