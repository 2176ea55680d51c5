import Agentnet.Mail.Receiver

/-! A mail is applied at most once, over replays and prunes, as long as its id is not used
again after the row that remembers it is gone. -/

namespace Agentnet.Mail

open Agentnet.Lib

/-- An event of the receiver and the true time at which it happens. -/
structure TimedEvent where
  time : Time
  event : ReceiverEvent

/-- The event itself; the time is that of the world. -/
def TimedEvent.step (r : Receiver) (e : TimedEvent) : Receiver := r.step e.event

def Receiver.after (r : Receiver) (es : List TimedEvent) : Receiver := run TimedEvent.step r es

def replaySlack : Int := 4 * day

/-- This mail, and not only its id. -/
def Receiver.recorded (r : Receiver) (m : Msg) : Bool := r.log.any fun e => e.1.key = m.key && e.1.created = m.created

/-- A sender's `created` is at most the skew ahead of true time. The local clock is
bounded for replays of recorded mails alone. -/
def TimedEvent.Honest (r : Receiver) (e : TimedEvent) : Prop :=
  match e.event with
  | .deliver m d =>
    parseWireTime m.created ≤ e.time + maxSkew ∧ (r.recorded m = true → e.time - replaySlack ≤ d.opened)
  | _ => True

instance (r : Receiver) (e : TimedEvent) : Decidable (e.Honest r) := by
  unfold TimedEvent.Honest
  split <;> infer_instance

/-- The stamp is read from a clock that is not more than the skew behind `created` either,
and an id that was recorded under another `created` comes only while a row still has it. -/
def TimedEvent.Regular (r : Receiver) (e : TimedEvent) : Prop :=
  match e.event with
  | .deliver m d =>
    parseWireTime m.created ≤ d.stored + maxSkew ∧ ∀ a ∈ r.log, a.1.key = m.key → a.1.created ≠ m.created →
      (r.seenRow m.fromKey m.id).isSome = true ∨ r.inInbox m.fromKey m.id = true
  | _ => True

instance (r : Receiver) (e : TimedEvent) : Decidable (e.Regular r) := by
  unfold TimedEvent.Regular
  split <;> infer_instance

/-- Too old for the created window from true time `t` on. -/
def Aged (t : Time) (m : Msg) : Prop := parseWireTime m.created + maxAge + replaySlack < t

/-- A stamp that outlives the window of the mail `m`. -/
def Covers (m : Msg) (stamp : StoreTime) : Prop := parseWireTime m.created - maxSkew ≤ parseStoreTime stamp

variable {m : Msg} {t : Time} {d : Call} {r s : Receiver}

theorem Aged.refused {opened : Time} (aged : Aged t m) (near : t - replaySlack ≤ opened) :
    inWindow m.created opened = false := by
  have early : parseWireTime m.created < opened - maxAge := by
    unfold Aged replaySlack maxAge day hour minute second Time at *
    omega
  rw [inWindow, decide_eq_true early]
  rfl

theorem seenStamp_le (now : Time) (created : WireTime) :
    parseStoreTime (seenStamp now created) ≤ parseWireTime created + maxSkew := by
  have bound := min_le_right now (parseWireTime created + maxSkew)
  rw [seenStamp]
  generalize min now (parseWireTime created + maxSkew) = stamp at *
  unfold parseStoreTime storeTime StoreTime Time at *
  omega

/-- A mail is stamped at most the skew before its `created`. -/
theorem seenStamp_covers (steady : parseWireTime m.created ≤ d.stored + maxSkew) :
    Covers m (seenStamp d.stored m.created) := by
  have now : parseWireTime m.created - maxSkew ≤ d.stored := by
    unfold Time at *
    omega
  have limit : parseWireTime m.created - maxSkew ≤ parseWireTime m.created + maxSkew := by
    unfold maxSkew minute second Time
    omega
  have both := le_min now limit
  rw [Covers, seenStamp]
  generalize min d.stored (parseWireTime m.created + maxSkew) = stamp at *
  unfold parseStoreTime storeTime parseWireTime maxSkew minute second StoreTime WireTime Time at *
  omega

structure Guarded (t : Time) (r : Receiver) : Prop where
  stamps : ∀ row ∈ r.seen, parseStoreTime row.receivedAt ≤ t + 2 * maxSkew
  refusals : ∀ f ∈ r.refusals, parseStoreTime f.seenAt ≤ t + 2 * maxSkew ∧ Covers f.msg f.seenAt
  kept : ∀ e ∈ r.log, Aged t e.1 ∨ ∃ row ∈ r.seen, row.fromKey = e.1.fromKey ∧ row.id = e.1.id ∧
    Covers e.1 row.receivedAt
  once : r.log.Pairwise fun a b => b.2 = .applied → a.1.key ≠ b.1.key

theorem Guarded.start (t : Time) (kinds : List (String × Bool)) : Guarded t (.start kinds) where
  stamps := fun _ member => (by cases member)
  refusals := fun _ member => (by cases member)
  kept := fun _ member => (by cases member)
  once := List.Pairwise.nil

theorem Guarded.later {t' : Time} (guarded : Guarded t r) (h : t ≤ t') : Guarded t' r := by
  have shift : t + 2 * maxSkew ≤ t' + 2 * maxSkew := by
    unfold Time at *
    omega
  constructor
  · intro row member
    exact le_trans (guarded.stamps row member) shift
  · intro f member
    exact ⟨le_trans (guarded.refusals f member).1 shift, (guarded.refusals f member).2⟩
  · intro e member
    exact (guarded.kept e member).imp (fun aged => lt_of_lt_of_le aged h) id
  · exact guarded.once

theorem Guarded.aged_of_unseen (guarded : Guarded t r)
    (recorded : r.recorded m = true) (fresh : r.seenRow m.fromKey m.id = none) : Aged t m := by
  obtain ⟨e, member, same⟩ := List.any_eq_true.mp recorded
  simp only [Msg.key, Prod.mk.injEq, Bool.and_eq_true, decide_eq_true_eq] at same
  rcases guarded.kept e member with aged | ⟨row, inside, sender, id, _⟩
  · unfold Aged at *
    rw [← same.2]
    exact aged
  · exact absurd (id.trans same.1.2) (seenRow_eq_none.mp fresh row inside (sender.trans same.1.1))

theorem Guarded.record (guarded : Guarded t r) {outcome : Outcome}
    {stamp : StoreTime} {bad : Bool} (below : parseStoreTime stamp ≤ t + 2 * maxSkew)
    (covers : Covers m stamp) (seen : s.seen = ⟨m.fromKey, m.id, stamp, bad⟩ :: r.seen)
    (log : s.log = r.log ++ [(m, outcome)]) (refusals : ∀ f ∈ s.refusals, f ∈ r.refusals)
    (new : ∀ a ∈ r.log, a.1.key ≠ m.key ∨ outcome ≠ .applied) : Guarded t s := by
  constructor
  · rw [seen]
    intro row member
    rcases List.mem_cons.mp member with rfl | old
    · exact below
    · exact guarded.stamps row old
  · intro f member
    exact guarded.refusals f (refusals f member)
  · rw [seen, log]
    intro e member
    rcases List.mem_append.mp member with old | single
    · refine (guarded.kept e old).imp id ?_
      rintro ⟨row, inside, rest⟩
      exact ⟨row, List.mem_cons_of_mem _ inside, rest⟩
    · rw [List.mem_singleton.mp single]
      exact .inr ⟨_, List.mem_cons_self, rfl, rfl, covers⟩
  · rw [log]
    refine List.pairwise_append.mpr ⟨guarded.once, List.pairwise_singleton _ _, ?_⟩
    intro a member b single applied same
    rw [List.mem_singleton.mp single] at applied same
    exact (new a member).elim (· same) (· applied)

/-- What records nothing keeps the guard. -/
theorem Guarded.same (guarded : Guarded t r) (seen : s.seen = r.seen)
    (log : s.log = r.log) (refusals : ∀ f ∈ s.refusals, f ∈ r.refusals) : Guarded t s := by
  constructor
  · rw [seen]
    exact guarded.stamps
  · intro f member
    exact guarded.refusals f (refusals f member)
  · rw [seen, log]
    exact guarded.kept
  · rw [log]
    exact guarded.once

theorem Guarded.handle (guarded : Guarded t r) (created : parseWireTime m.created ≤ t + maxSkew)
    (replay : r.recorded m = true → t - replaySlack ≤ d.opened)
    (steady : parseWireTime m.created ≤ d.stored + maxSkew)
    (reused : ∀ a ∈ r.log, a.1.key = m.key → a.1.created ≠ m.created →
      (r.seenRow m.fromKey m.id).isSome = true ∨ r.inInbox m.fromKey m.id = true) : Guarded t (r.handle m d).1 := by
  have below : parseStoreTime (seenStamp d.stored m.created) ≤ t + 2 * maxSkew := by
    have := seenStamp_le d.stored m.created
    unfold maxSkew minute second Time at *
    omega
  have handled := handle_handled r m d
  generalize (r.handle m d).1 = s at handled
  generalize (r.handle m d).2 = ack at handled
  cases handled with
  | silent => exact guarded
  | stale keys old => exact guarded
  | again row found => exact guarded
  | kept fresh listed => exact guarded
  | stored window young fresh unlisted =>
    refine guarded.record below (seenStamp_covers steady) rfl rfl (fun _ member => member) fun a member =>
      .inl fun same => ?_
    by_cases created : a.1.created = m.created
    · have recorded : r.recorded m = true := List.any_eq_true.mpr ⟨a, member, by simp [same, created]⟩
      have refused := (guarded.aged_of_unseen recorded fresh).refused (replay recorded)
      rw [refused] at window
      cases window
    · have rows := reused a member same created
      rw [fresh, unlisted] at rows
      simp at rows
  | refused window young fresh known =>
    refine ⟨guarded.stamps, ?_, guarded.kept, guarded.once⟩
    intro f member
    rcases List.mem_append.mp member with old | single
    · exact guarded.refusals f old
    · rw [List.mem_singleton.mp single]
      exact ⟨below, seenStamp_covers steady⟩

theorem Guarded.storeBad (guarded : Guarded t r) (i : Nat) (commits : Bool) : Guarded t (r.storeBad i commits).1 := by
  have stored := storeBad_stored r i commits
  generalize (r.storeBad i commits).1 = s at stored
  generalize (r.storeBad i commits).2 = ack at stored
  cases stored with
  | none => exact guarded
  | again f member rest sub row found => exact guarded.same rfl rfl fun _ inside => sub.subset inside
  | failed rest sub => exact guarded.same rfl rfl fun _ inside => sub.subset inside
  | marked f member rest sub _ _ =>
    obtain ⟨below, covers⟩ := guarded.refusals f member
    exact guarded.record below covers rfl rfl (fun _ inside => sub.subset inside) fun _ _ => .inr (by simp)

theorem Guarded.prune (guarded : Guarded t r) (now : Time) : Guarded t (r.prune now) := by
  obtain ⟨seen, eq, sub, gone⟩ := prune_cases r now
  rw [eq]
  refine ⟨fun row member => guarded.stamps row (sub row member), guarded.refusals, ?_, guarded.once⟩
  intro e member
  rcases guarded.kept e member with aged | ⟨row, inside, sender, id, covers⟩
  · exact .inl aged
  · rcases gone row inside with stays | ⟨⟨newest, listed, old⟩, _⟩
    · exact .inr ⟨row, stays, sender, id, covers⟩
    · left
      have bound := guarded.stamps newest listed
      unfold Aged Covers seenRetention replaySlack maxAge maxSkew day hour minute second Time at *
      omega

theorem Guarded.step {e : TimedEvent} (guarded : Guarded t r)
    (later : t ≤ e.time) (honest : e.Honest r) (regular : e.Regular r) : Guarded e.time (TimedEvent.step r e) := by
  have now := guarded.later later
  obtain ⟨now', event⟩ := e
  cases event with
  | deliver m d => exact now.handle honest.1 honest.2 regular.1 regular.2
  | storeBad i commits => exact now.storeBad i commits
  | prune clock => exact now.prune clock
  | pruneFinished clock plan =>
    obtain ⟨inbox, eq, _⟩ := pruneFinished_cases r clock plan
    change Guarded now' (r.pruneFinished clock plan)
    rw [eq]
    exact (now.prune clock).same rfl rfl fun _ member => member
  | upgrade kinds => exact now.same rfl rfl fun _ member => member

/-! ## Inbox rows -/

theorem inInbox_mono (sub : ∀ row ∈ r.inbox, row ∈ s.inbox) {sender : PeerKey} {id : MailID}
    (listed : r.inInbox sender id = true) : s.inInbox sender id = true := by
  obtain ⟨row, member, same⟩ := List.any_eq_true.mp listed
  exact List.any_eq_true.mpr ⟨row, sub row member, same⟩

/-- Applied mails of the kinds that keep an inbox row have one. -/
structure Listed (kinds : List (String × Bool)) (r : Receiver) : Prop where
  known : ∀ k ∈ kinds, k ∈ r.kinds
  rows : ∀ e ∈ r.log, e.2 = .applied → (e.1.kind, true) ∈ kinds → r.inInbox e.1.fromKey e.1.id = true

/-- What records nothing as applied keeps the inbox rows listed. -/
theorem Listed.same {kinds : List (String × Bool)} (listed : Listed kinds r) (more : ∀ k ∈ r.kinds, k ∈ s.kinds)
    (log : ∀ e ∈ s.log, e ∈ r.log ∨ e.2 ≠ .applied) (inbox : ∀ row ∈ r.inbox, row ∈ s.inbox) : Listed kinds s where
  known k member := more k (listed.known k member)
  rows e member applied keeps :=
    inInbox_mono inbox (listed.rows e ((log e member).resolve_right (· applied)) applied keeps)

/-- For a kind with an inbox row, only `agentnet prune` removes the row. -/
theorem Listed.step {kinds : List (String × Bool)} {e : TimedEvent} (listed : Listed kinds r)
    (kept : ∀ now plan, e.event ≠ .pruneFinished now plan) : Listed kinds (TimedEvent.step r e) := by
  obtain ⟨time, event⟩ := e
  cases event with
  | deliver m d =>
    have handled := handle_handled r m d
    show Listed kinds (r.handle m d).1
    generalize (r.handle m d).1 = s at handled
    generalize (r.handle m d).2 = ack at handled
    cases handled with
    | silent | stale | again | kept => exact listed
    | refused => exact listed.same (fun _ => id) (fun _ => .inl) fun _ => id
    | stored =>
      refine ⟨listed.known, fun e member applied keeps => ?_⟩
      rcases List.mem_append.mp member with old | new
      · refine inInbox_mono (fun row member => ?_) (listed.rows e old applied keeps)
        simp only [Receiver.commit]
        split
        · exact List.mem_cons_of_mem _ member
        · exact member
      · rw [List.mem_singleton.mp new] at keeps ⊢
        have inboxed : r.keepsInbox m.kind = true := List.any_eq_true.mpr ⟨_, listed.known _ keeps, by simp⟩
        simp [Receiver.inInbox, Receiver.commit, inboxed]
  | storeBad i commits =>
    have stored := storeBad_stored r i commits
    show Listed kinds (r.storeBad i commits).1
    generalize (r.storeBad i commits).1 = s at stored
    generalize (r.storeBad i commits).2 = ack at stored
    cases stored with
    | none => exact listed
    | again | failed => exact listed.same (fun _ => id) (fun _ => .inl) fun _ => id
    | marked =>
      refine listed.same (fun _ => id) (fun e member => ?_) fun _ => id
      exact (List.mem_append.mp member).imp_right fun new => by simp [List.mem_singleton.mp new]
  | prune clock =>
    obtain ⟨seen, eq, _⟩ := prune_cases r clock
    show Listed kinds (r.prune clock)
    rw [eq]
    exact listed.same (fun _ => id) (fun _ => .inl) fun _ => id
  | pruneFinished clock plan => exact absurd rfl (kept clock plan)
  | upgrade more => exact listed.same (fun _ => List.mem_append_left _) (fun _ => .inl) fun _ => id

theorem listed_after (kinds : List (String × Bool)) {es : List TimedEvent}
    (kept : ∀ e ∈ es, ∀ now plan, e.event ≠ .pruneFinished now plan) :
    Listed kinds ((Receiver.start kinds).after es) := by
  induction es using List.reverseRecOn with
  | nil => exact ⟨fun _ => id, fun _ member => (by cases member)⟩
  | append_singleton es e ih =>
    rw [Receiver.after, run_concat]
    exact (ih fun e member => kept e (List.mem_append_left _ member)).step (kept e (by simp))

/-! ## Every run -/

/-- For each sender and id the effects are committed at most once, and never after the mail was
recorded in another way; a recorded mail whose `mail_seen` row is gone is refused by the created
window at every later delivery; and where no inbox row is pruned, the id of a kind that keeps them
can never be used again. -/
theorem applied_at_most_once (kinds : List (String × Bool)) (t : Time) (es : List TimedEvent)
    (clocked : Clocked TimedEvent.time t es)
    (honest : Follows TimedEvent.step (fun r e => e.Honest r ∧ e.Regular r) (.start kinds) es) :
    let r := (Receiver.start kinds).after es
    (r.log.Pairwise fun a b => b.2 = .applied → a.1.key ≠ b.1.key) ∧
    (∀ e ∈ r.log, r.seenRow e.1.fromKey e.1.id = none → ∀ later d, clock TimedEvent.time t es ≤ later →
      later - replaySlack ≤ d.opened → inWindow e.1.created d.opened = false ∧ r.handle e.1 d = (r, none)) ∧
    ((∀ e ∈ es, ∀ now plan, e.event ≠ .pruneFinished now plan) →
      ∀ e ∈ r.log, e.2 = .applied → (e.1.kind, true) ∈ kinds → r.inInbox e.1.fromKey e.1.id = true) := by
  intro r
  have guarded : Guarded (clock TimedEvent.time t es) r :=
    run_clocked_of (motive := Guarded) (fun _ _ _ guarded later both => guarded.step later both.1 both.2)
      (Guarded.start t kinds) clocked honest
  refine ⟨guarded.once, ?_, fun kept => (listed_after kinds kept).rows⟩
  intro e member gone later d after near
  have recorded : r.recorded e.1 = true := List.any_eq_true.mpr ⟨e, member, by simp⟩
  have refused := ((guarded.later after).aged_of_unseen recorded gone).refused near
  refine ⟨refused, ?_⟩
  rw [Receiver.handle, refused]
  rfl

/-- A delivery whose clock readings are all `now`. -/
def promptDelivery (now : Time) : Delivery := ⟨⟨now, now, now, .ok, true⟩, le_refl _, le_refl _⟩

def sampleMail (id : MailID) (created : WireTime) : Msg := ⟨id, "a", "b", created, "note", ""⟩

/-- The first mail is applied and replayed; after 40 days a second one comes, and a
prune runs while the local clock is years ahead. -/
def prunedRun : List TimedEvent :=
  [⟨0, .deliver (sampleMail "m1" 0) (promptDelivery 0)⟩, ⟨hour, .deliver (sampleMail "m1" 0) (promptDelivery hour)⟩,
    ⟨40 * day, .deliver (sampleMail "m2" (40 * 86400)) (promptDelivery (40 * day))⟩,
    ⟨41 * day, .prune (4000 * day)⟩]

theorem prunedRun_once : ((Receiver.start [("note", true)]).after prunedRun).log =
        [(sampleMail "m1" 0, .applied), (sampleMail "m2" (40 * 86400), .applied)] ∧
      ((Receiver.start [("note", true)]).after prunedRun).seenRow "a" "m1" = none ∧
      inWindow 0 (38 * day) = false := by
  have gone : ((Receiver.start [("note", true)]).after prunedRun).seenRow "a" "m1" = none ∧
      ((Receiver.start [("note", true)]).after prunedRun).log =
        [(sampleMail "m1" 0, .applied), (sampleMail "m2" (40 * 86400), .applied)] := by decide +kernel
  have result := (applied_at_most_once [("note", true)] 0 prunedRun (by decide +kernel)
    (by decide +kernel)).2.1 (sampleMail "m1" 0, .applied) (by rw [gone.2]; exact List.mem_cons_self) gone.1
    (42 * day) (promptDelivery (38 * day)) (by decide +kernel) (by decide +kernel)
  exact ⟨gone.2, gone.1, result.1⟩

/-- A mail of a kind without inbox rows. -/
def joinMail (id : MailID) (created : WireTime) : Msg := { sampleMail id created with kind := "team.join" }

/-- The sender uses the id of a mail again, with a new `created`, after the prune of its row. -/
def reusedRun : List TimedEvent :=
  [⟨0, .deliver (joinMail "m1" 0) (promptDelivery 0)⟩,
    ⟨40 * day, .deliver (joinMail "m2" (40 * 86400)) (promptDelivery (40 * day))⟩, ⟨41 * day, .prune (41 * day)⟩,
    ⟨41 * day, .deliver (joinMail "m1" (41 * 86400)) (promptDelivery (41 * day))⟩]

/-- The clock steps back between `Open` and the stamp of the first mail, which is then replayed. -/
def steppedRun : List TimedEvent :=
  [⟨100 * day, .deliver (joinMail "m1" (100 * 86400)) ⟨100 * day, 100 * day, 0, .ok, true⟩⟩,
    ⟨101 * day, .deliver (joinMail "m2" (101 * 86400)) (promptDelivery (101 * day))⟩, ⟨101 * day, .prune (101 * day)⟩,
    ⟨101 * day, .deliver (joinMail "m1" (100 * 86400)) (promptDelivery (101 * day))⟩]

/-- Honest deliveries on a true clock, by which the mail `m1` of `a` is applied twice. -/
abbrev AppliedTwice (es : List TimedEvent) : Prop :=
  Clocked TimedEvent.time 0 es ∧
  Follows TimedEvent.step (fun r e => e.Honest r) (.start [("team.join", false)]) es ∧
  (((Receiver.start [("team.join", false)]).after es).log.filter fun e =>
    e.1.key = ("a", "m1") && e.2 = .applied).length = 2

theorem join_applied_twice : AppliedTwice reusedRun ∧ AppliedTwice steppedRun := by
  decide +kernel

end Agentnet.Mail
