import Agentnet.Mail.Answers
import Agentnet.Mail.OutboxRuns

/-! What the state of an outbox row says about the recipient: delivered means
applied, refused means never applied. -/

namespace Agentnet.Mail

open Agentnet.Lib

/-! ## The sender -/

def OutboxRow.Acked (r : OutboxRow) : Prop :=
  r.state = .delivered ∨ r.state = .failed ∧ (r.error = some errTextUnsupportedKind ∨ r.error = some errTextRejected)

def Quiet (a b : Option OutboxRow) : Prop := ∀ r', b = some r' → r'.Acked → a = some r'

theorem Quiet.refl (a : Option OutboxRow) : Quiet a a := fun _ found _ => found

theorem Quiet.trans {a b c : Option OutboxRow} (first : Quiet a b) (second : Quiet b c) : Quiet a c :=
  fun r' found acked => first r' (second r' found acked) acked

theorem OutboxRow.not_acked_of_open {r : OutboxRow} (live : r.isOpen = true) : ¬ r.Acked := by
  rintro (delivered | ⟨failed, _⟩)
  · rw [OutboxRow.isOpen, delivered] at live
    cases live
  · rw [OutboxRow.isOpen, failed] at live
    cases live

variable {id : MailID} {o : Outbox} {state : OutboxState} {recipient : PeerKey} {s s' : Link} {m : Msg}
  {member : AckMember} {r : Receiver}

theorem modify_quiet {p : OutboxRow → Bool} {f : OutboxRow → OutboxRow}
    (live : ∀ r, p r = true → (f r).isOpen = true) (j : MailID) : Quiet (o.row j) ((o.modify id p f).row j) := by
  rw [modify_row]
  split
  · rename_i same
    subst same
    intro r' found acked
    obtain ⟨r, before, eq⟩ := Option.map_eq_some_iff.mp found
    split at eq
    · rename_i chosen
      cases eq
      exact absurd acked (OutboxRow.not_acked_of_open (live r chosen))
    · rw [before, eq]
  · exact Quiet.refl _

theorem modifyAll_quiet {f : OutboxRow → Option OutboxRow}
    (kept : ∀ r r', f r = some r' → r'.Acked → r' = r) (j : MailID) :
    Quiet (o.row j) ((o.modifyAll f).row j) := by
  rw [modifyAll_row]
  intro r' found acked
  obtain ⟨r, before, eq⟩ := Option.bind_eq_some_iff.mp found
  rw [before, kept r r' eq acked]

theorem finishAll_quiet (o : Outbox) (ids : List MailID) (recipient : Option PeerKey)
    (final : state.final = true) (errText : String) (now : Time)
    (plain : ∀ r : OutboxRow, ¬ (r.close now state errText).Acked) (j : MailID) :
    Quiet (o.row j) ((o.finishAll ids recipient state errText now).row j) := by
  rcases finishAll_row o ids recipient state final errText now j with same | ⟨_, r, _, _, _, closed⟩
  · rw [same]
    exact Quiet.refl _
  · rw [closed]
    intro r' found acked
    cases found
    exact absurd acked (plain r)

theorem finish_quiet (o : Outbox) (id : MailID) (recipient : Option PeerKey) (final : state.final = true)
    (errText : String) (now : Time) (plain : ∀ r : OutboxRow, ¬ (r.close now state errText).Acked) (j : MailID) :
    Quiet (o.row j) ((o.finish id recipient state errText now).row j) :=
  finishAll_quiet o [id] recipient final errText now plain j

theorem expired_not_acked (now : Time) (r : OutboxRow) : ¬ (r.close now .expired "").Acked := by
  rintro (h | ⟨h, _⟩) <;> cases h

theorem failed_not_acked {errText : String}
    (other : errText ≠ "" ∧ errText ≠ errTextUnsupportedKind ∧ errText ≠ errTextRejected) (now : Time)
    (r : OutboxRow) : ¬ (r.close now .failed errText).Acked := by
  obtain ⟨filled, kind, refused⟩ := other
  have text : (r.close now .failed errText).error = some errText := if_neg filled
  rintro (h | ⟨_, h | h⟩)
  · cases h
  · rw [text] at h
    exact kind (Option.some.inj h)
  · rw [text] at h
    exact refused (Option.some.inj h)

theorem hurryIf_quiet {p : OutboxRow → Prop} [DecidablePred p] (queued : ∀ r, p r → r.state = .queued)
    (now : Time) (r r' : OutboxRow) (kept : (if p r then some (r.hurry now) else some r) = some r')
    (acked : r'.Acked) : r' = r := by
  split at kept
  · rename_i chosen
    cases kept
    have live : (r.hurry now).isOpen = true := by
      rw [OutboxRow.isOpen, OutboxRow.hurry, queued r chosen]
      rfl
    exact absurd acked (OutboxRow.not_acked_of_open live)
  · cases kept
    rfl

theorem retryUpdate_quiet (o : Outbox) (builds : Bool) (relay : Relay) (now : Time) (j : MailID) :
    Quiet (o.row j) ((o.retryUpdate builds relay now).row j) := by
  unfold Outbox.retryUpdate
  split
  · exact Quiet.refl _
  · rename_i t _
    simp only
    split
    · exact Quiet.refl _
    · split
      · exact Quiet.refl _
      · rename_i r found
        split
        · rename_i chosen
          simp only [Bool.and_eq_true, decide_eq_true_eq] at chosen
          change Quiet (o.row j) ((Outbox.modify { o with retrying := none } t.id (fun _ => true) _).row j)
          rw [modify_row, found]
          split
          · rintro r' resealed acked
            cases resealed
            exact absurd acked (OutboxRow.not_acked_of_open chosen.2)
          · exact Quiet.refl _
        · exact Quiet.refl _

theorem step_quiet (o : Outbox) (e : OutboxEvent) (foreign : ∀ a now, e = .onAck a now → a.fromKey ≠ recipient) :
    ∀ r', (o.step e).row id = some r' → r'.toKey = recipient → r'.Acked → o.row id = some r' := by
  have quiet : ∀ {o' : Outbox}, Quiet (o.row id) (o'.row id) →
      ∀ r', o'.row id = some r' → r'.toKey = recipient → r'.Acked → o.row id = some r' :=
    fun quiet r' found _ acked => quiet r' found acked
  cases e with
  | tick elapsed => exact quiet (Quiet.refl _)
  | submit s =>
    apply quiet
    change Quiet (o.row id) ((o.submit s).row id)
    unfold Outbox.submit
    split
    · exact Quiet.refl _
    · split
      · exact Quiet.refl _
      · intro r' found acked
        by_cases same : s.id = id
        · subst same
          cases (Table.get_set_self _ _ _).symm.trans found
          exact absurd acked (OutboxRow.not_acked_of_open rfl)
        · exact (Table.get_set_of_ne _ _ same).symm.trans found
  | scan now => exact quiet (Quiet.refl _)
  | sendNext paired relay now =>
    apply quiet
    change Quiet (o.row id) ((o.sendNext paired relay now).row id)
    unfold Outbox.sendNext
    split
    · exact Quiet.refl _
    · rename_i d rest _
      simp only
      split
      · cases d.frame with
        | none =>
          exact finish_quiet { o with due := rest } d.id none rfl "bad_frame" now
            (failed_not_acked (by decide) now) id
        | some f => exact Quiet.refl _
      · exact finish_quiet { o with due := rest } d.id none rfl "unpaired" now
          (failed_not_acked (by decide) now) id
  | handedOff i delay now =>
    apply quiet
    change Quiet (o.row id) ((o.handedOff i delay now).row id)
    unfold Outbox.handedOff
    split
    · exact Quiet.refl _
    · rename_i h _
      have attempted : Quiet (o.row id) ((Outbox.modify { o with handOffs := o.handOffs.eraseIdx i }
          h.id OutboxRow.isOpen
            (OutboxRow.attempted h.accepted delay now)).row id) := by
        apply modify_quiet
        intro r live
        unfold OutboxRow.attempted OutboxRow.isOpen
        cases h.accepted with
        | true => rfl
        | false => exact live
      simp only
      split
      · apply attempted.trans
        apply modify_quiet
        intro r queued
        rw [OutboxRow.isOpen, OutboxRow.hurry, of_decide_eq_true queued]
        rfl
      · exact attempted
  | onAck a now =>
    intro r' found peer acked
    rcases onAck_row o a now id with same | ⟨r, _, _, named, closed⟩
    · exact same.symm.trans found
    · have key : r'.toKey = r.toKey := by
        rcases closed with ⟨_, eq⟩ | ⟨_, eq⟩ | ⟨_, eq⟩
        all_goals
          cases eq.symm.trans found
          rfl
      exact absurd (named.trans (key.symm.trans peer)) (foreign a now rfl)
  | handleError ref code now =>
    apply quiet
    change Quiet (o.row id) ((o.handleError ref code now).row id)
    unfold Outbox.handleError
    have requeued : Quiet (o.row id) ((o.modify ref (·.state = .relayed) (OutboxRow.requeue now)).row id) :=
      modify_quiet (fun _ _ => rfl) id
    split
    · exact Quiet.refl _
    · cases code with
      | badEnvelope =>
        exact finish_quiet o ref none rfl "bad_envelope" now (failed_not_acked (by decide) now) id
      | badSender =>
        exact finish_quiet o ref none rfl "bad_sender" now (failed_not_acked (by decide) now) id
      | other => exact Quiet.refl _
      | _ => exact requeued
  | retrySelect peer j newKey =>
    apply quiet
    intro r' found _
    rw [Outbox.row, ← retrySelect_rows o peer j newKey]
    exact found
  | retryUpdate builds relay now => exact quiet (retryUpdate_quiet o builds relay now id)
  | maintain now =>
    apply quiet
    apply (finishAll_quiet o _ none rfl "" now (expired_not_acked now) id).trans
    apply modifyAll_quiet
    intro r r' kept _
    split at kept
    · cases kept
    · exact (Option.some.inj kept).symm
  | onReady now =>
    exact quiet (modifyAll_quiet (o := { o with ready := o.ready + 1 })
      (hurryIf_quiet (fun _ queued => queued) now) id)
  | onPeerOnline peer now =>
    exact quiet (modifyAll_quiet (o := { o with online := o.online.set peer (o.online.get peer + 1) })
      (hurryIf_quiet (fun _ queued => queued.1) now) id)
  | removePeer peer now =>
    apply quiet
    apply modifyAll_quiet
    intro r r' kept acked
    split at kept
    · cases kept
      exact absurd acked (failed_not_acked (by decide) now r)
    · exact (Option.some.inj kept).symm

/-! ## Both daemons -/

/-- A sender's outbox, the receiver of one recipient, and what is under way between
them. Frames and acks are never removed: a run delivers each any number of times,
in any order, or never. -/
structure Link where
  outbox : Outbox
  receiver : Receiver
  acks : List (Msg × AckMember)
  /-- The last reading of the recipient's clock. -/
  clock : Time

def Link.start (self : PeerKey) (kinds : List (String × Bool)) (clock : Time) : Link :=
  ⟨.start self, .start kinds, [], clock⟩

def AckMember.ack (recipient : PeerKey) (id : MailID) : AckMember → Ack
  | .ids => ⟨recipient, [id], [], []⟩
  | .unsupported => ⟨recipient, [], [id], []⟩
  | .rejected => ⟨recipient, [], [], [id]⟩

/-- `Handle`, with its ack. The receive goroutine handles one mail at a time: a
refused mail is marked before the next. -/
def Link.handle (s : Link) (m : Msg) (d : Delivery) : Link :=
  if s.receiver.refusals = [] then
    { s with
      receiver := (s.receiver.handle m d).1
      acks := s.acks ++ ((s.receiver.handle m d).2.toList.filter fun _ => m.fromKey = s.outbox.self).map (m, ·)
      clock := d.stored }
  else s

inductive LinkEvent where
  /-- An event of the outbox other than an ack of the recipient. -/
  | sender (e : OutboxEvent)
  | ack (i : Nat) (now : Time)
  | deliver (i : Nat) (d : Delivery)
  /-- A mail of another sender. -/
  | foreign (m : Msg) (d : Delivery)
  | storeBad (i : Nat) (commits : Bool)
  | prune (now : Time)
  | pruneFinished (now : Time) (plan : InboxRow → Bool)
  | upgrade (kinds : List (String × Bool))

def OutboxEvent.acks (recipient : PeerKey) : OutboxEvent → Bool
  | .onAck a _ => a.fromKey = recipient
  | _ => false

/-- An event of the sender, of the network or of the recipient. -/
def Link.step (recipient : PeerKey) (s : Link) : LinkEvent → Link
  | .sender e => if e.acks recipient then s else { s with outbox := s.outbox.step e }
  | .ack i now =>
    match s.acks[i]? with
    | none => s
    | some (m, member) => { s with outbox := s.outbox.onAck (member.ack recipient m.id) now }
  | .deliver i d =>
    match s.outbox.frames[i]? with
    | none => s
    | some x => if x.2.toKey = recipient then s.handle x.2.plain.msg d else s
  | .foreign m d => if m.fromKey = s.outbox.self then s else s.handle m d
  | .storeBad i commits =>
    { s with
      receiver := (s.receiver.storeBad i commits).1
      acks := s.acks ++ (s.receiver.storeBad i commits).2.toList.filter (·.1.fromKey = s.outbox.self) }
  | .prune now => { s with receiver := s.receiver.prune now, clock := now }
  | .pruneFinished now plan => { s with receiver := s.receiver.pruneFinished now plan, clock := now }
  | .upgrade kinds => { s with receiver := { s.receiver with kinds := s.receiver.kinds ++ kinds } }

/-- The state after a run. -/
def Link.after (recipient : PeerKey) (s : Link) (es : List LinkEvent) : Link := run (Link.step recipient) s es

def Receiver.applied (r : Receiver) (m : Msg) : Bool :=
  r.log.any fun e => e.1.fromKey = m.fromKey && e.1.id = m.id && e.2 = .applied

/-- The recipient's clock does not step back, an applied mail is not delivered again
past the receive age, and an upgrade adds no kind of a mail that was stored as
unsupported. -/
def Link.Orderly (s : Link) : LinkEvent → Prop
  | .deliver i d =>
    s.clock ≤ d.opened ∧ ∀ x, s.outbox.frames[i]? = some x → s.receiver.applied x.2.plain.msg = true →
      x.2.plain.msg.kind = "keys" ∨ d.aged - parseWireTime x.2.plain.msg.created ≤ receiveMaxAge
  | .foreign _ d => s.clock ≤ d.opened
  | .prune now | .pruneFinished now _ => s.clock ≤ now
  | .upgrade kinds => ∀ e ∈ s.receiver.log, e.2 = .unsupported → ∀ k ∈ kinds, k.1 ≠ e.1.kind
  | .sender _ | .ack _ _ | .storeBad _ _ => True

instance (s : Link) (e : LinkEvent) : Decidable (s.Orderly e) := by
  unfold Link.Orderly
  split <;> infer_instance

/-- All mails that were submitted. -/
def Link.sent (s : Link) : List Msg := s.outbox.submitted.map (·.msg)

/-- Every ack under way is true, and every row that an ack closed agrees with the
recipient's records. -/
structure Link.Consistent (recipient : PeerKey) (s : Link) : Prop where
  sound : s.outbox.Sound
  answers : Answers s.outbox.self s.sent s.clock s.receiver
  acks : ∀ a ∈ s.acks, a.1 ∈ s.sent ∧ Truthful s.clock s.receiver a.1 a.2
  delivered : ∀ m ∈ s.sent, ∀ r, s.outbox.row m.id = some r → r.toKey = recipient → r.state = .delivered →
    s.receiver.Recorded m .applied
  failed : ∀ m ∈ s.sent, ∀ r, s.outbox.row m.id = some r → r.toKey = recipient → r.state = .failed →
    r.error = some errTextUnsupportedKind ∨ r.error = some errTextRejected → s.receiver.Doomed s.clock m

theorem Link.Consistent.unique (consistent : s.Consistent recipient) :
    ∀ a ∈ s.sent, ∀ b ∈ s.sent, a.id = b.id → a = b := by
  intro a inside b inside' id
  obtain ⟨x, member, rfl⟩ := List.mem_map.mp inside
  obtain ⟨y, member', rfl⟩ := List.mem_map.mp inside'
  rw [List.inj_on_of_nodup_map consistent.sound.unique member member' id]

theorem Link.Consistent.own (consistent : s.Consistent recipient) (inside : m ∈ s.sent) :
    m.fromKey = s.outbox.self := by
  obtain ⟨x, member, rfl⟩ := List.mem_map.mp inside
  exact consistent.sound.own x member

structure Link.Grows (s s' : Link) : Prop where
  self : s'.outbox.self = s.outbox.self
  sent : ∀ m ∈ s.sent, m ∈ s'.sent
  applied : ∀ m, s.receiver.Recorded m .applied → s'.receiver.Recorded m .applied
  doomed : ∀ m ∈ s.sent, s.receiver.Doomed s.clock m → s'.receiver.Doomed s'.clock m

theorem Link.Grows.refl (s : Link) : s.Grows s := ⟨rfl, fun _ h => h, fun _ h => h, fun _ _ h => h⟩

theorem Link.Grows.trans {a b c : Link} (first : a.Grows b) (second : b.Grows c) : a.Grows c :=
  ⟨second.self.trans first.self, fun m h => second.sent m (first.sent m h),
    fun m h => second.applied m (first.applied m h),
    fun m h doomed => second.doomed m (first.sent m h) (first.doomed m h doomed)⟩

theorem Link.Grows.truthful (grows : s.Grows s') (inside : m ∈ s.sent)
    (truthful : Truthful s.clock s.receiver m member) :
    Truthful s'.clock s'.receiver m member := by
  cases member with
  | ids => exact grows.applied m truthful
  | unsupported => exact grows.doomed m inside truthful
  | rejected => exact grows.doomed m inside truthful

theorem Link.Consistent.receive (consistent : s.Consistent recipient) (outbox : s'.outbox = s.outbox)
    (grows : s.Grows s') (answers : Answers s.outbox.self s.sent s'.clock s'.receiver)
    (acks : ∀ a ∈ s'.acks, a ∈ s.acks ∨ a.1 ∈ s.sent ∧ Truthful s'.clock s'.receiver a.1 a.2) :
    s'.Consistent recipient := by
  have sent : s'.sent = s.sent := by rw [Link.sent, outbox, Link.sent]
  constructor
  · rw [outbox]
    exact consistent.sound
  · rw [outbox, sent]
    exact answers
  · rw [sent]
    intro a member
    rcases acks a member with old | new
    · obtain ⟨inside, truthful⟩ := consistent.acks a old
      exact ⟨inside, grows.truthful inside truthful⟩
    · exact new
  · rw [sent, outbox]
    intro m inside r found peer delivered
    exact grows.applied m (consistent.delivered m inside r found peer delivered)
  · rw [sent, outbox]
    intro m inside r found peer failed text
    exact grows.doomed m inside (consistent.failed m inside r found peer failed text)

theorem Link.Consistent.send (consistent : s.Consistent recipient) {e : OutboxEvent}
    (foreign : e.acks recipient = false) :
    Link.Consistent recipient { s with outbox := s.outbox.step e } ∧
    s.Grows { s with outbox := s.outbox.step e } := by
  obtain ⟨self, grown⟩ := step_grown s.outbox e
  have sent : ∀ m ∈ s.sent, m ∈ (Link.mk (s.outbox.step e) s.receiver s.acks s.clock).sent :=
    fun m inside => (grown.map Signed.msg).subset inside
  have quiet : ∀ m ∈ (Link.mk (s.outbox.step e) s.receiver s.acks s.clock).sent, ∀ r,
      (s.outbox.step e).row m.id = some r → r.toKey = recipient → r.Acked →
      m ∈ s.sent ∧ s.outbox.row m.id = some r := by
    intro m inside r found peer acked
    have before := step_quiet s.outbox e (by
      rintro a now rfl same
      rw [OutboxEvent.acks, decide_eq_false_iff_not] at foreign
      exact foreign same) r found peer acked
    obtain ⟨x, member, id, _⟩ := consistent.sound.rows m.id r before
    have listed : x.msg ∈ s.sent := List.mem_map_of_mem member
    obtain ⟨y, member', rfl⟩ := List.mem_map.mp inside
    have same : x = y := List.inj_on_of_nodup_map (consistent.sound.step e).unique (grown.subset member) member' id
    exact ⟨same ▸ listed, before⟩
  refine ⟨⟨consistent.sound.step e, ?_, ?_, ?_, ?_⟩, ⟨self, sent, fun _ h => h, fun _ _ h => h⟩⟩
  · change Answers (s.outbox.step e).self _ s.clock s.receiver
    rw [self]
    exact consistent.answers.later (le_refl _) sent
  · intro a member
    exact ⟨sent _ (consistent.acks a member).1, (consistent.acks a member).2⟩
  · intro m inside r found peer delivered
    obtain ⟨old, before⟩ := quiet m inside r found peer (.inl delivered)
    exact consistent.delivered m old r before peer delivered
  · intro m inside r found peer failed text
    obtain ⟨old, before⟩ := quiet m inside r found peer (.inr ⟨failed, text⟩)
    exact consistent.failed m old r before peer failed text

theorem onAck_sent (o : Outbox) (a : Ack) (now : Time) :
    (o.onAck a now).self = o.self ∧ (o.onAck a now).submitted = o.submitted :=
  ⟨(onAck_same o a now).self, (onAck_same o a now).submitted⟩

theorem Link.Consistent.acked (consistent : s.Consistent recipient) (listed : (m, member) ∈ s.acks) (now : Time) :
    Link.Consistent recipient { s with outbox := s.outbox.onAck (member.ack recipient m.id) now } ∧
      s.Grows { s with outbox := s.outbox.onAck (member.ack recipient m.id) now } := by
  obtain ⟨inside, truthful⟩ := consistent.acks _ listed
  obtain ⟨self, submitted⟩ := onAck_sent s.outbox (member.ack recipient m.id) now
  have sent : (Link.mk (s.outbox.onAck (member.ack recipient m.id) now) s.receiver s.acks s.clock).sent = s.sent := by
    rw [Link.sent, submitted, Link.sent]
  -- the row of a mail changes only if it is the mail of the ack
  have row : ∀ x ∈ s.sent, ∀ r, (s.outbox.onAck (member.ack recipient m.id) now).row x.id = some r →
      s.outbox.row x.id = some r ∨ x = m ∧
      (r.state = .delivered ∧ member = .ids ∨ r.state = .failed ∧ member ≠ .ids) := by
    intro x sent r found
    rcases onAck_row s.outbox (member.ack recipient m.id) now x.id with same | ⟨r₀, _, _, _, closed⟩
    · exact .inl (same.symm.trans found)
    · have named : ∀ {id : MailID}, x.id = id → m.id = id → x = m := by
        intro id h h'
        exact consistent.unique x sent m inside (h.trans h'.symm)
      cases member with
      | ids =>
        rcases closed with ⟨here, eq⟩ | ⟨here, _⟩ | ⟨here, _⟩
        · cases eq.symm.trans found
          exact .inr ⟨named (List.mem_singleton.mp here) rfl, .inl ⟨rfl, rfl⟩⟩
        · cases here
        · cases here
      | unsupported =>
        rcases closed with ⟨here, _⟩ | ⟨here, eq⟩ | ⟨here, _⟩
        · cases here
        · cases eq.symm.trans found
          exact .inr ⟨named (List.mem_singleton.mp here) rfl, .inr ⟨rfl, by decide⟩⟩
        · cases here
      | rejected =>
        rcases closed with ⟨here, _⟩ | ⟨here, _⟩ | ⟨here, eq⟩
        · cases here
        · cases here
        · cases eq.symm.trans found
          exact .inr ⟨named (List.mem_singleton.mp here) rfl, .inr ⟨rfl, by decide⟩⟩
  refine ⟨⟨?_, ?_, ?_, ?_, ?_⟩, ⟨self, fun _ h => sent ▸ h, fun _ h => h, fun _ _ h => h⟩⟩
  · exact consistent.sound.step (.onAck (member.ack recipient m.id) now)
  · rw [sent]
    change Answers (s.outbox.onAck (member.ack recipient m.id) now).self _ s.clock s.receiver
    rw [self]
    exact consistent.answers
  · rw [sent]
    exact consistent.acks
  · rw [sent]
    intro x known r found peer delivered
    rcases row x known r found with before | ⟨rfl, ⟨_, rfl⟩ | ⟨failed, _⟩⟩
    · exact consistent.delivered x known r before peer delivered
    · exact truthful
    · rw [delivered] at failed
      cases failed
  · rw [sent]
    intro x known r found peer failed text
    rcases row x known r found with before | ⟨rfl, ⟨delivered, _⟩ | ⟨_, refused⟩⟩
    · exact consistent.failed x known r before peer failed text
    · rw [failed] at delivered
      cases delivered
    · cases member with
      | ids => exact absurd rfl refused
      | unsupported => exact truthful
      | rejected => exact truthful

theorem Receiver.applied_of_recorded (recorded : r.Recorded m .applied) : r.applied m = true := by
  obtain ⟨e, inside, from_, id, applied⟩ := recorded
  apply List.any_eq_true.mpr
  refine ⟨e, inside, ?_⟩
  rw [Bool.and_eq_true, Bool.and_eq_true]
  exact ⟨⟨decide_eq_true from_, decide_eq_true id⟩, decide_eq_true applied⟩

theorem Link.Consistent.handle (consistent : s.Consistent recipient) {d : Delivery}
    (mine : m.fromKey = s.outbox.self → m ∈ s.sent) (later : s.clock ≤ d.opened)
    (young : m.fromKey = s.outbox.self → s.receiver.applied m = true →
      m.kind = "keys" ∨ d.aged - parseWireTime m.created ≤ receiveMaxAge) :
    (s.handle m d).Consistent recipient ∧ s.Grows (s.handle m d) := by
  unfold Link.handle
  split
  · rename_i idle
    have answered := consistent.answers.handle consistent.unique mine idle later
      fun own recorded => young own (Receiver.applied_of_recorded recorded)
    have grows : s.Grows
        { s with
          receiver := (s.receiver.handle m d).1
          acks := s.acks ++ ((s.receiver.handle m d).2.toList.filter fun _ => m.fromKey = s.outbox.self).map (m, ·)
          clock := d.stored } :=
      ⟨rfl, fun _ h => h, answered.applied,
        fun x inside doomed => answered.doomed x inside (consistent.own inside) doomed⟩
    refine ⟨consistent.receive rfl grows answered.answers ?_, grows⟩
    intro a member
    rcases List.mem_append.mp member with old | new
    · exact .inl old
    · obtain ⟨ack, sent, rfl⟩ := List.mem_map.mp new
      obtain ⟨given, own⟩ := List.mem_filter.mp sent
      have own := of_decide_eq_true own
      exact .inr ⟨mine own, answered.truthful ack (Option.mem_toList.mp given) own⟩
  · exact ⟨consistent, Link.Grows.refl s⟩

/-- Only the log decides what is doomed. -/
theorem Receiver.Doomed.same {s : Receiver} {t t' : Time} (doomed : r.Doomed t m)
    (log : s.log = r.log) (later : t ≤ t') : s.Doomed t' m := by
  have at_ := doomed.later later
  have recorded : s.Recorded = r.Recorded := by
    funext m outcome
    rw [Receiver.Recorded, log, Receiver.Recorded]
  refine ⟨?_, ?_⟩
  · rw [recorded]
    exact at_.unapplied
  · rw [recorded]
    exact at_.barred

/-- The two ends agree after every event in order, and what is settled stays. -/
theorem Link.Consistent.step (consistent : s.Consistent recipient) {e : LinkEvent} (orderly : s.Orderly e) :
    (s.step recipient e).Consistent recipient ∧ s.Grows (s.step recipient e) := by
  have same := And.intro consistent (Link.Grows.refl s)
  -- a step of the recipient that records nothing
  have idle : ∀ {r : Receiver} {t : Time}, s.clock ≤ t → r.log = s.receiver.log → Answers s.outbox.self s.sent t r →
      Link.Consistent recipient { s with receiver := r, clock := t } ∧
      s.Grows { s with receiver := r, clock := t } := by
    intro r t later log answers
    have grows : s.Grows { s with receiver := r, clock := t } := by
      refine ⟨rfl, fun _ h => h, ?_, fun m _ doomed => doomed.same log later⟩
      intro m recorded
      change r.Recorded m .applied
      rw [Receiver.Recorded, log]
      exact recorded
    exact ⟨consistent.receive rfl grows answers fun a member => .inl member, grows⟩
  cases e with
  | sender e =>
    simp only [Link.step]
    split
    · exact same
    · rename_i foreign
      exact consistent.send (by simpa using foreign)
  | ack i now =>
    simp only [Link.step]
    split
    · exact same
    · rename_i m member found
      exact consistent.acked (List.mem_of_getElem? found) now
  | deliver i d =>
    simp only [Link.step]
    split
    · exact same
    · rename_i x found
      split
      · obtain ⟨signed, member, _, frameOf⟩ := consistent.sound.frames x (List.mem_of_getElem? found)
        rw [frameOf.plain]
        refine consistent.handle (fun _ => List.mem_map_of_mem member) orderly.1 ?_
        intro _ applied
        have young := orderly.2 x found
        rw [frameOf.plain] at young
        exact young applied
      · exact same
  | foreign m d =>
    simp only [Link.step]
    split
    · exact same
    · rename_i other
      exact consistent.handle (fun own => absurd own other) orderly fun own => absurd own other
  | storeBad i commits =>
    have marked := consistent.answers.storeBad i commits
    have grows : s.Grows (s.step recipient (.storeBad i commits)) :=
      ⟨rfl, fun _ h => h, marked.applied, fun x _ doomed => marked.doomed x doomed⟩
    refine ⟨consistent.receive rfl grows marked.answers ?_, grows⟩
    intro a member
    rcases List.mem_append.mp member with old | new
    · exact .inl old
    · obtain ⟨given, own⟩ := List.mem_filter.mp new
      exact .inr (marked.truthful a.1 a.2 (Option.mem_toList.mp given) (of_decide_eq_true own))
  | prune now =>
    obtain ⟨seen, eq, _⟩ := prune_cases s.receiver now
    exact idle orderly (by rw [eq]) (consistent.answers.prune orderly)
  | pruneFinished now plan =>
    obtain ⟨seen, eq, _⟩ := prune_cases s.receiver now
    obtain ⟨inbox, eq', _⟩ := pruneFinished_cases s.receiver now plan
    exact idle orderly (by rw [eq', eq]) (consistent.answers.pruneFinished orderly plan)
  | upgrade kinds => exact idle (le_refl _) rfl (consistent.answers.upgrade orderly)

theorem Link.Consistent.start (self recipient : PeerKey) (kinds : List (String × Bool)) (t : Time) :
    (Link.start self kinds t).Consistent recipient where
  sound := Outbox.Sound.start self
  answers := Answers.start self t kinds
  acks := fun _ member => (by cases member)
  delivered := fun _ member => (by cases member)
  failed := fun _ member => (by cases member)

/-- The same over runs. -/
theorem Link.Consistent.after (consistent : s.Consistent recipient)
    {es : List LinkEvent} (orderly : Follows (Link.step recipient) Link.Orderly s es) :
    (s.after recipient es).Consistent recipient ∧ s.Grows (s.after recipient es) := by
  induction es generalizing s with
  | nil => exact ⟨consistent, Link.Grows.refl s⟩
  | cons e es ih =>
    obtain ⟨next, grows⟩ := consistent.step orderly.1
    obtain ⟨last, grows'⟩ := ih next orderly.2
    exact ⟨last, grows.trans grows'⟩

/-- A row that is delivered names a mail that the recipient has applied; a row that
failed as unsupported or rejected names one that it has not and never will. -/
theorem delivered_means_applied (self recipient : PeerKey) (kinds : List (String × Bool)) (t : Time)
    (es fs : List LinkEvent)
    (orderly : Follows (Link.step recipient) Link.Orderly (.start self kinds t) (es ++ fs)) (id : MailID)
    (r : OutboxRow) (found : ((Link.start self kinds t).after recipient es).outbox.row id = some r)
    (peer : r.toKey = recipient) :
    (r.state = .delivered → ∃ e ∈ ((Link.start self kinds t).after recipient es).receiver.log,
        e.1.fromKey = self ∧ e.1.id = id ∧ e.2 = .applied) ∧
    (r.state = .failed → r.error = some errTextUnsupportedKind ∨ r.error = some errTextRejected →
      ∀ e ∈ ((Link.start self kinds t).after recipient (es ++ fs)).receiver.log, e.1.fromKey = self → e.1.id = id →
      e.2 ≠ .applied) := by
  obtain ⟨first, rest⟩ := Follows.append.mp orderly
  obtain ⟨consistent, grows⟩ := (Link.Consistent.start self recipient kinds t).after first
  obtain ⟨_, grows'⟩ := consistent.after rest
  have split : (Link.start self kinds t).after recipient (es ++ fs) =
      ((Link.start self kinds t).after recipient es).after recipient fs := run_append _ _ _ _
  rw [split]
  generalize (Link.start self kinds t).after recipient es = s at *
  obtain ⟨signed, member, rfl, _⟩ := consistent.sound.rows id r found
  have inside : signed.msg ∈ s.sent := List.mem_map_of_mem member
  have own : signed.msg.fromKey = self := (consistent.own inside).trans grows.self
  refine ⟨?_, ?_⟩
  · intro delivered
    obtain ⟨e, logged, from_, same, applied⟩ := consistent.delivered _ inside r found peer delivered
    exact ⟨e, logged, from_.trans own, same, applied⟩
  · intro failed text e logged from_ same applied
    have doomed := grows'.doomed _ inside (consistent.failed _ inside r found peer failed text)
    exact doomed.unapplied ⟨e, logged, from_.trans own.symm, same, applied⟩

def sampleID : MailID := "m-00000000000000000000000000000001"

/-- The mail of kind `note` is submitted and handed to the relay. -/
def sendingRun : List LinkEvent :=
  [.sender (.submit ⟨sampleID, "b", "note", "", "sig", true, some "key", 0⟩), .sender (.scan 0),
    .sender (.sendNext true .accepted 0)]

def resentRun : List LinkEvent :=
  sendingRun ++ [.deliver 0 (promptDelivery 0), .deliver 0 (promptDelivery hour), .ack 1 hour]

theorem resentRun_applied :
    (((Link.start "a" [("note", true)] 0).after "b" resentRun).outbox.row sampleID).map (·.state) =
        some .delivered ∧ ∃ e ∈ ((Link.start "a" [("note", true)] 0).after "b" resentRun).receiver.log,
        e.1.fromKey = "a" ∧ e.1.id = sampleID ∧ e.2 = .applied := by
  have state : (((Link.start "a" [("note", true)] 0).after "b" resentRun).outbox.row sampleID).map
      (fun r => (r.state, r.toKey)) = some (.delivered, "b") := by decide +kernel
  obtain ⟨r, found, eq⟩ := Option.map_eq_some_iff.mp state
  have result := delivered_means_applied "a" "b" [("note", true)] 0 resentRun [] (by decide +kernel) sampleID r
    found (Prod.mk.inj eq).2
  refine ⟨?_, result.1 (Prod.mk.inj eq).1⟩
  rw [found]
  exact congrArg some (Prod.mk.inj eq).1

/-- The recipient stores the mail as of an unknown kind and the ack is lost; after an
upgrade that registers the kind, the resend is a repeat and acked as stored. -/
def upgradedRun : List LinkEvent :=
  sendingRun ++ [.deliver 0 (promptDelivery 0), .upgrade [("note", true)],
    .deliver 0 (promptDelivery hour), .ack 1 hour]

theorem upgradedRun_unapplied :
    (((Link.start "a" [] 0).after "b" upgradedRun).outbox.row sampleID).map (·.state) = some .delivered ∧
      ((Link.start "a" [] 0).after "b" upgradedRun).receiver.log.map (fun e => (e.1.id, e.2)) =
        [(sampleID, .unsupported)] := by decide +kernel

end Agentnet.Mail
