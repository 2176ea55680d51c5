import Agentnet.Mail.ExactlyOnce

/-! What the ack of a mail says about the records of the recipient. -/

namespace Agentnet.Mail

open Agentnet.Lib

/-- The mail is on record with this outcome. -/
def Receiver.Recorded (r : Receiver) (m : Msg) (outcome : Outcome) : Prop :=
  ∃ e ∈ r.log, e.1.fromKey = m.fromKey ∧ e.1.id = m.id ∧ e.2 = outcome

/-- The mail is not applied, and it is recorded or too old, so that it never will be. -/
structure Receiver.Doomed (t : Time) (r : Receiver) (m : Msg) : Prop where
  unapplied : ¬ r.Recorded m .applied
  barred : (∃ outcome, r.Recorded m outcome) ∨ m.kind ≠ "keys" ∧ receiveMaxAge < t - parseWireTime m.created

/-- What the recipient has recorded of the mails `sent` by `sender`, at clock `t`. -/
structure Answers (sender : PeerKey) (sent : List Msg) (t : Time) (r : Receiver) : Prop where
  mails : ∀ e ∈ r.log, e.1.fromKey = sender → e.1 ∈ sent
  single : ∀ e ∈ r.log, ∀ e' ∈ r.log, e.1.fromKey = sender → e'.1.fromKey = sender → e.1.id = e'.1.id → e = e'
  rows : ∀ row ∈ r.seen, row.fromKey = sender →
    ∃ e ∈ r.log, e.1.fromKey = sender ∧ e.1.id = row.id ∧ (row.bad = true ↔ e.2 = .refused)
  inbox : ∀ row ∈ r.inbox, row.fromKey = sender → ∃ e ∈ r.log, e.1.fromKey = sender ∧ e.1.id = row.id ∧ e.2 = .applied
  known : ∀ e ∈ r.log, e.1.fromKey = sender →
    (e.2 = .applied → r.known e.1.kind = true) ∧ (e.2 = .unsupported → r.known e.1.kind = false)
  covered : ∀ e ∈ r.log, e.1.fromKey = sender → parseWireTime e.1.created + maxAge < t ∨
    ∃ row ∈ r.seen, row.fromKey = sender ∧ row.id = e.1.id ∧ Covers e.1 row.receivedAt
  refusals : ∀ f ∈ r.refusals, f.msg.fromKey = sender → f.msg ∈ sent ∧ Covers f.msg f.seenAt ∧
    ∀ e ∈ r.log, e.1.fromKey = sender → e.1.id ≠ f.msg.id
  few : r.refusals.length ≤ 1

variable {sender : PeerKey} {sent : List Msg} {t : Time} {r : Receiver}

theorem Answers.start (sender : PeerKey) (t : Time) (kinds : List (String × Bool)) :
    Answers sender [] t (.start kinds) where
  mails := fun _ member => (by cases member)
  single := fun _ member => (by cases member)
  rows := fun _ member => (by cases member)
  inbox := fun _ member => (by cases member)
  known := fun _ member => (by cases member)
  covered := fun _ member => (by cases member)
  refusals := fun _ member => (by cases member)
  few := Nat.zero_le _

variable {t' now : Time} {m : Msg} {outcome : Outcome} {s : Receiver}

/-- The answers stay right as time goes on and more is sent. -/
theorem Answers.later {sent' : List Msg} (answers : Answers sender sent t r) (h : t ≤ t')
    (grown : ∀ m ∈ sent, m ∈ sent') : Answers sender sent' t' r where
  mails := fun e member own => grown _ (answers.mails e member own)
  __ := answers
  covered := fun e member own => (answers.covered e member own).imp (fun aged => lt_of_lt_of_le aged h) id
  refusals := fun f member own => ⟨grown _ (answers.refusals f member own).1, (answers.refusals f member own).2⟩

/-- A doomed mail stays so. -/
theorem Receiver.Doomed.later (doomed : r.Doomed t m) (h : t ≤ t') : r.Doomed t' m := by
  refine ⟨doomed.unapplied, doomed.barred.imp id ?_⟩
  rintro ⟨keys, old⟩
  refine ⟨keys, ?_⟩
  unfold Time at *
  omega

/-- A recorded mail is refused by the window or found in `mail_seen`. -/
theorem Answers.not_fresh (answers : Answers sender sent t r) {e : Msg × Outcome} (member : e ∈ r.log)
    (own : e.1.fromKey = sender) {opened : Time} (later : t ≤ opened)
    (window : inWindow e.1.created opened = true) : r.seenRow sender e.1.id ≠ none := by
  intro fresh
  rcases answers.covered e member own with aged | ⟨row, inside, from_, id, _⟩
  · simp only [inWindow, Bool.not_eq_true', Bool.or_eq_false_iff, decide_eq_false_iff_not, not_lt] at window
    have := window.1
    unfold Time at *
    omega
  · exact seenRow_eq_none.mp fresh row inside from_ id

theorem Answers.record (answers : Answers sender sent t r) {stamp : StoreTime} (mine : m.fromKey = sender → m ∈ sent)
    (new : m.fromKey = sender → ∀ e ∈ r.log, e.1.fromKey = sender → e.1.id ≠ m.id)
    (covers : m.fromKey = sender → Covers m stamp) (kinds : s.kinds = r.kinds)
    (known : m.fromKey = sender →
      (outcome = .applied → r.known m.kind = true) ∧
      (outcome = .unsupported → r.known m.kind = false)) (seen : s.seen = ⟨m.fromKey, m.id, stamp,
        decide (outcome = .refused)⟩ :: r.seen) (log : s.log = r.log ++ [(m, outcome)]) (inbox : ∀ row ∈ s.inbox,
          row ∈ r.inbox ∨ row.fromKey = m.fromKey ∧ row.id = m.id ∧ outcome = .applied)
    (refusals : s.refusals = []) : Answers sender sent t s := by
  have here : (m, outcome) ∈ s.log := by
    rw [log]
    exact List.mem_append_right _ (List.mem_singleton_self _)
  have old : ∀ {e}, e ∈ r.log → e ∈ s.log := by
    intro e member
    rw [log]
    exact List.mem_append_left _ member
  have cases : ∀ {e}, e ∈ s.log → e ∈ r.log ∨ e = (m, outcome) := by
    intro e member
    rw [log, List.mem_append, List.mem_singleton] at member
    exact member
  have same : ∀ kind, s.known kind = r.known kind := fun kind => by rw [Receiver.known, kinds]; rfl
  constructor
  · intro e member own
    rcases cases member with before | rfl
    · exact answers.mails e before own
    · exact mine own
  · intro e member e' member' own own' id
    rcases cases member with before | rfl
    · rcases cases member' with before' | rfl
      · exact answers.single e before e' before' own own' id
      · exact absurd id (new own' e before own)
    · rcases cases member' with before' | rfl
      · exact absurd id.symm (new own e' before' own')
      · rfl
  · rw [seen]
    intro row member own
    rcases List.mem_cons.mp member with rfl | before
    · exact ⟨_, here, own, rfl, by simp⟩
    · obtain ⟨e, inside, rest⟩ := answers.rows row before own
      exact ⟨e, old inside, rest⟩
  · intro row member own
    rcases inbox row member with before | ⟨from_, id, applied⟩
    · obtain ⟨e, inside, rest⟩ := answers.inbox row before own
      exact ⟨e, old inside, rest⟩
    · exact ⟨_, here, from_.symm.trans own, id.symm, applied⟩
  · intro e member own
    rw [same]
    rcases cases member with before | rfl
    · exact answers.known e before own
    · exact known own
  · intro e member own
    rw [seen]
    rcases cases member with before | rfl
    · refine (answers.covered e before own).imp id ?_
      rintro ⟨row, inside, rest⟩
      exact ⟨row, List.mem_cons_of_mem _ inside, rest⟩
    · exact .inr ⟨_, List.mem_cons_self, own, rfl, covers own⟩
  · rw [refusals]
    exact fun _ member => (by cases member)
  · rw [refusals]
    exact Nat.zero_le _

def Truthful (t : Time) (r : Receiver) (m : Msg) : AckMember → Prop
  | .ids => r.Recorded m .applied
  | .unsupported | .rejected => r.Doomed t m

theorem Answers.repeat_truthful (answers : Answers sender sent t r)
    (unique : ∀ a ∈ sent, ∀ b ∈ sent, a.id = b.id → a = b) (own : m.fromKey = sender)
    (mine : m ∈ sent) {row : SeenRow} (found : r.seenRow m.fromKey m.id = some row) :
    Truthful t r m (r.repeatAck m.kind row) := by
  obtain ⟨inside, from_, id⟩ := seenRow_eq_some found
  obtain ⟨e, member, eOwn, eId, marked⟩ := answers.rows row inside (from_.trans own)
  have named : e.1.id = m.id := eId.trans id
  have mail : e.1 = m := unique _ (answers.mails e member eOwn) _ mine named
  have recorded : r.Recorded m e.2 := ⟨e, member, eOwn.trans own.symm, named, rfl⟩
  have unapplied : e.2 ≠ .applied → ¬ r.Recorded m .applied := by
    rintro other ⟨e', member', own', id', applied⟩
    have same := answers.single e member e' member' eOwn (own'.trans own) (named.trans id'.symm)
    exact other (same ▸ applied)
  unfold Receiver.repeatAck Receiver.storedAck
  split
  · rename_i bad
    have refused := marked.mp bad
    exact ⟨unapplied (by rw [refused]; simp), .inl ⟨_, recorded⟩⟩
  · rename_i good
    have knows := answers.known e member eOwn
    rw [mail] at knows
    split
    · rename_i known
      cases outcome : e.2 with
      | applied =>
        rw [outcome] at recorded
        exact recorded
      | unsupported => rw [knows.2 outcome] at known; cases known
      | refused => exact absurd (marked.mpr outcome) good
    · rename_i unknown
      refine ⟨unapplied ?_, .inl ⟨_, recorded⟩⟩
      intro applied
      exact unknown (knows.1 applied)

/-- One call of `Handle`: the records stay in order, the ack is truthful, and a
doomed mail stays doomed. -/
structure Answered (sender : PeerKey) (sent : List Msg) (t : Time) (r : Receiver) (m : Msg) (d : Delivery)
    (s : Receiver) (ack : Option AckMember) : Prop where
  answers : Answers sender sent d.stored s
  truthful : ∀ member, ack = some member → m.fromKey = sender → Truthful d.stored s m member
  applied : ∀ x, r.Recorded x .applied → s.Recorded x .applied
  doomed : ∀ x ∈ sent, x.fromKey = sender → r.Doomed t x → s.Doomed d.stored x

theorem Recorded.append {x : Msg} {new : Outcome}
    (log : s.log = r.log ++ [(m, new)]) (h : r.Recorded x outcome) : s.Recorded x outcome := by
  obtain ⟨e, member, rest⟩ := h
  exact ⟨e, by rw [log]; exact List.mem_append_left _ member, rest⟩

theorem Delivery.steady (d : Delivery) (window : inWindow m.created d.opened = true) :
    parseWireTime m.created ≤ d.stored + maxSkew := by
  have forward := le_trans d.forward.1 d.forward.2
  simp only [inWindow, Bool.not_eq_true', Bool.or_eq_false_iff, decide_eq_false_iff_not, not_lt] at window
  have := window.2
  unfold Time at *
  omega

theorem Answers.handle (answers : Answers sender sent t r)
    (unique : ∀ a ∈ sent, ∀ b ∈ sent, a.id = b.id → a = b) {d : Delivery} (mine : m.fromKey = sender → m ∈ sent)
    (idle : r.refusals = []) (later : t ≤ d.opened) (young : m.fromKey = sender → r.Recorded m .applied →
      m.kind = "keys" ∨ d.aged - parseWireTime m.created ≤ receiveMaxAge) :
    Answered sender sent t r m d (r.handle m d).1 (r.handle m d).2 := by
  have forward : t ≤ d.stored := le_trans later (le_trans d.forward.1 d.forward.2)
  have aged : t ≤ d.aged := le_trans later d.forward.1
  have handled := handle_handled r m d
  generalize (r.handle m d).1 = s at handled
  generalize (r.handle m d).2 = ack at handled
  have now := answers.later forward fun _ member => member
  have stays : ∀ x ∈ sent, x.fromKey = sender → r.Doomed t x → r.Doomed d.stored x :=
    fun x _ _ doomed => doomed.later forward
  -- a mail inside the window with no row was never recorded
  have unrecorded : m.fromKey = sender → inWindow m.created d.opened = true →
      r.seenRow m.fromKey m.id = none → ∀ e ∈ r.log, e.1.fromKey = sender → e.1.id ≠ m.id := by
    intro own window fresh e member eOwn id
    have mail : e.1 = m := unique _ (answers.mails e member eOwn) _ (mine own) id
    rw [own] at fresh
    exact answers.not_fresh member eOwn later (mail ▸ window) (id ▸ fresh)
  cases handled with
  | silent => exact ⟨now, fun _ none => (by cases none), fun _ h => h, stays⟩
  | stale keys old =>
    refine ⟨now, ?_, fun _ h => h, stays⟩
    intro member some own
    cases some
    refine ⟨?_, .inr ⟨keys, ?_⟩⟩
    · intro applied
      rcases young own applied with isKeys | inTime
      · exact keys isKeys
      · exact absurd inTime (not_le.mpr old)
    · have := d.forward.2
      unfold Time at *
      omega
  | again row found =>
    refine ⟨now, ?_, fun _ h => h, stays⟩
    intro member some own
    cases some
    exact now.repeat_truthful unique own (mine own) found
  | kept fresh listed =>
    refine ⟨now, ?_, fun _ h => h, stays⟩
    intro member some own
    cases some
    obtain ⟨row, inside, test⟩ := List.any_eq_true.mp listed
    simp only [Bool.and_eq_true, decide_eq_true_eq] at test
    obtain ⟨e, member, eOwn, id, applied⟩ := answers.inbox row inside (test.1.trans own)
    have named : e.1.id = m.id := id.trans test.2
    have mail : e.1 = m := unique _ (answers.mails e member eOwn) _ (mine own) named
    have known := (answers.known e member eOwn).1 applied
    rw [mail] at known
    rw [Receiver.storedAck, if_pos known]
    exact ⟨e, member, eOwn.trans own.symm, named, applied⟩
  | stored window inTime fresh unlisted =>
    have log : (r.commit m d).log = r.log ++ [(m, if r.known m.kind then .applied else .unsupported)] := rfl
    have recorded : (r.commit m d).Recorded m (if r.known m.kind then .applied else .unsupported) :=
      ⟨_, by rw [log]; exact List.mem_append_right _ (List.mem_singleton_self _), rfl, rfl, rfl⟩
    have bars : ∀ x ∈ sent, x.fromKey = sender → r.Doomed t x → ¬ (r.commit m d).Recorded x .applied := by
      rintro x member own doomed ⟨e, inside, from_, id, applied⟩
      rw [log, List.mem_append, List.mem_singleton] at inside
      rcases inside with before | rfl
      · exact doomed.unapplied ⟨e, before, from_, id, applied⟩
      · have mail : m = x := unique _ (mine (from_.trans own)) _ member id
        subst mail
        rcases doomed.barred with ⟨outcome, e, inside, from_, id, _⟩ | ⟨keys, old⟩
        · exact unrecorded own window fresh e inside (from_.trans own) id
        · have := inTime keys
          unfold Time at *
          omega
    refine ⟨?_, ?_, fun x h => Recorded.append log h, ?_⟩
    · refine now.record mine (fun own => unrecorded own window fresh)
        (fun _ => seenStamp_covers (d.steady window)) rfl ?_ ?_
        log ?_ idle
      · intro _
        refine ⟨fun h => ?_, fun h => ?_⟩
        · by_contra unknown
          rw [if_neg unknown] at h
          cases h
        · by_contra known
          rw [if_pos (by simpa using known)] at h
          cases h
      · have plain : decide ((if r.known m.kind = true then Outcome.applied else .unsupported) = .refused) =
            false := by
          split <;> rfl
        rw [plain]
        rfl
      · intro row member
        simp only [Receiver.commit] at member
        split at member
        · rename_i keeps
          rcases List.mem_cons.mp member with rfl | before
          · refine .inr ⟨rfl, rfl, if_pos ?_⟩
            obtain ⟨k, inside, test⟩ := List.any_eq_true.mp keeps
            simp only [Bool.and_eq_true, decide_eq_true_eq] at test
            exact List.any_eq_true.mpr ⟨k, inside, decide_eq_true test.1⟩
          · exact .inl before
        · exact .inl member
    · intro member some own
      cases some
      rw [Receiver.storedAck]
      split
      · rename_i known
        rw [if_pos known] at recorded
        exact recorded
      · rename_i unknown
        rw [if_neg unknown] at recorded
        refine ⟨?_, .inl ⟨_, recorded⟩⟩
        rintro ⟨e, inside, from_, id, applied⟩
        rw [log, if_neg unknown, List.mem_append, List.mem_singleton] at inside
        rcases inside with before | rfl
        · exact unrecorded own window fresh e before (from_.trans own) id
        · cases applied
    · intro x member own doomed
      refine ⟨bars x member own doomed, ?_⟩
      refine (doomed.later forward).barred.imp ?_ id
      rintro ⟨outcome, h⟩
      exact ⟨outcome, Recorded.append log h⟩
  | refused window inTime fresh known =>
    refine ⟨?_, fun _ none => (by cases none), fun _ h => h, fun x member own doomed => ?_⟩
    · refine { now with refusals := ?_, few := ?_ }
      · simp only [idle, List.nil_append]
        intro f member own
        rw [List.mem_singleton.mp member] at own ⊢
        exact ⟨mine own, seenStamp_covers (d.steady window), unrecorded own window fresh⟩
      · simp only [idle, List.nil_append]
        exact le_refl _
    · exact ⟨(stays x member own doomed).unapplied, (stays x member own doomed).barred⟩

/-- The second transaction of `storeBad` marks a mail that nothing else recorded. -/
structure Marked (sender : PeerKey) (sent : List Msg) (t : Time) (r s : Receiver)
    (ack : Option (Msg × AckMember)) : Prop where
  answers : Answers sender sent t s
  truthful : ∀ m member, ack = some (m, member) → m.fromKey = sender → m ∈ sent ∧ Truthful t s m member
  applied : ∀ x, r.Recorded x .applied → s.Recorded x .applied
  doomed : ∀ x, r.Doomed t x → s.Doomed t x

theorem Answers.storeBad (answers : Answers sender sent t r) (i : Nat) (commits : Bool) :
    Marked sender sent t r (r.storeBad i commits).1 (r.storeBad i commits).2 := by
  have stored := storeBad_stored r i commits
  generalize (r.storeBad i commits).1 = s at stored
  generalize (r.storeBad i commits).2 = ack at stored
  have shrunk : ∀ {rest : List Refusal}, rest.Sublist r.refusals →
      Answers sender sent t { r with refusals := rest } := by
    intro rest sub
    exact { answers with
      refusals := fun f member => answers.refusals f (sub.subset member)
      few := le_trans sub.length_le answers.few }
  cases stored with
  | none => exact ⟨answers, fun _ _ none => (by cases none), fun _ h => h, fun _ doomed => doomed⟩
  | failed rest sub =>
    exact ⟨shrunk sub, fun _ _ none => (by cases none), fun _ h => h,
      fun _ doomed => ⟨doomed.unapplied, doomed.barred⟩⟩
  | again f member rest sub row found =>
    refine ⟨shrunk sub, ?_, fun _ h => h, fun _ doomed => ⟨doomed.unapplied, doomed.barred⟩⟩
    intro m ack some own
    cases some
    -- a refused mail is marked before the next one is handled
    obtain ⟨inside, from_, id⟩ := seenRow_eq_some found
    obtain ⟨e, listed, eOwn, eId, _⟩ := answers.rows row inside (from_.trans own)
    exact absurd (eId.trans id) ((answers.refusals f member own).2.2 e listed eOwn)
  | marked f member rest sub short fresh =>
    have none : rest = [] := by
      have few := answers.few
      apply List.eq_nil_of_length_eq_zero
      omega
    have unapplied : ∀ {x}, ¬ r.Recorded x .applied → ¬ Receiver.Recorded
        { r with
          refusals := rest
          seen := ⟨f.msg.fromKey, f.msg.id, f.seenAt, true⟩ :: r.seen
          log := r.log ++ [(f.msg, .refused)] } x .applied := by
      rintro x before ⟨e, inside, from_, id, applied⟩
      rcases List.mem_append.mp inside with old | new
      · exact before ⟨e, old, from_, id, applied⟩
      · cases List.mem_singleton.mp new
        cases applied
    refine ⟨?_, ?_, fun x h => Recorded.append rfl h, ?_⟩
    · refine answers.record (fun own => (answers.refusals f member own).1)
        (fun own => (answers.refusals f member own).2.2) (fun own => (answers.refusals f member own).2.1) rfl
        ?_ rfl rfl (fun _ inside => .inl inside) none
      exact fun _ => ⟨fun h => (by cases h), fun h => (by cases h)⟩
    · intro m ack some own
      cases some
      refine ⟨(answers.refusals f member own).1, unapplied ?_, .inl ⟨.refused, ?_⟩⟩
      · rintro ⟨e, inside, from_, id, _⟩
        exact (answers.refusals f member own).2.2 e inside (from_.trans own) id
      · exact ⟨_, List.mem_append_right _ (List.mem_singleton_self _), rfl, rfl, rfl⟩
    · intro x doomed
      refine ⟨unapplied doomed.unapplied, doomed.barred.imp ?_ fun h => h⟩
      rintro ⟨outcome, h⟩
      exact ⟨outcome, Recorded.append rfl h⟩

theorem Answers.prune (answers : Answers sender sent t r) (later : t ≤ now) :
    Answers sender sent now (r.prune now) := by
  obtain ⟨seen, eq, sub, gone⟩ := prune_cases r now
  rw [eq]
  have at_ := answers.later later fun _ member => member
  refine { at_ with rows := ?_, covered := ?_ }
  · intro row member own
    exact at_.rows row (sub row member) own
  · intro e member own
    rcases at_.covered e member own with aged | ⟨row, inside, from_, id, covers⟩
    · exact .inl aged
    · rcases gone row inside with stays | ⟨_, old⟩
      · exact .inr ⟨row, stays, from_, id, covers⟩
      · left
        unfold Covers seenRetention maxAge maxSkew day hour minute second Time at *
        omega

theorem Answers.pruneFinished (answers : Answers sender sent t r) (later : t ≤ now)
    (plan : InboxRow → Bool) : Answers sender sent now (r.pruneFinished now plan) := by
  obtain ⟨inbox, eq, sub⟩ := pruneFinished_cases r now plan
  have pruned := answers.prune later
  obtain ⟨seen, same, _⟩ := prune_cases r now
  rw [eq]
  rw [same] at pruned ⊢
  exact { pruned with inbox := fun row member => pruned.inbox row (sub row member) }

theorem Answers.upgrade (answers : Answers sender sent t r) {kinds : List (String × Bool)}
    (unused : ∀ e ∈ r.log, e.2 = .unsupported → ∀ k ∈ kinds, k.1 ≠ e.1.kind) :
    Answers sender sent t { r with kinds := r.kinds ++ kinds } := by
  refine { answers with known := ?_ }
  intro e member own
  obtain ⟨applied, unsupported⟩ := answers.known e member own
  refine ⟨fun h => ?_, fun h => ?_⟩
  · rw [Receiver.known, List.any_append, Bool.or_eq_true]
    exact .inl (applied h)
  · have none : kinds.any (·.1 = e.1.kind) = false := by
      rw [List.any_eq_false]
      intro k inside
      simpa using unused e member h k inside
    rw [Receiver.known, List.any_append, Bool.or_eq_false_iff]
    exact ⟨unsupported h, none⟩

end Agentnet.Mail
