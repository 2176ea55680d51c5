import Agentnet.Mail.OutboxSound

/-! The life cycle of outbox rows over every run: final states are absorbing and
content leaves the row with them, and no event sends another mail than the one
submitted. -/

namespace Agentnet.Mail

open Agentnet.Lib

/-! ## Final rows stay -/

/-- A row in a final state stays as it is, as long as it is there. -/
def Persists (a b : Option OutboxRow) : Prop := ∀ r', b = some r' → ∃ r, a = some r ∧ (r.state.final = true → r' = r)

theorem Persists.refl (a : Option OutboxRow) : Persists a a := fun r' h => ⟨r', h, fun _ => rfl⟩

theorem Kept.persists {a b : Option OutboxRow} (kept : Kept a b) : Persists a b := by
  intro r' found
  obtain ⟨r, before, moves⟩ := kept r' found
  refine ⟨r, before, ?_⟩
  intro final
  cases moves with
  | same => rfl
  | closed r' live _ _ _ => rw [OutboxRow.isOpen, final] at live; cases live
  | touched r' live _ _ _ => rw [OutboxRow.isOpen, final] at live; cases live

theorem retrySelect_rows (o : Outbox) (peer : PeerKey) (id : MailID) (newKey : String) :
    (o.retrySelect peer id newKey).rows = o.rows := by
  unfold Outbox.retrySelect
  split
  · rfl
  · split
    · rfl
    · rename_i o' due
      have same : o'.rows = o.rows := by
        unfold Outbox.resealDue at due
        split at due
        · cases due
          rfl
        · split at due
          · cases due
          · cases due
            rfl
      split
      · exact same
      · split
        · exact same
        · split <;> exact same

theorem retryUpdate_persists (o : Outbox) (builds : Bool) (relay : Relay) (now : Time) (j : MailID) :
    Persists (o.row j) ((o.retryUpdate builds relay now).row j) := by
  unfold Outbox.retryUpdate
  split
  · exact Persists.refl _
  · rename_i t _
    simp only
    split
    · exact Persists.refl _
    · split
      · exact Persists.refl _
      · rename_i r found
        split
        · rename_i chosen
          simp only [Bool.and_eq_true, decide_eq_true_eq] at chosen
          change Persists (o.row j) ((Outbox.modify { o with retrying := none } t.id (fun _ => true) _).row j)
          rw [modify_row, found]
          split
          · rename_i hit
            intro r' resealed
            refine ⟨r, hit ▸ found, ?_⟩
            intro final
            have live := chosen.2
            rw [OutboxRow.isOpen, final] at live
            cases live
          · exact Persists.refl _
        · exact Persists.refl _

theorem step_persists (o : Outbox) (e : OutboxEvent) {id : MailID}
    (drawn : id ∈ o.submitted.map (·.msg.id)) : Persists (o.row id) ((o.step e).row id) := by
  cases e with
  | tick elapsed => exact Persists.refl _
  | submit s =>
    change Persists (o.row id) ((o.submit s).row id)
    unfold Outbox.submit
    split
    · exact Persists.refl _
    · split
      · exact Persists.refl _
      · rename_i allowed
        simp only [Bool.or_eq_true, decide_eq_true_eq, List.any_eq_true, not_or, not_exists, not_and] at allowed
        obtain ⟨x, inside, named⟩ := List.mem_map.mp drawn
        have other : s.id ≠ id := fun same => allowed.2 x inside (named.trans same.symm)
        intro r' found
        exact ⟨r', (Table.get_set_of_ne _ _ other).symm.trans found, fun _ => rfl⟩
  | scan now => exact Persists.refl _
  | sendNext paired relay now =>
    change Persists (o.row id) ((o.sendNext paired relay now).row id)
    unfold Outbox.sendNext
    split
    · exact Persists.refl _
    · rename_i d rest _
      simp only
      split
      · exact (send_kept { o with due := rest } d.id d.toKey d.frame relay now id).persists
      · exact (finish_kept { o with due := rest } d.id none rfl "unpaired" now id).persists
  | handedOff i delay now => exact (handedOff_kept o i delay now id).persists
  | onAck a now => exact (onAck_kept o a now id).persists
  | handleError ref code now => exact (handleError_kept o ref code now id).persists
  | retrySelect peer j newKey =>
    intro r' found
    exact ⟨r', by rw [Outbox.row, ← retrySelect_rows o peer j newKey]; exact found, fun _ => rfl⟩
  | retryUpdate builds relay now => exact retryUpdate_persists o builds relay now id
  | maintain now => exact ((finishAll_kept o _ none rfl "" now id).trans (modifyAll_kept purge_moves id)).persists
  | onReady now =>
    exact (modifyAll_kept (o := { o with ready := o.ready + 1 })
      (hurryIf_moves (fun _ queued => queued) now) id).persists
  | onPeerOnline peer now =>
    exact (modifyAll_kept (o := { o with online := o.online.set peer (o.online.get peer + 1) })
      (hurryIf_moves (fun _ queued => queued.1) now) id).persists
  | removePeer peer now => exact (modifyAll_kept (closeIf_moves (fun _ chosen => chosen.2) now _) id).persists

theorem SameBut.grown {o o' : Outbox} (same : SameBut o o') : o'.self = o.self ∧ o.submitted <+: o'.submitted := by
  rw [same.submitted]
  exact ⟨same.self, List.prefix_rfl⟩

/-- What was submitted stays on record. -/
theorem step_grown (o : Outbox) (e : OutboxEvent) :
    (o.step e).self = o.self ∧ o.submitted <+: (o.step e).submitted := by
  have same : o.self = o.self ∧ o.submitted <+: o.submitted := ⟨rfl, List.prefix_rfl⟩
  cases e with
  | tick elapsed => exact same
  | submit s =>
    change (o.submit s).self = o.self ∧ o.submitted <+: (o.submit s).submitted
    unfold Outbox.submit
    split
    · exact same
    · split
      · exact same
      · exact ⟨rfl, List.prefix_append _ _⟩
  | scan now => exact same
  | sendNext paired relay now =>
    change (o.sendNext paired relay now).self = o.self ∧ o.submitted <+: (o.sendNext paired relay now).submitted
    unfold Outbox.sendNext
    split
    · exact same
    · rename_i d rest _
      simp only
      split
      · cases d.frame with
        | none => exact (finish_same { o with due := rest } d.id none _ _ now).grown
        | some f => exact same
      · exact (finish_same { o with due := rest } d.id none _ _ now).grown
  | handedOff i delay now =>
    change (o.handedOff i delay now).self = o.self ∧ o.submitted <+: (o.handedOff i delay now).submitted
    unfold Outbox.handedOff
    split
    · exact same
    · rename_i h _
      have attempted := (modify_same { o with handOffs := o.handOffs.eraseIdx i } h.id OutboxRow.isOpen
        (OutboxRow.attempted h.accepted delay now)).1
      simp only
      split
      · exact (attempted.trans (modify_same _ _ _ _).1).grown
      · exact attempted.grown
  | onAck a now => exact (onAck_same o a now).grown
  | handleError ref code now =>
    change (o.handleError ref code now).self = o.self ∧ o.submitted <+: (o.handleError ref code now).submitted
    unfold Outbox.handleError
    split
    · exact same
    · cases code with
      | badEnvelope => exact (finish_same o ref none _ _ now).grown
      | badSender => exact (finish_same o ref none _ _ now).grown
      | other => exact same
      | _ => exact (modify_same _ _ _ _).1.grown
  | retrySelect peer id newKey =>
    change (o.retrySelect peer id newKey).self = o.self ∧ o.submitted <+: (o.retrySelect peer id newKey).submitted
    unfold Outbox.retrySelect
    split
    · exact same
    · split
      · exact same
      · rename_i o' due
        have kept : o'.self = o.self ∧ o.submitted <+: o'.submitted := by
          unfold Outbox.resealDue at due
          split at due
          · cases due
            exact same
          · split at due
            · cases due
            · cases due
              exact same
        split
        · exact kept
        · split
          · exact kept
          · split <;> exact kept
  | retryUpdate builds relay now =>
    change (o.retryUpdate builds relay now).self = o.self ∧ o.submitted <+: (o.retryUpdate builds relay now).submitted
    unfold Outbox.retryUpdate
    split
    · exact same
    · rename_i t _
      simp only
      split
      · exact same
      · split
        · exact same
        · split
          · exact (modify_same { o with retrying := none } t.id _ _).1.grown
          · exact same
  | maintain now => exact (finishAll_same o _ none _ _ now).grown
  | onReady now => exact same
  | onPeerOnline peer now => exact same
  | removePeer peer now => exact same

theorem after_persists (o : Outbox) (es : List OutboxEvent) {id : MailID}
    (drawn : id ∈ o.submitted.map (·.msg.id)) : Persists (o.row id) ((o.after es).row id) := by
  induction es generalizing o with
  | nil => exact Persists.refl _
  | cons e es ih =>
    intro r' found
    have drawn' := ((step_grown o e).2.map (·.msg.id)).subset drawn
    obtain ⟨r₁, before, kept₁⟩ := ih (o.step e) drawn' r' found
    obtain ⟨r, first, kept⟩ := step_persists o e drawn r₁ before
    refine ⟨r, first, ?_⟩
    intro final
    have same := kept final
    rw [kept₁ (same ▸ final), same]

/-! ## Acks and relay errors -/

theorem onAck_row (o : Outbox) (a : Ack) (now : Time) (id : MailID) : (o.onAck a now).row id = o.row id ∨
      ∃ r, o.row id = some r ∧ r.isOpen = true ∧ a.fromKey = r.toKey ∧
        (id ∈ a.ids ∧ (o.onAck a now).row id = some (r.close now .delivered "") ∨
          id ∈ a.unsupported ∧ (o.onAck a now).row id = some (r.close now .failed errTextUnsupportedKind) ∨
          id ∈ a.rejected ∧ (o.onAck a now).row id = some (r.close now .failed errTextRejected)) := by
  have closed : ∀ {r : OutboxRow} {state : OutboxState} {text : String}, state.final = true →
      (r.close now state text).isOpen = true → False := by
    intro r state text final live
    rw [OutboxRow.isOpen, OutboxRow.close, final] at live
    cases live
  unfold Outbox.onAck
  rcases finishAll_row o a.ids a.fromKey .delivered rfl "" now id with h₁ | ⟨in₁, r₁, f₁, l₁, p₁, h₁⟩
  · rcases finishAll_row (o.finishAll a.ids a.fromKey .delivered "" now) a.unsupported a.fromKey .failed rfl
      errTextUnsupportedKind now id with h₂ | ⟨in₂, r₂, f₂, l₂, p₂, h₂⟩
    · rcases finishAll_row _ a.rejected a.fromKey .failed rfl errTextRejected now id with
        h₃ | ⟨in₃, r₃, f₃, l₃, p₃, h₃⟩
      · exact .inl (h₃.trans (h₂.trans h₁))
      · exact .inr ⟨r₃, h₁ ▸ h₂ ▸ f₃, l₃, p₃ _ rfl, .inr (.inr ⟨in₃, h₃⟩)⟩
    · refine .inr ⟨r₂, h₁ ▸ f₂, l₂, p₂ _ rfl, .inr (.inl ⟨in₂, ?_⟩)⟩
      rcases finishAll_row _ a.rejected a.fromKey .failed rfl errTextRejected now id with
        h₃ | ⟨_, r₃, f₃, l₃, _⟩
      · exact h₃.trans h₂
      · rw [h₂] at f₃
        cases f₃
        exact (closed rfl l₃).elim
  · refine .inr ⟨r₁, f₁, l₁, p₁ _ rfl, .inl ⟨in₁, ?_⟩⟩
    rcases finishAll_row (o.finishAll a.ids a.fromKey .delivered "" now) a.unsupported a.fromKey .failed rfl
      errTextUnsupportedKind now id with h₂ | ⟨_, r₂, f₂, l₂, _⟩
    · rcases finishAll_row _ a.rejected a.fromKey .failed rfl errTextRejected now id with
        h₃ | ⟨_, r₃, f₃, l₃, _⟩
      · exact h₃.trans (h₂.trans h₁)
      · rw [h₂, h₁] at f₃
        cases f₃
        exact (closed rfl l₃).elim
    · rw [h₁] at f₂
      cases f₂
      exact (closed rfl l₂).elim

theorem handleError_row (o : Outbox) (ref : MailID) (code : ErrorCode) (now : Time) {id : MailID}
    (other : id ≠ ref) : (o.handleError ref code now).row id = o.row id := by
  have finished : ∀ text, (o.finish ref none .failed text now).row id = o.row id := by
    intro text
    rcases finish_cases o ref none .failed text now with same | ⟨r, _, _, _, eq⟩
    · rw [same]
    · rw [eq]
      exact Table.get_set_of_ne _ _ (Ne.symm other)
  unfold Outbox.handleError
  split
  · rfl
  · cases code with
    | badEnvelope => exact finished _
    | badSender => exact finished _
    | other => rfl
    | _ => rw [modify_row, if_neg other]

/-- The life cycle of outbox rows, over every run. -/
theorem outbox_life_cycle (self : PeerKey) (es : List OutboxEvent) :
    -- final rows stay as they are until they are purged
    (∀ id r, ((Outbox.start self).after es).row id = some r → r.state.final = true →
      ∀ fs r', (((Outbox.start self).after es).after fs).row id = some r' → r' = r) ∧
    (∀ id r, ((Outbox.start self).after es).row id = some r →
      (r.state.final = true ↔ r.signed = none ∧ r.frame = none)) ∧
    (((Outbox.start self).after es).finals.map (·.id)).Nodup ∧
    -- acks and relay errors
    (∀ a now id, (((Outbox.start self).after es).onAck a now).row id ≠ ((Outbox.start self).after es).row id →
      ∃ r, ((Outbox.start self).after es).row id = some r ∧ r.toKey = a.fromKey ∧
      id ∈ a.ids ++ a.unsupported ++ a.rejected) ∧
    (∀ ref code now id, (((Outbox.start self).after es).handleError ref code now).row id ≠
      ((Outbox.start self).after es).row id → id = ref) ∧
    -- frames carry the mail that was signed under the row's id
    (((Outbox.start self).after es).submitted.map (·.msg.id)).Nodup ∧
    (∀ x ∈ ((Outbox.start self).after es).frames, ∃ s ∈ ((Outbox.start self).after es).submitted,
      s.msg.id = x.1 ∧ x.2.id = x.1 ∧ x.2.toKey = s.msg.toKey ∧ x.2.plain = s ∧
        ∀ r, ((Outbox.start self).after es).row x.1 = some r → x.2.toKey = r.toKey) ∧
    ((Outbox.start self).after es).reseals.Pairwise fun a b => a.1 = b.1 → a.2 + resealInterval ≤ b.2 := by
  have sound := Outbox.Sound.after self es
  generalize (Outbox.start self).after es = o at sound
  refine ⟨?_, ?_, sound.finals, ?_, ?_, sound.unique, ?_, sound.spaced⟩
  · intro id r found final fs r' later
    obtain ⟨s, member, named, _⟩ := sound.rows id r found
    obtain ⟨r₀, first, kept⟩ := after_persists o fs (List.mem_map.mpr ⟨s, member, named⟩) r' later
    cases found.symm.trans first
    exact kept final
  · intro id r found
    obtain ⟨s, _, _, rowOf⟩ := sound.rows id r found
    refine ⟨rowOf.final, ?_⟩
    rintro ⟨blank, _⟩
    by_contra live
    have content := (rowOf.live (by simpa [OutboxRow.isOpen] using live)).1
    rw [blank] at content
    cases content
  · intro a now id changed
    rcases onAck_row o a now id with same | ⟨r, found, _, peer, by_⟩
    · exact absurd same changed
    · refine ⟨r, found, peer.symm, ?_⟩
      simp only [List.mem_append]
      rcases by_ with ⟨listed, _⟩ | ⟨listed, _⟩ | ⟨listed, _⟩
      · exact .inl (.inl listed)
      · exact .inl (.inr listed)
      · exact .inr listed
  · intro ref code now id changed
    by_contra other
    exact changed (handleError_row o ref code now other)
  · intro x member
    obtain ⟨s, submitted, named, frameOf⟩ := sound.frames x member
    refine ⟨s, submitted, named, frameOf.id.trans named, frameOf.toKey, frameOf.plain, ?_⟩
    intro r found
    obtain ⟨s', submitted', named', rowOf⟩ := sound.rows x.1 r found
    have same : s' = s := List.inj_on_of_nodup_map sound.unique submitted' submitted (named'.trans named.symm)
    rw [frameOf.toKey, rowOf.toKey, same]

end Agentnet.Mail
