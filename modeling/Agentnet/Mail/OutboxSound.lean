import Agentnet.Mail.OutboxMoves

/-! The invariant of the outbox: the content of a row is there exactly while the row
is open, and every frame carries the mail that was submitted. -/

namespace Agentnet.Mail

open Agentnet.Lib

/-! ## The invariant -/

/-- A frame that carries the mail `s` to its recipient. -/
structure FrameOf (s : Signed) (f : Frame) : Prop where
  toKey : f.toKey = s.msg.toKey
  id : f.id = s.msg.id
  plain : f.plain = s

/-- The row of a submitted mail: its content is there exactly while it is open. -/
structure RowOf (s : Signed) (r : OutboxRow) : Prop where
  toKey : r.toKey = s.msg.toKey
  final : r.state.final = true → r.signed = none ∧ r.frame = none
  live : r.isOpen = true → r.signed = some s ∧ ∃ f, r.frame = some f ∧ FrameOf s f

variable {r : OutboxRow} {s : Signed} {id : MailID} {o o' : Outbox} {state : OutboxState}

/-- A row still belongs to its mail when it moves. -/
theorem RowOf.moves {r' : OutboxRow} (rowOf : RowOf s r) (moves : r.Moves r') : RowOf s r' := by
  cases moves with
  | same => exact rowOf
  | closed r' live final blank toKey =>
    refine ⟨toKey.trans rowOf.toKey, fun _ => blank, ?_⟩
    intro still
    rw [OutboxRow.isOpen, final] at still
    cases still
  | touched r' live still content toKey =>
    refine ⟨toKey.trans rowOf.toKey, ?_, ?_⟩
    · intro final
      rw [OutboxRow.isOpen, final] at still
      cases still
    · intro _
      rw [content.1, content.2]
      exact rowOf.live live

/-- Row `id` is closed or gone for good. -/
def Outbox.Settled (o : Outbox) (id : MailID) : Prop := ∀ r, o.row id = some r → r.state.final = true

theorem Kept.settled (kept : Kept (o.row id) (o'.row id)) (settled : o.Settled id) : o'.Settled id := by
  intro r' found
  obtain ⟨r, before, moves⟩ := kept r' found
  have final := settled r before
  cases moves with
  | same => exact final
  | closed r' live _ _ _ => rw [OutboxRow.isOpen, final] at live; cases live
  | touched r' live _ _ _ => rw [OutboxRow.isOpen, final] at live; cases live

structure Outbox.Sound (o : Outbox) : Prop where
  unique : (o.submitted.map (·.msg.id)).Nodup
  own : ∀ s ∈ o.submitted, s.msg.fromKey = o.self
  rows : ∀ id r, o.row id = some r → ∃ s ∈ o.submitted, s.msg.id = id ∧ RowOf s r
  finals : (o.finals.map (·.id)).Nodup
  finished : ∀ f ∈ o.finals, o.Settled f.id ∧ f.id ∈ o.submitted.map (·.msg.id)
  due : ∀ d ∈ o.due, ∀ f, d.frame = some f → ∃ s ∈ o.submitted, s.msg.id = d.id ∧ FrameOf s f
  frames : ∀ x ∈ o.frames, ∃ s ∈ o.submitted, s.msg.id = x.1 ∧ FrameOf s x.2
  retrying : ∀ t, o.retrying = some t → t.signed ∈ o.submitted ∧ t.signed.msg.id = t.id ∧
    ∀ x ∈ o.reseals, x.1 = t.id → x.2 + resealInterval ≤ o.mono
  covered : ∀ x ∈ o.reseals, x.1 ∈ o.submitted.map (·.msg.id) ∧
    (x.2 + resealInterval ≤ o.mono ∨ (∃ t, o.resealed.get x.1 = some t ∧ x.2 ≤ t) ∨ o.Settled x.1)
  past : ∀ id t, o.resealed.get id = some t → t ≤ o.mono
  spaced : o.reseals.Pairwise fun a b => a.1 = b.1 → a.2 + resealInterval ≤ b.2

/-- The invariant of an empty outbox. -/
theorem Outbox.Sound.start (self : PeerKey) : (Outbox.start self).Sound where
  unique := List.nodup_nil
  own := fun _ member => (by cases member)
  rows := fun _ _ found => (by cases found)
  finals := List.nodup_nil
  finished := fun _ member => (by cases member)
  due := fun _ member => (by cases member)
  frames := fun _ member => (by cases member)
  retrying := fun _ found => (by cases found)
  covered := fun _ member => (by cases member)
  past := fun _ _ found => (by cases found)
  spaced := List.Pairwise.nil

theorem Outbox.Sound.moved (sound : o.Sound) (same : SameBut o o') (rows : ∀ id, Kept (o.row id) (o'.row id))
    (resealed : ∀ id, o'.resealed.get id = o.resealed.get id ∨ o'.resealed.get id = none ∧ o'.Settled id)
    (finals : (o'.finals.map (·.id)).Nodup)
    (finished : ∀ f ∈ o'.finals, f ∈ o.finals ∨ o'.Settled f.id ∧ f.id ∈ o.submitted.map (·.msg.id)) : o'.Sound := by
  constructor
  · rw [same.submitted]
    exact sound.unique
  · rw [same.submitted, same.self]
    exact sound.own
  · rw [same.submitted]
    intro id r' found
    obtain ⟨r, before, moves⟩ := rows id r' found
    obtain ⟨s, member, named, rowOf⟩ := sound.rows id r before
    exact ⟨s, member, named, rowOf.moves moves⟩
  · exact finals
  · rw [same.submitted]
    intro f member
    rcases finished f member with old | new
    · obtain ⟨settled, drawn⟩ := sound.finished f old
      exact ⟨(rows f.id).settled settled, drawn⟩
    · exact new
  · rw [same.due, same.submitted]
    exact sound.due
  · rw [same.frames, same.submitted]
    exact sound.frames
  · rw [same.retrying, same.submitted, same.reseals, same.mono]
    exact sound.retrying
  · rw [same.reseals, same.submitted, same.mono]
    intro x member
    obtain ⟨drawn, cover⟩ := sound.covered x member
    refine ⟨drawn, ?_⟩
    rcases cover with passed | ⟨t, entry, below⟩ | settled
    · exact .inl passed
    · rcases resealed x.1 with kept | ⟨_, settled⟩
      · exact .inr (.inl ⟨t, kept.trans entry, below⟩)
      · exact .inr (.inr settled)
    · exact .inr (.inr ((rows x.1).settled settled))
  · rw [same.mono]
    intro id t entry
    rcases resealed id with kept | ⟨none, _⟩
    · exact sound.past id t (kept ▸ entry)
    · rw [none] at entry
      cases entry
  · rw [same.reseals]
    exact sound.spaced

theorem Outbox.Sound.modify (sound : o.Sound) (id : MailID) {p : OutboxRow → Bool}
    {f : OutboxRow → OutboxRow} (moves : ∀ r, p r = true → r.Moves (f r)) : (o.modify id p f).Sound := by
  obtain ⟨same, finals, resealed⟩ := modify_same o id p f
  refine sound.moved same (modify_kept moves) ?_ ?_ ?_
  · intro j
    rw [resealed]
    exact .inl rfl
  · rw [finals]
    exact sound.finals
  · rw [finals]
    exact fun _ member => .inl member

theorem Outbox.Sound.modifyAll (sound : o.Sound) {f : OutboxRow → Option OutboxRow}
    (moves : ∀ r r', f r = some r' → r.Moves r') : (o.modifyAll f).Sound :=
  sound.moved ⟨rfl, rfl, rfl, rfl, rfl, rfl,
    rfl⟩ (modifyAll_kept moves) (fun _ => .inl rfl) sound.finals fun _ member => .inl member

theorem Outbox.Sound.finish (sound : o.Sound) (id : MailID) (recipient : Option PeerKey)
    (final : state.final = true) (errText : String) (now : Time) :
    (o.finish id recipient state errText now).Sound := by
  have kept := finish_kept o id recipient final errText now
  rcases finish_cases o id recipient state errText now with same | ⟨r, found, live, allowed, eq⟩
  · rw [same]
    exact sound
  · have settled : (o.finish id recipient state errText now).Settled id := by
      intro r' now'
      have here : (o.finish id recipient state errText now).row id = some (r.close now state errText) := by
        rw [eq]
        exact Table.get_set_self _ _ _
      rw [here] at now'
      cases now'
      exact final
    have fresh : id ∉ o.finals.map (·.id) := by
      intro member
      obtain ⟨f, inside, rfl⟩ := List.mem_map.mp member
      have closed := (sound.finished f inside).1 r found
      rw [OutboxRow.isOpen, closed] at live
      cases live
    obtain ⟨s, submitted, named, _⟩ := sound.rows id r found
    refine sound.moved ?_ kept ?_ ?_ ?_
    · rw [eq]
      exact ⟨rfl, rfl, rfl, rfl, rfl, rfl, rfl⟩
    · intro j
      by_cases hit : id = j
      · subst hit
        refine .inr ⟨?_, settled⟩
        rw [eq]
        exact Table.get_set_self _ _ _
      · left
        rw [eq]
        exact Table.get_set_of_ne _ _ hit
    · rw [eq]
      simp only [List.map_append, List.map_singleton]
      refine List.nodup_append.mpr ⟨sound.finals, List.nodup_singleton _, ?_⟩
      intro a member b single same
      rw [List.mem_singleton.mp single] at same
      exact fresh (same ▸ member)
    · intro f member
      rw [eq] at member
      rcases List.mem_append.mp member with old | single
      · exact .inl old
      · rw [List.mem_singleton.mp single]
        exact .inr ⟨settled, List.mem_map.mpr ⟨s, submitted, named⟩⟩

theorem Outbox.Sound.finishAll (sound : o.Sound) (ids : List MailID) (recipient : Option PeerKey)
    (final : state.final = true) (errText : String) (now : Time) :
    (o.finishAll ids recipient state errText now).Sound := by
  induction ids generalizing o with
  | nil => exact sound
  | cons id rest ih => exact ih (sound.finish id recipient final errText now)

/-! ## The events -/

theorem Outbox.Sound.tick (sound : o.Sound) (elapsed : Nat) : Outbox.Sound { o with mono := o.mono + elapsed } := by
  have later : o.mono ≤ o.mono + elapsed := by
    unfold Time at *
    omega
  constructor
  · exact sound.unique
  · exact sound.own
  · exact sound.rows
  · exact sound.finals
  · exact sound.finished
  · exact sound.due
  · exact sound.frames
  · intro t found
    obtain ⟨member, named, passed⟩ := sound.retrying t found
    exact ⟨member, named, fun x inside same => le_trans (passed x inside same) later⟩
  · intro x member
    obtain ⟨drawn, cover⟩ := sound.covered x member
    exact ⟨drawn, cover.imp (fun passed => le_trans passed later) id⟩
  · intro id t entry
    exact le_trans (sound.past id t entry) later
  · exact sound.spaced

theorem Outbox.Sound.scan (sound : o.Sound) (now : Time) : (o.scan now).Sound := by
  refine { sound with due := ?_ }
  intro d member f frame
  obtain ⟨x, inside, rfl⟩ := List.mem_map.mp member
  have listed := (List.mem_insertionSort _).mp (List.mem_of_mem_take inside)
  obtain ⟨⟨id, row⟩, held, picked⟩ := List.mem_filterMap.mp listed
  obtain ⟨r, found, test⟩ := Option.bind_eq_some_iff.mp picked
  have row_eq : o.row id = some r := (o.rows.get_of_mem held).trans found
  split at test
  · rename_i ready
    cases test
    obtain ⟨s, submitted, named, rowOf⟩ := sound.rows id r row_eq
    simp only [Bool.and_eq_true] at ready
    obtain ⟨_, f', same, frameOf⟩ := rowOf.live ready.1
    have frames : f' = f := Option.some.inj (same.symm.trans frame)
    exact ⟨s, submitted, named, frames ▸ frameOf⟩
  · cases test

theorem Outbox.Sound.send (sound : o.Sound) (toKey : PeerKey) {frame : Option Frame}
    (frameOf : ∀ f, frame = some f → ∃ s ∈ o.submitted, s.msg.id = id ∧ FrameOf s f) (relay : Relay)
    (now : Time) : (o.send id toKey frame relay now).Sound := by
  cases frame with
  | none => exact sound.finish id none rfl "bad_frame" now
  | some f =>
    refine { sound with frames := ?_ }
    simp only [Outbox.send]
    split
    · exact sound.frames
    · intro x member
      rcases List.mem_append.mp member with old | single
      · exact sound.frames x old
      · rw [List.mem_singleton.mp single]
        exact frameOf f rfl

theorem Outbox.Sound.sendNext (sound : o.Sound) (paired : Bool) (relay : Relay) (now : Time) :
    (o.sendNext paired relay now).Sound := by
  unfold Outbox.sendNext
  split
  · exact sound
  · rename_i d rest due
    have popped : Outbox.Sound { o with due := rest } := by
      refine { sound with due := ?_ }
      intro x member
      exact sound.due x (due ▸ List.mem_cons_of_mem _ member)
    simp only
    split
    · exact popped.send d.toKey (sound.due d (due ▸ List.mem_cons_self)) relay now
    · exact popped.finish d.id none rfl "unpaired" now

theorem Outbox.Sound.handedOff (sound : o.Sound) (i : Nat) (delay : Int) (now : Time) :
    (o.handedOff i delay now).Sound := by
  unfold Outbox.handedOff
  split
  · exact sound
  · rename_i h _
    have popped : Outbox.Sound { o with handOffs := o.handOffs.eraseIdx i } := { sound with }
    have updated := popped.modify h.id (attempted_moves h.accepted delay now)
    simp only
    split
    · exact updated.modify h.id (hurry_moves now)
    · exact updated

theorem Outbox.Sound.onAck (sound : o.Sound) (a : Ack) (now : Time) : (o.onAck a now).Sound :=
  ((sound.finishAll a.ids _ rfl "" now).finishAll a.unsupported _ rfl _ now).finishAll a.rejected _ rfl _ now

theorem Outbox.Sound.handleError (sound : o.Sound) (ref : MailID) (code : ErrorCode) (now : Time) :
    (o.handleError ref code now).Sound := by
  unfold Outbox.handleError
  split
  · exact sound
  · cases code with
    | badEnvelope => exact sound.finish ref none rfl _ now
    | badSender => exact sound.finish ref none rfl _ now
    | queueFull => exact sound.modify ref (requeue_moves now)
    | internal => exact sound.modify ref (requeue_moves now)
    | peerOffline => exact sound.modify ref (requeue_moves now)
    | peerBusy => exact sound.modify ref (requeue_moves now)
    | rateLimited => exact sound.modify ref (requeue_moves now)
    | relayFull => exact sound.modify ref (requeue_moves now)
    | other => exact sound

theorem Outbox.Sound.maintain (sound : o.Sound) (now : Time) : (o.maintain now).Sound :=
  (sound.finishAll _ none rfl "" now).modifyAll purge_moves

theorem Outbox.Sound.removePeer (sound : o.Sound) (peer : PeerKey) (now : Time) : (o.removePeer peer now).Sound :=
  sound.modifyAll (closeIf_moves (fun _ chosen => chosen.2) now _)

theorem Outbox.Sound.submit (sound : o.Sound) (s : Submission) : (o.submit s).Sound := by
  unfold Outbox.submit
  split
  · exact sound
  · rename_i keyID _
    split
    · exact sound
    · rename_i allowed
      simp only [Bool.or_eq_true, decide_eq_true_eq, List.any_eq_true, not_or, not_exists, not_and] at allowed
      have fresh : s.id ∉ o.submitted.map (·.msg.id) := by
        intro member
        obtain ⟨x, inside, same⟩ := List.mem_map.mp member
        exact allowed.2 x inside same
      -- every other row is as it was
      have other : ∀ {id : MailID} {r : Option OutboxRow}, id ∈ o.submitted.map (·.msg.id) →
          (o.rows.set s.id r).get id = o.row id := by
        intro id r drawn
        exact Table.get_set_of_ne _ _ fun same => fresh (same ▸ drawn)
      have grown : ∀ {p : Signed → Prop} {new : Signed}, (∃ x ∈ o.submitted, p x) →
          ∃ x ∈ o.submitted ++ [new], p x := by
        rintro p new ⟨x, inside, holds⟩
        exact ⟨x, List.mem_append_left _ inside, holds⟩
      constructor
      · simp only [List.map_append, List.map_singleton]
        refine List.nodup_append.mpr ⟨sound.unique, List.nodup_singleton _, ?_⟩
        intro a member b single same
        rw [List.mem_singleton.mp single] at same
        exact fresh (same ▸ member)
      · intro x member
        rcases List.mem_append.mp member with old | single
        · exact sound.own x old
        · rw [List.mem_singleton.mp single]
      · intro id r found
        by_cases hit : s.id = id
        · subst hit
          cases (Table.get_set_self _ _ _).symm.trans found
          refine ⟨_, List.mem_append_right _ (List.mem_singleton_self _), rfl, rfl, ?_, ?_⟩
          · exact fun final => (by cases final)
          · exact fun _ => ⟨rfl, _, rfl, ⟨rfl, rfl, rfl⟩⟩
        · exact grown (sound.rows id r ((Table.get_set_of_ne _ _ hit).symm.trans found))
      · exact sound.finals
      · intro f member
        obtain ⟨settled, drawn⟩ := sound.finished f member
        refine ⟨?_, ?_⟩
        · intro r found
          exact settled r ((other drawn).symm.trans found)
        · rw [List.map_append]
          exact List.mem_append_left _ drawn
      · intro d member f frame
        exact grown (sound.due d member f frame)
      · intro x member
        exact grown (sound.frames x member)
      · intro t found
        obtain ⟨member, named, passed⟩ := sound.retrying t found
        exact ⟨List.mem_append_left _ member, named, passed⟩
      · intro x member
        obtain ⟨drawn, cover⟩ := sound.covered x member
        refine ⟨?_, cover.imp id (Or.imp id ?_)⟩
        · rw [List.map_append]
          exact List.mem_append_left _ drawn
        · intro settled r found
          exact settled r ((other drawn).symm.trans found)
      · exact sound.past
      · exact sound.spaced

theorem Outbox.Sound.resealDue (sound : o.Sound) (due : o.resealDue id = some o') : o'.Sound ∧ o'.rows = o.rows ∧
      ∀ x ∈ o'.reseals, x.1 = id → x.2 + resealInterval ≤ o'.mono ∨ o'.Settled id := by
  unfold Outbox.resealDue at due
  split at due
  · rename_i none
    cases due
    refine ⟨sound, rfl, ?_⟩
    intro x member same
    rcases (sound.covered x member).2 with passed | ⟨t, entry, _⟩ | settled
    · exact .inl passed
    · rw [same, none] at entry
      cases entry
    · exact .inr (same ▸ settled)
  · rename_i t entry
    split at due
    · cases due
    · rename_i long
      cases due
      have passed : ∀ x ∈ o.reseals, x.1 = id → x.2 + resealInterval ≤ o.mono ∨ o.Settled id := by
        intro x member same
        rcases (sound.covered x member).2 with passed | ⟨t', entry', below⟩ | settled
        · exact .inl passed
        · rw [same, entry] at entry'
          cases entry'
          left
          unfold Time at *
          omega
        · exact .inr (same ▸ settled)
      refine ⟨?_, rfl, passed⟩
      refine { sound with covered := ?_, past := ?_ }
      · intro x member
        obtain ⟨drawn, cover⟩ := sound.covered x member
        refine ⟨drawn, ?_⟩
        by_cases hit : id = x.1
        · rcases passed x member hit.symm with past | settled
          · exact .inl past
          · exact .inr (.inr (hit ▸ settled))
        · rcases cover with past | ⟨t', entry', below⟩ | settled
          · exact .inl past
          · exact .inr (.inl ⟨t', (Table.get_set_of_ne _ _ hit).trans entry', below⟩)
          · exact .inr (.inr settled)
      · intro j t' entry'
        by_cases hit : id = j
        · subst hit
          cases (Table.get_set_self _ _ _).symm.trans entry'
        · exact sound.past j t' ((Table.get_set_of_ne _ _ hit).symm.trans entry')

theorem Outbox.Sound.retrySelect (sound : o.Sound) (peer : PeerKey) (id : MailID)
    (newKey : String) : (o.retrySelect peer id newKey).Sound := by
  unfold Outbox.retrySelect
  split
  · exact sound
  · split
    · exact sound
    · rename_i o' due
      obtain ⟨sound, _, passed⟩ := sound.resealDue due
      split
      · exact sound
      · rename_i r found
        split
        · exact sound
        · rename_i signed content
          split
          · rename_i chosen
            simp only [Bool.and_eq_true, decide_eq_true_eq] at chosen
            refine { sound with retrying := ?_ }
            intro t selected
            cases selected
            obtain ⟨s, member, named, rowOf⟩ := sound.rows id r found
            have same : signed = s := Option.some.inj (content.symm.trans (rowOf.live chosen.1.2).1)
            refine ⟨same ▸ member, same ▸ named, ?_⟩
            intro x inside hit
            rcases passed x inside hit with passed | settled
            · exact passed
            · have live := chosen.1.2
              rw [OutboxRow.isOpen, settled r found] at live
              cases live
          · exact sound

theorem Outbox.Sound.markResealed (sound : o.Sound) (drawn : id ∈ o.submitted.map (·.msg.id))
    (idle : o.retrying = none) (passed : ∀ x ∈ o.reseals, x.1 = id → x.2 + resealInterval ≤ o.mono) :
    (o.markResealed id).Sound := by
  have entries : ∀ j, (o.markResealed id).resealed.get j = if id = j then some o.mono
      else (o.resealed.get j).filter fun t => o.mono - t < resealInterval := by
    intro j
    refine (Table.get_set _ _ _ _).trans ?_
    split
    · rfl
    · exact Table.get_mapRows _ _ _ rfl
  constructor
  · exact sound.unique
  · exact sound.own
  · exact sound.rows
  · exact sound.finals
  · exact sound.finished
  · exact sound.due
  · exact sound.frames
  · intro t selected
    rw [show (o.markResealed id).retrying = none from idle] at selected
    cases selected
  · intro x member
    rcases List.mem_append.mp member with old | single
    · obtain ⟨drawn, cover⟩ := sound.covered x old
      refine ⟨drawn, ?_⟩
      rcases cover with past | ⟨t, entry, below⟩ | settled
      · exact .inl past
      · by_cases hit : id = x.1
        · exact .inl (passed x old hit.symm)
        · by_cases recent : o.mono - t < resealInterval
          · refine .inr (.inl ⟨t, ?_, below⟩)
            rw [entries, if_neg hit, entry]
            simp [recent]
          · left
            change x.2 + resealInterval ≤ o.mono
            unfold Time at *
            omega
      · exact .inr (.inr settled)
    · rw [List.mem_singleton.mp single]
      refine ⟨drawn, .inr (.inl ⟨o.mono, ?_, le_refl _⟩)⟩
      rw [entries, if_pos rfl]
  · intro j t entry
    rw [entries] at entry
    split at entry
    · cases entry
      exact le_refl _
    · exact sound.past j t (Option.eq_some_of_filter_eq_some entry)
  · refine List.pairwise_append.mpr ⟨sound.spaced, List.pairwise_singleton _ _, ?_⟩
    intro a member b single same
    rw [List.mem_singleton.mp single] at same ⊢
    exact passed a member same

theorem Outbox.Sound.storeFrame (sound : o.Sound) (member : s ∈ o.submitted)
    {f : Frame} (frameOf : FrameOf s f) (found : o.row s.msg.id = some r) (live : r.isOpen = true)
    (newKey : String) (now : Time) :
    (o.modify s.msg.id (fun _ => true) (OutboxRow.reseal f newKey now)).Sound := by
  obtain ⟨same, finals, resealed⟩ := modify_same o s.msg.id (fun _ => true) (OutboxRow.reseal f newKey now)
  have rows : ∀ j, (o.modify s.msg.id (fun _ => true) (OutboxRow.reseal f newKey now)).row j =
      if j = s.msg.id then some (r.reseal f newKey now) else o.row j := by
    intro j
    rw [modify_row, found]
    rfl
  have settled : ∀ {j}, o.Settled j →
      (o.modify s.msg.id (fun _ => true) (OutboxRow.reseal f newKey now)).Settled j := by
    intro j settled r' found'
    rw [rows] at found'
    split at found'
    · rename_i hit
      have closed := settled r (hit ▸ found)
      rw [OutboxRow.isOpen, closed] at live
      cases live
    · exact settled r' found'
  constructor
  · rw [same.submitted]
    exact sound.unique
  · rw [same.submitted, same.self]
    exact sound.own
  · rw [same.submitted]
    intro j r' found'
    rw [rows] at found'
    split at found'
    · rename_i hit
      cases found'
      obtain ⟨s', member', named, rowOf⟩ := sound.rows _ r found
      have eq : s' = s := List.inj_on_of_nodup_map sound.unique member' member named
      subst eq
      refine ⟨s', member, hit.symm, rowOf.toKey, ?_, ?_⟩
      · intro final
        have final : r.state.final = true := final
        rw [OutboxRow.isOpen, final] at live
        cases live
      · exact fun _ => ⟨(rowOf.live live).1, f, rfl, frameOf⟩
    · exact sound.rows j r' found'
  · rw [finals]
    exact sound.finals
  · rw [finals, same.submitted]
    intro x inside
    exact ⟨settled (sound.finished x inside).1, (sound.finished x inside).2⟩
  · rw [same.due, same.submitted]
    exact sound.due
  · rw [same.frames, same.submitted]
    exact sound.frames
  · rw [same.retrying, same.submitted, same.reseals, same.mono]
    exact sound.retrying
  · rw [same.reseals, same.submitted, same.mono, resealed]
    intro x inside
    obtain ⟨drawn, cover⟩ := sound.covered x inside
    exact ⟨drawn, cover.imp id (Or.imp id settled)⟩
  · rw [same.mono, resealed]
    exact sound.past
  · rw [same.reseals]
    exact sound.spaced

theorem Outbox.Sound.retryUpdate (sound : o.Sound) (builds : Bool) (relay : Relay)
    (now : Time) : (o.retryUpdate builds relay now).Sound := by
  unfold Outbox.retryUpdate
  split
  · exact sound
  · rename_i t selected
    obtain ⟨member, named, passed⟩ := sound.retrying t selected
    have idle : Outbox.Sound { o with retrying := none } := { sound with retrying := fun _ found => (by cases found) }
    simp only
    split
    · exact idle
    · rename_i allowed
      simp only [not_or, not_not] at allowed
      split
      · exact idle
      · rename_i r found
        split
        · rename_i chosen
          simp only [Bool.and_eq_true, decide_eq_true_eq] at chosen
          have frameOf : FrameOf t.signed
              ⟨o.self, t.peer, t.signed.msg.id, wireTime now, t.newKey, t.signed⟩ :=
            ⟨allowed.2.1.symm, rfl, rfl⟩
          rw [← named] at found passed ⊢
          have stored := idle.storeFrame member frameOf found chosen.2 t.newKey now
          obtain ⟨same, _, _⟩ := modify_same { o with retrying := none } t.signed.msg.id (fun _ => true)
            (OutboxRow.reseal ⟨o.self, t.peer, t.signed.msg.id, wireTime now, t.newKey, t.signed⟩ t.newKey now)
          have marked := stored.markResealed (by rw [same.submitted]; exact List.mem_map_of_mem member)
            same.retrying (by rw [same.reseals, same.mono]; exact passed)
          apply marked.send
          intro f frame
          cases frame
          refine ⟨t.signed, ?_, rfl, frameOf⟩
          rw [show (Outbox.markResealed _ _).submitted = _ from same.submitted]
          exact member
        · exact idle

/-- The invariant of the outbox, over every event. -/
theorem Outbox.Sound.step (sound : o.Sound) (e : OutboxEvent) : (o.step e).Sound := by
  cases e with
  | tick elapsed => exact sound.tick elapsed
  | submit s => exact sound.submit s
  | scan now => exact sound.scan now
  | sendNext paired relay now => exact sound.sendNext paired relay now
  | handedOff i delay now => exact sound.handedOff i delay now
  | onAck a now => exact sound.onAck a now
  | handleError ref code now => exact sound.handleError ref code now
  | retrySelect peer id newKey => exact sound.retrySelect peer id newKey
  | retryUpdate builds relay now => exact sound.retryUpdate builds relay now
  | maintain now => exact sound.maintain now
  | onReady now =>
    have counted : Outbox.Sound { o with ready := o.ready + 1 } := { sound with }
    exact counted.modifyAll (hurryIf_moves (fun _ queued => queued) now)
  | onPeerOnline peer now =>
    have counted : Outbox.Sound { o with online := o.online.set peer (o.online.get peer + 1) } := { sound with }
    exact counted.modifyAll (hurryIf_moves (fun _ queued => queued.1) now)
  | removePeer peer now => exact sound.removePeer peer now

/-- It holds after every run. -/
theorem Outbox.Sound.after (self : PeerKey) (es : List OutboxEvent) : ((Outbox.start self).after es).Sound :=
  run_invariant (motive := Outbox.Sound) (fun _ e sound => sound.step e) (Outbox.Sound.start self) es

end Agentnet.Mail
