import Agentnet.Mail.Outbox

/-! What the updates of the outbox do to its rows. -/

namespace Agentnet.Mail

open Agentnet.Lib

/-! ## One row -/

/-- What an event may do to an open row, a re-seal apart: close it or reschedule it. -/
inductive OutboxRow.Moves (r : OutboxRow) : OutboxRow → Prop where
  | same : Moves r r
  | closed (r' : OutboxRow) (live : r.isOpen = true) (final : r'.state.final = true)
      (blank : r'.signed = none ∧ r'.frame = none) (toKey : r'.toKey = r.toKey) : Moves r r'
  | touched (r' : OutboxRow) (live : r.isOpen = true) (still : r'.isOpen = true)
      (content : r'.signed = r.signed ∧ r'.frame = r.frame) (toKey : r'.toKey = r.toKey) : Moves r r'

/-- Moves of one row compose. -/
theorem OutboxRow.Moves.trans {a b c : OutboxRow} (first : a.Moves b) (second : b.Moves c) : a.Moves c := by
  cases first with
  | same => exact second
  | closed b live final blank toKey =>
    cases second with
    | same => exact .closed b live final blank toKey
    | closed c live' _ _ _ => rw [OutboxRow.isOpen, final] at live'; cases live'
    | touched c live' _ _ _ => rw [OutboxRow.isOpen, final] at live'; cases live'
  | touched b live still content toKey =>
    cases second with
    | same => exact .touched b live still content toKey
    | closed c _ final blank toKey' => exact .closed c live final blank (toKey'.trans toKey)
    | touched c _ still' content' toKey' =>
      exact .touched c live still' ⟨content'.1.trans content.1, content'.2.trans content.2⟩ (toKey'.trans toKey)

variable {state : OutboxState} {p : OutboxRow → Prop} {o : Outbox}

theorem OutboxRow.close_moves (r : OutboxRow) (live : r.isOpen = true) (now : Time)
    (final : state.final = true) (errText : String) : r.Moves (r.close now state errText) :=
  .closed _ live final ⟨rfl, rfl⟩ rfl

theorem attempted_moves (accepted : Bool) (delay : Int) (now : Time) (r : OutboxRow)
    (live : r.isOpen = true) : r.Moves (r.attempted accepted delay now) := by
  refine .touched _ live ?_ ⟨rfl, rfl⟩ rfl
  cases accepted with
  | true => rfl
  | false => exact live

theorem hurry_moves (now : Time) (r : OutboxRow) (queued : decide (r.state = .queued) = true) :
    r.Moves (r.hurry now) := by
  have live : r.isOpen = true := by
    rw [OutboxRow.isOpen, of_decide_eq_true queued]
    rfl
  exact .touched _ live live ⟨rfl, rfl⟩ rfl

theorem requeue_moves (now : Time) (r : OutboxRow) (relayed : decide (r.state = .relayed) = true) :
    r.Moves (r.requeue now) := by
  refine .touched _ ?_ rfl ⟨rfl, rfl⟩ rfl
  rw [OutboxRow.isOpen, of_decide_eq_true relayed]
  rfl

theorem hurryIf_moves [DecidablePred p] (queued : ∀ r, p r → r.state = .queued)
    (now : Time) (r r' : OutboxRow) (kept : (if p r then some (r.hurry now) else some r) = some r') : r.Moves r' := by
  split at kept
  · rename_i chosen
    cases kept
    exact hurry_moves now r (decide_eq_true (queued r chosen))
  · cases kept
    exact .same

theorem closeIf_moves [DecidablePred p] (live : ∀ r, p r → r.isOpen = true) (now : Time) (errText : String)
    (r r' : OutboxRow) (kept : (if p r then some (r.close now .failed errText) else some r) = some r') :
    r.Moves r' := by
  split at kept
  · rename_i chosen
    cases kept
    exact r.close_moves (live r chosen) now rfl errText
  · cases kept
    exact .same

theorem purge_moves [DecidablePred p] (r r' : OutboxRow) (kept : (if p r then none else some r) = some r') :
    r.Moves r' := by
  split at kept
  · cases kept
  · cases kept
    exact .same

/-- A row after the step was there before it and has moved. -/
def Kept (a b : Option OutboxRow) : Prop := ∀ r', b = some r' → ∃ r, a = some r ∧ r.Moves r'

theorem Kept.refl (a : Option OutboxRow) : Kept a a := fun r' h => ⟨r', h, .same⟩

/-- What is kept over two changes is kept. -/
theorem Kept.trans {a b c : Option OutboxRow} (first : Kept a b) (second : Kept b c) : Kept a c := by
  intro r'' h
  obtain ⟨r', h', moves'⟩ := second r'' h
  obtain ⟨r, h, moves⟩ := first r' h'
  exact ⟨r, h, moves.trans moves'⟩

/-! ## The updates -/

@[simp] theorem modify_row (o : Outbox) (id j : MailID) (p : OutboxRow → Bool) (f : OutboxRow → OutboxRow) :
    (o.modify id p f).row j = if j = id then (o.row id).map fun r => if p r then f r else r else o.row j := by
  unfold Outbox.modify
  by_cases same : j = id
  · subst same
    rw [if_pos rfl]
    cases found : o.row j with
    | none => simpa using found
    | some r =>
      simp only [Option.map_some]
      split
      · exact Table.get_set_self _ _ _
      · exact found
  · rw [if_neg same]
    split
    · rfl
    · split
      · exact Table.get_set_of_ne _ _ (Ne.symm same)
      · rfl

@[simp] theorem modifyAll_row (o : Outbox) (id : MailID) (f : OutboxRow → Option OutboxRow) :
    (o.modifyAll f).row id = (o.row id).bind f :=
  Table.get_mapRows _ _ _ rfl

theorem modify_kept {id : MailID} {p : OutboxRow → Bool} {f : OutboxRow → OutboxRow}
    (moves : ∀ r, p r = true → r.Moves (f r)) (j : MailID) : Kept (o.row j) ((o.modify id p f).row j) := by
  rw [modify_row]
  split
  · rename_i same
    intro r' h
    obtain ⟨r, found, eq⟩ := Option.map_eq_some_iff.mp h
    refine ⟨r, same ▸ found, ?_⟩
    rw [← eq]
    split
    · exact moves r ‹_›
    · exact .same
  · exact Kept.refl _

theorem modifyAll_kept {f : OutboxRow → Option OutboxRow}
    (moves : ∀ r r', f r = some r' → r.Moves r') (j : MailID) : Kept (o.row j) ((o.modifyAll f).row j) := by
  rw [modifyAll_row]
  intro r' h
  obtain ⟨r, found, eq⟩ := Option.bind_eq_some_iff.mp h
  exact ⟨r, found, moves r r' eq⟩

structure SameBut (o o' : Outbox) : Prop where
  self : o'.self = o.self
  submitted : o'.submitted = o.submitted
  due : o'.due = o.due
  retrying : o'.retrying = o.retrying
  frames : o'.frames = o.frames
  reseals : o'.reseals = o.reseals
  mono : o'.mono = o.mono

theorem SameBut.refl (o : Outbox) : SameBut o o := ⟨rfl, rfl, rfl, rfl, rfl, rfl, rfl⟩

theorem SameBut.trans {a b c : Outbox} (first : SameBut a b) (second : SameBut b c) : SameBut a c :=
  ⟨second.self.trans first.self, second.submitted.trans first.submitted, second.due.trans first.due,
    second.retrying.trans first.retrying, second.frames.trans first.frames,
    second.reseals.trans first.reseals, second.mono.trans first.mono⟩

theorem modify_same (o : Outbox) (id : MailID) (p : OutboxRow → Bool) (f : OutboxRow → OutboxRow) :
    SameBut o (o.modify id p f) ∧ (o.modify id p f).finals = o.finals ∧ (o.modify id p f).resealed = o.resealed := by
  unfold Outbox.modify
  split
  · exact ⟨SameBut.refl o, rfl, rfl⟩
  · split <;> exact ⟨⟨rfl, rfl, rfl, rfl, rfl, rfl, rfl⟩, rfl, rfl⟩

/-- `finish` leaves a row alone, or closes an open row of the given recipient. -/
theorem finish_cases (o : Outbox) (id : MailID) (recipient : Option PeerKey) (state : OutboxState)
    (errText : String) (now : Time) : o.finish id recipient state errText now = o ∨
      ∃ r, o.row id = some r ∧ r.isOpen = true ∧ (∀ p, recipient = some p → p = r.toKey) ∧
        o.finish id recipient state errText now = { o with
            rows := o.rows.set id (some (r.close now state errText))
            resealed := o.resealed.set id none
            finals := o.finals ++ [⟨id, r.toKey, r.kind, state, errText⟩] } := by
  unfold Outbox.finish
  split
  · exact .inl rfl
  · rename_i r found
    split
    · rename_i allowed
      simp only [Bool.and_eq_true, Option.all_eq_true, decide_eq_true_eq] at allowed
      exact .inr ⟨r, found, allowed.1, allowed.2, rfl⟩
    · exact .inl rfl

/-- What a list of `finish` calls does to one row. -/
theorem finishAll_row (o : Outbox) (ids : List MailID) (recipient : Option PeerKey) (state : OutboxState)
    (final : state.final = true) (errText : String) (now : Time) (j : MailID) :
    (o.finishAll ids recipient state errText now).row j = o.row j ∨
      j ∈ ids ∧ ∃ r, o.row j = some r ∧ r.isOpen = true ∧ (∀ p, recipient = some p → p = r.toKey) ∧
        (o.finishAll ids recipient state errText now).row j = some (r.close now state errText) := by
  induction ids generalizing o with
  | nil => exact .inl rfl
  | cons id rest ih =>
    have next := ih (o.finish id recipient state errText now)
    rcases finish_cases o id recipient state errText now with same | ⟨r, found, live, allowed, eq⟩
    · rw [Outbox.finishAll, List.foldl_cons, ← Outbox.finishAll]
      rw [same] at next ⊢
      exact next.imp (fun h => h) (fun ⟨inside, rest⟩ => ⟨List.mem_cons_of_mem _ inside, rest⟩)
    · have here : (o.finish id recipient state errText now).row j = if id = j then some (r.close now state errText)
          else o.row j := by
        rw [eq]
        exact Table.get_set _ _ _ _
      rw [Outbox.finishAll, List.foldl_cons, ← Outbox.finishAll]
      by_cases hit : id = j
      · subst hit
        rw [if_pos rfl] at here
        right
        refine ⟨List.mem_cons_self, r, found, live, allowed, ?_⟩
        rcases next with kept | ⟨_, r', again, live', _⟩
        · rw [kept, here]
        · rw [here] at again
          cases again
          rw [OutboxRow.isOpen, OutboxRow.close, final] at live'
          cases live'
      · rw [if_neg hit] at here
        rw [here] at next
        exact next.imp (fun h => h) (fun ⟨inside, rest⟩ => ⟨List.mem_cons_of_mem _ inside, rest⟩)

theorem finish_kept (o : Outbox) (id : MailID) (recipient : Option PeerKey)
    (final : state.final = true) (errText : String) (now : Time) (j : MailID) :
    Kept (o.row j) ((o.finish id recipient state errText now).row j) := by
  rcases finish_cases o id recipient state errText now with same | ⟨r, found, live, allowed, eq⟩
  · rw [same]
    exact Kept.refl _
  · have here : (o.finish id recipient state errText now).row j = if id = j then some (r.close now state errText)
        else o.row j := by
      rw [eq]
      exact Table.get_set _ _ _ _
    rw [here]
    split
    · rename_i hit
      intro r' closed
      cases closed
      exact ⟨r, hit ▸ found, r.close_moves live now final errText⟩
    · exact Kept.refl _

theorem finishAll_kept (o : Outbox) (ids : List MailID) (recipient : Option PeerKey)
    (final : state.final = true) (errText : String) (now : Time) (j : MailID) :
    Kept (o.row j) ((o.finishAll ids recipient state errText now).row j) := by
  induction ids generalizing o with
  | nil => exact Kept.refl _
  | cons id rest ih => exact (finish_kept o id recipient final errText now j).trans (ih _)

theorem send_kept (o : Outbox) (id : MailID) (toKey : PeerKey) (frame : Option Frame) (relay : Relay)
    (now : Time) (j : MailID) : Kept (o.row j) ((o.send id toKey frame relay now).row j) := by
  cases frame with
  | none => exact finish_kept o id none rfl "bad_frame" now j
  | some f => exact Kept.refl _

theorem onAck_kept (o : Outbox) (a : Ack) (now : Time) (j : MailID) : Kept (o.row j) ((o.onAck a now).row j) :=
  ((finishAll_kept o a.ids _ rfl "" now j).trans (finishAll_kept _ a.unsupported _ rfl _ now j)).trans
    (finishAll_kept _ a.rejected _ rfl _ now j)

theorem handedOff_kept (o : Outbox) (i : Nat) (delay : Int) (now : Time) (j : MailID) :
    Kept (o.row j) ((o.handedOff i delay now).row j) := by
  unfold Outbox.handedOff
  split
  · exact Kept.refl _
  · rename_i h _
    have updated : Kept (o.row j) ((Outbox.modify { o with handOffs := o.handOffs.eraseIdx i } h.id
        OutboxRow.isOpen (OutboxRow.attempted h.accepted delay now)).row j) :=
      modify_kept (attempted_moves h.accepted delay now) j
    simp only
    split
    · exact updated.trans (modify_kept (hurry_moves now) j)
    · exact updated

theorem handleError_kept (o : Outbox) (ref : MailID) (code : ErrorCode) (now : Time) (j : MailID) :
    Kept (o.row j) ((o.handleError ref code now).row j) := by
  unfold Outbox.handleError
  split
  · exact Kept.refl _
  · cases code with
    | badEnvelope => exact finish_kept o ref none rfl _ now j
    | badSender => exact finish_kept o ref none rfl _ now j
    | other => exact Kept.refl _
    | _ => exact modify_kept (requeue_moves now) j

theorem finish_same (o : Outbox) (id : MailID) (recipient : Option PeerKey) (state : OutboxState)
    (errText : String) (now : Time) : SameBut o (o.finish id recipient state errText now) := by
  rcases finish_cases o id recipient state errText now with same | ⟨r, _, _, _, eq⟩
  · rw [same]
    exact SameBut.refl o
  · rw [eq]
    exact ⟨rfl, rfl, rfl, rfl, rfl, rfl, rfl⟩

theorem finishAll_same (o : Outbox) (ids : List MailID) (recipient : Option PeerKey) (state : OutboxState)
    (errText : String) (now : Time) : SameBut o (o.finishAll ids recipient state errText now) := by
  induction ids generalizing o with
  | nil => exact SameBut.refl o
  | cons id rest ih => exact (finish_same o id recipient state errText now).trans (ih _)

theorem onAck_same (o : Outbox) (a : Ack) (now : Time) : SameBut o (o.onAck a now) :=
  ((finishAll_same o a.ids _ _ "" now).trans (finishAll_same _ a.unsupported _ _ _ now)).trans
    (finishAll_same _ a.rejected _ _ _ now)

end Agentnet.Mail
