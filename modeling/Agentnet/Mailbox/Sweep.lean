import Agentnet.Mailbox.Keys
import Mathlib.Data.List.Perm.Basic

/-! What a sweep deletes, and how many keys it leaves live. -/

namespace Agentnet.Mailbox

/-! ## The scans -/

variable {cur r : Row} {rows all keep : List Row} {start : Option Row} {best : Option (Nat × Row)}
  {now : Time} {c : Call} {acc : Keys × List Row} {motive : Keys → Prop} {s : Keys}

theorem currentFrom_eq_some
    (h : rows.foldl (fun cur r => if r.supersedes cur then some r else cur) start = some cur) :
    (cur ∈ rows ∧ cur.retired = false ∨ start = some cur) ∧
    (∀ r ∈ rows, r.retired = false → r.created ≤ cur.created) ∧ ∀ b, start = some b → b.created ≤ cur.created := by
  induction rows generalizing start with
  | nil =>
    refine ⟨.inr h, fun _ member => (by cases member), ?_⟩
    rintro b rfl
    rw [Option.some.inj h]
  | cons r rest ih =>
    rw [List.foldl_cons] at h
    obtain ⟨source, newest, bound⟩ := ih h
    by_cases wins : r.supersedes start = true
    · rw [if_pos wins] at source bound
      simp only [Row.supersedes, Bool.and_eq_true, Bool.not_eq_true', Option.all_eq_true, decide_eq_true_eq] at wins
      refine ⟨?_, ?_, ?_⟩
      · rcases source with ⟨member, open_⟩ | same
        · exact .inl ⟨List.mem_cons_of_mem _ member, open_⟩
        · cases same
          exact .inl ⟨List.mem_cons_self, wins.1⟩
      · intro x member current
        rcases List.mem_cons.mp member with rfl | later
        · exact bound x rfl
        · exact newest x later current
      · intro b first
        exact le_trans (le_of_lt (wins.2 b first)) (bound r rfl)
    · rw [if_neg wins] at source bound
      refine ⟨?_, ?_, bound⟩
      · exact source.imp (fun s => ⟨List.mem_cons_of_mem _ s.1, s.2⟩) id
      · intro x member current
        rcases List.mem_cons.mp member with rfl | later
        · simp only [Row.supersedes, current, Bool.not_false, Bool.true_and, Option.all_eq_true,
            decide_eq_true_eq, not_forall, not_lt] at wins
          obtain ⟨b, first, older⟩ := wins
          exact le_trans older (bound b first)
        · exact newest x later current

theorem currentOf_eq_some (h : currentOf rows = some cur) :
    cur ∈ rows ∧ cur.retired = false ∧ ∀ r ∈ rows, r.retired = false → r.created ≤ cur.created := by
  obtain ⟨source, newest, _⟩ := currentFrom_eq_some h
  rcases source with ⟨member, current⟩ | none
  · exact ⟨member, current, newest⟩
  · cases none

theorem currentFrom_isSome (h : start.isSome = true ∨ ∃ r ∈ rows, r.retired = false) :
    (rows.foldl (fun cur r => if r.supersedes cur then some r else cur) start).isSome = true := by
  induction rows generalizing start with
  | nil =>
    rcases h with found | ⟨_, member, _⟩
    · exact found
    · cases member
  | cons r rest ih =>
    apply ih
    rcases h with found | ⟨x, member, current⟩
    · left
      beta_reduce
      split
      · rfl
      · exact found
    · rcases List.mem_cons.mp member with rfl | later
      · left
        cases start with
        | none => simp [Row.supersedes, current]
        | some b =>
          beta_reduce
          split <;> rfl
      · exact .inr ⟨x, later, current⟩

theorem currentOf_isSome (member : r ∈ rows) (current : r.retired = false) : (currentOf rows).isSome = true :=
  currentFrom_isSome (.inr ⟨r, member, current⟩)

/-- The key evicted for the cap is retired, and the oldest or from the future. -/
theorem capVictimFrom_eq_some {j i : Nat} {v : Row} (h : capVictimFrom now best j rows = some (i, v)) :
    ((∃ k, i = j + k ∧ rows[k]? = some v ∧ v.retired = true) ∨ best = some (i, v)) ∧ (now + maxSkew < v.created ∨
        (∀ r ∈ rows, r.retired = true → v.created ≤ r.created) ∧ ∀ b, best = some b → v.created ≤ b.2.created) := by
  induction rows generalizing best j with
  | nil =>
    refine ⟨.inr h, .inr ⟨fun _ member => (by cases member), ?_⟩⟩
    rintro b rfl
    rw [Option.some.inj h]
  | cons r rest ih =>
    -- a later hit is a hit of the whole list, one place further on
    have shift : ∀ {j k : Nat}, i = j + 1 + k ∧ rest[k]? = some v ∧ v.retired = true →
        ∃ k, i = j + k ∧ (r :: rest)[k]? = some v ∧ v.retired = true := fun {j k} hit =>
      ⟨k + 1, by omega, by simpa using hit.2.1, hit.2.2⟩
    rw [capVictimFrom] at h
    by_cases retired : r.retired = true
    · rw [if_neg (by simp [retired])] at h
      by_cases future : now + maxSkew < r.created
      · rw [if_pos future] at h
        cases h
        exact ⟨.inl ⟨0, rfl, rfl, retired⟩, .inl future⟩
      · rw [if_neg future] at h
        by_cases wins : (best.all fun b => decide (r.created < b.2.created)) = true
        · rw [if_pos wins] at h
          simp only [Option.all_eq_true, decide_eq_true_eq] at wins
          obtain ⟨source, least⟩ := ih h
          refine ⟨?_, least.imp id fun least => ⟨?_, ?_⟩⟩
          · rcases source with ⟨k, hit⟩ | same
            · exact .inl (shift hit)
            · cases same
              exact .inl ⟨0, rfl, rfl, retired⟩
          · intro x member past
            rcases List.mem_cons.mp member with rfl | later
            · exact least.2 _ rfl
            · exact least.1 x later past
          · intro b first
            exact le_trans (least.2 _ rfl) (le_of_lt (wins b first))
        · rw [if_neg wins] at h
          simp only [Option.all_eq_true, decide_eq_true_eq, not_forall, not_lt] at wins
          obtain ⟨source, least⟩ := ih h
          refine ⟨?_, least.imp id fun least => ⟨?_, least.2⟩⟩
          · exact source.imp (fun ⟨_, hit⟩ => shift hit) id
          · intro x member past
            rcases List.mem_cons.mp member with rfl | later
            · obtain ⟨b, first, older⟩ := wins
              exact le_trans (least.2 b first) older
            · exact least.1 x later past
    · rw [if_pos (by simp [retired])] at h
      obtain ⟨source, least⟩ := ih h
      refine ⟨source.imp (fun ⟨_, hit⟩ => shift hit) id, least.imp id fun least => ⟨?_, least.2⟩⟩
      intro x member past
      rcases List.mem_cons.mp member with rfl | later
      · exact absurd past retired
      · exact least.1 x later past

theorem capVictim_eq_some {i : Nat} {v : Row} (h : capVictim rows now = some (i, v)) :
    rows[i]? = some v ∧ v.retired = true ∧
      (now + maxSkew < v.created ∨ ∀ r ∈ rows, r.retired = true → v.created ≤ r.created) := by
  obtain ⟨source, least⟩ := capVictimFrom_eq_some h
  rcases source with ⟨k, index, hit, retired⟩ | none
  · rw [Nat.zero_add] at index
    exact ⟨index ▸ hit, retired, least.imp id And.left⟩
  · cases none

theorem capVictimFrom_isSome {j : Nat} (h : best.isSome = true ∨ ∃ r ∈ rows, r.retired = true) :
    (capVictimFrom now best j rows).isSome = true := by
  induction rows generalizing best j with
  | nil =>
    rcases h with found | ⟨_, member, _⟩
    · exact found
    · cases member
  | cons r rest ih =>
    rw [capVictimFrom]
    by_cases retired : r.retired = true
    · rw [if_neg (by simp [retired])]
      split
      · rfl
      · split
        · exact ih (.inl rfl)
        · rename_i loses
          apply ih
          left
          cases best with
          | none => exact absurd rfl loses
          | some b => rfl
    · rw [if_pos (by simp [retired])]
      apply ih
      refine h.imp id ?_
      rintro ⟨x, member, past⟩
      rcases List.mem_cons.mp member with rfl | later
      · exact absurd past retired
      · exact ⟨x, later, past⟩

theorem capVictim_isSome (member : r ∈ rows) (retired : r.retired = true) (now : Time) :
    (capVictim rows now).isSome = true :=
  capVictimFrom_isSome (.inr ⟨r, member, retired⟩)

/-! ## What is deleted -/

/-- `r` may be deleted by a sweep of `rows`. -/
inductive Deletable (c : Call) (rows : List Row) (r : Row) : Prop where
  | aged (member : r ∈ rows) (basis : Time) (seen : seenBasis c = some basis)
      (old : expired r rows basis = true)
  | capped (keep : List Row) (kept : keep.Sublist rows) (full : maxLive < keep.length) (i : Nat)
      (victim : capVictim keep c.now = some (i, r))

theorem Deletable.mem (h : Deletable c rows r) : r ∈ rows := by
  cases h with
  | aged member _ _ _ => exact member
  | capped keep kept _ i victim => exact kept.subset (List.mem_of_getElem? (capVictim_eq_some victim).1)

theorem expireLoop_invariant
    (delete : ∀ t r d, motive t → Deletable c all r → motive (deleteKey t r.keyID c.now d).1)
    (among : ∀ r ∈ rows, r ∈ all) (start : motive acc.1) :
    motive (rows.foldl (expireStep c all) acc).1 := by
  induction rows generalizing acc with
  | nil => exact start
  | cons r rest ih =>
    rw [List.foldl_cons]
    apply ih fun x member => among x (List.mem_cons_of_mem _ member)
    unfold expireStep
    split
    · rename_i old
      obtain ⟨basis, seen, old⟩ := (Option.any_eq_true _ _).mp old
      have next := delete acc.1 r (c.expire r.keyID) start (.aged (among r List.mem_cons_self) basis seen old)
      split <;> rename_i eq <;> rw [eq] at next <;> exact next
    · exact start

theorem expireLoop_sublist (c : Call) (all rows : List Row) (acc : Keys × List Row) :
    ∃ kept, (rows.foldl (expireStep c all) acc).2 = acc.2 ++ kept ∧ kept.Sublist rows := by
  induction rows generalizing acc with
  | nil => exact ⟨[], (List.append_nil _).symm, List.Sublist.refl _⟩
  | cons r rest ih =>
    obtain ⟨kept, eq, sub⟩ := ih (expireStep c all acc r)
    have here : (expireStep c all acc r).2 = acc.2 ∨ (expireStep c all acc r).2 = acc.2 ++ [r] := by
      unfold expireStep
      split
      · split
        · exact .inl rfl
        · exact .inr rfl
      · exact .inr rfl
    rw [List.foldl_cons, eq]
    rcases here with gone | kept'
    · exact ⟨kept, by rw [gone], sub.cons r⟩
    · exact ⟨r :: kept, by rw [kept', List.append_assoc]; rfl, sub.cons_cons r⟩

theorem evictLoop_invariant (delete : ∀ t r d, motive t → Deletable c all r → motive (deleteKey t r.keyID c.now d).1)
    (rounds : Nat) (kept : keep.Sublist all) (start : motive s) : motive (evictLoop c rounds s keep) := by
  induction rounds generalizing s keep with
  | zero => exact start
  | succ rounds ih =>
    rw [evictLoop]
    split
    · exact start
    · rename_i full
      split
      · exact start
      · rename_i i r victim
        have next := delete s r (c.evict r.keyID) start
          (.capped keep kept (not_le.mp full) i victim)
        split <;> rename_i eq <;> rw [eq] at next
        · exact ih ((List.eraseIdx_sublist keep i).trans kept) next
        · exact next

theorem sweepLocked_invariant
    (delete : ∀ t r d, motive t → Deletable c rows r → motive (deleteKey t r.keyID c.now d).1) (start : motive s) :
    motive (sweepLocked s c rows) := by
  obtain ⟨kept, eq, sub⟩ := expireLoop_sublist c rows rows (s, [])
  rw [sweepLocked]
  apply evictLoop_invariant delete
  · rw [eq]
    exact sub
  · exact expireLoop_invariant delete (fun _ member => member) start

/-! ## How many keys stay live -/

/-- The ids of the keys that are not deleted. -/
def Keys.liveIDs (s : Keys) : List KeyID := (s.table.filter OwnKey.live).map (·.keyID)

theorem markDeleted_live (keyID : KeyID) (now : Time) (k : OwnKey) :
    (k.markDeleted keyID now).live = (k.live && decide (k.keyID ≠ keyID)) := by
  unfold OwnKey.markDeleted OwnKey.live
  by_cases same : k.keyID = keyID <;> simp [same]

@[simp] theorem markDeleted_keyID (keyID : KeyID) (now : Time) (k : OwnKey) :
    (k.markDeleted keyID now).keyID = k.keyID := by
  unfold OwnKey.markDeleted
  split <;> rfl

theorem filter_live_markDeleted (keyID : KeyID) (now : Time) (table : List OwnKey) :
    ((table.map (OwnKey.markDeleted keyID now)).filter OwnKey.live).map (·.keyID) =
      ((table.filter OwnKey.live).map (·.keyID)).filter (· ≠ keyID) := by
  induction table with
  | nil => rfl
  | cons k rest ih =>
    rw [List.map_cons, List.filter_cons, List.filter_cons, markDeleted_live]
    cases live : k.live with
    | false => simpa using ih
    | true =>
      by_cases same : k.keyID = keyID
      · simpa [same] using ih
      · simpa [same] using ih

theorem deleteKey_done_liveIDs (s : Keys) (keyID : KeyID) (now : Time) :
    (deleteKey s keyID now .done).1.liveIDs = s.liveIDs.filter (· ≠ keyID) :=
  filter_live_markDeleted keyID now s.table

theorem filter_ne_perm {ids rest : List KeyID} {keyID : KeyID} (perm : ids.Perm (keyID :: rest))
    (nodup : (keyID :: rest).Nodup) : (ids.filter (· ≠ keyID)).Perm rest := by
  have step := perm.filter (· ≠ keyID)
  have others : rest.filter (· ≠ keyID) = rest := by
    apply List.filter_eq_self.mpr
    intro id member
    have fresh := (List.nodup_cons.mp nodup).1
    simpa using fun same : id = keyID => fresh (same ▸ member)
  rw [List.filter_cons_of_neg (by simp), others] at step
  exact step

theorem expireLoop_liveIDs (ok : ∀ id, c.expire id = .done)
    (perm : acc.1.liveIDs.Perm ((acc.2 ++ rows).map (·.keyID))) (nodup : ((acc.2 ++ rows).map (·.keyID)).Nodup) :
    (rows.foldl (expireStep c all) acc).1.liveIDs.Perm
      ((rows.foldl (expireStep c all) acc).2.map (·.keyID)) := by
  induction rows generalizing acc with
  | nil => simpa using perm
  | cons r rest ih =>
    rw [List.foldl_cons]
    have keeps : (acc.2 ++ [r]) ++ rest = acc.2 ++ r :: rest := by simp
    by_cases old : (seenBasis c).any (expired r all) = true
    · have moved : ((acc.2 ++ r :: rest).map (·.keyID)).Perm (r.keyID :: (acc.2 ++ rest).map (·.keyID)) := by
        exact List.Perm.map (·.keyID) (List.perm_middle : (acc.2 ++ r :: rest).Perm (r :: (acc.2 ++ rest)))
      have next : expireStep c all acc r = ((deleteKey acc.1 r.keyID c.now .done).1, acc.2) := by
        rw [expireStep, if_pos old, ok]
        rfl
      have distinct := moved.nodup_iff.mp nodup
      rw [next]
      apply ih
      · rw [deleteKey_done_liveIDs]
        exact filter_ne_perm (perm.trans moved) distinct
      · exact (List.nodup_cons.mp distinct).2
    · have next : expireStep c all acc r = (acc.1, acc.2 ++ [r]) := by
        rw [expireStep, if_neg old]
      rw [next]
      apply ih
      · simpa only [keeps] using perm
      · simpa only [keeps] using nodup

/-- When every eviction works, the cap holds at the end of the loop. -/
theorem evictLoop_length (ok : ∀ id, c.evict id = .done) {rounds : Nat} (enough : keep.length ≤ rounds)
    (perm : s.liveIDs.Perm (keep.map (·.keyID))) (nodup : (keep.map (·.keyID)).Nodup)
    (single : keep.countP (fun r => !r.retired) ≤ 1) :
    (evictLoop c rounds s keep).liveIDs.length ≤ maxLive := by
  induction rounds generalizing s keep with
  | zero =>
    rw [evictLoop, perm.length_eq, List.length_map]
    exact le_trans enough (Nat.zero_le _)
  | succ rounds ih =>
    rw [evictLoop]
    split
    · rename_i few
      rw [perm.length_eq, List.length_map]
      exact few
    · rename_i full
      have past : ∃ r ∈ keep, r.retired = true := by
        by_contra none
        push Not at none
        have all : keep.countP (fun r => !r.retired) = keep.length :=
          List.countP_eq_length.mpr fun r member => by simpa using none r member
        rw [all] at single
        exact full (le_trans single (by decide))
      obtain ⟨r, member, retired⟩ := past
      obtain ⟨⟨i, v⟩, victim⟩ := Option.isSome_iff_exists.mp (capVictim_isSome member retired c.now)
      rw [victim]
      obtain ⟨hit, _⟩ := capVictim_eq_some victim
      obtain ⟨inside, at_⟩ := List.getElem?_eq_some_iff.mp hit
      have split : (v :: keep.eraseIdx i).Perm keep := at_ ▸ List.getElem_cons_eraseIdx_perm inside
      have ids := (split.map (·.keyID)).symm
      have distinct := ids.nodup_iff.mp nodup
      simp only [ok, deleteKey]
      apply ih
      · have shorter := split.length_eq
        rw [List.length_cons] at shorter
        omega
      · have step := filter_ne_perm (perm.trans ids) distinct
        rwa [← deleteKey_done_liveIDs s v.keyID c.now] at step
      · exact (List.nodup_cons.mp distinct).2
      · exact le_trans (List.Sublist.countP_le (List.eraseIdx_sublist keep i)) single

theorem sweepLocked_length (expires : ∀ id, c.expire id = .done) (evicts : ∀ id, c.evict id = .done)
    (perm : s.liveIDs.Perm (rows.map (·.keyID))) (nodup : (rows.map (·.keyID)).Nodup)
    (single : rows.countP (fun r => !r.retired) ≤ 1) : (sweepLocked s c rows).liveIDs.length ≤ maxLive := by
  obtain ⟨kept, eq, sub⟩ := expireLoop_sublist c rows rows (s, [])
  have sub : ((rows.foldl (expireStep c rows) (s, [])).2).Sublist rows := by
    rw [eq]
    exact sub
  rw [sweepLocked]
  apply evictLoop_length evicts (le_refl _)
  · exact expireLoop_liveIDs expires perm nodup
  · exact nodup.sublist (sub.map _)
  · exact le_trans sub.countP_le single

end Agentnet.Mailbox
