import Agentnet.Canonical.Write

/-! The order of names, by UTF-16 code units, and the normal form of generic values: members in that
order at every depth. -/

namespace Agentnet.Canonical

/-! ## Names -/

theorem unitsLe_total (a b : List Nat) : unitsLe a b = true ∨ unitsLe b a = true := by
  induction a generalizing b with
  | nil => exact .inl rfl
  | cons x a ih =>
    cases b with
    | nil => exact .inr rfl
    | cons y b =>
      by_cases same : x = y
      · subst same
        simpa only [unitsLe, if_true] using ih b
      · simp only [unitsLe, if_neg same, if_neg (Ne.symm same), decide_eq_true_eq]
        exact lt_or_gt_of_ne same

theorem unitsLe_antisymm {a b : List Nat} (h : unitsLe a b = true) (h' : unitsLe b a = true) : a = b := by
  induction a generalizing b with
  | nil =>
    cases b with
    | nil => rfl
    | cons => cases h'
  | cons x a ih =>
    cases b with
    | nil => cases h
    | cons y b =>
      by_cases same : x = y
      · subst same
        simp only [unitsLe, if_true] at h h'
        rw [ih h h']
      · simp only [unitsLe, if_neg same, if_neg (Ne.symm same), decide_eq_true_eq] at h h'
        exact absurd h (lt_asymm h')

theorem unitsLe_trans {a b c : List Nat} (h : unitsLe a b = true) (h' : unitsLe b c = true) : unitsLe a c = true := by
  induction a generalizing b c with
  | nil => rfl
  | cons x a ih =>
    cases b with
    | nil => cases h
    | cons y b =>
      cases c with
      | nil => cases h'
      | cons z c =>
        simp only [unitsLe] at h h' ⊢
        split at h <;> split at h'
        · next e e' =>
          rw [if_pos (e.trans e')]
          exact ih h h'
        · next e e' =>
          subst e
          rw [if_neg e']
          exact h'
        · next e e' =>
          subst e'
          rw [if_neg e]
          exact h
        · have less : x < z := (of_decide_eq_true h).trans (of_decide_eq_true h')
          rw [if_neg less.ne]
          exact decide_eq_true less

theorem units_cancel {c d : Char} {as bs : List Nat} (h : utf16Units c ++ as = utf16Units d ++ bs) :
    c = d ∧ as = bs := by
  have same : c.toNat = d.toNat → c = d := fun e => by rw [← Char.ofNat_toNat c, e, Char.ofNat_toNat]
  have valid : ∀ e : Char, e.toNat < 0xD800 ∨ 0xDFFF < e.toNat := by
    intro e
    have v := e.valid
    have value : e.toNat = e.val.toNat := rfl
    rw [UInt32.isValidChar, Nat.isValidChar, ← value] at v
    omega
  have bound : ∀ e : Char, e.toNat < 0x110000 := by
    intro e
    have v := e.valid
    have value : e.toNat = e.val.toNat := rfl
    rw [UInt32.isValidChar, Nat.isValidChar, ← value] at v
    omega
  have validC := valid c
  have validD := valid d
  have boundC := bound c
  have boundD := bound d
  simp only [utf16Units] at h
  split at h <;> split at h
  · simp only [List.singleton_append, List.cons.injEq] at h
    exact ⟨same h.1, h.2⟩
  · simp only [List.cons_append, List.nil_append, List.cons.injEq] at h
    omega
  · simp only [List.cons_append, List.nil_append, List.cons.injEq] at h
    omega
  · simp only [List.cons_append, List.nil_append, List.cons.injEq] at h
    refine ⟨same ?_, h.2.2⟩
    omega

theorem units_injective {a b : List Char} (h : a.flatMap utf16Units = b.flatMap utf16Units) : a = b := by
  have nonempty : ∀ c, utf16Units c ≠ [] := by
    intro c
    rw [utf16Units]
    split <;> exact List.cons_ne_nil _ _
  induction a generalizing b with
  | nil =>
    cases b with
    | nil => rfl
    | cons d b => exact absurd (List.append_eq_nil_iff.mp h.symm).1 (nonempty d)
  | cons c a ih =>
    cases b with
    | nil => exact absurd (List.append_eq_nil_iff.mp h).1 (nonempty c)
    | cons d b =>
      obtain ⟨rfl, rest⟩ := units_cancel h
      rw [ih rest]

theorem utf16Le_antisymm {a b : String} (h : utf16Le a b = true) (h' : utf16Le b a = true) : a = b :=
  String.toList_inj.mp (units_injective (unitsLe_antisymm h h'))

/-! ## Members in order -/

section Members

variable {α β : Type*}

def sortMembers (members : List (String × α)) : List (String × α) :=
  members.insertionSort fun a b => utf16Le a.1 b.1 = true

theorem sortMembers_perm (members : List (String × α)) : (sortMembers members).Perm members :=
  List.perm_insertionSort _ _

theorem pairwise_sortMembers (members : List (String × α)) :
    (sortMembers members).Pairwise fun a b => utf16Le a.1 b.1 = true := by
  have : Std.Total fun a b : String × α => utf16Le a.1 b.1 = true := ⟨fun a b => unitsLe_total _ _⟩
  have : IsTrans (String × α) fun a b => utf16Le a.1 b.1 = true := ⟨fun _ _ _ => unitsLe_trans⟩
  exact List.pairwise_insertionSort _ members

theorem sortMembers_eq_of_perm {members members' : List (String × α)} (distinct : (members.map Prod.fst).Nodup)
    (perm : members.Perm members') : sortMembers members = sortMembers members' := by
  refine List.Perm.eq_of_pairwise ?_ (pairwise_sortMembers members) (pairwise_sortMembers members')
    ((sortMembers_perm members).trans (perm.trans (sortMembers_perm members').symm))
  intro a b mem mem' le ge
  refine List.inj_on_of_nodup_map distinct ((sortMembers_perm members).mem_iff.mp mem) ?_ (utf16Le_antisymm le ge)
  exact perm.mem_iff.mpr ((sortMembers_perm members').mem_iff.mp mem')

theorem map_sortMembers (f : α → β) (members : List (String × α)) :
    (sortMembers members).map (fun m => (m.1, f m.2)) = sortMembers (members.map fun m => (m.1, f m.2)) :=
  List.map_insertionSort _ _ _ _ fun _ _ _ _ => Iff.rfl

end Members

/-! ## Normal forms -/

mutual

/-- Members are sorted at every level. -/
def normal : Json → Json
  | .arr items => .arr (normalItems items)
  | .obj members => .obj (sortMembers (normalMembers members))
  | v => v

def normalItems : List Json → List Json
  | [] => []
  | item :: items => normal item :: normalItems items

def normalMembers : List (String × Json) → List (String × Json)
  | [] => []
  | (key, value) :: members => (key, normal value) :: normalMembers members

end

theorem normalItems_eq (items : List Json) : normalItems items = items.map normal := by
  induction items with
  | nil => rfl
  | cons item items ih => rw [normalItems, ih, List.map_cons]

theorem normalMembers_eq (members : List (String × Json)) :
    normalMembers members = members.map fun m => (m.1, normal m.2) := by
  induction members with
  | nil => rfl
  | cons m members ih => rw [normalMembers, ih, List.map_cons]

/-- The same generic value: the members of its maps are listed in another order. -/
inductive Reordered : Json → Json → Prop where
  | refl (v : Json) : Reordered v v
  | trans {u v w : Json} : Reordered u v → Reordered v w → Reordered u w
  | members {members members' : List (String × Json)} :
      members.Perm members' → Reordered (.obj members) (.obj members')
  | item (before after : List Json) {v w : Json} :
      Reordered v w → Reordered (.arr (before ++ v :: after)) (.arr (before ++ w :: after))
  | member (before after : List (String × Json)) (key : String) {v w : Json} : Reordered v w →
      Reordered (.obj (before ++ (key, v) :: after)) (.obj (before ++ (key, w) :: after))

theorem Reordered.symm {v w : Json} (h : Reordered v w) : Reordered w v := by
  induction h with
  | refl v => exact .refl v
  | trans _ _ ih ih' => exact ih'.trans ih
  | members perm => exact .members perm.symm
  | item before after _ ih => exact .item before after ih
  | member before after key _ ih => exact .member before after key ih

/-- Reordering every item reorders the array. -/
theorem Reordered.items {items : List Json} {f : Json → Json} (h : ∀ item ∈ items, Reordered item (f item)) :
    Reordered (.arr items) (.arr (items.map f)) := by
  have from_ : ∀ before, Reordered (.arr (before ++ items)) (.arr (before ++ items.map f)) := by
    induction items with
    | nil => exact fun before => .refl _
    | cons item items ih =>
      intro before
      have rest := ih (fun x mem => h x (List.mem_cons_of_mem item mem)) (before ++ [f item])
      rw [List.append_assoc, List.append_assoc] at rest
      exact (Reordered.item before items (h item List.mem_cons_self)).trans rest
  exact from_ []

theorem Reordered.values {members : List (String × Json)} {f : Json → Json}
    (h : ∀ m ∈ members, Reordered m.2 (f m.2)) :
    Reordered (.obj members) (.obj (members.map fun m => (m.1, f m.2))) := by
  have from_ : ∀ before,
      Reordered (.obj (before ++ members)) (.obj (before ++ members.map fun m => (m.1, f m.2))) := by
    induction members with
    | nil => exact fun before => .refl _
    | cons m members ih =>
      intro before
      have rest := ih (fun x mem => h x (List.mem_cons_of_mem m mem)) (before ++ [(m.1, f m.2)])
      rw [List.append_assoc, List.append_assoc] at rest
      exact (Reordered.member before members m.1 (h m List.mem_cons_self)).trans rest
  exact from_ []

theorem reordered_normal (v : Json) : Reordered v (normal v) := by
  induction v using Json.ind with
  | null | bool | num | str => exact .refl _
  | arr items ih =>
    rw [normal, normalItems_eq]
    exact .items ih
  | obj members ih =>
    rw [normal, normalMembers_eq]
    exact (Reordered.values ih).trans (.members (sortMembers_perm _).symm)

/-- The normal form forgets the order of members. -/
theorem Reordered.normal_eq {v w : Json} (h : Reordered v w) (g : Generic v) : Generic w ∧ normal w = normal v := by
  induction h with
  | refl => exact ⟨g, rfl⟩
  | trans _ _ ih ih' =>
    obtain ⟨g', e⟩ := ih g
    obtain ⟨g'', e'⟩ := ih' g'
    exact ⟨g'', e'.trans e⟩
  | @members members members' perm =>
    obtain ⟨distinct, parts⟩ := g
    rw [genericMembers_iff] at parts
    refine ⟨⟨(perm.map _).nodup_iff.mp distinct,
      genericMembers_iff.mpr fun m mem => parts m (perm.mem_iff.mpr mem)⟩, ?_⟩
    rw [normal, normal, normalMembers_eq, normalMembers_eq]
    refine congrArg Json.obj (sortMembers_eq_of_perm ?_ (perm.map _)).symm
    rw [List.map_map]
    exact distinct
  | @item before after v w h ih =>
    have parts := genericItems_iff.mp g
    obtain ⟨g', e⟩ := ih (parts v (List.mem_append_right before List.mem_cons_self))
    refine ⟨genericItems_iff.mpr fun x mem => ?_, ?_⟩
    · obtain mem | mem := List.mem_append.mp mem
      · exact parts x (List.mem_append_left _ mem)
      · obtain rfl | mem := List.mem_cons.mp mem
        · exact g'
        · exact parts x (List.mem_append_right before (List.mem_cons_of_mem v mem))
    · simp only [normal, normalItems_eq, List.map_append, List.map_cons, e]
  | @member before after key v w h ih =>
    obtain ⟨distinct, parts⟩ := g
    rw [genericMembers_iff] at parts
    obtain ⟨g', e⟩ := ih (parts (key, v) (List.mem_append_right before List.mem_cons_self))
    refine ⟨⟨?_, genericMembers_iff.mpr fun x mem => ?_⟩, ?_⟩
    · simpa only [List.map_append, List.map_cons] using distinct
    · obtain mem | mem := List.mem_append.mp mem
      · exact parts x (List.mem_append_left _ mem)
      · obtain rfl | mem := List.mem_cons.mp mem
        · exact g'
        · exact parts x (List.mem_append_right before (List.mem_cons_of_mem _ mem))
    · simp only [normal, normalMembers_eq, List.map_append, List.map_cons, e]

theorem generic_normal {v : Json} (g : Generic v) : Generic (normal v) ∧ normal (normal v) = normal v :=
  (reordered_normal v).normal_eq g

end Agentnet.Canonical
