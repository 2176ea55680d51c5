import Mathlib.Data.List.Perm.Basic
import Mathlib.Data.String.Basic
import Agentnet.Canonical.Reading

/-! Values that differ in the order of their members are read alike by readers that ask for members by
name. -/

namespace Agentnet.Canonical

/-! ## Members by name -/

section Lookup

variable {α : Type*} {members : List (String × α)}

theorem lookup_cons_if (key name : String) (v : α) :
    List.lookup key ((name, v) :: members) = if key = name then some v else members.lookup key := by
  by_cases same : key = name
  · rw [if_pos same, same, List.lookup_cons_self]
  · rw [if_neg same, List.lookup_cons, beq_false_of_ne same]

variable {key : String}

theorem lookup_iff (distinct : (members.map Prod.fst).Nodup) {v : α} :
    members.lookup key = some v ↔ (key, v) ∈ members := by
  induction members with
  | nil => exact ⟨fun h => (by cases h), fun h => (by cases h)⟩
  | cons m members ih =>
    obtain ⟨name, value⟩ := m
    have apart := List.nodup_cons.mp distinct
    rw [lookup_cons_if, List.mem_cons, Prod.mk.injEq, ← ih apart.2]
    by_cases same : key = name
    · subst same
      have absent : members.lookup key ≠ some v := by
        intro found
        exact apart.1 (List.mem_map.mpr ⟨(key, v), (ih apart.2).mp found, rfl⟩)
      rw [if_pos rfl]
      constructor
      · intro found
        exact .inl ⟨rfl, (Option.some.inj found).symm⟩
      · rintro (⟨-, rfl⟩ | found)
        · rfl
        · exact absurd found absent
    · rw [if_neg same]
      exact ⟨.inr, fun found => found.resolve_left fun e => same e.1⟩

theorem lookup_none_iff : members.lookup key = none ↔ key ∉ members.map Prod.fst := by
  rw [List.lookup_eq_none_iff]
  constructor
  · intro none_ mem
    obtain ⟨m, listed, rfl⟩ := List.mem_map.mp mem
    exact absurd (none_ m listed) (by simp)
  · intro absent m mem
    have other : key ≠ m.1 := fun e => absent (e ▸ List.mem_map.mpr ⟨m, mem, rfl⟩)
    simpa using other

theorem lookup_perm {members' : List (String × α)} (distinct : (members.map Prod.fst).Nodup)
    (perm : members.Perm members') (key : String) : members.lookup key = members'.lookup key := by
  have distinct' := (perm.map Prod.fst).nodup_iff.mp distinct
  refine Option.ext fun v => ?_
  rw [lookup_iff distinct, lookup_iff distinct', perm.mem_iff]

end Lookup

/-! ## Reordered values -/

def Same (a b : String × Json) : Prop := a.1 = b.1 ∧ Reordered a.2 b.2

theorem Same.refl (m : String × Json) : Same m m := ⟨rfl, .refl _⟩

theorem Same.trans {a b c : String × Json} (h : Same a b) (h' : Same b c) : Same a c :=
  ⟨h.1.trans h'.1, h.2.trans h'.2⟩

theorem forall₂_trans {α : Type*} {r : α → α → Prop} {as bs cs : List α} (h : List.Forall₂ r as bs)
    (h' : List.Forall₂ r bs cs) (trans : ∀ a b c, r a b → r b c → r a c) : List.Forall₂ r as cs := by
  induction h generalizing cs with
  | nil => exact h'
  | cons first _ ih =>
    cases h' with
    | cons first' rest' => exact .cons (trans _ _ _ first first') (ih rest')

/-- The same members in another order, each value up to the order of its own. -/
def SameMembers : List (String × Json) → List (String × Json) → Prop := Relation.Comp List.Perm (List.Forall₂ Same)

/-- Through the common permutation of the middle list. -/
theorem SameMembers.trans {a b c : List (String × Json)} (h : SameMembers a b) (h' : SameMembers b c) :
    SameMembers a c := by
  obtain ⟨a', perm, same⟩ := h
  obtain ⟨b', perm', same'⟩ := h'
  have moved : Relation.Comp List.Perm (List.Forall₂ Same) a' b' :=
    List.forall₂_comp_perm_eq_perm_comp_forall₂ ▸ ⟨b, same, perm'⟩
  obtain ⟨a'', perm'', same''⟩ := moved
  exact ⟨a'', perm.trans perm'', forall₂_trans same'' same' fun _ _ _ => Same.trans⟩

def Like : Json → Json → Prop
  | .arr items, w => ∃ items', w = .arr items' ∧ List.Forall₂ Reordered items items'
  | .obj members, w => ∃ members', w = .obj members' ∧ SameMembers members members'
  | v, w => w = v

theorem Like.refl (v : Json) : Like v v := by
  cases v with
  | null | bool | num | str => rfl
  | arr items => exact ⟨items, rfl, List.forall₂_same.mpr fun x _ => .refl x⟩
  | obj members => exact ⟨members, rfl, members, .refl _, List.forall₂_same.mpr fun m _ => .refl m⟩

theorem Like.trans {u v w : Json} (h : Like u v) (h' : Like v w) : Like u w := by
  cases u with
  | null | bool | num | str =>
    cases h
    exact h'
  | arr items =>
    obtain ⟨items', rfl, same⟩ := h
    obtain ⟨items'', rfl, same'⟩ := h'
    exact ⟨items'', rfl, forall₂_trans same same' fun _ _ _ => Reordered.trans⟩
  | obj members =>
    obtain ⟨members', rfl, same⟩ := h
    obtain ⟨members'', rfl, same'⟩ := h'
    exact ⟨members'', rfl, same.trans same'⟩

theorem Reordered.like {v w : Json} (h : Reordered v w) : Like v w := by
  induction h with
  | refl v => exact .refl v
  | trans _ _ ih ih' => exact ih.trans ih'
  | @members members members' perm => exact ⟨members', rfl, members', perm, List.forall₂_same.mpr fun m _ => .refl m⟩
  | @item before after v w h _ =>
    have kept : ∀ items, List.Forall₂ Reordered items items := fun items => List.forall₂_same.mpr fun x _ => .refl x
    exact ⟨before ++ w :: after, rfl, List.rel_append (kept before) (.cons h (kept after))⟩
  | @member before after key v w h _ =>
    have kept : ∀ members, List.Forall₂ Same members members :=
      fun members => List.forall₂_same.mpr fun m _ => .refl m
    exact ⟨before ++ (key, w) :: after, rfl, before ++ (key, v) :: after, .refl _,
      List.rel_append (kept before) (.cons ⟨rfl, h⟩ (kept after))⟩

namespace SameMembers

variable {members members' : List (String × Json)} (h : SameMembers members members')
include h

theorem names : (members.map Prod.fst).Perm (members'.map Prod.fst) := by
  obtain ⟨middle, perm, same⟩ := h
  have equal : middle.map Prod.fst = members'.map Prod.fst := by
    clear perm
    induction same with
    | nil => rfl
    | cons first _ ih => rw [List.map_cons, List.map_cons, first.1, ih]
  exact equal ▸ perm.map _

theorem length : members'.length = members.length := by
  have same := h.names.length_eq
  rw [List.length_map, List.length_map] at same
  exact same.symm

variable {k : String}

theorem lookup_none (none_ : members.lookup k = none) : members'.lookup k = none := by
  rw [lookup_none_iff] at none_ ⊢
  exact fun mem => none_ (h.names.mem_iff.mpr mem)

theorem lookup_some (distinct : (members.map Prod.fst).Nodup) {v : Json} (some_ : members.lookup k = some v) :
    ∃ w, members'.lookup k = some w ∧ Reordered v w := by
  have distinct' := h.names.nodup_iff.mp distinct
  obtain ⟨middle, perm, same⟩ := h
  have mem := perm.mem_iff.mp ((lookup_iff distinct).mp some_)
  obtain ⟨w, listed, alike⟩ : ∃ w, (k, w) ∈ members' ∧ Reordered v w := by
    clear distinct distinct' perm some_
    induction same with
    | nil => cases mem
    | @cons m m' middle members' first _ ih =>
      obtain rfl | mem := List.mem_cons.mp mem
      · exact ⟨m'.2, List.mem_cons.mpr (.inl (Prod.ext first.1 rfl)), first.2⟩
      · obtain ⟨w, listed, alike⟩ := ih mem
        exact ⟨w, List.mem_cons_of_mem m' listed, alike⟩
  exact ⟨w, (lookup_iff distinct').mpr listed, alike⟩

theorem lookup_rel (distinct : (members.map Prod.fst).Nodup) (k : String) :
    Option.Rel Reordered (members.lookup k) (members'.lookup k) := by
  cases at_ : members.lookup k with
  | none =>
    rw [h.lookup_none at_]
    exact .none
  | some v =>
    obtain ⟨w, at', alike⟩ := h.lookup_some distinct at_
    rw [at']
    exact .some alike

theorem reordered : Reordered (.obj members) (.obj members') := by
  obtain ⟨middle, perm, same⟩ := h
  have from_ : ∀ before, Reordered (.obj (before ++ middle)) (.obj (before ++ members')) := by
    clear perm
    induction same with
    | nil => exact fun before => .refl _
    | @cons m m' middle members' first _ ih =>
      intro before
      have rest := ih (before ++ [m'])
      rw [List.append_assoc, List.append_assoc] at rest
      have one : Reordered (.obj (before ++ (m.1, m.2) :: middle)) (.obj (before ++ (m.1, m'.2) :: middle)) :=
        .member before middle m.1 first.2
      rw [first.1] at one
      exact (show m = (m'.1, m.2) from Prod.ext first.1 rfl) ▸ one.trans rest
  exact (Reordered.members perm).trans (from_ [])

theorem symm : SameMembers members' members := by
  obtain ⟨found, e, same⟩ := h.reordered.symm.like
  cases e
  exact same

theorem lookup_str (distinct : (members.map Prod.fst).Nodup) {s : String} (text : members.lookup k = some (.str s)) :
    members'.lookup k = some (.str s) := by
  obtain ⟨w, at_, alike⟩ := h.lookup_some distinct text
  rw [at_, alike.like]

theorem lookup_num (distinct : (members.map Prod.fst).Nodup) {n : Number}
    (number : members.lookup k = some (.num n)) : members'.lookup k = some (.num n) := by
  obtain ⟨w, at_, alike⟩ := h.lookup_some distinct number
  rw [at_, alike.like]

theorem perm_of_texts (texts : ∀ m ∈ members, ∃ s, m.2 = .str s) : members.Perm members' := by
  obtain ⟨middle, perm, same⟩ := h
  have equal : middle = members' := by
    have texts' : ∀ m ∈ middle, ∃ s, m.2 = .str s := fun m mem => texts m (perm.mem_iff.mpr mem)
    clear perm texts
    induction same with
    | nil => rfl
    | @cons m m' middle members' first _ ih =>
      obtain ⟨s, text⟩ := texts' m List.mem_cons_self
      have value : m'.2 = m.2 := by
        rw [text, (text ▸ first.2 : Reordered (.str s) m'.2).like]
      rw [ih fun m mem => texts' m (List.mem_cons_of_mem _ mem), Prod.ext first.1 value.symm]
  exact equal ▸ perm

theorem singleton {v : Json} (one : members = [(k, v)]) : ∃ w, members' = [(k, w)] ∧ Reordered v w := by
  obtain ⟨middle, perm, same⟩ := h
  rw [one] at perm
  rw [← List.singleton_perm.mp perm] at same
  cases same with
  | @cons _ m _ _ first rest =>
    cases rest
    exact ⟨m.2, congrArg (fun name => [(name, m.2)]) (first.1 : k = m.1).symm, first.2⟩

theorem cons {m m' : String × Json} (first : Same m m') : SameMembers (m :: members) (m' :: members') := by
  obtain ⟨middle, perm, same⟩ := h
  exact ⟨m :: middle, perm.cons m, .cons first same⟩

end SameMembers

theorem reordered_array {items items' : List Json} (h : List.Forall₂ Reordered items items') :
    Reordered (.arr items) (.arr items') := by
  have from_ : ∀ before, Reordered (.arr (before ++ items)) (.arr (before ++ items')) := by
    induction h with
    | nil => exact fun before => .refl _
    | @cons x x' items items' first _ ih =>
      intro before
      have rest := ih (before ++ [x'])
      rw [List.append_assoc, List.append_assoc] at rest
      exact (Reordered.item before items first).trans rest
  exact from_ []

/-! ## A value by its members -/

theorem sameMembers_of_lookup {members fields : List (String × Json)} (distinct : (members.map Prod.fst).Nodup)
    (distinct' : (fields.map Prod.fst).Nodup) (count : members.length ≤ fields.length)
    (found : ∀ f ∈ fields, ∃ v, members.lookup f.1 = some v ∧ Reordered v f.2) : SameMembers members fields := by
  induction fields generalizing members with
  | nil =>
    rw [List.length_eq_zero_iff.mp (Nat.le_zero.mp count)]
    exact ⟨[], .refl _, .nil⟩
  | cons f fields ih =>
    obtain ⟨v, at_, alike⟩ := found f List.mem_cons_self
    obtain ⟨before, after, rfl⟩ := List.append_of_mem ((lookup_iff distinct).mp at_)
    have moved : (before ++ (f.1, v) :: after).Perm ((f.1, v) :: (before ++ after)) := List.perm_middle
    have apart := List.nodup_cons.mp ((moved.map Prod.fst).nodup_iff.mp distinct)
    have apart' := List.nodup_cons.mp distinct'
    have rest : SameMembers (before ++ after) fields := by
      refine ih apart.2 apart'.2 ?_ fun g mem => ?_
      · have size := moved.length_eq
        rw [List.length_cons] at size count
        omega
      · obtain ⟨w, at', alike'⟩ := found g (List.mem_cons_of_mem f mem)
        refine ⟨w, (lookup_iff apart.2).mpr ?_, alike'⟩
        have listed := List.mem_cons.mp (moved.mem_iff.mp ((lookup_iff distinct).mp at'))
        refine listed.resolve_left fun e => apart'.1 ?_
        exact (Prod.mk.inj e).1 ▸ List.mem_map.mpr ⟨g, mem, rfl⟩
    obtain ⟨middle, perm, same⟩ :=
      (rest.cons ⟨rfl, alike⟩ : SameMembers ((f.1, v) :: (before ++ after)) (f :: fields))
    exact ⟨middle, moved.trans perm, same⟩

/-- A pair with two names holds what is found under them. -/
theorem two_members {top : List (String × Json)} {k k' : String} {x y : Json} (apart : k ≠ k') (two : top.length = 2)
    (first : top.lookup k = some x) (second : top.lookup k' = some y) : top.Perm [(k, x), (k', y)] := by
  obtain ⟨⟨name, v⟩, ⟨name', v'⟩, rfl⟩ := List.length_eq_two.mp two
  simp only [lookup_cons_if, List.lookup_nil] at first second
  by_cases one : k = name
  · subst one
    rw [if_pos rfl] at first
    rw [if_neg apart.symm] at second
    split at second
    · next last => rw [Option.some.inj first, ← last, Option.some.inj second]
    · cases second
  · rw [if_neg one] at first
    split at first
    · next last =>
      subst last
      rw [if_neg apart.symm] at second
      split at second
      · next last =>
        rw [← last, Option.some.inj first, Option.some.inj second]
        exact .swap _ _ _
      · cases second
    · cases first

end Agentnet.Canonical
