import Agentnet.Canonical.Order

/-! `CanonicalValue` writes the normal form, from which `ParseStrict` reads the value back. -/

namespace Agentnet.Canonical

open Lib

/-! ## Without space -/

/-- The style of the canonical text. -/
def plain : Style := .compact .canonical

def memberText (f : Json → List Char) (m : String × Json) : List Char := quote .canonical m.1 ++ ':' :: f m.2

theorem writeItems_plain (depth : Nat) (items : List Json) :
    writeItems plain depth items = items.flatMap fun x => ',' :: write plain depth x := by
  induction items with
  | nil => rfl
  | cons item items ih =>
    rw [writeItems, ih]
    rfl

theorem writeMembers_plain (depth : Nat) (members : List (String × Json)) :
    writeMembers plain depth members = members.flatMap fun m => ',' :: memberText (write plain depth) m := by
  induction members with
  | nil => rfl
  | cons m members ih =>
    rw [writeMembers, ih, List.flatMap_cons, memberText]
    simp only [Style.name, plain, Style.compact, List.nil_append, List.append_assoc, List.cons_append]

def joined : List (List Char) → List Char
  | [] => []
  | first :: rest => first ++ rest.flatMap (',' :: ·)

theorem write_array (depth : Nat) (items : List Json) :
    write plain depth (.arr items) = '[' :: (joined (items.map (write plain (depth + 1))) ++ [']']) := by
  cases items with
  | nil => rfl
  | cons item items =>
    rw [write, writeItems_plain, List.map_cons, joined, List.flatMap_map]
    simp only [plain, Style.compact, List.nil_append, List.append_assoc]

theorem write_object (depth : Nat) (members : List (String × Json)) : write plain depth (.obj members) =
      '\x7b' :: (joined (members.map (memberText (write plain (depth + 1)))) ++ ['\x7d']) := by
  cases members with
  | nil => rfl
  | cons m members =>
    rw [write, writeMembers_plain, List.map_cons, joined, List.flatMap_map, memberText]
    simp only [Style.name, plain, Style.compact, List.nil_append, List.append_assoc, List.cons_append]

theorem write_depth (v : Json) (depth : Nat) : write plain depth v = write plain 0 v := by
  induction v using Json.ind generalizing depth with
  | null | num | str => rfl
  | bool b => cases b <;> rfl
  | arr items ih =>
    have same : items.map (write plain (depth + 1)) = items.map (write plain (0 + 1)) :=
      List.map_congr_left fun x mem => (ih x mem _).trans (ih x mem _).symm
    rw [write_array, write_array, same]
  | obj members ih =>
    have same : members.map (memberText (write plain (depth + 1))) = members.map (memberText (write plain (0 + 1))) :=
      List.map_congr_left fun m mem => by rw [memberText, memberText, ih m mem, ih m mem 1]
    rw [write_object, write_object, same]

/-- The text of a value, its members in the order they are listed. -/
def chars (v : Json) : List Char := write plain 0 v

theorem chars_array (items : List Json) : chars (.arr items) = '[' :: (joined (items.map chars) ++ [']']) := by
  have same : items.map (write plain (0 + 1)) = items.map chars := List.map_congr_left fun x _ => write_depth x _
  rw [chars, write_array, same]

theorem chars_object (members : List (String × Json)) :
    chars (.obj members) = '\x7b' :: (joined (members.map (memberText chars)) ++ ['\x7d']) := by
  have same : members.map (memberText (write plain (0 + 1))) = members.map (memberText chars) :=
    List.map_congr_left fun m _ => by rw [memberText, write_depth, memberText, chars]
  rw [chars, write_object, same]

/-! ## What `CanonicalValue` writes -/

theorem toList_joinItems (texts : List String) : (joinItems texts).toList = joined (texts.map String.toList) := by
  induction texts with
  | nil => rfl
  | cons first rest ih =>
    cases rest with
    | nil => exact (List.append_nil _).symm
    | cons second rest =>
      rw [joinItems, String.toList_append, String.toList_append, ih, List.map_cons, joined, List.map_cons, joined]
      simp only [List.append_assoc]
      rfl

theorem toList_writeString (s : String) : (writeString s).toList = quote .canonical s := by
  have mark : "\"".toList = ['"'] := rfl
  rw [writeString, String.toList_append, String.toList_append, mark, String.toList_ofList]
  rfl

variable {f : Json → List Char} {items : List Json} {members : List (String × Json)} {t : String} {v : Json}

theorem canonicalItems_texts {texts : List String}
    (ok : canonicalItems items = .ok texts) (h : ∀ x ∈ items, ∀ t, canonicalValue x = .ok t → t.toList = f x) :
    texts.map String.toList = items.map f := by
  induction items generalizing texts with
  | nil =>
    cases ok
    rfl
  | cons item items ih =>
    rw [canonicalItems] at ok
    obtain ⟨t, one, ok⟩ := bind_eq_ok.mp ok
    obtain ⟨ts, more, ok⟩ := bind_eq_ok.mp ok
    cases ok
    rw [List.map_cons, List.map_cons, h item List.mem_cons_self t one,
      ih more fun x mem => h x (List.mem_cons_of_mem item mem)]

theorem canonicalMembers_texts {texts : List (String × String)}
    (ok : canonicalMembers members = .ok texts)
    (h : ∀ m ∈ members, ∀ t, canonicalValue m.2 = .ok t → t.toList = f m.2) :
    texts.map (fun m => (m.1, m.2.toList)) = members.map fun m => (m.1, f m.2) := by
  induction members generalizing texts with
  | nil =>
    cases ok
    rfl
  | cons m members ih =>
    rw [canonicalMembers] at ok
    obtain ⟨t, one, ok⟩ := bind_eq_ok.mp ok
    obtain ⟨ts, more, ok⟩ := bind_eq_ok.mp ok
    cases ok
    rw [List.map_cons, List.map_cons, h m List.mem_cons_self t one,
      ih more fun x mem => h x (List.mem_cons_of_mem m mem)]

theorem toList_writeMembers (texts : List (String × String)) : (Agentnet.writeMembers texts).toList =
    joined ((sortMembers (texts.map fun m => (m.1, m.2.toList))).map fun m =>
      quote .canonical m.1 ++ ':' :: m.2) := by
  rw [← map_sortMembers, Agentnet.writeMembers, toList_joinItems, List.map_map, List.map_map]
  refine congrArg joined (List.map_congr_left fun m _ => ?_)
  simp only [Function.comp_apply, String.toList_append, toList_writeString, List.append_assoc]
  rfl

theorem Number.canonical_ok {n : Number} (ok : n.canonical = .ok t) :
    ∃ i, n = .int i ∧ (-maxSafeInt < i ∧ i < maxSafeInt) ∧ t = toString i := by
  cases n with
  | int i =>
    rw [Number.canonical] at ok
    split at ok
    · next within => exact ⟨i, rfl, within, (Except.ok.inj ok).symm⟩
    · cases ok
  | negZero | other => cases ok

/-- The canonical text is the text of the normal form. -/
theorem canonicalValue_text (v : Json) (ok : canonicalValue v = .ok t) : t.toList = chars (normal v) := by
  induction v using Json.ind generalizing t with
  | null =>
    cases ok
    rfl
  | bool b =>
    cases ok
    cases b <;> rfl
  | num n =>
    obtain ⟨i, rfl, -, rfl⟩ := Number.canonical_ok ok
    rfl
  | str s =>
    cases ok
    exact toList_writeString s
  | arr items ih =>
    rw [canonicalValue] at ok
    obtain ⟨texts, items_, ok⟩ := bind_eq_ok.mp ok
    cases ok
    rw [normal, normalItems_eq, chars_array, List.map_map, String.toList_append,
      String.toList_append, toList_joinItems, canonicalItems_texts items_ fun x mem t ok => ih x mem ok]
    rfl
  | obj members ih =>
    rw [canonicalValue] at ok
    obtain ⟨texts, members_, ok⟩ := bind_eq_ok.mp ok
    cases ok
    have sorted : (sortMembers (members.map fun m => (m.1, chars (normal m.2)))).map
        (fun m => quote .canonical m.1 ++ ':' :: m.2) =
        (sortMembers (members.map fun m => (m.1, normal m.2))).map (memberText chars) := by
      have pushed : members.map (fun m => (m.1, chars (normal m.2))) =
          (members.map fun m => (m.1, normal m.2)).map fun m => (m.1, chars m.2) := by
        rw [List.map_map]
        rfl
      rw [pushed, ← map_sortMembers, List.map_map]
      rfl
    rw [normal, normalMembers_eq, chars_object, String.toList_append, String.toList_append, toList_writeMembers,
      canonicalMembers_texts (f := fun v => chars (normal v)) members_ fun m mem t ok => ih m mem ok, sorted]
    rfl

/-! ## Which values it writes -/

theorem canonicalItems_ok :
    (∃ texts, canonicalItems items = .ok texts) ↔ ∀ x ∈ items, ∃ t, canonicalValue x = .ok t := by
  induction items with
  | nil => exact ⟨fun _ _ none_ => (by cases none_), fun _ => ⟨[], rfl⟩⟩
  | cons item items ih =>
    rw [List.forall_mem_cons, ← ih, canonicalItems]
    constructor
    · rintro ⟨texts, ok⟩
      obtain ⟨t, one, ok⟩ := bind_eq_ok.mp ok
      obtain ⟨ts, more, -⟩ := bind_eq_ok.mp ok
      exact ⟨⟨t, one⟩, ts, more⟩
    · rintro ⟨⟨t, one⟩, ts, more⟩
      exact ⟨t :: ts, bind_eq_ok.mpr ⟨t, one, bind_eq_ok.mpr ⟨ts, more, rfl⟩⟩⟩

theorem canonicalMembers_ok :
    (∃ texts, canonicalMembers members = .ok texts) ↔ ∀ m ∈ members, ∃ t, canonicalValue m.2 = .ok t := by
  induction members with
  | nil => exact ⟨fun _ _ none_ => (by cases none_), fun _ => ⟨[], rfl⟩⟩
  | cons m members ih =>
    rw [List.forall_mem_cons, ← ih, canonicalMembers]
    constructor
    · rintro ⟨texts, ok⟩
      obtain ⟨t, one, ok⟩ := bind_eq_ok.mp ok
      obtain ⟨ts, more, -⟩ := bind_eq_ok.mp ok
      exact ⟨⟨t, one⟩, ts, more⟩
    · rintro ⟨⟨t, one⟩, ts, more⟩
      exact ⟨(m.1, t) :: ts, bind_eq_ok.mpr ⟨t, one, bind_eq_ok.mpr ⟨ts, more, rfl⟩⟩⟩

theorem canonicalValue_array :
    (∃ t, canonicalValue (.arr items) = .ok t) ↔ ∀ x ∈ items, ∃ t, canonicalValue x = .ok t := by
  rw [← canonicalItems_ok, canonicalValue]
  constructor
  · rintro ⟨t, ok⟩
    obtain ⟨texts, items_, -⟩ := bind_eq_ok.mp ok
    exact ⟨texts, items_⟩
  · rintro ⟨texts, items_⟩
    exact ⟨_, bind_eq_ok.mpr ⟨texts, items_, rfl⟩⟩

/-- An object is canonical when each value is. -/
theorem canonicalValue_object :
    (∃ t, canonicalValue (.obj members) = .ok t) ↔ ∀ m ∈ members, ∃ t, canonicalValue m.2 = .ok t := by
  rw [← canonicalMembers_ok, canonicalValue]
  constructor
  · rintro ⟨t, ok⟩
    obtain ⟨texts, members_, -⟩ := bind_eq_ok.mp ok
    exact ⟨texts, members_⟩
  · rintro ⟨texts, members_⟩
    exact ⟨_, bind_eq_ok.mpr ⟨texts, members_, rfl⟩⟩

theorem canonicalValue_of_generic (g : Generic v) : ∃ t, canonicalValue v = .ok t := by
  induction v using Json.ind with
  | null | bool | str => exact ⟨_, rfl⟩
  | num n =>
    cases n with
    | int i =>
      have within : -maxSafeInt < i ∧ i < maxSafeInt := g
      exact ⟨toString i, by rw [canonicalValue, Number.canonical, if_pos within]⟩
    | negZero | other => exact g.elim
  | arr items ih =>
    have parts := genericItems_iff.mp g
    exact canonicalValue_array.mpr fun x mem => ih x mem (parts x mem)
  | obj members ih =>
    have parts := genericMembers_iff.mp g.2
    exact canonicalValue_object.mpr fun m mem => ih m mem (parts m mem)

def canonicalText (v : Json) : String := String.ofList (chars (normal v))

/-- Without floats the canonical text exists. -/
theorem canonicalValue_eq (g : Generic v) : canonicalValue v = .ok (canonicalText v) := by
  obtain ⟨t, ok⟩ := canonicalValue_of_generic g
  rw [ok, canonicalText, ← canonicalValue_text v ok, String.ofList_toList]

/-- Reading the canonical text gives the normal form. -/
theorem parseStrict_canonicalText (g : Generic v) : parseStrict (canonicalText v) = .ok (normal v) :=
  parseStrict_write plain (normal v) (generic_normal g).1

theorem canonicalText_normal (g : Generic v) : canonicalText (normal v) = canonicalText v := by
  rw [canonicalText, (generic_normal g).2, canonicalText]

/-- The order of members does not show in the canonical text. -/
theorem canonicalText_reordered {w : Json} (h : Reordered v w) (g : Generic v) :
    canonicalText w = canonicalText v := by
  rw [canonicalText, (h.normal_eq g).2, canonicalText]

theorem reordered_of_canonicalText {w : Json} (g : Generic v) (g' : Generic w)
    (same : canonicalText v = canonicalText w) :
    Reordered v w := by
  have read := parseStrict_canonicalText g
  rw [same, parseStrict_canonicalText g'] at read
  have normals : normal w = normal v := Except.ok.inj read
  exact (reordered_normal v).trans (normals ▸ (reordered_normal w).symm)

end Agentnet.Canonical
