import Agentnet.Canonical.Length

/-! What `ParseStrict` reads: names are distinct, and the value's own text is no longer than the one read. -/

namespace Agentnet.Canonical

open Lib

/-! ## The size of a text -/

theorem bytes_joined (texts : List (List Char)) :
    bytes (joined texts) = (texts.map fun t => bytes t + 1).sum - 1 := by
  have comma : ','.utf8Size = 1 := by decide
  have behind : ∀ rest : List (List Char), bytes (rest.flatMap (',' :: ·)) = (rest.map fun t => bytes t + 1).sum := by
    intro rest
    induction rest with
    | nil => rfl
    | cons t rest ih =>
      rw [List.flatMap_cons, bytes_append, bytes_cons, comma, ih, List.map_cons, List.sum_cons, Nat.add_comm 1]
  cases texts with
  | nil => rfl
  | cons first rest =>
    rw [joined, bytes_append, behind, List.map_cons, List.sum_cons]
    omega

theorem bytes_array (items : List Json) :
    bytes (chars (.arr items)) = (items.map fun x => bytes (chars x) + 1).sum - 1 + 2 := by
  have marks : '['.utf8Size = 1 ∧ ']'.utf8Size = 1 := by decide
  rw [chars_array, bytes_cons, bytes_append, bytes_cons, bytes_nil, bytes_joined, List.map_map, marks.1, marks.2]
  exact Nat.add_comm _ _

theorem bytes_object (members : List (String × Json)) :
    bytes (chars (.obj members)) = (members.map fun m => bytes (memberText chars m) + 1).sum - 1 + 2 := by
  have marks : '\x7b'.utf8Size = 1 ∧ '\x7d'.utf8Size = 1 := by decide
  rw [chars_object, bytes_cons, bytes_append, bytes_cons, bytes_nil, bytes_joined, List.map_map, marks.1, marks.2]
  exact Nat.add_comm _ _

theorem bytes_normal (v : Json) : bytes (chars (normal v)) = bytes (chars v) := by
  induction v using Json.ind with
  | null | bool | num | str => rfl
  | arr items ih =>
    have same : (items.map normal).map (fun x => bytes (chars x) + 1) = items.map fun x => bytes (chars x) + 1 := by
      rw [List.map_map]
      exact List.map_congr_left fun x mem => congrArg (· + 1) (ih x mem)
    rw [normal, normalItems_eq, bytes_array, same, bytes_array]
  | obj members ih =>
    have same : (members.map fun m => (m.1, normal m.2)).map (fun m => bytes (memberText chars m) + 1) =
        members.map fun m => bytes (memberText chars m) + 1 := by
      rw [List.map_map]
      refine List.map_congr_left fun m mem => ?_
      simp only [Function.comp_apply, memberText, bytes_append, bytes_cons, ih m mem]
    rw [normal, normalMembers_eq, bytes_object, ((sortMembers_perm _).map _).sum_nat, same, bytes_object]

/-! ## What the parser returns -/

def Readable (v : Json) : Prop := ∀ t, canonicalValue v = .ok t → Generic v

variable {items : List Json} {members : List (String × Json)} {cs rest left : List Char} {n : Nat} {v : Json}
  {d : String}

theorem readable_array (h : ∀ x ∈ items, Readable x) : Readable (.arr items) := by
  intro t ok
  refine genericItems_iff.mpr fun x mem => ?_
  obtain ⟨t', ok'⟩ := canonicalValue_array.mp ⟨t, ok⟩ x mem
  exact h x mem t' ok'

theorem readable_object (distinct : (members.map Prod.fst).Nodup) (h : ∀ m ∈ members, Readable m.2) :
    Readable (.obj members) := by
  intro t ok
  refine ⟨distinct, genericMembers_iff.mpr fun m mem => ?_⟩
  obtain ⟨t', ok'⟩ := canonicalValue_object.mp ⟨t, ok⟩ m mem
  exact h m mem t' ok'

theorem readable_number (n : Number) : Readable (.num n) := by
  intro t ok
  obtain ⟨i, rfl, within, -⟩ := Number.canonical_ok ok
  exact within

theorem token_ok {α : Type} {read : Option α} {x : α} (h : token read = .ok x) : read = some x := by
  cases read with
  | none => cases h
  | some y => rw [Except.ok.inj h]

theorem bytes_next {c : Char} (h : skipSpace cs = c :: rest) : 1 + bytes rest ≤ bytes cs := by
  have size := bytes_skipSpace cs
  have one := Char.utf8Size_pos c
  rw [h, bytes_cons] at size
  omega

theorem bytes_word {word : List Char} (h : skipSpace cs = word ++ rest) : bytes word + bytes rest ≤ bytes cs := by
  rw [← bytes_append, ← h]
  exact bytes_skipSpace cs

theorem bytes_quote (s : List Char) :
    bytes (quote .canonical (String.ofList s)) = bytes (s.flatMap escapeChar) + 2 := by
  have mark : '"'.utf8Size = 1 := by decide
  rw [quote, String.toList_ofList, bytes_cons, bytes_append, bytes_cons, bytes_nil, mark]
  exact Nat.add_comm 1 _

theorem parseKey_bytes {key : String} (h : parseKey cs = .ok (key, left)) :
    bytes (quote .canonical key) + bytes left ≤ bytes cs := by
  unfold parseKey at h
  split at h
  · next rest e =>
    obtain ⟨⟨s, left'⟩, read, same⟩ := bind_eq_ok.mp h
    cases same
    have size := lexString_bytes (token_ok read)
    have next_ := bytes_next e
    rw [bytes_quote]
    omega
  · cases h

theorem parseColon_bytes (h : parseColon cs = .ok left) : 1 + bytes left ≤ bytes cs := by
  unfold parseColon at h
  split at h
  · next rest e =>
    cases h
    exact bytes_next e
  · cases h

/-- What each parser reads with `n` steps of fuel is well formed and no longer than its text. -/
structure Reads (n : Nat) : Prop where
  value : ∀ {cs v rest}, parseValue n cs = .ok (v, rest) → Readable v ∧ bytes (chars v) + bytes rest ≤ bytes cs
  items : ∀ {cs items rest}, parseItems n cs = .ok (items, rest) → (∀ x ∈ items, Readable x) ∧
    0 < (items.map fun x => bytes (chars x) + 1).sum ∧
    (items.map fun x => bytes (chars x) + 1).sum + bytes rest ≤ bytes cs
  members : ∀ {seen cs members rest}, parseMembers n seen cs = .ok (members, rest) →
    (members.map Prod.fst).Nodup ∧ (∀ m ∈ members, m.1 ∉ seen ∧ Readable m.2) ∧
    0 < (members.map fun m => bytes (memberText chars m) + 1).sum ∧
    (members.map fun m => bytes (memberText chars m) + 1).sum + bytes rest ≤ bytes cs

/-- What is read is well formed and no longer than its text: the step on the fuel. -/
theorem reads_value (ih : Reads n) (h : parseValue (n + 1) cs = .ok (v, rest)) :
    Readable v ∧ bytes (chars v) + bytes rest ≤ bytes cs := by
  rw [parseValue] at h
  have size := bytes_skipSpace cs
  split at h
  · next e =>
    cases h
    exact ⟨fun _ _ => trivial, bytes_word e⟩
  · next e =>
    cases h
    exact ⟨fun _ _ => trivial, bytes_word e⟩
  · next e =>
    cases h
    exact ⟨fun _ _ => trivial, bytes_word e⟩
  · next left e =>
    obtain ⟨⟨s, left'⟩, read, same⟩ := bind_eq_ok.mp h
    cases same
    have text := lexString_bytes (token_ok read)
    have next_ := bytes_next e
    refine ⟨fun _ _ => trivial, ?_⟩
    rw [chars, write, show plain.esc = .canonical from rfl, bytes_quote]
    omega
  · next left e =>
    have next_ := bytes_next e
    split at h
    · next left' e' =>
      cases h
      have next' := bytes_next e'
      refine ⟨readable_array fun _ none_ => (by cases none_), ?_⟩
      rw [bytes_array]
      simp only [List.map_nil, List.sum_nil]
      omega
    · obtain ⟨⟨items, left'⟩, read, same⟩ := bind_eq_ok.mp h
      cases same
      obtain ⟨each, some_, texts⟩ := ih.items read
      refine ⟨readable_array each, ?_⟩
      rw [bytes_array]
      omega
  · next left e =>
    have next_ := bytes_next e
    split at h
    · next left' e' =>
      cases h
      have next' := bytes_next e'
      refine ⟨readable_object List.nodup_nil fun _ none_ => (by cases none_), ?_⟩
      rw [bytes_object]
      simp only [List.map_nil, List.sum_nil]
      omega
    · obtain ⟨⟨members, left'⟩, read, same⟩ := bind_eq_ok.mp h
      cases same
      obtain ⟨distinct, each, some_, texts⟩ := ih.members read
      refine ⟨readable_object distinct fun m mem => (each m mem).2, ?_⟩
      rw [bytes_object]
      omega
  · obtain ⟨⟨number, left⟩, read, same⟩ := bind_eq_ok.mp h
    cases same
    have text := lexNumber_bytes (token_ok read)
    exact ⟨readable_number number, text.trans size⟩

theorem reads_items (ih : Reads n) (h : parseItems (n + 1) cs = .ok (items, rest)) : (∀ x ∈ items, Readable x) ∧
      0 < (items.map fun x => bytes (chars x) + 1).sum ∧
      (items.map fun x => bytes (chars x) + 1).sum + bytes rest ≤ bytes cs := by
  rw [parseItems] at h
  obtain ⟨⟨item, left⟩, read, h⟩ := bind_eq_ok.mp h
  obtain ⟨first, text⟩ := ih.value read
  dsimp only at h
  split at h
  · next behind e =>
    have next_ := bytes_next e
    obtain ⟨⟨more, left'⟩, read', same⟩ := bind_eq_ok.mp h
    cases same
    obtain ⟨each, -, texts⟩ := ih.items read'
    refine ⟨List.forall_mem_cons.mpr ⟨first, each⟩, ?_⟩
    rw [List.map_cons, List.sum_cons]
    dsimp only
    omega
  · next behind e =>
    cases h
    have next_ := bytes_next e
    refine ⟨fun x mem => List.mem_singleton.mp mem ▸ first, ?_⟩
    simp only [List.map_cons, List.map_nil, List.sum_cons, List.sum_nil]
    omega
  · cases h

/-- The same for members, whose names are new and distinct. -/
theorem reads_members (ih : Reads n) {seen : List String} (h : parseMembers (n + 1) seen cs = .ok (members, rest)) :
    (members.map Prod.fst).Nodup ∧ (∀ m ∈ members, m.1 ∉ seen ∧ Readable m.2) ∧
      0 < (members.map fun m => bytes (memberText chars m) + 1).sum ∧
      (members.map fun m => bytes (memberText chars m) + 1).sum + bytes rest ≤ bytes cs := by
  rw [parseMembers] at h
  obtain ⟨⟨key, left⟩, readKey, h⟩ := bind_eq_ok.mp h
  have name := parseKey_bytes readKey
  dsimp only at h
  split at h
  · cases h
  next fresh =>
  obtain ⟨left', readColon, h⟩ := bind_eq_ok.mp h
  have colon := parseColon_bytes readColon
  obtain ⟨⟨value, left''⟩, read, h⟩ := bind_eq_ok.mp h
  obtain ⟨first, text⟩ := ih.value read
  have mark : ':'.utf8Size = 1 := by decide
  have size : bytes (memberText chars (key, value)) = bytes (quote .canonical key) + (1 + bytes (chars value)) := by
    rw [memberText, bytes_append, bytes_cons, mark]
  dsimp only at h
  split at h
  · next behind e =>
    have next_ := bytes_next e
    obtain ⟨⟨more, left'''⟩, read', same⟩ := bind_eq_ok.mp h
    cases same
    obtain ⟨distinct, each, -, texts⟩ := ih.members read'
    have unseen : key ∉ more.map Prod.fst := by
      intro mem
      obtain ⟨m, mem, e⟩ := List.mem_map.mp mem
      exact (each m mem).1 (e ▸ List.mem_cons_self)
    refine ⟨List.nodup_cons.mpr ⟨unseen, distinct⟩, List.forall_mem_cons.mpr ⟨⟨fresh, first⟩, fun m mem => ?_⟩, ?_⟩
    · exact ⟨fun before => (each m mem).1 (List.mem_cons_of_mem key before), (each m mem).2⟩
    · rw [List.map_cons, List.sum_cons]
      dsimp only
      omega
  · next behind e =>
    cases h
    have next_ := bytes_next e
    refine ⟨List.nodup_singleton key, fun m mem => List.mem_singleton.mp mem ▸ ⟨fresh, first⟩, ?_⟩
    simp only [List.map_cons, List.map_nil, List.sum_cons, List.sum_nil]
    omega
  · cases h

theorem reads (n : Nat) : Reads n := by
  induction n with
  | zero =>
    constructor
    · intro cs v rest h
      rw [parseValue] at h
      cases h
    · intro cs items rest h
      rw [parseItems] at h
      cases h
    · intro seen cs members rest h
      rw [parseMembers] at h
      cases h
  | succ n ih => exact ⟨reads_value ih, reads_items ih, reads_members ih⟩

theorem parseDocument_reads {data : List Char} (h : parseDocument data = .ok v) :
    Readable v ∧ bytes (chars v) ≤ bytes data := by
  rw [parseDocument] at h
  obtain ⟨⟨value, left⟩, read, h⟩ := bind_eq_ok.mp h
  obtain ⟨readable, text⟩ := (reads _).value read
  dsimp only at h
  split at h
  · cases h
    exact ⟨readable, by omega⟩
  · cases h

theorem parseStrict_reads (h : parseStrict d = .ok v) : Readable v ∧ bytes (chars v) ≤ d.utf8ByteSize := by
  obtain ⟨-, -, read⟩ := bind_eq_ok.mp h
  rw [← bytes_toList]
  exact parseDocument_reads read

theorem parseStrict_generic {c : String} (read : parseStrict d = .ok v) (ok : canonicalValue v = .ok c) :
    Generic v ∧ c = canonicalText v := by
  have g := (parseStrict_reads read).1 c ok
  exact ⟨g, Except.ok.inj (ok.symm.trans (canonicalValue_eq g))⟩

theorem canonicalText_size (v : Json) : (canonicalText v).utf8ByteSize = bytes (chars v) := by
  rw [← bytes_toList, canonicalText, String.toList_ofList, bytes_normal]

/-! ## The normal form -/

/-- Objects are maps, here listed in some order, and values are compared by `Reordered`. -/
theorem canonical_normal_form :
    (∀ v, Generic v → ∃ t w, canonicalValue v = .ok t ∧ parseStrict t = .ok w ∧ Reordered v w) ∧
    (∀ v w t, Generic v → Generic w → canonicalValue v = .ok t → canonicalValue w = .ok t → Reordered v w) ∧
    (∀ v w, Generic v → Reordered v w → canonicalValue w = canonicalValue v) ∧
    (∀ d v c, parseStrict d = .ok v → canonicalValue v = .ok c →
      ∃ w, parseStrict c = .ok w ∧ canonicalValue w = .ok c ∧ c.utf8ByteSize ≤ d.utf8ByteSize) := by
  refine ⟨?_, ?_, ?_, ?_⟩
  · intro v g
    exact ⟨canonicalText v, normal v, canonicalValue_eq g, parseStrict_canonicalText g, reordered_normal v⟩
  · intro v w t g g' ok ok'
    rw [canonicalValue_eq g] at ok
    rw [canonicalValue_eq g'] at ok'
    exact reordered_of_canonicalText g g' (Except.ok.inj (ok.trans ok'.symm))
  · intro v w g order
    rw [canonicalValue_eq (order.normal_eq g).1, canonicalValue_eq g, canonicalText_reordered order g]
  · intro d v c read ok
    obtain ⟨g, rfl⟩ := parseStrict_generic read ok
    refine ⟨normal v, parseStrict_canonicalText g, ?_, ?_⟩
    · rw [canonicalValue_eq (generic_normal g).1, canonicalText_normal g]
    · rw [canonicalText_size]
      exact (parseStrict_reads read).2

/-- At a document with space, an escape and members out of order. -/
theorem document_normal_form : ∃ w, parseStrict "\x7b\"a\":null,\"b\":[-12,\"\\n\"]\x7d" = .ok w ∧
      canonicalValue w = .ok "\x7b\"a\":null,\"b\":[-12,\"\\n\"]\x7d" ∧
      "\x7b\"a\":null,\"b\":[-12,\"\\n\"]\x7d".utf8ByteSize ≤
        "\x7b \"b\": [-12, \"\\u000a\"], \"a\": null\x7d".utf8ByteSize := by
  have text : (parseStrict "\x7b \"b\": [-12, \"\\u000a\"], \"a\": null\x7d").map canonicalValue =
      .ok (.ok "\x7b\"a\":null,\"b\":[-12,\"\\n\"]\x7d") := by decide +kernel
  obtain ⟨v, read, ok⟩ := map_eq_ok.mp text
  exact canonical_normal_form.2.2.2 _ v _ read ok

end Agentnet.Canonical
