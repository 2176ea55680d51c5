import Mathlib.Algebra.Order.BigOperators.Group.List
import Agentnet.AgentCard.Card

/-! A verified card is the one that was signed, also in its stored form. -/

namespace Agentnet.AgentCard

open Lib Canonical Signing

/-! ## Cards and generic objects -/

variable {members card : List (String × Json)} {s field : String} {i : Nat} {items : List Json}
  {skills : List Skill} {c : Card} {legacy : Bool}

theorem stringMember_ok {name : String} :
    stringMember members name = .ok s ↔ members.lookup name = some (.str s) := by
  rw [stringMember]
  cases members.lookup name with
  | none => simp
  | some v => cases v <;> simp

theorem skillFields_distinct (s : Skill) : ((skillFields s).map Prod.fst).Nodup := by
  have names : (skillFields s).map Prod.fst = ["id", "name", "description"] := rfl
  rw [names]
  decide

theorem skillFromGeneric_reordered {v : Json} {s : Skill} (h : skillFromGeneric i v = .ok s) (g : Generic v) :
    Reordered v (.obj (skillFields s)) := by
  cases v with
  | null | bool | num | str | arr => cases h
  | obj members =>
    simp only [skillFromGeneric, bind_eq_ok, require_eq_ok, mapError_eq_ok, stringMember_ok] at h
    obtain ⟨-, three, id, hasId, name, hasName, description, hasDescription, e⟩ := h
    cases e
    refine (sameMembers_of_lookup g.1 (skillFields_distinct _) three.le ?_).reordered
    simp only [skillFields, List.forall_mem_cons]
    exact ⟨⟨_, hasId, .refl _⟩, ⟨_, hasName, .refl _⟩, ⟨_, hasDescription, .refl _⟩, fun _ none_ => (by cases none_)⟩

theorem skillFromGeneric_of_same (i : Nat) {s : Skill} (h : SameMembers (skillFields s) members) :
    skillFromGeneric i (.obj members) = .ok s := by
  have distinct := skillFields_distinct s
  simp only [skillFromGeneric, bind_eq_ok, require_eq_ok, mapError_eq_ok, stringMember_ok]
  exact ⟨(), h.length, s.id, h.lookup_str distinct rfl, s.name, h.lookup_str distinct rfl, s.description,
    h.lookup_str distinct rfl, rfl⟩

theorem skillsFromGeneric_reordered (h : skillsFromGeneric i items = .ok skills) (g : ∀ x ∈ items, Generic x) :
    List.Forall₂ Reordered items (skills.map fun s => .obj (skillFields s)) := by
  induction items generalizing i skills with
  | nil =>
    cases h
    exact .nil
  | cons v rest ih =>
    simp only [skillsFromGeneric, bind_eq_ok] at h
    obtain ⟨s, first, more, rest_, e⟩ := h
    cases e
    exact .cons (skillFromGeneric_reordered first (g v List.mem_cons_self))
      (ih rest_ fun x mem => g x (List.mem_cons_of_mem v mem))

theorem skillsFromGeneric_of_same (i : Nat)
    (h : List.Forall₂ Reordered (skills.map fun s => .obj (skillFields s)) items) :
    skillsFromGeneric i items = .ok skills := by
  induction skills generalizing i items with
  | nil =>
    cases h
    rfl
  | cons s skills ih =>
    cases h with
    | @cons _ v _ rest first more =>
      obtain ⟨members, rfl, same⟩ := first.like
      simp only [skillsFromGeneric, bind_eq_ok]
      exact ⟨s, skillFromGeneric_of_same i same, skills, ih (i + 1) more, rfl⟩

theorem cardFields_distinct (c : Card) : ((cardFields c).map Prod.fst).Nodup := by
  have names : (cardFields c).map Prod.fst = cardMembers := rfl
  rw [names]
  decide

theorem hasMembers_ok {names : List String} :
    hasMembers members names = .ok () ↔ ∀ name ∈ names, (members.lookup name).isSome := by
  induction names with
  | nil => exact ⟨fun _ _ none_ => (by cases none_), fun _ => rfl⟩
  | cons name names ih =>
    rw [hasMembers, bind_eq_ok, List.forall_mem_cons, ← ih]
    exact ⟨fun ⟨_, first, rest⟩ => ⟨require_eq_ok.mp first, rest⟩,
      fun ⟨first, rest⟩ => ⟨(), require_eq_ok.mpr first, rest⟩⟩

theorem skillsMember_ok {found : Option Json} :
    skillsMember found = .ok items ↔ found = some (.arr items) ∧ items.length ≤ maxSkills := by
  cases found with
  | none => exact ⟨fun h => (by cases h), fun h => (by cases h.1)⟩
  | some v =>
    cases v with
    | null | bool | num | str | obj => exact ⟨fun h => (by cases h), fun h => (by cases h.1)⟩
    | arr found =>
      simp only [skillsMember, bind_eq_ok, require_eq_ok]
      constructor
      · rintro ⟨-, few, e⟩
        cases e
        exact ⟨rfl, few⟩
      · rintro ⟨e, few⟩
        cases e
        exact ⟨(), few, rfl⟩

/-- What `cardFromGeneric` reads is all that the object holds. -/
theorem cardFromGeneric_same (h : cardFromGeneric card = .ok c) (g : Generic (.obj card)) :
    SameMembers card (cardFields c) := by
  simp only [cardFromGeneric, bind_eq_ok, require_eq_ok, stringMember_ok, skillsMember_ok] at h
  obtain ⟨-, six, -, -, -, version, name, hasName, key, hasKey, harness, hasHarness, created, hasCreated,
    items, ⟨hasSkills, -⟩, skills, read, e⟩ := h
  cases e
  have parts := genericItems_iff.mp (genericMembers_iff.mp g.2 _ ((lookup_iff g.1).mp hasSkills))
  have one : card.lookup "version" = some (.num (.int 1)) := by
    split at version
    · assumption
    · cases version
  refine sameMembers_of_lookup g.1 (cardFields_distinct _) six.le ?_
  simp only [cardFields, List.forall_mem_cons]
  exact ⟨⟨_, one, .refl _⟩, ⟨_, hasName, .refl _⟩, ⟨_, hasKey, .refl _⟩, ⟨_, hasHarness, .refl _⟩,
    ⟨_, hasSkills, reordered_array (skillsFromGeneric_reordered read parts)⟩, ⟨_, hasCreated, .refl _⟩,
    fun _ none_ => (by cases none_)⟩

theorem cardFromGeneric_of_same (h : SameMembers (cardFields c) card)
    (one : c.version = 1) (some_ : c.skills = some skills) (few : skills.length ≤ maxSkills) :
    cardFromGeneric card = .ok c := by
  have distinct := cardFields_distinct c
  obtain ⟨version, name, key, harness, _, created⟩ := c
  cases one
  cases some_
  obtain ⟨w, hasSkills, alike⟩ := h.lookup_some (k := "skills") distinct rfl
  obtain ⟨items, rfl, same⟩ := alike.like
  have count : items.length ≤ maxSkills := by
    have size := same.length_eq
    rw [List.length_map] at size
    exact size ▸ few
  have present : ∀ name ∈ cardMembers, (card.lookup name).isSome := by
    intro name mem
    by_contra absent
    have none_ := h.symm.lookup_none (Option.not_isSome_iff_eq_none.mp absent)
    exact lookup_none_iff.mp none_ mem
  have first : card.lookup "version" = some (.num (.int 1)) := h.lookup_num distinct rfl
  simp only [cardFromGeneric, bind_eq_ok, require_eq_ok, stringMember_ok, skillsMember_ok]
  exact ⟨(), h.length, (), hasMembers_ok.mpr present, (), by rw [first]; rfl, name, h.lookup_str distinct rfl, key,
    h.lookup_str distinct rfl, harness, h.lookup_str distinct rfl, created, h.lookup_str distinct rfl, items,
    ⟨hasSkills, count⟩, skills, skillsFromGeneric_of_same 0 same, rfl⟩

/-! ## Validated cards -/

theorem validate_ok (h : c.validate legacy = .ok ()) :
    c.version = 1 ∧ ∃ skills, c.skills = some skills ∧ skills.length ≤ maxSkills := by
  simp only [Card.validate, bind_eq_ok, require_eq_ok] at h
  obtain ⟨_, one, _, -, _, -, _, -, _, skills, -⟩ := h
  refine ⟨one, ?_⟩
  cases e : c.skills with
  | none =>
    rw [e] at skills
    cases skills
  | some list =>
    rw [e, checkSkills, bind_eq_ok] at skills
    obtain ⟨_, few, -⟩ := skills
    exact ⟨list, rfl, require_eq_ok.mp few⟩

theorem checkRunes_legacy {cs : List Char} (h : checkRunes field false cs = .ok ()) :
    checkRunes field true cs = .ok () := by
  induction cs with
  | nil => rfl
  | cons c cs ih =>
    rw [checkRunes] at h ⊢
    split at h
    · cases h
    split at h
    · cases h
    · next plain _ =>
      rw [if_neg plain, if_neg (by simp)]
      exact ih h

theorem checkText_legacy {required : Bool} (h : checkText field s required false = .ok ()) :
    checkText field s required true = .ok () := by
  simp only [checkText, bind_eq_ok] at h ⊢
  obtain ⟨_, present, _, short, runes⟩ := h
  exact ⟨_, present, _, short, checkRunes_legacy runes⟩

theorem checkSkillTexts_legacy (h : checkSkillTexts false i skills = .ok ()) :
    checkSkillTexts true i skills = .ok () := by
  induction skills generalizing i with
  | nil => rfl
  | cons s skills ih =>
    simp only [checkSkillTexts, bind_eq_ok] at h ⊢
    obtain ⟨_, id, _, name, _, description, rest⟩ := h
    exact ⟨_, checkText_legacy id, _, checkText_legacy name, _, checkText_legacy description, ih rest⟩

theorem checkSkills_legacy {skills : Option (List Skill)} (h : checkSkills false skills = .ok ()) :
    checkSkills true skills = .ok () := by
  cases skills with
  | none => cases h
  | some skills =>
    simp only [checkSkills, bind_eq_ok] at h ⊢
    obtain ⟨_, few, texts⟩ := h
    exact ⟨_, few, checkSkillTexts_legacy texts⟩

theorem validate_legacy (h : c.validate legacy = .ok ()) : c.validate true = .ok () := by
  cases legacy with
  | true => exact h
  | false =>
    simp only [Card.validate, bind_eq_ok] at h ⊢
    obtain ⟨_, version, _, name, _, harness, _, key, _, skills, created⟩ := h
    exact ⟨_, version, _, checkText_legacy name, _, checkText_legacy harness, _, key, _,
      checkSkills_legacy skills, created⟩

theorem generic_cardValue (h : c.validate legacy = .ok ()) : Generic (cardValue c) := by
  obtain ⟨one, skills, some_, -⟩ := validate_ok h
  refine ⟨cardFields_distinct c, genericMembers_iff.mpr ?_⟩
  simp only [cardFields, List.forall_mem_cons, one, some_, skillsValue]
  have within : -maxSafeInt < 1 ∧ 1 < maxSafeInt := by decide
  refine ⟨within, trivial, trivial, trivial, genericItems_iff.mpr ?_, trivial, fun _ none_ => (by cases none_)⟩
  intro v mem
  obtain ⟨s, -, rfl⟩ := List.mem_map.mp mem
  refine ⟨skillFields_distinct s, genericMembers_iff.mpr ?_⟩
  simp only [skillFields, List.forall_mem_cons]
  exact ⟨trivial, trivial, trivial, fun _ none_ => (by cases none_)⟩

theorem canonicalBytes_eq {v : Json} (g : Generic v) : canonicalBytes v = .ok (canonicalText v) := by
  rw [canonicalBytes, canonicalValue_eq g]
  rfl

/-- Signing never fails on a card without floats. -/
theorem canonical_eq (g : Generic (cardValue c)) : canonical c = .ok (canonicalText (cardValue c)) := by
  rw [canonical, parseStrict_marshal g]
  exact canonicalBytes_eq g

/-! ## Genuine cards -/

section Verify

variable (ed : Ed25519)

/-- The card is valid, and its signature is one of its key over its canonical form. -/
structure Genuine (legacy : Bool) (s : Signed) : Prop where
  valid : s.card.validate legacy = .ok ()
  signed : ∃ pub sig canon, decodeStrict s.card.publicKey 32 = some pub ∧ decodeStrict s.signature 64 = some sig ∧
    canonical s.card = .ok canon ∧ ed.verify pub (domain ++ canon) sig = true

variable {ed} {legacy : Bool} {s : Signed}

/-- What passes as new passes as stored. -/
theorem Genuine.stored (h : Genuine ed legacy s) : Genuine ed true s := ⟨validate_legacy h.valid, h.signed⟩

variable {card : List (String × Json)} {sig : String} {data : ByteArray}

/-- Exactly what passes, given the members of the card and the signature. -/
theorem verifyCard_iff (g : Generic (.obj card)) :
    verifyCard ed legacy card sig = .ok s ↔
      s.signature = sig ∧ SameMembers card (cardFields s.card) ∧ Genuine ed legacy s := by
  rw [verifyCard, canonicalBytes_eq g]
  constructor
  · intro h
    split at h
    · cases h
    next pub keyed =>
    split at h
    · cases h
    next bytes decoded =>
    simp only [ok_bind, bind_eq_ok, require_eq_ok, mapError_eq_ok] at h
    obtain ⟨_, verified, c, read, _, valid, e⟩ := h
    cases e
    have same := cardFromGeneric_same read g
    have key := same.symm.lookup_str (cardFields_distinct c) (k := "public_key") rfl
    rw [key] at keyed
    refine ⟨rfl, same, valid, pub, bytes, _, keyed, decoded, canonical_eq (generic_cardValue valid), ?_⟩
    rw [← canonicalText_reordered same.reordered g] at verified
    exact verified
  · rintro ⟨rfl, same, valid, pub, bytes, canon, keyed, decoded, canon_, verified⟩
    have key := same.symm.lookup_str (cardFields_distinct s.card) (k := "public_key") rfl
    obtain ⟨one, skills, some_, few⟩ := validate_ok valid
    rw [canonical_eq (generic_cardValue valid)] at canon_
    rw [← Except.ok.inj canon_, cardValue, canonicalText_reordered same.reordered g] at verified
    simp only [key, keyed, decoded, ok_bind, bind_eq_ok, require_eq_ok, mapError_eq_ok]
    exact ⟨(), verified, s.card, cardFromGeneric_of_same same.symm one some_ few, (), valid, rfl⟩

/-- An envelope: a document with a card object and a signature among its members. -/
structure Holds (data : ByteArray) (card : List (String × Json)) (sig : String) where
  text : String
  top : List (String × Json)
  encoded : data = text.toUTF8
  read : parseStrict text = .ok (.obj top)
  generic : Generic (.obj top)
  card_ : top.lookup "card" = some (.obj card)
  sig_ : top.lookup "signature" = some (.str sig)

theorem parseBytes_ok {parse : String → Except Canonical.ParseError Json} {v : Json} :
    parseBytes parse data = .ok v ↔ ∃ text : String, data = text.toUTF8 ∧ parse text = .ok v := by
  rw [parseBytes]
  constructor
  · intro h
    split at h
    · cases h
    · next text found => exact ⟨text, fromUTF8?_iff.mp found, mapError_eq_ok.mp h⟩
  · rintro ⟨text, encoded, read⟩
    rw [fromUTF8?_iff.mpr encoded]
    exact mapError_eq_ok.mpr read

/-- Exactly what `Verify` accepts. -/
theorem verify_iff : verify ed legacy data = .ok s ↔ data.size ≤ maxCardBytes ∧
    ∃ card, Nonempty (Holds data card s.signature) ∧ SameMembers card (cardFields s.card) ∧ Genuine ed legacy s := by
  rw [verify]
  simp only [bind_eq_ok, require_eq_ok, mapError_eq_ok, parseBytes_ok]
  constructor
  · rintro ⟨-, small, doc, ⟨text, bytes, read⟩, c, ok, h⟩
    have generic := (parseStrict_generic read ok).1
    refine ⟨small, ?_⟩
    split at h
    · next top =>
      split at h
      · next card card_ =>
        split at h
        · next sig sig_ =>
          have g : Generic (.obj card) := genericMembers_iff.mp generic.2 _ ((lookup_iff generic.1).mp card_)
          obtain ⟨rfl, same, genuine⟩ := (verifyCard_iff g).mp h
          exact ⟨card, ⟨⟨text, top, bytes, read, generic, card_, sig_⟩⟩, same, genuine⟩
        · cases h
      · cases h
    · cases h
  · rintro ⟨small, card, ⟨text, top, bytes, read, generic, card_, sig_⟩, same, genuine⟩
    have g : Generic (.obj card) := genericMembers_iff.mp generic.2 _ ((lookup_iff generic.1).mp card_)
    refine ⟨(), small, .obj top, ⟨text, bytes, read⟩, _, canonicalValue_eq generic, ?_⟩
    simp only [card_, sig_]
    exact (verifyCard_iff g).mpr ⟨rfl, same, genuine⟩

/-! ## The stored form -/

/-- The envelope of a card. -/
def pairFields (card : List (String × Json)) (sig : String) : List (String × Json) :=
  [("card", .obj card), ("signature", .str sig)]

theorem pairFields_distinct (card : List (String × Json)) (sig : String) :
    ((pairFields card sig).map Prod.fst).Nodup := by
  have names : (pairFields card sig).map Prod.fst = ["card", "signature"] := rfl
  rw [names]
  decide

namespace Holds

variable {data : ByteArray} {card : List (String × Json)} {sig : String} (h : Holds data card sig)
include h

theorem subset : pairFields card sig ⊆ h.top := by
  intro m mem
  simp only [pairFields, List.mem_cons, List.not_mem_nil, or_false] at mem
  obtain rfl | rfl := mem
  · exact (lookup_iff h.generic.1).mp h.card_
  · exact (lookup_iff h.generic.1).mp h.sig_

theorem generic_pair : Generic (.obj (pairFields card sig)) :=
  ⟨pairFields_distinct card sig,
    genericMembers_iff.mpr fun m mem => genericMembers_iff.mp h.generic.2 m (h.subset mem)⟩

theorem storedPair_eq : storedPair (.obj h.top) = .ok (canonicalText (.obj (pairFields card sig))).toUTF8 := by
  rw [storedPair, h.card_, h.sig_]
  have text := canonicalValue_eq h.generic_pair
  rw [pairFields] at text
  dsimp only
  rw [text]
  rfl

theorem storedForm_eq : storedForm data = .ok (canonicalText (.obj (pairFields card sig))).toUTF8 := by
  rw [storedForm, parseBytes_ok.mpr ⟨h.text, h.encoded, h.read⟩]
  exact h.storedPair_eq

theorem stored_size : (canonicalText (.obj (pairFields card sig))).toUTF8.size ≤ data.size := by
  have fewer : bytes (chars (.obj (pairFields card sig))) ≤ bytes (chars (.obj h.top)) := by
    have distinct : (pairFields card sig).Nodup := .of_map _ (pairFields_distinct card sig)
    obtain ⟨kept, perm, sub⟩ := List.subperm_of_subset distinct h.subset
    have sums := (sub.map fun m => bytes (memberText chars m) + 1).sum_le_sum fun _ _ => Nat.zero_le _
    rw [bytes_object, bytes_object, ← (perm.map _).sum_nat]
    omega
  have most := (parseStrict_reads h.read).2
  have sizes : ∀ t : String, t.toUTF8.size = t.utf8ByteSize := fun t => String.size_toByteArray
  rw [h.encoded, sizes, sizes, canonicalText_size]
  exact fewer.trans most

/-- The text that `storedForm` writes holds the same members again. -/
theorem stored : ∃ card', SameMembers card card' ∧
    Nonempty (Holds (canonicalText (.obj (pairFields card sig))).toUTF8 card' sig) := by
  have g := h.generic_pair
  obtain ⟨top, e, same⟩ := (reordered_normal (.obj (pairFields card sig))).like
  have distinct := pairFields_distinct card sig
  obtain ⟨w, card_, alike⟩ := same.lookup_some (k := "card") distinct rfl
  obtain ⟨card', rfl, same'⟩ := alike.like
  refine ⟨card', same', ⟨⟨_, top, rfl, ?_, ?_, card_, same.lookup_str distinct rfl⟩⟩⟩
  · rw [parseStrict_canonicalText g, e]
  · rw [← e]
    exact (generic_normal g).1

end Holds

theorem storedForm_idempotent (h : Holds data card sig) :
    storedForm (canonicalText (.obj (pairFields card sig))).toUTF8 = .ok
      (canonicalText (.obj (pairFields card sig))).toUTF8 := by
  obtain ⟨card', same, ⟨h'⟩⟩ := h.stored
  have pairs : Reordered (.obj (pairFields card sig)) (.obj (pairFields card' sig)) :=
    .member [] [("signature", .str sig)] "card" same.reordered
  rw [h'.storedForm_eq, canonicalText_reordered pairs h.generic_pair]

theorem verify_storedForm (h : Holds data card s.signature)
    (small : data.size ≤ maxCardBytes) (same : SameMembers card (cardFields s.card)) (genuine : Genuine ed legacy s) :
    verify ed legacy (canonicalText (.obj (pairFields card s.signature))).toUTF8 = .ok s := by
  obtain ⟨card', same', holds⟩ := h.stored
  exact verify_iff.mpr ⟨h.stored_size.trans small, card', holds, same'.symm.trans same, genuine⟩

theorem rescueStored_eq (h : Holds data card s.signature)
    (small : data.size ≤ maxCardBytes) (same : SameMembers card (cardFields s.card)) (genuine : Genuine ed legacy s) :
    rescueStored ed data s.card.publicKey = .ok ((canonicalText (.obj (pairFields card s.signature))).toUTF8, s) := by
  have legacy_ : parseLegacy h.text = .ok (.obj h.top) := by
    obtain ⟨-, -, read⟩ := bind_eq_ok.mp h.read
    exact read
  rw [rescueStored, parseBytes_ok.mpr ⟨h.text, h.encoded, legacy_⟩, ok_bind, h.storedPair_eq, ok_bind,
    verify_storedForm h small same genuine.stored, ok_bind]
  exact bind_eq_ok.mpr ⟨(), require_eq_ok.mpr rfl, rfl⟩

/-! ## Signed cards -/

/-- What `Sign` makes of a card. -/
def signature (ed : Ed25519) (priv : Bytes) (c : Card) : Signed :=
  ⟨c, encodeToString (ed.sign priv (domain ++ canonicalText (cardValue c)))⟩

section Sign

variable {priv : Bytes} {c : Card} (made : ed.Generated priv) (valid : c.validate false = .ok ())
  (matching : c.publicKey = encodeToString (publicKey priv))
include made valid matching

theorem genuine_signature : Genuine ed false (signature ed priv c) := by
  have key : (publicKey priv).length = 32 := by
    rw [publicKey, List.length_drop, ed.key_length priv made]
  refine ⟨valid, publicKey priv, _, _, ?_, ?_, canonical_eq (generic_cardValue valid), ed.verify_sign priv _ made⟩
  · rw [signature, matching, ← key]
    exact decodeStrict_encodeToString _
  · rw [signature, ← ed.sign_length priv (domain ++ canonicalText (cardValue c))]
    exact decodeStrict_encodeToString _

theorem sign_eq : sign ed priv c = (checkSize (signature ed priv c)).map fun _ => signature ed priv c := by
  have valid_ : (c.validate false).mapError CardError.msg = .ok () := mapError_eq_ok.mpr valid
  rw [sign, require, if_pos (ed.key_length priv made), ok_bind, valid_, ok_bind, require, if_pos matching, ok_bind,
    canonical_eq (generic_cardValue valid), ok_bind, ← signature]
  dsimp only
  cases checkSize (signature ed priv c) <;> rfl

end Sign

theorem generic_signedValue (valid : s.card.validate legacy = .ok ()) : Generic (signedValue s) := by
  refine ⟨pairFields_distinct (cardFields s.card) s.signature, genericMembers_iff.mpr ?_⟩
  simp only [List.forall_mem_cons]
  exact ⟨generic_cardValue valid, trivial, fun _ none_ => (by cases none_)⟩

theorem verify_written {text : String} (small : text.utf8ByteSize ≤ maxCardBytes)
    (read : parseStrict text = .ok (signedValue s)) (genuine : Genuine ed legacy s) :
    verify ed legacy text.toUTF8 = .ok s := by
  have generic := generic_signedValue genuine.valid
  have size : text.toUTF8.size ≤ maxCardBytes := String.size_toByteArray.le.trans small
  refine verify_iff.mpr ⟨size, cardFields s.card, ⟨⟨text, _, rfl, read, generic, rfl, rfl⟩⟩, ?_, genuine⟩
  exact ⟨cardFields s.card, .refl _, List.forall₂_same.mpr fun m _ => .refl m⟩

end Verify

/-- What `Verify` and `VerifyStored` return is what was signed, and what `Sign` makes is verified. -/
theorem verified_card_is_signed (ed : Ed25519) : (∀ legacy data s, verify ed legacy data = .ok s →
      (∃ pub sig canon, decodeStrict s.card.publicKey 32 = some pub ∧ decodeStrict s.signature 64 = some sig ∧
        canonical s.card = .ok canon ∧ ed.verify pub (domain ++ canon) sig = true) ∧
      (∃ text top card, data = text.toUTF8 ∧ parseStrict text = .ok (.obj top) ∧
        top.lookup "card" = some (.obj card) ∧
        Reordered (.obj card) (cardValue s.card) ∧ top.lookup "signature" = some (.str s.signature)) ∧
      ∃ t, storedForm data = .ok t ∧ verify ed legacy t = .ok s ∧ storedForm t = .ok t ∧ t.size ≤ maxCardBytes ∧
        rescueStored ed data s.card.publicKey = .ok (t, s)) ∧
    (∀ priv c, ed.Generated priv → c.validate false = .ok () → c.publicKey = encodeToString (publicKey priv) →
      ∃ s, s.card = c ∧ sign ed priv c = (checkSize s).map (fun _ => s) ∧
        (sign ed priv c = .ok s → verify ed false (marshal (signedValue s)).toUTF8 = .ok s ∧
          verify ed false (marshalIndent (signedValue s)).toUTF8 = .ok s)) := by
  constructor
  · intro legacy data s h
    obtain ⟨small, card, ⟨holds⟩, same, genuine⟩ := verify_iff.mp h
    refine ⟨genuine.signed, ?_, _, holds.storedForm_eq, verify_storedForm holds small same genuine,
      storedForm_idempotent holds, holds.stored_size.trans small, rescueStored_eq holds small same genuine⟩
    exact ⟨holds.text, holds.top, card, holds.encoded, holds.read, holds.card_, same.reordered, holds.sig_⟩
  · intro priv c made valid matching
    have genuine := genuine_signature made valid matching
    have signed := sign_eq made valid matching
    refine ⟨signature ed priv c, rfl, signed, fun ok => ?_⟩
    rw [signed] at ok
    obtain ⟨_, fits, -⟩ := map_eq_ok.mp ok
    have small : (marshalIndent (signedValue (signature ed priv c))).utf8ByteSize ≤ maxCardBytes :=
      require_eq_ok.mp fits
    have g := generic_signedValue genuine.valid
    exact ⟨verify_written ((marshal_size _).trans small) (parseStrict_marshal g) genuine,
      verify_written small (parseStrict_marshalIndent g) genuine⟩

def sampleCard : Card where
  version := 1
  name := "ant"
  publicKey := encodeToString (List.replicate 32 0)
  harness := "sh"
  skills := some [⟨"id", "<n>", ""⟩]
  created := "2024-02-29T23:59:59Z"

theorem sampleCard_verified : ∃ s data, s.card = sampleCard ∧ verify sampleScheme false data = .ok s ∧
    ∃ t, storedForm data = .ok t ∧ verify sampleScheme false t = .ok s := by
  have valid : sampleCard.validate false = .ok () := by decide +kernel
  have fits : checkSize (signature sampleScheme (List.replicate 64 0) sampleCard) = .ok () := by
    refine require_eq_ok.mpr ?_
    rw [← bytes_toList, marshalIndent, String.toList_ofList]
    decide +kernel
  have key : sampleCard.publicKey = encodeToString (publicKey (List.replicate 64 0)) := rfl
  have length : (List.replicate 64 (0 : UInt8)).length = 64 := rfl
  have made : sign sampleScheme (List.replicate 64 0) sampleCard =
      .ok (signature sampleScheme (List.replicate 64 0) sampleCard) := by
    rw [sign_eq length valid key, fits]
    rfl
  obtain ⟨s, card_, signed, verified⟩ := (verified_card_is_signed sampleScheme).2 _ sampleCard length valid key
  rw [signed] at made verified
  obtain ⟨_, _, same⟩ := map_eq_ok.mp made
  have ok := (verified (made.trans (congrArg _ same.symm))).1
  obtain ⟨-, -, t, stored, again, -⟩ := (verified_card_is_signed sampleScheme).1 false _ s ok
  exact ⟨s, _, card_, ok, t, stored, again⟩

end Agentnet.AgentCard
