import Agentnet.Capability.Token

/-! Every spelling of a token that is accepted is of the one token of its grant. -/

namespace Agentnet.Capability

open Lib Canonical Signing

/-! ## Members -/

section Members

variable {gen : List (String × Json)} {key : String}

variable {s : String}

theorem textMember_ok {msg : String} : textMember gen key msg = .ok s ↔ gen.lookup key = some (.str s) := by
  rw [textMember]
  cases gen.lookup key with
  | none => simp
  | some v => cases v <;> simp

theorem timeMember_ok {t : Time} : timeMember gen key = .ok t ↔
    ∃ w, InYears w ∧ t = parseWireTime w ∧ gen.lookup key = some (.str (timeText t)) := by
  have whole : ∀ w, timeText (parseWireTime w) = wireTimeText w := by
    intro w
    rw [timeText, wireTime, parseWireTime, Int.mul_ediv_cancel _ (by decide)]
  rw [timeMember]
  constructor
  · intro h
    split at h
    · next s at_ =>
      split at h
      · next w read =>
        cases h
        obtain ⟨years, text⟩ := parseTime_eq_some read
        exact ⟨w, years, rfl, by rw [at_, whole, text]⟩
      · cases h
    · cases h
  · rintro ⟨w, years, rfl, at_⟩
    rw [at_, whole]
    dsimp only
    rw [parseTime_text years]

/-- Only the integer 1 is a version. -/
theorem versionMember_ok : versionMember gen = .ok 1 ↔ gen.lookup "v" = some (.num (.int 1)) := by
  rw [versionMember]
  constructor
  · intro h
    split at h
    · next n at_ =>
      rw [at_]
      cases n with
      | int i =>
        simp only [Number.int64?] at h
        split at h
        · next v range =>
          split at range
          · cases range
            cases h
            rfl
          · cases range
        · cases h
      | negZero => exact absurd (Except.ok.inj h) (by decide)
      | other text => cases h
    · cases h
  · intro at_
    rw [at_]
    rfl

theorem scopeMember_ok : scopeMember gen = .ok s ↔ gen.lookup "scope" = if s = "" then none else some (.str s) := by
  rw [scopeMember]
  cases gen.lookup "scope" with
  | none =>
    by_cases empty : s = ""
    · simp [empty]
    · simp [empty, Ne.symm empty]
  | some v =>
    cases v with
    | null | bool | num | arr | obj => by_cases empty : s = "" <;> simp [empty]
    | str t =>
      by_cases empty : t = ""
      · by_cases empty' : s = "" <;> simp_all
      · by_cases empty' : s = "" <;> simp_all

theorem sensitiveMember_ok {b : Bool} : sensitiveMember gen = .ok b ↔ gen.lookup "sensitive" = some (.bool b) := by
  rw [sensitiveMember]
  cases gen.lookup "sensitive" with
  | none => simp
  | some v => cases v <;> simp

end Members

/-! ## Grants and generic objects -/

/-- The kinds that there are, a branch for `git` only. -/
def Resource.Sound (r : Resource) : Prop := r.kind = "fs" ∧ r.branch = "" ∨ r.kind = "git"

/-- What `verify` leaves no other spelling for. -/
structure Grant.Sound (g : Grant) : Prop where
  v : g.v = 1
  resource : g.resource.Sound
  nbf : ∃ w, InYears w ∧ g.nbf = parseWireTime w
  exp : ∃ w, InYears w ∧ g.exp = parseWireTime w

theorem resourceFields_distinct (r : Resource) : ((resourceFields r).map Prod.fst).Nodup := by
  rw [resourceFields]
  split
  · have names : (List.map Prod.fst ([("kind", Json.str r.kind),
        ("label", .str r.label)] ++ [("branch", .str r.branch)])) = ["kind", "label", "branch"] := rfl
    rw [names]
    decide
  · have names : (List.map Prod.fst ([("kind", Json.str r.kind), ("label", .str r.label)] ++ [])) = ["kind",
        "label"] := rfl
    rw [names]
    decide

theorem grantFields_distinct (g : Grant) : ((grantFields g).map Prod.fst).Nodup := by
  have names : (grantFields g).map Prod.fst = ["v", "id", "iss", "aud", "session", "action", "resource", "nbf",
      "exp", "sensitive"] ++ if g.scope = "" then [] else ["scope"] := by
    rw [grantFields]
    split <;> rfl
  rw [names]
  split <;> decide

variable {r : Resource} {gen : List (String × Json)} {g : Grant} {sig : String}

/-- A resource is read exactly from its own members. -/
theorem decodeResource_iff {res : List (String × Json)} (distinct : (res.map Prod.fst).Nodup) :
    decodeResource res = .ok r ↔ SameMembers res (resourceFields r) ∧ r.Sound := by
  constructor
  · intro h
    rw [decodeResource, bind_eq_ok] at h
    obtain ⟨kind, hasKind, h⟩ := h
    rw [textMember_ok] at hasKind
    split at h
    · next fs =>
      simp only [bind_eq_ok, require_eq_ok, textMember_ok] at h
      obtain ⟨_, two, label, hasLabel, e⟩ := h
      cases e
      refine ⟨sameMembers_of_lookup distinct (resourceFields_distinct _) ?_ ?_, .inl ⟨fs, rfl⟩⟩
      · simp [resourceFields, fs, two]
      · simp only [resourceFields, fs, List.forall_mem_cons, List.cons_append, List.nil_append]
        rw [fs] at hasKind
        refine ⟨⟨_, hasKind, .refl _⟩, ⟨_, hasLabel, .refl _⟩, ?_⟩
        simp
    · split at h
      · next git =>
        simp only [bind_eq_ok, require_eq_ok, textMember_ok] at h
        obtain ⟨_, three, label, hasLabel, branch, hasBranch, e⟩ := h
        cases e
        refine ⟨sameMembers_of_lookup distinct (resourceFields_distinct _) ?_ ?_, .inr git⟩
        · simp [resourceFields, git, three]
        · simp only [resourceFields, git, if_true, List.forall_mem_cons, List.cons_append, List.nil_append]
          rw [git] at hasKind
          exact ⟨⟨_, hasKind, .refl _⟩, ⟨_, hasLabel, .refl _⟩, ⟨_, hasBranch, .refl _⟩,
            fun _ none_ => (by cases none_)⟩
      · cases h
  · rintro ⟨same, sound⟩
    have same := same.symm
    have distinct' := resourceFields_distinct r
    obtain ⟨kind, label, branch⟩ := r
    have size := same.length
    have hasKind := same.lookup_str distinct' (k := "kind") rfl
    have hasLabel := same.lookup_str distinct' (k := "label") rfl
    rw [decodeResource, bind_eq_ok]
    refine ⟨kind, textMember_ok.mpr hasKind, ?_⟩
    obtain ⟨rfl, rfl⟩ | rfl := sound
    · rw [if_pos rfl]
      simp only [bind_eq_ok, require_eq_ok, textMember_ok]
      exact ⟨(), size, label, hasLabel, rfl⟩
    · have hasBranch := same.lookup_str distinct' (k := "branch") (s := branch) rfl
      rw [if_neg (by decide), if_pos rfl]
      simp only [bind_eq_ok, require_eq_ok, textMember_ok]
      exact ⟨(), size, label, hasLabel, branch, hasBranch, rfl⟩

theorem resourceMember_ok :
    resourceMember gen = .ok r ↔ ∃ res, gen.lookup "resource" = some (.obj res) ∧ decodeResource res = .ok r := by
  rw [resourceMember]
  cases gen.lookup "resource" with
  | none => simp
  | some v => cases v <;> simp

theorem grantFields_length (g : Grant) : (grantFields g).length = if g.scope = "" then 10 else 11 := by
  rw [grantFields]
  split <;> rfl

/-- What `decodeGrant` reads is all that the object holds. -/
theorem decodeGrant_same (generic : Generic (.obj gen)) (h : decodeGrant gen = .ok g)
    (one : g.v = 1) : SameMembers gen (grantFields g) ∧ g.Sound := by
  have parts := genericMembers_iff.mp generic.2
  simp only [decodeGrant, bind_eq_ok, require_eq_ok, textMember_ok, timeMember_ok, scopeMember_ok, sensitiveMember_ok,
    resourceMember_ok] at h
  obtain ⟨_, count, v, hasV, id, hasId, iss, hasIss, aud, hasAud, session, hasSession, action, hasAction, scope,
    hasScope, sensitive, hasSensitive, nbf, ⟨w, years, nbf_, hasNbf⟩, exp, ⟨w', years', exp_, hasExp⟩, resource,
    ⟨res, hasResource, decoded⟩, e⟩ := h
  cases e
  cases one
  have genericRes : Generic (.obj res) := parts _ ((lookup_iff generic.1).mp hasResource)
  obtain ⟨same, sound⟩ := (decodeResource_iff genericRes.1).mp decoded
  refine ⟨sameMembers_of_lookup generic.1 (grantFields_distinct _) ?_ ?_, rfl, sound, ⟨w, years, nbf_⟩,
    ⟨w', years', exp_⟩⟩
  · rw [count, grantFields_length, hasScope]
    dsimp only
    by_cases empty : scope = ""
    · simp [empty]
    · simp [empty]
  · intro f mem
    simp only [grantFields, List.mem_append, List.mem_cons, List.not_mem_nil, or_false] at mem
    obtain (rfl | rfl | rfl | rfl | rfl | rfl | rfl | rfl | rfl | rfl) | mem := mem
    · exact ⟨_, versionMember_ok.mp hasV, .refl _⟩
    · exact ⟨_, hasId, .refl _⟩
    · exact ⟨_, hasIss, .refl _⟩
    · exact ⟨_, hasAud, .refl _⟩
    · exact ⟨_, hasSession, .refl _⟩
    · exact ⟨_, hasAction, .refl _⟩
    · exact ⟨_, hasResource, same.reordered⟩
    · exact ⟨_, hasNbf, .refl _⟩
    · exact ⟨_, hasExp, .refl _⟩
    · exact ⟨_, hasSensitive, .refl _⟩
    · split at mem
      · cases mem
      · next present =>
        rw [List.mem_singleton.mp mem]
        rw [if_neg present] at hasScope
        exact ⟨_, hasScope, .refl _⟩

theorem decodeGrant_of_same (same : SameMembers (grantFields g) gen) (sound : g.Sound) : decodeGrant gen = .ok g := by
  have distinct := grantFields_distinct g
  have scope : gen.lookup "scope" = if g.scope = "" then none else some (.str g.scope) := by
    by_cases empty : g.scope = ""
    · rw [if_pos empty]
      refine same.lookup_none ?_
      simp [grantFields, empty, List.lookup_cons]
    · rw [if_neg empty]
      refine same.lookup_str distinct ?_
      simp [grantFields, empty, List.lookup_cons]
  obtain ⟨w, hasResource, alike⟩ := same.lookup_some (k := "resource") distinct rfl
  obtain ⟨res, rfl, same'⟩ := alike.like
  have distinct' : (res.map Prod.fst).Nodup := same'.names.nodup_iff.mp (resourceFields_distinct g.resource)
  have hasSensitive : gen.lookup "sensitive" = some (.bool g.sensitive) := by
    obtain ⟨w, at_, alike⟩ := same.lookup_some (k := "sensitive") distinct rfl
    rw [at_, alike.like]
  obtain ⟨nbf, years, nbf_⟩ := sound.nbf
  obtain ⟨exp, years', exp_⟩ := sound.exp
  have count : gen.length = if (gen.lookup "scope").isSome then 11 else 10 := by
    rw [same.length, grantFields_length, scope]
    by_cases empty : g.scope = "" <;> simp [empty]
  have one : versionMember gen = .ok g.v := by
    rw [sound.v]
    exact versionMember_ok.mpr (same.lookup_num distinct rfl)
  simp only [decodeGrant, bind_eq_ok, require_eq_ok, textMember_ok, timeMember_ok, scopeMember_ok,
    sensitiveMember_ok, resourceMember_ok]
  exact ⟨(), count, g.v, one, g.id, same.lookup_str distinct rfl, g.iss, same.lookup_str distinct rfl, g.aud,
    same.lookup_str distinct rfl, g.session, same.lookup_str distinct rfl, g.action,
    same.lookup_str distinct rfl, g.scope, scope, g.sensitive, hasSensitive, g.nbf,
    ⟨nbf, years, nbf_, same.lookup_str distinct rfl⟩, g.exp,
    ⟨exp, years', exp_, same.lookup_str distinct rfl⟩, g.resource,
    ⟨res, hasResource, (decodeResource_iff distinct').mpr ⟨same'.symm, sound.resource⟩⟩, rfl⟩

/-! ## Tokens -/

theorem generic_grantMap (g : Grant) : Generic (grantMap g) := by
  have within : -maxSafeInt < 1 ∧ 1 < maxSafeInt := by decide
  have resource : Generic (.obj (resourceFields g.resource)) := by
    refine ⟨resourceFields_distinct _, genericMembers_iff.mpr fun m mem => ?_⟩
    simp only [resourceFields, List.mem_append, List.mem_cons, List.not_mem_nil, or_false] at mem
    obtain (rfl | rfl) | mem := mem
    · trivial
    · trivial
    · split at mem
      · rw [List.mem_singleton.mp mem]
        trivial
      · cases mem
  refine ⟨grantFields_distinct g, genericMembers_iff.mpr fun m mem => ?_⟩
  simp only [grantFields, List.mem_append, List.mem_cons, List.not_mem_nil, or_false] at mem
  obtain (rfl | rfl | rfl | rfl | rfl | rfl | rfl | rfl | rfl | rfl) | mem := mem
  · exact within
  · trivial
  · trivial
  · trivial
  · trivial
  · trivial
  · exact resource
  · trivial
  · trivial
  · trivial
  · split at mem
    · cases mem
    · rw [List.mem_singleton.mp mem]
      trivial

theorem tokenFields_distinct (v w : Json) : ([("grant", v), ("sig", w)].map Prod.fst).Nodup := by
  have names : [("grant", v), ("sig", w)].map Prod.fst = ["grant", "sig"] := rfl
  rw [names]
  decide

theorem generic_tokenValue (t : Token) : Generic (tokenValue t) := by
  refine ⟨tokenFields_distinct _ _, genericMembers_iff.mpr ?_⟩
  simp only [List.forall_mem_cons]
  exact ⟨generic_grantMap t.grant, trivial, fun _ none_ => (by cases none_)⟩

theorem tokenMembers_ok {doc : Json} : tokenMembers doc = .ok (gen, sig) ↔
    ∃ top, doc = .obj top ∧ top.length = 2 ∧ top.lookup "grant" = some (.obj gen) ∧
    top.lookup "sig" = some (.str sig) := by
  cases doc with
  | null | bool | num | str | arr => simp [tokenMembers]
  | obj top =>
    simp only [tokenMembers]
    constructor
    · intro h
      split at h
      · cases h
      next two =>
      split at h
      · next gen' grant =>
        split at h
        · next sig' sig_ =>
          cases h
          exact ⟨top, rfl, not_not.mp two, grant, sig_⟩
        · cases h
      · cases h
    · rintro ⟨top', e, two, grant, sig_⟩
      cases e
      rw [if_neg (not_not.mpr two), grant, sig_]

theorem parseToken_ok {raw : ByteArray} {tok : Token} : parseToken raw = .ok (gen, tok) ↔
    ∃ text top, raw = text.toUTF8 ∧ parseStrict text = .ok (.obj top) ∧ top.length = 2 ∧
    top.lookup "grant" = some (.obj gen) ∧
      top.lookup "sig" = some (.str tok.sig) ∧ decodeGrant gen = .ok tok.grant := by
  rw [parseToken]
  constructor
  · intro h
    split at h
    · cases h
    next text encoded =>
    simp only [bind_eq_ok, mapError_eq_ok] at h
    obtain ⟨doc, read, ⟨gen', sig⟩, members, g, decoded, e⟩ := h
    cases e
    obtain ⟨top, rfl, two, grant, sig_⟩ := tokenMembers_ok.mp members
    exact ⟨text, top, fromUTF8?_iff.mp encoded, read, two, grant, sig_, decoded⟩
  · rintro ⟨text, top, encoded, read, two, grant, sig_, decoded⟩
    rw [fromUTF8?_iff.mpr encoded]
    simp only [bind_eq_ok, mapError_eq_ok]
    exact ⟨_, read, (gen, tok.sig), tokenMembers_ok.mpr ⟨top, rfl, two, grant, sig_⟩, tok.grant, decoded, rfl⟩

theorem generic_of_grant {text : String} {top : List (String × Json)} {canon : String}
    (read : parseStrict text = .ok (.obj top)) (two : top.length = 2) (grant : top.lookup "grant" = some (.obj gen))
    (sig_ : top.lookup "sig" = some (.str sig)) (ok : canonicalValue (.obj gen) = .ok canon) :
    Generic (.obj top) ∧ Generic (.obj gen) := by
  have perm := two_members (by decide) two grant sig_
  have whole : ∃ t, canonicalValue (.obj top) = .ok t := by
    refine canonicalValue_object.mpr fun m mem => ?_
    obtain rfl | rfl : m = ("grant", .obj gen) ∨ m = ("sig", .str sig) := by simpa using perm.mem_iff.mp mem
    · exact ⟨canon, ok⟩
    · exact ⟨_, rfl⟩
  obtain ⟨t, ok'⟩ := whole
  have generic := (parseStrict_reads read).1 t ok'
  exact ⟨generic, genericMembers_iff.mp generic.2 _ (perm.mem_iff.mpr List.mem_cons_self)⟩

section Verify

variable (ed : Ed25519) (hidden : Char → Bool)

def SignedBy (g : Grant) (sig : String) : Prop :=
  ∃ key bytes, decodeString g.iss = some key ∧ key.length = 32 ∧ isBase64url 86 sig = true ∧
  decodeString sig = some bytes ∧
    bytes.length = 64 ∧ ed.verify key (domain ++ canonicalText (grantMap g)) bytes = true

structure Accepted (p : VerifyParams) (g : Grant) (sig : String) : Prop where
  formats : checkFormats hidden g = .ok ()
  issuer : checkIssuer p g = .ok ()
  signed : SignedBy ed g sig
  audience : g.aud = expectedAud p
  notBefore : g.nbf ≤ p.now + 10 * minute
  notAfter : p.now < g.exp
  session : checkSession p g = .ok ()
  kind : checkActionKind g = .ok ()

structure Spells (raw : ByteArray) (g : Grant) (sig : String) where
  text : String
  top : List (String × Json)
  gen : List (String × Json)
  encoded : raw = text.toUTF8
  read : parseStrict text = .ok (.obj top)
  two : top.length = 2
  grant : top.lookup "grant" = some (.obj gen)
  sig_ : top.lookup "sig" = some (.str sig)
  generic : Generic (.obj top)
  same : SameMembers gen (grantFields g)

variable {ed hidden} {p : VerifyParams} {raw : ByteArray} {g : Grant}

variable {sig : String} {tok : Token} {g : Grant}

theorem Spells.generic_gen (h : Spells raw g sig) : Generic (.obj h.gen) :=
  genericMembers_iff.mp h.generic.2 _ ((lookup_iff h.generic.1).mp h.grant)

theorem checkSignature_ok {gen : List (String × Json)} : checkSignature ed gen tok = .ok () ↔
    ∃ key bytes canon, decodeString tok.grant.iss = some key ∧ key.length = 32 ∧ isBase64url 86 tok.sig = true ∧
      decodeString tok.sig = some bytes ∧ bytes.length = 64 ∧ canonicalValue (.obj gen) = .ok canon ∧
      ed.verify key (domain ++ canon) bytes = true := by
  rw [checkSignature]
  constructor
  · intro h
    split at h
    · cases h
    next key keyed =>
    obtain ⟨_, spelled, h⟩ := bind_eq_ok.mp h
    split at h
    · cases h
    next bytes decoded =>
    simp only [bind_eq_ok, mapError_eq_ok, require_eq_ok] at h spelled
    obtain ⟨canon, ok, verified⟩ := h
    obtain ⟨keyed, size⟩ := Option.filter_eq_some_iff.mp keyed
    obtain ⟨decoded, size'⟩ := Option.filter_eq_some_iff.mp decoded
    exact ⟨key, bytes, canon, keyed, of_decide_eq_true size, spelled, decoded, of_decide_eq_true size', ok, verified⟩
  · rintro ⟨key, bytes, canon, keyed, size, spelled, decoded, size', ok, verified⟩
    rw [Option.filter_eq_some_iff.mpr ⟨keyed, decide_eq_true size⟩]
    refine bind_eq_ok.mpr ⟨(), require_eq_ok.mpr spelled, ?_⟩
    rw [Option.filter_eq_some_iff.mpr ⟨decoded, decide_eq_true size'⟩]
    simp only [bind_eq_ok, mapError_eq_ok, require_eq_ok]
    exact ⟨canon, ok, verified⟩

theorem version_one (h : checkFormats hidden g = .ok ()) : g.v = 1 := by
  rw [checkFormats, bind_eq_ok] at h
  obtain ⟨_, one, -⟩ := h
  exact require_eq_ok.mp one

/-- Exactly the tokens that `Verify` accepts. -/
theorem verify_iff : verify ed hidden p raw = .ok g ↔ raw.size ≤ maxTokenBytes ∧
    ∃ sig, Nonempty (Spells raw g sig) ∧ g.Sound ∧ Accepted ed hidden p g sig := by
  rw [verify]
  simp only [bind_eq_ok, require_eq_ok, mapError_eq_ok]
  constructor
  · rintro ⟨_, small, ⟨gen, tok⟩, parsed, _, formats, _, issuer, _, signature, _, audience, _, notBefore, _,
      notAfter, _, session, _, kind, e⟩
    cases e
    obtain ⟨text, top, encoded, read, two, grant, sig_, decoded⟩ := parseToken_ok.mp parsed
    obtain ⟨key, bytes, canon, keyed, size, spelled, decoded', size', ok, verified⟩ := checkSignature_ok.mp signature
    obtain ⟨generic, generic'⟩ := generic_of_grant read two grant sig_ ok
    obtain ⟨same, sound⟩ := decodeGrant_same generic' decoded (version_one formats)
    have text_ : canon = canonicalText (grantMap tok.grant) := by
      rw [grantMap, canonicalText_reordered same.reordered generic']
      exact Except.ok.inj (ok.symm.trans (canonicalValue_eq generic'))
    refine ⟨small, tok.sig, ⟨⟨text, top, gen, encoded, read, two, grant, sig_, generic, same⟩⟩,
      sound, formats, issuer, ⟨key, bytes, keyed, size, spelled, decoded', size', ?_⟩, audience, notBefore,
      notAfter, session, kind⟩
    rw [← text_]
    exact verified
  · rintro ⟨small, sig, ⟨h⟩, sound, accepted⟩
    have parsed : parseToken raw = .ok (h.gen, ⟨g, sig⟩) :=
      parseToken_ok.mpr ⟨h.text, h.top, h.encoded, h.read, h.two, h.grant, h.sig_,
        decodeGrant_of_same h.same.symm sound⟩
    obtain ⟨key, bytes, keyed, size, spelled, decoded, size', verified⟩ := accepted.signed
    rw [grantMap, canonicalText_reordered h.same.reordered h.generic_gen] at verified
    have signature : checkSignature ed h.gen ⟨g, sig⟩ = .ok () :=
      checkSignature_ok.mpr ⟨key, bytes, _, keyed, size, spelled, decoded, size',
        canonicalValue_eq h.generic_gen, verified⟩
    exact ⟨(), small, _, parsed, (), accepted.formats, (), accepted.issuer, (), signature, (), accepted.audience, (),
      accepted.notBefore, (), accepted.notAfter, (), accepted.session, (), accepted.kind, rfl⟩

/-! ## Signed grants -/

theorem isBase64url_encodeToString {bytes : Bytes} (size : bytes.length = 64) :
    isBase64url 86 (encodeToString bytes) = true := by
  have letters : ∀ n < 64, Request.isKeyChar (Char.ofNat (letter n).toNat) = true := by decide +kernel
  rw [isBase64url, length_encodeToString, size, Bool.and_eq_true, List.all_eq_true]
  refine ⟨rfl, fun c mem => ?_⟩
  obtain ⟨n, low, rfl⟩ := encodeToString_chars bytes c mem
  exact letters n low

theorem signTime_ok {t : Time} (h : signTime (parseWireTime (wireTime t)) = .ok ()) : InYears (wireTime t) := by
  have whole : timeText (parseWireTime (wireTime t)) = wireTimeText (wireTime t) := by
    rw [timeText, wireTime, parseWireTime, Int.mul_ediv_cancel _ (by decide)]
  rw [signTime, require_eq_ok, whole] at h
  obtain ⟨w, read⟩ := Option.isSome_iff_exists.mp h
  exact (parseTime_wireTimeText read).1

theorem resource_sound {r : Resource} (h : checkResource hidden r = .ok ()) : r.Sound := by
  rw [checkResource] at h
  split at h
  · next fs => exact .inl ⟨fs, require_eq_ok.mp h⟩
  · split at h
    · next git => exact .inr git
    · cases h

theorem checkFormats_resource (h : checkFormats hidden g = .ok ()) : g.resource.Sound := by
  simp only [checkFormats, bind_eq_ok] at h
  obtain ⟨_, -, _, -, _, -, _, -, _, -, _, -, _, -, _, -, _, resource, -⟩ := h
  exact resource_sound resource

/-- What `Sign` has checked of the grant in the token it returns. -/
theorem sign_ok {priv : Bytes} {grant : Grant} (made : ed.Generated priv) (h : sign ed hidden priv grant = .ok tok) :
    tok.grant = grant.truncate ∧ tok.grant.Sound ∧ checkFormats hidden tok.grant = .ok () ∧
    checkActionKind tok.grant = .ok () ∧
      SignedBy ed tok.grant tok.sig ∧ (canonicalText (tokenValue tok)).utf8ByteSize ≤ maxTokenBytes := by
  rw [sign] at h
  simp only [bind_eq_ok, require_eq_ok, mapError_eq_ok] at h
  obtain ⟨_, length, _, nbf, _, exp, _, formats, _, kind, _, iss, canon, ok, wire, written, _, small, e⟩ := h
  cases e
  have key : (publicKey priv).length = 32 := by
    rw [publicKey, List.length_drop, length]
  rw [canonicalValue_eq (generic_grantMap _)] at ok
  rw [canonical, canonicalValue_eq (generic_tokenValue _)] at written
  refine ⟨rfl, ⟨version_one formats, checkFormats_resource formats, ⟨_, signTime_ok nbf, rfl⟩,
    ⟨_, signTime_ok exp, rfl⟩⟩, formats, kind,
    ⟨publicKey priv, _, ?_, key, ?_, decodeString_encodeToString _, ed.sign_length _ _, ?_⟩, ?_⟩
  · rw [← iss]
    exact decodeString_encodeToString _
  · exact isBase64url_encodeToString (ed.sign_length _ _)
  · rw [← Except.ok.inj ok]
    exact ed.verify_sign priv _ made
  · rw [← Except.ok.inj written] at small
    exact small

theorem spells_canonical (tok : Token) :
    Nonempty (Spells (canonicalText (tokenValue tok)).toUTF8 tok.grant tok.sig) := by
  have g := generic_tokenValue tok
  obtain ⟨top, e, same⟩ := (reordered_normal (tokenValue tok)).like
  have distinct := tokenFields_distinct (grantMap tok.grant) (.str tok.sig)
  obtain ⟨w, grant, alike⟩ := same.lookup_some (k := "grant") distinct rfl
  obtain ⟨gen, rfl, same'⟩ := alike.like
  refine ⟨⟨_, top, gen, rfl, ?_, same.length, grant, same.lookup_str distinct rfl, ?_, same'.symm⟩⟩
  · rw [parseStrict_canonicalText g, e]
  · rw [← e]
    exact (generic_normal g).1

/-- What was read and what is written from it have one canonical text. -/
theorem Spells.canonical_eq (h : Spells raw g sig) :
    canonicalText (tokenValue ⟨g, sig⟩) = canonicalText (.obj h.top) := by
  have perm := two_members (by decide) h.two h.grant h.sig_
  have whole : Reordered (.obj h.top) (tokenValue ⟨g, sig⟩) :=
    (Reordered.members perm).trans (.member [] [("sig", .str sig)] "grant" h.same.reordered)
  exact canonicalText_reordered whole h.generic

end Verify

def RightParties (p : VerifyParams) (g : Grant) : Prop :=
  p.role = .holder ∧ p.self = g.aud ∧ p.counterparty = g.iss ∨ p.role = .grantor ∧ p.self = g.iss ∧
  p.counterparty = g.aud

/-- What `Sign` makes is verified to the grant; what `Verify` accepts, however it is spelled, is the token of the
grant that it returns. -/
theorem token_has_one_meaning (ed : Ed25519) (hidden : Char → Bool) :
    (∀ priv grant tok, ed.Generated priv → sign ed hidden priv grant = .ok tok →
      tok.grant = grant.truncate ∧ ∃ wire, canonical tok = .ok wire ∧ ∀ p f, RightParties p grant →
      p.sessionOpen = some f →
        f grant.session grant.iss grant.aud = (true, true) → tok.grant.nbf ≤ p.now + 10 * minute →
        p.now < tok.grant.exp →
        verify ed hidden p wire.toUTF8 = .ok grant.truncate) ∧
    (∀ p raw g, verify ed hidden p raw = .ok g →
      ∃ text doc gen sig canon, raw = text.toUTF8 ∧ parseStrict text = .ok doc ∧
      parseToken raw = .ok (gen, ⟨g, sig⟩) ∧ canonicalValue (.obj gen) = .ok canon ∧
      canonicalValue (grantMap g) = .ok canon ∧
      Reordered (.obj gen) (grantMap g) ∧ canonical ⟨g, sig⟩ = canonicalValue doc ∧
      ∃ key bytes, decodeString g.iss = some key ∧ decodeString sig = some bytes ∧
      ed.verify key (domain ++ canon) bytes = true) ∧
    (∀ p p' raw raw' g gen gen' sig text text' doc doc', verify ed hidden p raw = .ok g →
      verify ed hidden p' raw' = .ok g →
      parseToken raw = .ok (gen, ⟨g, sig⟩) → parseToken raw' = .ok (gen', ⟨g, sig⟩) → raw = text.toUTF8 →
      raw' = text'.toUTF8 →
      parseStrict text = .ok doc → parseStrict text' = .ok doc' →
      ∃ wire, canonicalValue doc = .ok wire ∧ canonicalValue doc' = .ok wire) := by
  have parts : ∀ p raw g, verify ed hidden p raw = .ok g →
      ∃ text doc gen sig, raw = text.toUTF8 ∧ parseStrict text = .ok doc ∧
      parseToken raw = .ok (gen, ⟨g, sig⟩) ∧ Generic (.obj gen) ∧ Reordered (.obj gen) (grantMap g) ∧
      canonicalValue doc = .ok (canonicalText (tokenValue ⟨g, sig⟩)) ∧ SignedBy ed g sig := by
    intro p raw g h
    obtain ⟨-, sig, ⟨s⟩, sound, accepted⟩ := verify_iff.mp h
    refine ⟨s.text, .obj s.top, s.gen, sig, s.encoded, s.read, ?_, s.generic_gen, s.same.reordered,
      ?_, accepted.signed⟩
    · exact parseToken_ok.mpr ⟨s.text, s.top, s.encoded, s.read, s.two, s.grant, s.sig_,
        decodeGrant_of_same s.same.symm sound⟩
    · rw [canonicalValue_eq s.generic, s.canonical_eq]
  refine ⟨?_, ?_, ?_⟩
  · intro priv grant tok made h
    obtain ⟨grant_, sound, formats, kind, signed, small⟩ := sign_ok made h
    refine ⟨grant_, _, canonicalValue_eq (generic_tokenValue tok),
      fun p f parties isOpen known notBefore notAfter => ?_⟩
    rw [← grant_]
    have same : tok.grant.iss = grant.iss ∧ tok.grant.aud = grant.aud ∧ tok.grant.session = grant.session := by
      rw [grant_]
      exact ⟨rfl, rfl, rfl⟩
    have size : (canonicalText (tokenValue tok)).toUTF8.size ≤ maxTokenBytes := String.size_toByteArray.le.trans small
    refine verify_iff.mpr ⟨size, tok.sig, spells_canonical tok, sound, formats, ?_, signed, ?_, notBefore,
      notAfter, ?_, kind⟩
    · obtain ⟨role, self, other⟩ | ⟨role, self, other⟩ := parties
      · simp [checkIssuer, expectedIss, role, same, other]
      · simp [checkIssuer, expectedIss, role, same, self]
    · obtain ⟨role, self, other⟩ | ⟨role, self, other⟩ := parties
      · simp [expectedAud, role, same, self]
      · simp [expectedAud, role, same, other]
    · simp [checkSession, isOpen, same, known, bind_eq_ok]
  · intro p raw g h
    obtain ⟨text, doc, gen, sig, encoded, read, parsed, generic, reordered, whole, key, bytes, keyed, -, -,
      decoded, -, verified⟩ :=
      parts p raw g h
    refine ⟨text, doc, gen, sig, _, encoded, read, parsed, ?_, canonicalValue_eq (generic_grantMap g),
      reordered, ?_, key, bytes, keyed, decoded, verified⟩
    · rw [canonicalValue_eq generic, canonicalText_reordered reordered generic]
    · rw [whole, canonical, canonicalValue_eq (generic_tokenValue _)]
  · intro p p' raw raw' g gen gen' sig text text' doc doc' h h' parsed parsed' encoded encoded' read read'
    have one : ∀ p raw gen text doc, verify ed hidden p raw = .ok g → parseToken raw = .ok (gen, ⟨g, sig⟩) →
        raw = text.toUTF8 →
        parseStrict text = .ok doc → canonicalValue doc = .ok (canonicalText (tokenValue ⟨g, sig⟩)) := by
      intro p raw gen text doc h parsed encoded read
      obtain ⟨text', doc', gen', sig', encoded', read', parsed', -, -, whole, -⟩ := parts p raw g h
      have sig_ : sig' = sig := by
        rw [parsed] at parsed'
        exact congrArg (fun x => x.2.sig) (Except.ok.inj parsed'.symm)
      have text_ : text' = text :=
        Option.some.inj ((fromUTF8?_iff.mpr encoded').symm.trans (fromUTF8?_iff.mpr encoded))
      subst sig_ text_
      rw [read] at read'
      rw [Except.ok.inj read', whole]
    exact ⟨_, one p raw gen text doc h parsed encoded read, one p' raw' gen' text' doc' h' parsed' encoded' read'⟩

/-- A grant for one file. -/
def sampleGrant : Grant where
  v := 1
  id := "g-00112233445566778899aabbccddeeff"
  iss := encodeToString (List.replicate 32 0)
  aud := encodeToString (List.replicate 32 1)
  session := "s-00112233445566778899aabbccddeeff"
  action := "git.read"
  resource := ⟨"git", "src", "main"⟩
  scope := "docs/a"
  nbf := 1709251199 * second
  exp := 1709251199 * second + hour
  sensitive := true

def sampleParams : VerifyParams where
  role := .holder
  self := sampleGrant.aud
  counterparty := sampleGrant.iss
  now := 1709251199 * second + minute
  sessionOpen := some fun _ _ _ => (true, true)

def sampleToken : Token :=
  ⟨sampleGrant,
    encodeToString (sampleScheme.sign (List.replicate 64 0) (domain ++ canonicalText (grantMap sampleGrant)))⟩

theorem sampleGrant_has_one_meaning :
    ∃ tok wire canon, sign sampleScheme (fun _ => false) (List.replicate 64 0) sampleGrant = .ok tok ∧
    canonical tok = .ok wire ∧ verify sampleScheme (fun _ => false) sampleParams wire.toUTF8 = .ok sampleGrant ∧
    canonicalValue (grantMap sampleGrant) = .ok canon := by
  have whole : sampleGrant.truncate = sampleGrant := by decide +kernel
  have formats : checkFormats (fun _ => false) sampleGrant = .ok () := by decide +kernel
  have times : signTime sampleGrant.nbf = .ok () ∧ signTime sampleGrant.exp = .ok () := by decide +kernel
  have fits : (canonicalText (tokenValue sampleToken)).utf8ByteSize ≤ maxTokenBytes := by
    rw [← bytes_toList, canonicalText, String.toList_ofList, bytes_normal]
    decide +kernel
  obtain ⟨tok, signed⟩ : ∃ tok, sign sampleScheme (fun _ => false) (List.replicate 64 0) sampleGrant = .ok tok := by
    refine ⟨sampleToken, ?_⟩
    rw [sign, whole]
    simp only [bind_eq_ok, require_eq_ok, mapError_eq_ok]
    exact ⟨(), rfl, (), times.1, (), times.2, (), formats, (), rfl, (), rfl, _,
      canonicalValue_eq (generic_grantMap _), _, canonicalValue_eq (generic_tokenValue _), (), fits, rfl⟩
  obtain ⟨made, there, -⟩ := token_has_one_meaning sampleScheme fun _ => false
  have generated : sampleScheme.Generated (List.replicate 64 0) := List.length_replicate
  obtain ⟨grant_, wire, written, verified⟩ := made _ sampleGrant tok generated signed
  rw [whole] at grant_ verified
  have ok := verified sampleParams _ (.inl ⟨rfl, rfl, rfl⟩) rfl rfl (by rw [grant_]; decide) (by rw [grant_]; decide)
  obtain ⟨-, -, -, -, canon, -, -, -, -, same, -⟩ := there _ _ _ ok
  exact ⟨tok, wire, canon, signed, written, ok, same⟩

end Agentnet.Capability
