import Agentnet.AgentCard.Verified
import Agentnet.Envelope

/-! `internal/mail`: sealing a mail, sealing it again to another mailbox key, and the first ten checks of
its receiver. -/

namespace Agentnet.Sealing

open Lib Canonical Signing
open AgentCard (CardError parseBytes parseBytes_ok)

/-- The members of an object, in their order. -/
abbrev JsonObject := List (String × Json)

def maxMailPlaintext : Nat := 716800
def keyIDLen : Nat := 8
def encLen : Nat := 32
def tagLen : Nat := 16
def minPayload : Nat := 1 + keyIDLen + encLen + tagLen
def maxPayload : Nat := minPayload + maxMailPlaintext
def payloadVersion : UInt8 := 1
def msgTag : String := "dorylinae-mail-v1\n"
def maxFrameBytes : Nat := 1048576

/-- What is taken as given of HPKE over X25519 and of SHA-256. Sealing draws random bytes, and does not fail
for the public half of a key. -/
structure Hpke where
  Priv : Type
  pub : Priv → Bytes
  sum256 : Bytes → Bytes
  encrypt : (rand mailboxPub info aad : Bytes) → ByteArray → Option (Bytes × Bytes)
  decrypt : Priv → (enc ct info aad : Bytes) → Option ByteArray
  pub_length : ∀ k, (pub k).length = 32
  sum_length : ∀ b, (sum256 b).length = 32
  encrypt_length : ∀ {rand p info aad plain enc ct}, encrypt rand p info aad plain = some (enc, ct) →
    enc.length = encLen ∧ ct.length = plain.size + tagLen
  encrypt_pub : ∀ rand k info aad plain, (encrypt rand (pub k) info aad plain).isSome = true
  decrypt_encrypt : ∀ {rand k info aad plain enc ct}, encrypt rand (pub k) info aad plain = some (enc, ct) →
    decrypt k enc ct info aad = some plain

/-! ## Messages -/

/-- `created` is a whole second on the wire. -/
structure Msg where
  v : Int
  id : String
  fromKey : String
  toKey : String
  created : WireTime
  kind : String
  body : JsonObject

/-- The members that are signed. -/
def Msg.members (m : Msg) : JsonObject :=
  [("v", .num (.int m.v)), ("id", .str m.id), ("from", .str m.fromKey), ("to", .str m.toKey),
    ("created", .str (wireTimeText m.created)), ("kind", .str m.kind), ("body", .obj m.body)]

def signedMembers (msg : JsonObject) (sig : String) : JsonObject := [("msg", .obj msg), ("sig", .str sig)]

/-- `^m-[0-9a-f]{32}$`. -/
def validID (s : String) : Bool :=
  match s.toList with
  | 'm' :: '-' :: rest => rest.length == 32 && rest.all isLowerHex
  | _ => false

def isKindChar (c : Char) : Bool := ('a' ≤ c && c ≤ 'z') || ('0' ≤ c && c ≤ '9') || c == '.' || c == '_' || c == '-'

/-- `kindPattern`. -/
def validKind (s : String) : Bool := 1 ≤ s.length && s.length ≤ 64 && s.toList.all isKindChar

def decodeKey (s : String) : Option Bytes :=
  (decodeString s).filter fun raw => (textBytes s).length = 43 ∧ raw.length = 32

/-! ## Sealing -/

/-- The Go value of a body, by what `json.Marshal` makes of it. -/
inductive Body where
  | nil
  | value (marshalled : Except String ByteArray)

def Body.marshal : Body → Except String ByteArray
  | .nil => .ok (Canonical.marshal (.obj [])).toUTF8
  | .value marshalled => marshalled

/-- The parameters of `Seal`. -/
structure SealInput where
  priv : Bytes
  toKey : String
  mailboxPub : Bytes
  id : String
  kind : String
  body : Body
  created : Time

/-- What `Seal` returns. -/
structure Sealed where
  id : String
  keyID : Bytes
  signed : ByteArray
  payload : Bytes

inductive SealError where
  | text (s : String)
  | body (e : CardError)
  | stored (e : CardError)
  | hpke

variable (ed : Ed25519) (h : Hpke)

def keyIDOf (pub : Bytes) : Bytes := (h.sum256 pub).take keyIDLen

def buildInfo (fromKey toKey : String) (kid : Bytes) : Bytes :=
  textBytes (msgTag ++ fromKey ++ "\n" ++ toKey ++ "\n") ++ kid

/-- A signed plaintext is encrypted and framed. -/
def sealPlain (rand : Bytes) (fromKey toKey id : String) (plain : ByteArray) (mailboxPub : Bytes) :
    Except SealError Sealed := do
  require (mailboxPub.length = encLen) (.text "mail: mailbox public key must be 32 bytes")
  let kid := keyIDOf h mailboxPub
  match h.encrypt rand mailboxPub (buildInfo fromKey toKey kid) (textBytes id) plain with
  | none => .error .hpke
  | some (enc, ct) => .ok ⟨id, kid, plain, payloadVersion :: (kid ++ (enc ++ ct))⟩

def bodyObject : Json → Except SealError JsonObject
  | .obj body => .ok body
  | _ => .error (.text "mail: body must be a JSON object")

def overLimit (plain : String) : SealError :=
  .text ("mail: plaintext is " ++ toString plain.utf8ByteSize ++ " bytes, over the " ++
    toString maxMailPlaintext ++ " limit")

/-- `Seal`. -/
def sealMsg (rand : Bytes) (inp : SealInput) : Except SealError Sealed := do
  require (inp.priv.length = 64) (.text "mail: bad identity private key")
  require (inp.mailboxPub.length = encLen) (.text "mail: mailbox public key must be 32 bytes")
  require (validKind inp.kind = true) (.text "mail: kind must be 1-64 characters from [a-z0-9._-]")
  require ((decodeKey inp.toKey).isSome = true) (.text "mail: bad recipient key: not a base64url Ed25519 public key")
  let fromKey := encodeToString (publicKey inp.priv)
  let rawBody ← inp.body.marshal.mapError fun e => .text ("mail: marshal body: " ++ e)
  let genBody ← (parseBytes parseStrict rawBody).mapError .body
  let body ← bodyObject genBody
  let msg : Msg := ⟨1, inp.id, fromKey, inp.toKey, wireTime inp.created, inp.kind, body⟩
  let canonMsg ← (canonicalValue (.obj msg.members)).mapError fun e => .text ("mail: canonicalize msg: " ++ e)
  let sig := ed.sign inp.priv (msgTag ++ canonMsg)
  let plain ← (canonicalValue (.obj (signedMembers msg.members (encodeToString sig)))).mapError fun e =>
    .text ("mail: canonicalize signed: " ++ e)
  require (plain.utf8ByteSize ≤ maxMailPlaintext) (overLimit plain)
  sealPlain h rand fromKey inp.toKey inp.id plain.toUTF8 inp.mailboxPub

/-- The input with the id drawn for it. -/
def withID (fresh : String) (inp : SealInput) : SealInput := if inp.id = "" then { inp with id := fresh } else inp

/-- `Seal`, with what `NewID` gives. -/
def sealMail (rand : Bytes) (fresh : String) (inp : SealInput) : Except SealError Sealed := do
  require (validID (withID fresh inp).id = true) (.text "mail: bad id format")
  sealMsg ed h rand (withID fresh inp)

/-! ## Reading -/

/-- A plaintext is an object of `msg` and `sig`. -/
def signedParts : Json → Except String (JsonObject × Bytes)
  | .obj top =>
    if top.length ≠ 2 then .error "plaintext must be an object with exactly msg and sig"
    else
      match top.lookup "msg" with
      | some (.obj gen) =>
        match top.lookup "sig" with
        | some (.str sigStr) =>
          match (decodeString sigStr).filter fun sig => sig.length = 64 with
          | some sig => .ok (gen, sig)
          | none => .error "sig must be 64 bytes, base64url without padding"
        | _ => .error "missing sig"
      | _ => .error "missing msg object"
  | _ => .error "plaintext must be an object with exactly msg and sig"

def versionMember (gen : JsonObject) : Except String Int :=
  match gen.lookup "v" with
  | some (.num n) =>
    match n.int64? with
    | some v => .ok v
    | none => .error "v must be an integer"
  | _ => .error "v must be an integer"

def stringMember (gen : JsonObject) (k : String) : Except String String :=
  match gen.lookup k with
  | some (.str s) => .ok s
  | _ => .error (k ++ " must be a string")

def createdMember (gen : JsonObject) : Except String WireTime :=
  match gen.lookup "created" with
  | some (.str s) =>
    match parseTime s with
    | some t => .ok t
    | none => .error "created: must be RFC 3339 UTC with Z and whole seconds"
  | _ => .error "created: must be a string"

def bodyMember (gen : JsonObject) : Except String JsonObject :=
  match gen.lookup "body" with
  | some (.obj body) => .ok body
  | _ => .error "body must be an object"

/-- The typed message of `parseSigned`. The source reads the four texts in any order. -/
def readMsg (gen : JsonObject) : Except String Msg := do
  require (gen.length = 7) "msg must have exactly v, id, from, to, created, kind, body"
  let v ← versionMember gen
  let id ← stringMember gen "id"
  let fromKey ← stringMember gen "from"
  let toKey ← stringMember gen "to"
  let kind ← stringMember gen "kind"
  let created ← createdMember gen
  require (validKind kind = true) "bad kind"
  let body ← bodyMember gen
  let _ ← canonicalValue (.obj gen)
  return ⟨v, id, fromKey, toKey, created, kind, body⟩

/-- The members, the message and the signature of a plaintext. -/
def parseSigned (plain : ByteArray) : Except CardError (JsonObject × Msg × Bytes) := do
  let doc ← parseBytes parseStrict plain
  let parts ← (signedParts doc).mapError .msg
  let msg ← (readMsg parts.1).mapError .msg
  return (parts.1, msg, parts.2)

/-- `Reseal`: the signed plaintext for another mailbox key. -/
def reseal (rand : Bytes) (signed : ByteArray) (fromKey toKey : String) (mailboxPub : Bytes) :
    Except SealError Sealed := do
  require (signed.size ≤ maxMailPlaintext) (.text "mail: plaintext is over the size limit")
  let parsed ← (parseSigned signed).mapError .stored
  require (parsed.2.1.fromKey = fromKey ∧
    parsed.2.1.toKey = toKey) (.text "mail: stored plaintext is not from/to these keys")
  sealPlain h rand fromKey toKey parsed.2.1.id signed mailboxPub

/-! ## Opening -/

inductive Reason where
  | unpaired | malformed | keyMiss | decrypt | senderMismatch | badSignature | wrongRecipient | idMismatch
  deriving DecidableEq

structure RejectError where
  step : Nat
  reason : Reason
  err : Option CardError := none

structure Opener where
  self : String
  isPaired : String → Bool
  mailboxKey : Bytes → Option h.Priv

structure Opened where
  msg : Msg
  signed : ByteArray
  keyID : Bytes

/-- A lookup that must succeed. -/
def found {α : Type} (e : RejectError) : Option α → Except RejectError α
  | some a => .ok a
  | none => .error e

variable {h}

/-- Steps 1 to 4 of `openCore`: the key id and the plaintext. -/
def openPayload (o : Opener h) (env : Envelope.Envelope) : Except RejectError (Bytes × ByteArray) := do
  require (o.isPaired env.header.fromKey = true) ⟨1, .unpaired, none⟩
  let p := env.payload.getD []
  require (minPayload ≤ p.length ∧ p.length ≤ maxPayload ∧ p.head? = some payloadVersion)
    ⟨2, .malformed, some (.msg "bad payload length or version")⟩
  let kid := (p.drop 1).take keyIDLen
  let priv ← found ⟨3, .keyMiss, none⟩ (o.mailboxKey kid)
  let plain ← found ⟨4, .decrypt,
      none⟩ (h.decrypt priv ((p.drop (1 + keyIDLen)).take encLen) (p.drop (1 + keyIDLen + encLen))
    (buildInfo env.header.fromKey env.header.toKey kid) (textBytes env.header.id))
  return (kid, plain)

/-- `openCore`: steps 1 to 10. -/
def openCore (o : Opener h) (env : Envelope.Envelope) (validID : String → Bool) : Except RejectError Opened := do
  let (kid, plain) ← openPayload o env
  let (gen, msg, sig) ← (parseSigned plain).mapError fun e => ⟨5, .malformed, some e⟩
  require (msg.fromKey = env.header.fromKey) ⟨6, .senderMismatch, none⟩
  let fromKey ← found ⟨7, .badSignature, some (.msg "not a base64url Ed25519 public key")⟩ (decodeKey msg.fromKey)
  let canonMsg ← (canonicalValue (.obj gen)).mapError fun e => ⟨7, .badSignature, some (.msg e)⟩
  require (ed.verify fromKey (msgTag ++ canonMsg) sig = true) ⟨7, .badSignature, none⟩
  require (msg.toKey = o.self) ⟨8, .wrongRecipient, none⟩
  require (msg.id = env.header.id ∧ validID msg.id = true) ⟨9, .idMismatch, none⟩
  require (msg.v = 1) ⟨10, .malformed, some (.msg ("unsupported v " ++ toString msg.v))⟩
  return ⟨msg, plain, kid⟩

/-! ## Frames -/

def stdAlphabet : Bytes :=
  "ABCDEFGHIJKLMNOPQRSTUVWXYZabcdefghijklmnopqrstuvwxyz0123456789+/".toList.map fun c => UInt8.ofNat c.toNat

/-- `base64.StdEncoding`, with its padding. -/
def stdText (s : Bytes) : String :=
  asciiText (Base64.encode (fun n => stdAlphabet.getD n 0) s ++ List.replicate ((3 - s.length % 3) % 3) 61)

def frameJson (e : Envelope.Envelope) : Json :=
  .obj [("from", .str e.header.fromKey), ("to", .str e.header.toKey), ("team", .str e.header.team),
    ("type", .str e.header.type), ("id", .str e.header.id), ("ts", .str e.header.ts),
    ("payload", .str (stdText (e.payload.getD [])))]

inductive FrameError where
  | invalid (e : FieldError)
  | large (size : Nat)

/-- `Envelope.Marshal`. -/
def marshalFrame (lib : Envelope.Library) (e : Envelope.Envelope) : Except FrameError String := do
  (e.validate lib).mapError .invalid
  let raw := marshal (frameJson e)
  require (raw.utf8ByteSize ≤ maxFrameBytes) (.large raw.utf8ByteSize)
  return raw

/-- The envelope of `buildFrame`. -/
def mailEnvelope (priv : Bytes) (toKey : String) (s : Sealed) (now : Time) : Envelope.Envelope where
  header := {
    fromKey := encodeToString (publicKey priv), toKey, type := "mail", id := s.id, ts := wireTimeText (wireTime now) }
  payload := some s.payload

/-! ## Messages and their objects -/

section Reading

variable {gen : JsonObject} {m : Msg} {sig : Bytes} {plain : ByteArray}

theorem decodeKey_public {priv : Bytes} (length : priv.length = 64) :
    decodeKey (encodeToString (publicKey priv)) = some (publicKey priv) := by
  have short : (publicKey priv).length = 32 := by
    rw [publicKey, List.length_drop, length]
  rw [decodeKey, decodeString_encodeToString, textBytes_encodeToString, Option.filter_some,
    Base64.length_encode, short]
  rfl

theorem Msg.distinct (m : Msg) : (m.members.map Prod.fst).Nodup := by
  have names : m.members.map Prod.fst = ["v", "id", "from", "to", "created", "kind", "body"] := rfl
  rw [names]
  decide

theorem versionMember_ok {v : Int} :
    versionMember gen = .ok v ↔ ∃ n, gen.lookup "v" = some (.num n) ∧ n.int64? = some v := by
  grind [versionMember]

theorem stringMember_ok {k s : String} : stringMember gen k = .ok s ↔ gen.lookup k = some (.str s) := by
  grind [stringMember]

theorem createdMember_ok {t : WireTime} :
    createdMember gen = .ok t ↔ ∃ s, gen.lookup "created" = some (.str s) ∧ parseTime s = some t := by
  grind [createdMember]

theorem bodyMember_ok {body : JsonObject} : bodyMember gen = .ok body ↔ gen.lookup "body" = some (.obj body) := by
  grind [bodyMember]

theorem signedParts_ok {doc : Json} : signedParts doc = .ok (gen, sig) ↔ ∃ top s, doc = .obj top ∧ top.length = 2 ∧
    top.lookup "msg" = some (.obj gen) ∧ top.lookup "sig" = some (.str s) ∧ decodeString s = some sig ∧
    sig.length = 64 := by
  cases doc with
  | null | bool | num | str | arr => simp [signedParts]
  | obj top =>
    have whole : ∀ {o : Option Bytes}, o.filter (fun sig => decide (sig.length = 64)) = some sig ↔
        o = some sig ∧ sig.length = 64 := by
      simp [Option.filter_eq_some_iff]
    constructor
    · intro read
      simp only [signedParts] at read
      grind
    · rintro ⟨top, s, e, two, msg, sig_, decoded, length⟩
      cases e
      simp only [signedParts, msg, sig_, two, whole.mpr ⟨decoded, length⟩]
      rfl

theorem parseSigned_ok :
    parseSigned plain = .ok (gen, m, sig) ↔ ∃ text doc, plain = String.toUTF8 text ∧ parseStrict text = .ok doc ∧
    signedParts doc = .ok (gen, sig) ∧ readMsg gen = .ok m := by
  simp only [parseSigned, bind_eq_ok, mapError_eq_ok, parseBytes_ok]
  constructor
  · rintro ⟨doc, ⟨text, bytes, read⟩, ⟨gen', sig'⟩, parts, m', msg, e⟩
    cases e
    exact ⟨text, doc, bytes, read, parts, msg⟩
  · rintro ⟨text, doc, bytes, read, parts, msg⟩
    exact ⟨doc, ⟨text, bytes, read⟩, (gen, sig), parts, m, msg, rfl⟩

/-- What is read of an object is all that it holds. -/
theorem readMsg_same (read : readMsg gen = .ok m) (g : Generic (.obj gen)) : SameMembers gen m.members := by
  simp only [readMsg, bind_eq_ok, require_eq_ok, versionMember_ok, stringMember_ok, createdMember_ok,
    bodyMember_ok] at read
  obtain ⟨-, seven, v, ⟨n, hasV, whole⟩, id, hasID, fromKey, hasFrom, toKey, hasTo, kind, hasKind, created,
    ⟨s, hasCreated, time⟩, -, -, body, hasBody, -, -, e⟩ := read
  cases e
  have number : n = .int v := by
    have canon := genericMembers_iff.mp g.2 _ ((lookup_iff g.1).mp hasV)
    cases n with
    | int i => grind [Number.int64?]
    | negZero | other => exact canon.elim
  have text := (parseTime_eq_some time).2
  refine sameMembers_of_lookup g.1 (Msg.distinct _) seven.le ?_
  simp only [Msg.members, List.forall_mem_cons]
  exact ⟨⟨_, hasV, number ▸ .refl _⟩, ⟨_, hasID, .refl _⟩, ⟨_, hasFrom, .refl _⟩, ⟨_, hasTo, .refl _⟩,
    ⟨_, hasCreated, text ▸ .refl _⟩, ⟨_, hasKind, .refl _⟩, ⟨_, hasBody, .refl _⟩, fun _ none_ => (by cases none_)⟩

theorem readMsg_created (read : readMsg gen = .ok m) :
    InYears m.created ∧ ∃ t, canonicalValue (.obj gen) = .ok t := by
  simp only [readMsg, bind_eq_ok, createdMember_ok] at read
  obtain ⟨-, -, v, -, id, -, fromKey, -, toKey, -, kind, -, created, ⟨s, -, time⟩, -, -, body, -, t, canon, e⟩ := read
  cases e
  exact ⟨(parseTime_eq_some time).1, t, canon⟩

theorem parseSigned_generic (read : parseSigned plain = .ok (gen, m, sig)) : Generic (.obj gen) := by
  obtain ⟨text, doc, -, parsed, parts, msg⟩ := parseSigned_ok.mp read
  obtain ⟨top, s, rfl, two, msg_, sig_, -, -⟩ := signedParts_ok.mp parts
  obtain ⟨t, canon⟩ := (readMsg_created msg).2
  have perm := two_members (by decide) two msg_ sig_
  have whole : ∃ t, canonicalValue (.obj top) = .ok t := by
    refine canonicalValue_object.mpr fun x mem => ?_
    simp only [perm.mem_iff, List.mem_cons, List.not_mem_nil, or_false] at mem
    obtain rfl | rfl := mem
    · exact ⟨t, canon⟩
    · exact ⟨_, rfl⟩
  obtain ⟨_, ok⟩ := whole
  have g := (parseStrict_generic parsed ok).1
  exact genericMembers_iff.mp g.2 _ ((lookup_iff g.1).mp msg_)

theorem readMsg_of_same (same : SameMembers m.members gen) (one : m.v = 1) (kind : validKind m.kind = true)
    (years : InYears m.created) (canon : ∃ t, canonicalValue (.obj gen) = .ok t) :
    ∃ body, readMsg gen = .ok { m with body } ∧ Reordered (.obj m.body) (.obj body) := by
  have distinct := m.distinct
  obtain ⟨w, hasBody, alike⟩ := same.lookup_some (k := "body") distinct rfl
  obtain ⟨body, rfl, -⟩ := alike.like
  obtain ⟨t, canon⟩ := canon
  refine ⟨body, ?_, alike⟩
  simp only [readMsg, bind_eq_ok, require_eq_ok, versionMember_ok, stringMember_ok, createdMember_ok, bodyMember_ok]
  exact ⟨(), same.length, m.v, ⟨_, same.lookup_num distinct rfl, by rw [one]; rfl⟩, m.id,
    same.lookup_str distinct rfl, m.fromKey, same.lookup_str distinct rfl, m.toKey, same.lookup_str distinct rfl,
    m.kind, same.lookup_str distinct rfl, m.created, ⟨_, same.lookup_str distinct rfl, parseTime_text years⟩, (),
    kind, body, hasBody, t, canon, rfl⟩

end Reading

/-! ## Sealed mail -/

section Sealed

/-- A plaintext as `sealMsg` writes it. -/
structure Written (priv : Bytes) (m : Msg) (plain : String) : Prop where
  sender : m.fromKey = encodeToString (publicKey priv)
  length : priv.length = 64
  one : m.v = 1
  kind : validKind m.kind = true
  generic : Generic (.obj m.members)
  text : plain = canonicalText (.obj (signedMembers m.members
    (encodeToString (ed.sign priv (msgTag ++ canonicalText (.obj m.members))))))
  small : plain.utf8ByteSize ≤ maxMailPlaintext

theorem signedMembers_distinct (msg : JsonObject) (sig : String) : ((signedMembers msg sig).map Prod.fst).Nodup := by
  have names : (signedMembers msg sig).map Prod.fst = ["msg", "sig"] := rfl
  rw [names]
  decide

theorem generic_signed {msg : JsonObject} (g : Generic (.obj msg)) (sig : String) :
    Generic (.obj (signedMembers msg sig)) :=
  ⟨signedMembers_distinct msg sig, g, trivial, trivial⟩

variable {ed} {priv : Bytes} {m : Msg} {plain : String} {rand : Bytes} {mailboxPub : Bytes} {s : Sealed}

variable {sig : Bytes} {fromKey id toKey : String} {env : Envelope.Envelope} {body gen : JsonObject}

/-- What the receiver's parser makes of a signed text. -/
theorem signedParts_written {msg : JsonObject} (g : Generic (.obj msg)) (length : sig.length = 64) : ∃ doc gen,
    parseStrict (canonicalText (.obj (signedMembers msg (encodeToString sig)))) = .ok doc ∧
    signedParts doc = .ok (gen, sig) ∧ SameMembers msg gen := by
  have decoded := decodeString_encodeToString sig
  generalize encodeToString sig = text at decoded
  obtain ⟨top, normal_, same⟩ := (reordered_normal (.obj (signedMembers msg text))).like
  have distinct := signedMembers_distinct msg text
  obtain ⟨_, msg_, alike⟩ := same.lookup_some (k := "msg") distinct rfl
  obtain ⟨gen, rfl, members⟩ := alike.like
  have sig_ := same.lookup_str distinct (k := "sig") rfl
  exact ⟨_, gen, parseStrict_canonicalText (generic_signed g text),
    signedParts_ok.mpr ⟨top, text, normal_, same.length, msg_, sig_, decoded, length⟩, members⟩

/-- The plaintext is read back as the members that were signed. -/
theorem Written.read (w : Written ed priv m plain) : ∃ doc gen, parseStrict plain = .ok doc ∧
    signedParts doc = .ok (gen, ed.sign priv (msgTag ++ canonicalText (.obj m.members))) ∧
    SameMembers m.members gen := by
  rw [w.text]
  exact signedParts_written w.generic (ed.sign_length _ _)

/-- With a `created` that RFC 3339 can write, the whole message is read back. -/
theorem Written.parsed (w : Written ed priv m plain) (years : InYears m.created) :
    ∃ gen body, SameMembers m.members gen ∧ Reordered (.obj m.body) (.obj body) ∧
    parseSigned plain.toUTF8 = .ok (gen, { m with body },
      ed.sign priv (msgTag ++ canonicalText (.obj m.members))) := by
  obtain ⟨doc, gen, parsed, parts, same⟩ := w.read
  have g := (same.reordered.normal_eq w.generic).1
  obtain ⟨body, read, alike⟩ := readMsg_of_same same w.one w.kind years ⟨_, canonicalValue_eq g⟩
  exact ⟨gen, body, same, alike, parseSigned_ok.mpr ⟨plain, doc, rfl, parsed, parts, read⟩⟩

/-- Any other `created` is written and cannot be read. -/
theorem Written.unread (w : Written ed priv m plain) (years : ¬InYears m.created) :
    parseSigned plain.toUTF8 = .error (.msg "created: must be RFC 3339 UTC with Z and whole seconds") := by
  obtain ⟨doc, gen, parsed, parts, same⟩ := w.read
  have distinct := m.distinct
  have text (k : String) {t : String} (at_ : m.members.lookup k = some (.str t)) : stringMember gen k = .ok t :=
    stringMember_ok.mpr (same.lookup_str distinct at_)
  have version : versionMember gen = .ok m.v :=
    versionMember_ok.mpr ⟨_, same.lookup_num distinct rfl, by rw [w.one]; rfl⟩
  have created : createdMember gen = .error "created: must be RFC 3339 UTC with Z and whole seconds" := by
    have none_ : parseTime (wireTimeText m.created) = none := by
      cases time : parseTime (wireTimeText m.created) with
      | none => rfl
      | some t => exact absurd (parseTime_wireTimeText time).1 years
    rw [createdMember, same.lookup_str distinct (k := "created") rfl]
    simp only [none_]
  have read : readMsg gen = .error "created: must be RFC 3339 UTC with Z and whole seconds" := by
    have seven : gen.length = 7 := same.length
    rw [readMsg, require, if_pos seven, version, text "id" rfl, text "from" rfl, text "to" rfl,
      text "kind" rfl, created]
    rfl
  rw [parseSigned, parseBytes_ok.mpr ⟨plain, rfl, parsed⟩]
  have failed : (readMsg gen).mapError CardError.msg =
      .error (.msg "created: must be RFC 3339 UTC with Z and whole seconds") := by
    rw [read]
    rfl
  rw [ok_bind, parts]
  change ((readMsg gen).mapError CardError.msg >>= _) = _
  rw [failed]
  rfl

/-! ## Payloads -/

theorem sealPlain_ok {plain : ByteArray} : sealPlain h rand fromKey toKey id plain mailboxPub = .ok s ↔
    mailboxPub.length = encLen ∧ ∃ enc ct,
      h.encrypt rand mailboxPub (buildInfo fromKey toKey (keyIDOf h mailboxPub))
        (textBytes id) plain = some (enc, ct) ∧
      s = ⟨id, keyIDOf h mailboxPub, plain, payloadVersion :: (keyIDOf h mailboxPub ++ (enc ++ ct))⟩ := by
  simp only [sealPlain, bind_eq_ok, require_eq_ok, exists_const]
  grind

theorem sealPlain_parts {plain : ByteArray} (sealed : sealPlain h rand fromKey toKey id plain mailboxPub = .ok s) :
    s.id = id ∧ s.signed = plain := by
  obtain ⟨-, _, _, -, rfl⟩ := sealPlain_ok.mp sealed
  exact ⟨rfl, rfl⟩

/-- An envelope with the payload that reaches the one it was sealed for. -/
structure Delivered (o : Opener h) (k : h.Priv) (env : Envelope.Envelope) (m : Msg) (s : Sealed) : Prop where
  self : o.self = m.toKey
  paired : o.isPaired m.fromKey = true
  key : o.mailboxKey s.keyID = some k
  fromKey : env.header.fromKey = m.fromKey
  toKey : env.header.toKey = m.toKey
  id : env.header.id = m.id
  payload : env.payload = some s.payload

theorem payload_length {plain : ByteArray}
    (sealed : sealPlain h rand fromKey toKey id plain mailboxPub = .ok s) :
    s.payload.length = minPayload + plain.size := by
  obtain ⟨-, enc, ct, encrypted, rfl⟩ := sealPlain_ok.mp sealed
  have lengths := h.encrypt_length encrypted
  have sum := h.sum_length mailboxPub
  simp only [List.length_cons, List.length_append, keyIDOf, List.length_take, sum, lengths, minPayload,
    keyIDLen, encLen, tagLen]
  omega

theorem openPayload_delivered {o : Opener h} {k : h.Priv} {plain : ByteArray}
    (sealed : sealPlain h rand m.fromKey m.toKey m.id plain (h.pub k) = .ok s) (small : plain.size ≤ maxMailPlaintext)
    (d : Delivered o k env m s) : openPayload o env = .ok (s.keyID, plain) := by
  have length := payload_length sealed
  obtain ⟨-, enc, ct, encrypted, rfl⟩ := sealPlain_ok.mp sealed
  change (payloadVersion :: (keyIDOf h (h.pub k) ++ (enc ++ ct))).length = _ at length
  have kid : (keyIDOf h (h.pub k)).length = keyIDLen := by
    rw [keyIDOf, List.length_take, h.sum_length]
    rfl
  have enc_ := (h.encrypt_length encrypted).1
  have decrypted := h.decrypt_encrypt encrypted
  have key := d.key
  simp only [openPayload, d.payload, d.fromKey, d.toKey, d.id, Option.getD_some, bind_eq_ok, require_eq_ok]
  refine ⟨(), d.paired, (), ⟨by omega, by rw [maxPayload]; omega, rfl⟩, k, ?_, plain, ?_, ?_⟩
  · rw [List.drop_one, List.tail_cons, List.take_left' kid, key]
    rfl
  · rw [Nat.add_assoc, Nat.add_comm 1, Nat.add_comm 1, List.drop_succ_cons, List.drop_succ_cons,
      List.drop_one, List.tail_cons, List.drop_left' kid, List.take_left' enc_, List.take_left' kid,
      ← List.append_assoc, List.drop_left' (by rw [List.length_append, kid, enc_]), decrypted]
    rfl
  · rw [List.drop_one, List.tail_cons, List.take_left' kid]
    rfl

theorem openCore_delivered {o : Opener h} {k : h.Priv} (w : Written ed priv m plain)
    (made : ed.Generated priv) (valid : validID m.id = true) (same : SameMembers m.members gen)
    (parsed : parseSigned plain.toUTF8 = .ok (gen, { m with body },
      ed.sign priv (msgTag ++ canonicalText (.obj m.members))))
    (sealed : sealPlain h rand m.fromKey m.toKey m.id plain.toUTF8 (h.pub k) = .ok s) (d : Delivered o k env m s) :
    openCore ed o env validID = .ok ⟨{ m with body }, plain.toUTF8, s.keyID⟩ := by
  have reached := openPayload_delivered sealed w.small d
  have key : decodeKey m.fromKey = some (publicKey priv) := by
    rw [w.sender]
    exact decodeKey_public w.length
  have canon : canonicalValue (.obj gen) = .ok (canonicalText (.obj m.members)) := by
    rw [canonicalValue_eq (same.reordered.normal_eq w.generic).1, canonicalText_reordered same.reordered w.generic]
  simp only [openCore, reached, ok_bind, parsed, bind_eq_ok, mapError_eq_ok, require_eq_ok]
  exact ⟨_, rfl, (), d.fromKey.symm, _, congrArg (found _) key, _, canon, (), ed.verify_sign priv _ made, (),
    d.self.symm, (), ⟨d.id.symm, valid⟩, (), w.one, rfl⟩

/-! ## What sealing makes -/

/-- The message of the input. -/
def SealInput.msg (inp : SealInput) (body : JsonObject) : Msg :=
  ⟨1, inp.id, encodeToString (publicKey inp.priv), inp.toKey, wireTime inp.created, inp.kind, body⟩

/-- The message that is sealed for an input: its body is what is read of the marshalled one. -/
structure SealInput.Holds (inp : SealInput) (body : JsonObject) : Prop where
  marshalled : ∃ raw, inp.body.marshal = .ok raw ∧ parseBytes parseStrict raw = .ok (.obj body)
  priv : inp.priv.length = 64
  mailbox : inp.mailboxPub.length = encLen
  kind : validKind inp.kind = true
  recipient : (decodeKey inp.toKey).isSome = true

theorem bodyObject_ok {v : Json} : bodyObject v = .ok body ↔ v = .obj body := by
  cases v <;> simp [bodyObject]

/-- Exactly what `Seal` returns. -/
theorem sealMsg_ok {inp : SealInput} :
    sealMsg ed h rand inp = .ok s ↔ ∃ body plain, inp.Holds body ∧ Written ed inp.priv (inp.msg body) plain ∧
    sealPlain h rand (inp.msg body).fromKey inp.toKey inp.id plain.toUTF8 inp.mailboxPub = .ok s := by
  simp only [sealMsg, bind_eq_ok, mapError_eq_ok, require_eq_ok, bodyObject_ok]
  constructor
  · rintro ⟨-, length, -, mailbox, -, kind, -, recipient, raw, marshalled, _, read, body, rfl, canonMsg, canon,
      plain, whole, -, small, sealed⟩
    have one : -maxSafeInt < 1 ∧ 1 < maxSafeInt := by decide
    have generic : Generic (.obj (inp.msg body).members) := by
      obtain ⟨t, ok⟩ := canonicalValue_object.mp ⟨_, canon⟩ ("body", .obj body) (by simp [Msg.members])
      obtain ⟨text, -, parsed⟩ := parseBytes_ok.mp read
      exact ⟨Msg.distinct _, one, trivial, trivial, trivial, trivial, trivial,
        (parseStrict_generic parsed ok).1, trivial⟩
    have text : canonMsg = canonicalText (.obj (inp.msg body).members) :=
      Except.ok.inj (canon.symm.trans (canonicalValue_eq generic))
    refine ⟨body, plain, ⟨⟨raw, marshalled, read⟩, length, mailbox, kind, recipient⟩,
      ⟨rfl, length, rfl, kind, generic, ?_, small⟩, sealed⟩
    rw [← text]
    exact Except.ok.inj (whole.symm.trans (canonicalValue_eq (generic_signed generic _)))
  · rintro ⟨body, plain, ⟨⟨raw, marshalled, read⟩, length, mailbox, kind, recipient⟩, w, sealed⟩
    refine ⟨(), length, (), mailbox, (), kind, (), recipient, raw, marshalled, _, read, body, rfl, _,
      canonicalValue_eq w.generic, plain, ?_, (), w.small, sealed⟩
    rw [w.text]
    exact canonicalValue_eq (generic_signed w.generic _)

theorem reseal_eq (small : plain.utf8ByteSize ≤ maxMailPlaintext)
    (parsed : parseSigned plain.toUTF8 = .ok (gen, { m with body }, sig)) :
    reseal h rand plain.toUTF8 m.fromKey m.toKey mailboxPub =
      sealPlain h rand m.fromKey m.toKey m.id plain.toUTF8 mailboxPub := by
  have fits : plain.toUTF8.size ≤ maxMailPlaintext := small
  have alike : m.fromKey = m.fromKey ∧ m.toKey = m.toKey := ⟨rfl, rfl⟩
  rw [reseal, require, if_pos fits, parsed]
  change (require (m.fromKey = m.fromKey ∧ m.toKey = m.toKey) _ >>= fun _ => _) = _
  rw [require, if_pos alike]
  rfl

theorem sealPlain_pub (rand : Bytes) (fromKey toKey id : String) (plain : ByteArray) (k : h.Priv) :
    ∃ s, sealPlain h rand fromKey toKey id plain (h.pub k) = .ok s := by
  obtain ⟨⟨enc, ct⟩, encrypted⟩ := Option.isSome_iff_exists.mp
    (h.encrypt_pub rand k (buildInfo fromKey toKey (keyIDOf h (h.pub k))) (textBytes id) plain)
  exact ⟨_, sealPlain_ok.mpr ⟨h.pub_length k, enc, ct, encrypted, rfl⟩⟩

end Sealed

/-! ## Signatures -/

section Signed

variable {ed} {m m' : Msg}

/-- The canonical form holds the fields of a message and nothing else. -/
theorem fields_of_text (g : Generic (.obj m.members)) (g' : Generic (.obj m'.members)) (years : InYears m.created)
    (text : canonicalText (.obj m'.members) = canonicalText (.obj m.members)) :
    m' = { m with body := m'.body } ∧ Reordered (.obj m.body) (.obj m'.body) := by
  obtain ⟨_, e, same⟩ := (reordered_of_canonicalText g g' text.symm).like
  cases e
  have distinct := m.distinct
  have str (k : String) {t t' : String} (at_ : m.members.lookup k = some (.str t))
      (at' : m'.members.lookup k = some (.str t')) : t' = t := by
    have found := same.lookup_str distinct at_
    rw [at'] at found
    exact Json.str.inj (Option.some.inj found)
  have version : m'.v = m.v := by
    have found := same.lookup_num distinct (k := "v") rfl
    exact Number.int.inj (Json.num.inj (Option.some.inj found))
  have created : m'.created = m.created := by
    have time := parseTime_text years
    rw [← str "created" rfl rfl] at time
    exact (parseTime_wireTimeText time).2.symm
  obtain ⟨w, body, alike⟩ := same.lookup_some (k := "body") distinct rfl
  cases body
  refine ⟨?_, alike⟩
  cases m'
  cases m
  simp only [Msg.mk.injEq, and_true]
  exact ⟨version, str "id" rfl rfl, str "from" rfl rfl, str "to" rfl rfl, created, str "kind" rfl rfl⟩

theorem openCore_signed {o : Opener h} {env : Envelope.Envelope} {validID : String → Bool} {op : Opened}
    (ok : openCore ed o env validID = .ok op) :
    Generic (.obj op.msg.members) ∧ InYears op.msg.created ∧ op.msg.fromKey = env.header.fromKey ∧
      ∃ pub sig, decodeKey op.msg.fromKey = some pub ∧
      ed.verify pub (msgTag ++ canonicalText (.obj op.msg.members)) sig = true := by
  have found_ok : ∀ {α : Type} {e : RejectError} {x : Option α} {a : α}, found e x = .ok a → x = some a := by
    intro α e x a some_
    cases x with
    | none => cases some_
    | some b => exact congrArg _ (Except.ok.inj some_)
  simp only [openCore, bind_eq_ok, mapError_eq_ok, require_eq_ok] at ok
  obtain ⟨⟨kid, plain⟩, -, ⟨gen, msg, sig⟩, parsed, -, sender, pub, key, canon, text, -, verified, -, -,
    -, -, -, -, e⟩ := ok
  cases e
  have g := parseSigned_generic parsed
  obtain ⟨_, _, -, -, -, read⟩ := parseSigned_ok.mp parsed
  have same := readMsg_same read g
  refine ⟨(same.reordered.normal_eq g).1, (readMsg_created read).1, sender, pub, sig, found_ok key, ?_⟩
  rw [canonicalText_reordered same.reordered g, ← Except.ok.inj (text.symm.trans (canonicalValue_eq g))]
  exact verified

end Signed

/-! ## The size of a frame -/

section Size

theorem stdText_bytes (p : Bytes) :
    ∀ b ∈ Base64.encode (fun n => stdAlphabet.getD n 0) p ++ List.replicate ((3 - p.length % 3) % 3) 61,
    htmlChar (Char.ofNat b.toNat) = [Char.ofNat b.toNat] ∧ (Char.ofNat b.toNat).utf8Size = 1 := by
  have letters : ∀ n < 64,
      htmlChar (Char.ofNat (stdAlphabet.getD n 0).toNat) = [Char.ofNat (stdAlphabet.getD n 0).toNat] ∧
      (Char.ofNat (stdAlphabet.getD n 0).toNat).utf8Size = 1 := by decide +kernel
  intro b mem
  obtain mem | mem := List.mem_append.mp mem
  · obtain ⟨n, low, rfl⟩ := Base64.encode_letters _ _ b mem
    exact letters n low
  · rw [List.eq_of_mem_replicate mem]
    decide +kernel

theorem stdText_size (p : Bytes) : marshalSize (.str (stdText p)) = (p.length + 2) / 3 * 4 + 2 := by
  have each : ∀ bs : Bytes,
      (∀ b ∈ bs, htmlChar (Char.ofNat b.toNat) = [Char.ofNat b.toNat] ∧ (Char.ofNat b.toNat).utf8Size = 1) →
      bytes ((bs.map fun b => Char.ofNat b.toNat).flatMap htmlChar) = bs.length := by
    intro bs plain
    induction bs with
    | nil => rfl
    | cons b bs ih =>
      obtain ⟨same, one⟩ := plain b List.mem_cons_self
      rw [List.map_cons, List.flatMap_cons, same, bytes_append, bytes_cons, one,
        ih fun c mem => plain c (List.mem_cons_of_mem _ mem), bytes_nil, List.length_cons]
      omega
  have inner := each _ (stdText_bytes p)
  have mark : '"'.utf8Size = 1 := by decide
  rw [List.length_append, List.length_replicate, Base64.length_encode] at inner
  change bytes (quote .html (stdText p)) = _
  rw [quote, stdText, asciiText, String.toList_ofList, bytes_cons, bytes_append, bytes_cons, bytes_nil, mark]
  change 1 + (bytes (List.flatMap htmlChar _) + _) = _
  rw [inner]
  have rest : p.length % 3 = 0 ∨ p.length % 3 = 1 ∨ p.length % 3 = 2 := by omega
  obtain rest | rest | rest := rest <;> rw [rest] <;> omega

variable {s : String}

theorem size_short {n : Nat} (short : s.length ≤ n) : marshalSize (.str s) ≤ 24 * n + 2 := by
  have each : ∀ cs : List Char, bytes cs ≤ 4 * cs.length := by
    intro cs
    induction cs with
    | nil => exact le_rfl
    | cons c cs ih =>
      have four := Char.utf8Size_le_four c
      rw [bytes_cons, List.length_cons]
      omega
  have whole := each s.toList
  have text := size_str s
  rw [bytes_toList, String.length_toList] at whole
  omega

theorem length_of_decodeKey (known : (decodeKey s).isSome = true) : s.length ≤ 43 := by
  obtain ⟨raw, key⟩ := Option.isSome_iff_exists.mp known
  have length : (textBytes s).length = 43 := by
    rw [decodeKey, Option.filter_eq_some_iff] at key
    exact (of_decide_eq_true key.2).1
  have each : ∀ cs : List Char, cs.length ≤ (cs.flatMap String.utf8EncodeChar).length := by
    intro cs
    induction cs with
    | nil => exact le_rfl
    | cons c cs ih =>
      have some_ := c.utf8Size_pos
      rw [List.flatMap_cons, List.length_append, List.length_cons, String.length_utf8EncodeChar]
      omega
  have whole := each s.toList
  rw [← textBytes, length, String.length_toList] at whole
  exact whole

theorem length_of_validID (valid : validID s = true) : s.length = 34 := by
  rw [← String.length_toList]
  unfold validID at valid
  split at valid
  · next rest text =>
    rw [text]
    simp at valid
    simp [valid.1]
  · cases valid

theorem frame_size {priv : Bytes} {toKey : String} {s : Sealed} {now : Time} (length : priv.length = 64)
    (recipient : (decodeKey toKey).isSome = true) (valid : validID s.id = true)
    (small : s.payload.length ≤ maxPayload) (years : InYears (wireTime now)) :
    (marshal (frameJson (mailEnvelope priv toKey s now))).utf8ByteSize ≤ maxFrameBytes := by
  have key : (encodeToString (publicKey priv)).length = 43 := by
    rw [length_encodeToString, publicKey, List.length_drop, length]
  have ts : (wireTimeText (wireTime now)).length = 20 := by
    rw [← String.length_toList, length_wireTimeText, length_yearText.mpr ((inYears_iff _).mp years)]
  have fromSize := size_short key.le
  have toSize := size_short (length_of_decodeKey recipient)
  have idSize := size_short (length_of_validID valid).le
  have tsSize := size_short ts.le
  have payload := stdText_size s.payload
  have names : bytes (quote .html "from") = 6 ∧ bytes (quote .html "to") = 4 ∧ bytes (quote .html "team") = 6 ∧
      bytes (quote .html "type") = 6 ∧ bytes (quote .html "id") = 4 ∧ bytes (quote .html "ts") = 4 ∧
      bytes (quote .html "payload") = 9 ∧
      marshalSize (.str "") = 2 ∧ marshalSize (.str "mail") = 6 := by decide +kernel
  have whole := size_object [("from", .str (encodeToString (publicKey priv))), ("to", .str toKey),
      ("team", .str ""), ("type", .str "mail"),
    ("id", .str s.id), ("ts", .str (wireTimeText (wireTime now))), ("payload", .str (stdText s.payload))]
  simp only [List.map_cons, List.map_nil, List.sum_cons, List.sum_nil, memberSize, names, payload] at whole
  rw [marshal_bytes]
  refine whole.trans ?_
  simp only [maxPayload, minPayload, keyIDLen, encLen, tagLen, maxMailPlaintext, maxFrameBytes] at small ⊢
  omega

end Size

/-! ## Seal and open -/

theorem openCore_unread {o : Opener h} {k : h.Priv} {plain : String} {e : CardError}
    (sealed : sealPlain h rand m.fromKey m.toKey m.id plain.toUTF8 (h.pub k) = .ok s)
    (small : plain.utf8ByteSize ≤ maxMailPlaintext) (unread : parseSigned plain.toUTF8 = .error e)
    (d : Delivered o k env m s) :
    openCore ed o env validID = .error ⟨5, .malformed, some e⟩ := by
  rw [openCore, openPayload_delivered sealed small d, ok_bind]
  change ((parseSigned _).mapError _ >>= _) = _
  rw [unread]
  rfl

theorem reseal_unread {plain : String} {e : CardError} (small : plain.utf8ByteSize ≤ maxMailPlaintext)
    (unread : parseSigned plain.toUTF8 = .error e) :
    reseal h rand plain.toUTF8 fromKey toKey mailboxPub = .error (.stored e) := by
  have fits : plain.toUTF8.size ≤ maxMailPlaintext := small
  rw [reseal, require, if_pos fits, unread]
  rfl

theorem withID_same (fresh : String) (inp : SealInput) :
    (withID fresh inp).priv = inp.priv ∧ (withID fresh inp).toKey = inp.toKey ∧
    (withID fresh inp).kind = inp.kind ∧ (withID fresh inp).created = inp.created ∧
    (withID fresh inp).body = inp.body ∧
    (withID fresh inp).mailboxPub = inp.mailboxPub ∧ (inp.id ≠ "" → (withID fresh inp).id = inp.id) := by
  grind [withID]

/-- The payload is within its limits, and a frame with it is only refused for what `Validate` finds. -/
def Fits (priv : Bytes) (toKey : String) (s : Sealed) : Prop :=
  minPayload ≤ s.payload.length ∧ s.payload.length ≤ maxPayload ∧ ∀ lib now, InYears (wireTime now) →
    (marshal (frameJson (mailEnvelope priv toKey s now))).utf8ByteSize ≤ maxFrameBytes ∧
    marshalFrame lib (mailEnvelope priv toKey s now) =
      (((mailEnvelope priv toKey s now).validate lib).mapError FrameError.invalid).map fun _ =>
        marshal (frameJson (mailEnvelope priv toKey s now))

/-- The one it was sealed for reads `m` of it. -/
def OpensAs (k : h.Priv) (s : Sealed) (m : Msg) : Prop :=
  ∀ o env, Delivered o k env m s → openCore ed o env validID = .ok ⟨m, s.signed, s.keyID⟩

/-- What was sealed passes the checks of the envelope. -/
theorem fits {priv rand mailboxPub : Bytes} {fromKey toKey id : String} {plain : ByteArray} {s : Sealed}
    (length : priv.length = 64) (recipient : (decodeKey toKey).isSome = true) (valid : validID id = true)
    (small : plain.size ≤ maxMailPlaintext) (sealed : sealPlain h rand fromKey toKey id plain mailboxPub = .ok s) :
    Fits priv toKey s := by
  have size := payload_length sealed
  have id_ := (sealPlain_parts sealed).1
  refine ⟨by omega, by rw [maxPayload]; omega, fun lib now years => ?_⟩
  have fit := frame_size length recipient (id_ ▸ valid) (by rw [maxPayload]; omega) years
  refine ⟨fit, ?_⟩
  rw [marshalFrame]
  simp only [require, if_pos fit]
  cases (mailEnvelope priv toKey s now).validate lib <;> rfl

def badCreated : CardError := .msg "created: must be RFC 3339 UTC with Z and whole seconds"

/-- A mail that `Seal` accepts is opened as it was sealed, also after `Reseal`, exactly if its time has a year of
four digits; its frames fit; and what is opened is what its sender has signed. -/
theorem seal_open_inverse (ed : Ed25519) (h : Hpke) :
    (∀ rand fresh inp s, ed.Generated inp.priv → InYears (wireTime inp.created) →
      sealMail ed h rand fresh inp = .ok s →
      ∃ m : Msg, m.v = 1 ∧ m.id = s.id ∧ (inp.id ≠ "" → s.id = inp.id) ∧
      m.fromKey = encodeToString (publicKey inp.priv) ∧
        m.toKey = inp.toKey ∧ m.kind = inp.kind ∧ m.created = wireTime inp.created ∧
        (∃ raw body, inp.body.marshal = .ok raw ∧ parseBytes parseStrict raw = .ok (.obj body) ∧
          Reordered (.obj body) (.obj m.body)) ∧
        Fits inp.priv inp.toKey s ∧ (∀ k, h.pub k = inp.mailboxPub → OpensAs ed k s m) ∧
        ∀ rand' k, ∃ s', reseal h rand' s.signed m.fromKey m.toKey (h.pub k) = .ok s' ∧ s'.id = s.id ∧
        s'.signed = s.signed ∧ Fits inp.priv inp.toKey s' ∧ OpensAs ed k s' m) ∧
    (∀ rand fresh inp s, ¬InYears (wireTime inp.created) → sealMail ed h rand fresh inp = .ok s →
      (∀ k, h.pub k = inp.mailboxPub → ∀ m : Msg, m.id = s.id → m.fromKey = encodeToString (publicKey inp.priv) →
        m.toKey = inp.toKey →
        ∀ o env, Delivered o k env m s → openCore ed o env validID = .error ⟨5, .malformed, some badCreated⟩) ∧
      ∀ rand' fromKey toKey pub, reseal h rand' s.signed fromKey toKey pub = .error (.stored badCreated)) ∧
    (∀ o env valid op, openCore ed (h := h) o env valid = .ok op → op.msg.fromKey = env.header.fromKey ∧
      (∃ pub sig, decodeKey op.msg.fromKey = some pub ∧
        ed.verify pub (msgTag ++ canonicalText (.obj op.msg.members)) sig = true) ∧
      ∀ m : Msg, Generic (.obj m.members) → canonicalText (.obj m.members) = canonicalText (.obj op.msg.members) →
        m = { op.msg with body := m.body } ∧ Reordered (.obj op.msg.body) (.obj m.body)) := by
  refine ⟨fun rand fresh inp s made years ok => ?_, fun rand fresh inp s late ok => ?_, fun o env valid op ok => ?_⟩
  · rw [sealMail] at ok
    obtain ⟨_, checked, ok⟩ := bind_eq_ok.mp ok
    have valid := require_eq_ok.mp checked
    obtain ⟨body, plain, holds, w, sealed⟩ := sealMsg_ok.mp ok
    obtain ⟨raw, marshalled, read⟩ := holds.marshalled
    obtain ⟨priv_, to_, kind_, created_, body_, mailbox_, id_⟩ := withID_same fresh inp
    obtain ⟨gen, body', alike, reordered, parsed⟩ := w.parsed (by rw [SealInput.msg, created_]; exact years)
    have id' := sealPlain_parts sealed
    have fit := fits w.length holds.recipient valid w.small sealed
    refine ⟨{ (withID fresh inp).msg body with body := body' }, rfl, id'.1.symm,
      fun some_ => id'.1.trans (id_ some_), by rw [← priv_]; rfl, to_, kind_, by rw [← created_]; rfl,
      ⟨raw, body, body_ ▸ marshalled, read, reordered⟩, priv_ ▸ to_ ▸ fit, fun k pub o env d => ?_,
      fun rand' k => ?_⟩
    · rw [mailbox_, ← pub] at sealed
      rw [id'.2]
      exact openCore_delivered w (priv_ ▸ made) valid alike parsed sealed ⟨d.1, d.2, d.3, d.4, d.5, d.6, d.7⟩
    · obtain ⟨s', again⟩ := sealPlain_pub rand' ((withID fresh inp).msg body).fromKey (withID fresh inp).toKey
        (withID fresh inp).id plain.toUTF8 k
      have kept := sealPlain_parts again
      refine ⟨s', ?_, kept.1.trans id'.1.symm, kept.2.trans id'.2.symm,
        priv_ ▸ to_ ▸ fits w.length holds.recipient valid w.small again, fun o env d => ?_⟩
      · rw [id'.2]
        exact (reseal_eq w.small parsed).trans again
      · rw [kept.2]
        exact openCore_delivered w (priv_ ▸ made) valid alike parsed again ⟨d.1, d.2, d.3, d.4, d.5, d.6, d.7⟩
  · obtain ⟨_, -, ok⟩ := bind_eq_ok.mp ok
    obtain ⟨body, plain, -, w, sealed⟩ := sealMsg_ok.mp ok
    obtain ⟨priv_, to_, -, created_, -, mailbox_, -⟩ := withID_same fresh inp
    have unread := w.unread (by rw [SealInput.msg, created_]; exact late)
    have parts := sealPlain_parts sealed
    refine ⟨fun k pub m id fromKey toKey o env d => ?_, fun rand' fromKey toKey pub => ?_⟩
    · have own : ((withID fresh inp).msg body).fromKey = m.fromKey := by
        rw [fromKey, ← priv_]
        rfl
      rw [mailbox_, ← pub, own, to_, ← toKey, ← parts.1, ← id] at sealed
      exact openCore_unread ed sealed w.small unread d
    · rw [parts.2]
      exact reseal_unread w.small unread
  · obtain ⟨g, years, sender, signed⟩ := openCore_signed ok
    exact ⟨sender, signed, fun m g' text => fields_of_text g g' years text⟩

/-! ## A time with five digits of year -/

/-- An HPKE without secrets, for examples. -/
def plainHpke : Hpke where
  Priv := Unit
  pub _ := List.replicate 32 0
  sum256 _ := List.replicate 32 0
  encrypt _ _ _ _ plain := some (List.replicate 32 0, plain.data.toList ++ List.replicate 16 0)
  decrypt _ _ ct _ _ := some ⟨(ct.take (ct.length - 16)).toArray⟩
  pub_length _ := rfl
  sum_length _ := rfl
  encrypt_length := by
    rintro _ _ _ _ plain _ _ ⟨⟩
    refine ⟨List.length_replicate, ?_⟩
    rw [List.length_append, List.length_replicate]
    rfl
  encrypt_pub _ _ _ _ _ := rfl
  decrypt_encrypt := by
    rintro _ _ _ _ plain _ _ ⟨⟩
    have cut : (plain.data.toList ++ List.replicate 16 0).length - 16 = plain.data.toList.length := by
      rw [List.length_append, List.length_replicate, Nat.add_sub_cancel]
    rw [cut, List.take_left]

/-- A mail that is valid but for its `created`. -/
def sampleInput (created : WireTime) : SealInput where
  priv := List.replicate 64 0
  toKey := encodeToString (List.replicate 32 0)
  mailboxPub := List.replicate 32 0
  id := "m-00000000000000000000000000000000"
  kind := "note"
  body := .nil
  created := parseWireTime created

def samplePlain (created : WireTime) : String :=
  canonicalText (.obj (signedMembers ((sampleInput created).msg []).members
    (encodeToString (sampleScheme.sign (List.replicate 64 0)
      (msgTag ++ canonicalText (.obj ((sampleInput created).msg []).members))))))

def sampleRecipient : Opener plainHpke := ⟨encodeToString (List.replicate 32 0), fun _ => true, fun _ => some ()⟩

theorem sampleInput_written {created : WireTime} (small : (samplePlain created).utf8ByteSize ≤ maxMailPlaintext) :
    Written sampleScheme (List.replicate 64 0) ((sampleInput created).msg []) (samplePlain created) := by
  have one : -maxSafeInt < 1 ∧ 1 < maxSafeInt := by decide
  have kind : validKind "note" = true := by decide
  exact ⟨rfl, rfl, rfl, kind, ⟨Msg.distinct _, one, trivial, trivial, trivial, trivial, trivial,
    ⟨List.nodup_nil, trivial⟩, trivial⟩, rfl, small⟩

theorem sampleInput_sealed {created : WireTime} (small : (samplePlain created).utf8ByteSize ≤ maxMailPlaintext) :
    ∃ s, sealMail sampleScheme plainHpke [] "" (sampleInput created) = .ok s ∧
      sealPlain plainHpke [] ((sampleInput created).msg []).fromKey ((sampleInput created).msg []).toKey
        ((sampleInput created).msg []).id
        (samplePlain created).toUTF8 (plainHpke.pub ()) = .ok s ∧
      ∃ env, Delivered sampleRecipient () env ((sampleInput created).msg []) s := by
  have empty : parseBytes parseStrict (Canonical.marshal (.obj [])).toUTF8 = .ok (.obj []) := parseBytes_ok.mpr
    ⟨_, rfl, parseStrict_marshal ⟨List.nodup_nil, trivial⟩⟩
  have kind : validKind "note" = true := by decide
  have recipient : (decodeKey (encodeToString (List.replicate 32 0))).isSome = true := by decide +kernel
  have holds : (sampleInput created).Holds [] := ⟨⟨_, rfl, empty⟩, rfl, rfl, kind, recipient⟩
  have valid : validID "m-00000000000000000000000000000000" = true := by decide +kernel
  obtain ⟨s, sealed⟩ :=
    sealPlain_pub (h := plainHpke) [] ((sampleInput created).msg []).fromKey (sampleInput created).toKey
    (sampleInput created).id (samplePlain created).toUTF8 ()
  refine ⟨s, ?_, sealed,
    { header := (mailEnvelope (sampleInput created).priv (sampleInput created).toKey s 0).header
      payload := some s.payload }, ?_⟩
  · have same : withID "" (sampleInput created) = sampleInput created :=
      if_neg (show ¬"m-00000000000000000000000000000000" = "" by decide)
    rw [sealMail, same]
    exact bind_eq_ok.mpr ⟨(), require_eq_ok.mpr valid,
      sealMsg_ok.mpr ⟨[], _, holds, sampleInput_written small, sealed⟩⟩
  · obtain ⟨-, _, _, -, rfl⟩ := sealPlain_ok.mp sealed
    exact ⟨rfl, rfl, rfl, rfl, rfl, rfl, rfl⟩

theorem timely_mail_opens :
    ∃ s m env, sealMail sampleScheme plainHpke [] "" (sampleInput 1767225600) = .ok s ∧ m.created = 1767225600 ∧
    m.kind = "note" ∧ openCore sampleScheme sampleRecipient env validID = .ok ⟨m, s.signed, s.keyID⟩ := by
  obtain ⟨s, made, -, env, d⟩ :=
    @sampleInput_sealed 1767225600 (by rw [samplePlain, canonicalText_size]; decide +kernel)
  have years : InYears (wireTime (sampleInput 1767225600).created) := by decide
  obtain ⟨m, -, id, id_, fromKey, toKey, kind, created, -, -, opens, -⟩ :=
    (seal_open_inverse sampleScheme plainHpke).1 [] "" (sampleInput 1767225600) s rfl years made
  have same : m.id = (sampleInput 1767225600).id := id.trans (id_ (by decide))
  refine ⟨s, m, env, made, created, kind, opens () rfl sampleRecipient env ?_⟩
  exact ⟨d.self.trans toKey.symm, rfl, d.key, d.fromKey.trans fromKey.symm, d.toKey.trans toKey.symm,
    d.id.trans same.symm, d.payload⟩

/-- The first second of the year 10000 is sealed, and what is sealed is not opened. -/
theorem late_mail_unreadable : ∃ s, sealMail sampleScheme plainHpke [] "" (sampleInput 253402300800) = .ok s ∧
    ∃ env, Delivered sampleRecipient () env ((sampleInput 253402300800).msg []) s ∧
      openCore sampleScheme sampleRecipient env validID = .error ⟨5, .malformed, some badCreated⟩ := by
  have small : (samplePlain 253402300800).utf8ByteSize ≤ maxMailPlaintext := by
    rw [samplePlain, canonicalText_size]
    decide +kernel
  obtain ⟨s, made, sealed, env, d⟩ := sampleInput_sealed small
  have late : ¬InYears ((sampleInput 253402300800).msg []).created := by
    rintro ⟨-, before⟩
    exact absurd before (by decide)
  exact ⟨s, made, env, d, openCore_unread sampleScheme sealed small ((sampleInput_written small).unread late) d⟩

end Agentnet.Sealing
