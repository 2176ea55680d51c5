import Agentnet.Canonical.Marshal
import Agentnet.Signing
import Agentnet.Times

/-! `internal/agentcard`: signed agent cards, their verification and their stored form. -/

namespace Agentnet.AgentCard

open Lib Canonical Signing

structure Skill where
  id : String
  name : String
  description : String
  deriving DecidableEq

/-- `skills` is nil until it is set. -/
structure Card where
  version : Int
  name : String
  publicKey : String
  harness : String
  skills : Option (List Skill)
  created : String
  deriving DecidableEq

/-- `SignedCard`. -/
structure Signed where
  card : Card
  signature : String
  deriving DecidableEq

/-- The errors that callers tell apart, and the texts of the others. -/
inductive CardError where
  | notUTF8
  | parse (e : ParseError)
  | msg (text : String)
  deriving DecidableEq

def domain : String := "dorylinae-agent-card-v1\n"

def maxCardBytes : Nat := 16384

def maxSkills : Nat := 32

/-! ## Rules for texts and times -/

/-- `unicode.IsControl`, or U+FFFD. -/
def isControl (c : Char) : Bool := c.toNat < 0x20 ∨ 0x7F ≤ c.toNat ∧ c.toNat ≤ 0x9F ∨ c.toNat = 0xFFFD

def isBidi (c : Char) : Bool :=
  c.toNat = 0x061C ∨ c.toNat = 0x200E ∨ c.toNat = 0x200F ∨ 0x202A ≤ c.toNat ∧ c.toNat ≤ 0x202E ∨
    0x2066 ≤ c.toNat ∧ c.toNat ≤ 0x2069 ∨ c.toNat = 0x2028 ∨ c.toNat = 0x2029

def checkRunes (field : String) (legacy : Bool) : List Char → Except String Unit
  | [] => .ok ()
  | c :: rest =>
    if isControl c then .error ("agentcard: " ++ field ++ " contains a control or invalid character")
    else if !legacy ∧ isBidi c then .error ("agentcard: " ++ field ++ " contains a bidi control or line separator")
    else checkRunes field legacy rest

def checkText (field s : String) (required legacy : Bool) : Except String Unit := do
  require (¬(required ∧ s = "")) ("agentcard: " ++ field ++ " is required")
  require (s.length ≤ 128) ("agentcard: " ++ field ++ " longer than 128 characters")
  checkRunes field legacy s.toList

def checkSkillTexts (legacy : Bool) : Nat → List Skill → Except String Unit
  | _, [] => .ok ()
  | i, s :: rest => do
    checkText ("skills[" ++ toString i ++ "].id") s.id true legacy
    checkText ("skills[" ++ toString i ++ "].name") s.name true legacy
    checkText ("skills[" ++ toString i ++ "].description") s.description false legacy
    checkSkillTexts legacy (i + 1) rest

def checkSkills (legacy : Bool) : Option (List Skill) → Except String Unit
  | none => .error "agentcard: skills is required"
  | some skills => do
    require (skills.length ≤ maxSkills)
      ("agentcard: " ++ toString skills.length ++ " skills, at most " ++ toString maxSkills)
    checkSkillTexts legacy 0 skills

/-- `Validate`, with the older rules for texts if `legacy`. -/
def Card.validate (legacy : Bool) (c : Card) : Except String Unit := do
  require (c.version = 1) ("agentcard: unsupported version " ++ toString c.version)
  checkText "name" c.name true legacy
  checkText "harness" c.harness true legacy
  require ((decodeStrict c.publicKey 32).isSome)
    "agentcard: public_key must be 32 bytes, strict base64url without padding"
  checkSkills legacy c.skills
  require ((parseTime c.created).isSome) "agentcard: created must be RFC 3339 UTC with Z, whole seconds"

/-! ## The JSON of the structs -/

def skillFields (s : Skill) : List (String × Json) :=
  [("id", .str s.id), ("name", .str s.name), ("description", .str s.description)]

def skillsValue : Option (List Skill) → Json
  | none => .null
  | some skills => .arr (skills.map fun s => .obj (skillFields s))

def cardFields (c : Card) : List (String × Json) :=
  [("version", .num (.int c.version)), ("name", .str c.name), ("public_key", .str c.publicKey),
    ("harness", .str c.harness), ("skills", skillsValue c.skills), ("created", .str c.created)]

def cardValue (c : Card) : Json := .obj (cardFields c)

def signedValue (s : Signed) : Json := .obj [("card", cardValue s.card), ("signature", .str s.signature)]

def checkSize (s : Signed) : Except CardError Unit :=
  let size := (marshalIndent (signedValue s)).utf8ByteSize
  require (size ≤ maxCardBytes)
    (.msg
      ("agentcard: the signed card is " ++ toString size ++ " bytes, over the limit of " ++ toString maxCardBytes))

def canonicalBytes (v : Json) : Except CardError String :=
  (canonicalValue v).mapError fun e => .msg ("agentcard: canonicalize: " ++ e)

/-- `Canonical`. -/
def canonical (c : Card) : Except CardError String := do
  let v ← (parseStrict (marshal (cardValue c))).mapError .parse
  canonicalBytes v

variable (ed : Ed25519)

/-- `Sign`: the card must be valid under the rules of today. -/
def sign (priv : Bytes) (c : Card) : Except CardError Signed := do
  require (priv.length = 64) (.msg "agentcard: bad private key length")
  (c.validate false).mapError .msg
  require (c.publicKey = encodeToString (publicKey priv))
    (.msg "agentcard: card public key does not match signing key")
  let canon ← canonical c
  let s : Signed := ⟨c, encodeToString (ed.sign priv (domain ++ canon))⟩
  checkSize s
  return s

/-! ## Verification -/

/-- A member that must be a string. -/
def stringMember (members : List (String × Json)) (name : String) : Except String String :=
  match members.lookup name with
  | none => .error ("member \"" ++ name ++ "\" is missing")
  | some (.str s) => .ok s
  | some _ => .error ("member \"" ++ name ++ "\" must be a string")

def cardMembers : List String := ["version", "name", "public_key", "harness", "skills", "created"]

def hasMembers (members : List (String × Json)) : List String → Except String Unit
  | [] => .ok ()
  | name :: names => do
    require ((members.lookup name).isSome) ("card has no member \"" ++ name ++ "\"")
    hasMembers members names

/-- A skill has exactly its three members. -/
def skillFromGeneric (i : Nat) : Json → Except String Skill
  | .obj members => do
    require (members.length = 3)
      ("skills[" ++ toString i ++ "] has " ++ toString members.length ++ " members, want exactly 3")
    let read := fun name => (stringMember members name).mapError fun e => "skills[" ++ toString i ++ "]: " ++ e
    let id ← read "id"
    let name ← read "name"
    let description ← read "description"
    return { id, name, description }
  | _ => .error ("skills[" ++ toString i ++ "] must be an object")

def skillsFromGeneric : Nat → List Json → Except String (List Skill)
  | _, [] => .ok []
  | i, v :: rest => do
    let s ← skillFromGeneric i v
    let skills ← skillsFromGeneric (i + 1) rest
    return s :: skills

def skillsMember : Option Json → Except String (List Json)
  | some (.arr items) => do
    require (items.length ≤ maxSkills) (toString items.length ++ " skills, at most " ++ toString maxSkills)
    return items
  | _ => .error "skills must be an array"

/-- The card by exact names, from the object that the signature covers. A literal number 1 is the integer one. -/
def cardFromGeneric (card : List (String × Json)) : Except String Card := do
  require (card.length = cardMembers.length)
    ("card has " ++ toString card.length ++ " members, want exactly " ++ toString cardMembers.length)
  hasMembers card cardMembers
  require (card.lookup "version" matches some (.num (.int 1))) "version must be the integer 1"
  let name ← stringMember card "name"
  let publicKey ← stringMember card "public_key"
  let harness ← stringMember card "harness"
  let created ← stringMember card "created"
  let items ← skillsMember (card.lookup "skills")
  let skills ← skillsFromGeneric 0 items
  return { version := 1, name, publicKey, harness, skills := some skills, created }

def parseBytes (parse : String → Except ParseError Json) (data : ByteArray) : Except CardError Json :=
  match String.fromUTF8? data with
  | none => .error .notUTF8
  | some text => (parse text).mapError .parse

/-- The part of `verify` behind the envelope. -/
def verifyCard (legacy : Bool) (card : List (String × Json)) (sigStr : String) : Except CardError Signed :=
  let pubStr := match card.lookup "public_key" with
    | some (.str s) => s
    | _ => ""
  match decodeStrict pubStr 32 with
  | none => .error (.msg "agentcard: card.public_key must be 32 bytes, strict base64url without padding")
  | some pub =>
    match decodeStrict sigStr 64 with
    | none => .error (.msg "agentcard: signature must be 64 bytes, strict base64url without padding")
    | some sig => do
      let canon ← canonicalBytes (.obj card)
      require (ed.verify pub (domain ++ canon) sig) (.msg "agentcard: signature does not verify")
      let c ← (cardFromGeneric card).mapError fun e => .msg ("agentcard: card does not match schema: " ++ e)
      (c.validate legacy).mapError .msg
      return ⟨c, sigStr⟩

/-- `Verify`, and `VerifyStored` with the legacy rule for texts. -/
def verify (legacy : Bool) (data : ByteArray) : Except CardError Signed := do
  require (data.size ≤ maxCardBytes)
    (.msg ("agentcard: envelope is " ++ toString data.size ++ " bytes, over the limit of " ++ toString maxCardBytes))
  let doc ← parseBytes parseStrict data
  let _ ← (canonicalValue doc).mapError fun e => .msg ("agentcard: " ++ e)
  match doc with
  | .obj top =>
    match top.lookup "card" with
    | some (.obj card) =>
      match top.lookup "signature" with
      | some (.str sig) => verifyCard ed legacy card sig
      | _ => .error (.msg "agentcard: missing signature")
    | _ => .error (.msg "agentcard: missing card object")
  | _ => .error (.msg "agentcard: envelope must be a JSON object")

/-! ## The stored form -/

def storedPair : Json → Except CardError ByteArray
  | .obj top =>
    match top.lookup "card", top.lookup "signature" with
    | some card, some sig => do
      let text ← (canonicalValue (.obj [("card", card), ("signature", sig)])).mapError fun e =>
          .msg ("agentcard: " ++ e)
      return text.toUTF8
    | _, _ => .error (.msg "agentcard: missing card or signature")
  | _ => .error (.msg "agentcard: envelope must be a JSON object")

def storedForm (data : ByteArray) : Except CardError ByteArray := do
  let doc ← parseBytes parseStrict data
  storedPair doc

def rescueStored (raw : ByteArray) (wantKey : String) : Except CardError (ByteArray × Signed) := do
  let doc ← parseBytes parseLegacy raw
  let canon ← storedPair doc
  let sc ← verify ed true canon
  require (sc.card.publicKey = wantKey) (.msg "agentcard: stored card is for another key")
  return (canon, sc)

end Agentnet.AgentCard
