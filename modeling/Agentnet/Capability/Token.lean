import Agentnet.Canonical.Marshal
import Agentnet.Request.Object
import Agentnet.Signing
import Agentnet.Times

/-! `internal/capability`: grants, the tokens that carry them, and their verification. -/

namespace Agentnet.Capability

open Lib Canonical Signing

/-- `branch` is set for the kind `git` only. -/
structure Resource where
  kind : String
  label : String
  branch : String := ""
  deriving DecidableEq

/-- `Grant`, its times in nanoseconds. -/
structure Grant where
  v : Int
  id : String
  iss : String
  aud : String
  session : String
  action : String
  resource : Resource
  scope : String
  nbf : Time
  exp : Time
  sensitive : Bool
  deriving DecidableEq

/-- `Token`: a grant and its signature. -/
structure Token where
  grant : Grant
  sig : String
  deriving DecidableEq

def domain : String := "dorylinae-grant-v1\n"

def maxTokenBytes : Nat := 2048

/-! ## Formats -/

def isID (letter : Char) (s : String) : Bool :=
  match s.toList with
  | l :: '-' :: rest => l == letter && rest.length == 32 && rest.all isLowerHex
  | _ => false

def isBase64url (n : Nat) (s : String) : Bool := s.length == n && s.toList.all Request.isKeyChar

def validKey (s : String) : Bool := isBase64url 43 s && (decodeString s).any fun k => k.length = 32

def hasControl (cs : List Char) : Bool := cs.any fun c => c.toNat = 0xFFFD ∨ c.toNat ≤ 0x1F ∨ c.toNat = 0x7F

def includes (part : String) (cs : List Char) : Bool := cs.tails.any (part.toList.isPrefixOf ·)

def endsWith (part : String) (cs : List Char) : Bool := part.toList.isSuffixOf cs

def startsWith (part : String) (cs : List Char) : Bool := part.toList.isPrefixOf cs

/-- `checkBranch`. `hidden` is the rule of `displaytext`. -/
def checkBranch (hidden : Char → Bool) (s : String) : Except String Unit := do
  let cs := s.toList
  require (s ≠ "") "resource.branch is required for kind git"
  require (s.utf8ByteSize ≤ 255) "resource.branch must be 1-255 bytes of UTF-8"
  require (¬(cs.contains ' ' ∨ hasControl cs ∨ cs.any ("~^:?*[\\".toList.contains ·)))
    "resource.branch must not contain spaces, control characters or ~ ^ : ? * [ \\"
  require (¬cs.any hidden) "resource.branch must not contain invisible or format characters"
  require (¬includes ".." cs) "resource.branch must not contain \"..\""
  require (¬(s = "@" ∨ includes "@\x7b" cs ∨ startsWith "-" cs ∨ endsWith "." cs ∨ startsWith "/" cs ∨
    endsWith "/" cs ∨ includes "//" cs))
    "resource.branch is not a valid refs/heads/ name"
  require ((cs.splitOn '/').all fun part => !startsWith "." part && !endsWith ".lock" part)
    "resource.branch is not a valid refs/heads/ name"

/-- `hasControl`, C1 controls and bidirectional formatting. -/
def hasPathControl (cs : List Char) : Bool :=
  hasControl cs || cs.any fun c => 0x80 ≤ c.toNat ∧ c.toNat ≤ 0x9F ∨ c.toNat = 0x061C ∨ c.toNat = 0x200E ∨
  c.toNat = 0x200F ∨ 0x202A ≤ c.toNat ∧ c.toNat ≤ 0x202E ∨ 0x2066 ≤ c.toNat ∧ c.toNat ≤ 0x2069

/-- `strings.ToUpper` where it gives an ASCII letter. -/
def upper (c : Char) : Char := if c = 'ı' then 'I' else if c = 'ſ' then 'S' else c.toUpper

/-- A device name in front of a dot, with trailing spaces ignored. -/
def isWindowsReserved (seg : List Char) : Bool :=
  let stem := seg.takeWhile (· ≠ '.')
  let name := String.ofList ((stem.reverse.dropWhile (· = ' ')).reverse.map upper)
  name ∈ ["CON", "PRN", "AUX", "NUL", "CONIN$", "CONOUT$"] ||
    ["COM", "LPT"].any fun device => ["1", "2", "3", "4", "5", "6", "7", "8", "9", "¹", "²",
      "³"].any fun number => name = device ++ number

def validSegment (seg : List Char) : Bool :=
  !(seg.isEmpty || seg = ['.'] || seg = ['.',
    '.']) && !(endsWith "." seg || endsWith " " seg) && !isWindowsReserved seg

def validScopePath (s : String) : Bool :=
  let cs := s.toList
  s.utf8ByteSize ≤ 1024 && (s = "" || (!(startsWith "/" cs || endsWith "/" cs) &&
    !(cs.any ("\\:".toList.contains ·) || hasPathControl cs) && (cs.splitOn '/').all validSegment))

def isZero (t : Time) : Bool := t = parseWireTime Request.zeroTime

def checkResource (hidden : Char → Bool) (r : Resource) : Except String Unit :=
  if r.kind = "fs" then require (r.branch = "") "resource.branch must be absent for kind fs"
  else if r.kind = "git" then checkBranch hidden r.branch
  else .error "resource.kind must be fs or git"

/-- The formats of all fields, whatever the signature. -/
def checkFormats (hidden : Char → Bool) (g : Grant) : Except String Unit := do
  require (g.v = 1) "v must be 1"
  require (isID 'g' g.id) "id must be \"g-\" followed by 32 lowercase hex characters"
  require (validKey g.iss) "iss must be a 43-character base64url identity key"
  require (validKey g.aud) "aud must be a 43-character base64url identity key"
  require (g.iss ≠ g.aud) "aud must differ from iss"
  require (isID 's' g.session) "session must be \"s-\" followed by 32 lowercase hex characters"
  require (g.action = "fs.read" ∨ g.action = "git.read") "action must be fs.read or git.read"
  require (Request.validRunCommand g.resource.label) "resource.label must be 1-64 characters from [a-z0-9._-]"
  checkResource hidden g.resource
  require (g.scope = "" ∨ validScopePath g.scope) "scope is not a valid path"
  require (¬isZero g.nbf) "nbf is required"
  require (g.nbf + minute ≤ g.exp ∧ g.exp ≤ g.nbf + 7 * day) "exp must be 1 minute to 7 days after nbf"

def checkActionKind (g : Grant) : Except String Unit :=
  require (g.resource.kind = if g.action = "git.read" then "git" else "fs") "action does not match resource.kind"

/-! ## The wire form -/

def resourceFields (r : Resource) : List (String × Json) :=
  [("kind", .str r.kind), ("label", .str r.label)] ++ if r.kind = "git" then [("branch", .str r.branch)] else []

def timeText (t : Time) : String := wireTimeText (wireTime t)

/-- `grantMap`. -/
def grantFields (g : Grant) : List (String × Json) :=
  [("v", .num (.int 1)), ("id", .str g.id), ("iss", .str g.iss), ("aud", .str g.aud), ("session", .str g.session),
    ("action", .str g.action), ("resource", .obj (resourceFields g.resource)), ("nbf", .str (timeText g.nbf)),
    ("exp", .str (timeText g.exp)), ("sensitive", .bool g.sensitive)] ++
    if g.scope = "" then [] else [("scope", .str g.scope)]

def grantMap (g : Grant) : Json := .obj (grantFields g)

def tokenValue (t : Token) : Json := .obj [("grant", grantMap t.grant), ("sig", .str t.sig)]

/-- `Canonical`. -/
def canonical (t : Token) : Except String String := canonicalValue (tokenValue t)

variable (ed : Ed25519) (hidden : Char → Bool)

def Grant.truncate (g : Grant) : Grant :=
  { g with nbf := parseWireTime (wireTime g.nbf), exp := parseWireTime (wireTime g.exp) }

def signTime (t : Time) : Except String Unit :=
  require ((parseTime (timeText t)).isSome) "capability: nbf/exp: must be RFC 3339 UTC with Z and whole seconds"

/-- `Sign`: the signature is over the canonical text of the grant. -/
def sign (priv : Bytes) (grant : Grant) : Except String Token := do
  require (priv.length = 64) "capability: bad private key length"
  let g := grant.truncate
  signTime g.nbf
  signTime g.exp
  (checkFormats hidden g).mapError ("capability: " ++ ·)
  (checkActionKind g).mapError ("capability: " ++ ·)
  require (encodeToString (publicKey priv) = g.iss) "capability: grant.iss does not match the signing key"
  let canon ← (canonicalValue (grantMap g)).mapError ("capability: canonicalize grant: " ++ ·)
  let tok : Token := ⟨g, encodeToString (ed.sign priv (domain ++ canon))⟩
  let wire ← (canonical tok).mapError ("capability: canonicalize token: " ++ ·)
  require (wire.utf8ByteSize ≤ maxTokenBytes)
    ("capability: token is " ++ toString wire.utf8ByteSize ++ " bytes, over the " ++
      toString maxTokenBytes ++ " limit")
  return tok

/-! ## Reading tokens -/

inductive Cause where
  | none
  | notUTF8
  | parse (e : ParseError)
  | text (s : String)
  deriving DecidableEq

/-- `VerifyError`. -/
structure VerifyError where
  reason : String
  step : Nat
  err : Cause := .none
  grantID : String := ""
  deriving DecidableEq

/-- A string member. -/
def textMember (gen : List (String × Json)) (key msg : String) : Except String String :=
  match gen.lookup key with
  | some (.str s) => .ok s
  | _ => .error msg

/-- `parseTime` of a member. -/
def timeMember (gen : List (String × Json)) (key : String) : Except String Time :=
  match gen.lookup key with
  | some (.str s) =>
    match parseTime s with
    | some w => .ok (parseWireTime w)
    | none => .error (key ++ ": must be RFC 3339 UTC with Z and whole seconds")
  | _ => .error (key ++ ": must be a string")

/-- The version is an integer. -/
def versionMember (gen : List (String × Json)) : Except String Int :=
  match gen.lookup "v" with
  | some (.num n) =>
    match n.int64? with
    | some v => .ok v
    | none => .error "v must be an integer"
  | _ => .error "v must be an integer"

def scopeMember (gen : List (String × Json)) : Except String String :=
  match gen.lookup "scope" with
  | none => .ok ""
  | some (.str s) => if s = "" then .error "scope must be a non-empty string when present" else .ok s
  | some _ => .error "scope must be a non-empty string when present"

def sensitiveMember (gen : List (String × Json)) : Except String Bool :=
  match gen.lookup "sensitive" with
  | some (.bool b) => .ok b
  | _ => .error "sensitive must be a boolean"

/-- The two kinds of resources. -/
def decodeResource (res : List (String × Json)) : Except String Resource := do
  let kind ← textMember res "kind" "resource.kind must be a string"
  if kind = "fs" then
    require (res.length = 2) "resource must have exactly kind and label for kind fs"
    let label ← textMember res "label" "resource.label must be a string"
    return { kind, label }
  else if kind = "git" then
    require (res.length = 3) "resource must have exactly kind, label and branch for kind git"
    let label ← textMember res "label" "resource.label must be a string"
    let branch ← textMember res "branch" "resource.branch must be a string"
    return { kind, label, branch }
  else .error "resource.kind must be fs or git"

def resourceMember (gen : List (String × Json)) : Except String Resource :=
  match gen.lookup "resource" with
  | some (.obj res) => decodeResource res
  | _ => .error "resource must be an object"

/-- A grant has exactly the members of its version. -/
def decodeGrant (gen : List (String × Json)) : Except String Grant := do
  require (gen.length = if (gen.lookup "scope").isSome then 11 else 10)
    "grant must have exactly the members of Docs/protocol/grant.md §Grant object"
  let v ← versionMember gen
  let id ← textMember gen "id" "id must be a string"
  let iss ← textMember gen "iss" "iss must be a string"
  let aud ← textMember gen "aud" "aud must be a string"
  let session ← textMember gen "session" "session must be a string"
  let action ← textMember gen "action" "action must be a string"
  let scope ← scopeMember gen
  let sensitive ← sensitiveMember gen
  let nbf ← timeMember gen "nbf"
  let exp ← timeMember gen "exp"
  let resource ← resourceMember gen
  return { v, id, iss, aud, session, action, resource, scope, nbf, exp, sensitive }

def tokenMembers : Json → Except Cause (List (String × Json) × String)
  | .obj top =>
    if top.length ≠ 2 then .error (.text "token must be an object with exactly grant and sig")
    else
      match top.lookup "grant" with
      | some (.obj gen) =>
        match top.lookup "sig" with
        | some (.str sig) => .ok (gen, sig)
        | _ => .error (.text "missing sig")
      | _ => .error (.text "missing grant object")
  | _ => .error (.text "token must be an object with exactly grant and sig")

/-- The members of the grant as they stood, and the token. -/
def parseToken (raw : ByteArray) : Except Cause (List (String × Json) × Token) :=
  match String.fromUTF8? raw with
  | none => .error .notUTF8
  | some text => do
    let doc ← (parseStrict text).mapError .parse
    let (gen, sig) ← tokenMembers doc
    let g ← (decodeGrant gen).mapError .text
    return (gen, ⟨g, sig⟩)

/-! ## Verification -/

/-- Whose grant it is. -/
inductive Role where
  | holder | grantor | other
  deriving DecidableEq

structure VerifyParams where
  role : Role
  self : String
  counterparty : String
  now : Time
  sessionOpen : Option (String → String → String → Bool × Bool)

def expectedIss (p : VerifyParams) : Option String :=
  match p.role with
  | .holder => some p.counterparty
  | .grantor => some p.self
  | .other => none

def expectedAud (p : VerifyParams) : String := if p.role = .grantor then p.counterparty else p.self

def checkIssuer (p : VerifyParams) (g : Grant) : Except VerifyError Unit :=
  match expectedIss p with
  | none => .error { reason := "wrong_issuer", step := 3, err := .text "unknown role" }
  | some iss => require (g.iss = iss) { reason := "wrong_issuer", step := 3 }

def badSignature (err : Cause) : VerifyError := { reason := "bad_signature", step := 4, err }

/-- The signature is over the members as they stood. -/
def checkSignature (gen : List (String × Json)) (tok : Token) : Except VerifyError Unit :=
  match (decodeString tok.grant.iss).filter fun k => k.length = 32 with
  | none => .error (badSignature (.text "bad issuer key"))
  | some issKey => do
    require (isBase64url 86 tok.sig) (badSignature (.text "bad signature encoding"))
    match (decodeString tok.sig).filter fun s => s.length = 64 with
    | none => .error (badSignature (.text "bad signature encoding"))
    | some sig => do
      let canon ← (canonicalValue (.obj gen)).mapError fun e => badSignature (.text e)
      require (ed.verify issKey (domain ++ canon) sig) (badSignature .none)

def checkSession (p : VerifyParams) (g : Grant) : Except VerifyError Unit :=
  match p.sessionOpen with
  | none => .error { reason := "unknown_session", step := 7, err := .text "no session lookup configured" }
  | some lookup => do
    let (known, isOpen) := lookup g.session g.iss g.aud
    require known { reason := "unknown_session", step := 7, grantID := g.id }
    require isOpen { reason := "session_not_open", step := 7 }

/-- `Verify`, steps 1 to 8. -/
def verify (p : VerifyParams) (raw : ByteArray) : Except VerifyError Grant := do
  let oversize := "token is " ++ toString raw.size ++ " bytes, over the " ++ toString maxTokenBytes ++ " limit"
  require (raw.size ≤ maxTokenBytes) { reason := "malformed", step := 1, err := .text oversize }
  let (gen, tok) ← (parseToken raw).mapError fun e => { reason := "malformed", step := 1, err := e }
  let g := tok.grant
  (checkFormats hidden g).mapError fun e => { reason := "malformed", step := 2, err := .text e }
  checkIssuer p g
  checkSignature ed gen tok
  require (g.aud = expectedAud p) { reason := "wrong_audience", step := 5 }
  require (g.nbf ≤ p.now + 10 * minute) { reason := "not_yet_valid", step := 6 }
  require (p.now < g.exp) { reason := "expired", step := 6 }
  checkSession p g
  (checkActionKind g).mapError fun e => { reason := "malformed", step := 8, err := .text e }
  return g

end Agentnet.Capability
