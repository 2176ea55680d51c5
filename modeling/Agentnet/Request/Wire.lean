import Agentnet.Canonical.Marshal
import Agentnet.Request.Object
import Agentnet.Times

/-! The request object before it is known to be valid: its rules, the two encoders of it, `Canonical` and
`WireBody`, and the strict decoder. -/

namespace Agentnet.Request

open Lib Canonical

/-- `DebateMember`, with any numbers. -/
structure DebateSpec where
  commitment : String
  rounds : Int
  turnTimeoutS : Int
  deriving DecidableEq

/-- The zero `time.Time`. -/
def noTime : Time := parseWireTime zeroTime

/-- `Request`. An empty text, `noTime` and `none` are absent members. -/
structure Object where
  v : Int
  id : String
  from' : String
  to' : String
  team : String
  type : String
  title : String
  brief : String
  urgency : String
  urgencyDeclared : String := ""
  urgencyReason : String := ""
  artifacts : List Artifact := []
  requestedGrant : Option RequestedGrant := none
  deadline : Time := noTime
  created : Time
  context : Option (List ContextFile) := none
  run : Option String := none
  debate : Option DebateSpec := none
  deriving DecidableEq

namespace Object

/-! ## Rules -/

/-- The members of a debate belong to that type only. -/
def validateDebate (r : Object) : Except FieldError Unit :=
  if r.type ≠ "debate" then require (r.debate = none) ⟨"debate", "is allowed only when type is debate"⟩
  else
    match r.debate with
    | none => .error ⟨"debate", "is required when type is debate"⟩
    | some d => do
      require (d.commitment.length = 64 ∧ d.commitment.toList.all isLowerHex)
        ⟨"debate.commitment", "must be 64 lowercase hex characters"⟩
      require (1 ≤ d.rounds ∧ d.rounds ≤ 5) ⟨"debate.rounds", "must be 1-5"⟩
      require (300 ≤ d.turnTimeoutS ∧ d.turnTimeoutS ≤ 86400) ⟨"debate.turn_timeout_s", "must be 300-86400"⟩
      require (r.requestedGrant = none) ⟨"requested_grant", "is not allowed on a debate (debates carry no grants)"⟩
      require (r.run = none) ⟨"run", "is not allowed on a debate"⟩
      require (¬(hasC1 r.brief || r.brief.toList.any fun c => c.toNat == 0x2028 || c.toNat == 0x2029))
        ⟨"brief", "must not contain control characters other than \\n and \\t"⟩

/-- The urgency and the one that was declared. -/
def validateUrgency (r : Object) : Except FieldError Unit := do
  require (r.urgency ∈ ["low", "normal", "high", "blocking"]) ⟨"urgency", "must be low, normal, high or blocking"⟩
  whenPresent r.urgencyDeclared do
    require (r.urgencyDeclared ∈ ["high", "blocking"]) ⟨"urgency_declared", "must be high or blocking when present"⟩
    require (r.urgency = "normal") ⟨"urgency_declared", "urgency must be normal when urgency_declared is set"⟩
  require (¬((r.urgencyDeclared ≠ "" ∨ r.urgency = "high" ∨ r.urgency = "blocking") ∧ r.urgencyReason = ""))
    ⟨"urgency_reason", "is required when urgency_declared is set or urgency is high or blocking"⟩
  whenPresent r.urgencyReason (checkCodePoints "urgency_reason" r.urgencyReason 1 280 "")

def validateContext (r : Object) (files : List ContextFile) : Except FieldError Unit := do
  require (r.type = "question" ∨ r.type = "debate") ⟨"context", "is allowed only when type is question or debate"⟩
  require (1 ≤ files.length ∧ files.length ≤ 8) ⟨"context", "must hold 1-8 files"⟩
  validateContextFiles 0 files

/-- `Validate`. -/
def validate (r : Object) : Except FieldError Unit := do
  require (r.v = 1) ⟨"v", "must be 1"⟩
  require (validID r.id) ⟨"id", "must be \"r-\" followed by 32 lowercase hex characters"⟩
  require (validKey r.from') ⟨"from", "must be a 43-character base64url identity key"⟩
  require (validKey r.to') ⟨"to", "must be a 43-character base64url identity key"⟩
  require (validTeam r.team) ⟨"team", "must be \"t-\" followed by 32 hex characters"⟩
  require (r.type ∈ ["review", "task", "question", "debate"]) ⟨"type", "must be review, task, question or debate"⟩
  checkCodePoints "title" r.title 1 120 ""
  checkBriefBytes r.brief
  r.validateDebate
  r.validateUrgency
  require (r.artifacts.length ≤ 20) ⟨"artifacts", "must hold 0-20 artifacts"⟩
  validateArtifacts "artifacts" 0 r.artifacts
  whenSome validateGrant r.requestedGrant
  whenSome r.validateContext r.context
  whenSome (fun command =>
    require (validRunCommand command) ⟨"run.command", "must be 1-64 characters from [a-z0-9._-]"⟩) r.run
  require (r.created ≠ noTime) ⟨"created", "is required"⟩
  require (r.deadline = noTime ∨ r.created < r.deadline) ⟨"deadline", "must be later than created"⟩

/-! ## Encoders -/

def debateValue (d : DebateSpec) : Json :=
  .obj [("commitment", .str d.commitment), ("rounds", .num (.int d.rounds)),
    ("turn_timeout_s", .num (.int d.turnTimeoutS))]

def timeValue (t : Time) : Json := .str (wireTimeText (wireTime t))

/-- `Canonical` and `WireBody` write the same members, but for the version. `Format` drops what is less than a second,
which `WireBody` has cut off before. -/
def members (v : Int) (r : Object) : JsonObject :=
  [("v", .num (.int v)), ("id", .str r.id), ("from", .str r.from'), ("to", .str r.to'), ("team", .str r.team),
    ("type", .str r.type), ("title", .str r.title), ("brief", .str r.brief), ("urgency", .str r.urgency),
    ("artifacts", .arr (r.artifacts.map artifactValue)), ("created", timeValue r.created)] ++
  (textMember "urgency_declared" r.urgencyDeclared ++ (textMember "urgency_reason" r.urgencyReason ++
  (optMember "requested_grant" grantValue r.requestedGrant ++
  (optMember "deadline" timeValue (if r.deadline = noTime then none else some r.deadline) ++
  (optMember "context" (fun files => .arr (files.map contextValue)) (r.context.filter fun files => !files.isEmpty) ++
  (optMember "run" (fun command => .obj [("command", .str command)]) r.run ++
  optMember "debate" debateValue r.debate))))))

/-- `Canonical`. -/
def canonical (r : Object) : Except String String := canonicalValue (.obj (r.members 1))

/-- `WireBody`. -/
def wireBody (r : Object) : JsonObject := [("request", .obj (r.members r.v))]

end Object

/-! ## The decoder -/

def allowedMembers : List String :=
  ["v", "id", "from", "to", "team", "type", "title", "brief", "urgency", "artifacts", "created", "urgency_declared",
    "urgency_reason", "requested_grant", "deadline", "context", "run", "debate"]

def requiredMembers : List String :=
  ["v", "id", "from", "to", "team", "type", "title", "brief", "urgency", "artifacts", "created"]

/-- Refuse a member whose name is not `allowed`, in the words of `refusal`. -/
def onlyMembers (allowed : List String) (refusal : String → FieldError) (body : JsonObject) :
    Except FieldError Unit :=
  match body.find? fun m => decide (m.1 ∉ allowed) with
  | some m => .error (refusal m.1)
  | none => .ok ()

def unknownMember (field key : String) : FieldError := ⟨field, "has unknown member \"" ++ key ++ "\""⟩

/-- Every name of `required` is one of the body. -/
def allMembers (body : JsonObject) : List String → Except FieldError Unit
  | [] => .ok ()
  | key :: required => do
    require ((Json.member body key).isSome) ⟨key, "is required"⟩
    allMembers body required

/-- A string member; an optional one may be missing. -/
def decodeString (body : JsonObject) (field : String) (optional : Bool) : Except FieldError String :=
  match Json.member body field with
  | none => if optional then .ok "" else .error ⟨field, "is required"⟩
  | some (.str s) =>
    if optional ∧ s = "" then .error ⟨field, "must not be empty when present"⟩ else .ok s
  | some _ => .error ⟨field, "must be a string"⟩

/-- An integer member, written without fraction. -/
def decodeInt (body : JsonObject) (field : String) : Except FieldError Int :=
  match Json.member body field with
  | none => .error ⟨field, "is required"⟩
  | some (.num n) =>
    match n.int64? with
    | some i => .ok i
    | none => .error ⟨field, "must be an integer"⟩
  | some _ => .error ⟨field, "must be an integer"⟩

/-- A time of the wire. -/
def decodeTime (field : String) : Json → Except FieldError Time
  | .str s =>
    match parseTime s with
    | some w => .ok (parseWireTime w)
    | none => .error ⟨field, "must be RFC 3339 UTC with Z and whole seconds"⟩
  | _ => .error ⟨field, "must be a string"⟩

/-- The members of one artifact, `a` so far. -/
def decodeArtifact (field : String) (a : Artifact) : JsonObject → Except FieldError Artifact
  | [] => .ok a
  | (key, value) :: rest =>
    match setArtifactField a key "", value with
    | none, _ => .error (unknownMember field key)
    | some _, .str s =>
      if s = "" then .error ⟨field ++ "." ++ key, "must not be empty when present"⟩
      else decodeArtifact field ((setArtifactField a key s).getD a) rest
    | some _, _ => .error ⟨field ++ "." ++ key, "must be a string"⟩

def decodeArtifactList (base : String) : Nat → List Json → Except FieldError (List Artifact)
  | _, [] => .ok []
  | i, .obj members :: rest => do
    let a ← decodeArtifact (base ++ "[" ++ toString i ++ "]") {} members
    let tail ← decodeArtifactList base (i + 1) rest
    return a :: tail
  | i, _ :: _ => .error ⟨base ++ "[" ++ toString i ++ "]", "must be an object"⟩

/-- `decodeArtifactsAt`. -/
def decodeArtifactsAt (base : String) : Json → Except FieldError (List Artifact)
  | .arr items => decodeArtifactList base 0 items
  | _ => .error ⟨base, "must be an array"⟩

def nestedString (field : String) (obj : JsonObject) (key : String) : Except FieldError String :=
  match Json.member obj key with
  | some (.str s) => .ok s
  | _ => .error ⟨field ++ "." ++ key, "is required and must be a string"⟩

def nestedInt (field : String) (obj : JsonObject) (key : String) : Except FieldError Int :=
  match decodeInt obj key with
  | .ok i => .ok i
  | .error _ => .error ⟨field ++ "." ++ key, "is required and must be an integer"⟩

def decodeContextFile (field : String) (obj : JsonObject) : Except FieldError ContextFile := do
  onlyMembers ["name", "text"] (unknownMember field) obj
  let name ← nestedString field obj "name"
  let text ← nestedString field obj "text"
  return ⟨name, text⟩

def decodeContextFiles : Nat → List Json → Except FieldError (List ContextFile)
  | _, [] => .ok []
  | i, .obj members :: rest => do
    let f ← decodeContextFile ("context[" ++ toString i ++ "]") members
    let tail ← decodeContextFiles (i + 1) rest
    return f :: tail
  | i, _ :: _ => .error ⟨"context[" ++ toString i ++ "]", "must be an object"⟩

def decodeContext : Json → Except FieldError (List ContextFile)
  | .arr items => decodeContextFiles 0 items
  | _ => .error ⟨"context", "must be an array"⟩

def decodeRun : Json → Except FieldError String
  | .obj obj => do
    onlyMembers ["command"] (unknownMember "run") obj
    nestedString "run" obj "command"
  | _ => .error ⟨"run", "must be an object"⟩

def decodeDebate : Json → Except FieldError DebateSpec
  | .obj obj => do
    onlyMembers ["commitment", "rounds", "turn_timeout_s"] (unknownMember "debate") obj
    let commitment ← nestedString "debate" obj "commitment"
    let rounds ← nestedInt "debate" obj "rounds"
    let turnTimeoutS ← nestedInt "debate" obj "turn_timeout_s"
    return ⟨commitment, rounds, turnTimeoutS⟩
  | _ => .error ⟨"debate", "must be an object"⟩

def decodeNote (obj : JsonObject) : Except FieldError String :=
  match Json.member obj "note" with
  | none => .ok ""
  | some (.str s) => if s = "" then .error ⟨"requested_grant.note", "must not be empty when present"⟩ else .ok s
  | some _ => .error ⟨"requested_grant.note", "must be a string"⟩

/-- The requested grant has known members only. -/
def decodeGrant : Json → Except FieldError RequestedGrant
  | .obj obj => do
    onlyMembers ["action", "resource", "note"] (unknownMember "requested_grant") obj
    let action ← nestedString "requested_grant" obj "action"
    let resource ← nestedString "requested_grant" obj "resource"
    let note ← decodeNote obj
    return ⟨action, resource, note⟩
  | _ => .error ⟨"requested_grant", "must be an object"⟩

def decodeIfPresent {α : Type} (decode : Json → Except FieldError α) : Option Json → Except FieldError (Option α)
  | none => .ok none
  | some value => (decode value).map some

/-- `Decode`. -/
def decode (body : JsonObject) : Except FieldError Object := do
  onlyMembers allowedMembers (fun key => ⟨key, "is not a recognised member"⟩) body
  allMembers body requiredMembers
  let v ← decodeInt body "v"
  let id ← decodeString body "id" false
  let from' ← decodeString body "from" false
  let to' ← decodeString body "to" false
  let team ← decodeString body "team" false
  let type ← decodeString body "type" false
  let title ← decodeString body "title" false
  let brief ← decodeString body "brief" false
  let urgency ← decodeString body "urgency" false
  let urgencyDeclared ← decodeString body "urgency_declared" true
  let urgencyReason ← decodeString body "urgency_reason" true
  let artifacts ← decodeArtifactsAt "artifacts" ((Json.member body "artifacts").getD .null)
  let requestedGrant ← decodeIfPresent decodeGrant (Json.member body "requested_grant")
  let deadline ← decodeIfPresent (decodeTime "deadline") (Json.member body "deadline")
  let context ← decodeIfPresent decodeContext (Json.member body "context")
  let run ← decodeIfPresent decodeRun (Json.member body "run")
  let debate ← decodeIfPresent decodeDebate (Json.member body "debate")
  let created ← decodeTime "created" ((Json.member body "created").getD .null)
  let r : Object :=
    { v, id, from', to', team, type, title, brief, urgency, urgencyDeclared, urgencyReason, artifacts, requestedGrant
      deadline := deadline.getD noTime, created, context, run, debate }
  r.validate
  return r

inductive StoredBodyError where
  | parse (e : ParseError)
  | notAnObject

/-- `parseStoredBodyObj`: the stored canonical body, for `request_resend`. -/
def parseStoredBodyObj (body : String) : Except StoredBodyError JsonObject :=
  match parseStrict body with
  | .error e => .error (.parse e)
  | .ok (.obj obj) => .ok obj
  | .ok _ => .error .notAnObject

/-- The head of `apply`: the request in the body of a mail. -/
def requestOf (body : JsonObject) : Except Error Object :=
  match Json.member body "request" with
  | some (.obj raw) => do
    match body.find? fun m => decide (m.1 ≠ "request") with
    | some m => .error (.badBody ("request: unknown top-level member \"" ++ m.1 ++ "\""))
    | none => orBadBody "request" (decode raw)
  | _ => .error (.badBody "request: body must hold a \"request\" object")

end Agentnet.Request
