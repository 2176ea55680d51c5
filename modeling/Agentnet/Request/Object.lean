import Agentnet.Request.Result

/-! The request object: its members, field rules, canonical form and size cap. -/

namespace Agentnet.Request
open Agentnet.Lib

inductive RequestType where
  | review | task | question | debate
  deriving DecidableEq

/-- The text on the wire. -/
def RequestType.text : RequestType → String
  | .review => "review" | .task => "task" | .question => "question" | .debate => "debate"

inductive Urgency where
  | low | normal | high | blocking
  deriving DecidableEq

/-- The text on the wire. -/
def Urgency.text : Urgency → String
  | .low => "low" | .normal => "normal" | .high => "high" | .blocking => "blocking"

structure RequestedGrant where
  action : String
  resource : String
  note : String := ""
  deriving DecidableEq

structure ContextFile where
  name : String
  text : String
  deriving DecidableEq

/-- The initiator's commitment and the turn parameters of a debate request. -/
structure DebateMember where
  commitment : String
  rounds : Nat
  turnTimeoutS : Nat
  deriving DecidableEq

/-- The body of kind `request`. `run` is the name of a configured command. -/
structure Body where
  id : RequestID
  from' : PeerKey
  to' : PeerKey
  team : TeamID
  type : RequestType
  title : String
  brief : String
  urgency : Urgency
  urgencyDeclared : Option Urgency := none
  urgencyReason : String := ""
  artifacts : List Artifact := []
  requestedGrant : Option RequestedGrant := none
  deadline : Option WireTime := none
  created : WireTime
  context : Option (List ContextFile) := none
  run : Option String := none
  debate : Option DebateMember := none
  deriving DecidableEq

def isKeyChar (c : Char) : Bool := c.isAlphanum || c == '_' || c == '-'

def validKey (s : PeerKey) : Bool := s.length == 43 && s.toList.all isKeyChar

/-- `t-` and 32 lowercase hex characters. -/
def validTeam (s : TeamID) : Bool :=
  match s.toList with
  | 't' :: '-' :: rest => rest.length == 32 && rest.all isLowerHex
  | _ => false

def isNameChar (c : Char) : Bool := ('a' ≤ c && c ≤ 'z') || ('0' ≤ c && c ≤ '9') || c == '.' || c == '_' || c == '-'

/-- `ValidRunCommand`; the grant action has the same alphabet and length. -/
def validRunCommand (s : String) : Bool := 1 ≤ s.length && s.length ≤ 64 && s.toList.all isNameChar

def hasC1 (s : String) : Bool := s.toList.any fun r => 0x80 ≤ r.toNat && r.toNat ≤ 0x9F

def checkBriefBytes (s : String) : Except FieldError Unit := do
  checkBytes "brief" s 1 16384
  require (¬hasControl s "\n\t")
    ⟨"brief", "must not contain control characters other than \\n and \\t"⟩

/-- `validateDebate` on a debate request. -/
def validateDebateMember (r : Body) (d : DebateMember) : Except FieldError Unit := do
  require (d.commitment.length = 64 ∧ d.commitment.toList.all isLowerHex)
    ⟨"debate.commitment", "must be 64 lowercase hex characters"⟩
  require (1 ≤ d.rounds ∧ d.rounds ≤ 5) ⟨"debate.rounds", "must be 1-5"⟩
  require (300 ≤ d.turnTimeoutS ∧ d.turnTimeoutS ≤ 86400)
    ⟨"debate.turn_timeout_s", "must be 300-86400"⟩
  require (r.requestedGrant = none)
    ⟨"requested_grant", "is not allowed on a debate (debates carry no grants)"⟩
  require (r.run = none) ⟨"run", "is not allowed on a debate"⟩
  require (¬(hasC1 r.brief || r.brief.toList.any fun c => c.toNat == 0x2028 || c.toNat == 0x2029))
    ⟨"brief", "must not contain control characters other than \\n and \\t"⟩

def validateDebate (r : Body) : Except FieldError Unit :=
  match r.type, r.debate with
  | .debate, some d => validateDebateMember r d
  | .debate, none => .error ⟨"debate", "is required when type is debate"⟩
  | _, some _ => .error ⟨"debate", "is allowed only when type is debate"⟩
  | _, none => .ok ()

/-- A declared urgency means that the sender already lowered it to normal. -/
def checkDeclared (urgency : Urgency) : Option Urgency → Except FieldError Unit
  | none => .ok ()
  | some declared => do
    require (declared = .high ∨ declared = .blocking)
      ⟨"urgency_declared", "must be high or blocking when present"⟩
    require (urgency = .normal)
      ⟨"urgency_declared", "urgency must be normal when urgency_declared is set"⟩

def validateUrgency (r : Body) : Except FieldError Unit := do
  checkDeclared r.urgency r.urgencyDeclared
  require (¬((r.urgencyDeclared.isSome ∨ r.urgency = .high ∨ r.urgency = .blocking) ∧ r.urgencyReason = ""))
    ⟨"urgency_reason", "is required when urgency_declared is set or urgency is high or blocking"⟩
  whenPresent r.urgencyReason (checkCodePoints "urgency_reason" r.urgencyReason 1 280 "")

def validateGrant (g : RequestedGrant) : Except FieldError Unit := do
  require (validRunCommand g.action)
    ⟨"requested_grant.action", "must be 1-64 characters from [a-z0-9._-]"⟩
  checkBytes "requested_grant.resource" g.resource 1 512
  require (¬hasControl g.resource "")
    ⟨"requested_grant.resource", "must not contain control characters"⟩
  whenPresent g.note (checkCodePoints "requested_grant.note" g.note 1 280 "")

def validateContextFile (i : Nat) (f : ContextFile) : Except FieldError Unit := do
  let nameField := "context[" ++ toString i ++ "].name"
  let textField := "context[" ++ toString i ++ "].text"
  checkBytes nameField f.name 1 255
  require (¬(f.name = "." ∨ f.name = ".." ∨ f.name.toList.any ("/\\".toList.contains ·) ∨
    hasControl f.name "" ∨ hasC1 f.name))
    ⟨nameField, "must be a base name without / \\ or control characters, not . or .."⟩
  checkBytes textField f.text 1 65536
  require (¬(hasControl f.text "\n\t" || hasC1 f.text))
    ⟨textField, "must not contain control characters other than \\n and \\t"⟩

def validateContextFiles : Nat → List ContextFile → Except FieldError Unit
  | _, [] => .ok ()
  | i, f :: rest => do
    validateContextFile i f
    validateContextFiles (i + 1) rest

def validateContext (type : RequestType) (files : List ContextFile) : Except FieldError Unit := do
  require (type = .question ∨ type = .debate)
    ⟨"context", "is allowed only when type is question or debate"⟩
  require (1 ≤ files.length ∧ files.length ≤ 8) ⟨"context", "must hold 1-8 files"⟩
  validateContextFiles 0 files

def zeroTime : WireTime := -62135596800

def whenSome {α : Type} (check : α → Except FieldError Unit) : Option α → Except FieldError Unit
  | none => .ok ()
  | some a => check a

/-- `Validate`: the first violation of the field rules. The version, the type and
the urgency are right by their types. -/
def validate (r : Body) : Except FieldError Unit := do
  require (validID r.id) ⟨"id", "must be \"r-\" followed by 32 lowercase hex characters"⟩
  require (validKey r.from') ⟨"from", "must be a 43-character base64url identity key"⟩
  require (validKey r.to') ⟨"to", "must be a 43-character base64url identity key"⟩
  require (validTeam r.team) ⟨"team", "must be \"t-\" followed by 32 hex characters"⟩
  checkCodePoints "title" r.title 1 120 ""
  checkBriefBytes r.brief
  validateDebate r
  validateUrgency r
  require (r.artifacts.length ≤ 20) ⟨"artifacts", "must hold 0-20 artifacts"⟩
  validateArtifacts "artifacts" 0 r.artifacts
  whenSome validateGrant r.requestedGrant
  whenSome (validateContext r.type) r.context
  whenSome (fun command => require (validRunCommand command)
    ⟨"run.command", "must be 1-64 characters from [a-z0-9._-]"⟩) r.run
  require (r.created ≠ zeroTime) ⟨"created", "is required"⟩
  whenSome (fun deadline => require (r.created < deadline)
    ⟨"deadline", "must be later than created"⟩) r.deadline

theorem urgency_of_declared {r : Body} (h : validate r = .ok ()) (declared : r.urgencyDeclared.isSome) :
    r.urgency = .normal := by
  simp only [validate, bind_eq_ok] at h
  obtain ⟨_, _, _, _, _, _, _, _, _, _, _, _, _, _, _, urgency, _⟩ := h
  rw [validateUrgency, bind_eq_ok] at urgency
  obtain ⟨_, lowered, _⟩ := urgency
  obtain ⟨d, some⟩ := Option.isSome_iff_exists.mp declared
  rw [some, checkDeclared, bind_eq_ok] at lowered
  simpa using lowered.choose_spec.2

theorem type_of_undebated {r : Body} (h : validate r = .ok ()) (undebated : r.debate = none) : r.type ≠ .debate := by
  simp only [validate, bind_eq_ok] at h
  obtain ⟨_, _, _, _, _, _, _, _, _, _, _, _, _, debate, _⟩ := h
  intro isDebate
  rw [validateDebate, isDebate, undebated] at debate
  cases debate

/-- A member that is left out when there is no value. -/
def optMember {α : Type} (key : String) (value : α → Json) : Option α → JsonObject
  | none => []
  | some a => [(key, value a)]

def grantValue (g : RequestedGrant) : Json :=
  .obj ([("action", .str g.action), ("resource", .str g.resource)] ++ textMember "note" g.note)

def contextValue (f : ContextFile) : Json := .obj [("name", .str f.name), ("text", .str f.text)]

def debateValue (d : DebateMember) : Json :=
  .obj [("commitment", .str d.commitment), ("rounds", .num (.int d.rounds)),
    ("turn_timeout_s", .num (.int d.turnTimeoutS))]

/-- The object of `Canonical`, absent members omitted. -/
def requestValue (r : Body) : JsonObject :=
  [("v", .num (.int 1)), ("id", .str r.id), ("from", .str r.from'), ("to", .str r.to'),
    ("team", .str r.team), ("type", .str r.type.text), ("title", .str r.title),
    ("brief", .str r.brief), ("urgency", .str r.urgency.text),
    ("artifacts", .arr (r.artifacts.map artifactValue)),
    ("created", .str (wireTimeText r.created))] ++
  optMember "urgency_declared" (fun u => .str u.text) r.urgencyDeclared ++
  textMember "urgency_reason" r.urgencyReason ++
  optMember "requested_grant" grantValue r.requestedGrant ++
  optMember "deadline" (fun t => .str (wireTimeText t)) r.deadline ++
  optMember "context" (fun files => .arr (files.map contextValue)) r.context ++
  optMember "run" (fun command => .obj [("command", .str command)]) r.run ++
  optMember "debate" debateValue r.debate

/-- `Canonical`. -/
def canonical (r : Body) : Except String String := canonicalValue (.obj (requestValue r))

def maxBody (r : Body) : Nat := if (r.type = .question ∨ r.type = .debate) ∧ r.context.isSome then 327680 else 65536

/-- `CheckSizeFor`. -/
def checkSizeFor (r : Body) (canon : String) : Except Error Unit :=
  require (canon.utf8ByteSize ≤ maxBody r)
    (.tooLarge "canonical request" canon.utf8ByteSize (maxBody r))

end Agentnet.Request
