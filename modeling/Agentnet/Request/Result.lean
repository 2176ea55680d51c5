import Agentnet.Basic
import Agentnet.Lib.Except

/-! The result payload of `request.complete`: field rules, strict decoding and
the canonical object, which decodes back to the result it was built from. -/

namespace Agentnet.Request
open Agentnet.Lib

/-- The members of a generic JSON object. A JSON column holds canonical text; it
is modelled by the object of that text. -/
abbrev JsonObject := List (String × Json)

/-- A reference to what was made; each text may be empty. -/
structure Artifact where
  url : String := ""
  branch : String := ""
  commit : String := ""
  path : String := ""
  deriving DecidableEq

/-- `nil` artifacts are `none`; an empty list is distinct and fails validation. -/
structure Result where
  status : String
  summary : String := ""
  exitCode : Option Int := none
  output : String := ""
  artifacts : Option (List Artifact) := none
  deriving DecidableEq

def maxCompleteBody : Nat := 65536

/-- The ASCII letter a character lowers to, where that decides a scheme. -/
def lowerChar (c : Char) : Char := if c = 'İ' then 'i' else c.toLower

def hasScheme (s : String) : Bool :=
  ["https://", "http://", "ssh://", "git://"].any fun scheme => scheme.toList.isPrefixOf (s.toList.map lowerChar)

def checkURL (field s : String) : Except FieldError Unit := do
  checkBytes field s 1 2048
  require (hasScheme s) ⟨field, "must start with https://, http://, ssh:// or git://"⟩
  require (¬(s.toList.contains ' ' || hasControl s ""))
    ⟨field, "must not contain spaces or control characters"⟩

def hasDotDot : List Char → Bool
  | '.' :: '.' :: _ => true
  | _ :: rest => hasDotDot rest
  | [] => false

def checkBranch (field s : String) : Except FieldError Unit := do
  checkBytes field s 1 255
  require (¬(s.toList.contains ' ' || hasControl s "" ||
      s.toList.any ("~^:?*[\\".toList.contains ·)))
    ⟨field, "must not contain spaces, control characters or ~ ^ : ? * [ \\"⟩
  require (¬hasDotDot s.toList) ⟨field, "must not contain \"..\""⟩

def checkCommit (field s : String) : Except FieldError Unit :=
  require (7 ≤ s.length ∧ s.length ≤ 64 ∧ s.toList.all isLowerHex)
    ⟨field, "must be 7-64 lowercase hex characters"⟩

def checkPath (field s : String) : Except FieldError Unit := do
  checkBytes field s 1 1024
  require (¬hasControl s "") ⟨field, "must not contain control characters"⟩

def validateArtifact (base : String) (i : Nat) (a : Artifact) : Except FieldError Unit := do
  let index := base ++ "[" ++ toString i ++ "]"
  require (¬(a.url = "" ∧ a.branch = "" ∧ a.commit = "" ∧ a.path = ""))
    ⟨index, "must have at least one member"⟩
  whenPresent a.url (checkURL (index ++ ".url") a.url)
  whenPresent a.branch (checkBranch (index ++ ".branch") a.branch)
  whenPresent a.commit (checkCommit (index ++ ".commit") a.commit)
  whenPresent a.path (checkPath (index ++ ".path") a.path)

def validateArtifacts (base : String) : Nat → List Artifact → Except FieldError Unit
  | _, [] => .ok ()
  | i, a :: rest => do
    validateArtifact base i a
    validateArtifacts base (i + 1) rest

def checkStatus (status : String) : Except FieldError Unit :=
  require (status ∈ ["pass", "fail", "partial", "n/a"])
    ⟨"result.status", "must be pass, fail, partial or n/a"⟩

def checkExitCode : Option Int → Except FieldError Unit
  | none => .ok ()
  | some code => require (-2147483648 ≤ code ∧ code ≤ 4294967295)
      ⟨"result.exit_code", "must be -2147483648 to 4294967295"⟩

def checkOutput (output : String) : Except FieldError Unit := do
  checkBytes "result.output" output 1 32768
  require (¬hasControl output "\n\t")
    ⟨"result.output", "must not contain control characters other than \\n and \\t"⟩

def checkArtifacts : Option (List Artifact) → Except FieldError Unit
  | none => .ok ()
  | some list => do
    require (¬(list.length < 1 ∨ list.length > 20))
      ⟨"result.artifacts", "must hold 1-20 artifacts"⟩
    validateArtifacts "result.artifacts" 0 list

/-- `ValidateComplete`: the first violation of the note and result rules. -/
def validateComplete (note : String) (result : Option Result) : Except FieldError Unit := do
  whenPresent note (checkCodePoints "note" note 1 2000 "")
  match result with
  | none => return ()
  | some r =>
    checkStatus r.status
    whenPresent r.summary (checkCodePoints "result.summary" r.summary 1 280 "")
    checkExitCode r.exitCode
    whenPresent r.output (checkOutput r.output)
    checkArtifacts r.artifacts

/-- An empty text is left out. -/
def textMember (key s : String) : JsonObject := if s = "" then [] else [(key, .str s)]

def artifactValue (a : Artifact) : Json :=
  .obj (textMember "url" a.url ++ textMember "branch" a.branch ++ textMember "commit" a.commit ++
    textMember "path" a.path)

def exitCodeMember : Option Int → JsonObject
  | none => []
  | some code => [("exit_code", .num (.int code))]

def artifactsMember : Option (List Artifact) → JsonObject
  | none => []
  | some [] => []
  | some (a :: rest) => [("artifacts", .arr ((a :: rest).map artifactValue))]

/-- `resultCanonicalValue`, which is also the wire form. -/
def resultCanonicalValue (r : Result) : JsonObject :=
  ("status", .str r.status) :: (textMember "summary" r.summary ++ exitCodeMember r.exitCode ++
    textMember "output" r.output ++ artifactsMember r.artifacts)

/-- `CanonicalResult`. -/
def canonicalResult (r : Result) : Except String String := canonicalValue (.obj (resultCanonicalValue r))

/-- `CheckCompleteSize` on the canonical text. -/
def checkCompleteSize (canon : String) : Except Error Unit :=
  require (canon.utf8ByteSize ≤ maxCompleteBody)
    (.tooLarge "canonical complete body" canon.utf8ByteSize maxCompleteBody)

theorem checkCompleteSize_error {canon : String} {e : Error}
    (h : checkCompleteSize canon = .error e) : ∃ what size limit, e = .tooLarge what size limit := by
  unfold checkCompleteSize at h
  exact ⟨_, _, _, (require_eq_error.mp h).2.symm⟩

def decodeRequired (field : String) : Option Json → Except FieldError String
  | none => .error ⟨field, "is required"⟩
  | some (.str s) => .ok s
  | some _ => .error ⟨field, "must be a string"⟩

def decodeOptional (field : String) : Option Json → Except FieldError String
  | none => .ok ""
  | some (.str s) => if s = "" then .error ⟨field, "must be absent, not empty"⟩ else .ok s
  | some _ => .error ⟨field, "must be a string"⟩

def decodeExitCode : Option Json → Except FieldError (Option Int)
  | none => .ok none
  | some (.num n) =>
    match n.int64? with
    | some code => .ok (some code)
    | none => .error ⟨"result.exit_code", "must be an integer"⟩
  | some _ => .error ⟨"result.exit_code", "must be an integer"⟩

def setArtifactField (a : Artifact) (key value : String) : Option Artifact :=
  if key = "url" then some { a with url := value }
  else if key = "branch" then some { a with branch := value }
  else if key = "commit" then some { a with commit := value }
  else if key = "path" then some { a with path := value }
  else none

def decodeArtifactMembers (field : String) (a : Artifact) : JsonObject → Except FieldError Artifact
  | [] => .ok a
  | (key, value) :: rest =>
    match setArtifactField a key "", value with
    | none, _ => .error ⟨field, "has unknown member \"" ++ key ++ "\""⟩
    | some _, .str s => decodeArtifactMembers field ((setArtifactField a key s).getD a) rest
    | some _, _ => .error ⟨field ++ "." ++ key, "must be a string"⟩

def decodeArtifacts (base : String) : Nat → List Json → Except FieldError (List Artifact)
  | _, [] => .ok []
  | i, .obj members :: rest => do
    let a ← decodeArtifactMembers (base ++ "[" ++ toString i ++ "]") {} members
    let tail ← decodeArtifacts base (i + 1) rest
    return a :: tail
  | i, _ :: _ => .error ⟨base ++ "[" ++ toString i ++ "]", "must be an object"⟩

def decodeArtifactsMember : Option Json → Except FieldError (Option (List Artifact))
  | none => .ok none
  | some (.arr items) => do
    let list ← decodeArtifacts "result.artifacts" 0 items
    return some list
  | some _ => .error ⟨"result.artifacts", "must be an array"⟩

/-- Reject a member whose name is not `allowed`. -/
def strictMembers (allowed : List String) (body : JsonObject) : Except FieldError Unit :=
  match body.find? fun m => decide (m.1 ∉ allowed) with
  | some m => .error ⟨"result." ++ m.1, "is not a recognised member"⟩
  | none => .ok ()

def d14Members : List String := ["status", "summary", "exit_code", "output", "artifacts"]

/-- `DecodeResult`. -/
def decodeResult (body : JsonObject) : Except FieldError Result := do
  strictMembers d14Members body
  let status ← decodeRequired "result.status" (Json.member body "status")
  let summary ← decodeOptional "result.summary" (Json.member body "summary")
  let exitCode ← decodeExitCode (Json.member body "exit_code")
  let output ← decodeOptional "result.output" (Json.member body "output")
  let artifacts ← decodeArtifactsMember (Json.member body "artifacts")
  return { status, summary, exitCode, output, artifacts }

/-- A member of two lists is found in the first that has it. -/
theorem member_append (a b : JsonObject) (key : String) :
    Json.member (a ++ b) key = (Json.member a key).or (Json.member b key) :=
  List.lookup_append

theorem member_singleton (key k : String) (value : Json) :
    Json.member [(key, value)] k = if k = key then some value else none := by
  by_cases same : k = key
  · simp [Json.member, same]
  · have other : (k == key) = false := by simpa using same
    simp [Json.member, List.lookup_cons, same, other]

theorem member_textMember (key k s : String) :
    Json.member (textMember key s) k = if k = key ∧ s ≠ "" then some (.str s) else none := by
  by_cases empty : s = ""
  · simp [textMember, empty, Json.member]
  · simp [textMember, empty, member_singleton]

theorem member_exitCodeMember (code : Option Int) (k : String) : Json.member (exitCodeMember code) k =
      if k = "exit_code" then code.map (fun c => .num (.int c)) else none := by
  cases code with
  | none => simp [exitCodeMember, Json.member]
  | some c => simp [exitCodeMember, member_singleton]

theorem member_artifactsMember (list : Option (List Artifact)) (k : String) (filled : list ≠ some []) :
    Json.member (artifactsMember list) k = if k = "artifacts" then list.map (fun l => .arr (l.map artifactValue))
      else none := by
  match list with
  | none => simp [artifactsMember, Json.member]
  | some [] => exact absurd rfl filled
  | some (a :: rest) => simp only [artifactsMember, member_singleton, Option.map_some]

@[simp] theorem decodeOptional_text (field s : String) :
    decodeOptional field (if s = "" then none else some (.str s)) = .ok s := by
  by_cases empty : s = ""
  · simp [empty, decodeOptional]
  · simp [empty, decodeOptional]

theorem decodeArtifactMembers_artifactValue (field : String) (a : Artifact) :
    ∃ members, artifactValue a = .obj members ∧ decodeArtifactMembers field {} members = .ok a := by
  refine ⟨_, rfl, ?_⟩
  obtain ⟨url, branch, commit, path⟩ := a
  by_cases hu : url = "" <;> by_cases hb : branch = "" <;> by_cases hc : commit = "" <;>
    by_cases hp : path = "" <;>
    simp [textMember, decodeArtifactMembers, setArtifactField, hu, hb, hc, hp]

theorem decodeArtifacts_artifactValue (base : String) (i : Nat) (list : List Artifact) :
    decodeArtifacts base i (list.map artifactValue) = .ok list := by
  induction list generalizing i with
  | nil => rfl
  | cons a rest ih =>
    obtain ⟨members, value, decoded⟩ := decodeArtifactMembers_artifactValue (base ++ "[" ++ toString i ++ "]") a
    simp only [List.map_cons, value, decodeArtifacts, decoded, ih, ok_bind]
    rfl

/-- What validation leaves of a result: no empty artifact list, an exit code in range. -/
structure Result.WellFormed (r : Result) : Prop where
  artifacts : r.artifacts ≠ some []
  exitCode : ∀ c, r.exitCode = some c → -2147483648 ≤ c ∧ c ≤ 4294967295

variable {r : Result} {m : String × Json}

theorem validateComplete_wellFormed {note : String} (h : validateComplete note (some r) = .ok ()) : r.WellFormed := by
  simp only [validateComplete, bind_eq_ok] at h
  obtain ⟨_, _, _, _, _, _, _, code, _, _, list⟩ := h
  constructor
  · intro empty
    simp [checkArtifacts, empty, bind_eq_ok] at list
  · intro c some
    simpa [checkExitCode, some] using code

theorem decodeExitCode_member (code : Option Int) (range : ∀ c, code = some c → -2147483648 ≤ c ∧ c ≤ 4294967295) :
    decodeExitCode (code.map fun c => .num (.int c)) = .ok code := by
  cases code with
  | none => rfl
  | some c =>
    obtain ⟨low, high⟩ := range c rfl
    have fits : -9223372036854775808 ≤ c ∧ c ≤ 9223372036854775807 := by omega
    simp [decodeExitCode, Number.int64?, fits]

theorem decodeArtifactsMember_list (list : Option (List Artifact)) :
    decodeArtifactsMember (list.map fun l => .arr (l.map artifactValue)) = .ok list := by
  cases list with
  | none => rfl
  | some l =>
    simp only [Option.map_some, decodeArtifactsMember, decodeArtifacts_artifactValue, ok_bind]
    rfl

theorem key_of_mem_textMember {key s : String} (h : m ∈ textMember key s) : m.1 = key := by
  by_cases empty : s = ""
  · simp [textMember, empty] at h
  · simp only [textMember, empty, if_false, List.mem_singleton] at h
    rw [h]

theorem key_of_mem_exitCodeMember {code : Option Int} (h : m ∈ exitCodeMember code) : m.1 = "exit_code" := by
  cases code with
  | none => simp [exitCodeMember] at h
  | some c =>
    simp only [exitCodeMember, List.mem_singleton] at h
    rw [h]

theorem key_of_mem_artifactsMember {list : Option (List Artifact)} (h : m ∈ artifactsMember list) :
    m.1 = "artifacts" := by
  match list, h with
  | none, h => simp [artifactsMember] at h
  | some [], h => simp [artifactsMember] at h
  | some (a :: rest), h =>
    simp only [artifactsMember, List.mem_singleton] at h
    rw [h]

theorem key_of_mem_resultCanonicalValue (h : m ∈ resultCanonicalValue r) : m.1 ∈ d14Members := by
  simp only [resultCanonicalValue, List.mem_cons, List.mem_append] at h
  rcases h with h | ((h | h) | h) | h
  · rw [h]; simp [d14Members]
  · rw [key_of_mem_textMember h]; simp [d14Members]
  · rw [key_of_mem_exitCodeMember h]; simp [d14Members]
  · rw [key_of_mem_textMember h]; simp [d14Members]
  · rw [key_of_mem_artifactsMember h]; simp [d14Members]

theorem strictMembers_ok {allowed : List String} {body : JsonObject}
    (h : ∀ m ∈ body, m.1 ∈ allowed) : strictMembers allowed body = .ok () := by
  have none : body.find? (fun m => decide (m.1 ∉ allowed)) = none :=
    List.find?_eq_none.mpr fun m member => by simpa using h m member
  rw [strictMembers, none]

theorem member_resultCanonicalValue (r : Result) (key : String) : Json.member (resultCanonicalValue r) key =
      (if key = "status" then some (.str r.status) else none).or
        ((((Json.member (textMember "summary" r.summary) key).or
          (Json.member (exitCodeMember r.exitCode) key)).or (Json.member (textMember "output" r.output) key)).or
          (Json.member (artifactsMember r.artifacts) key)) := by
  rw [resultCanonicalValue, ← List.singleton_append, member_append, member_singleton, member_append,
    member_append, member_append]

theorem decodeResult_resultCanonicalValue (h : r.WellFormed) : decodeResult (resultCanonicalValue r) = .ok r := by
  have strict : strictMembers d14Members (resultCanonicalValue r) = .ok () :=
    strictMembers_ok fun m member => key_of_mem_resultCanonicalValue member
  rw [decodeResult, strict]
  simp [member_resultCanonicalValue, member_textMember, member_exitCodeMember,
    member_artifactsMember _ _ h.artifacts, decodeRequired, decodeExitCode_member _ h.exitCode,
    decodeArtifactsMember_list]

end Agentnet.Request
