import Agentnet.Request.Result

/-! The result of a work session: a D14 result with the worker's verification
claim and notes. -/

namespace Agentnet.WorkSession
open Agentnet.Lib
open Agentnet.Request (JsonObject textMember member_append member_singleton member_textMember)

def maxResultBody : Nat := 65536

/-- A result of `internal/worksession`. -/
structure Result where
  d14 : Request.Result
  verification : String
  notes : String := ""
  deriving DecidableEq

def resultMembers : List String := Request.d14Members ++ ["verification", "notes"]

def remapField {α : Type} (pre : String) : Except FieldError α → Except FieldError α
  | .ok a => .ok a
  | .error e => .error ⟨pre ++ e.field, e.reason⟩

/-- `DecodeResult`. The field names of the D14 part already start with `result.`,
so a remapped one carries the text twice. -/
def decodeResult (body : JsonObject) : Except FieldError Result := do
  Request.strictMembers resultMembers body
  let d14 ← remapField "result."
    (Request.decodeResult (body.filter fun m => decide (m.1 ∈ Request.d14Members)))
  let verification ← Request.decodeRequired "result.verification" (Json.member body "verification")
  let notes ← Request.decodeOptional "result.notes" (Json.member body "notes")
  return { d14, verification, notes }

def remapNote {α : Type} : Except FieldError α → Except FieldError α
  | .ok a => .ok a
  | .error e => if e.field = "note" then .error ⟨"result.notes", e.reason⟩
      else remapField "result." (.error e)

/-- `ValidateResult`: the D14 rules, the notes under the note rule, and a
verification a worker may claim. -/
def validateResult (r : Result) : Except FieldError Unit := do
  remapNote (Request.validateComplete r.notes (some r.d14))
  require (r.verification = "none" ∨ r.verification = "tests_passed")
    ⟨"result.verification", "must be none or tests_passed"⟩

/-- `resultCanonicalValue`, which is also the wire form. -/
def resultCanonicalValue (r : Result) : JsonObject :=
  Request.resultCanonicalValue r.d14 ++ ([("verification", .str r.verification)] ++ textMember "notes" r.notes)

/-- `CanonicalResult`. -/
def canonicalResult (r : Result) : Except String String := canonicalValue (.obj (resultCanonicalValue r))

/-- `resultBodyCanonical`: the whole body of `ws.result`. -/
def resultBodyCanonical (sid : SessionID) (reqID : RequestID) (round : Nat) (at' : WireTime) (r : Result) :
    Except String String :=
  canonicalValue (.obj [("at", .str (wireTimeText at')), ("request", .str reqID),
    ("result", .obj (resultCanonicalValue r)), ("round", .num (.int round)), ("session", .str sid)])

/-- `CheckResultSize`. -/
def checkResultSize (canon : String) : Except Error Unit :=
  require (canon.utf8ByteSize ≤ maxResultBody)
    (.tooLarge "canonical ws.result body" canon.utf8ByteSize maxResultBody)

theorem validateResult_wellFormed {r : Result} (h : validateResult r = .ok ()) : r.d14.WellFormed := by
  rw [validateResult, bind_eq_ok] at h
  obtain ⟨_, remapped, _⟩ := h
  cases valid : Request.validateComplete r.notes (some r.d14) with
  | ok _ => exact Request.validateComplete_wellFormed valid
  | error e =>
    rw [valid, remapNote] at remapped
    split at remapped <;> cases remapped

theorem d14_of_resultCanonicalValue (r : Result) :
    (resultCanonicalValue r).filter (fun m => decide (m.1 ∈ Request.d14Members)) =
      Request.resultCanonicalValue r.d14 := by
  have own : (Request.resultCanonicalValue r.d14).filter
      (fun m => decide (m.1 ∈ Request.d14Members)) = Request.resultCanonicalValue r.d14 :=
    List.filter_eq_self.mpr fun m member => decide_eq_true (Request.key_of_mem_resultCanonicalValue member)
  have rest : ([("verification", Json.str r.verification)] ++ textMember "notes" r.notes).filter
      (fun m => decide (m.1 ∈ Request.d14Members)) = [] := by
    by_cases empty : r.notes = "" <;> simp [textMember, Request.d14Members, empty]
  rw [resultCanonicalValue, List.filter_append, own, rest, List.append_nil]

theorem member_d14_of_not_mem {r : Request.Result} {key : String} (h : key ∉ Request.d14Members) :
    Json.member (Request.resultCanonicalValue r) key = none := by
  rw [Json.member, List.lookup_eq_none_iff]
  intro m member
  have known := Request.key_of_mem_resultCanonicalValue member
  have other : m.1 ≠ key := fun same => h (same ▸ known)
  simpa using fun same => other same.symm

/-- A result is read back from its stored form. -/
theorem decodeResult_resultCanonicalValue {r : Result} (h : r.d14.WellFormed) :
    decodeResult (resultCanonicalValue r) = .ok r := by
  have strict : Request.strictMembers resultMembers (resultCanonicalValue r) = .ok () := by
    refine Request.strictMembers_ok fun m member => ?_
    simp only [resultCanonicalValue, List.mem_append, List.mem_singleton] at member
    rcases member with member | member | member
    · exact List.mem_append_left _ (Request.key_of_mem_resultCanonicalValue member)
    · simp [member, resultMembers]
    · simp [Request.key_of_mem_textMember member, resultMembers]
  have verification : Json.member (resultCanonicalValue r) "verification" = some (.str r.verification) := by
    rw [resultCanonicalValue, member_append, member_d14_of_not_mem (by simp [Request.d14Members])]
    rw [member_append, member_singleton]
    simp
  have notes : Json.member (resultCanonicalValue r) "notes" = if r.notes = "" then none else some (.str r.notes) := by
    rw [resultCanonicalValue, member_append, member_d14_of_not_mem (by simp [Request.d14Members])]
    rw [member_append, member_singleton, member_textMember]
    simp
  rw [decodeResult, strict, d14_of_resultCanonicalValue, Request.decodeResult_resultCanonicalValue h,
    verification, notes]
  simp [remapField, Request.decodeRequired]

end Agentnet.WorkSession
