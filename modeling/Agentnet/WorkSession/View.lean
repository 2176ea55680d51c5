import Agentnet.WorkSession.Session

/-! What the daemon hands out about a session: the decoded view of a row, and the
lookups that build it. -/

namespace Agentnet.WorkSession
open Agentnet.Lib
open Agentnet.Request (JsonObject CancelMark)

/-- `View`. The mail id that a transition adds to its own answer is left out. -/
structure View where
  id : SessionID
  kind : Kind
  role : Role
  peer : PeerKey
  requestID : RequestID
  teamID : TeamID
  state : StateName
  outcome : Option Outcome
  seq : Nat
  round : Nat
  result : Option Result := none
  resultBytes : Nat := 0
  outputBytes : Nat := 0
  artifacts : Nat := 0
  resultStatus : String := ""
  resultRound : Nat
  verification : String
  changes : String
  cancel : Option CancelMark
  released : Bool
  runner : Bool
  opened : Time
  stateAt : Time
  closed : Option Time
  updated : Time
  deriving DecidableEq

/-- What is shown of every session. -/
def viewColumns (r : Session) : View where
  id := r.id
  kind := r.kind
  role := r.role
  peer := r.peer
  requestID := r.requestID
  teamID := r.teamID
  state := r.state.name
  outcome := r.state.outcome
  seq := r.seq
  round := r.round
  resultRound := r.resultRound.getD 0
  verification := r.verification.getD ""
  changes := r.changes.getD ""
  cancel := r.cancel
  released := r.released
  runner := r.runner
  opened := parseWireTime r.opened
  stateAt := parseWireTime r.stateAt
  closed := r.closed.map parseWireTime
  updated := parseStoreTime r.updated

/-- The length of the result column, which holds the canonical text. -/
def storedBytes (stored : JsonObject) : Nat :=
  match canonicalValue (.obj stored) with
  | .ok text => text.utf8ByteSize
  | .error _ => 0

/-- A quarantined result is not handed out on the requester's side. -/
def withheld (r : Session) : Bool := r.role == .requester && r.state == .quarantined

/-- The result members of a view; of a withheld result only the sizes and the status. -/
def viewResult (withheld : Bool) (stored : JsonObject) (result : Result) (v : View) : View :=
  { v with
    resultBytes := storedBytes stored
    outputBytes := result.d14.output.utf8ByteSize
    artifacts := (result.d14.artifacts.getD []).length
    resultStatus := result.d14.status
    result := if withheld then none else some result }

/-- `toView`. -/
def toView (r : Session) : Except Error View :=
  match r.result with
  | none => .ok (viewColumns r)
  | some stored => do
    let result ← decodeStoredResult stored
    return viewResult (withheld r) stored result (viewColumns r)

theorem toView_eq {r : Session} {stored : JsonObject} {result : Result} (held : r.result = some stored)
    (read : decodeStoredResult stored = .ok result) :
    toView r = .ok (viewResult (withheld r) stored result (viewColumns r)) := by
  simp only [toView, held, read, ok_bind]
  rfl

def viewFirst : List Session → Except Error View
  | [] => .error .unknownSession
  | r :: _ => toView r

/-- `Get` and `GetTx`, on the rows of the table. -/
def get (rows : List Session) (id : SessionID) : Except Error View := viewFirst (rows.filter fun r => r.id == id)

/-- The one row found, unless a request row with its id is of another direction or peer. -/
def viewOnly (requests : List (Role × PeerKey)) : List Session → Except Error View
  | [] => .error .unknownSession
  | [r] => if requests.any fun p => p != (r.role, r.peer) then .error .ambiguousRequest
      else toView r
  | _ :: _ :: _ => .error .ambiguousRequest

/-- `GetByRequestID`. `requests` are the direction, as the role it goes with, and the
peer of each request row with that id. -/
def getByRequestID (rows : List Session) (requests : List (Role × PeerKey)) (id : RequestID) : Except Error View :=
  viewOnly requests (rows.filter fun r => r.requestID == id)

/-- `ListFilter`; an absent member does not filter. -/
structure ListFilter where
  state : Option StateName := none
  role : Option Role := none
  peer : Option PeerKey := none
  teamID : Option TeamID := none

def ListFilter.matches (f : ListFilter) (r : Session) : Bool :=
  f.state.all (· == r.state.name) && f.role.all (· == r.role) && f.peer.all (· == r.peer) &&
    f.teamID.all (· == r.teamID)

def listedBefore (a b : Session) : Prop := b.stateAt < a.stateAt ∨ a.stateAt = b.stateAt ∧ a.id ≤ b.id

instance (a b : Session) : Decidable (listedBefore a b) := inferInstanceAs (Decidable (_ ∨ _ ∧ _))

def toViews : List Session → Except Error (List View)
  | [] => .ok []
  | r :: rest => do
    let v ← toView r
    let views ← toViews rest
    return v :: views

/-- `List`. -/
def list (rows : List Session) (f : ListFilter) : Except Error (List View) :=
  toViews ((rows.filter f.matches).insertionSort listedBefore)

/-! ## Rows that look alike -/

/-- Two rows that no lookup can tell apart: the same columns but for the result, and
the same view. -/
structure LooksLike (a b : Session) : Prop where
  columns : ∃ x, b = { a with result := x }
  view : toView b = toView a

theorem LooksLike.refl (a : Session) : LooksLike a a := ⟨⟨a.result, rfl⟩, rfl⟩

variable {a b : Session} {as bs : List Session}

theorem LooksLike.matches (h : LooksLike a b) (f : ListFilter) :
    f.matches b = f.matches a := by
  obtain ⟨x, rfl⟩ := h.columns
  rfl

/-- The order of the list does not show results either. -/
theorem LooksLike.listedBefore {a' b' : Session} (h : LooksLike a b) (h' : LooksLike a' b') :
    WorkSession.listedBefore b b' ↔ WorkSession.listedBefore a a' := by
  obtain ⟨x, rfl⟩ := h.columns
  obtain ⟨x', rfl⟩ := h'.columns
  rfl

theorem orderedInsert_looksLike (h : LooksLike a b) (hs : List.Forall₂ LooksLike as bs) :
    List.Forall₂ LooksLike (as.orderedInsert listedBefore a) (bs.orderedInsert listedBefore b) := by
  induction hs with
  | nil => exact .cons h .nil
  | cons h' hs ih =>
    simp only [List.orderedInsert_cons, h.listedBefore h']
    split
    · exact .cons h (.cons h' hs)
    · exact .cons h' ih

theorem insertionSort_looksLike (hs : List.Forall₂ LooksLike as bs) :
    List.Forall₂ LooksLike (as.insertionSort listedBefore) (bs.insertionSort listedBefore) := by
  induction hs with
  | nil => exact .nil
  | cons h hs ih => exact orderedInsert_looksLike h ih

theorem filter_looksLike (p : Session → Bool) (respects : ∀ a b, LooksLike a b → p b = p a)
    (hs : List.Forall₂ LooksLike as bs) :
    List.Forall₂ LooksLike (as.filter p) (bs.filter p) := by
  induction hs with
  | nil => exact .nil
  | cons h hs ih =>
    simp only [List.filter_cons, respects _ _ h]
    split
    · exact .cons h ih
    · exact ih

theorem toViews_looksLike (hs : List.Forall₂ LooksLike as bs) : toViews bs = toViews as := by
  induction hs with
  | nil => rfl
  | cons h hs ih => simp only [toViews, h.view, ih]

theorem list_looksLike (hs : List.Forall₂ LooksLike as bs) (f : ListFilter) : list bs f = list as f :=
  toViews_looksLike (insertionSort_looksLike (filter_looksLike _ (fun _ _ h => h.matches f) hs))

theorem viewFirst_looksLike (hs : List.Forall₂ LooksLike as bs) : viewFirst bs = viewFirst as := by
  cases hs with
  | nil => rfl
  | cons h hs => exact h.view

theorem viewOnly_looksLike (hs : List.Forall₂ LooksLike as bs)
    (requests : List (Role × PeerKey)) : viewOnly requests bs = viewOnly requests as := by
  cases hs with
  | nil => rfl
  | cons h hs =>
    cases hs with
    | nil =>
      obtain ⟨x, same⟩ := h.columns
      simp only [viewOnly, h.view]
      rw [same]
    | cons h' hs => rfl

theorem get_looksLike (hs : List.Forall₂ LooksLike as bs) (id : SessionID) : get bs id = get as id :=
  viewFirst_looksLike (filter_looksLike _ (fun a b h => by obtain ⟨x, rfl⟩ := h.columns; rfl) hs)

theorem getByRequestID_looksLike (hs : List.Forall₂ LooksLike as bs) (requests : List (Role × PeerKey))
    (id : RequestID) :
    getByRequestID bs requests id = getByRequestID as requests id :=
  viewOnly_looksLike (filter_looksLike _ (fun a b h => by obtain ⟨x, rfl⟩ := h.columns; rfl) hs) requests

end Agentnet.WorkSession
