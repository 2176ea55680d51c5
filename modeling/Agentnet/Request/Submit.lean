import Agentnet.Daemon

/-! The sender's first step: building a request and storing the `out` row with its
mail in one transaction. -/

namespace Agentnet.Request
open Agentnet.Lib

variable {δ : Type}

def urgencyBudgetWindow : Int := 7 * day

/-- `budgetLimit`: the weekly budget of an urgency, `none` for one without. -/
def budgetLimit : Urgency → Option Nat
  | .high => some 5
  | .blocking => some 2
  | _ => none

structure SubmitParams where
  team : TeamID
  type : RequestType
  title : String
  brief : String
  urgency : Urgency
  urgencyReason : String := ""
  artifacts : List Artifact := []
  requestedGrant : Option RequestedGrant := none
  context : Option (List ContextFile) := none
  run : Option String := none
  deadline : Option WireTime := none

/-- `senderUrgency`: the urgency that is sent, and the declared one when it was
lowered. `used` counts the own `out` rows of that urgency in the window. -/
def senderUrgency (urgency : Urgency) (used : Nat) : Urgency × Option Urgency :=
  match budgetLimit urgency with
  | none => (urgency, none)
  | some limit => if limit ≤ used then (.normal, some urgency) else (urgency, none)

/-- The body that the parameters ask for. -/
def SubmitParams.request (p : SubmitParams) (self : PeerKey) (k : Key) (used : Nat) (now : Time) : Body where
  id := k.id
  from' := self
  to' := k.peer
  team := p.team
  type := p.type
  title := p.title
  brief := p.brief
  urgency := (senderUrgency p.urgency used).1
  urgencyDeclared := (senderUrgency p.urgency used).2
  urgencyReason := p.urgencyReason
  artifacts := p.artifacts
  requestedGrant := p.requestedGrant
  deadline := p.deadline
  created := wireTime now
  context := p.context
  run := p.run

def effectiveDeclared (r : Body) : Urgency := r.urgencyDeclared.getD r.urgency

/-- The `out` row of a request that was just submitted. -/
def outRow (r : Body) (hash : String) (now : Time) : Row where
  teamID := r.team
  typ := r.type
  urgency := r.urgency
  urgencyDeclared := effectiveDeclared r
  body := some r
  bodyHash := hash
  state := .pending
  stateSeq := 0
  created := r.created
  updated := storeTime now

/-- `insertOut`: the mail and the row. `taken` is whether any row has the id. -/
def insertOut (c : Cell δ) (r : Body) (hash : String) (taken : Bool) (now : Time) : Except Error (Cell δ) := do
  require (taken = false ∧ c.request.isNone) (.failed "request: drawn id is already used here")
  let c := c.submitTx now (.request r)
  return { c with request := some (outRow r hash now) }

/-- `Submit` of the drawn id `k.id`. `prepare` completes the request and `inTx` runs
in the same transaction; a debate sets both. -/
def submit (w : Wiring δ) (k : Key) (c : Cell δ) (p : SubmitParams) (used : Nat) (taken : Bool)
    (prepare : Body → Except Error Body) (inTx : Body → Cell δ → Except Error (Cell δ)) (now : Time) :
    Except Error (Cell δ) := do
  let r ← prepare (p.request w.self k used now)
  orField (validate r)
  let canon ← WorkSession.canonOr .failed (canonical r)
  checkSizeFor r canon
  let c ← insertOut c r (w.crypto.sha256 canon) taken now
  inTx r c

end Agentnet.Request
