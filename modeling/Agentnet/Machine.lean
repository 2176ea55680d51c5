import Agentnet.Lib.Run
import Agentnet.Request.Receive

/-! A daemon as a machine on the cell of one request: the operations of its user and
the mails it receives. An error rolls the transaction back. Times, the quarantine
rule and what is read of other rows come with the event, so they are arbitrary. -/

namespace Agentnet
open Agentnet.Lib
open Request (SubmitParams Delivery Intake RequestType)
open WorkSession (Quarantine Grant Submitter)

variable {δ : Type}

def MailBody.requestID : MailBody → RequestID
  | .request b => b.id
  | .cancel b => b.request
  | .reply b => b.request
  | .result b => b.request
  | .state b => b.request
  | .wsCancel b => b.request

def receiveMaxAge : Int := 14 * day
def maxSkew : Int := 10 * minute

def Mail.receivable (m : Mail) (now : Time) : Bool :=
  decide (now - parseWireTime m.created ≤ Agentnet.receiveMaxAge) &&
    decide (parseWireTime m.created ≤ now + Agentnet.maxSkew)

def commit (c : Cell δ) : Except Error (Cell δ) → Cell δ
  | .ok c' => c'
  | .error _ => c

/-- What the requester's own side does. `grants` is any change to the grants of the
session by their owner. -/
inductive RequesterOp where
  | submit (p : SubmitParams) (used : Nat) (taken : Bool)
  | cancelRequest (reason : String) (mail : Delivery)
  | resendRequest (mail : Delivery)
  | acceptResult
  | acceptResultInTx
  | requestChanges (changes : String)
  | discard
  | cancel (reason : String)
  | releaseInTx
  | resendLastState
  | grants (gs : List Grant)

/-- The operations of the requester's side. -/
def RequesterOp.run (w : Wiring δ) (k : Key) (c : Cell δ) (now : Time) : RequesterOp → Except Error (Cell δ)
  | .submit p used taken => Request.submit w k c p used taken .ok (fun _ c => .ok c) now
  | .cancelRequest reason mail => Request.cancel k c reason mail now
  | .resendRequest mail => Request.resend k c mail now
  | .acceptResult => WorkSession.acceptResult c now
  | .acceptResultInTx => WorkSession.acceptResultInTx c now
  | .requestChanges changes => WorkSession.requestChanges c changes now
  | .discard => WorkSession.discard c now
  | .cancel reason => WorkSession.cancel w k c reason now
  | .releaseInTx => WorkSession.releaseInTx c now
  | .resendLastState => .ok (WorkSession.resendLastState c now)
  | .grants gs => .ok { c with grants := gs }

/-- The requester's receivers of the kinds the worker sends. The other kinds are about
requests in the other direction. -/
def receiveAtRequester (w : Wiring δ) (k : Key) (c : Cell δ) (body : MailBody)
    (quarantine : Quarantine) (now : Time) : Except Error (Cell δ) :=
  match body with
  | .result b => do
    let (c, _) ← WorkSession.applyResult w k c b quarantine now
    return c
  | .wsCancel b => do
    let (c, _) ← WorkSession.applyCancel w k c b quarantine now
    return c
  | .reply reply => Request.applyReply w k c reply quarantine now
  | _ => .ok c

inductive RequesterEvent where
  | op (op : RequesterOp) (now : Time)
  | mail (m : Mail) (quarantine : Quarantine) (now : Time)

def requesterStep (w : Wiring δ) (k : Key) (c : Cell δ) : RequesterEvent → Cell δ
  | .op op now => commit c (op.run w k c now)
  | .mail m quarantine now =>
    if m.receivable now ∧ m.body.requestID = k.id then
      commit c (receiveAtRequester w k c m.body quarantine now)
    else c

/-- What the worker's own side does. `complete` has the two transactions of
`request_complete` as separate operations; a deferral is given in whole seconds. -/
inductive WorkerOp where
  | accept
  | acceptInTx (onlyType : Option RequestType) (runner : Bool)
  | decline (reason : String)
  | defer (until' : WireTime)
  | completeShorthand (note : String) (result : Option Request.Result)
  | completeTx (note : String) (result : Option Request.Result)
  | answerQuestion (result : WorkSession.Result)
  | submitResult (result : WorkSession.Result) (submitter : Submitter)
  | submitCancel (reason : String) (submitter : Submitter)
  | checkPhase1Fallback (unsupported : Bool)
  | resubmitStale
  | pruneTombstones
  | grants (gs : List Grant)

/-- The operations of the worker's side, as the daemon calls them. -/
def WorkerOp.run (w : Wiring δ) (k : Key) (c : Cell δ) (now : Time) : WorkerOp → Except Error (Cell δ)
  | .accept => Request.accept w k c now
  | .acceptInTx onlyType runner => do
    let c ← Request.acceptInTx w k c onlyType now
    return if runner then Request.markRunnerTx c else c
  | .decline reason => Request.decline w k c reason now
  | .defer until' => Request.defer w k c (parseWireTime until') now
  | .completeShorthand note result => do
    orField (Request.validateComplete note result)
    let (c, _) ← WorkSession.completeShorthand c note result now
    return c
  | .completeTx note result => do
    orField (Request.validateComplete note result)
    Request.completeTx w k c note result now
  | .answerQuestion result => WorkSession.answerQuestion w k c result now
  | .submitResult result submitter => do
    let (c, _) ← WorkSession.submitResult c result submitter now
    return c
  | .submitCancel reason submitter => WorkSession.submitCancel w k c reason submitter now
  | .checkPhase1Fallback unsupported => WorkSession.checkPhase1Fallback k c unsupported now
  | .resubmitStale => .ok (Request.resubmitStale c now)
  | .pruneTombstones => .ok (Request.pruneTombstone now c)
  | .grants gs => .ok { c with grants := gs }

/-- The worker's receivers of the kinds the requester sends. `tombstones` counts the
sender's tombstones. -/
def receiveAtWorker (w : Wiring δ) (k : Key) (c : Cell δ) (m : Mail) (intake : Intake)
    (tombstones : Nat) (now : Time) : Except Error (Cell δ) :=
  match m.body with
  | .request r => do
    let (c, _) ← Request.apply w k c m.created r intake now
    return c
  | .cancel b => do
    let (c, _) ← Request.applyCancel w k c m.created b tombstones now
    return c
  | .state b => do
    let (c, _) ← WorkSession.applyState w k c b now
    return c
  | _ => .ok c

inductive WorkerEvent where
  | op (op : WorkerOp) (now : Time)
  | mail (m : Mail) (intake : Intake) (tombstones : Nat) (now : Time)

def workerStep (w : Wiring δ) (k : Key) (c : Cell δ) : WorkerEvent → Cell δ
  | .op op now => commit c (op.run w k c now)
  | .mail m intake tombstones now =>
    if m.receivable now ∧ m.body.requestID = k.id then
      commit c (receiveAtWorker w k c m intake tombstones now)
    else c

structure Parties (δ : Type) where
  crypto : Crypto
  requester : PeerKey
  worker : PeerKey
  id : RequestID
  requesterDebates : DebateHooks δ
  workerDebates : DebateHooks δ

namespace Parties

def atRequester (p : Parties δ) : Wiring δ := ⟨p.crypto, p.requester, p.requesterDebates⟩
def atWorker (p : Parties δ) : Wiring δ := ⟨p.crypto, p.worker, p.workerDebates⟩
def requesterKey (p : Parties δ) : Key := ⟨p.worker, p.id⟩
def workerKey (p : Parties δ) : Key := ⟨p.requester, p.id⟩

end Parties

/-- The cells of both daemons. The network is what each of them has sent. -/
structure Pair (δ : Type) where
  a : Cell δ
  b : Cell δ

def Pair.initial (undebated : δ) : Pair δ := ⟨{ debate := undebated }, { debate := undebated }⟩

/-- An operation on either side, or the delivery of the `i`-th mail the other side
sent: at any time, in any order, never or more than once. -/
inductive PairEvent where
  | requester (op : RequesterOp) (now : Time)
  | worker (op : WorkerOp) (now : Time)
  | toRequester (i : Nat) (quarantine : Quarantine) (now : Time)
  | toWorker (i : Nat) (intake : Intake) (tombstones : Nat) (now : Time)

/-- An event of one of the two daemons, or of the mail between them. -/
def PairEvent.step (p : Parties δ) (s : Pair δ) : PairEvent → Pair δ
  | .requester op now => { s with a := requesterStep p.atRequester p.requesterKey s.a (.op op now) }
  | .worker op now => { s with b := workerStep p.atWorker p.workerKey s.b (.op op now) }
  | .toRequester i quarantine now =>
    match s.b.sent[i]? with
    | none => s
    | some m => { s with a := requesterStep p.atRequester p.requesterKey s.a (.mail m quarantine now) }
  | .toWorker i intake tombstones now =>
    match s.a.sent[i]? with
    | none => s
    | some m => { s with b := workerStep p.atWorker p.workerKey s.b (.mail m intake tombstones now) }

/-- The pair after the events `es`, from the start. -/
def Pair.after (p : Parties δ) (undebated : δ) (es : List PairEvent) : Pair δ :=
  Lib.run (PairEvent.step p) (Pair.initial undebated) es

/-! ## Inputs to run the machines on -/

/-- The hooks without debates. -/
def DebateHooks.undebated : DebateHooks Unit where
  openedTx := fun _ _ _ c => .ok c
  cancelTx := fun _ _ c => .ok c
  peerCancelTx := fun _ _ c => .ok (c, false)
  earlyCompleteTx := fun _ _ c => .ok c
  abandonTx := fun _ _ c => .ok c
  receivedTx := fun _ _ _ c => .ok c
  endedTx := fun _ _ c => .ok c
  hasDecisionTx := fun _ _ => false

def sampleParties : Parties Unit where
  crypto := ⟨fun _ => ""⟩
  requester := "aaaaaaaaaaaaaaaaaaaaaaaaaaaaaaaaaaaaaaaaaaa"
  worker := "bbbbbbbbbbbbbbbbbbbbbbbbbbbbbbbbbbbbbbbbbbb"
  id := "r-00000000000000000000000000000000"
  requesterDebates := .undebated
  workerDebates := .undebated

def sampleTask : SubmitParams where
  team := "t-00000000000000000000000000000000"
  type := .task
  title := "t"
  brief := "b"
  urgency := .normal

end Agentnet
