import Agentnet.Lib.Table
import Agentnet.Request.RowHistory

/-! The `in` requests of a daemon over all its peers: what a receive transaction counts,
and the caps that hold in every run. -/

namespace Agentnet
open Agentnet.Lib
open Request (Row Intake Introduction Urgency daySince freshSince budgetSince)

variable {δ : Type}

/-- The cell of one key; `storedPending` records that its request was stored pending, not
declined or cancelled at once. -/
structure Entry (δ : Type) where
  cell : Cell δ
  storedPending : Bool := false

/-- The `in` side of a daemon. -/
abbrev Inbox (δ : Type) := Table Key (Entry δ)

/-! ## What a receive transaction counts -/

def Request.Row.receivedSince (since : StoreTime) (r : Row) : Bool := r.receivedAt.any fun t => decide (since ≤ t)

def Request.Row.introducedBy (by' : PeerKey) (since : StoreTime) (r : Row) : Bool :=
  r.introducer == some by' && r.introducedAt.any fun t => decide (since ≤ t)

/-- A condition on the rows of the `requests` table: the peer, whether the row was stored
pending, and its columns. -/
abbrev RowFilter := PeerKey → Bool → Row → Bool

namespace RowFilter

def openOf (peer : PeerKey) : RowFilter := fun p _ r => p == peer && r.state.isOpen

def receivedOf (peer : PeerKey) (since : StoreTime) : RowFilter := fun p _ r =>
  p == peer && r.receivedSince since

/-- The open rows of one introducer that were introduced since then. -/
def openIntroduced (by' : PeerKey) (fresh : StoreTime) : RowFilter := fun _ _ r =>
  r.introducedBy by' fresh && r.state.isOpen

/-- The rows of one introducer that were introduced and received since then. -/
def receivedIntroduced (by' : PeerKey) (fresh since : StoreTime) : RowFilter := fun _ _ r =>
  r.introducedBy by' fresh && r.receivedSince since

def budgetOf (peer : PeerKey) (u : Urgency) (since : StoreTime) : RowFilter := fun p _ r =>
  p == peer && r.urgency == u && r.receivedSince since &&
    (r.declineCode == none || r.declineCode == some .user)

/-- The requests of one peer that were stored pending with that urgency in a window. -/
def pendingIn (peer : PeerKey) (u : Urgency) (first last : StoreTime) : RowFilter := fun p stored r =>
  p == peer && stored && r.urgency == u &&
    r.receivedAt.any fun t => decide (first ≤ t) && decide (t ≤ last)

end RowFilter

def RowFilter.holds (q : RowFilter) (k : Key) (e : Entry δ) : Bool := e.cell.request.any (q k.peer e.storedPending)

def Inbox.countRows (d : Inbox δ) (q : RowFilter) : Nat := d.count q.holds

structure Surroundings where
  idTaken : Bool := false
  introduction : Option Introduction := none
  unverifiedPeer : Bool := false
  teamActive : Bool := true
  teamHasMembers : Bool := true
  autoAccept : Bool := false

/-- The count of rows of the sender's introducer, which is asked for only if there is one. -/
def Surroundings.introduced (s : Surroundings) (count : PeerKey → Nat) : Nat :=
  match s.introduction with
  | none => 0
  | some intro => count intro.by'

/-- What the receive transaction reads, with the counts over this inbox. -/
def Inbox.intake (d : Inbox δ) (peer : PeerKey) (s : Surroundings) (now : Time) : Intake where
  idTaken := s.idTaken
  introduction := s.introduction
  daily := d.countRows (.receivedOf peer (daySince now))
  dailyIntroduced := s.introduced fun by' => d.countRows (.receivedIntroduced by' (freshSince now) (daySince now))
  openRows := d.countRows (.openOf peer)
  openIntroduced := s.introduced fun by' => d.countRows (.openIntroduced by' (freshSince now))
  budget := fun u => d.countRows (.budgetOf peer u (budgetSince now))
  unverifiedPeer := s.unverifiedPeer
  teamActive := s.teamActive
  teamHasMembers := s.teamHasMembers
  autoAccept := s.autoAccept

inductive InboxEvent where
  | op (k : Key) (op : WorkerOp) (now : Time)
  | mail (peer : PeerKey) (m : Mail) (surroundings : Surroundings) (now : Time)

/-- The clock of the event. -/
def InboxEvent.time : InboxEvent → Time
  | .op _ _ now => now
  | .mail _ _ _ now => now

def storesPending (w : Wiring δ) (k : Key) (c : Cell δ) : WorkerEvent → Bool
  | .mail ⟨created, .request r⟩ i _ now =>
    match Request.apply w k c created r i now with
    | .ok (_, .stored _) => Mail.receivable ⟨created, .request r⟩ now && r.id == k.id
    | _ => false
  | _ => false

/-- A cancel that overtook its request prunes the tombstones of all peers. -/
def Request.prunesTombstones (c : Cell δ) (m : Mail) (now : Time) : Bool :=
  match m.body with
  | .cancel b => m.receivable now && (Request.checkCancel m.created b).isOk && c.request.isNone
  | _ => false

namespace Inbox

/-- Every tombstone that is too old is removed. -/
def prune (d : Inbox δ) (now : Time) : Inbox δ :=
  d.mapRows fun _ e => { e with cell := Request.pruneTombstone now e.cell }

/-- How many tombstones a peer has. -/
def tombstones (d : Inbox δ) (peer : PeerKey) : Nat := d.count fun k e => k.peer == peer && e.cell.tombstone.isSome

end Inbox

/-! ## The filters of the caps -/

def RowFilter.Fades (q : RowFilter) : Prop :=
  ∀ p stored (r r' : Row), r.Moves r' → q p stored r' = true → q p stored r = true

namespace RowFilter

theorem openOf_fades (peer : PeerKey) : (openOf peer).Fades := by
  intro p stored r r' moves h
  simp only [openOf, Bool.and_eq_true] at h ⊢
  exact ⟨h.1, moves.isOpen h.2⟩

theorem receivedOf_fades (peer : PeerKey) (since : StoreTime) : (receivedOf peer since).Fades := by
  intro p stored r r' moves h
  have same : r'.receivedAt = r.receivedAt := congrArg Request.Origin.receivedAt moves.origin
  simpa only [receivedOf, Request.Row.receivedSince, same] using h

theorem introducedBy_same {r r' : Row} (moves : r.Moves r') (by' : PeerKey) (since : StoreTime) :
    r'.introducedBy by' since = r.introducedBy by' since := by
  have introducer : r'.introducer = r.introducer := congrArg Request.Origin.introducer moves.origin
  have introduced : r'.introducedAt = r.introducedAt := congrArg Request.Origin.introducedAt moves.origin
  simp only [Request.Row.introducedBy, introducer, introduced]

theorem openIntroduced_fades (by' : PeerKey) (fresh : StoreTime) : (openIntroduced by' fresh).Fades := by
  intro p stored r r' moves h
  simp only [openIntroduced, Bool.and_eq_true, introducedBy_same moves] at h ⊢
  exact ⟨h.1, moves.isOpen h.2⟩

theorem receivedIntroduced_fades (by' : PeerKey) (fresh since : StoreTime) :
    (receivedIntroduced by' fresh since).Fades := by
  intro p stored r r' moves h
  have same : r'.receivedAt = r.receivedAt := congrArg Request.Origin.receivedAt moves.origin
  simpa only [receivedIntroduced, introducedBy_same moves, Request.Row.receivedSince, same] using h

theorem pendingIn_fades (peer : PeerKey) (u : Urgency) (first last : StoreTime) :
    (pendingIn peer u first last).Fades := by
  intro p stored r r' moves h
  have received : r'.receivedAt = r.receivedAt := congrArg Request.Origin.receivedAt moves.origin
  have urgency : r'.urgency = r.urgency := congrArg Request.Origin.urgency moves.origin
  simpa only [pendingIn, received, urgency] using h

end RowFilter

variable {w : Wiring δ} {d : Inbox δ} {k : Key} {e : WorkerEvent} {q : RowFilter} {n : Nat}

theorem storesPending_spec {c : Cell δ} (h : storesPending w k c e = true) :
    ∃ m r i tombstones now c' accepted, e = .mail m i tombstones now ∧ m.body = .request r ∧
      Request.apply w k c m.created r i now = .ok (c', .stored accepted) ∧ workerStep w k c e = c' := by
  unfold storesPending at h
  split at h
  · next created r i tombstones now =>
    split at h
    · next c' accepted applied =>
      refine ⟨_, r, i, tombstones, now, c', accepted, rfl, rfl, applied, ?_⟩
      have guard : Mail.receivable ⟨created, .request r⟩ now = true ∧ (MailBody.request r).requestID = k.id := by
        simpa [MailBody.requestID] using h
      simp only [workerStep, if_pos guard, receiveAtWorker, applied]
      rfl
    · cases h
  · cases h

theorem storesPending_known {c : Cell δ} {r : Row} (known : c.request = some r) : storesPending w k c e = false := by
  by_contra h
  obtain ⟨m, r', i, _, now, c', accepted, _, _, applied, _⟩ := storesPending_spec (eq_true_of_ne_false h)
  simp only [Request.apply, bind_eq_ok, known] at applied
  obtain ⟨hash, _, done⟩ := applied
  have outcome := congrArg Prod.snd (Except.ok.inj done)
  dsimp only at outcome
  split at outcome <;> cases outcome

theorem Inbox.countRows_prune (d : Inbox δ) (now : Time) (q : RowFilter) :
    (d.prune now).countRows q = d.countRows q := Table.count_mapRows ..

theorem Inbox.intake_prune (d : Inbox δ) (peer : PeerKey) (s : Surroundings) (now : Time) :
    (d.prune now).intake peer s now = d.intake peer s now := by
  simp only [Inbox.intake, Inbox.countRows_prune]

/-! ## Each cap finds room -/

/-- What a request that is stored gives about a filter its row meets. -/
def Request.RoomFor (w : Wiring δ) (d : Inbox δ) (q : RowFilter) (n : Nat) (peer : PeerKey) (i : Intake)
    (now : Time) : Prop :=
  ∀ (c : Cell δ) (r : Request.Body) (id : RequestID) (created : WireTime) (hash : String) (row : Row)
    (outcome : Request.ReceiveOutcome) (stored : Bool), i.checkDailyCaps now = .ok () →
    Request.checkRequest w ⟨peer, id⟩ created r = .ok hash →
    Request.Stores c r hash i now row outcome →
    (stored = true → ∃ accepted, outcome = .stored accepted) →
    q peer stored row = true → d.countRows q < n

variable {q q' : RowFilter} {t' : Time}

theorem RowFilter.holds_mono {k : Key} {e : Entry δ}
    (h : ∀ r, e.cell.request = some r → q k.peer e.storedPending r = true →
      q' k.peer e.storedPending r = true) (meets : q.holds k e = true) : q'.holds k e = true := by
  unfold RowFilter.holds at *
  cases known : e.cell.request with
  | none =>
    rw [known] at meets
    cases meets
  | some r =>
    rw [known] at meets
    exact h r known meets

theorem Inbox.countRows_mono (d : Inbox δ) (h : ∀ p stored r, q p stored r = true → q' p stored r = true) :
    d.countRows q ≤ d.countRows q' :=
  d.count_le_of_imp fun _ _ => RowFilter.holds_mono fun r _ => h _ _ r

theorem freshSince_mono {t : Time} (h : t ≤ t') : freshSince t ≤ freshSince t' :=
  storeTime_mono (Int.sub_le_sub_right h _)

theorem daySince_mono {t : Time} (h : t ≤ t') : daySince t ≤ daySince t' := storeTime_mono (Int.sub_le_sub_right h _)

section Room

variable {s : Surroundings} {peer peer' by' : PeerKey} {now now' : Time}

variable {since since' : StoreTime}

theorem Request.Row.receivedSince_mono {r : Row} (h : since ≤ since')
    (received : r.receivedSince since' = true) : r.receivedSince since = true := by
  unfold Request.Row.receivedSince at *
  cases known : r.receivedAt with
  | none =>
    rw [known] at received
    cases received
  | some t =>
    rw [known] at received
    simp only [Option.any_some, decide_eq_true_eq] at received ⊢
    exact h.trans received

theorem Request.Row.introducedBy_mono {r : Row} (h : since ≤ since')
    (introduced : r.introducedBy by' since' = true) : r.introducedBy by' since = true := by
  unfold Request.Row.introducedBy at *
  cases known : r.introducedAt with
  | none =>
    rw [known] at introduced
    simp at introduced
  | some t =>
    rw [known] at introduced
    simp only [Option.any_some, Bool.and_eq_true, decide_eq_true_eq] at introduced ⊢
    exact ⟨introduced.1, h.trans introduced.2⟩

theorem room_openOf : Request.RoomFor w d (.openOf peer) Request.maxOpenPerPeer peer' (d.intake peer' s now) now := by
  intro c r id created hash row outcome stored _ _ stores _ meets
  simp only [RowFilter.openOf, Bool.and_eq_true, beq_iff_eq] at meets
  obtain ⟨rfl, isOpen⟩ := meets
  have room := stores.room isOpen
  simp only [Request.Intake.openCapReached, Bool.or_eq_false_iff, decide_eq_false_iff_not, not_le] at room
  exact room.1

theorem checkDailyCaps_ok {i : Intake} (h : i.checkDailyCaps now = .ok ()) : i.daily < Request.maxNewPerPeerPerDay ∧
      (i.fresh now = true → i.dailyIntroduced < Request.maxNewPerIntroducerPerDay) := by
  simpa only [Request.Intake.checkDailyCaps, bind_eq_ok, require_eq_ok, exists_and_left, exists_const] using h

theorem room_receivedOf (later : now ≤ now') :
    Request.RoomFor w d (.receivedOf peer (daySince now')) Request.maxNewPerPeerPerDay peer'
      (d.intake peer' s now) now := by
  intro c r id created hash row outcome stored daily _ _ _ meets
  simp only [RowFilter.receivedOf, Bool.and_eq_true, beq_iff_eq] at meets
  obtain ⟨rfl, _⟩ := meets
  refine lt_of_le_of_lt (d.countRows_mono fun p stored r meets => ?_) (checkDailyCaps_ok daily).1
  simp only [RowFilter.receivedOf, Bool.and_eq_true] at meets ⊢
  exact ⟨meets.1, r.receivedSince_mono (daySince_mono later) meets.2⟩

theorem fresh_of_introduced {c : Cell δ} {r : Request.Body} {hash : String} {row : Row}
    {outcome : Request.ReceiveOutcome} (later : now ≤ now')
    (stores : Request.Stores c r hash (d.intake peer' s now) now row outcome)
    (introduced : row.introducedBy by' (freshSince now') = true) :
    (d.intake peer' s now).fresh now = true ∧ ∃ intro, s.introduction = some intro ∧ intro.by' = by' := by
  obtain ⟨_, _, introducer, introducedAt⟩ := stores.origin
  have fresh := Request.Row.introducedBy_mono (freshSince_mono later) introduced
  unfold Request.Row.introducedBy at fresh
  rw [introducer, introducedAt] at fresh
  cases known : s.introduction with
  | none => simp [Inbox.intake, known] at fresh
  | some intro =>
    simp only [Inbox.intake, known, Option.map_some, Option.any_some, Bool.and_eq_true, beq_iff_eq,
      Option.some.injEq] at fresh
    refine ⟨?_, intro, rfl, fresh.1⟩
    simpa only [Request.Intake.fresh, Inbox.intake, known, Option.any_some] using fresh.2

theorem room_openIntroduced (later : now ≤ now') :
    Request.RoomFor w d (.openIntroduced by' (freshSince now')) Request.maxOpenPerIntroducer peer'
      (d.intake peer' s now) now := by
  intro c r id created hash row outcome stored _ _ stores _ meets
  simp only [RowFilter.openIntroduced, Bool.and_eq_true] at meets
  obtain ⟨fresh, intro, known, rfl⟩ := fresh_of_introduced later stores meets.1
  have room := stores.room meets.2
  simp only [Request.Intake.openCapReached, Bool.or_eq_false_iff, fresh, Bool.true_and,
    decide_eq_false_iff_not, not_le] at room
  have count : (d.intake peer' s now).openIntroduced = d.countRows (.openIntroduced intro.by' (freshSince now)) := by
    simp only [Inbox.intake, Surroundings.introduced, known]
  rw [count] at room
  refine lt_of_le_of_lt (d.countRows_mono fun p stored r meets => ?_) room.2
  simp only [RowFilter.openIntroduced, Bool.and_eq_true] at meets ⊢
  exact ⟨r.introducedBy_mono (freshSince_mono later) meets.1, meets.2⟩

theorem room_receivedIntroduced (later : now ≤ now') :
    Request.RoomFor w d (.receivedIntroduced by' (freshSince now') (daySince now'))
      Request.maxNewPerIntroducerPerDay peer' (d.intake peer' s now) now := by
  intro c r id created hash row outcome stored daily _ stores _ meets
  simp only [RowFilter.receivedIntroduced, Bool.and_eq_true] at meets
  obtain ⟨fresh, intro, known, rfl⟩ := fresh_of_introduced later stores meets.1
  have count : (d.intake peer' s now).dailyIntroduced =
      d.countRows (.receivedIntroduced intro.by' (freshSince now) (daySince now)) := by
    simp only [Inbox.intake, Surroundings.introduced, known]
  have room := (checkDailyCaps_ok daily).2 fresh
  rw [count] at room
  refine lt_of_le_of_lt (d.countRows_mono fun p stored r meets => ?_) room
  simp only [RowFilter.receivedIntroduced, Bool.and_eq_true] at meets ⊢
  exact ⟨r.introducedBy_mono (freshSince_mono later) meets.1, r.receivedSince_mono (daySince_mono later) meets.2⟩

theorem budget_of_receiverUrgency {i : Intake} {r : Request.Body} {u : Urgency} {limit : Nat}
    (valid : Request.validate r = .ok ()) (limited : Request.budgetLimit u = some limit)
    (effective : (i.receiverUrgency r).1 = u) : i.budget u < limit := by
  have unlimited : Request.budgetLimit .normal = none := rfl
  unfold Request.Intake.receiverUrgency at effective
  split at effective
  · next declared lowered =>
    have normal := Request.urgency_of_declared valid (by rw [lowered]; rfl)
    rw [← effective, normal, unlimited] at limited
    cases limited
  · split at effective
    · next none =>
      rw [← effective, none] at limited
      cases limited
    · next limit' some =>
      split at effective
      · rw [← effective, unlimited] at limited
        cases limited
      · next within =>
        rw [show r.urgency = u from effective, limited] at some
        cases some
        rw [show r.urgency = u from effective] at within
        exact not_le.mp within

end Room

/-! ## Steps of the inbox -/

section Steps

variable [Inhabited δ]

instance : Inhabited (Cell δ) := ⟨{ debate := default }⟩

instance : Inhabited (Entry δ) := ⟨{ cell := default }⟩

namespace Inbox

def update (w : Wiring δ) (d : Inbox δ) (k : Key) (e : WorkerEvent) : Inbox δ :=
  d.set k
    { cell := workerStep w k (d.get k).cell e
      storedPending := (d.get k).storedPending || storesPending w k (d.get k).cell e }

def receive (w : Wiring δ) (d : Inbox δ) (k : Key) (m : Mail) (s : Surroundings) (now : Time) : Inbox δ :=
  d.update w k (.mail m (d.intake k.peer s now) (d.tombstones k.peer) now)

/-- One event; a mail may prune tombstones of its peer first. -/
def step (w : Wiring δ) (d : Inbox δ) : InboxEvent → Inbox δ
  | .op k op now => d.update w k (.op op now)
  | .mail peer m s now =>
    if Request.prunesTombstones (d.get ⟨peer, m.body.requestID⟩).cell m now then
      (d.prune now).receive w ⟨peer, m.body.requestID⟩ m s now
    else d.receive w ⟨peer, m.body.requestID⟩ m s now

/-- The inbox after the events `es`, from the start. -/
def after (w : Wiring δ) (es : List InboxEvent) : Inbox δ := run (step w) .empty es

end Inbox

/-! ## How counts move -/

/-- The mark of a pending request: its row exists, and only its user declined it. -/
def Inbox.Marked (d : Inbox δ) : Prop :=
  ∀ k, (d.get k).storedPending = true →
  ∃ r, (d.get k).cell.request = some r ∧ (r.declineCode = none ∨ r.declineCode = some .user)

/-- The same for an event of one request. -/
theorem Inbox.Marked.update (hooks : w.debates.KeepRows) (marked : d.Marked) (k : Key) (e : WorkerEvent) :
    (d.update w k e).Marked := by
  intro j mark
  unfold Inbox.update at mark ⊢
  rw [Table.get_set] at mark ⊢
  split at mark
  · rename_i same
    subst same
    rw [if_pos rfl]
    have code {r r' : Row} (moves : r.Moves r')
        (was : r.declineCode = none ∨ r.declineCode = some .user) :
        r'.declineCode = none ∨ r'.declineCode = some .user :=
      moves.code.elim (fun same => by rw [same]; exact was) .inr
    rcases Bool.or_eq_true_iff.mp mark with old | new
    · obtain ⟨r, known, was⟩ := marked k old
      obtain ⟨r', known', moves⟩ := (workerStep_rowStep (k := k) hooks e).later known
      exact ⟨r', known', code moves was⟩
    · obtain ⟨m, r, i, _, now, c', accepted, _, _, applied, same⟩ := storesPending_spec new
      rcases apply_stores hooks applied with ⟨⟨r, known⟩, _⟩ | ⟨_, _, hash, row, _, known, stores⟩
      · cases (storesPending_known known).symm.trans new
      · cases stores with
        | pending accepted unburied young room moves => exact ⟨row, same ▸ known, code moves (.inl rfl)⟩
  · rename_i other
    rw [if_neg other]
    exact marked j mark

/-- The length of the urgency window, in the milliseconds of received times. -/
def Request.budgetWindow : StoreTime := storeTime Request.urgencyBudgetWindow

variable {first : StoreTime} {now : Time} {peer : PeerKey} {u : Urgency}

theorem budgetSince_le (inWindow : storeTime now ≤ first + Request.budgetWindow) : budgetSince now ≤ first := by
  unfold budgetSince Request.budgetWindow Request.urgencyBudgetWindow storeTime day hour minute second
    StoreTime Time at *
  omega

theorem Inbox.Marked.pendingIn_le (marked : d.Marked) {last since : StoreTime} (h : since ≤ first) :
    d.countRows (.pendingIn peer u first last) ≤ d.countRows (.budgetOf peer u since) := by
  refine d.count_le_of_get fun k => RowFilter.holds_mono fun r known meets => ?_
  simp only [RowFilter.pendingIn, Bool.and_eq_true] at meets
  obtain ⟨⟨⟨peer, mark⟩, urgency⟩, received⟩ := meets
  obtain ⟨r', known', code⟩ := marked k mark
  cases known.symm.trans known'
  have since : r.receivedSince since = true := by
    unfold Request.Row.receivedSince
    cases at' : r.receivedAt with
    | none =>
      rw [at'] at received
      cases received
    | some t =>
      rw [at'] at received
      simp only [Option.any_some, Bool.and_eq_true, decide_eq_true_eq] at received ⊢
      exact h.trans received.1
  simp only [RowFilter.budgetOf, Bool.and_eq_true, Bool.or_eq_true, beq_iff_eq]
  exact ⟨⟨⟨by simpa using peer, by simpa using urgency⟩, since⟩, code⟩

theorem room_pendingIn (marked : d.Marked) {s : Surroundings} {peer' : PeerKey}
    {limit : Nat} (limited : Request.budgetLimit u = some limit) :
    Request.RoomFor w d (.pendingIn peer u first (first + Request.budgetWindow)) limit peer'
      (d.intake peer' s now) now := by
  intro c r id created hash row outcome stored _ checked stores flagged meets
  simp only [RowFilter.pendingIn, Bool.and_eq_true, beq_iff_eq] at meets
  obtain ⟨⟨⟨rfl, mark⟩, urgency⟩, received⟩ := meets
  obtain ⟨accepted, rfl⟩ := flagged mark
  rw [stores.origin.2.1, Option.any_some, Bool.and_eq_true, decide_eq_true_eq, decide_eq_true_eq] at received
  have valid : Request.validate r = .ok () := by
    simp only [Request.checkRequest, bind_eq_ok] at checked
    obtain ⟨_, valid, _⟩ := checked
    unfold orBadBody at valid
    split at valid
    · assumption
    · cases valid
  have within : (d.intake peer' s now).budget u < limit := by
    cases stores with
    | pending accepted unburied young room moves =>
      have effective : ((d.intake peer' s now).receiverUrgency r).1 = u := by
        rw [← urgency]
        exact (congrArg Request.Origin.urgency moves.origin).symm
      exact budget_of_receiverUrgency valid limited effective
  exact lt_of_le_of_lt (marked.pendingIn_le (budgetSince_le received.2)) within

/-- A count that fades with time is only raised by a mail with room for it. -/
theorem Inbox.update_le (hooks : w.debates.KeepRows) (marked : d.Marked) (fades : q.Fades) (le : d.countRows q ≤ n)
    (room : ∀ m i tombstones now, e = .mail m i tombstones now →
      Request.RoomFor w d q n k.peer i now) : (d.update w k e).countRows q ≤ n := by
  have moved := d.count_set q.holds k
    { cell := workerStep w k (d.get k).cell e
      storedPending := (d.get k).storedPending || storesPending w k (d.get k).cell e } rfl
  change (d.set k _).count q.holds ≤ n
  change d.count q.holds ≤ n at le
  unfold Request.RoomFor Inbox.countRows at room
  generalize (d.set k _).count q.holds = total at moved ⊢
  rw [RowFilter.holds, RowFilter.holds] at moved
  dsimp only at moved
  cases now : (workerStep w k (d.get k).cell e).request with
  | none =>
    rw [now] at moved
    simp only [Option.any_none, Bool.toNat_false] at moved
    omega
  | some row =>
    rw [now, Option.any_some] at moved
    cases before : (d.get k).cell.request with
    | some r =>
      obtain ⟨row', known, moves⟩ := (workerStep_rowStep (k := k) hooks e).later before
      cases now.symm.trans known
      rw [before, Option.any_some, storesPending_known before, Bool.or_false] at moved
      have kept := fades k.peer (d.get k).storedPending r row moves
      cases meets : q k.peer (d.get k).storedPending row with
      | false =>
        rw [meets, Bool.toNat_false] at moved
        omega
      | true =>
        rw [meets, kept meets] at moved
        omega
    | none =>
      obtain ⟨m, r, i, tombstones, time, hash, outcome, event, carried, applied, daily, checked, stores⟩ :=
        storedBy_of_new hooks before now
      rw [before] at moved
      simp only [Option.any_none, Bool.toNat_false, Nat.add_zero] at moved
      rw [moved]
      have unmarked : (d.get k).storedPending = false := by
        by_contra mark
        obtain ⟨r, known, _⟩ := marked k (eq_true_of_ne_false mark)
        cases before.symm.trans known
      rw [unmarked, Bool.false_or]
      cases holds : q k.peer (storesPending w k (d.get k).cell e) row with
      | false => exact le
      | true =>
        refine room m i tombstones time event _ r k.id m.created hash row outcome _ daily checked stores
          (fun pending => ?_) holds
        obtain ⟨m', r', i', _, time', c', accepted, event', carried', applied', _⟩ := storesPending_spec pending
        cases event.symm.trans event'
        cases carried.symm.trans carried'
        cases applied.symm.trans applied'
        exact ⟨accepted, rfl⟩

theorem Inbox.get_prune (d : Inbox δ) (now : Time) (k : Key) :
    (d.prune now).get k = { d.get k with cell := Request.pruneTombstone now (d.get k).cell } :=
  Table.get_mapRows _ _ _ rfl

theorem Inbox.Marked.prune (marked : d.Marked) (now : Time) : (d.prune now).Marked := by
  intro k mark
  rw [Inbox.get_prune] at mark ⊢
  exact marked k mark

/-- The marks of the rows stored as pending, over one event. -/
theorem Inbox.Marked.step (hooks : w.debates.KeepRows) (marked : d.Marked) (e : InboxEvent) :
    (d.step w e).Marked := by
  unfold Inbox.step
  split
  · exact marked.update hooks _ _
  · split
    · exact (marked.prune _).update hooks _ _
    · exact marked.update hooks _ _

theorem Inbox.step_le {e : InboxEvent} (hooks : w.debates.KeepRows) (marked : d.Marked) (fades : q.Fades)
    (le : d.countRows q ≤ n) (room : ∀ peer s, Request.RoomFor w d q n peer (d.intake peer s e.time) e.time) :
    (d.step w e).countRows q ≤ n := by
  unfold Inbox.step
  split
  · refine Inbox.update_le hooks marked fades le ?_
    rintro m i tombstones now ⟨⟩
  · next peer m s now =>
    split
    · refine Inbox.update_le hooks (marked.prune _) fades (by rw [countRows_prune]; exact le) ?_
      rintro m i tombstones now ⟨⟩
      unfold Request.RoomFor
      rw [countRows_prune, intake_prune]
      exact room peer s
    · refine Inbox.update_le hooks marked fades le ?_
      rintro m i tombstones now ⟨⟩
      exact room peer s

/-! ## The caps in every run -/

/-- What holds of an inbox whose clock reads `now`. -/
structure Inbox.Capped (d : Inbox δ) (now : Time) : Prop where
  openOf : ∀ peer, d.countRows (.openOf peer) ≤ Request.maxOpenPerPeer
  receivedOf : ∀ peer, d.countRows (.receivedOf peer (daySince now)) ≤ Request.maxNewPerPeerPerDay
  openIntroduced : ∀ by', d.countRows (.openIntroduced by' (freshSince now)) ≤ Request.maxOpenPerIntroducer
  receivedIntroduced : ∀ by',
    d.countRows (.receivedIntroduced by' (freshSince now) (daySince now)) ≤ Request.maxNewPerIntroducerPerDay
  high : ∀ peer first, d.countRows (.pendingIn peer .high first (first + Request.budgetWindow)) ≤ 5
  blocking : ∀ peer first, d.countRows (.pendingIn peer .blocking first (first + Request.budgetWindow)) ≤ 2

/-- The caps over one event of the inbox. -/
theorem Inbox.Capped.step {e : InboxEvent} (hooks : w.debates.KeepRows)
    (marked : d.Marked) (capped : d.Capped now) (later : e.time ≤ now) : (d.step w e).Capped now where
  openOf := fun peer => step_le hooks marked (RowFilter.openOf_fades peer) (capped.openOf peer) fun _ _ => room_openOf
  receivedOf := fun peer => step_le hooks marked (RowFilter.receivedOf_fades peer _)
    (capped.receivedOf peer) fun _ _ => room_receivedOf later
  openIntroduced := fun by' => step_le hooks marked (RowFilter.openIntroduced_fades by' _)
    (capped.openIntroduced by') fun _ _ => room_openIntroduced later
  receivedIntroduced := fun by' => step_le hooks marked
    (RowFilter.receivedIntroduced_fades by' _ _) (capped.receivedIntroduced by')
    fun _ _ => room_receivedIntroduced later
  high := fun peer first => step_le hooks marked (RowFilter.pendingIn_fades peer _ first _)
    (capped.high peer first) fun _ _ => room_pendingIn marked rfl
  blocking := fun peer first => step_le hooks marked (RowFilter.pendingIn_fades peer _ first _)
    (capped.blocking peer first) fun _ _ => room_pendingIn marked rfl

/-- In every run whose clock `start`s somewhere and never goes back, the caps hold from the
last event on. -/
theorem caps_hold (w : Wiring δ) (hooks : w.debates.KeepRows) (start : Time)
    (es : List InboxEvent) (clocked : Clocked InboxEvent.time start es) (now : Time)
    (later : clock InboxEvent.time start es ≤ now) : (Inbox.after w es).Capped now := by
  have empty (q : RowFilter) : Inbox.countRows (.empty : Inbox δ) q = 0 := rfl
  have unmarked : Inbox.Marked (.empty : Inbox δ) := fun _ mark => by cases mark
  have inv : (Inbox.after w es).Marked ∧ ∀ now, clock InboxEvent.time start es ≤ now →
      (Inbox.after w es).Capped now := by
    refine run_clocked (motive := fun t (d : Inbox δ) => d.Marked ∧ ∀ now, t ≤ now → d.Capped now)
      (fun t d e inv clock => ?_) ⟨unmarked, fun now _ => ?_⟩ clocked
    · exact ⟨inv.1.step hooks e, fun now later => (inv.2 now (clock.trans later)).step hooks inv.1 later⟩
    · constructor <;> intros <;> rw [empty] <;> exact Nat.zero_le _
  exact inv.2 now later

def blockingMail (id : String) (now : Time) : InboxEvent :=
  let task := sampleTask.request sampleParties.requester sampleParties.requesterKey 0 0
  .mail sampleParties.requester ⟨0, .request { task with id, urgency := .blocking, urgencyReason := "now" }⟩ {} now

/-- Three blocking requests of one peer, of which the third is over the budget. -/
def sampleInbox : List InboxEvent :=
  [blockingMail "r-00000000000000000000000000000001" 0, blockingMail "r-00000000000000000000000000000002" hour,
    blockingMail "r-00000000000000000000000000000003" (2 * hour)]

theorem sampleInbox_capped : (Inbox.after sampleParties.atWorker sampleInbox).Capped day ∧
    (Inbox.after sampleParties.atWorker sampleInbox).countRows
      (.pendingIn sampleParties.requester .blocking 0 Request.budgetWindow) = 2 ∧
    (Inbox.after sampleParties.atWorker sampleInbox).countRows (.openOf sampleParties.requester) = 3 :=
  ⟨caps_hold _ DebateHooks.undebated_keepRows 0 _ (by decide) _ (by decide), by decide +kernel, by decide +kernel⟩

end Steps

end Agentnet
