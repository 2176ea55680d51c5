import Agentnet.Capability.Token
import Agentnet.Lib.Dict
import Agentnet.Lib.Run

/-! Standing policies: the grants that `grant_create` issues at once under a row of
`grant_policies`, and the paths that the fetch server serves under them. -/

namespace Agentnet.Capability.Policies

open Lib

abbrev GrantID := String
abbrev PolicyID := String

inductive Action where
  | fsRead | gitRead
  deriving DecidableEq

structure Policy where
  id : PolicyID
  peer : PeerKey
  action : Action
  /-- The resolved local path. -/
  path : String
  branch : String
  scope : String
  isPublic : Bool
  maxExpiresS : Int
  until_ : StoreTime
  /-- The time of `grant_policy_add`, not of the confirmation. -/
  created : StoreTime := 0
  deriving DecidableEq

inductive GrantState where
  | pendingApproval | active | revoked
  deriving DecidableEq

/-- A row of `grants` with direction `issued`. -/
structure Record where
  peer : PeerKey
  session : SessionID
  action : Action
  path : String
  branch : String
  scope : String
  sensitive : Bool
  nbf : StoreTime
  exp : StoreTime
  state : GrantState := .pendingApproval
  approval : Option String := none
  policy : Option PolicyID := none
  deriving DecidableEq

/-- The parameters of `grant_create`, with the path as the file system resolves it. -/
structure CreateParams where
  id : GrantID
  peer : PeerKey
  session : SessionID
  action : Action
  path : String
  branch : String
  scope : String
  isPublic : Bool
  expires : Time

namespace CreateParams

variable (p : CreateParams)

/-- `fs.read` is always sensitive. -/
def sensitive : Bool := p.action != .gitRead || !p.isPublic

def expiresS : Int := p.expires / second

/-- The row of a pending grant. -/
def record (now : Time) : Record where
  peer := p.peer
  session := p.session
  action := p.action
  path := p.path
  branch := p.branch
  scope := p.scope
  sensitive := p.sensitive
  nbf := storeTime now
  exp := storeTime (now + p.expires)

end CreateParams

/-! ## Matching -/

def segments (path : String) : List (List Char) := if path = "" then [] else path.toList.splitOn '/'

def scopeWithin (child parent : String) : Bool :=
  if parent = "" then true
  else if child = "" then false
  else (parent.toList.splitOn '/').isPrefixOf (child.toList.splitOn '/')

def policyCovers (p : Policy) (mp : CreateParams) (now : Time) : Bool :=
  p.path = mp.path && !(mp.action = .gitRead && p.branch ≠ mp.branch) && scopeWithin mp.scope p.scope &&
    p.isPublic = !mp.sensitive && mp.expiresS ≤ p.maxExpiresS && now < parseStoreTime p.until_

def pruneExpiredPolicies (policies : List Policy) (now : Time) : List Policy :=
  policies.filter fun p => !decide (p.until_ < storeTime now)

/-- `Match`, after the prune: the first that covers the grant, `ORDER BY created`. -/
def match_ (policies : List Policy) (mp : CreateParams) (now : Time) : Option Policy :=
  ((policies.filter fun p => p.peer = mp.peer && p.action = mp.action).insertionSort
    (·.created ≤ ·.created)).find? fun p => policyCovers p mp now

/-! ## The daemon -/

inductive Trust where
  | relay | other
  deriving DecidableEq

/-- The columns of a work session that grants depend on. -/
structure Session where
  requester : Bool
  peer : PeerKey
  isOpen : Bool
  debate : Bool

/-- A `grant_create` that has passed its checks: it looks for a policy, or has found one. -/
structure Call where
  params : CreateParams
  now : Time
  found : Option Policy := none

structure Daemon where
  /-- In the order in which they were confirmed. -/
  policies : List Policy := []
  grants : Dict GrantID Record := ∅
  sessions : Dict SessionID Session := ∅
  peers : Dict PeerKey Trust := ∅
  /-- The peers with an open debate. -/
  debates : List PeerKey := []
  calls : List Call := []
  /-- Policies whose approval waits for the human. -/
  waiting : List Policy := []
  /-- Every policy id ever drawn. -/
  drawn : Dict PolicyID Policy := ∅

/-- The operations on grants and policies, and what ends them. -/
inductive Op where
  | create (p : CreateParams)
  | match_ (i : Nat)
  | issue (i : Nat)
  /-- The approval of a pending grant is confirmed; the resource on disk may have changed. -/
  | activate (id : GrantID) (approval : String) (sameResource : Bool)
  | revoke (id : GrantID)
  /-- A pending row without its approval, or the retention. -/
  | delete (id : GrantID)
  /-- The terms of a policy, with the id that was drawn for it. -/
  | policyAdd (p : Policy)
  /-- The human confirms the approval of a waiting policy. -/
  | policyConfirm (i : Nat)
  | policyEnd (i : Nat)
  | policyRemove (id : PolicyID)
  | policyList
  | peer (key : PeerKey) (trust : Trust)
  | peerRemove (key : PeerKey)
  | session (id : SessionID) (row : Session)
  | sessionClose (id : SessionID)
  | debates (keys : List PeerKey)
  | restart

/-- An operation and the time of it. -/
structure Event where
  now : Time
  op : Op

def Op.params : Op → Option CreateParams
  | .create p => some p
  | _ => none

/-- The lifetimes that `grant_create` is asked for are whole seconds. -/
abbrev Event.Whole (e : Event) : Prop := ∀ p ∈ e.op.params, second ∣ p.expires

def maxPolicies : Nat := 50

namespace Daemon

variable (nonLoopbackRelay : Bool) (s : Daemon)

/-- Steps 1 and 2 of the issuance, which are checked again in every issuing transaction. -/
def recheckIssuance (id : SessionID) (peer : PeerKey) : Bool :=
  ((s.sessions.lookup id).any fun x => x.isOpen && x.requester && x.peer = peer) &&
    (s.peers.lookup peer).any fun trust => !(nonLoopbackRelay && trust = .relay)

def checkSensitiveGrant (peer : PeerKey) (sensitive : Bool) : Bool := !sensitive || !s.debates.contains peer

def recheckPolicy (id : PolicyID) (now : Time) : Bool :=
  (s.policies.find? (·.id = id)).any fun p => now < parseStoreTime p.until_

def admits (p : CreateParams) : Bool :=
  s.recheckIssuance nonLoopbackRelay p.session p.peer && !(s.sessions.lookup p.session).any (·.debate) &&
    (if p.action = .gitRead then p.branch ≠ "" else p.branch = "") && (p.scope = "" || validScopePath p.scope) &&
    minute ≤ p.expires && p.expires ≤ 7 * day && s.checkSensitiveGrant p.peer p.sensitive

def validPolicy (p : Policy) (now : Time) : Bool :=
  (if p.action = .gitRead then p.branch ≠ "" else p.branch = "") && (p.scope = "" || validScopePath p.scope) &&
    60 ≤ p.maxExpiresS && p.maxExpiresS ≤ 604800 && storeTime now ≤ p.until_ && p.until_ ≤ storeTime (now + 90 * day)

/-- A row whose id is taken is not inserted. -/
def insert (id : GrantID) (row : Record) : Daemon :=
  if (s.grants.lookup id).isSome then s else { s with grants := s.grants.insert id row }

def revokeWhere (which : GrantID → Record → Bool) : Daemon :=
  { s with grants := s.grants.mapValues fun id row => if which id row then { row with state := .revoked } else row }

/-- One event. `grant_create` takes several: it checks, looks for a policy and issues. -/
def step (s : Daemon) (e : Event) : Daemon :=
  match e.op with
  | .create p => if s.admits nonLoopbackRelay p then { s with calls := s.calls ++ [⟨p, e.now, none⟩] } else s
  | .match_ i =>
    match s.calls[i]? with
    | some ⟨p, now, none⟩ =>
      let s := { s with policies := pruneExpiredPolicies s.policies e.now }
      match match_ s.policies p now with
      | some policy => { s with calls := s.calls.set i ⟨p, now, some policy⟩ }
      | none => { s with calls := s.calls.eraseIdx i }.insert p.id (p.record now)
    | _ => s
  | .issue i =>
    match s.calls[i]? with
    | some ⟨p, now, some policy⟩ =>
      let s := { s with calls := s.calls.eraseIdx i }
      if s.recheckIssuance nonLoopbackRelay p.session p.peer && s.recheckPolicy policy.id e.now &&
        s.checkSensitiveGrant p.peer p.sensitive then
        s.insert p.id { p.record now with state := .active, policy := some policy.id }
      else s
    | _ => s
  | .activate id approval sameResource =>
    match s.grants.lookup id with
    | some row =>
      if s.recheckIssuance nonLoopbackRelay row.session row.peer && s.checkSensitiveGrant row.peer row.sensitive &&
          row.state = .pendingApproval && e.now < parseStoreTime row.exp && sameResource then
        { s with grants := s.grants.insert id { row with state := .active, approval := some approval } }
      else s
    | none => s
  | .revoke id => s.revokeWhere fun id' _ => id' = id
  | .delete id => { s with grants := s.grants.erase id }
  | .policyAdd p =>
    let p := { p with created := storeTime e.now }
    if validPolicy p e.now && (s.peers.lookup p.peer).isSome && s.policies.length < maxPolicies &&
        (s.drawn.lookup p.id).isNone then
      { s with waiting := s.waiting ++ [p], drawn := s.drawn.insert p.id p }
    else s
  | .policyConfirm i =>
    match s.waiting[i]? with
    | some p =>
      let s := { s with waiting := s.waiting.eraseIdx i }
      if (s.peers.lookup p.peer).isSome && (pruneExpiredPolicies s.policies e.now).length < maxPolicies then
        { s with policies := s.policies ++ [p] }
      else s
    | none => s
  | .policyEnd i => { s with waiting := s.waiting.eraseIdx i }
  | .policyRemove id => { s with policies := s.policies.filter (·.id ≠ id) }
  | .policyList => { s with policies := pruneExpiredPolicies s.policies e.now }
  | .peer key trust => { s with peers := s.peers.insert key trust }
  | .peerRemove key =>
    { s with peers := s.peers.erase key, policies := s.policies.filter (·.peer ≠ key) }.revokeWhere fun _ row =>
      row.peer = key
  | .session id row => { s with sessions := s.sessions.insert id row }
  | .sessionClose id =>
    { s with
      sessions := s.sessions.mapValues fun id' x => if id' = id then { x with isOpen := false } else x }.revokeWhere
      fun _ row => row.session = id
  | .debates keys => { s with debates := keys }
  | .restart => { s with calls := [], waiting := [] }

end Daemon

/-! ## The fetch server -/

inductive FetchOp where
  | stat | list | read
  deriving DecidableEq

def joinScope (scope path : String) : String :=
  if scope = "" then path else if path = "" then scope else scope ++ "/" ++ path

/-- The path that a request is served from. -/
def servedPath (row : Record) (op : FetchOp) (path : String) : Option String :=
  if validScopePath path && !(path = "" && op ≠ .list) then some (joinScope row.scope path) else none

theorem segments_joinScope (scope path : String) :
    segments (joinScope scope path) = segments scope ++ segments path := by
  unfold joinScope
  split
  next none => simp [none, segments]
  split
  next none => simp [none, segments]
  next some_ others =>
    have joined : scope ++ "/" ++ path ≠ "" := by
      intro eq
      have := congrArg String.length eq
      simp at this
    rw [segments, if_neg joined, segments, if_neg some_, segments, if_neg others, String.toList_append,
      String.toList_append]
    exact (congrArg _ (List.append_assoc ..)).trans (List.splitOnP_append_cons _ _ (by rfl))

theorem prefix_of_scopeWithin {child parent : String} (h : scopeWithin child parent = true) :
    segments parent <+: segments child := by
  unfold scopeWithin at h
  unfold segments
  split at h
  · simp [*]
  · split at h
    · cases h
    · simp_all

/-! ## Invariant -/

namespace Daemon

/-- The policy that a call has found covers it, and every policy is the one its id was drawn for. -/
structure Sound (s : Daemon) : Prop where
  policies : ∀ p ∈ s.policies, s.drawn.lookup p.id = some p
  waiting : ∀ p ∈ s.waiting, s.drawn.lookup p.id = some p
  calls : ∀ c ∈ s.calls, second ∣ c.params.expires ∧ ∀ p, c.found = some p →
    s.drawn.lookup p.id = some p ∧ p.peer = c.params.peer ∧
    p.action = c.params.action ∧ policyCovers p c.params c.now = true

theorem match_some {policies : List Policy} {mp : CreateParams} {now : Time} {p : Policy}
    (h : match_ policies mp now = some p) :
    p ∈ policies ∧ p.peer = mp.peer ∧ p.action = mp.action ∧ policyCovers p mp now = true := by
  unfold match_ at h
  have mem := List.mem_of_find?_eq_some h
  have covers := List.find?_some h
  simp only [List.mem_insertionSort, List.mem_filter, Bool.and_eq_true, decide_eq_true_eq] at mem
  exact ⟨mem.1, mem.2.1, mem.2.2, covers⟩

variable {e : Event} {relay : Bool} {s : Daemon}

/-- The invariant over one event. -/
theorem step_sound (h : Sound s) (whole : e.Whole) : Sound (s.step relay e) := by
  obtain ⟨policies, waiting, calls⟩ := h
  obtain ⟨now, op⟩ := e
  have pruned : ∀ p ∈ pruneExpiredPolicies s.policies now, p ∈ s.policies := fun p mem => (List.mem_filter.mp mem).1
  cases op with
  | create p =>
    simp only [step]
    split
    · have := whole p rfl
      exact ⟨policies, waiting, by grind⟩
    · exact ⟨policies, waiting, calls⟩
  | match_ i =>
    simp only [step]
    split
    next p at_ found =>
      split
      next policy matched =>
        have some_ := match_some matched
        have whole := (calls _ (List.mem_of_getElem? found)).1
        refine ⟨by grind, waiting, fun c mem => ?_⟩
        obtain mem | rfl := List.mem_or_eq_of_mem_set mem
        · exact calls c mem
        · grind
      next =>
        have rest : ∀ c ∈ s.calls.eraseIdx i, c ∈ s.calls := fun c mem => List.mem_of_mem_eraseIdx mem
        refine ⟨?_, ?_, ?_⟩ <;> grind [insert]
    · exact ⟨policies, waiting, calls⟩
  | issue i =>
    simp only [step]
    split
    next p at_ policy found =>
      have rest : ∀ c ∈ s.calls.eraseIdx i, c ∈ s.calls := fun c mem => List.mem_of_mem_eraseIdx mem
      refine ⟨?_, ?_, ?_⟩ <;> grind [insert]
    · exact ⟨policies, waiting, calls⟩
  | policyAdd p =>
    simp only [step]
    split
    next fresh => refine ⟨?_, ?_, ?_⟩ <;> grind [AList.lookup_insert, AList.lookup_insert_ne]
    · exact ⟨policies, waiting, calls⟩
  | policyConfirm i =>
    simp only [step]
    split
    next p found =>
      have rest : ∀ p ∈ s.waiting.eraseIdx i, p ∈ s.waiting := fun c mem => List.mem_of_mem_eraseIdx mem
      refine ⟨?_, ?_, ?_⟩ <;> grind
    · exact ⟨policies, waiting, calls⟩
  | policyEnd i => exact ⟨policies, fun p mem => waiting p (List.mem_of_mem_eraseIdx mem), calls⟩
  | policyRemove id => exact ⟨fun p mem => policies p (List.mem_filter.mp mem).1, waiting, calls⟩
  | policyList => exact ⟨fun p mem => policies p (pruned p mem), waiting, calls⟩
  | peerRemove key => exact ⟨fun p mem => policies p (List.mem_filter.mp mem).1, waiting, calls⟩
  | restart => exact ⟨policies, (by intros; contradiction), (by intros; contradiction)⟩
  | activate id approval same =>
    simp only [step]
    split
    · split
      · exact ⟨policies, waiting, calls⟩
      · exact ⟨policies, waiting, calls⟩
    · exact ⟨policies, waiting, calls⟩
  | _ => exact ⟨policies, waiting, calls⟩

/-- What makes a row active without an approval of its own: the transaction of a call that has found a policy. -/
theorem active_of_issue {id : GrantID} {g : Record} (after : (s.step relay e).grants.lookup id = some g)
    (active : g.state = .active) (alone : g.approval = none)
    (before : ∀ g', s.grants.lookup id = some g' → g'.state ≠ .active) :
    ∃ c ∈ s.calls, ∃ p, c.found = some p ∧ s.recheckPolicy p.id e.now = true ∧
      g = { c.params.record c.now with state := .active, policy := some p.id } := by
  obtain ⟨now, op⟩ := e
  have revoked : ∀ (t : Daemon) which, t.grants = s.grants →
      (t.revokeWhere which).grants.lookup id = some g → False := by
    intro t which same after
    rw [revokeWhere, Dict.lookup_mapValues, Option.map_eq_some_iff, same] at after
    grind
  cases op with
  | match_ i =>
    simp only [step] at after
    grind [insert, CreateParams.record, AList.lookup_insert, AList.lookup_insert_ne]
  | issue i =>
    simp only [step] at after
    split at after
    next p at_ policy found =>
      split at after
      next passed =>
        simp only [Bool.and_eq_true] at passed
        refine ⟨_, List.mem_of_getElem? found, policy, rfl, passed.1.2, ?_⟩
        grind [insert, AList.lookup_insert, AList.lookup_insert_ne]
      · exact absurd active (before g after)
    · exact absurd active (before g after)
  | activate id' approval same =>
    simp only [step] at after
    grind [AList.lookup_insert, AList.lookup_insert_ne]
  | delete id' => exact absurd active (before g (Dict.lookup_of_erase after).2)
  | revoke id' => exact (revoked s _ rfl after).elim
  | peerRemove key => exact (revoked _ _ rfl after).elim
  | sessionClose id' => exact (revoked _ _ rfl after).elim
  | create p =>
    simp only [step] at after
    grind
  | policyAdd p =>
    simp only [step] at after
    grind
  | policyConfirm i =>
    simp only [step] at after
    grind
  | _ => exact absurd active (before g after)

theorem expires_le {now expires n : Int} (whole : second ∣ expires) (le : expires / second ≤ n) :
    storeTime (now + expires) - storeTime now ≤ n * 1000 := by
  obtain ⟨k, rfl⟩ := whole
  change (now + 1000000000 * k) / 1000000 - now / 1000000 ≤ n * 1000
  have bound : 1000000000 * k / 1000000000 ≤ n := le
  omega

/-! ## What the human has confirmed -/

/-- An earlier `grant_policy_add` made `p` wait. -/
def Added (es : List Event) (p : Policy) : Prop :=
  ∃ front added rest terms, es = front ++ added :: rest ∧ added.op = .policyAdd terms ∧
    p = { terms with created := storeTime added.now }

/-- After a `grant_policy_add` with its terms, the human confirmed the approval for which `p` waited. -/
def Confirmed (relay : Bool) (es : List Event) (p : Policy) : Prop :=
  ∃ asked confirm rest i, es = asked ++ confirm :: rest ∧ Added asked p ∧ confirm.op = .policyConfirm i ∧
    (run (step relay) {} asked).waiting[i]? = some p

variable {es : List Event} {p : Policy}

/-- A policy that was added stays so. -/
theorem Added.concat (h : Added es p) (e : Event) : Added (es ++ [e]) p := by
  obtain ⟨front, added, rest, terms, rfl, how⟩ := h
  exact ⟨front, added, rest ++ [e], terms, by simp, how⟩

theorem Confirmed.concat (h : Confirmed relay es p) (e : Event) : Confirmed relay (es ++ [e]) p := by
  obtain ⟨asked, confirm, rest, i, rfl, how⟩ := h
  exact ⟨asked, confirm, rest ++ [e], i, by simp, how⟩

theorem mem_step_waiting (mem : p ∈ (s.step relay e).waiting) :
    p ∈ s.waiting ∨ ∃ terms, e.op = .policyAdd terms ∧ p = { terms with created := storeTime e.now } := by
  obtain ⟨now, op⟩ := e
  cases op with
  | create _ | match_ _ | issue _ | activate _ _ _ | policyAdd _ | policyConfirm _ =>
    simp only [step] at mem
    grind [insert, List.mem_of_mem_eraseIdx]
  | policyEnd i => exact .inl (List.mem_of_mem_eraseIdx mem)
  | restart => cases mem
  | _ => exact .inl mem

theorem mem_step_policies (mem : p ∈ (s.step relay e).policies) :
    p ∈ s.policies ∨ ∃ i, e.op = .policyConfirm i ∧ s.waiting[i]? = some p := by
  obtain ⟨now, op⟩ := e
  cases op with
  | create _ | match_ _ | issue _ | activate _ _ _ | policyAdd _ | policyConfirm _ =>
    simp only [step] at mem
    grind [insert, pruneExpiredPolicies]
  | policyRemove _ | policyList | peerRemove _ => exact .inl (List.mem_filter.mp mem).1
  | _ => exact .inl mem

/-- Every policy of the table was added and confirmed. -/
theorem run_confirmed (relay : Bool) (es : List Event) :
    (∀ p ∈ (run (step relay) {} es).waiting, Added es p) ∧
    ∀ p ∈ (run (step relay) {} es).policies, Confirmed relay es p := by
  induction es using List.reverseRecOn with
  | nil => simp
  | append_singleton es e ih =>
    obtain ⟨waiting, policies⟩ := ih
    rw [run_concat]
    refine ⟨fun p mem => ?_, fun p mem => ?_⟩
    · obtain old | ⟨terms, op, rfl⟩ := mem_step_waiting mem
      · exact (waiting p old).concat e
      · exact ⟨es, e, [], terms, rfl, op, rfl⟩
    · obtain old | ⟨i, op, found⟩ := mem_step_policies mem
      · exact (policies p old).concat e
      · exact ⟨es, e, [], i, rfl, waiting p (List.mem_of_getElem? found), op, found⟩

/-- A grant that becomes active without an approval of its own is within the policy that its row
names, which a human has confirmed and which is still in force; and so is every path served under it. -/
theorem auto_grant_within_policy {relay : Bool} {es : List Event}
    (whole : Follows (step relay) (fun _ e => e.Whole) {} es) {s : Daemon} (ran : run (step relay) {} es = s)
    {e : Event} {id : GrantID} {g : Record} (after : (s.step relay e).grants.lookup id = some g)
    (active : g.state = .active) (alone : g.approval = none)
    (before : ∀ g', s.grants.lookup id = some g' → g'.state ≠ .active) :
    ∃ p ∈ s.policies, Confirmed relay es p ∧ g.policy = some p.id ∧ e.now < parseStoreTime p.until_ ∧
      g.peer = p.peer ∧ g.action = p.action ∧ g.path = p.path ∧ (g.action = .gitRead → g.branch = p.branch) ∧
      g.sensitive = !p.isPublic ∧ g.exp - g.nbf ≤ p.maxExpiresS * 1000 ∧ segments p.scope <+: segments g.scope ∧
      ∀ op path served, servedPath g op path = some served → segments p.scope <+: segments served := by
  have sound : Sound s := ran ▸ run_invariant_of (motive := Sound) (fun _ _ h whole => step_sound h whole)
    (show Sound {} from ⟨(by simp), (by simp), (by simp)⟩) whole
  have confirmed : ∀ p ∈ s.policies, Confirmed relay es p := ran ▸ (run_confirmed relay es).2
  obtain ⟨c, mem, p, found, rechecked, rfl⟩ := active_of_issue after active alone before
  obtain ⟨seconds, matched⟩ := sound.calls c mem
  obtain ⟨drawn, peer, action, covers⟩ := matched p found
  -- the row read in the transaction is the one that was matched
  obtain ⟨q, stored, fresh⟩ : ∃ q, s.policies.find? (·.id = p.id) = some q ∧ e.now < parseStoreTime q.until_ := by
    simpa [recheckPolicy, Option.any_eq_true] using rechecked
  have member := List.mem_of_find?_eq_some stored
  have same : q = p := by
    have id : q.id = p.id := by simpa using List.find?_some stored
    have := sound.policies q member
    rw [id, drawn] at this
    exact (Option.some.inj this).symm
  subst same
  simp only [policyCovers, Bool.and_eq_true, decide_eq_true_eq] at covers
  obtain ⟨⟨⟨⟨⟨path, branch⟩, scope⟩, sensitive⟩, expires⟩, -⟩ := covers
  have within := prefix_of_scopeWithin scope
  refine ⟨q, member, confirmed q member, rfl, fresh, peer.symm, action.symm, path.symm, ?_, ?_,
    expires_le seconds expires, within, ?_⟩
  · grind [CreateParams.record]
  · simp [CreateParams.record, sensitive]
  · intro op path served eq
    unfold servedPath at eq
    split at eq
    · cases eq
      rw [segments_joinScope]
      exact within.trans (List.prefix_append _ _)
    · cases eq

/-- A public policy on one directory of a branch, and a call that has matched it. -/
def matchedCall : List Event :=
  [⟨0, .peer "peer" .other⟩, ⟨0, .session "s-1" ⟨true, "peer", true, false⟩⟩,
    ⟨0, .policyAdd ⟨"p-1", "peer", .gitRead, "/repo", "main", "src", true, 3600, 86400000, 0⟩⟩, ⟨0, .policyConfirm 0⟩,
    ⟨1, .create ⟨"g-1", "peer", "s-1", .gitRead, "/repo", "main", "src/lib", true, 3600 * second⟩⟩, ⟨1, .match_ 0⟩]

theorem matched_call_serves_within :
    ∃ p ∈ (run (step true) {} matchedCall).policies, p.id = "p-1" ∧
    segments p.scope <+: segments "src/lib/main.go" := by
  obtain ⟨p, mem, -, named, -, -, -, -, -, -, -, -, served⟩ :=
    @auto_grant_within_policy true matchedCall (by decide +kernel) _ rfl ⟨2, .issue 0⟩ "g-1"
      ⟨"peer", "s-1", .gitRead, "/repo", "main", "src/lib", false, 0, 3600000, .active, none, some "p-1"⟩
      (by decide +kernel) rfl rfl (by decide +kernel)
  exact ⟨p, mem, (Option.some.inj named).symm, served .read "main.go" _ (by decide +kernel)⟩

end Daemon

end Agentnet.Capability.Policies
