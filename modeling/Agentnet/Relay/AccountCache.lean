import Agentnet.Relay.Accounts
import Agentnet.Lib.Run

/-! The relay's cache of the account bindings: the passes that reload it and bring the live
connections in line, and the watcher that looks for commits of other processes. -/

namespace Agentnet.Relay.Accounts

open Lib

structure Binding where
  account : AccountID
  /-- The quota group, if it is active. -/
  group : Option GroupID
  suspended : Bool
  deriving DecidableEq

def Database.loadBindings (db : Database) (key : PeerKey) : Option Binding :=
  (db.keys.lookup key).bind fun acc => (db.accounts.lookup acc).map fun a =>
    { account := acc
      group := if a.group.bind db.groups.lookup = some .active then a.group else none
      suspended := decide (a.state = .suspended) || db.groupSuspended a }

/-- A state of the database. Of the `seq` commits that led to it, `version` were made by another
process: this is what `PRAGMA data_version` counts. -/
structure Snapshot where
  db : Database
  seq : Nat := 0
  version : Nat := 0

/-- A commit by `relay admin`. -/
def Snapshot.foreign (snap : Snapshot) (o : Op) : Snapshot :=
  match snap.db.commit o with
  | .ok (db, _) => ⟨db, snap.seq + 1, snap.version + 1⟩
  | .error _ => snap

inductive Call where
  | confirmBind (key : PeerKey) (account : AccountID)
  | unbindSelf (key : PeerKey)
  | unbindKey (key : PeerKey)
  | setAccountSuspended (account : AccountID) (suspend : Bool)
  | setGroupSuspended (group : GroupID) (suspend : Bool)
  | deleteAccount (account : AccountID)

namespace Call

/-- The change of the database that a call makes. -/
def op : Call → Op
  | .confirmBind key acc => .confirmBind key acc
  | .unbindSelf key | .unbindKey key => .unbindKey key
  | .setAccountSuspended acc suspend => .setAccountState acc suspend
  | .setGroupSuspended g suspend => .setGroupState g suspend
  | .deleteAccount acc => .deleteAccount acc

/-- The errors after which the call returns without `accountsChanged`. -/
def stops : Call → StoreError → Bool
  | .confirmBind .., _ => true
  | .unbindSelf _, err => err != .noAccount
  | _, _ => false

/-- `unbindSelf` also returns without it when the journal refuses the record, after the `DELETE` has committed. -/
def stopsLate : Call → Bool
  | .unbindSelf _ => true
  | _ => false

end Call

structure Conn where
  /-- The account the connection was last seen bound to. -/
  acctSeen : Option AccountID
  acctClosing : Bool := false
  deriving DecidableEq

/-- Who runs `accountsChanged`: the watcher, or a call after the `since`-th commit. -/
inductive Caller where
  | watcher
  | call (since : Nat)

/-- `accountsChanged` under `reconcileMu`: the rows are read, and then put into the cache. -/
inductive Pass where
  | read (who : Caller) (rows : Snapshot)
  | reloaded (who : Caller)

structure Server where
  now : Snapshot
  past : List Snapshot := []
  keys : PeerKey → Option Binding
  /-- The last version that the watcher acted on. -/
  version : Nat := 0
  /-- The watcher is in `accountsChanged`. -/
  busy : Bool := false
  pass : Option Pass := none
  /-- The calls that wait for their pass, and those that have returned from it. -/
  calls : List Nat := []
  returned : List Nat := []
  /-- The last reload failed, or a call has returned without a pass since the rows of it were read. -/
  failed : Bool := false
  /-- A call has returned without a pass since the rows of this one were read. -/
  overtaken : Bool := false
  conns : Dict PeerKey Conn := ∅

inductive ServerEvent where
  /-- `late`: an error after the commit, of the journal or in reading the result. -/
  | call (c : Call) (late : Bool)
  | admin (o : Op)
  | tick (readable : Bool)
  /-- The watcher, or a waiting call, takes the lock and reads the rows. -/
  | reload (call : Option Nat) (ok : Bool)
  | install
  | reconcile
  | register (key : PeerKey)
  | unregister (key : PeerKey)

/-- One connection in the loop of `accountsChanged`. -/
def Conn.reconcile (binding : Option Binding) (c : Conn) : Conn :=
  if c.acctClosing then c
  else if binding.any (·.suspended) then { c with acctClosing := true }
  else if c.acctSeen ≠ none ∧ binding.map (·.account) ≠ c.acctSeen then { c with acctClosing := true }
  else { c with acctSeen := binding.map (·.account) }

namespace Server

def newAccounts (db : Database) (meanwhile : List Op) : Server :=
  let now := meanwhile.foldl Snapshot.foreign ⟨db, 0, 0⟩
  { now := now, keys := now.db.loadBindings }

def commit (s : Server) (now : Snapshot) : Server := { s with now := now, past := s.now :: s.past }

def caller (s : Server) : Option Nat → Option Caller
  | none => if s.busy then some .watcher else none
  | some i => s.calls[i]?.map .call

/-- The caller leaves `accountsChanged`. -/
def leave (s : Server) : Caller → Server
  | .watcher => { s with pass := none, busy := false }
  | .call since => { s with pass := none, returned := since :: s.returned }

/-- One event; a call commits first and tells the cache later. -/
def step (s : Server) : ServerEvent → Server
  | .call c late =>
    match s.now.db.commit c.op with
    | .ok (db, _) =>
      let since := s.now.seq + 1
      let s := s.commit { s.now with db := db, seq := since }
      if late && c.stopsLate then { s with returned := since :: s.returned, failed := true, overtaken := true }
      else { s with calls := s.calls ++ [since] }
    | .error err => if c.stops err then s else { s with calls := s.calls ++ [s.now.seq] }
  | .admin o => s.commit (s.now.foreign o)
  | .tick readable =>
    if readable ∧ s.busy = false ∧
    s.now.version ≠ s.version then { s with version := s.now.version, busy := true } else s
  | .reload call ok =>
    match s.pass, s.caller call with
    | none, some who =>
      let s := { s with calls := call.elim s.calls s.calls.eraseIdx }
      if ok then { s with pass := some (.read who s.now), overtaken := false }
      else { s with failed := true }.leave who
    | _, _ => s
  | .install =>
    match s.pass with
    | some (.read who rows) =>
      { s with keys := rows.db.loadBindings, failed := s.overtaken, pass := some (.reloaded who) }
    | _ => s
  | .reconcile =>
    match s.pass with
    | some (.reloaded who) => { s with conns := s.conns.mapValues fun key c => c.reconcile (s.keys key) }.leave who
    | _ => s
  | .register key =>
    if (s.keys key).any (·.suspended) then s
    else { s with conns := s.conns.insert key ⟨(s.keys key).map (·.account), false⟩ }
  | .unregister key => { s with conns := s.conns.erase key }

/-- No reload is under way or due. -/
def Quiet (s : Server) : Prop := s.busy = false ∧ s.now.version = s.version

/-- Every live connection is closing, or its binding is the one it was let in under. -/
def InLine (s : Server) : Prop :=
  ∀ key c, s.conns.lookup key = some c →
    c.acctClosing = true ∨
    (c.acctSeen = (s.keys key).map (·.account) ∧ ∀ b, s.keys key = some b → b.suspended = false)

def Serves (s : Server) (rows : Snapshot) (who : Caller) : Prop :=
  (who = .watcher → s.busy = true ∧ s.version ≤ rows.version) ∧ ∀ since, who = .call since → since ≤ rows.seq

/-- The rows are as new as every version acted on and every call that has returned. -/
def Fresh (s : Server) (rows : Snapshot) : Prop :=
  (s.busy = false → s.version ≤ rows.version) ∧ ∀ r ∈ s.returned, r ≤ rows.seq

/-- The cache holds the bindings of `cached`. -/
structure Sound (cached : Snapshot) (s : Server) : Prop where
  known : cached ∈ s.now :: s.past
  keys : s.keys = cached.db.loadBindings
  newest : ∀ x ∈ s.now :: s.past, x.seq ≤ s.now.seq ∧ x.version ≤ s.now.version
  version : s.version ≤ s.now.version
  calls : ∀ r, r ∈ s.calls ∨ r ∈ s.returned → r ≤ s.now.seq
  fresh : s.failed = false → s.Fresh cached
  read : ∀ who rows, s.pass = some (.read who rows) →
    rows ∈ s.now :: s.past ∧ s.Serves rows who ∧ (s.overtaken = false → s.Fresh rows)
  reloaded : ∀ who, s.pass = some (.reloaded who) → s.Serves cached who
  inLine : (∀ who, s.pass ≠ some (.reloaded who)) → s.InLine

theorem reconcile_inLine (binding : Option Binding) (c : Conn) : (c.reconcile binding).acctClosing = true ∨
    ((c.reconcile binding).acctSeen = binding.map (·.account) ∧ ∀ b, binding = some b → b.suspended = false) := by
  unfold Conn.reconcile
  cases binding <;> grind

variable {cached : Snapshot} {s : Server}

theorem commit_sound {now : Snapshot} (h : Sound cached s) (seq : s.now.seq ≤ now.seq)
    (version : s.now.version ≤ now.version) : Sound cached (s.commit now) := by
  obtain ⟨known, keys, newest, versioned, calls, fresh, read, reloaded, inLine⟩ := h
  refine ⟨.tail _ known, keys, by grind [commit], versioned.trans version, fun r mem => (calls r mem).trans seq,
    fresh, fun who rows at_ => ?_, reloaded, inLine⟩
  exact ⟨.tail _ (read who rows at_).1, (read who rows at_).2⟩

theorem foreign_le (snap : Snapshot) (o : Op) :
    snap.seq ≤ (snap.foreign o).seq ∧ snap.version ≤ (snap.foreign o).version := by
  unfold Snapshot.foreign
  split <;> simp

theorem leave_sound {who : Caller} (h : Sound cached s) (served : s.Serves cached who ∨ s.failed = true)
    (due : s.Serves s.now who) (inLine : s.InLine) : Sound cached (s.leave who) := by
  obtain ⟨known, keys, newest, versioned, calls, fresh, read, reloaded, -⟩ := h
  cases who with
  | watcher =>
    exact ⟨known, keys, newest, versioned, calls, by grind [Fresh, leave, Serves], (by intros; contradiction),
      (by intros; contradiction), fun _ => inLine⟩
  | call since =>
    exact ⟨known, keys, newest, versioned, by grind [leave, Serves], by grind [Fresh, leave, Serves],
      (by intros; contradiction), (by intros; contradiction), fun _ => inLine⟩

/-- The invariant over one event, with the rows that are cached after it. -/
theorem step_sound (h : Sound cached s) (e : ServerEvent) : ∃ cached, Sound cached (s.step e) := by
  cases e with
  | call c late =>
    simp only [step]
    split
    next db _ _ =>
      have moved : Sound cached (s.commit { s.now with db := db, seq := s.now.seq + 1 }) :=
        commit_sound h (Nat.le_succ _) le_rfl
      have calls := moved.calls
      split
      · refine ⟨cached, { moved with calls := by grind [commit], fresh := (by simp), read := fun who rows at_ => ?_ }⟩
        obtain ⟨member, serves, -⟩ := moved.read who rows at_
        exact ⟨member, serves, (by simp)⟩
      · exact ⟨cached, { moved with calls := by grind [commit] }⟩
    · split
      · exact ⟨cached, h⟩
      · have calls := h.calls
        exact ⟨cached, { h with calls := by grind }⟩
  | admin o => exact ⟨cached, commit_sound h (foreign_le s.now o).1 (foreign_le s.now o).2⟩
  | tick readable =>
    simp only [step]
    split
    · obtain ⟨known, keys, newest, versioned, calls, fresh, read, reloaded, inLine⟩ := h
      refine ⟨cached, known, keys, newest, le_rfl, calls, ?_, ?_, ?_, inLine⟩ <;> grind [Fresh, Serves]
    · exact ⟨cached, h⟩
  | reload call ok =>
    simp only [step]
    split
    next who idle found =>
      have due : s.Serves s.now who := by
        have := h.version
        have := h.calls
        cases call <;> grind [caller, Serves]
      have calls : ∀ r, r ∈ call.elim s.calls s.calls.eraseIdx ∨ r ∈ s.returned → r ≤ s.now.seq := by
        have := h.calls
        cases call <;> grind [List.mem_of_mem_eraseIdx]
      have inLine := h.inLine (by simp [idle])
      split
      · refine ⟨cached, h.known, h.keys, h.newest, h.version, calls, h.fresh, fun _ _ at_ => ?_, (by simp),
          fun _ => inLine⟩
        cases at_
        exact ⟨.head _, due, fun _ => ⟨fun _ => h.version, fun r mem => h.calls r (.inr mem)⟩⟩
      · have idle_ : Sound cached { s with calls := call.elim s.calls s.calls.eraseIdx, failed := true } :=
          ⟨h.known, h.keys, h.newest, h.version, calls, (by simp), by grind, by grind, fun _ => inLine⟩
        exact ⟨cached, leave_sound idle_ (.inr rfl) due inLine⟩
    · exact ⟨cached, h⟩
  | install =>
    simp only [step]
    split
    next who rows at_ =>
      obtain ⟨member, serves, fresh⟩ := h.read who rows at_
      refine ⟨rows, member, rfl, h.newest, h.version, h.calls, fresh, (by simp), fun who' at_ => ?_,
        fun other => absurd rfl (other who)⟩
      cases at_
      exact serves
    · exact ⟨cached, h⟩
  | reconcile =>
    simp only [step]
    split
    next who at_ =>
      have serves := h.reloaded who at_
      have inLine : InLine { s with conns := s.conns.mapValues fun key c => c.reconcile (s.keys key) } := by
        intro key c found
        rw [Dict.lookup_mapValues, Option.map_eq_some_iff] at found
        obtain ⟨c, _, rfl⟩ := found
        exact reconcile_inLine (s.keys key) c
      have due : s.Serves s.now who := by grind [Serves, h.newest cached h.known]
      exact ⟨cached, leave_sound { h with inLine := fun _ => inLine } (.inl serves) due inLine⟩
    · exact ⟨cached, h⟩
  | register key =>
    simp only [step]
    split
    · exact ⟨cached, h⟩
    · refine ⟨cached, { h with inLine := fun idle key' c at_ => ?_ }⟩
      have inLine := h.inLine
      grind [AList.lookup_insert, AList.lookup_insert_ne, InLine]
  | unregister key =>
    exact ⟨cached, { h with inLine := fun idle key' c at_ => h.inLine idle key' c (Dict.lookup_of_erase at_).2 }⟩

theorem newAccounts_sound (db : Database) (meanwhile : List Op) :
    Sound (newAccounts db meanwhile).now (newAccounts db meanwhile) where
  known := .head _
  keys := rfl
  newest := by simp [newAccounts]
  version := Nat.zero_le _
  calls := by simp [newAccounts]
  fresh _ := ⟨fun _ => Nat.zero_le _, (by intros; contradiction)⟩
  read := by intros; contradiction
  reloaded := by intros; contradiction
  inLine _ := by rintro _ _ ⟨⟩

/-- When the watcher finds nothing to do, the last reload did not fail and no call has returned without one since,
the cache is as new as the version and as every call that has returned, and the connections are in line with it
outside of a pass. -/
theorem quiet_tick_cache_fresh {db : Database} {meanwhile : List Op} {es : List ServerEvent} {s : Server}
    (ran : run step (newAccounts db meanwhile) es = s) (quiet : s.Quiet) (reloaded : s.failed = false) :
    (∃ rows ∈ s.now :: s.past, s.keys = rows.db.loadBindings ∧ s.now.version ≤ rows.version ∧
        ∀ since ∈ s.returned, since ≤ rows.seq) ∧
      ((∀ who, s.pass ≠ some (.reloaded who)) → s.InLine) := by
  obtain ⟨cached, sound⟩ : ∃ cached, Sound cached s :=
    ran ▸ run_invariant (motive := fun s => ∃ cached, Sound cached s) (fun _ e h => step_sound h.choose_spec e)
      ⟨_, newAccounts_sound db meanwhile⟩ es
  obtain ⟨idle, same⟩ := quiet
  obtain ⟨version, returned⟩ := sound.fresh reloaded
  exact ⟨⟨cached, sound.known, sound.keys, same ▸ version idle, returned⟩, sound.inLine⟩

/-- The key of a live connection is unbound by `relay admin`, and the reload after it fails. -/
def failedReload : List ServerEvent :=
  [.register "laptop-key", .admin (.unbindKey "laptop-key"), .tick true, .reload none false]

/-- The key is unbound by the relay, whose pass has not come to the connections. -/
def midPass : List ServerEvent :=
  [.register "laptop-key", .call (.unbindKey "laptop-key") false, .reload (some 0) true, .install]

/-- The owner of the key logs out, and the journal refuses the record. -/
def unjournaled : List ServerEvent := [.register "laptop-key", .call (.unbindSelf "laptop-key") true]

theorem failed_reload_unnoticed : ((run step (newAccounts oneBound []) failedReload).Quiet ∧
      (run step (newAccounts oneBound []) failedReload).conns.lookup "laptop-key" = some ⟨some "acc_1", false⟩ ∧
      ∀ rows ∈ (run step (newAccounts oneBound []) failedReload).now ::
        (run step (newAccounts oneBound []) failedReload).past,
        (run step (newAccounts oneBound []) failedReload).now.version ≤ rows.version →
        rows.db.loadBindings "laptop-key" ≠ (run step (newAccounts oneBound []) failedReload).keys "laptop-key") ∧
    (run step (newAccounts oneBound []) midPass).Quiet ∧
      (run step (newAccounts oneBound []) midPass).conns.lookup "laptop-key" = some ⟨some "acc_1", false⟩ ∧
      (run step (newAccounts oneBound []) midPass).keys "laptop-key" = none ∧
    (run step (newAccounts oneBound []) unjournaled).Quiet ∧
      (run step (newAccounts oneBound []) unjournaled).conns.lookup "laptop-key" = some ⟨some "acc_1", false⟩ ∧
      (run step (newAccounts oneBound []) unjournaled).now.db.loadBindings "laptop-key" = none := by
  refine ⟨⟨⟨rfl, rfl⟩, by decide, by decide⟩, ⟨rfl, rfl⟩, by decide, by decide, ⟨rfl, rfl⟩, by decide, by decide⟩

def reloadedInTime : List ServerEvent :=
  [.register "laptop-key", .admin (.unbindKey "laptop-key"), .tick true, .reload none true, .install, .reconcile]

theorem reloaded_in_time_closing :
    (run step (newAccounts oneBound []) reloadedInTime).conns.lookup "laptop-key" = some ⟨some "acc_1", true⟩ ∧
      (run step (newAccounts oneBound []) reloadedInTime).InLine :=
  ⟨by decide, (quiet_tick_cache_fresh rfl ⟨rfl, rfl⟩ rfl).2 (by rintro _ ⟨⟩)⟩

end Server

end Agentnet.Relay.Accounts
