import Agentnet.Basic
import Agentnet.Lib.Dict

/-! The account tables of the relay, the operations on them, and the security journal. -/

namespace Agentnet.Relay.Accounts

open Lib

abbrev AccountID := String
abbrev GroupID := String

inductive AccountState where
  | active | suspended
  deriving DecidableEq

def AccountState.of (suspend : Bool) : AccountState := if suspend then .suspended else .active

inductive GroupState where
  | active | suspended | closed
  deriving DecidableEq

def GroupState.switch (state : GroupState) (suspend : Bool) : GroupState :=
  match suspend, state with
  | true, .active => .suspended
  | false, .suspended => .active
  | _, state => state

structure Account where
  state : AccountState
  group : Option GroupID
  deriving DecidableEq

/-- The tables of accounts. -/
structure Database where
  accounts : Dict AccountID Account := ∅
  groups : Dict GroupID GroupState := ∅
  /-- The table `account_keys`. -/
  keys : Dict PeerKey AccountID := ∅

inductive StoreError where
  | noAccount | accountSuspended | alreadyBound | accountKeysFull | accountExists
  deriving DecidableEq

def maxKeysPerAccount : Nat := 4

/-- What the journal keeps of a key. -/
def short (key : PeerKey) : List Char := key.toList.take 8

inductive Change where
  | unbind (account : AccountID) (key : List Char)
  | accountDelete (account : AccountID)
  | account (id : AccountID) (suspend : Bool)
  | group (id : GroupID) (suspend : Bool)
  deriving DecidableEq

namespace Database

def execAccountState (db : Database) (acc : AccountID) (suspend : Bool) : Except StoreError Database :=
  if (db.accounts.lookup acc).isNone then .error .noAccount
  else .ok { db with
    accounts := db.accounts.mapValues fun id a => if id = acc then { a with state := .of suspend } else a }

def execGroupState (db : Database) (g : GroupID) (suspend : Bool) : Except StoreError Database :=
  if (db.groups.lookup g).isNone then .error .noAccount
  else .ok { db with groups := db.groups.mapValues fun id state => if id = g then state.switch suspend else state }

def closeGroup (db : Database) (g : GroupID) : Database :=
  if db.accounts.count (fun _ a => decide (a.group = some g)) = 0 then
    { db with groups := db.groups.mapValues fun id state => if id = g then .closed else state }
  else db

def execDeleteAccount (db : Database) (acc : AccountID) : Except StoreError Database :=
  match db.accounts.lookup acc with
  | none => .error .noAccount
  | some a =>
    let db := { db with keys := db.keys.keep fun _ owner => decide (owner ≠ acc), accounts := db.accounts.erase acc }
    match a.group with
    | none => .ok db
    | some g => .ok (db.closeGroup g)

def groupSuspended (db : Database) (a : Account) : Bool := (a.group.bind db.groups.lookup) == some .suspended

/-- `confirmBind`, for the key of a pending bind. -/
def confirmBind (db : Database) (key : PeerKey) (acc : AccountID) : Except StoreError Database :=
  match db.accounts.lookup acc with
  | none => .error .noAccount
  | some a =>
    if a.state = .suspended ∨ db.groupSuspended a then .error .accountSuspended
    else if (db.keys.lookup key).isSome then .error .alreadyBound
    else if maxKeysPerAccount ≤ db.keys.count (fun _ owner => decide (owner = acc)) then .error .accountKeysFull
    else .ok { db with keys := db.keys.insert key acc }

end Database

/-- The changes of the account tables. -/
inductive Op where
  /-- A first login; the id is drawn at random. -/
  | ensureAccount (id : AccountID)
  | confirmBind (key : PeerKey) (account : AccountID)
  | unbindKey (key : PeerKey)
  | setAccountState (account : AccountID) (suspend : Bool)
  | setGroupState (group : GroupID) (suspend : Bool)
  | deleteAccount (account : AccountID)

namespace Database

/-- An operation of the store: what it commits, and what it then appends to the journal. -/
def commit (db : Database) : Op → Except StoreError (Database × Option Change)
  | .ensureAccount id =>
    if (db.accounts.lookup id).isSome then .error .accountExists
    else .ok ({ db with accounts := db.accounts.insert id ⟨.active, none⟩ }, none)
  | .confirmBind key acc => (db.confirmBind key acc).map (·, none)
  | .unbindKey key =>
    match db.keys.lookup key with
    | none => .error .noAccount
    | some acc => .ok ({ db with keys := db.keys.erase key }, some (.unbind acc (short key)))
  | .setAccountState acc suspend => (db.execAccountState acc suspend).map (·, some (.account acc suspend))
  | .setGroupState g suspend => (db.execGroupState g suspend).map (·, some (.group g suspend))
  | .deleteAccount acc => (db.execDeleteAccount acc).map (·, some (.accountDelete acc))

/-- A target that no longer exists is not an error of the replay. -/
def ignoreGone (db : Database) : Except StoreError Database → Database
  | .ok db' => db'
  | .error _ => db

/-- One journal entry, on a restored database. -/
def replay (db : Database) : Change → Database
  | .unbind acc key =>
    { db with keys := db.keys.keep fun k owner => decide (¬(owner = acc ∧ k.toList.take key.length = key)) }
  | .accountDelete acc => db.ignoreGone (db.execDeleteAccount acc)
  | .account acc suspend => db.ignoreGone (db.execAccountState acc suspend)
  | .group g suspend => db.ignoreGone (db.execGroupState g suspend)

end Database

def oneBound : Database where
  accounts := (∅ : Dict AccountID Account).insert "acc_1" ⟨.active, none⟩
  keys := (∅ : Dict PeerKey AccountID).insert "laptop-key" "acc_1"

end Agentnet.Relay.Accounts
