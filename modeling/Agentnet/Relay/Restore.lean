import Agentnet.Relay.Accounts
import Agentnet.Lib.Except
import Agentnet.Lib.Run

/-! A backup of a running relay, the loss of the database, and the restore that replays the
security journal from the modification time of the backup file on. -/

namespace Agentnet.Relay.Accounts

open Lib

structure JournalEntry where
  time : Time
  change : Change

/-- An online backup: nothing yet, the copy as `VACUUM INTO` reads it, the file with its modification time. -/
inductive Backup where
  | none
  | reading (copy : Database)
  | written (copy : Database) (modTime : Time)

structure Host where
  db : Database
  /-- Changes that are committed and not yet appended. -/
  owed : List Change := []
  journal : List JournalEntry := []
  backup : Backup := .none

inductive Act where
  | op (o : Op)
  | append (i : Nat)
  | snapshot
  | written

/-- An act and the time of it. -/
structure Event where
  now : Time
  act : Act

namespace Host

/-- One event: commits, their journal entries and the backup. -/
def step (s : Host) (e : Event) : Host :=
  match e.act with
  | .op o =>
    match s.db.commit o with
    | .error _ => s
    | .ok (db, change) => { s with db := db, owed := s.owed ++ change.toList }
  | .append i =>
    match s.owed[i]? with
    | none => s
    | some c => { s with owed := s.owed.eraseIdx i, journal := s.journal ++ [⟨e.now, c⟩] }
  | .snapshot =>
    match s.backup with
    | .none => { s with backup := .reading s.db }
    | _ => s
  | .written =>
    match s.backup with
    | .reading copy => { s with backup := .written copy e.now }
    | _ => s

/-- `ReplayJournal`: the entries that are not before `since`. -/
def replayJournal (db : Database) (journal : List JournalEntry) (since : Time) : Database :=
  ((journal.filter fun e => decide (since ≤ e.time)).map JournalEntry.change).foldl Database.replay db

/-- `runRestore` with `--replay-journal`. -/
def restore (s : Host) : Option Database :=
  match s.backup with
  | .written copy modTime => some (replayJournal copy s.journal modTime)
  | _ => none

/-- Operations are journaled one at a time, none is under way while the backup is made, and no
older entry bears the modification time of the file. -/
def Apart (s : Host) (e : Event) : Prop :=
  match e.act, s.backup with
  | .op _, .reading _ | .append _, .reading _ => False
  | .op _, _ | .snapshot, _ => s.owed = []
  | .written, _ => ∀ entry ∈ s.journal, entry.time < e.now
  | .append _, _ => True

instance (s : Host) (e : Event) : Decidable (Apart s e) := by
  unfold Apart
  split <;> infer_instance

end Host

def Database.Rooted (db : Database) : Prop := ∀ k acc, db.keys.lookup k = some acc → db.accounts.lookup acc ≠ none

/-- What the restored tables may not have against the lost ones. -/
structure RevivesNothing (lost restored : Database) : Prop where
  bound : ∀ k acc, restored.keys.lookup k = some acc → lost.keys.lookup k = some acc
  deleted : ∀ acc, lost.accounts.lookup acc = none → restored.accounts.lookup acc = none
  account : ∀ acc a, lost.accounts.lookup acc = some a → a.state = .suspended →
    ∀ b, restored.accounts.lookup acc = some b → b.state = .suspended
  group : ∀ g, lost.groups.lookup g = some .suspended → restored.groups.lookup g ≠ some .active

structure Behind (lost restored : Database) : Prop extends RevivesNothing lost restored where
  lostRooted : lost.Rooted
  rooted : restored.Rooted

section Lookups

variable (db : Database)

theorem replay_account (acc : AccountID) (suspend : Bool) :
    (∀ x, (db.replay (.account acc suspend)).accounts.lookup x =
      (db.accounts.lookup x).map fun a => if x = acc then { a with state := .of suspend } else a) ∧
      (db.replay (.account acc suspend)).keys = db.keys ∧ (db.replay (.account acc suspend)).groups = db.groups := by
  simp only [Database.replay, Database.execAccountState]
  split
  · refine ⟨fun x => ?_, rfl, rfl⟩
    cases found : db.accounts.lookup x <;> grind [Database.ignoreGone]
  · exact ⟨fun x => Dict.lookup_mapValues, rfl, rfl⟩

theorem replay_group (g : GroupID) (suspend : Bool) : (∀ x, (db.replay (.group g suspend)).groups.lookup x =
      (db.groups.lookup x).map fun state => if x = g then state.switch suspend else state) ∧
      (db.replay (.group g suspend)).keys = db.keys ∧ (db.replay (.group g suspend)).accounts = db.accounts := by
  simp only [Database.replay, Database.execGroupState]
  split
  · refine ⟨fun x => ?_, rfl, rfl⟩
    cases found : db.groups.lookup x <;> grind [Database.ignoreGone]
  · exact ⟨fun x => Dict.lookup_mapValues, rfl, rfl⟩

theorem groups_closeGroup (g x : GroupID) :
    (db.closeGroup g).groups.lookup x = db.groups.lookup x ∨ (db.closeGroup g).groups.lookup x = some .closed := by
  unfold Database.closeGroup
  split
  · rw [Dict.lookup_mapValues]
    cases db.groups.lookup x <;> grind
  · exact .inl rfl

theorem replay_delete {db : Database} (rooted : db.Rooted) (acc : AccountID) :
    (∀ k, (db.replay (.accountDelete acc)).keys.lookup k = (db.keys.lookup k).filter (fun owner =>
      decide (owner ≠ acc))) ∧
      (∀ x, (db.replay (.accountDelete acc)).accounts.lookup x = if x = acc then none else db.accounts.lookup x) ∧
      ∀ g, (db.replay (.accountDelete acc)).groups.lookup g = db.groups.lookup g ∨
        (db.replay (.accountDelete acc)).groups.lookup g = some .closed := by
  have erased : ∀ x, (db.accounts.erase acc).lookup x = if x = acc then none else db.accounts.lookup x := by
    grind [AList.lookup_erase, AList.lookup_erase_ne]
  have kept : ∀ k, (db.keys.keep fun _ owner => decide (owner ≠ acc)).lookup k = (db.keys.lookup k).filter
      (fun owner => decide (owner ≠ acc)) :=
    fun _ => Dict.lookup_keep
  simp only [Database.replay, Database.execDeleteAccount]
  cases found : db.accounts.lookup acc with
  | none =>
    refine ⟨fun k => ?_, ?_, fun _ => .inl rfl⟩
    · cases bound : db.keys.lookup k <;> grind [Database.ignoreGone, Database.Rooted]
    · grind [Database.ignoreGone]
  | some a =>
    dsimp only
    cases a.group with
    | none => exact ⟨kept, erased, fun _ => .inl rfl⟩
    | some g => refine ⟨?_, ?_, fun x => groups_closeGroup _ g x⟩ <;> grind [Database.ignoreGone, Database.closeGroup]

end Lookups

namespace Behind

variable {l r l' : Database}

attribute [local grind cases] Behind RevivesNothing

theorem refl {db : Database} (rooted : db.Rooted) : Behind db db := by
  refine ⟨⟨?_, ?_, ?_, ?_⟩, rooted, rooted⟩ <;> grind

theorem delete (h : Behind l r) (acc : AccountID) :
    Behind (l.replay (.accountDelete acc)) (r.replay (.accountDelete acc)) := by
  obtain ⟨keys, accounts, groups⟩ := replay_delete h.lostRooted acc
  obtain ⟨keys', accounts', groups'⟩ := replay_delete h.rooted acc
  refine ⟨⟨?_, ?_, ?_, ?_⟩, ?_, ?_⟩ <;> grind [Database.Rooted, Option.map_eq_some_iff, Option.filter_eq_some_iff]

theorem setAccount (h : Behind l r) (acc : AccountID) (suspend : Bool) :
    Behind (l.replay (.account acc suspend)) (r.replay (.account acc suspend)) := by
  obtain ⟨accounts, keys, groups⟩ := replay_account l acc suspend
  obtain ⟨accounts', keys', groups'⟩ := replay_account r acc suspend
  refine ⟨⟨?_, ?_, ?_, ?_⟩, ?_, ?_⟩ <;> grind [Database.Rooted, Option.map_eq_some_iff, Option.map_eq_none_iff]

theorem setGroup (h : Behind l r) (g : GroupID) (suspend : Bool) :
    Behind (l.replay (.group g suspend)) (r.replay (.group g suspend)) := by
  obtain ⟨groups, keys, accounts⟩ := replay_group l g suspend
  obtain ⟨groups', keys', accounts'⟩ := replay_group r g suspend
  refine ⟨⟨?_, ?_, ?_, ?_⟩, ?_, ?_⟩ <;> grind [Database.Rooted, GroupState.switch, Option.map_eq_some_iff]

theorem unbind (h : Behind l r) {key : PeerKey} {acc : AccountID} (found : l.keys.lookup key = some acc) :
    Behind { l with keys := l.keys.erase key } (r.replay (.unbind acc (short key))) := by
  have own : key.toList.take (short key).length = short key := by simp [short]
  refine ⟨⟨?_, h.deleted, h.account, h.group⟩, ?_, ?_⟩ <;>
    grind [Database.Rooted, Database.replay, Dict.lookup_keep, AList.lookup_erase, AList.lookup_erase_ne,
      Option.filter_eq_some_iff]

theorem bind (h : Behind l r) {key : PeerKey} {acc : AccountID} (done : l.confirmBind key acc = .ok l') :
    Behind l' r := by
  unfold Database.confirmBind at done
  refine ⟨⟨?_, ?_, ?_, ?_⟩, ?_, h.rooted⟩ <;> grind [Database.Rooted, AList.lookup_insert, AList.lookup_insert_ne]

theorem create (h : Behind l r) (id : AccountID) :
    Behind { l with accounts := l.accounts.insert id ⟨.active, none⟩ } r := by
  refine ⟨⟨h.bound, ?_, ?_, h.group⟩, ?_, h.rooted⟩ <;> grind [Database.Rooted, AList.lookup_insert,
    AList.lookup_insert_ne]

/-- After a commit and its replay the restored database is still behind the lost one. -/
theorem commit (h : Behind l r) {o : Op} {change : Option Change} (done : l.commit o = .ok (l', change)) :
    Behind l' (change.toList.foldl Database.replay r) := by
  cases o with
  | ensureAccount id =>
    unfold Database.commit at done
    dsimp only at done
    split at done
    · cases done
    cases done
    exact h.create id
  | unbindKey key =>
    unfold Database.commit at done
    dsimp only at done
    split at done
    · cases done
    next found =>
    cases done
    exact h.unbind found
  | confirmBind key acc =>
    obtain ⟨_, committed, eq⟩ := map_eq_ok.mp done
    cases eq
    exact h.bind committed
  -- a live operation that is journaled does what its replay does
  | setAccountState acc suspend =>
    obtain ⟨_, committed, eq⟩ := map_eq_ok.mp done
    cases eq
    have same : l.replay (.account acc suspend) = l' := by rw [Database.replay, committed]; rfl
    exact same ▸ h.setAccount acc suspend
  | setGroupState g suspend =>
    obtain ⟨_, committed, eq⟩ := map_eq_ok.mp done
    cases eq
    have same : l.replay (.group g suspend) = l' := by rw [Database.replay, committed]; rfl
    exact same ▸ h.setGroup g suspend
  | deleteAccount acc =>
    obtain ⟨_, committed, eq⟩ := map_eq_ok.mp done
    cases eq
    have same : l.replay (.accountDelete acc) = l' := by rw [Database.replay, committed]; rfl
    exact same ▸ h.delete acc

end Behind

/-! ## Runs -/

namespace Host

/-- The changes that the restore is to replay, once all are appended. -/
def replays (s : Host) (since : Time) : List Change :=
  (s.journal.filter fun e => decide (since ≤ e.time)).map JournalEntry.change ++ s.owed

structure Sound (t : Time) (s : Host) : Prop where
  rooted : s.db.Rooted
  few : s.owed.length ≤ 1
  reading : ∀ copy, s.backup = .reading copy → copy = s.db ∧ s.owed = []
  written : ∀ copy modTime, s.backup = .written copy modTime →
    modTime ≤ t ∧ Behind s.db ((s.replays modTime).foldl Database.replay copy)

theorem step_sound {t : Time} {s : Host} {e : Event} (h : Sound t s) (later : t ≤ e.now) (apart : Apart s e) :
    Sound e.now (s.step e) := by
  have older : Sound e.now s :=
    ⟨h.rooted, h.few, h.reading, fun copy m at_ => ⟨(h.written copy m at_).1.trans later, (h.written copy m at_).2⟩⟩
  obtain ⟨now, act⟩ := e
  cases act with
  | op o =>
    simp only [step]
    split
    · exact older
    next db change done =>
    have idle : s.owed = [] ∧ ∀ copy, s.backup ≠ .reading copy := by
      unfold Apart at apart
      cases at_ : s.backup <;> simp_all
    refine ⟨((Behind.refl h.rooted).commit done).lostRooted, ?_, fun copy at_ => absurd at_ (idle.2 copy),
      fun copy m at_ => ?_⟩
    · rw [idle.1]
      cases change <;> simp
    · obtain ⟨low, behind⟩ := older.written copy m at_
      refine ⟨low, ?_⟩
      have parts : replays { s with db := db, owed := s.owed ++ change.toList } m = s.replays m ++ change.toList := by
        rw [replays, replays, List.append_assoc]
      rw [parts, List.foldl_append]
      exact behind.commit done
  | append i =>
    simp only [step]
    split
    · exact older
    next c found =>
    obtain ⟨d, only⟩ : ∃ d, s.owed = [d] := by
      rw [← List.length_eq_one_iff]
      have := (List.getElem?_eq_some_iff.mp found).1
      have := h.few
      omega
    obtain ⟨rfl, rfl⟩ : i = 0 ∧ d = c := by
      rw [only] at found
      cases i with
      | zero => exact ⟨rfl, Option.some.inj found⟩
      | succ => cases found
    refine ⟨h.rooted, by rw [only]; exact Nat.zero_le _, fun copy at_ => ?_, fun copy m at_ => ?_⟩
    · have := (h.reading copy at_).2
      rw [only] at this
      cases this
    · obtain ⟨low, behind⟩ := older.written copy m at_
      refine ⟨low, ?_⟩
      have parts : replays { s with owed := s.owed.eraseIdx 0, journal := s.journal ++ [⟨now, d⟩] } m =
          s.replays m := by
        have kept : m ≤ now := low
        simp only [replays, only, List.eraseIdx_zero, List.tail_cons, List.append_nil,
          List.filter_append, List.map_append, List.filter_cons, decide_eq_true kept, if_true, List.filter_nil,
          List.map_cons, List.map_nil]
      rwa [parts]
  | snapshot =>
    have idle : s.owed = [] := by
      unfold Apart at apart
      cases at_ : s.backup <;> simp_all
    simp only [step]
    split
    · refine ⟨h.rooted, h.few, fun copy at_ => ?_, fun _ _ at_ => (by cases at_)⟩
      cases at_
      exact ⟨rfl, idle⟩
    · exact older
  | written =>
    simp only [step]
    split
    · next copy at_ =>
      obtain ⟨rfl, none⟩ := h.reading copy at_
      refine ⟨h.rooted, h.few, fun _ at_ => (by cases at_), fun copy m at_ => ?_⟩
      cases at_
      refine ⟨le_rfl, ?_⟩
      have nothing : replays { s with backup := .written s.db now } now = [] := by
        have old : ∀ entry ∈ s.journal, entry.time < now := by
          unfold Apart at apart
          exact apart
        rw [replays, none, List.append_nil, List.map_eq_nil_iff, List.filter_eq_nil_iff]
        intro entry mem
        simpa using old entry mem
      rw [nothing]
      exact .refl h.rooted
    · exact older

/-- A restore with the journal revives no binding, account or suspended state that was revoked,
if no operation overlaps the backup or another operation. -/
theorem restore_revives_nothing {db : Database} (rooted : db.Rooted) {t : Time} {es : List Event}
    (clocked : Clocked Event.now t es) (follows : Follows step Apart { db := db } es)
    (complete : (run step { db := db } es).owed = []) {restored : Database}
    (done : (run step { db := db } es).restore = some restored) :
    RevivesNothing (run step { db := db } es).db restored := by
  have sound : Sound (clock Event.now t es) (run step { db := db } es) :=
    run_clocked_of (motive := Sound) (fun _ _ _ h later apart => step_sound h later apart)
      (show Sound t { db := db } from ⟨rooted, Nat.zero_le _, (by simp), (by simp)⟩) clocked follows
  unfold restore at done
  split at done
  · next copy m at_ =>
    cases done
    have behind := (sound.written copy m at_).2
    rw [replays, complete, List.append_nil] at behind
    exact behind.toRevivesNothing
  · cases done

theorem oneBound_rooted : oneBound.Rooted := by
  intro k acc bound
  obtain ⟨_, rfl⟩ | ⟨_, bound⟩ := Dict.lookup_insert_cases bound
  · decide
  · cases bound

/-- The key is unbound, and the unbind journaled, after the copy was read and before the file is written. -/
def unboundMeanwhile : List Event :=
  [⟨1, .snapshot⟩, ⟨2, .op (.unbindKey "laptop-key")⟩, ⟨3, .append 0⟩, ⟨4, .written⟩]

theorem unbound_key_revived :
    Clocked Event.now 0 unboundMeanwhile ∧ (run step { db := oneBound } unboundMeanwhile).owed = [] ∧
    (run step { db := oneBound } unboundMeanwhile).db.keys.lookup "laptop-key" = none ∧
    (run step { db := oneBound } unboundMeanwhile).restore.bind (·.keys.lookup "laptop-key") = some "acc_1" := by
  decide

def unboundLater : List Event := [⟨1, .snapshot⟩, ⟨2, .written⟩, ⟨3, .op (.unbindKey "laptop-key")⟩, ⟨4, .append 0⟩]

theorem unbound_key_stays :
    (run step { db := oneBound } unboundLater).restore.bind (·.keys.lookup "laptop-key") = none ∧
    ∀ restored, (run step { db := oneBound } unboundLater).restore = some restored →
      RevivesNothing (run step { db := oneBound } unboundLater).db restored :=
  ⟨by decide, fun _ done => restore_revives_nothing oneBound_rooted
    (show Clocked Event.now 0 unboundLater by decide) (by decide) (by decide) done⟩

end Host

end Agentnet.Relay.Accounts
