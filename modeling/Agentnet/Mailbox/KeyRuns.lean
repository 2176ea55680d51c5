import Agentnet.Mailbox.Sweep

/-! Mailbox keys over whole runs: under any clock there is one current key, which
no sweep deletes; under a steady clock a key lives for 21 days. -/

namespace Agentnet.Mailbox

open Agentnet.Lib

/-! ## Tables and live rows -/

def OwnKey.current (k : OwnKey) : Bool := k.live && k.retired.isNone

theorem live_perm (s : Keys) : s.live.Perm ((s.table.filter OwnKey.live).map OwnKey.row) :=
  (List.perm_insertionSort OwnKey.before _).map OwnKey.row

variable {s t : Keys} {c : Call} {rows : List Row} {keyID : KeyID}

theorem mem_live {r : Row} : r ∈ s.live ↔ ∃ k ∈ s.table, k.live = true ∧ k.row = r := by
  rw [(live_perm s).mem_iff, List.mem_map]
  simp only [List.mem_filter, and_assoc]

theorem live_keyIDs (s : Keys) : s.liveIDs.Perm (s.live.map (·.keyID)) := by
  have ids := (live_perm s).map (·.keyID)
  rw [List.map_map] at ids
  exact ids.symm

theorem live_countP (s : Keys) : s.live.countP (fun r => !r.retired) = s.table.countP OwnKey.current := by
  rw [(live_perm s).countP_eq, List.countP_map, List.countP_filter]
  apply List.countP_congr
  intro k _
  simp [OwnKey.current, OwnKey.row, Bool.and_comm]

theorem parse_store_wire (w : WireTime) : parseStoreTime (storeTime (parseWireTime w)) = parseWireTime w := by
  unfold parseStoreTime storeTime parseWireTime WireTime Time at *
  omega

/-! ## Recording a key -/

def OwnKey.retire (now : Time) (k : OwnKey) : OwnKey :=
  if k.retired.isNone ∧ k.deleted.isNone then { k with retired := some (storeTime now) } else k

def OwnKey.new (now : Time) (keyID : KeyID) : OwnKey where
  keyID := keyID
  created := storeTime (parseWireTime (wireTime now))
  notAfter := storeTime (parseWireTime (signAnnouncement keyID now).notAfter)
  retired := none
  deleted := none
  announcement := signAnnouncement keyID now

theorem record_table (s : Keys) (now : Time) (keyID : KeyID) :
    (s.record now keyID).table = s.table.map (OwnKey.retire now) ++ [OwnKey.new now keyID] := rfl

theorem mem_record {s : Keys} {now : Time} {keyID : KeyID} {k : OwnKey} (member : k ∈ (s.record now keyID).table) :
    (∃ j ∈ s.table, k = j.retire now) ∨ k = OwnKey.new now keyID := by
  rw [record_table, List.mem_append, List.mem_singleton, List.mem_map] at member
  exact member.imp_left (Exists.imp fun _ => And.imp_right Eq.symm)

theorem retire_live (now : Time) (k : OwnKey) : (k.retire now).live = k.live := by
  unfold OwnKey.retire
  split <;> rfl

@[simp] theorem retire_keyID (now : Time) (k : OwnKey) : (k.retire now).keyID = k.keyID := by
  unfold OwnKey.retire
  split <;> rfl

theorem retire_times (now : Time) (k : OwnKey) :
    (k.retire now).created = k.created ∧ (k.retire now).notAfter = k.notAfter := by
  unfold OwnKey.retire
  split <;> exact ⟨rfl, rfl⟩

theorem retire_current (now : Time) (k : OwnKey) : (k.retire now).current = false := by
  unfold OwnKey.retire OwnKey.current OwnKey.live
  split
  · simp
  · rename_i other
    cases retired : k.retired with
    | some at_ => simp
    | none =>
      cases deleted : k.deleted with
      | some at_ => simp
      | none => exact absurd ⟨by rw [retired]; rfl, by rw [deleted]; rfl⟩ other

theorem record_liveIDs (s : Keys) (now : Time) (keyID : KeyID) :
    (s.record now keyID).liveIDs = s.liveIDs ++ [keyID] := by
  unfold Keys.liveIDs
  rw [record_table, List.filter_append, List.map_append, List.filter_map, List.map_map]
  have same : OwnKey.live ∘ OwnKey.retire now = OwnKey.live := by
    funext k
    exact retire_live now k
  have ids : (fun k : OwnKey => k.keyID) ∘ OwnKey.retire now = fun k => k.keyID := by
    funext k
    exact retire_keyID now k
  rw [same, ids]
  rfl

theorem newRow_times (now : Time) (keyID : KeyID) : (newRow now keyID).created = parseWireTime (wireTime now) ∧
      (newRow now keyID).notAfter = parseWireTime (wireTime now) + announcementLifetime ∧
      now - second < (newRow now keyID).created ∧ (newRow now keyID).created ≤ now := by
  have whole : parseWireTime (wireTime (parseWireTime (wireTime now) + announcementLifetime)) =
      parseWireTime (wireTime now) + announcementLifetime := by
    unfold parseWireTime wireTime announcementLifetime day hour minute second WireTime Time
    omega
  refine ⟨rfl, whole, ?_, ?_⟩
  · change now - second < parseWireTime (wireTime now)
    unfold parseWireTime wireTime second WireTime Time at *
    omega
  · change parseWireTime (wireTime now) ≤ now
    unfold parseWireTime wireTime WireTime Time at *
    omega

theorem new_row (now : Time) (keyID : KeyID) : (OwnKey.new now keyID).row = newRow now keyID := by
  unfold OwnKey.new OwnKey.row newRow
  simp only [parse_store_wire]
  rfl

/-! ## What a sweep is handed -/

/-- `rotate` sweeps the live rows under a young current key; a new key is recorded
when there is no current one, or it is due or unusable. -/
inductive SweepStart (s : Keys) (c : Call) : Keys → List Row → Prop where
  | kept (cur : Row) (found : currentOf s.live = some cur)
      (young : c.now < cur.created + rotateAfter) : SweepStart s c s s.live
  | created (keyID : KeyID) (fresh : keyID ∉ s.table.map (·.keyID))
      (due : ∀ cur, currentOf s.live = some cur → cur.created + rotateAfter ≤ c.now ∨ usable cur c = .ok false) :
      SweepStart s c (s.record c.now keyID) (retire s.live ++ [newRow c.now keyID])

theorem createLocked_start (h : createLocked s c s.live = some (t, rows)) (due : ∀ cur, currentOf s.live = some cur →
      cur.created + rotateAfter ≤ c.now ∨ usable cur c = .ok false) : SweepStart s c t rows := by
  unfold createLocked at h
  split at h
  · cases h
  · rename_i keyID _
    split at h
    · cases h
    · rename_i fresh
      cases h
      refine .created keyID ?_ due
      simpa using fresh

theorem rotateStart_start (h : rotateStart s c = some (t, rows)) : SweepStart s c t rows := by
  unfold rotateStart at h
  split at h
  · rename_i none
    exact createLocked_start h fun cur found => by rw [none] at found; cases found
  · rename_i cur found
    have only : ∀ {p : Row → Prop}, p cur → ∀ x, currentOf s.live = some x → p x := by
      intro p holds x same
      rw [found] at same
      cases same
      exact holds
    split at h
    · rename_i old
      exact createLocked_start h (only (.inl old))
    · rename_i young
      split at h
      · cases h
      · cases h
        exact .kept cur found (not_le.mp young)
      · rename_i lost
        exact createLocked_start h (only (.inr lost))

theorem announceStart_start (h : announceStart s c = some (t, rows)) : SweepStart s c t rows := by
  unfold announceStart at h
  split at h
  · rename_i none
    exact createLocked_start h fun cur found => by rw [none] at found; cases found
  · rename_i cur found
    split at h
    · cases h
    · cases h
    · rename_i lost
      apply createLocked_start h
      intro x same
      rw [found] at same
      cases same
      exact .inr lost

theorem sweep_start {e : KeysEvent} (h : e.sweep s = some (c, t, rows)) :
    SweepStart s c t rows ∧ (e = .rotate c ∨ e = .announcement c) := by
  cases e with
  | rotate c' =>
    obtain ⟨_, start, same⟩ := Option.map_eq_some_iff.mp h
    cases same
    exact ⟨rotateStart_start start, .inl rfl⟩
  | announcement c' =>
    obtain ⟨_, start, same⟩ := Option.map_eq_some_iff.mp h
    cases same
    exact ⟨announceStart_start start, .inr rfl⟩
  | mailboxKey id now load => cases h

theorem mailboxKey_table (s : Keys) (id : KeyID) (now : Time) (load : Loaded) :
    (mailboxKey s id now load).1.table = s.table ∧ (mailboxKey s id now load).1.secrets = s.secrets := by
  unfold mailboxKey
  split
  · exact ⟨rfl, rfl⟩
  · split
    · exact ⟨rfl, rfl⟩
    · split
      · exact ⟨rfl, rfl⟩
      · split <;> exact ⟨rfl, rfl⟩

/-- A step does nothing or ends in a sweep. -/
theorem step_cases (s : Keys) (e : KeysEvent) :
    ((s.step e).table = s.table ∧ (s.step e).secrets = s.secrets ∧ e.sweep s = none) ∨
      ∃ c t rows, e.sweep s = some (c, t, rows) ∧ s.step e = sweepLocked t c rows := by
  cases e with
  | mailboxKey id now load =>
    obtain ⟨table, secrets⟩ := mailboxKey_table s id now load
    exact .inl ⟨table, secrets, rfl⟩
  | rotate c =>
    cases h : KeysEvent.sweep s (.rotate c) with
    | none => exact .inl ⟨by simp only [Keys.step, h], by simp only [Keys.step, h], rfl⟩
    | some start => exact .inr ⟨start.1, start.2.1, start.2.2, rfl, by simp only [Keys.step, h]⟩
  | announcement c =>
    cases h : KeysEvent.sweep s (.announcement c) with
    | none => exact .inl ⟨by simp only [Keys.step, h], by simp only [Keys.step, h], rfl⟩
    | some start => exact .inr ⟨start.1, start.2.1, start.2.2, rfl, by simp only [Keys.step, h]⟩

theorem deleteKey_table (s : Keys) (keyID : KeyID) (now : Time) (d : Deletion) :
    (deleteKey s keyID now d).1.table = s.table ∨
      (deleteKey s keyID now d).1.table = s.table.map (OwnKey.markDeleted keyID now) := by
  cases d with
  | done => exact .inr rfl
  | keystoreFailed => exact .inl rfl
  | rowFailed => exact .inl rfl

/-! ## Any clock -/

/-- The invariant of the key table. -/
structure Keys.Sound (s : Keys) : Prop where
  nodup : (s.table.map (·.keyID)).Nodup
  single : s.table.countP OwnKey.current ≤ 1
  lifetime : ∀ k ∈ s.table, k.created < k.notAfter

theorem Sound.of_table (sound : s.Sound) (same : t.table = s.table) : t.Sound :=
  ⟨same ▸ sound.nodup, same ▸ sound.single, same ▸ sound.lifetime⟩

/-- So does a row that is marked deleted. -/
theorem Sound.mark (sound : s.Sound) {now : Time} (marked : t.table = s.table.map (OwnKey.markDeleted keyID now)) :
    t.Sound := by
  constructor
  · rw [marked, List.map_map]
    have ids : (fun k : OwnKey => k.keyID) ∘ OwnKey.markDeleted keyID now = fun k => k.keyID := by
      funext k
      exact markDeleted_keyID keyID now k
    rw [ids]
    exact sound.nodup
  · rw [marked, List.countP_map]
    refine le_trans (List.countP_mono_left ?_) sound.single
    intro k _ current
    simp only [Function.comp_apply, OwnKey.current, markDeleted_live, Bool.and_eq_true] at current
    have retired : (k.markDeleted keyID now).retired = k.retired := by
      unfold OwnKey.markDeleted
      split <;> rfl
    rw [retired] at current
    simp [OwnKey.current, current.1.1, current.2]
  · rw [marked]
    intro k member
    obtain ⟨j, inside, rfl⟩ := List.mem_map.mp member
    unfold OwnKey.markDeleted
    split <;> exact sound.lifetime j inside

/-- Deleting a key, however it ends. -/
theorem Sound.delete (sound : s.Sound) (keyID : KeyID) (now : Time) (d : Deletion) :
    (deleteKey s keyID now d).1.Sound := by
  rcases deleteKey_table s keyID now d with same | marked
  · exact Sound.of_table sound same
  · exact Sound.mark sound marked

/-- A new key under a new id keeps it. -/
theorem Sound.record (sound : s.Sound) (now : Time) (fresh : keyID ∉ s.table.map (·.keyID)) :
    (s.record now keyID).Sound := by
  constructor
  · rw [record_table, List.map_append, List.map_map]
    have ids : (fun k : OwnKey => k.keyID) ∘ OwnKey.retire now = fun k => k.keyID := by
      funext k
      exact retire_keyID now k
    rw [ids]
    apply List.nodup_append.mpr
    refine ⟨sound.nodup, List.nodup_singleton _, ?_⟩
    intro a member b single same
    rw [List.map_singleton, List.mem_singleton] at single
    have drawn : a = keyID := same.trans single
    exact fresh (drawn ▸ member)
  · rw [record_table, List.countP_append, List.countP_map]
    have none : s.table.countP (OwnKey.current ∘ OwnKey.retire now) = 0 :=
      List.countP_eq_zero.mpr fun k _ => by simp [retire_current]
    rw [none, Nat.zero_add]
    exact List.countP_le_length
  · intro k member
    rcases mem_record member with ⟨j, inside, rfl⟩ | rfl
    · rw [(retire_times now j).1, (retire_times now j).2]
      exact sound.lifetime j inside
    · unfold OwnKey.new signAnnouncement storeTime parseWireTime wireTime announcementLifetime day hour
        minute second StoreTime WireTime Time
      simp only
      omega

structure Swept (c : Call) (t : Keys) (rows : List Row) : Prop where
  sound : t.Sound
  ids : t.liveIDs.Perm (rows.map (·.keyID))
  single : rows.countP (fun r => !r.retired) ≤ 1
  spared : ∀ cur, currentOf rows = some cur → ¬ Deletable c rows cur

theorem seenBasis_le {basis : Time} (h : seenBasis c = some basis) : basis ≤ c.now := by
  obtain ⟨newest, _, rfl⟩ := Option.map_eq_some_iff.mp h
  exact min_le_left _ _

theorem spared_of_young {r : Row} (current : r.retired = false) (young : c.now < r.notAfter + deleteGrace) :
    ¬ Deletable c rows r := by
  intro deletable
  cases deletable with
  | aged _ basis seen old =>
    simp only [expired, Bool.and_eq_true, decide_eq_true_eq] at old
    exact absurd (le_trans old.1 (seenBasis_le seen)) (not_le.mpr young)
  | capped keep kept full i victim =>
    rw [(capVictim_eq_some victim).2.1] at current
    cases current

/-- What a sweep starts from meets its conditions. -/
theorem SweepStart.swept (sound : s.Sound) (start : SweepStart s c t rows) : Swept c t rows := by
  cases start with
  | kept cur found young =>
    refine ⟨sound, live_keyIDs s, by rw [live_countP]; exact sound.single, ?_⟩
    intro cur' found'
    rw [found] at found'
    cases found'
    obtain ⟨member, current, _⟩ := currentOf_eq_some found
    apply spared_of_young current
    obtain ⟨k, inside, _, rfl⟩ := mem_live.mp member
    have lifetime := sound.lifetime k inside
    unfold OwnKey.row parseStoreTime rotateAfter deleteGrace Time StoreTime at *
    simp only at *
    omega
  | created keyID fresh due =>
    have past : (retire s.live).countP (fun r => !r.retired) = 0 := by
      apply List.countP_eq_zero.mpr
      intro r member
      obtain ⟨_, _, rfl⟩ := List.mem_map.mp member
      simp
    refine ⟨Sound.record sound c.now fresh, ?_, ?_, ?_⟩
    · rw [record_liveIDs, List.map_append, List.map_singleton]
      refine List.Perm.append ?_ (List.Perm.refl _)
      have same : (retire s.live).map (·.keyID) = s.live.map (·.keyID) := by
        rw [retire, List.map_map]
        rfl
      rw [same]
      exact live_keyIDs s
    · rw [List.countP_append, past, Nat.zero_add]
      exact List.countP_le_length
    · intro cur found
      obtain ⟨member, current, _⟩ := currentOf_eq_some found
      rcases List.mem_append.mp member with old | new
      · obtain ⟨_, _, rfl⟩ := List.mem_map.mp old
        cases current
      · rw [List.mem_singleton.mp new]
        obtain ⟨_, notAfter, soon, _⟩ := newRow_times c.now keyID
        apply spared_of_young rfl
        unfold announcementLifetime deleteGrace day hour minute second Time at *
        omega

theorem Swept.sweep_sound (swept : Swept c t rows) : (sweepLocked t c rows).Sound := by
  refine sweepLocked_invariant (motive := Keys.Sound) ?_ swept.sound
  intro s r d sound _
  exact Sound.delete sound r.keyID c.now d

theorem Swept.current_live (swept : Swept c t rows) {cur : Row} (found : currentOf rows = some cur) :
    cur.keyID ∈ (sweepLocked t c rows).liveIDs := by
  have distinct : (rows.map (·.keyID)).Nodup :=
    swept.ids.nodup_iff.mp (((List.filter_sublist).map _).nodup swept.sound.nodup)
  have member := (currentOf_eq_some found).1
  refine sweepLocked_invariant (motive := fun s => cur.keyID ∈ s.liveIDs) ?_
    (swept.ids.mem_iff.mpr (List.mem_map_of_mem member))
  intro s r d live deletable
  have other : cur.keyID ≠ r.keyID := by
    intro same
    have rows_eq := List.inj_on_of_nodup_map distinct member deletable.mem same
    exact swept.spared cur found (rows_eq ▸ deletable)
  cases d with
  | done =>
    rw [deleteKey_done_liveIDs]
    exact List.mem_filter.mpr ⟨live, by simpa using other⟩
  | keystoreFailed => exact live
  | rowFailed => exact live

/-- The table invariant, over every event. -/
theorem Sound.step (sound : s.Sound) (e : KeysEvent) : (s.step e).Sound := by
  rcases step_cases s e with ⟨same, _, _⟩ | ⟨c, t, rows, start, next⟩
  · exact Sound.of_table sound same
  · rw [next]
    exact ((sweep_start start).1.swept sound).sweep_sound

theorem Sound.imported (ann : Announcement) (now : Time) (load : Loaded) : (importLegacy ann now load).Sound := by
  unfold importLegacy
  split
  · exact ⟨List.nodup_nil, Nat.zero_le _, fun _ member => (by cases member)⟩
  · rename_i kept
    refine ⟨List.nodup_singleton _, List.countP_le_length, ?_⟩
    intro k member
    rw [List.mem_singleton.mp member]
    simp only [Announcement.wellTimed, not_or, Bool.not_eq_true', Bool.not_eq_false, Bool.and_eq_true,
      decide_eq_true_eq] at kept
    have order := kept.1.1
    unfold storeTime parseWireTime StoreTime WireTime Time at *
    simp only
    omega

inductive Keys.Reachable : Keys → Prop where
  | empty (es : List KeysEvent) : Reachable (Keys.empty.after es)
  | imported (ann : Announcement) (now : Time) (load : Loaded) (es : List KeysEvent) :
      Reachable ((importLegacy ann now load).after es)

/-- It holds in every reachable state. -/
theorem Keys.Reachable.sound (reachable : s.Reachable) : s.Sound := by
  cases reachable with
  | empty es =>
    refine run_invariant (motive := Keys.Sound) (fun s e sound => Sound.step sound e) ?_ es
    exact ⟨List.nodup_nil, Nat.zero_le _, fun _ member => (by cases member)⟩
  | imported ann now load es =>
    exact run_invariant (motive := Keys.Sound) (fun s e sound => Sound.step sound e) (Sound.imported ann now load) es

/-- Under any clock: at most one live key is not retired, no sweep deletes the
current key, and a sweep whose deletions succeed leaves at most three keys live. -/
theorem current_key_invariants {s : Keys} (reachable : s.Reachable) :
    s.table.countP (fun k => k.live && k.retired.isNone) ≤ 1 ∧
      ∀ e c t rows, e.sweep s = some (c, t, rows) → s.step e = sweepLocked t c rows ∧
          (∀ cur, currentOf rows = some cur → cur.keyID ∈ (s.step e).liveIDs) ∧
          ((∀ id, c.expire id = .done) → (∀ id, c.evict id = .done) → (s.step e).liveIDs.length ≤ maxLive) := by
  refine ⟨reachable.sound.single, ?_⟩
  intro e c t rows start
  have swept := (sweep_start start).1.swept reachable.sound
  have next : s.step e = sweepLocked t c rows := by
    rcases step_cases s e with ⟨_, _, none⟩ | ⟨c', t', rows', start', next⟩
    · rw [none] at start
      cases start
    · rw [start] at start'
      cases start'
      exact next
  rw [next]
  refine ⟨rfl, fun cur found => swept.current_live found, ?_⟩
  intro expires evicts
  refine sweepLocked_length expires evicts swept.ids ?_ swept.single
  exact swept.ids.nodup_iff.mp (((List.filter_sublist).map _).nodup swept.sound.nodup)

/-- A call at `now` in which the keystore and the database answer. -/
def steadyCall (now : Time) (keyID : KeyID) : Call where
  now := now
  load := .found
  drawn := some keyID
  newestSeen := none
  expire := fun _ => .done
  evict := fun _ => .done

def weeklyRotations : List KeysEvent :=
  [.rotate (steadyCall 0 "k0"), .rotate (steadyCall (7 * day) "k1"),
    .rotate (steadyCall (14 * day) "k2"), .rotate (steadyCall (21 * day) "k3")]

-- The clock is stepped back by a month before this rotation.
theorem weeklyRotations_sweep :
    (Keys.empty.after weeklyRotations).table.countP (fun k => k.live && k.retired.isNone) ≤ 1 ∧
      ((Keys.empty.after weeklyRotations).step (.rotate (steadyCall (-9 * day) "k4"))).liveIDs.length ≤ maxLive := by
  obtain ⟨single, sweeps⟩ := current_key_invariants (.empty weeklyRotations)
  refine ⟨single, ?_⟩
  have swept : ((KeysEvent.rotate (steadyCall (-9 * day) "k4")).sweep (Keys.empty.after weeklyRotations)).isSome =
      true := by decide +kernel
  obtain ⟨⟨c, t, rows⟩, start⟩ := Option.isSome_iff_exists.mp swept
  have call : steadyCall (-9 * day) "k4" = c := by
    rcases (sweep_start start).2 with same | same
    · exact KeysEvent.rotate.inj same
    · cases same
  exact (sweeps _ c t rows start).2.2 (fun _ => by rw [← call]; rfl) (fun _ => by rw [← call]; rfl)

end Agentnet.Mailbox
