import Mathlib.Data.List.Pairwise
import Mathlib.Data.Nat.Cast.Order.Basic
import Agentnet.Mailbox.KeyRuns

/-! Under a clock that never steps back, a private key lives for 21 days. -/

namespace Agentnet.Mailbox

open Agentnet.Lib

def keyLifetime : Int := 21 * day

def KeysEvent.KeepsCurrent (s : Keys) : KeysEvent → Prop
  | .rotate c | .announcement c => (currentOf s.live).isSome = true → c.load ≠ .notFound ∧ c.load ≠ .mismatch
  | .mailboxKey _ _ _ => True

instance (s : Keys) (e : KeysEvent) : Decidable (e.KeepsCurrent s) :=
  match e with
  | .rotate c => inferInstanceAs (Decidable (_ → c.load ≠ .notFound ∧ c.load ≠ .mismatch))
  | .announcement c => inferInstanceAs (Decidable (_ → c.load ≠ .notFound ∧ c.load ≠ .mismatch))
  | .mailboxKey _ _ _ => inferInstanceAs (Decidable True)

/-- The order of two keys in the table: the first is retired, a week older. -/
def OwnKey.Precedes (a b : OwnKey) : Prop :=
  a.retired.isSome = true ∧ parseStoreTime a.created + rotateAfter ≤ parseStoreTime b.created

/-- The invariant when there always is a current key. -/
structure Steady (t : Time) (s : Keys) : Prop where
  sound : s.Sound
  spaced : s.table.Pairwise OwnKey.Precedes
  current : s.table ≠ [] → ∃ k ∈ s.table, k.current = true
  past : ∀ k ∈ s.table, parseStoreTime k.created ≤ t
  whole : ∀ k ∈ s.table, ∃ w, parseStoreTime k.created = parseWireTime w
  lifetime : ∀ k ∈ s.table, parseStoreTime k.notAfter = parseStoreTime k.created + announcementLifetime
  young : ∀ k ∈ s.table, t < parseStoreTime k.created + keyLifetime → k.live = true ∧ k.keyID ∈ s.secrets

/-- Before the first key. -/
theorem Steady.empty (t : Time) : Steady t Keys.empty where
  sound := ⟨List.nodup_nil, Nat.zero_le _, fun _ member => (by cases member)⟩
  spaced := List.Pairwise.nil
  current := fun some => absurd rfl some
  past := fun _ member => (by cases member)
  whole := fun _ member => (by cases member)
  lifetime := fun _ member => (by cases member)
  young := fun _ member => (by cases member)

variable {s : Keys} {t now : Time} {k : OwnKey} {c : Call} {keyID : KeyID}

/-- The invariant as time goes on. -/
theorem Steady.later {t' : Time} (steady : Steady t s) (h : t ≤ t') : Steady t' s where
  __ := steady
  past := fun k member => le_trans (steady.past k member) h
  young := fun k member early => steady.young k member (lt_of_le_of_lt h early)

theorem Steady.of_same {u : Keys} (steady : Steady t s) (table : u.table = s.table)
    (secrets : u.secrets = s.secrets) : Steady t u := by
  constructor
  · exact Sound.of_table steady.sound table
  · exact table ▸ steady.spaced
  · exact table ▸ steady.current
  · exact table ▸ steady.past
  · exact table ▸ steady.whole
  · exact table ▸ steady.lifetime
  · rw [table, secrets]
    exact steady.young

/-! ## The live rows are in the order of the table -/

theorem related_of_mem {α : Type} {R : α → α → Prop} {l : List α} (pairwise : l.Pairwise R) {a b : α}
    (ha : a ∈ l) (hb : b ∈ l) (apart : a ≠ b) : R a b ∨ R b a := by
  have either : l.Pairwise fun a b => R a b ∨ R b a := pairwise.imp fun h => .inl h
  have : Std.Symm fun a b => R a b ∨ R b a := ⟨fun _ _ h => h.symm⟩
  exact either.forall ha hb apart

theorem Steady.live_of_open (steady : Steady t s) (member : k ∈ s.table) (notRetired : k.retired.isSome = false) :
    k.live = true := by
  obtain ⟨cur, inside, current⟩ := steady.current (List.ne_nil_of_mem member)
  simp only [OwnKey.current, Bool.and_eq_true] at current
  by_cases same : k = cur
  · rw [same]
    exact current.1
  · rcases related_of_mem steady.spaced member inside same with precedes | precedes
    · rw [precedes.1] at notRetired
      cases notRetired
    · have retired := precedes.1
      rw [Option.isNone_iff_eq_none.mp current.2] at retired
      cases retired

theorem parseStoreTime_lt {a b : StoreTime} (h : parseStoreTime a + rotateAfter ≤ parseStoreTime b) : a < b := by
  unfold parseStoreTime rotateAfter day hour minute second StoreTime Time at *
  omega

theorem Steady.live_eq (steady : Steady t s) : s.live = (s.table.filter OwnKey.live).map OwnKey.row := by
  have sorted : (s.table.filter OwnKey.live).Pairwise OwnKey.before := by
    apply List.Pairwise.filter
    refine steady.spaced.imp ?_
    intro a b precedes
    exact .inl (parseStoreTime_lt precedes.2)
  rw [Keys.live, List.Pairwise.insertionSort_eq sorted]

theorem Steady.live_spaced (steady : Steady t s) :
    s.live.Pairwise fun a b => a.retired = true ∧ a.created + rotateAfter ≤ b.created := by
  rw [steady.live_eq, List.pairwise_map]
  exact steady.spaced.filter _

theorem Steady.live_past (steady : Steady t s) {r : Row} (member : r ∈ s.live) :
    r.created ≤ t ∧ r.notAfter = r.created + announcementLifetime := by
  obtain ⟨k, inside, _, rfl⟩ := mem_live.mp member
  exact ⟨steady.past k inside, steady.lifetime k inside⟩

theorem Steady.deletable_old (steady : Steady c.now s) {r : Row}
    (deletable : Deletable c s.live r) : r.retired = true ∧ r.created + keyLifetime ≤ c.now := by
  have spaced := steady.live_spaced
  cases deletable with
  | aged member basis seen old =>
    simp only [expired, Bool.and_eq_true, decide_eq_true_eq, List.any_eq_true] at old
    obtain ⟨past, n, successor, newer, _⟩ := old
    constructor
    · have apart : r ≠ n := fun same => absurd newer (same ▸ lt_irrefl _)
      rcases related_of_mem spaced member successor apart with ⟨retired, _⟩ | ⟨_, older⟩
      · exact retired
      · unfold rotateAfter day hour minute second Time at *
        omega
    · have lifetime := (steady.live_past member).2
      have bound := seenBasis_le seen
      unfold keyLifetime announcementLifetime deleteGrace day hour minute second Time at *
      omega
  | capped keep kept full i victim =>
    obtain ⟨hit, retired, least⟩ := capVictim_eq_some victim
    refine ⟨retired, ?_⟩
    have member := kept.subset (List.mem_of_getElem? hit)
    have oldest : ∀ x ∈ keep, x.retired = true → r.created ≤ x.created := by
      rcases least with future | least
      · have now := (steady.live_past member).1
        unfold maxSkew minute second Time at *
        omega
      · exact least
    have spaced := spaced.sublist kept
    obtain ⟨x₀, x₁, x₂, x₃, rest, rfl⟩ : ∃ x₀ x₁ x₂ x₃ rest, keep = x₀ :: x₁ :: x₂ :: x₃ :: rest := by
      rcases keep with _ | ⟨x₀, _ | ⟨x₁, _ | ⟨x₂, _ | ⟨x₃, rest⟩⟩⟩⟩
      case cons.cons.cons.cons => exact ⟨x₀, x₁, x₂, x₃, rest, rfl⟩
      all_goals exact absurd full (by simp [maxLive])
    simp only [List.pairwise_cons, List.mem_cons, forall_eq_or_imp] at spaced
    have first := oldest x₀ List.mem_cons_self spaced.1.1.1
    have last := (steady.live_past (kept.subset (by simp : x₃ ∈ x₀ :: x₁ :: x₂ :: x₃ :: rest))).1
    have gap₀ := spaced.1.1.2
    have gap₁ := spaced.2.1.1.2
    have gap₂ := spaced.2.2.1.1.2
    unfold keyLifetime rotateAfter day hour minute second Time at *
    omega

/-! ## One step -/

theorem Steady.delete (steady : Steady now s) (d : Deletion) (old : ∀ k ∈ s.table, k.keyID = keyID →
      k.retired.isSome = true ∧
      parseStoreTime k.created + keyLifetime ≤ now) : Steady now (deleteKey s keyID now d).1 := by
  have secret : ∀ k ∈ s.table, now < parseStoreTime k.created + keyLifetime → k.keyID ≠ keyID := by
    intro k member early same
    exact absurd (old k member same).2 (not_le.mpr early)
  cases d with
  | keystoreFailed => exact steady.of_same rfl rfl
  | rowFailed =>
    refine { steady with sound := Sound.delete steady.sound keyID now .rowFailed, young := ?_ }
    intro k member early
    obtain ⟨live, kept⟩ := steady.young k member early
    exact ⟨live, List.mem_filter.mpr ⟨kept, by simpa using secret k member early⟩⟩
  | done =>
    have fields : ∀ k : OwnKey, (k.markDeleted keyID now).created = k.created ∧
        (k.markDeleted keyID now).notAfter = k.notAfter ∧ (k.markDeleted keyID now).retired = k.retired := by
      intro k
      unfold OwnKey.markDeleted
      split <;> exact ⟨rfl, rfl, rfl⟩
    constructor
    · exact Sound.delete steady.sound keyID now .done
    · refine (List.pairwise_map (f := OwnKey.markDeleted keyID now)).mpr (steady.spaced.imp ?_)
      intro a b precedes
      rw [OwnKey.Precedes, (fields a).1, (fields a).2.2, (fields b).1]
      exact precedes
    · intro some
      have some : s.table ≠ [] := fun none => some (by rw [deleteKey]; simp [Keys.dropSecret, Keys.forget, none])
      obtain ⟨k, member, current⟩ := steady.current some
      refine ⟨k.markDeleted keyID now, List.mem_map_of_mem member, ?_⟩
      simp only [OwnKey.current, Bool.and_eq_true] at current
      have other : k.keyID ≠ keyID := by
        intro same
        have retired := (old k member same).1
        rw [Option.isNone_iff_eq_none.mp current.2] at retired
        cases retired
      rw [OwnKey.current, markDeleted_live, (fields k).2.2, current.1, current.2]
      simpa using other
    · intro k member
      obtain ⟨j, inside, rfl⟩ := List.mem_map.mp member
      rw [(fields j).1]
      exact steady.past j inside
    · intro k member
      obtain ⟨j, inside, rfl⟩ := List.mem_map.mp member
      rw [(fields j).1]
      exact steady.whole j inside
    · intro k member
      obtain ⟨j, inside, rfl⟩ := List.mem_map.mp member
      rw [(fields j).1, (fields j).2.1]
      exact steady.lifetime j inside
    · intro k member early
      obtain ⟨j, inside, rfl⟩ := List.mem_map.mp member
      rw [(fields j).1] at early
      obtain ⟨live, kept⟩ := steady.young j inside early
      have other := secret j inside early
      rw [markDeleted_live, live, markDeleted_keyID]
      exact ⟨by simpa using other, List.mem_filter.mpr ⟨kept, by simpa using other⟩⟩

theorem Steady.sweep (steady : Steady c.now s) : Steady c.now (sweepLocked s c s.live) := by
  -- a row of the swept list keeps its key, creation and retirement in the table
  refine (sweepLocked_invariant (motive := fun u => Steady c.now u ∧
    ∀ j ∈ u.table, ∃ k ∈ s.table, k.keyID = j.keyID ∧ k.created = j.created ∧ k.retired = j.retired)
    ?_ ⟨steady, fun j member => ⟨j, member, rfl, rfl, rfl⟩⟩).1
  intro u r d ⟨kept, same⟩ deletable
  obtain ⟨k, inside, live, row⟩ := mem_live.mp deletable.mem
  obtain ⟨retired, old⟩ := steady.deletable_old deletable
  rw [← row] at retired old
  refine ⟨kept.delete d ?_, ?_⟩
  · intro j member named
    obtain ⟨k', inside', id, created, state⟩ := same j member
    have key : k' = k := by
      apply List.inj_on_of_nodup_map steady.sound.nodup inside' inside
      rw [id, named, ← row]
      rfl
    rw [← state, ← created, key]
    exact ⟨retired, old⟩
  · intro j member
    rcases deleteKey_table u r.keyID c.now d with table | table
    · exact same j (table ▸ member)
    · rw [table] at member
      obtain ⟨j', inside', rfl⟩ := List.mem_map.mp member
      obtain ⟨k', found, id, created, state⟩ := same j' inside'
      refine ⟨k', found, by rw [id, markDeleted_keyID], ?_, ?_⟩
      · rw [created]
        unfold OwnKey.markDeleted
        split <;> rfl
      · rw [state]
        unfold OwnKey.markDeleted
        split <;> rfl

theorem Steady.record (steady : Steady now s) (fresh : keyID ∉ s.table.map (·.keyID))
    (due : ∀ k ∈ s.table, parseStoreTime k.created + rotateAfter ≤ parseWireTime (wireTime now)) :
    Steady now (s.record now keyID) := by
  obtain ⟨created, notAfter, _, before⟩ := newRow_times now keyID
  rw [← new_row now keyID] at created notAfter before
  constructor
  · exact Sound.record steady.sound now fresh
  · rw [record_table, List.pairwise_append]
    have retired : ∀ k ∈ s.table, (k.retire now).retired.isSome = true := by
      intro k member
      unfold OwnKey.retire
      split
      · rfl
      · rename_i kept
        by_contra notRetired
        have live := steady.live_of_open member (by simpa using notRetired)
        exact kept ⟨by simpa using notRetired, live⟩
    refine ⟨?_, List.pairwise_singleton _ _, ?_⟩
    · refine List.pairwise_map.mpr (steady.spaced.imp_of_mem ?_)
      intro a b first _ precedes
      rw [OwnKey.Precedes, (retire_times now a).1, (retire_times now b).1]
      exact ⟨retired a first, precedes.2⟩
    · intro a member b single
      obtain ⟨k, inside, rfl⟩ := List.mem_map.mp member
      rw [List.mem_singleton.mp single]
      refine ⟨retired k inside, ?_⟩
      rw [(retire_times now k).1]
      exact le_trans (due k inside) (le_of_eq created.symm)
  · intro _
    exact ⟨OwnKey.new now keyID, by rw [record_table]; simp, rfl⟩
  · intro k member
    rcases mem_record member with ⟨j, inside, rfl⟩ | rfl
    · rw [(retire_times now j).1]
      exact steady.past j inside
    · exact before
  · intro k member
    rcases mem_record member with ⟨j, inside, rfl⟩ | rfl
    · rw [(retire_times now j).1]
      exact steady.whole j inside
    · exact ⟨wireTime now, created⟩
  · intro k member
    rcases mem_record member with ⟨j, inside, rfl⟩ | rfl
    · rw [(retire_times now j).1, (retire_times now j).2]
      exact steady.lifetime j inside
    · exact notAfter.trans (congrArg (· + announcementLifetime) created.symm)
  · intro k member early
    rcases mem_record member with ⟨j, inside, rfl⟩ | rfl
    · rw [(retire_times now j).1] at early
      obtain ⟨live, kept⟩ := steady.young j inside early
      rw [retire_live, retire_keyID]
      exact ⟨live, List.mem_cons_of_mem _ kept⟩
    · exact ⟨rfl, List.mem_cons_self⟩

theorem Steady.record_live (steady : Steady now s) (recorded : Steady now (s.record now keyID)) :
    (s.record now keyID).live = retire s.live ++ [newRow now keyID] := by
  rw [recorded.live_eq, steady.live_eq, record_table, List.filter_append, List.map_append,
    List.filter_map, List.map_map, retire, List.map_map]
  have same : OwnKey.live ∘ OwnKey.retire now = OwnKey.live := by
    funext k
    exact retire_live now k
  rw [same]
  congr 1
  · apply List.map_congr_left
    intro k member
    have live := (List.mem_filter.mp member).2
    simp only [Function.comp_apply, OwnKey.retire]
    split
    · rfl
    · rename_i kept
      have retired : k.retired.isSome = true := by
        by_contra notRetired
        exact kept ⟨by simpa using notRetired, live⟩
      simp [OwnKey.row, retired]
  · exact congrArg (fun r => [r]) (new_row now keyID)

theorem le_wholeSeconds {a : Time} (whole : ∃ w, a = parseWireTime w) (past : a + rotateAfter ≤ now) :
    a + rotateAfter ≤ parseWireTime (wireTime now) := by
  obtain ⟨w, rfl⟩ := whole
  unfold parseWireTime wireTime rotateAfter day hour minute second WireTime Time at *
  omega

theorem rotateAfter_le_of_due {cur : Row} (kept : c.load ≠ .notFound ∧ c.load ≠ .mismatch)
    (past : cur.created ≤ c.now) (lifetime : cur.notAfter = cur.created + announcementLifetime)
    (due : cur.created + rotateAfter ≤ c.now ∨ usable cur c = .ok false) :
    cur.created + rotateAfter ≤ c.now := by
  rcases due with old | lost
  · exact old
  · unfold usable at lost
    split at lost
    · rename_i timed
      unfold renewBefore maxSkew rotateAfter announcementLifetime day hour minute second Time at *
      omega
    · split at lost
      · rename_i missing
        exact absurd missing kept.1
      · rename_i missing
        exact absurd missing kept.2
      · cases lost
      · cases lost
      · cases lost

theorem Steady.due (steady : Steady c.now s)
    (kept : (currentOf s.live).isSome = true → c.load ≠ .notFound ∧ c.load ≠ .mismatch)
    (due : ∀ cur, currentOf s.live = some cur → cur.created + rotateAfter ≤ c.now ∨ usable cur c = .ok false)
    (member : k ∈ s.table) :
    parseStoreTime k.created + rotateAfter ≤ parseWireTime (wireTime c.now) := by
  apply le_wholeSeconds (steady.whole k member)
  obtain ⟨open_, inside, current⟩ := steady.current (List.ne_nil_of_mem member)
  simp only [OwnKey.current, Bool.and_eq_true] at current
  have found : (currentOf s.live).isSome = true := by
    apply currentOf_isSome (mem_live.mpr ⟨open_, inside, current.1, rfl⟩)
    simpa [OwnKey.row] using current.2
  obtain ⟨cur, eq⟩ := Option.isSome_iff_exists.mp found
  obtain ⟨listed, notRetired, _⟩ := currentOf_eq_some eq
  obtain ⟨past, lifetime⟩ := steady.live_past listed
  have week := rotateAfter_le_of_due (kept found) past lifetime (due cur eq)
  obtain ⟨j, inside', _, row⟩ := mem_live.mp listed
  rw [← row] at week notRetired
  by_cases same : k = j
  · rw [same]
    exact week
  · rcases related_of_mem steady.spaced member inside' same with precedes | precedes
    · have gap := precedes.2
      have now := steady.past j inside'
      exact le_trans gap now
    · rw [OwnKey.row, precedes.1] at notRetired
      cases notRetired

/-- The invariant over an event that keeps the current key. -/
theorem Steady.step {e : KeysEvent} (steady : Steady t s) (later : t ≤ e.time) (kept : e.KeepsCurrent s) :
    Steady e.time (s.step e) := by
  have now := steady.later later
  rcases step_cases s e with ⟨table, secrets, _⟩ | ⟨c, u, rows, start, next⟩
  · exact now.of_same table secrets
  · obtain ⟨started, call⟩ := sweep_start start
    have time : e.time = c.now := by
      rcases call with rfl | rfl <;> rfl
    have kept : (currentOf s.live).isSome = true → c.load ≠ .notFound ∧ c.load ≠ .mismatch := by
      rcases call with rfl | rfl <;> exact kept
    rw [next, time]
    rw [time] at now
    cases started with
    | kept cur found young => exact now.sweep
    | created keyID fresh due =>
      have recorded := now.record fresh fun k member => now.due kept due member
      rw [← now.record_live recorded]
      exact recorded.sweep

/-! ## Mail sealed to a key -/

/-- `MailboxKey` finds a live key before its grace ends, unless a read of it has
just failed. -/
theorem mailboxKey_found (member : k ∈ s.table) (live : k.live = true)
    (early : now < parseStoreTime k.notAfter + deleteGrace) (idle : ∀ f ∈ s.failed, f.1 = k.keyID →
      loadRetry ≤ now - f.2 ∨ now < f.2) : (mailboxKey s k.keyID now .found).2 = true := by
  have listed : k.row ∈ s.live := mem_live.mpr ⟨k, member, live, rfl⟩
  have hit : (s.live.find? fun r => r.keyID = k.keyID && decide (now < r.notAfter + deleteGrace)).isSome = true := by
    apply List.find?_isSome.mpr
    exact ⟨k.row, listed, by rw [Bool.and_eq_true]; exact ⟨decide_eq_true rfl, decide_eq_true early⟩⟩
  obtain ⟨r, found⟩ := Option.isSome_iff_exists.mp hit
  have named : r.keyID = k.keyID := by
    have test := List.find?_some found
    simp only [Bool.and_eq_true, decide_eq_true_eq] at test
    exact test.1
  have ready : (s.failed.any fun f =>
      f.1 = r.keyID && decide (now - f.2 < loadRetry) && decide (f.2 ≤ now)) = false := by
    apply List.any_eq_false.mpr
    intro f failure
    have := idle f failure
    rw [named]
    simp only [Bool.and_eq_true, decide_eq_true_eq, not_and, not_le, and_imp]
    intro same recent
    rcases this same with late | ahead
    · exact absurd recent (not_lt.mpr late)
    · exact ahead
  rw [mailboxKey, found]
  simp only [ready]
  split
  · rfl
  · simp

/-- Every private key is live for 21 days after its creation, so that a mail sealed
while the key was valid opens for a week. -/
theorem key_outlives_queue (t : Time) (es : List KeysEvent) (clocked : Clocked KeysEvent.time t es)
    (kept : Follows Keys.step (fun s e => e.KeepsCurrent s) Keys.empty es) :
    ∀ k ∈ (Keys.empty.after es).table, ∀ now, clock KeysEvent.time t es ≤ now →
    (now < parseStoreTime k.created + keyLifetime → k.live = true ∧ k.keyID ∈ (Keys.empty.after es).secrets) ∧
      ∀ sealed, sealed < parseStoreTime k.notAfter → now ≤ sealed + deleteGrace →
        (∀ f ∈ (Keys.empty.after es).failed, f.1 = k.keyID → loadRetry ≤ now - f.2 ∨ now < f.2) →
          (mailboxKey (Keys.empty.after es) k.keyID now .found).2 = true := by
  have steady : Steady (clock KeysEvent.time t es) (Keys.empty.after es) :=
    run_clocked_of (motive := Steady) (fun _ _ _ steady later kept => steady.step later kept)
      (Steady.empty t) clocked kept
  intro k member now later
  have young := (steady.later later).young k member
  refine ⟨young, ?_⟩
  intro sealed valid delivered idle
  have lifetime := steady.lifetime k member
  have early : now < parseStoreTime k.notAfter + deleteGrace := by
    unfold deleteGrace day hour minute second Time at *
    omega
  refine mailboxKey_found member (young ?_).1 early idle
  unfold keyLifetime announcementLifetime deleteGrace day hour minute second Time at *
  omega

theorem weeklyRotations_outlive : ∃ k ∈ (Keys.empty.after weeklyRotations).table, k.keyID = "k1" ∧ k.live = true ∧
      (mailboxKey (Keys.empty.after weeklyRotations) "k1" (27 * day) .found).2 = true := by
  have present : (Keys.empty.after weeklyRotations).table.any (fun k => k.keyID = "k1" &&
      decide (27 * day < parseStoreTime k.created + keyLifetime) &&
      decide (20 * day < parseStoreTime k.notAfter)) = true := by decide +kernel
  obtain ⟨k, member, facts⟩ := List.any_eq_true.mp present
  simp only [Bool.and_eq_true, decide_eq_true_eq] at facts
  have outlives := key_outlives_queue 0 weeklyRotations (by decide +kernel) (by decide +kernel) k member
    (27 * day) (by decide +kernel)
  refine ⟨k, member, facts.1.1, (outlives.1 facts.1.2).1, ?_⟩
  have opened := outlives.2 (20 * day) facts.2 (by decide +kernel)
    (fun f failure => by
      have none : (Keys.empty.after weeklyRotations).failed = [] := by decide +kernel
      rw [none] at failure
      cases failure)
  rwa [facts.1.1] at opened

/-- A mail sealed on the thirteenth day of the first key, and delivered nine days
later, finds the key gone. -/
theorem weeklyRotations_lost : Clocked KeysEvent.time 0 weeklyRotations ∧
      Follows Keys.step (fun s e => e.KeepsCurrent s) Keys.empty weeklyRotations ∧
      (∃ k ∈ (Keys.empty.after weeklyRotations).table, k.keyID = "k0" ∧ k.live = false ∧
        13 * day < parseStoreTime k.notAfter) ∧
      (22 * day - 13 * day ≤ 14 * day) ∧
      (mailboxKey (Keys.empty.after weeklyRotations) "k0" (22 * day) .found).2 = false := by
  decide +kernel

end Agentnet.Mailbox
