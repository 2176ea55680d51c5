import Mathlib.Data.List.Nodup
import Mathlib.Data.List.Count

/-! Finite tables with a unique key. A key without a row reads as the default
value, so a table is a finitely supported function that can be counted. -/

namespace Agentnet.Lib

structure Table (κ ρ : Type*) where
  rows : List (κ × ρ)
  nodup : (rows.map Prod.fst).Nodup

namespace Table

variable {κ ρ : Type*} [DecidableEq κ]

/-- The rows with the value under `k` replaced, or appended when there is none. -/
def put (k : κ) (r : ρ) : List (κ × ρ) → List (κ × ρ)
  | [] => [(k, r)]
  | x :: rest => if x.1 = k then (k, r) :: rest else x :: put k r rest

theorem map_fst_put (k : κ) (r : ρ) (rows : List (κ × ρ)) : (put k r rows).map Prod.fst =
      if k ∈ rows.map Prod.fst then rows.map Prod.fst else rows.map Prod.fst ++ [k] := by
  induction rows with
  | nil => simp [put]
  | cons x rest ih =>
    by_cases same : x.1 = k
    · simp [put, same]
    · have other : k ≠ x.1 := fun h => same h.symm
      simp only [put, same, if_false, List.map_cons, ih, List.mem_cons, other, false_or]
      split <;> rfl

/-- A table without rows. -/
def empty : Table κ ρ := ⟨[], List.nodup_nil⟩

def set (t : Table κ ρ) (k : κ) (r : ρ) : Table κ ρ where
  rows := put k r t.rows
  nodup := by
    rw [map_fst_put]
    split
    · exact t.nodup
    · rename_i fresh
      exact List.nodup_append.mpr ⟨t.nodup, List.nodup_singleton k, by
        rintro a member b single rfl
        exact fresh (by simpa [List.mem_singleton.mp single] using member)⟩

def mapRows (t : Table κ ρ) (f : κ → ρ → ρ) : Table κ ρ where
  rows := t.rows.map fun x => (x.1, f x.1 x.2)
  nodup := by simpa [List.map_map, Function.comp_def] using t.nodup

def count (t : Table κ ρ) (p : κ → ρ → Bool) : Nat := t.rows.countP fun x => p x.1 x.2

omit [DecidableEq κ] in
theorem count_mapRows (t : Table κ ρ) (f : κ → ρ → ρ) (p : κ → ρ → Bool) :
    (t.mapRows f).count p = t.count fun k r => p k (f k r) := List.countP_map

omit [DecidableEq κ] in
theorem count_le_of_imp (t : Table κ ρ) {p q : κ → ρ → Bool} (h : ∀ k r, p k r = true → q k r = true) :
    t.count p ≤ t.count q :=
  List.countP_mono_left fun x _ => h x.1 x.2

variable [Inhabited ρ]

/-- The value a list of rows holds under `k`. -/
def look (k : κ) : List (κ × ρ) → ρ
  | [] => default
  | x :: rest => if x.1 = k then x.2 else look k rest

def get (t : Table κ ρ) (k : κ) : ρ := look k t.rows

theorem look_put (k j : κ) (r : ρ) (rows : List (κ × ρ)) :
    look j (put k r rows) = if k = j then r else look j rows := by
  induction rows with
  | nil => simp [put, look]
  | cons x rest ih =>
    by_cases same : x.1 = k
    · by_cases hit : k = j
      · simp [put, look, same, hit]
      · simp [put, look, same, hit]
    · by_cases hit : x.1 = j
      · have miss : k ≠ j := fun h => same (hit.trans h.symm)
        rw [put, if_neg same, look, if_pos hit, look, if_pos hit, if_neg miss]
      · simp [put, look, same, hit, ih]

theorem get_set (t : Table κ ρ) (k j : κ) (r : ρ) : (t.set k r).get j = if k = j then r else t.get j :=
  look_put k j r t.rows

@[simp] theorem get_set_self (t : Table κ ρ) (k : κ) (r : ρ) : (t.set k r).get k = r := by
  rw [get_set, if_pos rfl]

theorem get_set_of_ne (t : Table κ ρ) {k j : κ} (r : ρ) (h : k ≠ j) : (t.set k r).get j = t.get j := by
  rw [get_set, if_neg h]

/-- Mapping the rows maps what is read, if absent rows stay absent. -/
theorem get_mapRows (t : Table κ ρ) (f : κ → ρ → ρ) (k : κ) (keeps : f k default = default) :
    (t.mapRows f).get k = f k (t.get k) := by
  obtain ⟨rows, nodup⟩ := t
  change look k (rows.map fun x => (x.1, f x.1 x.2)) = f k (look k rows)
  clear nodup
  induction rows with
  | nil => simp [look, keeps]
  | cons x rest ih =>
    by_cases hit : x.1 = k
    · subst hit
      simp [look]
    · simp [look, hit, ih]

theorem count_set (t : Table κ ρ) (p : κ → ρ → Bool) (k : κ) (r : ρ) (blank : p k default = false) :
    (t.set k r).count p + (p k (t.get k)).toNat = t.count p + (p k r).toNat := by
  obtain ⟨rows, nodup⟩ := t
  change (put k r rows).countP _ + (p k (look k rows)).toNat = rows.countP _ + (p k r).toNat
  induction rows with
  | nil => cases h : p k r <;> simp [put, look, blank, h]
  | cons x rest ih =>
    rw [List.map_cons, List.nodup_cons] at nodup
    by_cases same : x.1 = k
    · subst same
      simp only [put, look, if_true, List.countP_cons]
      cases p x.1 r <;> cases p x.1 x.2 <;> simp
    · have tail := ih nodup.2
      simp only [put, look, same, if_false, List.countP_cons]
      omega

theorem get_of_mem (t : Table κ ρ) {x : κ × ρ} (member : x ∈ t.rows) : t.get x.1 = x.2 := by
  obtain ⟨rows, nodup⟩ := t
  change look x.1 rows = x.2
  induction rows with
  | nil => cases member
  | cons y rest ih =>
    rw [List.map_cons, List.nodup_cons] at nodup
    rcases List.mem_cons.mp member with rfl | later
    · rw [look, if_pos rfl]
    · have other : y.1 ≠ x.1 := fun same =>
        nodup.1 (same ▸ List.mem_map_of_mem later)
      rw [look, if_neg other]
      exact ih nodup.2 later

theorem count_le_of_get (t : Table κ ρ) {p q : κ → ρ → Bool}
    (h : ∀ k, p k (t.get k) = true → q k (t.get k) = true) : t.count p ≤ t.count q := by
  refine List.countP_mono_left fun x member => ?_
  have := h x.1
  rwa [t.get_of_mem member] at this

end Table

end Agentnet.Lib
