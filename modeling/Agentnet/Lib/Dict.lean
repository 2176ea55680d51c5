import Mathlib.Algebra.BigOperators.Group.List.Basic
import Mathlib.Data.List.AList
import Mathlib.Tactic.Ring
import Mathlib.Algebra.Order.BigOperators.Group.List

/-! Finite maps that are also counted and filtered. -/

namespace Agentnet.Lib

variable {K V : Type} [DecidableEq K]

/-- A finite map. -/
abbrev Dict (K V : Type) := AList fun _ : K => V

namespace Dict

/-- The entries that pass `p`. -/
def keep (d : Dict K V) (p : K → V → Bool) : Dict K V :=
  ⟨d.entries.filter fun e => p e.1 e.2, d.nodupKeys.sublist List.filter_sublist⟩

/-- Every value through `f`. -/
def mapValues (d : Dict K V) (f : K → V → V) : Dict K V :=
  ⟨d.entries.map fun e => ⟨e.1, f e.1 e.2⟩, by simpa [List.NodupKeys, List.keys, Function.comp_def] using d.nodupKeys⟩

/-- How many entries pass `p`. -/
def count (d : Dict K V) (p : K → V → Bool) : Nat := d.entries.countP fun e => p e.1 e.2

variable {d : Dict K V} {p q : K → V → Bool} {k : K} {v : V}

theorem lookup_keep : (keep d p).lookup k = (d.lookup k).filter (p k) := by
  ext v
  rw [Option.filter_eq_some_iff, ← Option.mem_def, ← Option.mem_def, AList.mem_lookup_iff, AList.mem_lookup_iff]
  simp only [keep, List.mem_filter]

theorem lookup_mapValues {f : K → V → V} : (mapValues d f).lookup k = (d.lookup k).map (f k) := by
  ext v
  rw [Option.map_eq_some_iff, ← Option.mem_def, AList.mem_lookup_iff]
  simp only [← Option.mem_def, AList.mem_lookup_iff, mapValues, List.mem_map, Sigma.exists]
  constructor
  · rintro ⟨a, b, mem, same⟩
    cases same
    exact ⟨b, mem, rfl⟩
  · rintro ⟨b, mem, rfl⟩
    exact ⟨k, b, mem, rfl⟩

theorem lookup_of_keep (h : (keep d p).lookup k = some v) : d.lookup k = some v ∧ p k v = true := by
  rw [lookup_keep, Option.filter_eq_some_iff] at h
  exact h

variable {a : K} {b : V}

/-- An entry after an erase was there before, under another key. -/
theorem lookup_of_erase (h : (d.erase a).lookup k = some v) : k ≠ a ∧ d.lookup k = some v := by
  by_cases same : k = a
  · subst same
    rw [AList.lookup_erase] at h
    cases h
  · exact ⟨same, (AList.lookup_erase_ne same).symm.trans h⟩

/-- An entry after an insert is the new one or was there before. -/
theorem lookup_insert_cases (h : (d.insert a b).lookup k = some v) :
    (k = a ∧ v = b) ∨ (k ≠ a ∧ d.lookup k = some v) := by
  by_cases same : k = a
  · subst same
    rw [AList.lookup_insert] at h
    exact .inl ⟨rfl, (Option.some.inj h).symm⟩
  · exact .inr ⟨same, (AList.lookup_insert_ne same).symm.trans h⟩

theorem entries_erase (a : K) (d : Dict K V) : (d.erase a).entries = d.entries.kerase a := rfl

theorem count_erase_le : count (d.erase a) p ≤ count d p := (List.kerase_sublist a d.entries).countP_le

theorem count_insert : count (d.insert a b) p = count (d.erase a) p + if p a b = true then 1 else 0 := by
  simp only [count, AList.entries_insert, entries_erase, List.countP_cons]

theorem count_of_lookup (h : d.lookup k = some v) :
    count d p = count (d.erase k) p + if p k v = true then 1 else 0 := by
  have stored : ⟨k, v⟩ ∈ d.entries := AList.mem_lookup_iff.mp h
  obtain ⟨b, l, l', -, parts, rest⟩ := List.exists_of_kerase (List.mem_keys_of_mem stored)
  have found : d.lookup k = some b := by
    rw [← Option.mem_def, AList.mem_lookup_iff, parts]
    exact List.mem_append_right _ List.mem_cons_self
  obtain rfl : b = v := Option.some.inj (found.symm.trans h)
  simp only [count, entries_erase, rest]
  rw [parts, List.countP_append, List.countP_append, List.countP_cons, Nat.add_assoc]

theorem count_insert_same (h : d.lookup k = some v) (same : p k b = p k v) : count (d.insert k b) p = count d p := by
  rw [count_insert, count_of_lookup h, same]

end Dict

end Agentnet.Lib
