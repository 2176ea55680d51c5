import Mathlib.Order.Lattice

/-! Pages of a list that is sorted by a key: what comes after the last item of a page. -/

namespace Agentnet.Lib

section

variable {α β : Type} [LinearOrder β] {key : α → β} {front tail items : List α} {last : α} {after : β} {q : α → Bool}

/-- In a list sorted by the key, what is above an entry's key is what comes after it. -/
theorem filter_after (order : (front ++ last :: tail).Pairwise fun x y => key x < key y) :
    (front ++ last :: tail).filter (fun x => key last < key x) = tail := by
  rw [List.pairwise_append] at order
  obtain ⟨-, rest, before⟩ := order
  have first : front.filter (fun x => key last < key x) = [] :=
    List.filter_eq_nil_iff.mpr fun x mem => by simpa using le_of_lt (before x mem last (by simp))
  have second : tail.filter (fun x => key last < key x) = tail :=
    List.filter_eq_self.mpr fun x mem => by simpa using (List.pairwise_cons.mp rest).1 x mem
  simp [first, second]

/-- The items of a query after the last one of its first part. -/
theorem filter_next (sorted : items.Pairwise fun x y => key x < key y)
    (parts : items.filter (fun x => after < key x && q x) = front ++ last :: tail) :
    items.filter (fun x => key last < key x && q x) = tail := by
  have order := sorted.filter fun x => decide (after < key x) && q x
  have inside : last ∈ items.filter (fun x => after < key x && q x) := parts ▸ (by simp)
  have later : after < key last := by
    simp only [List.mem_filter, Bool.and_eq_true, decide_eq_true_eq] at inside
    exact inside.2.1
  have sub : items.filter (fun x => key last < key x && q x) =
      (items.filter fun x => after < key x && q x).filter fun x => key last < key x := by
    rw [List.filter_filter]
    refine List.filter_congr fun x _ => ?_
    by_cases past : key last < key x
    · have past' := lt_trans later past
      simp [past, past']
    · simp [past]
  rw [parts] at sub order
  rw [sub, filter_after order]

end

end Agentnet.Lib
