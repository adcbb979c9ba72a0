import Mathlib.Data.List.Basic
import OpenRelay.Target.Targets

/-!
# Places of targets

A place that is below the count names a target, and the list of all targets has it there.

* `Range.getElem?_toList`, `Targets.getElem?_toList`: places are the positions in the list of all
  addresses or targets.
-/

namespace OpenRelay

namespace Range

variable (r : Range)

theorem isSome_nth? (i : Nat) : (r.nth? i).isSome ↔ i < r.count := by
  unfold nth?
  split <;> simp_all

/-- Places are the positions in the list of all addresses. -/
theorem getElem?_toList (i : Nat) : r.toList[i]? = r.nth? i := by
  -- every place below the count has an address, so that none is left out of the list
  have hmap : r.toList = (List.range r.count).map fun k => (r.nth? k).getD default := by
    rw [toList, take, Nat.sub_zero, Nat.min_self, ← List.filterMap_eq_map]
    refine List.filterMap_congr fun k hk => ?_
    obtain ⟨x, hx⟩ := Option.isSome_iff_exists.1 ((r.isSome_nth? k).2 (List.mem_range.1 hk))
    simp [hx]
  rw [hmap, List.getElem?_map]
  by_cases h : i < r.count
  · obtain ⟨x, hx⟩ := Option.isSome_iff_exists.1 ((r.isSome_nth? i).2 h)
    simp [List.getElem?_range h, hx]
  · have hnone : r.nth? i = none := by
      rw [← Option.not_isSome_iff_eq_none, isSome_nth?]
      exact h
    rw [hnone, List.getElem?_eq_none (by simpa using h)]
    rfl

end Range

namespace Targets

variable (t : Targets)

theorem isSome_nth? (i : Nat) : (t.nth? i).isSome ↔ i < t.count := by
  cases t with
  | range r => exact r.isSome_nth? i
  | list xs => simp [nth?, count]

theorem exists_nth? {i : Nat} (h : i < t.count) : ∃ x, t.nth? i = some x :=
  Option.isSome_iff_exists.1 ((t.isSome_nth? i).2 h)

/-- Places are the positions in the list of all targets. -/
theorem getElem?_toList (i : Nat) : t.toList[i]? = t.nth? i := by
  cases t with
  | range r => exact r.getElem?_toList i
  | list xs => rfl

theorem length_toList : t.toList.length = t.count := by
  have h : ∀ i, i < t.toList.length ↔ i < t.count := fun i => by
    rw [← isSome_nth?, ← getElem?_toList, Option.isSome_iff_exists]
    exact ⟨fun h => ⟨_, List.getElem?_eq_getElem h⟩,
      fun ⟨_, h⟩ => (List.getElem?_eq_some_iff.1 h).1⟩
  have hle := h t.count
  have hge := h t.toList.length
  omega

end Targets

end OpenRelay
