import HdlModule.Search
import Mathlib.Order.Lattice

/-!
# Where a binary search ends

The search halves the places among ascending values until one is left. On the way, what stands in
front of the places that are left is not too large, and what stands behind them is. So it ends at
the last value that is not too large, and this is the value that is searched if it is there at all.

## Main definitions

* `LastNotAbove values value place`: the last value that is not above the given one

## Main results

* `lastNotAbove_narrow`: the search ends at the last value that is not too large
* `isOk_binarySearch_iff`: exactly the values that are there are found
-/

namespace HdlModule

variable {α : Type} [LinearOrder α] {values : Array α} {value : α}

theorem getElem_le_of_le (hvalues : values.toList.Pairwise (· < ·)) {i j : Nat} (hij : i ≤ j)
    (hj : j < values.size) : values[i] ≤ values[j] := by
  rcases Nat.lt_or_eq_of_le hij with hij | rfl
  · exact (List.pairwise_iff_getElem.1 hvalues i j (Nat.lt_trans hij hj) hj hij).le
  · exact le_rfl

/-- The place of the last value that is not above the given one, or the first place if all values
are above it. -/
structure LastNotAbove (values : Array α) (value : α) (place : Fin values.size) : Prop where
  not_above : place.val = 0 ∨ values[place] ≤ value
  above : ∀ j, ∀ hj : j < values.size, place.val < j → value < values[j]

/-- **The search ends at the last value that is not too large.** Of the places that are left, the
first is not too large, and what stands behind them is. -/
theorem lastNotAbove_narrow (hvalues : values.toList.Pairwise (· < ·)) {base size : Nat}
    (hsize : 0 < size) (hbound : base + size ≤ values.size)
    (hbase : base = 0 ∨ values[base] ≤ value)
    (habove : ∀ j, ∀ hj : j < values.size, base + size ≤ j → value < values[j]) :
    LastNotAbove values value (narrow values value base size hsize hbound) := by
  fun_induction narrow values value base size hsize hbound with
  | case1 base size hsize hbound hhalve hlt ih =>
    refine ih hbase fun j hj hle => ?_
    -- the lower half may have one place more than the upper one, whose values are larger still
    exact hlt.trans_le (getElem_le_of_le hvalues (by omega) hj)
  | case2 base size hsize hbound hhalve hle ih =>
    exact ih (Or.inr (not_lt.1 hle)) fun j hj hle => habove j hj (by omega)
  | case3 base size hsize hbound hhalve =>
    refine ⟨hbase, fun j hj hlt => habove j hj ?_⟩
    have hlt : base < j := hlt
    omega

/-- Where some value is not above the one that is searched, the search ends at the last such value,
and finds it or says to insert behind it. -/
theorem exists_binarySearch_eq (hvalues : values.toList.Pairwise (· < ·))
    (hsize : 0 < values.size) (hfirst : values[0] ≤ value) :
    ∃ place : Fin values.size, values[place] ≤ value ∧ LastNotAbove values value place ∧
      binarySearch values value =
        if values[place] = value then .ok place.val else .error (place.val + 1) := by
  have hbound : 0 + values.size ≤ values.size := Nat.le_of_eq (Nat.zero_add _)
  have hlast : LastNotAbove values value (narrow values value 0 values.size hsize hbound) :=
    lastNotAbove_narrow hvalues hsize hbound (Or.inl rfl) fun j hj hle => absurd hj (by omega)
  have hle : values[narrow values value 0 values.size hsize hbound] ≤ value := by
    rcases hlast.not_above with hzero | hle
    · simpa only [Fin.getElem_fin, hzero] using hfirst
    · exact hle
  refine ⟨_, hle, hlast, ?_⟩
  rw [binarySearch, dif_pos hsize]
  dsimp only
  split
  · rfl
  · next hne => exact if_pos (lt_of_le_of_ne hle hne)

/-- A value that is found stands at the place of the answer. -/
theorem getElem?_of_binarySearch {place : Nat} (h : binarySearch values value = .ok place) :
    values[place]? = some value := by
  unfold binarySearch at h
  split at h
  · next hsize =>
    dsimp only at h
    split at h
    · next hfound =>
      cases h
      rw [Array.getElem?_eq_getElem (Fin.isLt _)]
      exact congrArg some hfound
    · split at h <;> cases h
  · cases h

/-- **Exactly the values that are there are found.** -/
theorem isOk_binarySearch_iff (hvalues : values.toList.Pairwise (· < ·)) :
    (binarySearch values value).isOk = true ↔ value ∈ values := by
  constructor
  · intro hok
    cases hfound : binarySearch values value with
    | ok place => exact Array.mem_of_getElem? (getElem?_of_binarySearch hfound)
    | error place => rw [hfound] at hok; cases hok
  · intro hmem
    obtain ⟨i, hi, hvalue⟩ := Array.mem_iff_getElem.1 hmem
    have hfirst : values[0] ≤ value := hvalue ▸ getElem_le_of_le hvalues (Nat.zero_le i) hi
    obtain ⟨place, hle, hlast, hfound⟩ :=
      exists_binarySearch_eq hvalues (Nat.zero_lt_of_lt hi) hfirst
    have hbehind : i ≤ place := Nat.le_of_not_lt fun hlt =>
      absurd (hlast.above i hi hlt) (hvalue ▸ lt_irrefl _)
    have hge : value ≤ values[place] := hvalue ▸ getElem_le_of_le hvalues hbehind place.isLt
    rw [hfound, if_pos (le_antisymm hle hge)]
    rfl

/-- Exactly the values of a list that ascends are found in it. -/
theorem isOk_binarySearch_toArray_iff {values : List α} (hvalues : values.Pairwise (· < ·)) :
    (binarySearch values.toArray value).isOk = true ↔ value ∈ values := by
  rw [isOk_binarySearch_iff (by rwa [List.toList_toArray]), List.mem_toArray]

end HdlModule
