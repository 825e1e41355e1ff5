import Mathlib.Data.List.Range
import Mathlib.Tactic.Ring

/-!
# Arrays in raster order

An array with several coordinates is kept as one list, row after row, plane after plane. A loop over
the coordinates that writes one element after the other is a `flatMap` over ranges, and where an
element ends up is a number in mixed radix.

## Main results

* `Raster.getElem?_flatMap_range` — the elements of blocks of the same length
* `Raster.getElem?_swaps` — swapping from both ends turns a stretch round
-/

namespace Raster

variable {α : Type}

/-! ### Blocks -/

theorem length_flatMap_range {g : ℕ → List α} {n k : ℕ} (hlen : ∀ i < n, (g i).length = k) :
    ((List.range n).flatMap g).length = n * k := by
  induction n with
  | zero => simp
  | succ n ih =>
    rw [List.range_succ, List.flatMap_append, List.length_append, List.flatMap_singleton,
      ih fun i hi => hlen i (by omega), hlen n (by omega)]
    ring

/-- **The elements of blocks** of the same length. -/
theorem getElem?_flatMap_range {g : ℕ → List α} {n k : ℕ} (hlen : ∀ i < n, (g i).length = k)
    {i j : ℕ} (hi : i < n) (hj : j < k) :
    ((List.range n).flatMap g)[j + i * k]? = (g i)[j]? := by
  induction n with
  | zero => omega
  | succ n ih =>
    have hlength := length_flatMap_range fun i hi => hlen i (Nat.lt_succ_of_lt hi)
    rw [List.range_succ, List.flatMap_append, List.flatMap_singleton]
    rcases Nat.lt_succ_iff_lt_or_eq.mp hi with hlt | rfl
    · have hbound : j + i * k < n * k := by
        calc j + i * k < k + i * k := by omega
          _ = (i + 1) * k := by ring
          _ ≤ n * k := Nat.mul_le_mul_right k hlt
      rw [List.getElem?_append_left (by rwa [hlength])]
      exact ih (fun i hi => hlen i (Nat.lt_succ_of_lt hi)) hlt
    · rw [List.getElem?_append_right (by rw [hlength]; omega), hlength, Nat.add_sub_cancel]

/-! ### Turning a stretch round -/

/-- Swap two elements. -/
def swap (l : List α) (i j : ℕ) : List α :=
  match l[i]?, l[j]? with
  | some a, some b => (l.set i b).set j a
  | _, _ => l

/-- Swap `n` times, with one index going up and the other one going down. -/
def swaps : ℕ → List α → ℕ → ℕ → List α
  | 0, l, _, _ => l
  | n + 1, l, i, j => swaps n (swap l i j) (i + 1) (j - 1)

theorem length_swap (l : List α) (i j : ℕ) : (swap l i j).length = l.length := by
  rw [swap]
  split <;> simp

theorem length_swaps (n : ℕ) (l : List α) (i j : ℕ) : (swaps n l i j).length = l.length := by
  induction n generalizing l i j with
  | zero => rfl
  | succ n ih => rw [swaps, ih, length_swap]

theorem getElem?_swap {l : List α} {i j : ℕ} (hi : i < l.length) (hj : j < l.length) (m : ℕ) :
    (swap l i j)[m]? = if m = i then l[j]? else if m = j then l[i]? else l[m]? := by
  rw [swap, List.getElem?_eq_getElem hi, List.getElem?_eq_getElem hj]
  simp only [List.getElem?_set, List.length_set]
  by_cases hmj : j = m
  · subst hmj
    by_cases hmi : j = i
    · subst hmi
      simp [hj]
    · simp [hj, hmi]
  · by_cases hmi : i = m
    · subst hmi
      simp [hmj, hi]
    · simp [hmj, hmi, Ne.symm hmi, Ne.symm hmj]

/-- **Swapping from both ends** turns a stretch round: what is in the two ends changes places, and
the rest stays. -/
theorem getElem?_swaps {n i j : ℕ} {l : List α} (hj : j < l.length) (hn : i + 2 * n ≤ j + 1)
    (m : ℕ) : (swaps n l i j)[m]? =
      if i ≤ m ∧ m < i + n ∨ j < m + n ∧ m ≤ j then l[i + j - m]? else l[m]? := by
  induction n generalizing l i j with
  | zero =>
    rw [swaps, if_neg (by omega)]
  | succ n ih =>
    have hi : i < l.length := by omega
    rw [swaps]
    rcases Nat.eq_zero_or_pos n with rfl | hpos
    · -- the last swap
      rw [swaps, getElem?_swap hi hj]
      by_cases hmi : m = i
      · subst hmi
        rw [if_pos rfl, if_pos (by omega), Nat.add_sub_cancel_left]
      · rw [if_neg hmi]
        by_cases hmj : m = j
        · subst hmj
          rw [if_pos rfl, if_pos (by omega), Nat.add_sub_cancel]
        · rw [if_neg hmj, if_neg (by omega)]
    · rw [ih (by rw [length_swap]; omega) (by omega), getElem?_swap hi hj, getElem?_swap hi hj]
      have hsum : i + 1 + (j - 1) = i + j := by omega
      rw [hsum]
      by_cases hinner : i + 1 ≤ m ∧ m < i + 1 + n ∨ j - 1 < m + n ∧ m ≤ j - 1
      · rw [if_pos hinner, if_neg (by omega), if_neg (by omega), if_pos (by omega)]
      · rw [if_neg hinner]
        by_cases hmi : m = i
        · subst hmi
          rw [if_pos rfl, if_pos (by omega), Nat.add_sub_cancel_left]
        · rw [if_neg hmi]
          by_cases hmj : m = j
          · subst hmj
            rw [if_pos rfl, if_pos (by omega), Nat.add_sub_cancel]
          · rw [if_neg hmj, if_neg (by omega)]

/-- A stretch that is turned round as a whole: the element in its middle stays where it is. -/
theorem getElem?_swaps_half {l : List α} {i k : ℕ} (hk : i + k ≤ l.length) (m : ℕ) :
    (swaps (k / 2) l i (i + k - 1))[m]? =
      if i ≤ m ∧ m < i + k then l[i + (i + k - 1) - m]? else l[m]? := by
  rcases Nat.eq_zero_or_pos k with rfl | hpos
  · rw [Nat.zero_div, swaps, if_neg (by omega)]
  · rw [getElem?_swaps (by omega) (by omega)]
    by_cases hm : i ≤ m ∧ m < i + k
    · rw [if_pos hm]
      by_cases hends : i ≤ m ∧ m < i + k / 2 ∨ i + k - 1 < m + k / 2 ∧ m ≤ i + k - 1
      · rw [if_pos hends]
      · have hmiddle : i + (i + k - 1) - m = m := by omega
        rw [if_neg hends, hmiddle]
    · rw [if_neg hm, if_neg (by omega)]

end Raster
