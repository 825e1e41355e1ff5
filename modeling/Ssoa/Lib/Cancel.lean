import Mathlib.Data.List.Chain

/-!
# Cancelling neighbours in a list

An element of a list may cancel with the one after it. `cancel` goes through a list and takes both
out wherever that is so, also where they are neighbours only because others were taken out.

## Main results

* `Neighbours.reduced_cancel` — no neighbours cancel in the result
* `Neighbours.cancel_of_reduced` — where none do, nothing is taken out
-/

namespace Neighbours

variable {α : Type*} {cancels : α → α → Bool} {l : List α} {x : α}

/-- No neighbours cancel. -/
def Reduced (cancels : α → α → Bool) (l : List α) : Prop :=
  l.IsChain fun x y => cancels x y = false

instance : Decidable (Reduced cancels l) := inferInstanceAs (Decidable (l.IsChain _))

/-- The next element is put behind the others, or cancels with the last of them. -/
def step (cancels : α → α → Bool) (done : List α) (x : α) : List α :=
  if done.getLast?.any fun last => cancels last x then done.dropLast else done ++ [x]

/-- The list after all that cancels was taken out, from its beginning on. -/
def cancel (cancels : α → α → Bool) (l : List α) : List α := l.foldl (step cancels) []

theorem Reduced.step (h : Reduced cancels l) : Reduced cancels (step cancels l x) := by
  unfold Neighbours.step
  split
  · exact h.dropLast
  · next hx =>
    refine h.append (List.isChain_singleton x) fun last hlast y hy => ?_
    obtain rfl : x = y := Option.some.inj hy
    rw [Option.mem_def.mp hlast] at hx
    simpa using hx

/-- **No neighbours cancel in the result.** -/
theorem reduced_cancel (cancels : α → α → Bool) (l : List α) :
    Reduced cancels (cancel cancels l) := by
  have hrun (done : List α) (h : Reduced cancels done) :
      Reduced cancels (l.foldl (Neighbours.step cancels) done) := by
    induction l generalizing done with
    | nil => exact h
    | cons x l ih => exact ih _ h.step
  exact hrun [] List.isChain_nil

/-- **Where no neighbours cancel, nothing is taken out.** -/
theorem cancel_of_reduced (h : Reduced cancels l) : cancel cancels l = l := by
  have hrun (done : List α) (hdone : Reduced cancels (done ++ l)) :
      l.foldl (Neighbours.step cancels) done = done ++ l := by
    clear h
    induction l generalizing done with
    | nil => rw [List.foldl_nil, List.append_nil]
    | cons x l ih =>
      have hstep : Neighbours.step cancels done x = done ++ [x] := by
        refine if_neg fun hany => ?_
        cases hlast : done.getLast? with
        | none =>
          rw [hlast] at hany
          cases hany
        | some last =>
          rw [hlast, Option.any_some, (List.isChain_append.mp hdone).2.2 last hlast x rfl] at hany
          cases hany
      rw [List.foldl_cons, hstep, ih (done ++ [x]) (by simpa using hdone), List.append_assoc]
      rfl
  exact hrun [] h

/-- Nothing is put in. -/
theorem mem_of_mem_cancel (h : x ∈ cancel cancels l) : x ∈ l := by
  have hrun (done : List α) (hx : x ∈ l.foldl (Neighbours.step cancels) done) :
      x ∈ done ∨ x ∈ l := by
    clear h
    induction l generalizing done with
    | nil => exact .inl hx
    | cons y l ih =>
      rcases ih _ hx with hx | hx
      · unfold Neighbours.step at hx
        split at hx
        · exact .inl ((List.dropLast_prefix _).subset hx)
        · rcases List.mem_append.mp hx with hx | hx
          · exact .inl hx
          · exact .inr (List.mem_singleton.mp hx ▸ List.mem_cons_self)
      · exact .inr (List.mem_cons_of_mem _ hx)
  exact (hrun [] h).resolve_left List.not_mem_nil

theorem length_cancel_le (cancels : α → α → Bool) (l : List α) :
    (cancel cancels l).length ≤ l.length := by
  have hrun (done : List α) :
      (l.foldl (Neighbours.step cancels) done).length ≤ done.length + l.length := by
    induction l generalizing done with
    | nil => exact Nat.le_refl _
    | cons x l ih =>
      have hstep : (Neighbours.step cancels done x).length ≤ done.length + 1 := by
        unfold Neighbours.step
        split
        · rw [List.length_dropLast]
          omega
        · exact Nat.le_of_eq List.length_append
      calc (l.foldl (Neighbours.step cancels) (Neighbours.step cancels done x)).length
          ≤ (Neighbours.step cancels done x).length + l.length := ih _
        _ ≤ done.length + 1 + l.length := Nat.add_le_add_right hstep _
        _ = done.length + (x :: l).length := by rw [List.length_cons]; omega
  exact (hrun []).trans_eq (Nat.zero_add _)

end Neighbours
