import Mathlib.Algebra.Order.Floor.Div
import Mathlib.Data.List.Dedup
import Mathlib.Data.List.Rotate
import Mathlib.Tactic.Common

/-!
# Taking turns

The elements of a list have their turns one after the other, from some position on and round and
round. A whole round is a rotation of the list, so in a list without duplicates every element has
one turn in it, and in a number of turns that is not a whole number of rounds the shares differ by
one at most.

Who takes turns may change: newcomers go to the end of the list, and any others may leave it. The
list is then in the order of arrival, in which somebody who left and came back stands where they
came last.

## Main results

* `Rotation.ByArrival.push`, `Rotation.ByArrival.sublist` — newcomers and leavers keep the order
* `Rotation.turns_round` — a whole round
* `Rotation.count_turns` — how many turns an element has
* `Rotation.getElem?_erase_mod` — whose turn it is after an element is erased
-/

namespace Rotation

variable {α : Type*} {l : List α}

/-! ### The order of arrival -/

section Arrival

variable [DecidableEq α] {a : α} {arrivals : List α}

/-- The list is in the order of the last arrival of each of its elements, and has none twice. -/
def ByArrival (l arrivals : List α) : Prop := l = arrivals.dedup.filter (· ∈ l)

theorem byArrival_nil (arrivals : List α) : ByArrival [] arrivals := by
  simp [ByArrival]

theorem ByArrival.nodup (h : ByArrival l arrivals) : l.Nodup := by
  rw [h]
  exact (List.nodup_dedup arrivals).filter _

theorem dedup_append_singleton (arrivals : List α) (a : α) :
    (arrivals ++ [a]).dedup = arrivals.dedup.filter (· ≠ a) ++ [a] := by
  induction arrivals with
  | nil => rfl
  | cons b arrivals ih =>
    rw [List.cons_append]
    by_cases hmem : b ∈ arrivals
    · rw [List.dedup_cons_of_mem (List.mem_append_left _ hmem), List.dedup_cons_of_mem hmem, ih]
    · rw [List.dedup_cons_of_notMem hmem]
      by_cases hb : b = a
      · -- the earlier arrival of the last one does not count
        rw [List.dedup_cons_of_mem (by simp [hb]), ih, List.filter_cons_of_neg (by simp [hb])]
      · rw [List.dedup_cons_of_notMem (by simp [hmem, hb]), ih,
          List.filter_cons_of_pos (by simp [hb]), List.cons_append]

/-- A newcomer goes to the end. -/
theorem ByArrival.push (h : ByArrival l arrivals) (ha : a ∉ l) :
    ByArrival (l ++ [a]) (arrivals ++ [a]) := by
  have hbefore : (arrivals.dedup.filter (· ≠ a)).filter (· ∈ l ++ [a]) = l := by
    rw [List.filter_filter]
    refine Eq.trans (List.filter_congr fun b _ => ?_) h.symm
    by_cases hb : b = a
    · simp [hb, ha]
    · simp [hb]
  rw [ByArrival, dedup_append_singleton, List.filter_append, hbefore,
    List.filter_cons_of_pos (by simp), List.filter_nil]

theorem filter_mem_of_sublist {l' : List α} (h : l.Nodup) (hsub : l'.Sublist l) :
    l.filter (· ∈ l') = l' := by
  have hstay : l'.Sublist (l.filter (· ∈ l')) := by
    have hfilter := hsub.filter (· ∈ l')
    rwa [List.filter_eq_self.mpr (by simp)] at hfilter
  have hle : (l.filter (· ∈ l')).length ≤ l'.length := by
    refine ((h.filter _).subperm fun b hb => ?_).length_le
    exact of_decide_eq_true (List.mem_filter.mp hb).2
  exact (hstay.eq_of_length_le hle).symm

/-- Whoever stays keeps the place before those who came later. -/
theorem ByArrival.sublist (h : ByArrival l arrivals) {l' : List α} (hsub : l'.Sublist l) :
    ByArrival l' arrivals := by
  have hstay : (arrivals.dedup.filter (· ∈ l)).filter (· ∈ l') =
      arrivals.dedup.filter (· ∈ l') := by
    rw [List.filter_filter]
    exact List.filter_congr fun b _ => by simpa using fun hb => hsub.subset hb
  rw [← h, filter_mem_of_sublist h.nodup hsub] at hstay
  exact hstay

end Arrival

/-! ### Turns -/

/-- The elements whose turn it is, from position `c` on, for a number of turns. -/
def turns (l : List α) (c : ℕ) : ℕ → List α
  | 0 => []
  | m + 1 => l[c % l.length]?.toList ++ turns l (c + 1) m

theorem turns_succ {c : ℕ} {a : α} (h : l[c % l.length]? = some a) (m : ℕ) :
    turns l c (m + 1) = a :: turns l (c + 1) m := by
  rw [turns, h]
  rfl

theorem exists_getElem? (h : l ≠ []) (c : ℕ) : ∃ a, l[c % l.length]? = some a :=
  ⟨_, List.getElem?_eq_getElem (Nat.mod_lt c (List.length_pos_iff.mpr h))⟩

theorem length_turns (h : l ≠ []) (c m : ℕ) : (turns l c m).length = m := by
  induction m generalizing c with
  | zero => rfl
  | succ m ih =>
    obtain ⟨a, ha⟩ := exists_getElem? h c
    rw [turns_succ ha, List.length_cons, ih]

theorem getElem?_turns (h : l ≠ []) {c m i : ℕ} (hi : i < m) :
    (turns l c m)[i]? = l[(c + i) % l.length]? := by
  induction m generalizing c i with
  | zero => omega
  | succ m ih =>
    obtain ⟨a, ha⟩ := exists_getElem? h c
    rw [turns_succ ha]
    cases i with
    | zero => exact ha.symm
    | succ i =>
      rw [List.getElem?_cons_succ, ih (Nat.lt_of_succ_lt_succ hi), Nat.succ_add_eq_add_succ]

theorem turns_add (l : List α) (c m k : ℕ) :
    turns l c (m + k) = turns l c m ++ turns l (c + m) k := by
  induction m generalizing c with
  | zero => simp [turns]
  | succ m ih =>
    rw [Nat.succ_add_eq_add_succ, Nat.add_succ, turns, ih, turns, List.append_assoc,
      Nat.succ_add_eq_add_succ]

/-- The position counts modulo the length. -/
theorem turns_mod (l : List α) (c m : ℕ) : turns l (c % l.length) m = turns l c m := by
  induction m generalizing c with
  | zero => rfl
  | succ m ih =>
    rw [turns, turns, Nat.mod_mod, ← ih (c % l.length + 1), Nat.mod_add_mod, ih]

/-- Turns that come one after the other are turns from a later position on. -/
theorem eq_turns_of_infix (h : l ≠ []) {c m : ℕ} {w : List α} (hw : w <:+: turns l c m) :
    ∃ c', w = turns l c' w.length := by
  obtain ⟨s, t, heq⟩ := hw
  have hlen := congrArg List.length heq
  rw [length_turns h, List.length_append, List.length_append] at hlen
  rw [← hlen, turns_add, turns_add] at heq
  have hs : s.length = (turns l c s.length).length := (length_turns h c s.length).symm
  obtain ⟨hsw, -⟩ := List.append_inj heq (by simp [length_turns h])
  exact ⟨_, (List.append_inj hsw hs).2⟩

/-- **A whole round** is a rotation of the list. -/
theorem turns_round (l : List α) (c : ℕ) : turns l c l.length = l.rotate c := by
  by_cases h : l = []
  · simp [h, turns]
  refine List.ext_getElem? fun i => ?_
  by_cases hi : i < l.length
  · rw [getElem?_turns h hi, List.getElem?_rotate hi, Nat.add_comm]
  · rw [List.getElem?_eq_none (by rw [length_turns h]; omega),
      List.getElem?_eq_none (by rw [List.length_rotate]; omega)]

section Count

variable [BEq α] [LawfulBEq α] {a : α}

theorem count_round (h : l.Nodup) (ha : a ∈ l) (c : ℕ) : (turns l c l.length).count a = 1 := by
  rw [turns_round, (List.rotate_perm l c).count_eq, List.count_eq_one_of_mem h ha]

/-- In less than a round nobody has two turns. -/
theorem count_turns_le_one (h : l.Nodup) (ha : a ∈ l) (c : ℕ) {m : ℕ} (hm : m ≤ l.length) :
    (turns l c m).count a ≤ 1 := by
  have hround := count_round h ha c
  rw [← Nat.add_sub_cancel' hm, turns_add, List.count_append] at hround
  omega

theorem count_rounds_add (h : l.Nodup) (ha : a ∈ l) (c q r : ℕ) :
    (turns l c (l.length * q + r)).count a =
      q + (turns l (c + l.length * q) r).count a := by
  induction q generalizing c with
  | zero => simp
  | succ q ih =>
    have hsplit : l.length * (q + 1) + r = l.length + (l.length * q + r) := by
      rw [Nat.mul_succ]
      omega
    rw [hsplit, turns_add, List.count_append, count_round h ha, ih, Nat.mul_succ, Nat.add_assoc c,
      Nat.add_comm l.length, ← Nat.add_assoc 1, Nat.add_comm 1]

/-- **How many turns an element has**: the number of rounds, rounded down or up. -/
theorem count_turns (h : l.Nodup) (ha : a ∈ l) (c m : ℕ) :
    (turns l c m).count a = m / l.length ∨ (turns l c m).count a = m ⌈/⌉ l.length := by
  have hpos : 0 < l.length := List.length_pos_of_mem ha
  have hcount := count_rounds_add h ha c (m / l.length) (m % l.length)
  rw [Nat.div_add_mod] at hcount
  have hle := count_turns_le_one h ha (c + l.length * (m / l.length)) (Nat.mod_lt m hpos).le
  rw [hcount]
  rcases Nat.le_one_iff_eq_zero_or_eq_one.mp hle with hzero | hone
  · rw [hzero]
    exact .inl rfl
  · -- with a turn in the last round, that round is not empty
    have hrest : m % l.length ≠ 0 := by
      intro hnil
      rw [hnil] at hone
      simp [turns] at hone
    right
    rw [hone, Nat.ceilDiv_eq_add_pred_div]
    refine (Nat.div_eq_of_lt_le ?_ ?_).symm
    · have hdiv := Nat.div_add_mod m l.length
      rw [Nat.add_mul, Nat.one_mul, Nat.mul_comm]
      omega
    · have hdiv := Nat.div_add_mod m l.length
      have hlt := Nat.mod_lt m hpos
      rw [Nat.add_mul, Nat.add_mul, Nat.one_mul, Nat.mul_comm]
      omega

/-! ### Erasing an element -/

/-- **Whose turn it is after an erasure**, when the position is only reduced modulo the new length:
the same element's, unless the erased one stood before it and more than that element is left. -/
theorem getElem?_erase_mod (h : l.Nodup) {b : α} (hb : b ∈ l) (hne : a ≠ b) {c : ℕ}
    (hc : l[c]? = some a) :
    (l.erase b)[c % (l.erase b).length]? = some a ↔ ¬ (l.idxOf b < c ∧ l.length ≠ 2) := by
  have hlt : c < l.length := (List.getElem?_eq_some_iff.mp hc).1
  have hidx : l.idxOf b < l.length := List.idxOf_lt_length_iff.mpr hb
  have hpos : l.idxOf b ≠ c := by
    rintro rfl
    rw [List.getElem?_idxOf hb] at hc
    exact hne (Option.some.inj hc).symm
  -- the element stands at its position and at no other
  have honly : ∀ i, l[i]? = some a ↔ c = i := fun i => by
    rw [← hc, eq_comm, List.getElem?_inj hlt h]
  rw [List.length_erase_of_mem hb, List.erase_eq_eraseIdx_of_idxOf rfl, List.getElem?_eraseIdx]
  rcases Nat.lt_or_ge c (l.length - 1) with hin | hlast
  · rw [Nat.mod_eq_of_lt hin]
    split <;> rw [honly] <;> omega
  · have hend : c = l.length - 1 := by omega
    rw [hend, Nat.mod_self]
    split <;> rw [honly] <;> omega

end Count

end Rotation
