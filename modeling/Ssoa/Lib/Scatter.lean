import Mathlib.Algebra.GroupWithZero.Nat
import Mathlib.Data.List.TakeWhile
import Mathlib.Tactic.Common

/-!
# Reading a stream into a sequence of buffers

A buffer sequence is filled from a stream, one buffer after the other. Some bytes may have been
fetched before the buffers existed: each buffer then first takes what it can of those, and what is
left of it is filled from the stream.

## Main results

* `Scatter.fill_prefetch` — it makes no difference how many bytes had been fetched
* `Scatter.fill_whole_iff`, `Scatter.fill_whole_eq_none_iff` — what whole buffers are filled with,
  and when
-/

namespace Scatter

variable {γ κ β : Type*}

/-- Write a list over another from a position on, as far as it reaches. -/
def overwrite (dst : List β) (i : ℕ) (src : List β) : List β :=
  dst.take i ++ src.take (dst.length - i) ++ dst.drop (i + src.length)

@[simp] theorem length_overwrite (dst : List β) (i : ℕ) (src : List β) :
    (overwrite dst i src).length = dst.length := by
  simp only [overwrite, List.length_append, List.length_take, List.length_drop]
  omega

theorem overwrite_zero_of_length {dst src : List β} (h : src.length = dst.length) :
    overwrite dst 0 src = src := by
  simp [overwrite, ← h]

theorem overwrite_of_length_le {dst src : List β} {i : ℕ} (h : dst.length ≤ i) :
    overwrite dst i src = dst := by
  have hdrop : dst.drop (i + src.length) = [] := List.drop_eq_nil_of_le (by omega)
  simp [overwrite, List.take_of_length_le h, Nat.sub_eq_zero_of_le h, hdrop]

/-- Only what there is room for is written. -/
theorem overwrite_take (dst src : List β) {n : ℕ} (h : dst.length ≤ n) :
    overwrite dst 0 (src.take n) = overwrite dst 0 src := by
  by_cases hn : src.length ≤ n
  · rw [List.take_of_length_le hn]
  · have hlen : (src.take n).length = n := by simp; omega
    have h₁ : dst.drop (0 + (src.take n).length) = [] := List.drop_eq_nil_of_le (by omega)
    have h₂ : dst.drop (0 + src.length) = [] := List.drop_eq_nil_of_le (by omega)
    simp only [overwrite, h₁, h₂, List.take_take, Nat.sub_zero, Nat.min_eq_left h]

/-- Writing one list right after another is writing them together. -/
theorem overwrite_overwrite (dst s t : List β) :
    overwrite (overwrite dst 0 s) s.length t = overwrite dst 0 (s ++ t) := by
  by_cases h : dst.length ≤ s.length
  · rw [overwrite_of_length_le (by simpa using h)]
    have hs : overwrite dst 0 ((s ++ t).take s.length) = overwrite dst 0 (s ++ t) :=
      overwrite_take dst (s ++ t) h
    rwa [List.take_left'] at hs
    rfl
  · have hs : s.take dst.length = s := List.take_of_length_le (by omega)
    have hlen : (overwrite dst 0 s).length = dst.length := length_overwrite dst 0 s
    have hst : (s ++ t).take dst.length = s ++ t.take (dst.length - s.length) := by
      rw [List.take_append, hs]
    have hdrop : (s ++ dst.drop s.length).drop (s.length + t.length) =
        dst.drop (s.length + t.length) := by
      rw [List.drop_append, List.drop_eq_nil_of_le (by omega), List.nil_append, List.drop_drop]
      congr 1
      omega
    have htake : (s ++ dst.drop s.length).take s.length = s := List.take_left' rfl
    have heq : overwrite dst 0 s = s ++ dst.drop s.length := by simp [overwrite, hs]
    rw [overwrite, hlen, heq, htake, hdrop]
    simp [overwrite, hst]

/-! ### Regions of memory -/

/-- Something with bytes in it that can be overwritten and nothing else that matters but its
shape. -/
class Region (γ : Type*) (κ β : outParam Type*) where
  shape : γ → κ
  bytes : γ → List β
  /-- Copy a list over the bytes from a position on. -/
  write : γ → ℕ → List β → γ
  shape_write : ∀ g i src, shape (write g i src) = shape g
  bytes_write : ∀ g i src, bytes (write g i src) = overwrite (bytes g) i src
  ext : ∀ {g g'}, shape g = shape g' → bytes g = bytes g' → g = g'

open Region

variable [Region γ κ β]

/-- The number of bytes of a region. -/
def size (g : γ) : ℕ := (bytes g).length

@[simp] theorem size_write (g : γ) (i : ℕ) (src : List β) : size (write g i src) = size g := by
  simp [size, bytes_write]

/-- A buffer: a region, and the position from which it is to be filled. -/
abbrev Buffer (γ : Type*) := γ × ℕ

/-- Fill the buffers from the stream; `none` if it ends first. -/
def fill : List (Buffer γ) → List β → Option (List γ)
  | [], _ => some []
  | (g, i) :: buffers, stream =>
    let n := size g - i
    if stream.length < n then none
    else (fill buffers (stream.drop n)).map (write g i (stream.take n) :: ·)

/-- Give each region what it can take of the bytes that are there. -/
def prefetch : List γ → List β → List (Buffer γ)
  | [], _ => []
  | g :: gs, fetched => (write g 0 fetched, fetched.length) :: prefetch gs (fetched.drop (size g))

/-- The buffers that are whole regions. -/
def whole (gs : List γ) : List (Buffer γ) := gs.map fun g => (g, 0)

@[simp] theorem map_fst_whole (gs : List γ) : (whole gs).map Prod.fst = gs := by
  simp [whole, Function.comp_def]

theorem map_size_prefetch (gs : List γ) (fetched : List β) :
    (prefetch gs fetched).map (fun buffer => size buffer.1) = gs.map size := by
  induction gs generalizing fetched with
  | nil => rfl
  | cons g gs ih => rw [prefetch, List.map_cons, List.map_cons, size_write, ih]

/-- **It makes no difference how many bytes had been fetched.** -/
theorem fill_prefetch (gs : List γ) (fetched stream : List β) :
    fill (prefetch gs fetched) stream = fill (whole gs) (fetched ++ stream) := by
  induction gs generalizing fetched stream with
  | nil => rfl
  | cons g gs ih =>
    have hwrite : write (write g 0 fetched) fetched.length
        (stream.take (size g - fetched.length)) =
        write g 0 ((fetched ++ stream).take (size g)) := by
      have htake : (fetched ++ stream.take (size g - fetched.length)).take (size g) =
          (fetched ++ stream).take (size g) := by
        rw [List.take_append, List.take_append, List.take_take, Nat.min_self]
      refine ext (by rw [shape_write, shape_write, shape_write]) ?_
      rw [bytes_write, bytes_write, bytes_write, overwrite_overwrite, ← htake]
      exact (overwrite_take (bytes g) _ (Nat.le_refl _)).symm
    have hdrop : fetched.drop (size g) ++ stream.drop (size g - fetched.length) =
        (fetched ++ stream).drop (size g) := List.drop_append.symm
    show (if stream.length < size (write g 0 fetched) - fetched.length then none else _) =
      if (fetched ++ stream).length < size g - 0 then none else _
    rw [size_write, ih, hdrop, hwrite, Nat.sub_zero, List.length_append]
    split <;> split <;> first | rfl | omega

/-- **What whole buffers are filled with**: the regions keep their shapes and sizes, and their
bytes are the beginning of the stream. -/
theorem fill_whole_iff {gs gs' : List γ} {stream : List β} :
    fill (whole gs) stream = some gs' ↔ gs'.map shape = gs.map shape ∧
      gs'.map size = gs.map size ∧ (gs'.map bytes).flatten <+: stream := by
  induction gs generalizing gs' stream with
  | nil => cases gs' <;> simp [whole, fill]
  | cons g gs ih =>
    show (if stream.length < size g - 0 then none else
      (fill (whole gs) (stream.drop (size g))).map (write g 0 (stream.take (size g)) :: ·)) = _ ↔ _
    constructor
    · intro h
      split at h
      · simp at h
      · next hlen =>
        obtain ⟨rest, hrest, rfl⟩ := Option.map_eq_some_iff.mp h
        obtain ⟨hshape, hsize, hbytes⟩ := ih.mp hrest
        have hg : bytes (write g 0 (stream.take (size g))) = stream.take (size g) := by
          rw [bytes_write, overwrite_zero_of_length]
          simp only [List.length_take, size]
          simp only [Nat.sub_zero, size] at hlen
          omega
        refine ⟨by simp [hshape, shape_write], by simp [hsize], ?_⟩
        rw [List.map_cons, List.flatten_cons, hg]
        conv_rhs => rw [← List.take_append_drop (size g) stream]
        exact (List.prefix_append_right_inj _).mpr hbytes
    · rintro ⟨hshape, hsize, hbytes⟩
      obtain _ | ⟨g', gs'⟩ := gs'
      · simp at hshape
      obtain ⟨hs, hshape⟩ := List.cons_eq_cons.mp hshape
      obtain ⟨hn, hsize⟩ := List.cons_eq_cons.mp hsize
      obtain ⟨rest, rfl⟩ := hbytes
      have htake : ((g' :: gs').map bytes).flatten ++ rest =
          bytes g' ++ ((gs'.map bytes).flatten ++ rest) := by simp
      rw [htake, if_neg (by simp only [List.length_append]; simp only [size] at hn ⊢; omega)]
      have hdrop : (bytes g' ++ ((gs'.map bytes).flatten ++ rest)).drop (size g) =
          (gs'.map bytes).flatten ++ rest := List.drop_left' hn
      rw [hdrop, ih.mpr ⟨hshape, hsize, List.prefix_append _ _⟩, List.take_left' hn]
      have hg : write g 0 (bytes g') = g' :=
        ext (by rw [shape_write, hs]) (by rw [bytes_write, overwrite_zero_of_length hn])
      rw [Option.map_some, hg]

/-- **Filling whole buffers fails exactly when the stream ends before the last of them.** -/
theorem fill_whole_eq_none_iff {gs : List γ} {stream : List β} :
    fill (whole gs) stream = none ↔ stream.length < (gs.map size).sum := by
  induction gs generalizing stream with
  | nil => simp [whole, fill]
  | cons g gs ih =>
    show (if stream.length < size g - 0 then none else
      (fill (whole gs) (stream.drop (size g))).map (write g 0 (stream.take (size g)) :: ·)) =
        none ↔ _
    rw [List.map_cons, List.sum_cons, Nat.sub_zero]
    split
    · next hlt => exact iff_of_true rfl (by omega)
    · rw [Option.map_eq_none_iff, ih, List.length_drop]
      omega

/-- Each part of the beginning of a list is where the parts before it end. -/
theorem getElem_of_flatten_prefix {parts : List (List β)} {s : List β} (h : parts.flatten <+: s)
    {i : ℕ} (hi : i < parts.length) :
    parts[i] = (s.drop ((parts.map List.length).take i).sum).take parts[i].length := by
  induction parts generalizing s i with
  | nil => simp at hi
  | cons part parts ih =>
    obtain ⟨rest, rfl⟩ := h
    have hsplit : (part :: parts).flatten ++ rest = part ++ (parts.flatten ++ rest) := by simp
    rw [hsplit]
    cases i with
    | zero => simp
    | succ i =>
      have hrest : parts.flatten <+: parts.flatten ++ rest := List.prefix_append ..
      rw [List.map_cons, List.take_succ_cons, List.sum_cons, List.drop_length_add_append,
        List.getElem_cons_succ]
      exact ih hrest (Nat.lt_of_succ_lt_succ hi)

end Scatter
