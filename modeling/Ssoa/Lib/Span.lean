import Mathlib.Data.List.TakeWhile

/-!
# Splitting a list where a class of elements ends

Parsers that never look back split their input at the first element outside some class, or at the
first or last occurrence of a delimiter. The lemmas here say that each of these splits exists and
that it is the only one, so that two descriptions of the same text can be compared piece by piece.
-/

namespace Span

variable {α : Type*} {p q : α → Bool}

/-- The list does not begin with an element of the class. -/
def NotHead (p : α → Bool) (s : List α) : Prop := ∀ a ∈ s.head?, p a = false

@[simp] theorem notHead_nil : NotHead p [] := by simp [NotHead]

@[simp] theorem notHead_cons {a : α} {s : List α} : NotHead p (a :: s) ↔ p a = false := by
  simp [NotHead]

theorem NotHead.append {s u : List α} (h : NotHead p s) (hne : s ≠ []) : NotHead p (s ++ u) := by
  obtain _ | ⟨a, s⟩ := s
  · exact absurd rfl hne
  · simpa using h

/-- A list of another class does not begin with an element of this one. -/
theorem notHead_of_all {s u : List α} (hpq : ∀ a, q a → p a = false) (hs : ∀ a ∈ s, q a)
    (hu : NotHead p u) : NotHead p (s ++ u) := by
  obtain _ | ⟨a, s⟩ := s
  · exact hu
  · simpa using hpq a (hs a (List.mem_cons_self ..))

/-- Nothing of the class can be split off a list that does not begin with it. -/
theorem NotHead.eq_nil {s t u : List α} (h : NotHead p s) (hs : s = t ++ u)
    (ht : ∀ a ∈ t, p a) : t = [] := by
  obtain _ | ⟨a, t⟩ := t
  · rfl
  · subst hs
    simp [ht a (List.mem_cons_self ..)] at h

/-- Every list splits after its longest prefix in the class. -/
theorem exists_span (p : α → Bool) (s : List α) :
    ∃ t u, s = t ++ u ∧ (∀ a ∈ t, p a) ∧ NotHead p u := by
  refine ⟨s.takeWhile p, s.dropWhile p, List.takeWhile_append_dropWhile.symm,
    fun a => List.mem_takeWhile_imp, fun a ha => ?_⟩
  have := List.head?_dropWhile_not p s
  rw [Option.mem_def.mp ha] at this
  simpa using this

/-- And it does so in one way only. -/
theorem span_unique {t u t' u' : List α} (h : t ++ u = t' ++ u') (ht : ∀ a ∈ t, p a)
    (ht' : ∀ a ∈ t', p a) (hu : NotHead p u) (hu' : NotHead p u') : t = t' ∧ u = u' := by
  rcases List.append_eq_append_iff.mp h with ⟨s, rfl, rfl⟩ | ⟨s, rfl, rfl⟩
  · have hs : s = [] := hu.eq_nil rfl fun a ha => ht' a (by simp [ha])
    simp [hs]
  · have hs : s = [] := hu'.eq_nil rfl fun a ha => ht a (by simp [ha])
    simp [hs]

/-- A delimiter that occurs has a last occurrence. -/
theorem exists_last {a : α} {s : List α} (h : a ∈ s) : ∃ t u, s = t ++ a :: u ∧ a ∉ u := by
  obtain ⟨t, u, hs, ht⟩ := List.eq_append_cons_of_mem (List.mem_reverse.mpr h)
  refine ⟨u.reverse, t.reverse, ?_, by simpa using ht⟩
  rw [← s.reverse_reverse, hs]
  simp

/-- The last element of a list is the last element of every suffix. -/
theorem exists_concat {a c : α} {s t u : List α} (h : s ++ [c] = t ++ a :: u) :
    (u = [] ∧ a = c) ∨ ∃ v, u = v ++ [c] := by
  rcases u.eq_nil_or_concat with rfl | ⟨v, d, rfl⟩
  · obtain ⟨-, h⟩ := List.append_inj' h rfl
    exact .inl ⟨rfl, (List.cons_eq_cons.mp h).1.symm⟩
  · have h : s ++ [c] = (t ++ a :: v) ++ [d] := by simpa using h
    obtain ⟨-, h⟩ := List.append_inj' h rfl
    exact .inr ⟨v, by rw [(List.cons_eq_cons.mp h).1, List.concat_eq_append]⟩

/-- The split at the first element with a property is unique. -/
theorem split_unique {P : α → Prop} {a a' : α} {t u t' u' : List α}
    (h : t ++ a :: u = t' ++ a' :: u') (ht : ∀ b ∈ t, ¬ P b) (ha : P a) (ht' : ∀ b ∈ t', ¬ P b)
    (ha' : P a') : t = t' ∧ a = a' ∧ u = u' := by
  have hsame : t = t' := by
    rcases List.append_eq_append_iff.mp h with ⟨s, rfl, hs⟩ | ⟨s, rfl, hs⟩
    · rcases List.cons_eq_append_iff.mp hs with ⟨rfl, -⟩ | ⟨s', rfl, -⟩
      · exact (List.append_nil t).symm
      · exact absurd ha (ht' a (by simp))
    · rcases List.cons_eq_append_iff.mp hs with ⟨rfl, -⟩ | ⟨s', rfl, -⟩
      · exact List.append_nil t'
      · exact absurd ha' (ht a' (by simp))
  subst hsame
  exact ⟨rfl, List.cons_eq_cons.mp (List.append_cancel_left h)⟩

/-- The split at the first occurrence of a delimiter is unique. -/
theorem first_unique {a : α} {t u t' u' : List α} (h : t ++ a :: u = t' ++ a :: u')
    (ht : a ∉ t) (ht' : a ∉ t') : t = t' ∧ u = u' := by
  have hno : ∀ {s : List α}, a ∉ s → ∀ b ∈ s, ¬ b = a := fun hs b hb heq => hs (heq ▸ hb)
  obtain ⟨hsame, -, hrest⟩ := split_unique h (hno ht) rfl (hno ht') rfl
  exact ⟨hsame, hrest⟩

/-- The split at the last occurrence of a delimiter is unique. -/
theorem last_unique {a : α} {t u t' u' : List α} (h : t ++ a :: u = t' ++ a :: u')
    (hu : a ∉ u) (hu' : a ∉ u') : t = t' ∧ u = u' := by
  have hrev : u.reverse ++ a :: t.reverse = u'.reverse ++ a :: t'.reverse := by
    simpa using congrArg List.reverse h
  obtain ⟨h₁, h₂⟩ := first_unique hrev (by simpa using hu) (by simpa using hu')
  exact ⟨List.reverse_inj.mp h₂, List.reverse_inj.mp h₁⟩

end Span
