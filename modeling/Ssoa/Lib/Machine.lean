import Mathlib.Data.List.Basic
import Mathlib.Tactic.Common

/-!
# Objects that answer calls

A `Machine` has a state and answers one call at a time. The two ways to reason about all of its
runs are packaged here, so that each of them leaves only a statement about one step to prove.

## Main results

* `Invariant.of_reachable` — what holds at the start and survives every step holds always
* `Refines.of_reachable` — what a specification keeps holds of every reachable state
* `Refines.run` — if every step is one a specification allows, so is every run
-/

/-- An object: where it starts, and what it answers to a call and becomes. -/
structure Machine (σ α ρ : Type*) where
  init : σ
  step : σ → α → ρ × σ

namespace Machine

variable {σ τ α ρ : Type*} (m : Machine σ α ρ)

/-- The answers to a sequence of calls, and the state it leaves. -/
def runFrom : σ → List α → List ρ × σ
  | s, [] => ([], s)
  | s, a :: as =>
    let (r, s') := m.step s a
    let (rs, s'') := runFrom s' as
    (r :: rs, s'')

/-- The states some sequence of calls leads to. -/
def Reachable (s : σ) : Prop := ∃ as, s = (m.runFrom m.init as).2

@[simp] theorem runFrom_nil (s : σ) : m.runFrom s [] = ([], s) := rfl

@[simp] theorem runFrom_cons (s : σ) (a : α) (as : List α) :
    m.runFrom s (a :: as) = ((m.step s a).1 :: (m.runFrom (m.step s a).2 as).1,
      (m.runFrom (m.step s a).2 as).2) := rfl

theorem runFrom_append (as bs : List α) (s : σ) :
    m.runFrom s (as ++ bs) =
      ((m.runFrom s as).1 ++ (m.runFrom (m.runFrom s as).2 bs).1,
        (m.runFrom (m.runFrom s as).2 bs).2) := by
  induction as generalizing s with
  | nil => simp
  | cons a as ih => simp [ih]

theorem Reachable.init : m.Reachable m.init := ⟨[], rfl⟩

variable {m}

theorem Reachable.step {s : σ} (h : m.Reachable s) (a : α) : m.Reachable (m.step s a).2 := by
  obtain ⟨as, rfl⟩ := h
  exact ⟨as ++ [a], by simp [runFrom_append]⟩

/-! ### Invariants -/

/-- The property holds at the start and is kept by every step. -/
structure Invariant (m : Machine σ α ρ) (P : σ → Prop) : Prop where
  init : P m.init
  step : ∀ s a, P s → P (m.step s a).2

theorem Invariant.runFrom {P : σ → Prop} (h : m.Invariant P) {s : σ} (hs : P s) (as : List α) :
    P (m.runFrom s as).2 := by
  induction as generalizing s with
  | nil => exact hs
  | cons a as ih => exact ih (h.step s a hs)

/-- **An invariant holds of every reachable state.** -/
theorem Invariant.of_reachable {P : σ → Prop} (h : m.Invariant P) {s : σ} (hs : m.Reachable s) :
    P s := by
  obtain ⟨as, rfl⟩ := hs
  exact h.runFrom h.init as

/-! ### Refinement -/

/-- A specification says which answers to a call, and which states after it, it allows. The run
`calls` with the answers `answers` is allowed from `t` to `t'`. -/
inductive Allows (spec : τ → α → ρ → τ → Prop) : τ → List α → List ρ → τ → Prop
  | nil {t} : Allows spec t [] [] t
  | cons {t t' t'' a r as rs} :
      spec t a r t' → Allows spec t' as rs t'' → Allows spec t (a :: as) (r :: rs) t''

/-- Where the invariant `P` holds, every step is allowed, through the abstraction `abs`. -/
structure Refines (m : Machine σ α ρ) (P : σ → Prop) (abs : σ → τ)
    (spec : τ → α → ρ → τ → Prop) : Prop where
  invariant : m.Invariant P
  step : ∀ s a, P s → spec (abs s) a (m.step s a).1 (abs (m.step s a).2)

/-- **What every allowed step keeps holds of every reachable state**, seen through the
abstraction. -/
theorem Refines.of_reachable {P : σ → Prop} {abs : σ → τ} {spec : τ → α → ρ → τ → Prop}
    (h : m.Refines P abs spec) {Q : τ → Prop} (hinit : Q (abs m.init))
    (hspec : ∀ t a r t', Q t → spec t a r t' → Q t') {s : σ} (hs : m.Reachable s) : Q (abs s) := by
  have hinv : m.Invariant fun s => P s ∧ Q (abs s) := by
    refine ⟨⟨h.invariant.init, hinit⟩, fun s a hPQ => ?_⟩
    exact ⟨h.invariant.step s a hPQ.1, hspec _ a _ _ hPQ.2 (h.step s a hPQ.1)⟩
  exact (hinv.of_reachable hs).2

/-- **Every run of a refinement is a run of its specification.** -/
theorem Refines.run {P : σ → Prop} {abs : σ → τ} {spec : τ → α → ρ → τ → Prop}
    (h : m.Refines P abs spec) {s : σ} (hs : P s) (as : List α) :
    Allows spec (abs s) as (m.runFrom s as).1 (abs (m.runFrom s as).2) := by
  induction as generalizing s with
  | nil => exact .nil
  | cons a as ih => exact .cons (h.step s a hs) (ih (h.invariant.step s a hs))

end Machine
