import Ssoa.Lib.Routine
import Ssoa.Service.Request

/-!
# Skeletons step by step

A skeleton is made for one request, and nobody else uses it. What it calls may be shared with the
skeletons of other connections, which are at work at the same time. Its `invoke()` is then a
routine on what is shared.

## Main results

* `SkeletonSteps.run_own_bind`, `SkeletonSteps.run_shared` — the steps, one after the other
* `SkeletonSteps.ReadOnly.bind` — a skeleton whose calls change nothing
-/

namespace Ssoa

/-- A member function of a skeleton, which has its own service and shares the rest. -/
abbrev SkeletonSteps (τ : Type) := StateT Service (ExceptT Exn (Routine τ))

namespace SkeletonSteps

variable {τ α β : Type}

/-- What the skeleton does with its own service takes no step. -/
def own (x : Throwing Service Exn α) : SkeletonSteps τ α := fun s =>
  match x.run s with
  | (.ok a, s') => return (a, s')
  | (.error e, _) => throw e

/-- A call that works on what is shared. -/
def shared (x : ExceptT Exn (Routine τ) α) : SkeletonSteps τ α := fun s => do
  let a ← x
  return (a, s)

/-! ### Without interruption -/

section Run

open Routine

variable {t t' : τ}

/-- What the skeleton does with its own service leaves the rest alone. -/
theorem run_own (x : Throwing Service Exn α) (s : Service) (t : τ) :
    (toThrowing ((own x : SkeletonSteps τ α).run s)).run t =
      ((x.run s).1.map fun a => (a, (x.run s).2), t) := by
  show (toThrowing (match x.run s with
    | (.ok a, s') => pure (a, s')
    | (.error e, _) => throw e : ExceptT Exn (Routine τ) (α × Service))).run t = _
  rcases x.run s with ⟨e | a, s'⟩ <;> rfl

theorem run_own_bind {x : Throwing Service Exn α} {s s' : Service} {a : α}
    (h : x.run s = (.ok a, s')) (f : α → SkeletonSteps τ β) (t : τ) :
    (toThrowing ((own x >>= f).run s)).run t = (toThrowing ((f a).run s')).run t := by
  have hown := run_own x s t
  rw [h] at hown
  rw [StateT.run_bind, toThrowing_bind, Throwing.run_bind_of_ok hown]

/-- A call leaves the service of the skeleton alone. -/
theorem run_shared {x : ExceptT Exn (Routine τ) α} {r : Except Exn α}
    (h : (toThrowing x).run t = (r, t')) (s : Service) :
    (toThrowing ((shared x).run s)).run t = (r.map fun a => (a, s), t') := by
  show (toThrowing (x >>= fun a => pure (a, s))).run t = _
  rw [toThrowing_bind]
  cases r with
  | error e => exact Throwing.run_bind_of_error h
  | ok a => exact Throwing.run_bind_of_ok h

end Run

/-! ### Reading only -/

/-- No step of the skeleton changes what is shared. -/
def ReadOnly (y : SkeletonSteps τ α) : Prop := ∀ s, Routine.ReadOnly (y.run s).run

theorem ReadOnly.bind {y : SkeletonSteps τ α} {g : α → SkeletonSteps τ β} (hy : ReadOnly y)
    (hg : ∀ a, ReadOnly (g a)) : ReadOnly (y >>= g) := by
  intro s
  rw [StateT.run_bind]
  exact (hy s).bindExcept fun p => hg p.1 p.2

theorem readOnly_own (x : Throwing Service Exn α) : ReadOnly (own x : SkeletonSteps τ α) := by
  intro s
  show Routine.ReadOnly (match x.run s with
    | (.ok a, s') => pure (a, s')
    | (.error e, _) => throw e : ExceptT Exn (Routine τ) (α × Service)).run
  rcases x.run s with ⟨e | a, s'⟩ <;> trivial

theorem readOnly_shared {y : ExceptT Exn (Routine τ) α} (h : Routine.ReadOnly y.run) :
    ReadOnly (shared y) :=
  fun _ => h.bindExcept fun _ => trivial

end SkeletonSteps

end Ssoa
