import Ssoa.Lib.Routine
import Mathlib.Logic.Equiv.Defs

/-!
# Processes with a state of their own

A process has a state that nobody else sees, and uses a shared object step by step. A step is a
program on both of them. What a process does when nobody else uses the object is a program on both
of them again (`alone`): it says which program the process is an interleaved version of.

## Main results

* `Process.alone_bind`, `Process.alone_tryCatch`, `Process.alone_forM` — run alone, a process is the
  program of its steps
-/

/-- A program with a state of type `σ` that uses an object of type `τ`, and may throw. -/
abbrev Process (σ τ ε α : Type) : Type := ExceptT ε (StateT σ (Routine τ)) α

namespace Process

variable {σ τ ω ε α β : Type} (e : ω ≃ σ × τ)

/-- A program on both states, in one step. -/
def step (x : Throwing ω ε α) : Process σ τ ε α :=
  ExceptT.mk fun s => Routine.update fun t =>
    (((x.run (e.symm (s, t))).1, (e (x.run (e.symm (s, t))).2).1),
      (e (x.run (e.symm (s, t))).2).2)

/-- The same program, when nobody else uses the object. -/
def alone (x : Process σ τ ε α) : Throwing ω ε α := fun w =>
  (((x.run.run (e w).1).run (e w).2).1.1,
    e.symm (((x.run.run (e w).1).run (e w).2).1.2, ((x.run.run (e w).1).run (e w).2).2))

theorem run_alone (x : Process σ τ ε α) (s : σ) (t : τ) : (alone e x).run (e.symm (s, t)) =
    (((x.run.run s).run t).1.1, e.symm (((x.run.run s).run t).1.2, ((x.run.run s).run t).2)) :=
  congrArg (fun w : σ × τ => (((x.run.run w.1).run w.2).1.1,
    e.symm (((x.run.run w.1).run w.2).1.2, ((x.run.run w.1).run w.2).2)))
    (e.apply_symm_apply (s, t))

theorem ext_symm {x y : Throwing ω ε α}
    (h : ∀ s t, x.run (e.symm (s, t)) = y.run (e.symm (s, t))) : x = y :=
  Throwing.ext_run fun w => e.symm_apply_apply w ▸ h (e w).1 (e w).2

@[simp] theorem alone_step (x : Throwing ω ε α) : alone e (step e x) = x := by
  refine ext_symm e fun s t => (run_alone e _ s t).trans ?_
  exact Prod.ext rfl (e.symm_apply_apply _)

@[simp] theorem alone_pure (a : α) : alone e (pure a : Process σ τ ε α) = pure a :=
  ext_symm e fun s t => run_alone e _ s t

@[simp] theorem alone_lift (x : Except ε α) : alone e (liftM x : Process σ τ ε α) = liftM x :=
  ext_symm e fun s t => run_alone e _ s t

/-- **One part of the program after another.** -/
@[simp] theorem alone_bind (x : Process σ τ ε α) (f : α → Process σ τ ε β) :
    alone e (x >>= f) = alone e x >>= fun a => alone e (f a) := by
  refine ext_symm e fun s t => ?_
  rw [run_alone, ExceptT.run_bind, StateT.run_bind, Routine.run_bind]
  have hx := run_alone e x s t
  rcases hrun : (x.run.run s).run t with ⟨⟨err | a, s'⟩, t'⟩ <;> rw [hrun] at hx
  · exact (Throwing.run_bind_of_error hx).symm
  · exact ((Throwing.run_bind_of_ok hx).trans (run_alone e (f a) s' t')).symm

/-- **A block and its handler.** -/
@[simp] theorem alone_tryCatch (x : Process σ τ ε α) (handler : ε → Process σ τ ε α) :
    alone e (tryCatch x handler) = tryCatch (alone e x) fun err => alone e (handler err) := by
  refine ext_symm e fun s t => ?_
  have hx := run_alone e x s t
  rcases hrun : (x.run.run s).run t with ⟨⟨err | a, s'⟩, t'⟩ <;> rw [hrun] at hx <;>
    change Routine.run (x s) t = _ at hrun
  · have htry : ((tryCatch x handler).run.run s).run t = ((handler err).run.run s').run t' :=
      (Routine.run_bind _ _ t).trans (by rw [hrun]; rfl)
    rw [run_alone, htry]
    exact ((Throwing.run_tryCatch_of_error hx).trans (run_alone e (handler err) s' t')).symm
  · have htry : ((tryCatch x handler).run.run s).run t = ((.ok a, s'), t') :=
      (Routine.run_bind _ _ t).trans (by rw [hrun]; rfl)
    rw [run_alone, htry]
    exact (Throwing.run_tryCatch_of_ok hx).symm

theorem alone_ite (p : Prop) [Decidable p] (x y : Process σ τ ε α) :
    alone e (if p then x else y) = if p then alone e x else alone e y := by
  split <;> rfl

/-- Calls one after the other. -/
@[simp] theorem alone_forM (f : α → Process σ τ ε PUnit) (as : List α) :
    alone e (forM as f) = forM as fun a => alone e (f a) := by
  induction as with
  | nil => exact alone_pure e PUnit.unit
  | cons a as ih => rw [List.forM_cons, alone_bind, List.forM_cons, ih]

end Process
