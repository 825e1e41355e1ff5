import Ssoa.Lib.Throwing

/-!
# Routines that work on an object step by step

A `Routine` is a program that uses an object in separate accesses: each of them reads the object
and may change it, and what comes after it depends on what it has read. Between two accesses the
object may be changed by others.

Run without interruption, a routine is a function of the object it begins with (`run`). What it
does no matter who interrupts it is said by `Ensures`: if others keep a property of the object, so
does the routine, and its result is as promised.

## Main results

* `Routine.run_bind` — one routine after another
* `Routine.Ensures.bind` — and what they do under interruption
* `Routine.toThrowing_bind` — routines that throw, run without interruption, are `Throwing` programs
-/

/-- A program that accesses an object of type `τ` step by step, and then returns. -/
inductive Routine (τ ρ : Type) where
  | done (result : ρ)
  | access (change : τ → τ) (next : τ → Routine τ ρ)

namespace Routine

variable {τ ρ π ε α β : Type}

/-- What the routine returns and makes of the object when nobody interrupts it. -/
def run : Routine τ ρ → τ → ρ × τ
  | done result, t => (result, t)
  | access change next, t => run (next t) (change t)

/-- The routine, and then another one. -/
def andThen : Routine τ ρ → (ρ → Routine τ π) → Routine τ π
  | done result, f => f result
  | access change next, f => access change fun t => andThen (next t) f

instance : Monad (Routine τ) where
  pure := done
  bind := andThen

/-- One access. -/
def update (f : τ → ρ × τ) : Routine τ ρ := access (fun t => (f t).2) fun t => done (f t).1

@[simp] theorem run_done (result : ρ) (t : τ) : (done result : Routine τ ρ).run t = (result, t) :=
  rfl

@[simp] theorem run_access (change : τ → τ) (next : τ → Routine τ ρ) (t : τ) :
    (access change next).run t = (next t).run (change t) := rfl

@[simp] theorem run_pure (result : ρ) (t : τ) :
    (pure result : Routine τ ρ).run t = (result, t) := rfl

@[simp] theorem run_update (f : τ → ρ × τ) (t : τ) : (update f).run t = f t := rfl

/-- **One routine after another.** -/
@[simp] theorem run_bind (x : Routine τ ρ) (f : ρ → Routine τ π) (t : τ) :
    (x >>= f).run t = (f (x.run t).1).run (x.run t).2 := by
  show (x.andThen f).run t = _
  induction x generalizing t with
  | done result => rfl
  | access change next ih => exact ih t (change t)

instance : LawfulMonad (Routine τ) := LawfulMonad.mk' _
  (fun x => by
    show x.andThen done = x
    induction x with
    | done result => rfl
    | access change next ih => exact congrArg (access change) (funext ih))
  (fun _ _ => rfl)
  (fun x f g => by
    show (x.andThen f).andThen g = x.andThen fun a => (f a).andThen g
    induction x with
    | done result => rfl
    | access change next ih => exact congrArg (access change) (funext ih))

/-! ### Reading only -/

/-- No access changes the object. -/
def ReadOnly : Routine τ ρ → Prop
  | done _ => True
  | access change next => (∀ t, change t = t) ∧ ∀ t, ReadOnly (next t)

theorem ReadOnly.bind {x : Routine τ ρ} {f : ρ → Routine τ π} (hx : x.ReadOnly)
    (hf : ∀ a, (f a).ReadOnly) : (x >>= f).ReadOnly := by
  show (x.andThen f).ReadOnly
  induction x with
  | done result => exact hf result
  | access change next ih => exact ⟨hx.1, fun t => ih t (hx.2 t)⟩

/-! ### Under interruption -/

/-- Every access keeps the property of the object, whoever has kept it in the meantime, and then
the result is as promised. -/
def Ensures (I : τ → Prop) (Q : ρ → Prop) : Routine τ ρ → Prop
  | done result => Q result
  | access change next => ∀ t, I t → I (change t) ∧ Ensures I Q (next t)

variable {I : τ → Prop} {Q : ρ → Prop}

theorem Ensures.mono {R : ρ → Prop} {x : Routine τ ρ} (h : x.Ensures I Q)
    (hQ : ∀ result, Q result → R result) : x.Ensures I R := by
  induction x with
  | done result => exact hQ result h
  | access change next ih => exact fun t ht => ⟨(h t ht).1, ih t (h t ht).2⟩

/-- **Under interruption, one routine after another** does what both of them promise. -/
theorem Ensures.bind {R : π → Prop} {x : Routine τ ρ} {f : ρ → Routine τ π} (hx : x.Ensures I Q)
    (hf : ∀ a, Q a → (f a).Ensures I R) : (x >>= f).Ensures I R := by
  show (x.andThen f).Ensures I R
  induction x with
  | done result => exact hf result hx
  | access change next ih => exact fun t ht => ⟨(hx t ht).1, ih t (hx t ht).2⟩

/-! ### Routines that throw -/

/-- The whole program in one access. -/
def atomically (x : Throwing τ ε α) : ExceptT ε (Routine τ) α := ExceptT.mk (update x.run)

theorem readOnly_atomically {x : Throwing τ ε α} (h : ∀ t, (x.run t).2 = t) :
    ReadOnly (atomically x).run :=
  ⟨h, fun _ => trivial⟩

theorem ReadOnly.bindExcept {x : ExceptT ε (Routine τ) α} {f : α → ExceptT ε (Routine τ) β}
    (hx : ReadOnly x.run) (hf : ∀ a, ReadOnly (f a).run) : ReadOnly (x >>= f).run := by
  rw [ExceptT.run_bind]
  refine hx.bind fun result => ?_
  cases result with
  | ok a => exact hf a
  | error e => exact trivial

theorem ReadOnly.mapExcept {x : ExceptT ε (Routine τ) α} {f : α → β} (hx : ReadOnly x.run) :
    ReadOnly (f <$> x).run :=
  hx.bindExcept fun _ => trivial

/-- The same program, run without interruption. -/
def toThrowing (x : ExceptT ε (Routine τ) α) : Throwing τ ε α := fun t => Routine.run x.run t

@[simp] theorem run_toThrowing (x : ExceptT ε (Routine τ) α) (t : τ) :
    (toThrowing x).run t = Routine.run x.run t := rfl

@[simp] theorem toThrowing_atomically (x : Throwing τ ε α) : toThrowing (atomically x) = x := rfl

@[simp] theorem toThrowing_pure (a : α) :
    toThrowing (pure a : ExceptT ε (Routine τ) α) = pure a := rfl

@[simp] theorem toThrowing_throw (e : ε) :
    toThrowing (throw e : ExceptT ε (Routine τ) α) = throw e := rfl

theorem toThrowing_ite (p : Prop) [Decidable p] (x y : ExceptT ε (Routine τ) α) :
    toThrowing (if p then x else y) = if p then toThrowing x else toThrowing y := by
  split <;> rfl

/-- **Run without interruption, routines are one program after another.** -/
@[simp] theorem toThrowing_bind (x : ExceptT ε (Routine τ) α) (f : α → ExceptT ε (Routine τ) β) :
    toThrowing (x >>= f) = toThrowing x >>= fun a => toThrowing (f a) := by
  refine Throwing.ext_run fun t => ?_
  rw [run_toThrowing, ExceptT.run_bind, run_bind]
  rcases hx : Routine.run x.run t with ⟨e | a, t'⟩
  · exact (Throwing.run_bind_of_error (x := toThrowing x) hx).symm
  · exact (Throwing.run_bind_of_ok (x := toThrowing x) (f := fun a => toThrowing (f a)) hx).symm

@[simp] theorem toThrowing_map (f : α → β) (x : ExceptT ε (Routine τ) α) :
    toThrowing (f <$> x) = f <$> toThrowing x :=
  (toThrowing_bind x fun a => pure (f a)).trans (map_eq_pure_bind f (toThrowing x)).symm

end Routine
