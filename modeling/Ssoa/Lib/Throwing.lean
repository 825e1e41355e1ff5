import Mathlib.Tactic.Common

/-!
# Stateful programs that throw

A member function of an object reads and changes the object, and may throw half way; what it has
changed until then stays changed. `Throwing σ ε α` is such a program. The order of the two effects
matters: with the state inside the exception, a `catch` would find the state from before the
`try`.

## Main results

* `Throwing.run_bind_of_ok`, `Throwing.run_bind_of_error`, `Throwing.run_tryCatch_of_ok`,
  `Throwing.run_tryCatch_of_error` — evaluating a program step by step
* `Throwing.run_block_of_ok`, `Throwing.run_block_of_error` — blocks that only note exceptions
* `Throwing.Preserves.bind`, `Throwing.Preserves.tryCatch` — what every part of a program keeps, the
  program keeps
-/

/-- A program on a state that returns a value or throws. -/
def Throwing (σ ε α : Type) : Type := σ → Except ε α × σ

namespace Throwing

variable {σ τ κ ε α β : Type}

/-- Run the program from a state. -/
def run (x : Throwing σ ε α) (s : σ) : Except ε α × σ := x s

/-- The program returns from that state. -/
def Succeeds (x : Throwing σ ε α) (s : σ) : Prop := ∃ a, (x.run s).1 = .ok a

theorem ext_run {x y : Throwing σ ε α} (h : ∀ s, x.run s = y.run s) : x = y := funext h

instance : Monad (Throwing σ ε) where
  pure a := fun s => (.ok a, s)
  bind x f := fun s =>
    match x.run s with
    | (.ok a, t) => (f a).run t
    | (.error e, t) => (.error e, t)

instance : MonadExceptOf ε (Throwing σ ε) where
  throw e := fun s => (.error e, s)
  tryCatch x handler := fun s =>
    match x.run s with
    | (.ok a, t) => (.ok a, t)
    | (.error e, t) => (handler e).run t

instance : MonadStateOf σ (Throwing σ ε) where
  get := fun s => (.ok s, s)
  set t := fun _ => (.ok (), t)
  modifyGet f := fun s => (.ok (f s).1, (f s).2)

/-- What only computes does not touch the state. -/
instance : MonadLift (Except ε) (Throwing σ ε) where
  monadLift x := fun s => (x, s)

@[simp] theorem run_pure (a : α) (s : σ) : (pure a : Throwing σ ε α).run s = (.ok a, s) := rfl

@[simp] theorem run_throw (e : ε) (s : σ) : (throw e : Throwing σ ε α).run s = (.error e, s) := rfl

@[simp] theorem run_set (s t : σ) : (set t : Throwing σ ε PUnit).run s = (.ok ⟨⟩, t) := rfl

@[simp] theorem run_lift (x : Except ε α) (s : σ) :
    (liftM x : Throwing σ ε α).run s = (x, s) := rfl

@[simp] theorem run_ite (p : Prop) [Decidable p] (x y : Throwing σ ε α) (s : σ) :
    (if p then x else y).run s = if p then x.run s else y.run s := by
  split <;> rfl

/-! ### Step by step -/

theorem run_bind_of_ok {x : Throwing σ ε α} {f : α → Throwing σ ε β} {s t : σ} {a : α}
    (h : x.run s = (.ok a, t)) : (x >>= f).run s = (f a).run t := by
  show (match x.run s with | (.ok a, t) => (f a).run t | (.error e, t) => (.error e, t)) = _
  rw [h]

theorem run_bind_of_error {x : Throwing σ ε α} {f : α → Throwing σ ε β} {s t : σ} {e : ε}
    (h : x.run s = (.error e, t)) : (x >>= f).run s = (.error e, t) := by
  show (match x.run s with | (.ok a, t) => (f a).run t | (.error e, t) => (.error e, t)) = _
  rw [h]

theorem run_tryCatch_of_ok {x : Throwing σ ε α} {handler : ε → Throwing σ ε α} {s t : σ} {a : α}
    (h : x.run s = (.ok a, t)) : (tryCatch x handler).run s = (.ok a, t) := by
  show (match x.run s with
    | (Except.ok a, t) => (Except.ok a, t)
    | (Except.error e, t) => (handler e).run t) = _
  rw [h]

theorem run_tryCatch_of_error {x : Throwing σ ε α} {handler : ε → Throwing σ ε α} {s t : σ} {e : ε}
    (h : x.run s = (.error e, t)) : (tryCatch x handler).run s = (handler e).run t := by
  show (match x.run s with
    | (Except.ok a, t) => (Except.ok a, t)
    | (Except.error e, t) => (handler e).run t) = _
  rw [h]

/-- A block whose exceptions are only noted, run to its end. -/
theorem run_block_of_ok {x : Throwing σ ε PUnit} {s t : σ} (h : x.run s = (.ok ⟨⟩, t)) (a b : α) :
    (tryCatch (do x; return a) fun _ => return b : Throwing σ ε α).run s = (.ok a, t) :=
  run_tryCatch_of_ok (run_bind_of_ok h)

/-- A block whose exceptions are only noted, left by an exception. -/
theorem run_block_of_error {x : Throwing σ ε PUnit} {s t : σ} {e : ε} (h : x.run s = (.error e, t))
    (a b : α) :
    (tryCatch (do x; return a) fun _ => return b : Throwing σ ε α).run s = (.ok b, t) :=
  run_tryCatch_of_error (run_bind_of_error h)

/-- What a program that returns has done first. -/
theorem exists_of_run_bind_ok {x : Throwing σ ε α} {f : α → Throwing σ ε β} {s : σ} {b : β}
    (h : ((x >>= f).run s).1 = .ok b) : ∃ a t, x.run s = (.ok a, t) ∧ ((f a).run t).1 = .ok b := by
  rcases hx : x.run s with ⟨e | a, t⟩
  · rw [run_bind_of_error hx] at h
    cases h
  · rw [run_bind_of_ok hx] at h
    exact ⟨a, t, rfl, h⟩

theorem run_lift_bind (x : Except ε α) (f : α → Throwing σ ε β) (s : σ) :
    ((liftM x : Throwing σ ε α) >>= f).run s =
      match x with
      | .ok a => (f a).run s
      | .error e => (.error e, s) := by
  cases x <;> rfl

@[simp] theorem run_get_bind (f : σ → Throwing σ ε β) (s : σ) :
    (get >>= f).run s = (f s).run s := rfl

@[simp] theorem run_set_bind (t : σ) (f : PUnit → Throwing σ ε β) (s : σ) :
    ((set t : Throwing σ ε PUnit) >>= f).run s = (f ⟨⟩).run t := rfl

@[simp] theorem run_modify_bind (g : σ → σ) (f : PUnit → Throwing σ ε β) (s : σ) :
    ((modify g : Throwing σ ε PUnit) >>= f).run s = (f ⟨⟩).run (g s) := rfl

@[simp] theorem run_map_set (t : σ) (f : PUnit → β) (s : σ) :
    (f <$> (set t : Throwing σ ε PUnit)).run s = (.ok (f ⟨⟩), t) := rfl

theorem run_map_of_ok {x : Throwing σ ε α} {f : α → β} {s t : σ} {a : α}
    (h : x.run s = (.ok a, t)) : (f <$> x).run s = (.ok (f a), t) :=
  run_bind_of_ok h

theorem run_map_of_error {x : Throwing σ ε α} {f : α → β} {s t : σ} {e : ε}
    (h : x.run s = (.error e, t)) : (f <$> x).run s = (.error e, t) :=
  run_bind_of_error h

theorem run_map_of_eq {x : Throwing σ ε α} {f : α → β} {s t : σ} {r : Except ε α}
    (h : x.run s = (r, t)) : (f <$> x).run s = (r.map f, t) := by
  cases r with
  | error e => exact run_map_of_error h
  | ok a => exact run_map_of_ok h

instance : LawfulMonad (Throwing σ ε) := LawfulMonad.mk' _
  (fun x => ext_run fun s => by
    rcases h : x.run s with ⟨_ | a, t⟩
    · exact run_map_of_error h
    · exact run_map_of_ok h)
  (fun _ _ => rfl)
  (fun x f g => ext_run fun s => by
    rcases h : x.run s with ⟨_ | a, t⟩
    · rw [run_bind_of_error (run_bind_of_error h), run_bind_of_error h]
    · rw [run_bind_of_ok h]
      rcases h' : (f a).run t with ⟨_ | b, u⟩
      · rw [run_bind_of_error (by rw [run_bind_of_ok h, h']), run_bind_of_error h']
      · rw [run_bind_of_ok (by rw [run_bind_of_ok h, h']), run_bind_of_ok h'])

/-- What a value that has been mapped was. -/
theorem exists_of_map_ok {x : Except ε α} {f : α → β} {b : β} (h : x.map f = .ok b) :
    ∃ a, x = .ok a ∧ f a = b := by
  cases x with
  | error e => cases h
  | ok a => exact ⟨a, rfl, Except.ok.inj h⟩

/-! ### Parts of a state -/

/-- A part of a state that can be replaced, and something else of the state, which stays. -/
structure Part (σ τ κ : Type) where
  part : σ → τ
  put : σ → τ → σ
  rest : σ → κ
  put_part : ∀ s, put s (part s) = s
  part_put : ∀ s t, part (put s t) = t
  put_put : ∀ s t u, put (put s t) u = put s u
  rest_put : ∀ s t, rest (put s t) = rest s

/-- The whole state. -/
def Part.self (σ : Type) : Part σ σ Unit where
  part s := s
  put _ t := t
  rest _ := ()
  put_part _ := rfl
  part_put _ _ := rfl
  put_put _ _ _ := rfl
  rest_put _ _ := rfl

/-- Run a program on a part of the state. It may read the rest. -/
def within (p : Part σ τ κ) (x : κ → Throwing τ ε α) : Throwing σ ε α :=
  fun s => (((x (p.rest s)).run (p.part s)).1, p.put s ((x (p.rest s)).run (p.part s)).2)

variable (p : Part σ τ κ)

@[simp] theorem run_within (x : κ → Throwing τ ε α) (s : σ) : (within p x).run s =
    (((x (p.rest s)).run (p.part s)).1, p.put s ((x (p.rest s)).run (p.part s)).2) := rfl

theorem run_within_of_eq {x : κ → Throwing τ ε α} {s : σ} {r : Except ε α} {t : τ}
    (h : (x (p.rest s)).run (p.part s) = (r, t)) : (within p x).run s = (r, p.put s t) := by
  rw [run_within, h]

theorem within_bind (x : κ → Throwing τ ε α) (f : α → κ → Throwing τ ε β) :
    (within p x >>= fun a => within p (f a)) = within p fun k => x k >>= (f · k) := by
  refine ext_run fun s => ?_
  rcases h : (x (p.rest s)).run (p.part s) with ⟨_ | a, t⟩
  · rw [run_bind_of_error (run_within_of_eq p h), run_within, run_bind_of_error h]
  · rw [run_bind_of_ok (run_within_of_eq p h), run_within, run_within, run_bind_of_ok h,
      p.rest_put, p.part_put, p.put_put]

theorem within_pure (a : α) : within p (fun _ => (pure a : Throwing τ ε α)) = pure a :=
  ext_run fun s => by rw [run_within, run_pure, p.put_part, run_pure]

theorem map_within (g : α → β) (x : κ → Throwing τ ε α) :
    g <$> within p x = within p fun k => g <$> x k := by
  refine ext_run fun s => ?_
  rcases h : (x (p.rest s)).run (p.part s) with ⟨_ | a, t⟩
  · rw [run_map_of_error (run_within_of_eq p h), run_within, run_map_of_error h]
  · rw [run_map_of_ok (run_within_of_eq p h), run_within, run_map_of_ok h]

/-- Calls one after the other on a part are a program on that part. -/
theorem forM_within (f : α → κ → Throwing τ ε PUnit) (as : List α) :
    (forM as fun a => within p (f a)) = within p fun k => forM as (f · k) := by
  induction as with
  | nil => exact (within_pure p PUnit.unit).symm
  | cons a as ih =>
    rw [List.forM_cons, ih]
    exact within_bind p (f a) fun _ k => forM as (f · k)

theorem mapM_within (f : α → κ → Throwing τ ε β) (as : List α) :
    (as.mapM fun a => within p (f a)) = within p fun k => as.mapM (f · k) := by
  induction as with
  | nil => exact (within_pure p []).symm
  | cons a as ih =>
    have hcons : ∀ k, (a :: as).mapM (f · k) = f a k >>= fun b => as.mapM (f · k) >>= fun bs =>
        pure (b :: bs) := fun k => List.mapM_cons
    simp only [hcons, List.mapM_cons, ih]
    rw [← within_bind]
    congr 1
    funext b
    rw [← within_bind]
    congr 1
    funext bs
    exact (within_pure p (b :: bs)).symm

/-! ### What a program keeps -/

/-- The program keeps the property, whether it returns or throws. -/
def Preserves (P : σ → Prop) (x : Throwing σ ε α) : Prop := ∀ s, P s → P (x.run s).2

section Preserves

variable {P : σ → Prop} {x : Throwing σ ε α} {f : α → Throwing σ ε β}

theorem preserves_pure (a : α) : Preserves P (pure a : Throwing σ ε α) := fun _ h => h

theorem preserves_throw (e : ε) : Preserves P (throw e : Throwing σ ε α) := fun _ h => h

theorem preserves_lift (x : Except ε α) : Preserves P (liftM x : Throwing σ ε α) := fun _ h => h

theorem preserves_set {t : σ} (h : P t) : Preserves P (set t : Throwing σ ε PUnit) := fun _ _ => h

theorem Preserves.bind (hx : Preserves P x) (hf : ∀ a, Preserves P (f a)) :
    Preserves P (x >>= f) := by
  intro s hs
  have ht := hx s hs
  rcases h : x.run s with ⟨e | a, t⟩ <;> rw [h] at ht
  · rw [run_bind_of_error h]
    exact ht
  · rw [run_bind_of_ok h]
    exact hf a t ht

/-- What is read has the property. -/
theorem Preserves.get_bind {f : σ → Throwing σ ε β} (hf : ∀ s, P s → Preserves P (f s)) :
    Preserves P (get >>= f) := fun s hs => hf s hs s hs

theorem Preserves.tryCatch {handler : ε → Throwing σ ε α} (hx : Preserves P x)
    (hhandler : ∀ e, Preserves P (handler e)) : Preserves P (tryCatch x handler) := by
  intro s hs
  have ht := hx s hs
  rcases h : x.run s with ⟨e | a, t⟩ <;> rw [h] at ht
  · rw [run_tryCatch_of_error h]
    exact hhandler e t ht
  · rw [run_tryCatch_of_ok h]
    exact ht

end Preserves

end Throwing
