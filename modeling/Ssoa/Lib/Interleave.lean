import Ssoa.Lib.Machine

/-!
# Calls that overlap

Where several callers use an object at once, a call is a number of actions, and the actions of
different calls alternate in any order. A `System` takes one action at a time; an action need not
be enabled in every state, since a caller may have to wait.

What overlapping calls should amount to is that they were made one after the other: the answers
and the state they leave are those of a run of a `Machine`. The way to show it is to name, for
every call, the one action at which it takes effect. `Linearises` says that every action is such a
point of one call, or changes nothing that is seen.

A result about a system may hold only as long as no action is taken where a condition forbids it.
The condition is on the action and the state before it, and is carried through all of this file.

## Main results

* `System.Keeps.run` — what every allowed action keeps holds after every allowed run
* `System.exists_run_restrict` — what is left of a system that takes no other actions
* `System.Linearises.inOrder` — the calls, in the order of their points, are a run of the machine
-/

/-- What an action makes of a state, or `none` if it is not enabled there. -/
structure System (σ α : Type*) where
  step : σ → α → Option σ

namespace System

variable {σ α : Type*} (sys : System σ α)

/-- The system with these steps. -/
def ofStep (step : σ → α → Option σ) : System σ α := ⟨step⟩

/-- The state after the actions, if each of them is enabled in its turn. -/
def run : σ → List α → Option σ
  | s, [] => some s
  | s, a :: as => (sys.step s a).bind fun s' => run s' as

/-- Every action is taken in a state where the condition allows it. -/
def Along (ok : σ → α → Prop) : σ → List α → Prop
  | _, [] => True
  | s, a :: as => ok s a ∧ ∀ s' ∈ sys.step s a, Along ok s' as

@[simp] theorem run_nil (s : σ) : sys.run s [] = some s := rfl

@[simp] theorem run_cons (s : σ) (a : α) (as : List α) :
    sys.run s (a :: as) = (sys.step s a).bind fun s' => sys.run s' as := rfl

theorem run_append (s : σ) (as bs : List α) :
    sys.run s (as ++ bs) = (sys.run s as).bind fun s' => sys.run s' bs := by
  induction as generalizing s with
  | nil => rfl
  | cons a as ih =>
    rw [List.cons_append, run_cons, run_cons, Option.bind_assoc]
    exact congrArg _ (funext ih)

instance decidableAlong (ok : σ → α → Prop) [∀ s a, Decidable (ok s a)] :
    ∀ (s : σ) (as : List α), Decidable (sys.Along ok s as)
  | _, [] => .isTrue trivial
  | s, a :: as =>
    have : ∀ s', Decidable (sys.Along ok s' as) := fun s' => decidableAlong ok s' as
    inferInstanceAs (Decidable (ok s a ∧ ∀ s' ∈ sys.step s a, sys.Along ok s' as))

/-- Nothing is asked of a run by the condition that allows every action. -/
theorem along_true (s : σ) (as : List α) : sys.Along (fun _ _ => True) s as := by
  induction as generalizing s with
  | nil => exact trivial
  | cons a as ih => exact ⟨trivial, fun s' _ => ih s'⟩

/-! ### Invariants -/

/-- Every action the condition allows keeps the property. -/
def Keeps (ok : σ → α → Prop) (P : σ → Prop) : Prop :=
  ∀ s a s', P s → ok s a → sys.step s a = some s' → P s'

variable {sys} {ok : σ → α → Prop} {P : σ → Prop} {s s' : σ} {as : List α}

/-- **What every allowed action keeps holds after every allowed run.** -/
theorem Keeps.run (h : sys.Keeps ok P) (hs : P s) (hrun : sys.run s as = some s')
    (halong : sys.Along ok s as) : P s' := by
  induction as generalizing s with
  | nil =>
    obtain rfl : s = s' := Option.some.inj hrun
    exact hs
  | cons a as ih =>
    obtain ⟨t, ht, hrest⟩ := Option.bind_eq_some_iff.mp hrun
    obtain ⟨hok, hnext⟩ := halong
    exact ih (h s a t hs hok ht) hrest (hnext t ht)

/-! ### Fewer actions -/

/-- The system that takes an action only where it is allowed. -/
def restrict (sys : System σ α) (ok : σ → α → Prop) [∀ s a, Decidable (ok s a)] : System σ α :=
  ⟨fun s a => if ok s a then sys.step s a else none⟩

section Restrict

variable [∀ s a, Decidable (ok s a)]

theorem restrict_step_of_allowed {a : α} (h : ok s a) : (sys.restrict ok).step s a = sys.step s a :=
  if_pos h

theorem restrict_step_eq_some_iff {a : α} :
    (sys.restrict ok).step s a = some s' ↔ ok s a ∧ sys.step s a = some s' := by
  show (if ok s a then sys.step s a else none) = some s' ↔ _
  split
  · next hok => exact (and_iff_right hok).symm
  · next hok => exact iff_of_false nofun fun h => hok h.1

/-- What it can do is what the system can do. -/
theorem run_of_restrict (hrun : (sys.restrict ok).run s as = some s') : sys.run s as = some s' := by
  induction as generalizing s with
  | nil => exact hrun
  | cons a as ih =>
    obtain ⟨t, ht, hrest⟩ := Option.bind_eq_some_iff.mp hrun
    rw [run_cons, (restrict_step_eq_some_iff.mp ht).2]
    exact ih hrest

variable (ok) in
/-- **What the system can do, it can do too**, up to an action that is not allowed. -/
theorem exists_run_restrict (hrun : sys.run s as = some s') :
    (sys.restrict ok).run s as = some s' ∨
      ∃ bs t a, (sys.restrict ok).run s bs = some t ∧ ¬ ok t a := by
  induction as generalizing s with
  | nil => exact .inl hrun
  | cons a as ih =>
    obtain ⟨t, ht, hrest⟩ := Option.bind_eq_some_iff.mp hrun
    by_cases hok : ok s a
    · have hstep : (sys.restrict ok).step s a = some t := restrict_step_eq_some_iff.mpr ⟨hok, ht⟩
      obtain hall | ⟨bs, u, b, hbs, hb⟩ := ih hrest
      · exact .inl (by rw [run_cons, hstep]; exact hall)
      · exact .inr ⟨a :: bs, u, b, by rw [run_cons, hstep]; exact hbs, hb⟩
    · exact .inr ⟨[], s, a, rfl, hok⟩

end Restrict

/-! ### Linearisation points -/

end System

namespace Machine

variable {τ κ ρ : Type*} (m : Machine τ κ ρ)

/-- Made one after the other in this order from `t`, the calls get these answers and lead to
`t'`. -/
def InOrder (t : τ) (answered : List (κ × ρ)) (t' : τ) : Prop :=
  m.runFrom t (answered.map Prod.fst) = (answered.map Prod.snd, t')

/-- Made one after the other in some order, the calls get these answers and lead to `t'`. -/
def Serialisable (t : τ) (answered : List (κ × ρ)) (t' : τ) : Prop :=
  ∃ order : List (κ × ρ), order.Perm answered ∧ m.InOrder t order t'

variable {m} {t t' : τ} {answered : List (κ × ρ)}

theorem InOrder.serialisable (h : m.InOrder t answered t') : m.Serialisable t answered t' :=
  ⟨answered, .rfl, h⟩

theorem InOrder.nil (t : τ) : m.InOrder t [] t := rfl

/-- One more call. -/
theorem InOrder.call (h : m.InOrder t answered t') (c : κ) :
    m.InOrder t (answered ++ [(c, (m.step t' c).1)]) (m.step t' c).2 := by
  rw [InOrder] at h ⊢
  rw [List.map_append, List.map_append, runFrom_append, h]
  rfl

/-- A machine that does the same for the calls that were made. -/
theorem InOrder.map {κ' ρ' : Type*} {m' : Machine τ κ' ρ'} {f : κ → κ'} {g : ρ → ρ'}
    (h : m.InOrder t answered t')
    (hsame : ∀ x ∈ answered, ∀ t, m'.step t (f x.1) = (m.step t x.1).map g id) :
    m'.InOrder t (answered.map (Prod.map f g)) t' := by
  induction answered generalizing t with
  | nil =>
    obtain rfl : t = t' := congrArg Prod.snd h
    exact .nil t
  | cons x answered ih =>
    simp only [InOrder, List.map_cons, runFrom_cons, Prod.mk.injEq, List.cons.injEq] at h ⊢
    obtain ⟨⟨hr, hrs⟩, ht'⟩ := h
    have hx := hsame x List.mem_cons_self t
    have hrest := ih (Prod.ext hrs ht') fun x' hx' => hsame x' (List.mem_cons_of_mem _ hx')
    rw [Prod.map_fst, hx]
    exact ⟨⟨congrArg g hr, congrArg Prod.fst hrest⟩, congrArg Prod.snd hrest⟩

/-- What a call was answered is what the machine answers after the calls before it. -/
theorem InOrder.answer (h : m.InOrder t answered t') {c : κ} {r : ρ} (hmem : (c, r) ∈ answered) :
    ∃ before, before <+: answered.map Prod.fst ∧ r = (m.step (m.runFrom t before).2 c).1 := by
  induction answered generalizing t with
  | nil => exact absurd hmem List.not_mem_nil
  | cons x answered ih =>
    obtain ⟨c₀, r₀⟩ := x
    simp only [InOrder, List.map_cons, runFrom_cons, Prod.mk.injEq, List.cons.injEq] at h
    obtain ⟨⟨hr₀, hrs⟩, ht'⟩ := h
    rcases List.mem_cons.mp hmem with heq | hmem
    · obtain ⟨rfl, rfl⟩ := Prod.mk.inj heq
      exact ⟨[], List.nil_prefix, hr₀.symm⟩
    · obtain ⟨before, hbefore, hr⟩ := ih (Prod.ext hrs ht') hmem
      exact ⟨c₀ :: before, List.prefix_cons_inj c₀ |>.mpr hbefore, hr⟩

end Machine

namespace System

variable {σ α τ κ ρ : Type*}

/-- Where `P` holds, every allowed action is the point at which one call takes effect, or changes
neither the object nor the answers. -/
structure Linearises (sys : System σ α) (m : Machine τ κ ρ) (ok : σ → α → Prop) (P : σ → Prop)
    (object : σ → τ) (answered : σ → List (κ × ρ)) : Prop where
  keeps : sys.Keeps ok P
  point : ∀ s a s', P s → ok s a → sys.step s a = some s' →
    (object s' = object s ∧ answered s' = answered s) ∨
      ∃ c, object s' = (m.step (object s) c).2 ∧
        answered s' = answered s ++ [(c, (m.step (object s) c).1)]

/-- **The calls, in the order of their points, are a run of the machine.** -/
theorem Linearises.inOrder {sys : System σ α} {m : Machine τ κ ρ} {ok : σ → α → Prop}
    {P : σ → Prop} {object : σ → τ} {answered : σ → List (κ × ρ)}
    (h : sys.Linearises m ok P object answered) {s s' : σ} {as : List α} (hs : P s)
    (hstart : answered s = []) (hrun : sys.run s as = some s') (halong : sys.Along ok s as) :
    m.InOrder (object s) (answered s') (object s') := by
  have hkeeps : sys.Keeps ok fun x => P x ∧ m.InOrder (object s) (answered x) (object x) := by
    rintro x a x' ⟨hx, horder⟩ hok hstep
    refine ⟨h.keeps x a x' hx hok hstep, ?_⟩
    rcases h.point x a x' hx hok hstep with ⟨hobject, hanswered⟩ | ⟨c, hobject, hanswered⟩
    · rw [hobject, hanswered]
      exact horder
    · rw [hobject, hanswered]
      exact horder.call c
  have hinit : m.InOrder (object s) (answered s) (object s) := by
    rw [hstart]
    exact Machine.InOrder.nil _
  exact (hkeeps.run ⟨hs, hinit⟩ hrun halong).2

end System
