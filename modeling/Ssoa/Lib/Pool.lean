import Ssoa.Lib.Interleave
import Ssoa.Lib.Routine
import Mathlib.Data.List.Basic

/-!
# Calls whose routines run at the same time

A `Pool` is an object, the routine of each call, and a rule that says beside which calls a call may
begin: a lock lets a call begin only beside some others. The calls that have begun take their
accesses in any order.

## Main results

* `Pool.ensures_of_run` — what every routine ensures under interruption holds in every run
* `Pool.exists_run_idle` — no call that has begun is ever stuck
* `Pool.exists_run_over` — nor if a call may end all of them
-/

/-- An object that calls use at the same time. -/
structure Pool (τ κ ρ : Type) where
  body : κ → Routine τ ρ
  /-- The call may begin, beside these calls. -/
  admits : τ → List κ → κ → Prop
  decidableAdmits : ∀ t calls c, Decidable (admits t calls c)

namespace Pool

variable {τ κ ρ : Type}

/-- A call that has begun: what it found, and what is left of its routine. -/
structure Running (τ κ ρ : Type) where
  call : κ
  start : τ
  rest : Routine τ ρ

/-- The object, the calls that have begun, and those that have returned, with their results. -/
structure State (τ κ ρ : Type) where
  object : τ
  running : List (Running τ κ ρ) := []
  returned : List (κ × ρ) := []

/-- A call begins, or the `i`-th one goes on: with its next access, or by returning. -/
inductive Action (κ : Type) where
  | start (c : κ)
  | resume (i : ℕ)

namespace State

/-- The calls that have begun. -/
def calls (s : State τ κ ρ) : List κ := s.running.map Running.call

def resume (s : State τ κ ρ) (i : ℕ) : Option (State τ κ ρ) :=
  s.running[i]?.map fun r =>
    match r.rest with
    | .done result =>
      { s with
        running := s.running.eraseIdx i
        returned := s.returned ++ [(r.call, result)] }
    | .access change next =>
      { s with
        object := change s.object
        running := s.running.set i { r with rest := next s.object } }

end State

variable (pool : Pool τ κ ρ)

instance (t : τ) (calls : List κ) (c : κ) : Decidable (pool.admits t calls c) :=
  pool.decidableAdmits t calls c

def start (s : State τ κ ρ) (c : κ) : Option (State τ κ ρ) :=
  if pool.admits s.object s.calls c then
    some { s with running := s.running ++ [⟨c, s.object, pool.body c⟩] }
  else none

/-- The calls, in any order of their accesses. -/
def system : System (State τ κ ρ) (Action κ) where
  step s
    | .start c => pool.start s c
    | .resume i => s.resume i

/-- The calls, one after the other. -/
def machine (init : τ) : Machine τ κ ρ := ⟨init, fun t c => (pool.body c).run t⟩

/-- What an action can do. -/
inductive Step (s : State τ κ ρ) : Action κ → State τ κ ρ → Prop
  | start (c : κ) : pool.admits s.object s.calls c →
      Step s (.start c) { s with running := s.running ++ [⟨c, s.object, pool.body c⟩] }
  | access (i : ℕ) (r : Running τ κ ρ) (change : τ → τ) (next : τ → Routine τ ρ) :
      s.running[i]? = some r → r.rest = .access change next →
      Step s (.resume i)
        { s with
          object := change s.object
          running := s.running.set i { r with rest := next s.object } }
  | finish (i : ℕ) (r : Running τ κ ρ) (result : ρ) :
      s.running[i]? = some r → r.rest = .done result →
      Step s (.resume i)
        { s with
          running := s.running.eraseIdx i
          returned := s.returned ++ [(r.call, result)] }

variable {pool} {s s' : State τ κ ρ} {a : Action κ}

theorem Step.of_step (h : pool.system.step s a = some s') : pool.Step s a s' := by
  cases a with
  | start c =>
    have hstart : pool.start s c = some s' := h
    rw [Pool.start] at hstart
    split at hstart
    · next hadmits =>
      obtain rfl := Option.some.inj hstart
      exact .start c hadmits
    · cases hstart
  | resume i =>
    obtain ⟨r, hr, rfl⟩ := Option.map_eq_some_iff.mp h
    split
    · next result hrest => exact .finish i r result hr hrest
    · next change next hrest => exact .access i r change next hr hrest

theorem resume_of_access {i : ℕ} {r : Running τ κ ρ} {change : τ → τ} {next : τ → Routine τ ρ}
    (hr : s.running[i]? = some r) (h : r.rest = .access change next) :
    pool.system.step s (.resume i) = some { s with
      object := change s.object
      running := s.running.set i { r with rest := next s.object } } := by
  show s.resume i = _
  rw [State.resume, hr, Option.map_some, h]

theorem resume_of_done {i : ℕ} {r : Running τ κ ρ} {result : ρ} (hr : s.running[i]? = some r)
    (h : r.rest = .done result) :
    pool.system.step s (.resume i) = some { s with
      running := s.running.eraseIdx i
      returned := s.returned ++ [(r.call, result)] } := by
  show s.resume i = _
  rw [State.resume, hr, Option.map_some, h]

/-! ### What every routine ensures -/

/-- The object has the property, every call that has begun will keep it and return what it promises,
and so have those that have returned. -/
structure Keeping (I : τ → Prop) (Q : κ → ρ → Prop) (s : State τ κ ρ) : Prop where
  object : I s.object
  running : ∀ r ∈ s.running, r.rest.Ensures I (Q r.call)
  returned : ∀ x ∈ s.returned, Q x.1 x.2

variable {I : τ → Prop} {Q : κ → ρ → Prop}

theorem keeps_keeping (h : ∀ c, (pool.body c).Ensures I (Q c)) :
    pool.system.Keeps (fun _ _ => True) (Keeping I Q) := by
  intro s a s' hs _ hstep
  cases Step.of_step hstep with
  | start c hadmits =>
    refine ⟨hs.object, fun r hr => ?_, hs.returned⟩
    rcases List.mem_append.mp hr with hr | hr
    · exact hs.running r hr
    · obtain rfl := List.mem_singleton.mp hr
      exact h c
  | access i r change next hr hrest =>
    have hensures := hs.running r (List.mem_of_getElem? hr)
    rw [hrest] at hensures
    obtain ⟨hchange, hnext⟩ := hensures s.object hs.object
    refine ⟨hchange, fun r' hr' => ?_, hs.returned⟩
    rcases List.mem_or_eq_of_mem_set hr' with hr' | rfl
    · exact hs.running r' hr'
    · exact hnext
  | finish i r result hr hrest =>
    have hensures := hs.running r (List.mem_of_getElem? hr)
    rw [hrest] at hensures
    refine ⟨hs.object, fun r' hr' => hs.running r' (List.mem_of_mem_eraseIdx hr'), fun x hx => ?_⟩
    rcases List.mem_append.mp hx with hx | hx
    · exact hs.returned x hx
    · obtain rfl := List.mem_singleton.mp hx
      exact hensures

/-- **What every routine ensures under interruption** holds of the object and of the results in
every run. -/
theorem ensures_of_run (h : ∀ c, (pool.body c).Ensures I (Q c)) {t : τ} (ht : I t)
    {actions : List (Action κ)} (hrun : pool.system.run { object := t } actions = some s) :
    I s.object ∧ ∀ x ∈ s.returned, Q x.1 x.2 := by
  have hstart : Keeping I Q ({ object := t } : State τ κ ρ) :=
    ⟨ht, fun _ hr => absurd hr List.not_mem_nil, fun _ hx => absurd hx List.not_mem_nil⟩
  have hkeeping := (keeps_keeping h).run hstart hrun (pool.system.along_true _ actions)
  exact ⟨hkeeping.object, hkeeping.returned⟩

/-! ### Going on to the end -/

/-- A call that has begun can be brought to its end. -/
theorem exists_run_finish {i : ℕ} {r : Running τ κ ρ} (hr : s.running[i]? = some r) :
    ∃ actions s', pool.system.run s actions = some s' ∧ s'.running = s.running.eraseIdx i := by
  induction hrest : r.rest generalizing s r with
  | done result =>
    refine ⟨[.resume i], { s with
      running := s.running.eraseIdx i
      returned := s.returned ++ [(r.call, result)] }, ?_, rfl⟩
    rw [System.run_cons, resume_of_done hr hrest]
    rfl
  | access change next ih =>
    have hlt : i < s.running.length := (List.getElem?_eq_some_iff.mp hr).1
    have hset : (s.running.set i { r with rest := next s.object })[i]? =
        some { r with rest := next s.object } := by simp [hlt]
    obtain ⟨actions, s', hrun, hs'⟩ := ih s.object
      (s := { s with object := change s.object, running := _ }) hset rfl
    refine ⟨.resume i :: actions, s', ?_, ?_⟩
    · rw [System.run_cons, resume_of_access hr hrest]
      exact hrun
    · rw [hs', List.eraseIdx_set_eq]

/-- **No call that has begun is ever stuck**: all of them can be brought to their end. -/
theorem exists_run_idle (pool : Pool τ κ ρ) (s : State τ κ ρ) :
    ∃ actions s', pool.system.run s actions = some s' ∧ s'.running = [] := by
  induction hn : s.running.length generalizing s with
  | zero => exact ⟨[], s, rfl, List.eq_nil_of_length_eq_zero hn⟩
  | succ n ih =>
    have hlt : 0 < s.running.length := by omega
    obtain ⟨actions, t, hrun, ht⟩ : ∃ actions t, pool.system.run s actions = some t ∧
        t.running = s.running.eraseIdx 0 :=
      exists_run_finish (List.getElem?_eq_getElem hlt)
    obtain ⟨actions', s', hrun', hs'⟩ := ih t (by
      rw [ht, List.length_eraseIdx_of_lt hlt]
      omega)
    exact ⟨actions ++ actions', s', by rw [System.run_append, hrun, Option.bind_some, hrun'], hs'⟩

/-! ### Results that end all calls -/

section Mortal

variable (fatal : ρ → Prop) [DecidablePred fatal]

/-- All that is left of the call is to return a result that ends all of them. -/
def Running.Fatal (r : Running τ κ ρ) : Prop :=
  match r.rest with
  | .done result => fatal result
  | .access _ _ => False

instance : DecidablePred (Running.Fatal (τ := τ) (κ := κ) fatal)
  | ⟨_, _, .done result⟩ => inferInstanceAs (Decidable (fatal result))
  | ⟨_, _, .access _ _⟩ => inferInstanceAs (Decidable False)

/-- A call has ended all of them. -/
def State.Over (s : State τ κ ρ) : Prop := ∃ x ∈ s.returned, fatal x.2

/-- The action lets such a call return. -/
def State.Ends (s : State τ κ ρ) : Action κ → Prop
  | .start _ => False
  | .resume i => ∃ r ∈ s.running[i]?, r.Fatal fatal

instance (s : State τ κ ρ) : DecidablePred (s.Ends fatal)
  | .start _ => inferInstanceAs (Decidable False)
  | .resume i => inferInstanceAs (Decidable (∃ r ∈ s.running[i]?, r.Fatal fatal))

/-- Nothing happens after such a call has returned, and nothing else before it does. -/
def State.Allows (s : State τ κ ρ) (a : Action κ) : Prop :=
  (∀ x ∈ s.returned, ¬ fatal x.2) ∧ ((∃ r ∈ s.running, r.Fatal fatal) → s.Ends fatal a)

instance (s : State τ κ ρ) (a : Action κ) : Decidable (s.Allows fatal a) :=
  inferInstanceAs (Decidable (_ ∧ (_ → _)))

/-- The calls, in any order of their accesses, until one of them ends all of them. -/
def mortal (pool : Pool τ κ ρ) : System (State τ κ ρ) (Action κ) :=
  pool.system.restrict (State.Allows fatal)

/-- **No call that has begun is ever stuck**, unless all of them are ended. -/
theorem exists_run_over (pool : Pool τ κ ρ) (s : State τ κ ρ) :
    ∃ actions s', (pool.mortal fatal).run s actions = some s' ∧
      (s'.running = [] ∨ s'.Over fatal) := by
  obtain ⟨actions, s', hrun, hidle⟩ := exists_run_idle pool s
  obtain hall | ⟨actions', t, a, hrun', ha⟩ :=
    System.exists_run_restrict (State.Allows fatal) hrun
  · exact ⟨actions, s', hall, .inl hidle⟩
  by_cases hover : t.Over fatal
  · exact ⟨actions', t, hrun', .inr hover⟩
  -- a call is about to end all of them
  have hnot : ∀ x ∈ t.returned, ¬ fatal x.2 := fun x hx hfatal => hover ⟨x, hx, hfatal⟩
  obtain ⟨r, hr, hfatal⟩ : ∃ r ∈ t.running, r.Fatal fatal :=
    by_contra fun hnone => ha ⟨hnot, fun h => absurd h hnone⟩
  obtain ⟨i, hi⟩ := List.mem_iff_getElem?.mp hr
  have hallows : t.Allows fatal (.resume i) := ⟨hnot, fun _ => ⟨r, hi, hfatal⟩⟩
  cases hrest : r.rest with
  | access change next =>
    rw [Running.Fatal, hrest] at hfatal
    exact hfatal.elim
  | done result =>
    rw [Running.Fatal, hrest] at hfatal
    refine ⟨actions' ++ [.resume i], { t with
      running := t.running.eraseIdx i
      returned := t.returned ++ [(r.call, result)] }, ?_,
        .inr ⟨(r.call, result), List.mem_append_right _ (List.mem_singleton_self _), hfatal⟩⟩
    rw [mortal, System.run_append, hrun', Option.bind_some, System.run_cons,
      System.restrict_step_of_allowed hallows, resume_of_done hi hrest]
    rfl

end Mortal

end Pool
