import Ssoa.Lib.Pool
import Ssoa.Lib.Process
import Mathlib.Data.List.Perm.Basic
import Mathlib.Data.Set.Function

/-!
# Calls that own parts of an object

Calls that run at the same time need no lock if each of them owns a part of the object: it leaves
the other parts alone, and nobody who owns any of its own begins before it has returned. The parts
are seen through a view, which has a value for every key, and a call owns a set of keys.

Then every key goes through the calls that own it one after the other, whatever the others do
meanwhile.

## Main results

* `Routine.Owning.bind`, `Process.Owning.bind` — one routine or process after another
* `Pool.Apart.history_of_run` — the history of a key in a run
-/

namespace Routine

variable {τ ρ π K V : Type}

/-- As long as others keep `I` and what the routine owns, which looks like `f` now, the routine
keeps `I` and what it does not own. What it owns satisfies `A` after every access and `Q` at the
end. -/
def Owning (I : τ → Prop) (view : τ → K → V) (own : Set K) (A : K → V → Prop)
    (Q : ρ → (K → V) → Prop) : Routine τ ρ → (K → V) → Prop
  | done result, f => Q result f
  | access change next, f => ∀ t, I t → Set.EqOn (view t) f own →
      I (change t) ∧ Set.EqOn (view (change t)) (view t) ownᶜ ∧
        (∀ k ∈ own, A k (view (change t) k)) ∧ Owning I view own A Q (next t) (view (change t))

variable {I : τ → Prop} {view : τ → K → V} {own : Set K} {A : K → V → Prop}
  {Q : ρ → (K → V) → Prop} {R : π → (K → V) → Prop}

/-- **One routine after another.** -/
theorem Owning.bind {x : Routine τ ρ} {g : ρ → Routine τ π} {f : K → V}
    (hx : x.Owning I view own A Q f) (hg : ∀ a f', Q a f' → (g a).Owning I view own A R f') :
    (x >>= g).Owning I view own A R f := by
  show (x.andThen g).Owning I view own A R f
  induction x generalizing f with
  | done result => exact hg result f hx
  | access change next ih =>
    intro t ht heq
    obtain ⟨hI, hothers, hA, hnext⟩ := hx t ht heq
    exact ⟨hI, hothers, hA, ih t hnext⟩

theorem Owning.mono {B : K → V → Prop} (hAB : ∀ k ∈ own, ∀ v, A k v → B k v)
    {x : Routine τ ρ} {f : K → V} (h : x.Owning I view own A Q f) : x.Owning I view own B Q f := by
  induction x generalizing f with
  | done result => exact h
  | access change next ih =>
    intro t ht heq
    obtain ⟨hI, hothers, hA, hnext⟩ := h t ht heq
    exact ⟨hI, hothers, fun k hk => hAB k hk _ (hA k hk), ih t hnext⟩

/-- One access. -/
theorem owning_update {g : τ → ρ × τ} {f : K → V}
    (h : ∀ t, I t → Set.EqOn (view t) f own → I (g t).2 ∧
      Set.EqOn (view (g t).2) (view t) ownᶜ ∧ (∀ k ∈ own, A k (view (g t).2 k)) ∧
        Q (g t).1 (view (g t).2)) : (update g).Owning I view own A Q f := h

end Routine

namespace Process

variable {σ τ ω ε α β K V : Type}

/-- The same of a process that does not throw. -/
def Owning (I : τ → Prop) (view : τ → K → V) (own : Set K) (A : K → V → Prop)
    (Q : α → σ → (K → V) → Prop) (x : Process σ τ ε α) (s : σ) (f : K → V) : Prop :=
  (x.run.run s).Owning I view own A (fun r f' => ∃ a, r.1 = .ok a ∧ Q a r.2 f') f

variable {I : τ → Prop} {view : τ → K → V} {own : Set K} {A : K → V → Prop}
  {Q : α → σ → (K → V) → Prop} {R : β → σ → (K → V) → Prop} {s : σ} {f : K → V}

/-- **One process after another.** -/
theorem Owning.bind {x : Process σ τ ε α} {g : α → Process σ τ ε β}
    (hx : x.Owning I view own A Q s f)
    (hg : ∀ a s' f', Q a s' f' → (g a).Owning I view own A R s' f') :
    (x >>= g).Owning I view own A R s f := by
  rw [Owning, ExceptT.run_bind, StateT.run_bind]
  refine Routine.Owning.bind hx ?_
  rintro ⟨_, s'⟩ f' ⟨a, rfl, ha⟩
  exact hg a s' f' ha

/-- No handler is needed. -/
theorem Owning.tryCatch {x : Process σ τ ε α} (handler : ε → Process σ τ ε α)
    (hx : x.Owning I view own A Q s f) :
    Owning I view own A Q (MonadExcept.tryCatch x handler) s f := by
  refine Routine.Owning.bind hx ?_
  rintro ⟨_, s'⟩ f' ⟨a, rfl, ha⟩
  exact ⟨a, rfl, ha⟩

theorem owning_pure {a : α} (h : Q a s f) :
    (pure a : Process σ τ ε α).Owning I view own A Q s f := ⟨a, rfl, h⟩

/-- One step. -/
theorem owning_step (e : ω ≃ σ × τ) {x : Throwing ω ε α}
    (h : ∀ t, I t → Set.EqOn (view t) f own → ∃ a s' t',
      x.run (e.symm (s, t)) = (.ok a, e.symm (s', t')) ∧ I t' ∧
        Set.EqOn (view t') (view t) ownᶜ ∧ (∀ k ∈ own, A k (view t' k)) ∧ Q a s' (view t')) :
    (step e x).Owning I view own A Q s f := by
  intro t ht heq
  obtain ⟨a, s', t', hrun, hI, hothers, hA, hQ⟩ := h t ht heq
  simp only [hrun, e.apply_symm_apply]
  exact ⟨hI, hothers, hA, a, rfl, hQ⟩

end Process

namespace Pool

variable {τ κ ρ K V : Type}

/-- These calls of a key with these results, one after the other, may take it from one value to
another. -/
inductive History (effect : κ → V → ρ → V → Prop) (v : V) : List (κ × ρ) → V → Prop
  | nil : History effect v [] v
  | call {calls : List (κ × ρ)} {u w : V} {c : κ} {result : ρ} (h : History effect v calls u)
      (hc : effect c u result w) : History effect v (calls ++ [(c, result)]) w

/-- Every call changes nothing but what it owns, and on that has its effect; and calls that own the
same do not run at the same time. -/
structure Apart (pool : Pool τ κ ρ) (I : τ → Prop) (view : τ → K → V) (own : κ → Set K)
    (A : κ → K → V → V → Prop) (effect : K → κ → V → ρ → V → Prop) : Prop where
  start : ∀ c k v, A c k v v
  body : ∀ c t, I t → (pool.body c).Owning I view (own c) (fun k => A c k (view t k))
    (fun result f => ∀ k ∈ own c, effect k c (view t k) result (f k)) (view t)
  admits : ∀ t calls c, pool.admits t calls c → ∀ c' ∈ calls, ∀ k ∈ own c', k ∉ own c

variable {pool : Pool τ κ ρ} {I : τ → Prop} {view : τ → K → V} {own : κ → Set K}
  {A : κ → K → V → V → Prop} {effect : K → κ → V → ρ → V → Prop}

/-- What is known of a call that has begun. -/
structure Owner (I : τ → Prop) (view : τ → K → V) (own : κ → Set K) (A : κ → K → V → V → Prop)
    (effect : K → κ → V → ρ → V → Prop) (t : τ) (r : Running τ κ ρ) : Prop where
  always : ∀ k ∈ own r.call, A r.call k (view r.start k) (view t k)
  rest : ∃ f, Set.EqOn (view t) f (own r.call) ∧
    r.rest.Owning I view (own r.call) (fun k => A r.call k (view r.start k))
      (fun result f => ∀ k ∈ own r.call, effect k r.call (view r.start k) result (f k)) f

/-- What others do is nothing to the owner. -/
theorem Owner.frame {t t' : τ} {r : Running τ κ ρ} (h : Owner I view own A effect t r)
    {others : Set K} (hdisjoint : ∀ k ∈ others, k ∉ own r.call)
    (heq : Set.EqOn (view t') (view t) othersᶜ) : Owner I view own A effect t' r := by
  have hsame : Set.EqOn (view t') (view t) (own r.call) :=
    heq.mono fun k hk hother => hdisjoint k hother hk
  obtain ⟨f, hf, hrest⟩ := h.rest
  exact ⟨fun k hk => (hsame hk).symm ▸ h.always k hk, f, hsame.trans hf, hrest⟩

variable [∀ c k, Decidable (k ∈ own c)]

/-- The calls of a key that have returned. -/
def ofKey (own : κ → Set K) [∀ c k, Decidable (k ∈ own c)] (k : K) (returned : List (κ × ρ)) :
    List (κ × ρ) :=
  returned.filter fun x => k ∈ own x.1

theorem ofKey_append_of_mem {k : K} {c : κ} (hk : k ∈ own c) (returned : List (κ × ρ))
    (result : ρ) :
    ofKey own k (returned ++ [(c, result)]) = ofKey own k returned ++ [(c, result)] := by
  rw [ofKey, List.filter_append, List.filter_singleton, decide_eq_true hk]
  rfl

theorem ofKey_append_of_notMem {k : K} {c : κ} (hk : k ∉ own c) (returned : List (κ × ρ))
    (result : ρ) : ofKey own k (returned ++ [(c, result)]) = ofKey own k returned := by
  rw [ofKey, List.filter_append, List.filter_singleton, decide_eq_false hk]
  exact List.append_nil _

/-- What holds in every run: the owners are apart, and every key has its history. -/
structure Keyed (I : τ → Prop) (view : τ → K → V) (own : κ → Set K) [∀ c k, Decidable (k ∈ own c)]
    (A : κ → K → V → V → Prop) (effect : K → κ → V → ρ → V → Prop) (t : τ) (s : State τ κ ρ) :
    Prop where
  object : I s.object
  apart : s.running.Pairwise fun r r' => ∀ k ∈ own r.call, k ∉ own r'.call
  owner : ∀ r ∈ s.running, Owner I view own A effect s.object r
  idle : ∀ k, (∀ r ∈ s.running, k ∉ own r.call) →
    History (effect k) (view t k) (ofKey own k s.returned) (view s.object k)
  busy : ∀ r ∈ s.running, ∀ k ∈ own r.call,
    History (effect k) (view t k) (ofKey own k s.returned) (view r.start k)

theorem perm_cons_eraseIdx {α : Type} {l : List α} {i : ℕ} {a : α} (h : l[i]? = some a) :
    l.Perm (a :: l.eraseIdx i) := by
  obtain ⟨hi, rfl⟩ := List.getElem?_eq_some_iff.mp h
  exact (List.getElem_cons_eraseIdx_perm hi).symm

/-- A call, and those beside it. -/
theorem Keyed.beside {t : τ} {s : State τ κ ρ} (h : Keyed I view own A effect t s) {i : ℕ}
    {r : Running τ κ ρ} (hr : s.running[i]? = some r) :
    (∀ r' ∈ s.running.eraseIdx i, ∀ k ∈ own r.call, k ∉ own r'.call) ∧
      (s.running.eraseIdx i).Pairwise fun r r' => ∀ k ∈ own r.call, k ∉ own r'.call :=
  List.pairwise_cons.mp
    (((perm_cons_eraseIdx hr).pairwise_iff fun h k hk hk' => h k hk' hk).mp h.apart)

/-- **One step.** -/
theorem Apart.keeps_keyed (h : pool.Apart I view own A effect) (t : τ) :
    pool.system.Keeps (fun _ _ => True) (Keyed I view own A effect t) := by
  intro s a s' hs _ hstep
  cases Step.of_step hstep with
  | start c hadmits =>
    have hdisjoint : ∀ r ∈ s.running, ∀ k ∈ own r.call, k ∉ own c := fun r hr =>
      h.admits s.object s.calls c hadmits r.call (List.mem_map_of_mem hr)
    refine ⟨hs.object, ?_, fun r hr => ?_, fun k hk => ?_, fun r hr k hk => ?_⟩
    · refine List.pairwise_append.mpr ⟨hs.apart, List.pairwise_singleton .., fun r hr r' hr' => ?_⟩
      rw [List.mem_singleton.mp hr']
      exact hdisjoint r hr
    · rcases List.mem_append.mp hr with hr | hr
      · exact hs.owner r hr
      · obtain rfl := List.mem_singleton.mp hr
        exact ⟨fun k _ => h.start c k _, _, fun _ _ => rfl, h.body c s.object hs.object⟩
    · exact hs.idle k fun r hr => hk r (List.mem_append_left _ hr)
    · rcases List.mem_append.mp hr with hr | hr
      · exact hs.busy r hr k hk
      · obtain rfl := List.mem_singleton.mp hr
        -- nobody had the key before the call began
        exact hs.idle k fun r' hr' hk' => hdisjoint r' hr' k hk' hk
  | access i r change next hr hrest =>
    obtain ⟨hdisjoint, hapart⟩ := hs.beside hr
    have hperm := perm_cons_eraseIdx hr
    have hi := (List.getElem?_eq_some_iff.mp hr).1
    have hperm' := List.set_perm_cons_eraseIdx hi { r with rest := next s.object }
    obtain ⟨-, f, hf, howning⟩ := hs.owner r (List.mem_of_getElem? hr)
    rw [hrest] at howning
    obtain ⟨hI, hothers, hA, hnext⟩ := howning s.object hs.object hf
    refine ⟨hI, ?_, fun r' hr' => ?_, fun k hk => ?_, fun r' hr' k hk => ?_⟩
    · exact (hperm'.pairwise_iff fun h k hk hk' => h k hk' hk).mpr
        (List.pairwise_cons.mpr ⟨hdisjoint, hapart⟩)
    · rcases List.mem_cons.mp (hperm'.mem_iff.mp hr') with rfl | hr'
      · exact ⟨hA, _, fun _ _ => rfl, hnext⟩
      · exact (hs.owner r' (List.mem_of_mem_eraseIdx hr')).frame (hdisjoint r' hr') hothers
    · have hkr : k ∉ own r.call :=
        hk { r with rest := next s.object } (hperm'.mem_iff.mpr List.mem_cons_self)
      have hidle := hs.idle k fun r' hr' => by
        rcases List.mem_cons.mp (hperm.mem_iff.mp hr') with rfl | hr'
        · exact hkr
        · exact hk r' (hperm'.mem_iff.mpr (List.mem_cons_of_mem _ hr'))
      exact (hothers hkr).symm ▸ hidle
    · rcases List.mem_cons.mp (hperm'.mem_iff.mp hr') with rfl | hr'
      · exact hs.busy r (List.mem_of_getElem? hr) k hk
      · exact hs.busy r' (List.mem_of_mem_eraseIdx hr') k hk
  | finish i r result hr hrest =>
    obtain ⟨hdisjoint, hapart⟩ := hs.beside hr
    have hmem := List.mem_of_getElem? hr
    obtain ⟨-, f, hf, howning⟩ := hs.owner r hmem
    rw [hrest] at howning
    refine ⟨hs.object, hapart, fun r' hr' => hs.owner r' (List.mem_of_mem_eraseIdx hr'),
      fun k hk => ?_, fun r' hr' k hk => ?_⟩
    · by_cases hkr : k ∈ own r.call
      · rw [ofKey_append_of_mem hkr]
        exact (hs.busy r hmem k hkr).call (hf hkr ▸ howning k hkr)
      · rw [ofKey_append_of_notMem hkr]
        refine hs.idle k fun r' hr' => ?_
        rcases List.mem_cons.mp ((perm_cons_eraseIdx hr).mem_iff.mp hr') with rfl | hr'
        · exact hkr
        · exact hk r' hr'
    · have hkr : k ∉ own r.call := fun hkr => hdisjoint r' hr' k hkr hk
      rw [ofKey_append_of_notMem hkr]
      exact hs.busy r' (List.mem_of_mem_eraseIdx hr') k hk

/-- **The history of a key.** Whatever calls were made, and in whatever order they went on, a key
that nobody owns is as the calls that owned it have left it, one after the other. The owner of a key
has found it so. -/
theorem Apart.history_of_run (h : pool.Apart I view own A effect) {t : τ} (ht : I t)
    {actions : List (Action κ)} {s : State τ κ ρ}
    (hrun : pool.system.run { object := t } actions = some s) :
    I s.object ∧
      (∀ k, (∀ r ∈ s.running, k ∉ own r.call) →
        History (effect k) (view t k) (ofKey own k s.returned) (view s.object k)) ∧
      ∀ r ∈ s.running, ∀ k ∈ own r.call,
        History (effect k) (view t k) (ofKey own k s.returned) (view r.start k) ∧
          A r.call k (view r.start k) (view s.object k) := by
  have hstart : Keyed I view own A effect t ({ object := t } : State τ κ ρ) :=
    ⟨ht, List.Pairwise.nil, fun _ hr => absurd hr List.not_mem_nil, fun _ _ => .nil,
      fun _ hr => absurd hr List.not_mem_nil⟩
  have hkeyed := (h.keeps_keyed t).run hstart hrun (pool.system.along_true _ actions)
  exact ⟨hkeyed.object, hkeyed.idle,
    fun r hr k hk => ⟨hkeyed.busy r hr k hk, (hkeyed.owner r hr).always k hk⟩⟩

end Pool
