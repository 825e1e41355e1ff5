import Ssoa.Lib.Pool

/-!
# Reader/writer locks

An object is used under a reader/writer lock: each call holds the lock from its first access to its
last, either alone (a writer) or together with others (a reader). Readers do not change the object.

While a writer is at work the object may be in a state that no call was meant to see. What a caller
can tell is the object from before (`State.seen`), and so each call takes effect when it returns.

## Main results

* `Lock.exclusion` — a writer is at work alone
* `Lock.linearises`, `Lock.inOrder` — in the order in which they return, the calls are a run of the
  object that answers one call after the other
-/

/-- The calls on an object, with those that change it. -/
structure Lock (τ κ ρ : Type) where
  body : κ → Routine τ ρ
  /-- The call takes the lock alone. -/
  unique : κ → Bool
  readOnly : ∀ c, unique c = false → (body c).ReadOnly

namespace Lock

variable {τ κ ρ : Type} (l : Lock τ κ ρ)

open Pool

/-- The lock is free, or it is shared and the call shares it. -/
def Admits (calls : List κ) (c : κ) : Prop :=
  calls = [] ∨ l.unique c = false ∧ ∀ d ∈ calls, l.unique d = false

instance (calls : List κ) (c : κ) : Decidable (l.Admits calls c) :=
  have : Decidable (calls = []) := decidable_of_iff (calls.isEmpty = true) List.isEmpty_iff
  inferInstanceAs (Decidable (_ ∨ _))

/-- The calls under the lock. -/
def pool : Pool τ κ ρ where
  body := l.body
  admits _ calls c := l.Admits calls c
  decidableAdmits _ calls c := inferInstanceAs (Decidable (l.Admits calls c))

/-- The object as the last writer to return has left it. -/
def seen (s : State τ κ ρ) : τ :=
  match s.running with
  | [r] => r.start
  | _ => s.object

/-- Whoever has the lock can go on as if it had not been interrupted, and a reader finds the object
as it was. -/
structure Held (s : State τ κ ρ) : Prop where
  /-- A writer is at work alone. -/
  alone : ∀ r ∈ s.running, l.unique r.call = true → s.running = [r]
  rest : ∀ r ∈ s.running, r.rest.run s.object = (l.body r.call).run r.start
  reader : ∀ r ∈ s.running, l.unique r.call = false → r.rest.ReadOnly ∧ r.start = s.object

variable {l} {s s' : State τ κ ρ}

theorem seen_of_readers (h : ∀ r ∈ s.running, r.start = s.object) : seen s = s.object := by
  rw [seen]
  split
  · next r hr => exact h r (by rw [hr]; exact List.mem_singleton_self r)
  · rfl

theorem Held.seen_of_mem (h : l.Held s) {r : Running τ κ ρ} (hr : r ∈ s.running) :
    seen s = r.start := by
  cases hunique : l.unique r.call with
  | true =>
    rw [seen, h.alone r hr hunique]
  | false =>
    rw [seen_of_readers, (h.reader r hr hunique).2]
    intro r' hr'
    cases hunique' : l.unique r'.call with
    | false => exact (h.reader r' hr' hunique').2
    | true =>
      have hsingle := h.alone r' hr' hunique'
      rw [hsingle] at hr
      obtain rfl := List.mem_singleton.mp hr
      rw [hunique] at hunique'
      cases hunique'

theorem Held.start (h : l.Held s) {c : κ} (hadmits : l.Admits s.calls c) :
    l.Held { s with running := s.running ++ [⟨c, s.object, l.body c⟩] } := by
  refine ⟨fun r hr hunique => ?_, fun r hr => ?_, fun r hr hshared => ?_⟩
  · rcases hadmits with hnil | ⟨hc, hcalls⟩
    · have hrunning : s.running = [] := List.map_eq_nil_iff.mp hnil
      simp only [hrunning, List.nil_append] at hr ⊢
      rw [List.mem_singleton.mp hr]
    · rcases List.mem_append.mp hr with hr | hr
      · rw [hcalls _ (List.mem_map_of_mem hr)] at hunique
        cases hunique
      · obtain rfl := List.mem_singleton.mp hr
        rw [hc] at hunique
        cases hunique
  · rcases List.mem_append.mp hr with hr | hr
    · exact h.rest r hr
    · obtain rfl := List.mem_singleton.mp hr
      rfl
  · rcases List.mem_append.mp hr with hr | hr
    · exact h.reader r hr hshared
    · obtain rfl := List.mem_singleton.mp hr
      exact ⟨l.readOnly c hshared, rfl⟩

theorem Held.access (h : l.Held s) {i : ℕ} {r : Running τ κ ρ} {change : τ → τ}
    {next : τ → Routine τ ρ} (hr : s.running[i]? = some r) (hrest : r.rest = .access change next) :
    l.Held { s with
      object := change s.object
      running := s.running.set i { r with rest := next s.object } } := by
  have hmem := List.mem_of_getElem? hr
  have hrun := h.rest r hmem
  rw [hrest, Routine.run_access] at hrun
  cases hunique : l.unique r.call with
  | true =>
    -- nobody else has the lock
    have hsingle := h.alone r hmem hunique
    have hi : i = 0 := by
      have hlt := (List.getElem?_eq_some_iff.mp hr).1
      rw [hsingle, List.length_singleton] at hlt
      omega
    subst hi
    refine ⟨fun r' hr' _ => ?_, fun r' hr' => ?_, fun r' hr' hshared => ?_⟩ <;>
      rw [hsingle] at hr' ⊢ <;> obtain rfl := List.mem_singleton.mp hr'
    · rfl
    · exact hrun
    · exact absurd (hunique.symm.trans hshared) (by simp)
  | false =>
    -- the object stays as it is
    obtain ⟨hreadOnly, hstart⟩ := h.reader r hmem hunique
    rw [hrest] at hreadOnly
    have hsame : change s.object = s.object := hreadOnly.1 s.object
    rw [hsame] at hrun ⊢
    refine ⟨fun r' hr' hunique' => ?_, fun r' hr' => ?_, fun r' hr' hshared => ?_⟩
    · rcases List.mem_or_eq_of_mem_set hr' with hr' | rfl
      · have hsingle := h.alone r' hr' hunique'
        rw [hsingle] at hmem
        obtain rfl := List.mem_singleton.mp hmem
        exact absurd (hunique.symm.trans hunique') (by simp)
      · exact absurd (hunique.symm.trans hunique') (by simp)
    · rcases List.mem_or_eq_of_mem_set hr' with hr' | rfl
      · exact h.rest r' hr'
      · exact hrun
    · rcases List.mem_or_eq_of_mem_set hr' with hr' | rfl
      · exact h.reader r' hr' hshared
      · exact ⟨hreadOnly.2 s.object, hstart⟩

theorem Held.finish (h : l.Held s) (i : ℕ) (x : κ × ρ) :
    l.Held { s with running := s.running.eraseIdx i, returned := s.returned ++ [x] } := by
  refine ⟨fun r hr hunique => ?_, fun r hr => ?_, fun r hr => ?_⟩
  · have hsingle := h.alone r (List.mem_of_mem_eraseIdx hr) hunique
    show s.running.eraseIdx i = [r]
    rw [hsingle] at hr ⊢
    cases i with
    | zero => exact absurd hr List.not_mem_nil
    | succ i => rfl
  · exact h.rest r (List.mem_of_mem_eraseIdx hr)
  · exact h.reader r (List.mem_of_mem_eraseIdx hr)

theorem keeps_held (l : Lock τ κ ρ) : l.pool.system.Keeps (fun _ _ => True) l.Held := by
  intro s a s' hs _ hstep
  cases Step.of_step hstep with
  | start c hadmits => exact hs.start hadmits
  | access i r change next hr hrest => exact hs.access hr hrest
  | finish i r result hr hrest => exact hs.finish i _

theorem held_init (l : Lock τ κ ρ) (t : τ) : l.Held { object := t } :=
  ⟨fun _ hr => absurd hr List.not_mem_nil, fun _ hr => absurd hr List.not_mem_nil,
    fun _ hr => absurd hr List.not_mem_nil⟩

/-- **A writer is at work alone**, in every run. -/
theorem exclusion (l : Lock τ κ ρ) {t : τ} {actions : List (Action κ)}
    (hrun : l.pool.system.run { object := t } actions = some s) {r : Running τ κ ρ}
    (hr : r ∈ s.running) (hunique : l.unique r.call = true) : s.running = [r] :=
  ((keeps_held l).run (held_init l t) hrun (System.along_true _ _ _)).alone r hr hunique

/-- Every call takes effect when it returns. -/
theorem linearises (l : Lock τ κ ρ) (t : τ) :
    l.pool.system.Linearises (l.pool.machine t) (fun _ _ => True) l.Held seen State.returned where
  keeps := keeps_held l
  point s a s' hs _ hstep := by
    have hs' := keeps_held l s a s' hs trivial hstep
    cases Step.of_step hstep with
    | start c hadmits =>
      refine .inl ⟨?_, rfl⟩
      rw [hs'.seen_of_mem (r := ⟨c, s.object, l.body c⟩) (by simp [Lock.pool])]
      rcases hadmits with hnil | ⟨-, hcalls⟩
      · rw [seen, List.map_eq_nil_iff.mp hnil]
      · refine (seen_of_readers fun r hr => ?_).symm
        exact (hs.reader r hr (hcalls _ (List.mem_map_of_mem hr))).2
    | access i r change next hr hrest =>
      have hlt := (List.getElem?_eq_some_iff.mp hr).1
      refine .inl ⟨?_, rfl⟩
      rw [hs.seen_of_mem (List.mem_of_getElem? hr),
        hs'.seen_of_mem (r := { r with rest := next s.object }) (List.mem_set hlt _)]
    | finish i r result hr hrest =>
      have hmem := List.mem_of_getElem? hr
      have hrun := hs.rest r hmem
      rw [hrest, Routine.run_done, ← hs.seen_of_mem hmem] at hrun
      refine .inr ⟨r.call, ?_, ?_⟩
      · show _ = ((l.body r.call).run (seen s)).2
        rw [← hrun]
        cases hunique : l.unique r.call with
        | true =>
          -- the lock is free
          have hsingle := hs.alone r hmem hunique
          have hnil : s.running.eraseIdx i = [] := by
            have hlt := (List.getElem?_eq_some_iff.mp hr).1
            rw [hsingle, List.length_singleton] at hlt
            rw [hsingle]
            obtain rfl : i = 0 := by omega
            rfl
          rw [seen, hnil]
        | false =>
          have hobject : seen s = s.object := by
            rw [hs.seen_of_mem hmem, (hs.reader r hmem hunique).2]
          refine seen_of_readers fun r' hr' => ?_
          show r'.start = s.object
          rw [← hobject, hs.seen_of_mem (List.mem_of_mem_eraseIdx hr')]
      · show _ = s.returned ++ [(r.call, ((l.body r.call).run (seen s)).1)]
        rw [← hrun]

/-- **In the order in which they return**, the calls are a run of the object that answers one call
after the other. With nobody at work, that is what has become of the object. -/
theorem inOrder (l : Lock τ κ ρ) {t : τ} {actions : List (Action κ)}
    (hrun : l.pool.system.run { object := t } actions = some s) :
    (l.pool.machine t).InOrder t s.returned (seen s) ∧ (s.running = [] → seen s = s.object) := by
  refine ⟨(linearises l t).inOrder (held_init l t) rfl hrun (System.along_true _ _ _),
    fun hnil => ?_⟩
  rw [seen, hnil]

end Lock
