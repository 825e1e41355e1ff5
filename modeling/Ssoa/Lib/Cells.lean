import Ssoa.Lib.Pool
import Mathlib.Data.List.Nodup
import Mathlib.Logic.Function.Basic

/-!
# Calls with a cell of their own

An array is used by calls each of which accesses one cell of it, as files of a folder are by
programs that each have a file. No lock is held: a call may begin whenever no call that is at work
has the same cell, and then all of them go on in any order.

What the array was meant to be, at any time, is what the calls that have returned have made of it
(`State.seen`): where a call is at work, the cell is as the call found it. So each call takes effect
when it returns.

## Main results

* `Routine.run_onCell` — a routine on a cell leaves the others alone
* `Cells.inOrder` — in the order in which they return, the calls are a run of the array that answers
  one call after the other
* `Cells.apply_of_inOrder` — what a cell has become is decided by the calls on it
-/

namespace Routine

variable {ι σ ρ : Type} [DecidableEq ι]

/-- The routine, with one cell of an array as its object. -/
def onCell (k : ι) : Routine σ ρ → Routine (ι → σ) ρ
  | done result => done result
  | access change next =>
    access (fun t => Function.update t k (change (t k))) fun t => onCell k (next (t k))

/-- **A routine on a cell** leaves the others alone. -/
theorem run_onCell (k : ι) (x : Routine σ ρ) (t : ι → σ) :
    (x.onCell k).run t = ((x.run (t k)).1, Function.update t k (x.run (t k)).2) := by
  induction x generalizing t with
  | done result => rw [onCell, run_done, run_done, Function.update_eq_self]
  | access change next ih =>
    rw [onCell, run_access, run_access, ih, Function.update_self, Function.update_idem]

end Routine

/-- The calls on an array, each with its cell. -/
structure Cells (ι σ κ ρ : Type) where
  cell : κ → ι
  body : κ → Routine σ ρ

namespace Cells

variable {ι σ κ ρ : Type} [DecidableEq ι] (cells : Cells ι σ κ ρ)

open Pool

/-- The calls, of which no two are at work on the same cell. -/
def pool : Pool (ι → σ) κ ρ where
  body c := (cells.body c).onCell (cells.cell c)
  admits _ calls c := ∀ d ∈ calls, cells.cell d ≠ cells.cell c
  decidableAdmits _ calls c :=
    inferInstanceAs (Decidable (∀ d ∈ calls, cells.cell d ≠ cells.cell c))

/-- The array as the calls that have returned have left it. -/
def seen (s : State (ι → σ) κ ρ) (k : ι) : σ :=
  match s.running.find? fun r => cells.cell r.call = k with
  | some r => r.start k
  | none => s.object k

/-- Every call that is at work can go on as if it was alone. -/
structure Held (s : State (ι → σ) κ ρ) : Prop where
  nodup : (s.running.map fun r => cells.cell r.call).Nodup
  rest : ∀ r ∈ s.running, ∃ x : Routine σ ρ, r.rest = x.onCell (cells.cell r.call) ∧
    x.run (s.object (cells.cell r.call)) =
      (cells.body r.call).run (r.start (cells.cell r.call))

variable {cells} {s s' : State (ι → σ) κ ρ}

/-- Two calls that are at work have different cells. -/
theorem Held.index_eq (h : cells.Held s) {i j : ℕ} {r r' : Running (ι → σ) κ ρ}
    (hr : s.running[i]? = some r) (hr' : s.running[j]? = some r')
    (hcell : cells.cell r.call = cells.cell r'.call) : i = j := by
  have hlt : i < (s.running.map fun r => cells.cell r.call).length := by
    rw [List.length_map]
    exact (List.getElem?_eq_some_iff.mp hr).1
  refine (List.getElem?_inj hlt h.nodup).mp ?_
  rw [List.getElem?_map, List.getElem?_map, hr, hr', Option.map_some, Option.map_some, hcell]

theorem Held.cell_ne_of_mem_eraseIdx (h : cells.Held s) {i : ℕ} {r r' : Running (ι → σ) κ ρ}
    (hr : s.running[i]? = some r) (hr' : r' ∈ s.running.eraseIdx i) :
    cells.cell r'.call ≠ cells.cell r.call := by
  obtain ⟨j, hj, hr'⟩ := List.mem_eraseIdx_iff_getElem?.mp hr'
  exact fun hcell => hj (h.index_eq hr' hr hcell)

/-! ### What is seen -/

theorem seen_of_forall_ne {k : ι} (h : ∀ r ∈ s.running, cells.cell r.call ≠ k) :
    cells.seen s k = s.object k := by
  rw [seen, List.find?_eq_none.mpr fun r hr => by simpa using h r hr]

theorem Held.seen_of_mem (h : cells.Held s) {r : Running (ι → σ) κ ρ} (hr : r ∈ s.running) :
    cells.seen s (cells.cell r.call) = r.start (cells.cell r.call) := by
  rw [seen]
  cases hfind : s.running.find? fun r' => cells.cell r'.call = cells.cell r.call with
  | none => simpa using List.find?_eq_none.mp hfind r hr
  | some r' =>
    have hcell : cells.cell r'.call = cells.cell r.call := by
      simpa using List.find?_some hfind
    rw [List.inj_on_of_nodup_map h.nodup (List.mem_of_find?_eq_some hfind) hr hcell]

/-- What is seen of an array with these calls at work and these cells. -/
theorem Held.seen_eq (h : cells.Held s) {f : ι → σ}
    (hrunning : ∀ r ∈ s.running, r.start (cells.cell r.call) = f (cells.cell r.call))
    (hfree : ∀ k, (∀ r ∈ s.running, cells.cell r.call ≠ k) → s.object k = f k) :
    cells.seen s = f := by
  funext k
  by_cases hk : ∃ r ∈ s.running, cells.cell r.call = k
  · obtain ⟨r, hr, rfl⟩ := hk
    rw [h.seen_of_mem hr, hrunning r hr]
  · have hne : ∀ r ∈ s.running, cells.cell r.call ≠ k := fun r hr hcell => hk ⟨r, hr, hcell⟩
    rw [seen_of_forall_ne hne, hfree k hne]

/-! ### Every action -/

theorem Held.start (h : cells.Held s) {c : κ}
    (hadmits : ∀ d ∈ s.calls, cells.cell d ≠ cells.cell c) :
    cells.Held { s with running := s.running ++ [⟨c, s.object, cells.pool.body c⟩] } := by
  refine ⟨?_, fun r hr => ?_⟩
  · rw [List.map_append, List.map_singleton, List.nodup_append]
    refine ⟨h.nodup, List.pairwise_singleton _ _, fun k hk k' hk' => ?_⟩
    obtain ⟨r, hr, rfl⟩ := List.mem_map.mp hk
    rw [List.mem_singleton.mp hk']
    exact hadmits r.call (List.mem_map_of_mem hr)
  · rcases List.mem_append.mp hr with hr | hr
    · exact h.rest r hr
    · obtain rfl := List.mem_singleton.mp hr
      exact ⟨cells.body c, rfl, rfl⟩

theorem Held.seen_start (h : cells.Held s) {c : κ}
    (hadmits : ∀ d ∈ s.calls, cells.cell d ≠ cells.cell c) :
    cells.seen { s with running := s.running ++ [⟨c, s.object, cells.pool.body c⟩] } =
      cells.seen s := by
  refine (h.start hadmits).seen_eq (fun r hr => ?_) fun k hk => ?_
  · rcases List.mem_append.mp hr with hr | hr
    · exact (h.seen_of_mem hr).symm
    · obtain rfl := List.mem_singleton.mp hr
      exact (seen_of_forall_ne fun r hr => hadmits r.call (List.mem_map_of_mem hr)).symm
  · exact (seen_of_forall_ne fun r hr => hk r (List.mem_append_left _ hr)).symm

/-- What is left of a routine on a cell. -/
theorem exists_of_onCell_eq_access {k : ι} {x : Routine σ ρ} {change : (ι → σ) → ι → σ}
    {next : (ι → σ) → Routine (ι → σ) ρ} (h : x.onCell k = .access change next) :
    ∃ change' next', x = .access change' next' ∧
      (∀ t, change t = Function.update t k (change' (t k))) ∧
      ∀ t, next t = (next' (t k)).onCell k := by
  cases x with
  | done result => cases h
  | access change' next' =>
    obtain ⟨rfl, rfl⟩ := Routine.access.inj h
    exact ⟨change', next', rfl, fun t => rfl, fun t => rfl⟩

theorem Held.access (h : cells.Held s) {i : ℕ} {r : Running (ι → σ) κ ρ}
    {change : (ι → σ) → ι → σ} {next : (ι → σ) → Routine (ι → σ) ρ} (hr : s.running[i]? = some r)
    (hrest : r.rest = .access change next) :
    cells.Held { s with
      object := change s.object
      running := s.running.set i { r with rest := next s.object } } := by
  obtain ⟨x, hx, hrun⟩ := h.rest r (List.mem_of_getElem? hr)
  obtain ⟨change', next', rfl, hchange, hnext⟩ := exists_of_onCell_eq_access (hx.symm.trans hrest)
  obtain ⟨hlt, hget⟩ := List.getElem?_eq_some_iff.mp hr
  refine ⟨?_, fun r' hr' => ?_⟩
  · have hsame : (s.running.set i { r with rest := next s.object }).map
        (fun r => cells.cell r.call) = s.running.map fun r => cells.cell r.call := by
      rw [List.map_set]
      refine (congrArg _ ?_).trans (List.set_getElem_self (i := i) (by rwa [List.length_map]))
      rw [List.getElem_map, hget]
    exact (congrArg List.Nodup hsame).mpr h.nodup
  · obtain ⟨j, hj⟩ := List.mem_iff_getElem?.mp hr'
    by_cases hij : i = j
    · -- the call itself
      subst hij
      rw [List.getElem?_set_self hlt] at hj
      obtain rfl := Option.some.inj hj
      refine ⟨_, hnext s.object, ?_⟩
      rw [← hrun, Routine.run_access]
      exact congrArg _ ((congrFun (hchange s.object) _).trans (Function.update_self ..))
    · -- another call, whose cell stays as it is
      rw [List.getElem?_set_ne hij] at hj
      obtain ⟨x', hx', hrun'⟩ := h.rest r' (List.mem_of_getElem? hj)
      have hne : cells.cell r'.call ≠ cells.cell r.call := fun hcell =>
        hij (h.index_eq hr hj hcell.symm)
      refine ⟨x', hx', ?_⟩
      rw [← hrun']
      exact congrArg x'.run ((congrFun (hchange s.object) _).trans (Function.update_of_ne hne _ _))

theorem Held.seen_access (h : cells.Held s) {i : ℕ} {r : Running (ι → σ) κ ρ}
    {change : (ι → σ) → ι → σ} {next : (ι → σ) → Routine (ι → σ) ρ} (hr : s.running[i]? = some r)
    (hrest : r.rest = .access change next) :
    cells.seen { s with
      object := change s.object
      running := s.running.set i { r with rest := next s.object } } = cells.seen s := by
  have hmem := List.mem_of_getElem? hr
  have hlt := (List.getElem?_eq_some_iff.mp hr).1
  obtain ⟨x, hx, -⟩ := h.rest r hmem
  obtain ⟨change', next', -, hchange, -⟩ := exists_of_onCell_eq_access (hx.symm.trans hrest)
  refine (h.access hr hrest).seen_eq (fun r' hr' => ?_) fun k hk => ?_
  · rcases List.mem_or_eq_of_mem_set hr' with hr' | rfl
    · exact (h.seen_of_mem hr').symm
    · exact (h.seen_of_mem hmem).symm
  · have hk' : ∀ r' ∈ s.running, cells.cell r'.call ≠ k := by
      intro r' hr'
      obtain ⟨j, hj⟩ := List.mem_iff_getElem?.mp hr'
      by_cases hij : i = j
      · subst hij
        obtain rfl := Option.some.inj (hr.symm.trans hj)
        exact hk { r with rest := next s.object } (List.mem_set hlt _)
      · exact hk r' (List.mem_of_getElem? (i := j) (by rwa [List.getElem?_set_ne hij]))
    rw [seen_of_forall_ne hk']
    show change s.object k = s.object k
    rw [hchange, Function.update_of_ne (hk' r hmem).symm]

theorem Held.finish (h : cells.Held s) {i : ℕ} (y : κ × ρ) :
    cells.Held { s with running := s.running.eraseIdx i, returned := s.returned ++ [y] } := by
  refine ⟨?_, fun r' hr' => h.rest r' (List.mem_of_mem_eraseIdx hr')⟩
  exact h.nodup.sublist ((List.eraseIdx_sublist _ _).map _)

theorem Held.seen_finish (h : cells.Held s) {i : ℕ} {r : Running (ι → σ) κ ρ}
    (hr : s.running[i]? = some r) (y : κ × ρ) :
    cells.seen { s with running := s.running.eraseIdx i, returned := s.returned ++ [y] } =
      Function.update (cells.seen s) (cells.cell r.call) (s.object (cells.cell r.call)) := by
  refine (h.finish y).seen_eq (fun r' hr' => ?_) fun k hk => ?_
  · rw [Function.update_of_ne (h.cell_ne_of_mem_eraseIdx hr hr'),
      h.seen_of_mem (List.mem_of_mem_eraseIdx hr')]
  · by_cases hkr : k = cells.cell r.call
    · rw [hkr, Function.update_self]
    · rw [Function.update_of_ne hkr]
      show s.object k = cells.seen s k
      refine (seen_of_forall_ne fun r' hr' hcell => ?_).symm
      obtain ⟨j, hj⟩ := List.mem_iff_getElem?.mp hr'
      by_cases hij : j = i
      · subst hij
        obtain rfl := Option.some.inj (hr.symm.trans hj)
        exact hkr hcell.symm
      · exact hk r' (List.mem_eraseIdx_iff_getElem?.mpr ⟨j, hij, hj⟩) hcell

/-! ### Runs -/

theorem held_init (cells : Cells ι σ κ ρ) (t : ι → σ) : cells.Held { object := t } :=
  ⟨List.nodup_nil, fun _ hr => absurd hr List.not_mem_nil⟩

theorem keeps_held (cells : Cells ι σ κ ρ) :
    cells.pool.system.Keeps (fun _ _ => True) cells.Held := by
  intro s a s' hs _ hstep
  cases Step.of_step hstep with
  | start c hadmits => exact hs.start hadmits
  | access i r change next hr hrest => exact hs.access hr hrest
  | finish i r result hr hrest => exact hs.finish _

/-- Every call takes effect when it returns. -/
theorem linearises (cells : Cells ι σ κ ρ) (t : ι → σ) :
    cells.pool.system.Linearises (cells.pool.machine t) (fun _ _ => True) cells.Held cells.seen
      State.returned where
  keeps := keeps_held cells
  point s a s' hs _ hstep := by
    cases Step.of_step hstep with
    | start c hadmits => exact .inl ⟨hs.seen_start hadmits, rfl⟩
    | access i r change next hr hrest => exact .inl ⟨hs.seen_access hr hrest, rfl⟩
    | finish i r result hr hrest =>
      have hmem := List.mem_of_getElem? hr
      obtain ⟨x, hx, hrun⟩ := hs.rest r hmem
      obtain rfl : x = .done result := by
        cases x with
        | done result' => rw [Routine.done.inj (hx.symm.trans hrest)]
        | access change next => cases hx.symm.trans hrest
      have hcall : (cells.pool.machine t).step (cells.seen s) r.call =
          (result, Function.update (cells.seen s) (cells.cell r.call)
            (s.object (cells.cell r.call))) := by
        show ((cells.body r.call).onCell (cells.cell r.call)).run (cells.seen s) = _
        rw [Routine.run_onCell, hs.seen_of_mem hmem, ← hrun, Routine.run_done]
      refine .inr ⟨r.call, ?_, ?_⟩
      · rw [hcall, hs.seen_finish hr]
      · rw [hcall]

/-- **In the order in which they return**, the calls are a run of the array that answers one call
after the other. A cell on which no call is at work is what has become of it then. -/
theorem inOrder (cells : Cells ι σ κ ρ) {t : ι → σ} {actions : List (Action κ)}
    (hrun : cells.pool.system.run { object := t } actions = some s) :
    (cells.pool.machine t).InOrder t s.returned (cells.seen s) ∧
      ∀ k, (∀ r ∈ s.running, cells.cell r.call ≠ k) → cells.seen s k = s.object k :=
  ⟨(linearises cells t).inOrder (held_init cells t) rfl hrun (System.along_true _ _ _),
    fun _ hk => seen_of_forall_ne hk⟩

/-- **What a cell has become** is decided by the calls on it. -/
theorem apply_of_inOrder (cells : Cells ι σ κ ρ) {t t' : ι → σ} {answered : List (κ × ρ)}
    (h : (cells.pool.machine t).InOrder t answered t') (k : ι) :
    t' k = ((answered.map Prod.fst).filter fun c => cells.cell c = k).foldl
      (fun content c => ((cells.body c).run content).2) (t k) := by
  have hrun : t' = ((cells.pool.machine t).runFrom t (answered.map Prod.fst)).2 := by rw [h]
  rw [hrun]
  clear h hrun
  generalize hm : cells.pool.machine t = m
  have hstep : ∀ u c, m.step u c = ((cells.body c).onCell (cells.cell c)).run u := by
    rintro u c
    rw [← hm]
    rfl
  clear hm
  induction answered.map Prod.fst generalizing t with
  | nil => rfl
  | cons c calls ih =>
    rw [Machine.runFrom_cons]
    show (m.runFrom (m.step t c).2 calls).2 k = _
    rw [ih, hstep, Routine.run_onCell, List.filter_cons]
    by_cases hc : cells.cell c = k
    · simp [hc]
    · simp [hc, Function.update_of_ne (Ne.symm hc)]

end Cells
