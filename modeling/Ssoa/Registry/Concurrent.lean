import Ssoa.Lib.Interleave
import Ssoa.Registry.Invariant

/-!
# The registry under its reader/writer lock

The threads of the listener share one `RegistryImpl`. An operation that changes the list of
providers holds the lock alone; calls of `lookupService` hold it together, although each of them
moves the cursor of its entry. A lookup that has found its entry reads `lastUsed` for the host,
again for the port and again to advance it, and then writes it: four actions, between which other
lookups may take theirs.

The integrity of the table survives every interleaving.

## Main results

* `keeps_intact`, `intact_of_run` — any interleaving keeps the table well formed
* `exists_access` — no lookup under way is ever stuck
-/

namespace Ssoa

namespace RegistryImpl

/-! ### The actions of a lookup -/

/-- What a `lookupService` that has found its entry has read of it. -/
inductive Progress where
  | found
  | tookHost (host : Text)
  | tookPort (host port : Text)
  | readCursor (host port : Text) (lastUsed : ℕ)
  deriving DecidableEq

namespace Progress

/-- The next action on the entry. The lookup goes on, or returns its answer and leaves the entry
in this state; an index out of range ends it as in `lookupService`. -/
def access (data : ServiceData) :
    Progress → Progress ⊕ (Option (Bool × Text × Text) × ServiceData)
  | .found =>
    match data.providers[data.lastUsed]? with
    | none => .inr (none, data)
    | some pair => .inl (.tookHost pair.1)
  | .tookHost host =>
    match data.providers[data.lastUsed]? with
    | none => .inr (none, data)
    | some pair => .inl (.tookPort host pair.2)
  | .tookPort host port => .inl (.readCursor host port data.lastUsed)
  | .readCursor host port lastUsed =>
    .inr (some (true, host, port), { data with lastUsed }.advance)

/-- The next action writes the cursor. -/
def isLast : Progress → Bool
  | .readCursor _ _ _ => true
  | _ => false

/-- The number of actions to come. -/
def remaining : Progress → ℕ
  | .found => 4
  | .tookHost _ => 3
  | .tookPort _ _ => 2
  | .readCursor _ _ _ => 1

end Progress

/-- A `lookupService` that holds the shared lock. -/
structure Reader where
  signature : ServiceSignature
  host : Text
  port : Text
  progress : Progress := .found

namespace Reader

def name (reader : Reader) : Text := reader.signature.name

/-- The call it belongs to. -/
def operation (reader : Reader) : Operation :=
  .lookupService reader.signature reader.host reader.port

end Reader

/-! ### The shared registry -/

/-- The table, the lookups under way, and the calls answered with their answers. -/
structure Shared where
  registry : RegistryImpl
  readers : List Reader := []
  answered : List (Operation × Answer) := []

/-- A thread makes a call, or the `i`-th lookup under way takes its next action. -/
inductive Action where
  | call (op : Operation)
  | access (i : ℕ)

/-- The operation takes the unique lock. A `registerService` of an invalid signature throws before
it does. -/
def Operation.takesUniqueLock : Operation → Bool
  | .registerService signature _ _ => signature.isValid
  | .deregisterService _ _ _ => true
  | .deregisterServer _ _ => true
  | .lookupService _ _ _ => false

namespace Shared

/-- Perform a whole operation. -/
def perform (s : Shared) (op : Operation) : Shared :=
  { s with
    registry := (s.registry.perform op).2
    answered := s.answered ++ [(op, (s.registry.perform op).1)] }

/-- A call under the unique lock waits for the lookups under way and is one action. A lookup
looks for its entry; if there is none it is over. -/
def call (s : Shared) (op : Operation) : Option Shared :=
  match op with
  | .lookupService signature host port =>
    match s.registry.services[signature.name]? with
    | none => some (s.perform op)
    | some _ => some { s with readers := s.readers ++ [{ signature, host, port }] }
  | op => if op.takesUniqueLock && !s.readers.isEmpty then none else some (s.perform op)

def access (s : Shared) (i : ℕ) : Option Shared :=
  s.readers[i]?.bind fun reader =>
    s.registry.services[reader.name]?.map fun data =>
      match reader.progress.access data with
      | .inl progress => { s with readers := s.readers.set i { reader with progress } }
      | .inr (result, data) =>
        { registry := s.registry.put reader.name data
          readers := s.readers.eraseIdx i
          answered := s.answered ++ [(reader.operation, .lookedUp result)] }

end Shared

/-- The registry as its threads use it. -/
def system : System Shared Action where
  step s
    | .call op => s.call op
    | .access i => s.access i

/-- What an action can do. -/
inductive Step (s : Shared) : Action → Shared → Prop
  | perform (op : Operation) :
      s.readers = [] ∨ (s.registry.perform op).2 = s.registry → Step s (.call op) (s.perform op)
  | find (reader : Reader) (data : ServiceData) :
      s.registry.services[reader.name]? = some data → reader.progress = .found →
      Step s (.call reader.operation) { s with readers := s.readers ++ [reader] }
  | goOn (i : ℕ) (reader : Reader) (data : ServiceData) (progress : Progress) :
      s.readers[i]? = some reader → s.registry.services[reader.name]? = some data →
      reader.progress.access data = .inl progress →
      Step s (.access i) { s with readers := s.readers.set i { reader with progress } }
  | finish (i : ℕ) (reader : Reader) (data data' : ServiceData)
      (result : Option (Bool × Text × Text)) :
      s.readers[i]? = some reader → s.registry.services[reader.name]? = some data →
      reader.progress.access data = .inr (result, data') →
      Step s (.access i)
        { registry := s.registry.put reader.name data'
          readers := s.readers.eraseIdx i
          answered := s.answered ++ [(reader.operation, .lookedUp result)] }

theorem perform_eq_of_not_takesUniqueLock {reg : RegistryImpl} {op : Operation}
    (h : op.takesUniqueLock = false)
    (hop : ∀ signature host port, op ≠ .lookupService signature host port) :
    (reg.perform op).2 = reg := by
  cases op with
  | registerService signature host port =>
    show (reg.registerService signature host port).2 = reg
    rw [registerService_of_invalid h]
  | deregisterService signature host port => cases h
  | deregisterServer host port => cases h
  | lookupService signature host port => exact absurd rfl (hop signature host port)

theorem Shared.call_of_not_lookup {s s' : Shared} {op : Operation} (h : s.call op = some s')
    (hop : ∀ signature host port, op ≠ .lookupService signature host port) :
    s' = s.perform op ∧ (op.takesUniqueLock = false ∨ s.readers = []) := by
  have hcall : s.call op =
      if op.takesUniqueLock && !s.readers.isEmpty then none else some (s.perform op) := by
    cases op with
    | lookupService signature host port => exact absurd rfl (hop signature host port)
    | _ => rfl
  rw [hcall] at h
  split at h
  · cases h
  · next hlock =>
    refine ⟨(Option.some.inj h).symm, ?_⟩
    rw [Bool.not_eq_true, Bool.and_eq_false_iff] at hlock
    simpa using hlock

theorem Step.of_step {s s' : Shared} {a : Action} (h : system.step s a = some s') :
    Step s a s' := by
  cases a with
  | call op =>
    have hcall : s.call op = some s' := h
    by_cases hop : ∀ signature host port, op ≠ .lookupService signature host port
    · obtain ⟨rfl, hlock⟩ := Shared.call_of_not_lookup hcall hop
      refine .perform op (hlock.symm.imp_right fun hlock => ?_)
      exact perform_eq_of_not_takesUniqueLock hlock hop
    · push Not at hop
      obtain ⟨signature, host, port, rfl⟩ := hop
      simp only [Shared.call] at hcall
      cases hdata : s.registry.services[signature.name]? with
      | none =>
        rw [hdata] at hcall
        obtain rfl := Option.some.inj hcall
        refine .perform _ (.inr ?_)
        show (s.registry.lookupService signature host port).2 = s.registry
        rw [lookupService_of_none hdata]
      | some data =>
        rw [hdata] at hcall
        obtain rfl := Option.some.inj hcall
        exact .find { signature, host, port } data hdata rfl
  | access i =>
    obtain ⟨reader, hreader, hrest⟩ := Option.bind_eq_some_iff.mp h
    obtain ⟨data, hdata, rfl⟩ := Option.map_eq_some_iff.mp hrest
    split
    · next progress hprogress => exact .goOn i reader data progress hreader hdata hprogress
    · next result data' hresult => exact .finish i reader data data' result hreader hdata hresult

theorem access_of_inl {s : Shared} {i : ℕ} {reader : Reader} {data : ServiceData}
    {progress : Progress} (hreader : s.readers[i]? = some reader)
    (hdata : s.registry.services[reader.name]? = some data)
    (h : reader.progress.access data = .inl progress) :
    system.step s (.access i) =
      some { s with readers := s.readers.set i { reader with progress } } := by
  show s.access i = _
  rw [Shared.access, hreader, Option.bind_some, hdata, Option.map_some, h]

theorem access_of_inr {s : Shared} {i : ℕ} {reader : Reader} {data data' : ServiceData}
    {result : Option (Bool × Text × Text)} (hreader : s.readers[i]? = some reader)
    (hdata : s.registry.services[reader.name]? = some data)
    (h : reader.progress.access data = .inr (result, data')) :
    system.step s (.access i) =
      some { registry := s.registry.put reader.name data'
             readers := s.readers.eraseIdx i
             answered := s.answered ++ [(reader.operation, .lookedUp result)] } := by
  show s.access i = _
  rw [Shared.access, hreader, Option.bind_some, hdata, Option.map_some, h]

/-! ### What any interleaving keeps -/

/-- The table is well formed, and every lookup under way has an entry, of which `Q` holds with what
the lookup has read. -/
structure Intact (Q : ServiceData → Progress → Prop) (s : Shared) : Prop where
  wellFormed : s.registry.WellFormed
  entry : ∀ reader ∈ s.readers, ∃ data,
    s.registry.services[reader.name]? = some data ∧ Q data reader.progress

/-- On a well-formed entry a lookup goes on until it writes the cursor. -/
theorem Progress.access_cases {data : ServiceData} {name : Text} (h : data.WellFormed name)
    (progress : Progress) :
    (∃ next, progress.access data = .inl next ∧ next.remaining + 1 = progress.remaining) ∨
      ∃ host port lastUsed, progress = .readCursor host port lastUsed ∧
        progress.access data = .inr (some (true, host, port), { data with lastUsed }.advance) := by
  have hlt := h.lastUsed_lt
  have hget : data.providers[data.lastUsed]? = some data.providers[data.lastUsed] :=
    List.getElem?_eq_getElem hlt
  cases progress with
  | found => exact .inl ⟨_, by rw [access, hget], rfl⟩
  | tookHost host => exact .inl ⟨_, by rw [access, hget], rfl⟩
  | tookPort host port => exact .inl ⟨_, rfl, rfl⟩
  | readCursor host port lastUsed => exact .inr ⟨host, port, lastUsed, rfl, rfl⟩

/-- What a lookup leaves of a well-formed entry is well formed, whatever it has read before. -/
theorem Progress.wellFormed_of_inr {data data' : ServiceData} {name : Text}
    (h : data.WellFormed name) {progress : Progress} {result : Option (Bool × Text × Text)}
    (hresult : progress.access data = .inr (result, data')) : data'.WellFormed name := by
  rcases Progress.access_cases h progress with ⟨next, hnext, -⟩ | ⟨host, port, lastUsed, -, hlast⟩
  · rw [hresult] at hnext
    cases hnext
  · obtain ⟨-, rfl⟩ := Prod.mk.inj (Sum.inr.inj (hresult.symm.trans hlast))
    exact h.advance_from lastUsed

variable {Q : ServiceData → Progress → Prop} {s s' : Shared} {a : Action}

theorem Intact.of_getElem? (h : Intact Q s) {i : ℕ} {reader : Reader} {data : ServiceData}
    (hreader : s.readers[i]? = some reader)
    (hdata : s.registry.services[reader.name]? = some data) : Q data reader.progress := by
  obtain ⟨data', hdata', hQ⟩ := h.entry reader (List.mem_of_getElem? hreader)
  obtain rfl := Option.some.inj (hdata.symm.trans hdata')
  exact hQ

/-- What is to be shown of `Q` for an action to keep it: it holds of a lookup that has read
nothing, the reading of a lookup keeps it, and so does the writing of another lookup. -/
theorem Intact.step (h : Intact Q s) (hstep : Step s a s') (hfound : ∀ data, Q data .found)
    (hgoOn : ∀ name data progress next, data.WellFormed name → Q data progress →
      progress.access data = .inl next → Q data next)
    (hfinish : ∀ i reader data data' result, a = .access i → s.readers[i]? = some reader →
      s.registry.services[reader.name]? = some data →
      reader.progress.access data = .inr (result, data') →
      ∀ other ∈ s.readers.eraseIdx i, other.name = reader.name →
        Q data other.progress → Q data' other.progress) : Intact Q s' := by
  cases hstep with
  | perform op hop =>
    refine ⟨invariant.step s.registry op h.wellFormed, fun reader hreader => ?_⟩
    have hmem : reader ∈ s.readers := hreader
    rcases hop with hnone | hsame
    · rw [hnone] at hmem
      exact absurd hmem List.not_mem_nil
    · show ∃ data, (s.registry.perform op).2.services[reader.name]? = some data ∧ _
      rw [hsame]
      exact h.entry reader hmem
  | find reader data hdata hprogress =>
    refine ⟨h.wellFormed, fun reader' hreader' => ?_⟩
    rcases List.mem_append.mp hreader' with hmem | hmem
    · exact h.entry reader' hmem
    · obtain rfl := List.mem_singleton.mp hmem
      exact ⟨data, hdata, hprogress ▸ hfound data⟩
  | goOn i reader data progress hreader hdata hprogress =>
    refine ⟨h.wellFormed, fun reader' hreader' => ?_⟩
    rcases List.mem_or_eq_of_mem_set hreader' with hmem | rfl
    · exact h.entry reader' hmem
    · have hQ := h.of_getElem? hreader hdata
      exact ⟨data, hdata, hgoOn _ data _ _ (h.wellFormed _ _ hdata) hQ hprogress⟩
  | finish i reader data data' result hreader hdata hresult =>
    have hwf := Progress.wellFormed_of_inr (h.wellFormed _ _ hdata) hresult
    refine ⟨h.wellFormed.put hwf, fun other hother => ?_⟩
    obtain ⟨data₁, hdata₁, hQ⟩ := h.entry other (List.mem_of_mem_eraseIdx hother)
    show ∃ data₂, (s.registry.put reader.name data').services[other.name]? = some data₂ ∧ _
    rw [getElem?_put]
    split
    · next hname =>
      rw [← hname, hdata] at hdata₁
      obtain rfl := Option.some.inj hdata₁
      exact ⟨data', rfl, hfinish i reader data data' result rfl hreader hdata hresult other hother
        hname.symm hQ⟩
    · exact ⟨data₁, hdata₁, hQ⟩

/-- **Any interleaving keeps the table well formed.** -/
theorem keeps_intact : system.Keeps (fun _ _ => True) (Intact fun _ _ => True) := by
  intro s a s' h _ hstep
  refine h.step (Step.of_step hstep) (fun _ => trivial) ?_ ?_ <;>
    · intros
      exact trivial

namespace Shared

/-- The number of actions to come of the lookups under way. -/
def remaining (s : Shared) : ℕ := (s.readers.map fun reader => reader.progress.remaining).sum

end Shared

/-- **No lookup under way is ever stuck.** Each of its actions is enabled and brings it nearer to
its end. -/
theorem exists_access (h : Intact Q s) {i : ℕ} (hi : i < s.readers.length) :
    ∃ s', system.step s (.access i) = some s' ∧ s'.remaining + 1 = s.remaining := by
  have hreader : s.readers[i]? = some s.readers[i] := List.getElem?_eq_getElem hi
  obtain ⟨data, hdata, -⟩ := h.entry _ (List.getElem_mem hi)
  have hsum : s.remaining = s.readers[i].progress.remaining +
      ((s.readers.eraseIdx i).map fun reader => reader.progress.remaining).sum := by
    rw [Shared.remaining, ← ((List.getElem_cons_eraseIdx_perm hi).map _).sum_nat]
    rfl
  rcases Progress.access_cases (h.wellFormed _ _ hdata) s.readers[i].progress with
    ⟨next, hnext, hremaining⟩ | ⟨host, port, lastUsed, hprogress, hlast⟩
  · refine ⟨_, access_of_inl hreader hdata hnext, ?_⟩
    rw [hsum, Shared.remaining, ((List.set_perm_cons_eraseIdx hi _).map _).sum_nat,
      List.map_cons, List.sum_cons]
    dsimp only
    omega
  · refine ⟨_, access_of_inr hreader hdata hlast, ?_⟩
    rw [hsum, hprogress]
    exact Nat.add_comm _ _

/-- The lookups under way can all be brought to their end. -/
theorem exists_run_readers_nil (h : Intact (fun _ _ => True) s) :
    ∃ actions s', system.run s actions = some s' ∧ s'.readers = [] := by
  induction hn : s.remaining generalizing s with
  | zero =>
    refine ⟨[], s, rfl, ?_⟩
    by_contra hne
    obtain ⟨s', -, hs'⟩ := exists_access h (List.length_pos_iff.mpr hne)
    omega
  | succ n ih =>
    have hne : s.readers ≠ [] := by
      intro hnil
      rw [Shared.remaining, hnil] at hn
      cases hn
    obtain ⟨s₁, hstep, hs₁⟩ := exists_access h (List.length_pos_iff.mpr hne)
    obtain ⟨actions, s', hrun, hnil⟩ :=
      ih (keeps_intact s _ s₁ h trivial hstep) (by omega)
    exact ⟨.access 0 :: actions, s', by rw [System.run_cons, hstep, Option.bind_some, hrun], hnil⟩

/-- **The table of a reachable registry survives every run**, and every run can go on until no
lookup is under way. -/
theorem intact_of_run (operations : List Operation) {actions : List Action}
    (hrun : system.run ⟨(machine.runFrom machine.init operations).2, [], []⟩ actions = some s) :
    Intact (fun _ _ => True) s ∧
      ∃ actions' s', system.run s actions' = some s' ∧ s'.readers = [] := by
  have hstart : Intact (fun _ _ => True) ⟨(machine.runFrom machine.init operations).2, [], []⟩ :=
    ⟨Reachable.wellFormed ⟨operations, rfl⟩, fun _ hreader => absurd hreader List.not_mem_nil⟩
  have hintact : Intact (fun _ _ => True) s :=
    keeps_intact.run hstart hrun (system.along_true _ actions)
  exact ⟨hintact, exists_run_readers_nil hintact⟩

end RegistryImpl

end Ssoa
