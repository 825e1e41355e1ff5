import Ssoa.Registry.Concurrent
import Ssoa.Registry.Directory
import Mathlib.Data.List.Permutation

/-!
# Overlapping calls of the registry

A run of the shared registry is `Linearised` if its answers and its table are those of the same
calls made one after the other. The point at which a lookup takes effect is its last action, which
writes the cursor. It is one there if what the lookup has read before is what it would read now,
and that can be said in terms of the schedule: nobody has moved the cursor in between.

## Main results

* `linearises`, `linearised` — a run is linearised when no lookup disturbs another
* `Linearised.allows` — a linearised run is one of the directory
* `not_linearised` — two lookups that return the host of one provider with the port of another
* `exists_not_linearised` — every entry with several providers can lose an advance of its cursor
-/

namespace Ssoa

namespace RegistryImpl

/-- The calls of a run. -/
def calls : List Action → List Operation
  | [] => []
  | .call op :: actions => op :: calls actions
  | .access _ :: actions => calls actions

/-- The calls answered, and those under way. -/
def Shared.calls (s : Shared) : List Operation :=
  s.answered.map Prod.fst ++ s.readers.map Reader.operation

/-- The calls made are those answered and those under way; the answers and the table are those of
the answered calls made one after the other, in some order; and a provider that a lookup returns
is one that the name has at the point of the call in this order. -/
structure Linearised (reg : RegistryImpl) (actions : List Action) (s : Shared) : Prop where
  calls : s.calls.Perm (calls actions)
  sequential : machine.Serialisable reg s.answered s.registry
  provider : ∀ (signature : ServiceSignature) (host port : Text) (pair : Provider),
    (.lookupService signature host port, .lookedUp (some (true, pair))) ∈ s.answered →
      ∃ before, before ⊆ s.answered.map Prod.fst ∧
        ∃ data, (machine.runFrom reg before).2.services[signature.name]? = some data ∧
          pair ∈ data.providers

/-- Unless the entry has a single provider, a lookup writes the cursor only where no other lookup
of the entry has taken its host. -/
def Undisturbed (s : Shared) : Action → Prop
  | .call _ => True
  | .access i =>
    ∀ reader ∈ s.readers[i]?, ∀ data ∈ s.registry.services[reader.name]?,
      reader.progress.isLast = true → 1 < data.providers.length →
        ∀ other ∈ s.readers.eraseIdx i, other.name = reader.name → other.progress = .found

instance (s : Shared) : ∀ a, Decidable (Undisturbed s a)
  | .call _ => .isTrue trivial
  | .access i =>
    inferInstanceAs (Decidable (∀ reader ∈ s.readers[i]?,
      ∀ data ∈ s.registry.services[reader.name]?,
        reader.progress.isLast = true → 1 < data.providers.length →
          ∀ other ∈ s.readers.eraseIdx i, other.name = reader.name → other.progress = .found))

/-! ### What a lookup has read -/

/-- What the lookup has read is what it would read now. -/
def Progress.Agrees (data : ServiceData) : Progress → Prop
  | .found => True
  | .tookHost host => ∃ port, data.providers[data.lastUsed]? = some (host, port)
  | .tookPort host port => data.providers[data.lastUsed]? = some (host, port)
  | .readCursor host port lastUsed =>
    data.providers[data.lastUsed]? = some (host, port) ∧ lastUsed = data.lastUsed

/-- The lookups under way agree with their entries. -/
abbrev Coherent : Shared → Prop := Intact fun data progress => progress.Agrees data

/-- The next action of a lookup that agrees with its entry: it agrees afterwards, or it returns
the provider at the cursor and advances it. -/
theorem Progress.Agrees.access {data : ServiceData} {name : Text} (hdata : data.WellFormed name)
    {progress : Progress} (h : progress.Agrees data) :
    (∃ next, progress.access data = .inl next ∧ next.Agrees data) ∨
      ∃ pair, data.providers[data.lastUsed]? = some pair ∧ progress.isLast = true ∧
        progress.access data = .inr (some (true, pair), data.advance) := by
  obtain ⟨pair, hget⟩ : ∃ pair, data.providers[data.lastUsed]? = some pair :=
    ⟨_, List.getElem?_eq_getElem hdata.lastUsed_lt⟩
  cases progress with
  | found => exact .inl ⟨.tookHost pair.1, by rw [Progress.access, hget], pair.2, hget⟩
  | tookHost host =>
    obtain ⟨port, hpair⟩ := h
    exact .inl ⟨.tookPort host port, by rw [Progress.access, hpair], hpair⟩
  | tookPort host port => exact .inl ⟨.readCursor host port data.lastUsed, rfl, h, rfl⟩
  | readCursor host port lastUsed =>
    obtain ⟨hpair, rfl⟩ := h
    exact .inr ⟨(host, port), hpair, rfl, rfl⟩

/-- The cursor of a single provider does not move. -/
theorem advance_eq_self {data : ServiceData} {name : Text} (h : data.WellFormed name)
    (hlen : data.providers.length ≤ 1) : data.advance = data := by
  have hlt := h.lastUsed_lt
  have hone : data.providers.length = 1 := by omega
  have hzero : data.lastUsed = 0 := by omega
  obtain ⟨signature, providers, lastUsed⟩ := data
  obtain rfl : lastUsed = 0 := hzero
  simp [ServiceData.advance, show providers.length = 1 from hone]

/-- A lookup that returns the provider at the cursor and advances it. -/
theorem perform_operation {reg : RegistryImpl} {reader : Reader} {data : ServiceData}
    {pair : Provider} (hdata : reg.services[reader.name]? = some data)
    (hpair : data.providers[data.lastUsed]? = some pair) :
    reg.perform reader.operation =
      (.lookedUp (some (true, pair)), reg.put reader.name data.advance) := by
  show (reg.lookupService reader.signature reader.host reader.port).map Answer.lookedUp id = _
  rw [lookupService, show reg.services[reader.signature.name]? = some data from hdata]
  simp [hpair, Reader.name]

/-! ### Undisturbed runs -/

/-- The last action of a lookup that agrees with its entry. -/
theorem Coherent.finish {s : Shared} (h : Coherent s) {i : ℕ} {reader : Reader}
    {data data' : ServiceData} {result : Option (Bool × Text × Text)}
    (hreader : s.readers[i]? = some reader)
    (hdata : s.registry.services[reader.name]? = some data)
    (hresult : reader.progress.access data = .inr (result, data')) :
    reader.progress.isLast = true ∧ data' = data.advance ∧
      s.registry.perform reader.operation =
        (.lookedUp result, s.registry.put reader.name data.advance) := by
  rcases (h.of_getElem? hreader hdata).access (h.wellFormed _ _ hdata) with
    ⟨_, hnext, -⟩ | ⟨pair, hpair, hlast, heq⟩
  · rw [hresult] at hnext
    cases hnext
  · obtain ⟨rfl, rfl⟩ := Prod.mk.inj (Sum.inr.inj (hresult.symm.trans heq))
    exact ⟨hlast, rfl, perform_operation hdata hpair⟩

theorem keeps_coherent : system.Keeps Undisturbed Coherent := by
  intro s a s' h hok hstep
  refine h.step (Step.of_step hstep) (fun _ => trivial) ?_ ?_
  · intro name data progress next hwf hagrees hnext
    rcases hagrees.access hwf with ⟨next', hnext', hagrees'⟩ | ⟨_, -, -, hlast⟩
    · obtain rfl := Sum.inl.inj (hnext.symm.trans hnext')
      exact hagrees'
    · rw [hnext] at hlast
      cases hlast
  · rintro i reader data data' result rfl hreader hdata hresult other hother hname hagrees
    obtain ⟨hlast, rfl, -⟩ := h.finish hreader hdata hresult
    -- the cursor stays, or the other lookup has read nothing yet
    by_cases hlen : 1 < data.providers.length
    · rw [hok reader hreader data hdata hlast hlen other hother hname]
      exact trivial
    · rw [advance_eq_self (h.wellFormed _ _ hdata) (by omega)]
      exact hagrees

/-- **Undisturbed, a lookup takes effect when it writes the cursor**, and every other operation
when it is performed. -/
theorem linearises :
    system.Linearises machine Undisturbed Coherent Shared.registry Shared.answered where
  keeps := keeps_coherent
  point := by
    intro s a s' h _ hstep
    cases Step.of_step hstep with
    | perform op _ => exact .inr ⟨op, rfl, rfl⟩
    | find reader data hdata hfound => exact .inl ⟨rfl, rfl⟩
    | goOn i reader data progress hreader hdata hprogress => exact .inl ⟨rfl, rfl⟩
    | finish i reader data data' result hreader hdata hresult =>
      obtain ⟨-, rfl, hperform⟩ := h.finish hreader hdata hresult
      refine .inr ⟨reader.operation, ?_, ?_⟩
      · show s.registry.put reader.name data.advance = (s.registry.perform reader.operation).2
        rw [hperform]
      · show s.answered ++ _ = s.answered ++ [(reader.operation, (s.registry.perform _).1)]
        rw [hperform]

theorem calls_cons (a : Action) (actions : List Action) :
    calls (a :: actions) = calls [a] ++ calls actions := by
  cases a <;> rfl

/-- An action adds the call it makes. -/
theorem Step.calls {s s' : Shared} {a : Action} (h : Step s a s') :
    s'.calls.Perm (s.calls ++ RegistryImpl.calls [a]) := by
  cases h with
  | perform op _ =>
    show (List.map _ (s.answered ++ [(op, _)]) ++ _).Perm _
    rw [List.map_append, List.append_assoc, Shared.calls, List.append_assoc]
    exact List.perm_append_comm.append_left _
  | find reader data hdata hfound =>
    show (_ ++ List.map _ (s.readers ++ [reader])).Perm _
    rw [List.map_append, ← List.append_assoc]
    rfl
  | goOn i reader data progress hreader hdata hprogress =>
    have hsame : (s.readers.set i { reader with progress }).map Reader.operation =
        s.readers.map Reader.operation := by
      refine List.ext_getElem? fun j => ?_
      rw [List.getElem?_map, List.getElem?_map, List.getElem?_set]
      split
      · next hij =>
        subst hij
        have hi : i < s.readers.length := (List.getElem?_eq_some_iff.mp hreader).1
        rw [if_pos hi, hreader]
        rfl
      · rfl
    show (_ ++ List.map _ (s.readers.set i _)).Perm _
    rw [hsame, RegistryImpl.calls, RegistryImpl.calls, List.append_nil]
    rfl
  | finish i reader data data' result hreader hdata hresult =>
    obtain ⟨hi, rfl⟩ := List.getElem?_eq_some_iff.mp hreader
    have hperm : (s.readers[i] :: s.readers.eraseIdx i).Perm s.readers :=
      List.getElem_cons_eraseIdx_perm hi
    show (List.map _ (s.answered ++ [(s.readers[i].operation, _)]) ++ _).Perm _
    rw [List.map_append, List.append_assoc, RegistryImpl.calls, RegistryImpl.calls,
      List.append_nil]
    exact (hperm.map Reader.operation).append_left _

/-- No call gets lost, whatever the interleaving. -/
theorem calls_perm {s s' : Shared} {actions : List Action} (h : system.run s actions = some s') :
    s'.calls.Perm (s.calls ++ calls actions) := by
  induction actions generalizing s with
  | nil =>
    obtain rfl := Option.some.inj h
    rw [calls, List.append_nil]
  | cons a actions ih =>
    obtain ⟨t, ht, hrest⟩ := Option.bind_eq_some_iff.mp h
    rw [calls_cons, ← List.append_assoc]
    exact (ih hrest).trans ((Step.of_step ht).calls.append_right _)

/-- A provider that a lookup returns is one its entry has. -/
theorem provider_of_lookedUp {reg : RegistryImpl} {signature : ServiceSignature}
    {host port : Text} {pair : Provider}
    (h : .lookedUp (some (true, pair)) =
      (machine.step reg (.lookupService signature host port)).1) :
    ∃ data, reg.services[signature.name]? = some data ∧ pair ∈ data.providers := by
  have hres : (reg.lookupService signature host port).1 = some (true, pair) :=
    (Answer.lookedUp.inj h).symm
  rw [lookupService] at hres
  split at hres
  · cases hres
  · next data hdata =>
    split at hres
    · cases hres
    · next host' port' hpair =>
      obtain rfl : (host', port') = pair := (Prod.mk.inj (Option.some.inj hres)).2
      exact ⟨data, hdata, List.mem_of_getElem? hpair⟩

theorem linearised_of_serialisable {reg : RegistryImpl} {actions : List Action} {s : Shared}
    (hrun : system.run ⟨reg, [], []⟩ actions = some s)
    (h : machine.Serialisable reg s.answered s.registry) : Linearised reg actions s where
  calls := calls_perm hrun
  sequential := h
  provider := by
    intro signature host port pair hmem
    obtain ⟨order, hperm, horder⟩ := h
    obtain ⟨before, hbefore, hanswer⟩ := horder.answer (hperm.mem_iff.mpr hmem)
    have hsub : before ⊆ s.answered.map Prod.fst := fun op hop =>
      (hperm.map Prod.fst).mem_iff.mp (hbefore.subset hop)
    exact ⟨before, hsub, provider_of_lookedUp hanswer⟩

/-- **A linearised run is one of the directory**: in some order, every call was answered and
changed the offers as the directory prescribes. -/
theorem Linearised.allows {reg : RegistryImpl} {actions : List Action} {s : Shared}
    (h : Linearised reg actions s) (hreg : reg.WellFormed) :
    ∃ order : List (Operation × Answer), order.Perm s.answered ∧
      Machine.Allows Allowed reg.offers (order.map Prod.fst) (order.map Prod.snd)
        s.registry.offers := by
  obtain ⟨order, hperm, horder⟩ := h.sequential
  have hrun := refines.run hreg (order.map Prod.fst)
  rw [horder] at hrun
  exact ⟨order, hperm, hrun⟩

/-- **Undisturbed runs from any reachable registry are linearised.** -/
theorem linearised (operations : List Operation) (actions : List Action) (s : Shared)
    (hrun : system.run ⟨(machine.runFrom machine.init operations).2, [], []⟩ actions = some s)
    (hok : system.Along Undisturbed ⟨(machine.runFrom machine.init operations).2, [], []⟩ actions) :
    Linearised (machine.runFrom machine.init operations).2 actions s := by
  have hcoherent : Coherent ⟨(machine.runFrom machine.init operations).2, [], []⟩ :=
    ⟨Reachable.wellFormed ⟨operations, rfl⟩, fun _ hreader => absurd hreader List.not_mem_nil⟩
  have horder := linearises.inOrder hcoherent rfl hrun hok
  exact linearised_of_serialisable hrun horder.serialisable

/-- Whatever the order of two equal calls, the calls are the same. -/
theorem map_fst_of_perm_pair {order : List (Operation × Answer)} {op : Operation}
    {answer answer' : Answer} (h : order.Perm [(op, answer), (op, answer')]) :
    order.map Prod.fst = [op, op] := by
  rcases List.perm_pair.mp h with rfl | rfl <;> rfl

/-- `f(in int)` at two providers. -/
def twoProviders : List Operation :=
  [.registerService (.ofText (txt "f(in int)")) (txt "a") (txt "1"),
    .registerService (.ofText (txt "f(in int)")) (txt "b") (txt "2")]

/-- A lookup of `f`. -/
def lookupF : Operation := .lookupService (.ofText (txt "f(in int)")) [] []

/-- Two lookups of one entry that are under way together, and a call that waits for them. -/
theorem linearised_sample :
    let reg := (machine.runFrom machine.init twoProviders).2
    let actions : List Action := [.call lookupF, .call lookupF, .access 0, .access 0, .access 0,
      .access 0, .access 0, .access 0, .access 0, .access 0,
      .call (.deregisterServer (txt "a") (txt "1"))]
    ∃ s, system.run ⟨reg, [], []⟩ actions = some s ∧
      s.answered = [(lookupF, .lookedUp (some (true, txt "a", txt "1"))),
        (lookupF, .lookedUp (some (true, txt "b", txt "2"))),
        (.deregisterServer (txt "a") (txt "1"), .removed 1)] ∧
      Linearised reg actions s := by
  intro reg actions
  have hanswered : (system.run ⟨reg, [], []⟩ actions).map Shared.answered =
      some [(lookupF, .lookedUp (some (true, txt "a", txt "1"))),
        (lookupF, .lookedUp (some (true, txt "b", txt "2"))),
        (.deregisterServer (txt "a") (txt "1"), .removed 1)] := by decide +kernel
  have hok : system.Along Undisturbed ⟨reg, [], []⟩ actions := by decide +kernel
  obtain ⟨s, hrun, hs⟩ := Option.map_eq_some_iff.mp hanswered
  exact ⟨s, hrun, hs, linearised twoProviders actions s hrun hok⟩

/-- **A lookup that returns the host of one provider and the port of another.** The first lookup
takes its host; the second one runs from its start to its end; then the first one goes on. -/
theorem not_linearised :
    let reg := (machine.runFrom machine.init twoProviders).2
    let actions : List Action := [.call lookupF, .access 0, .call lookupF, .access 1, .access 1,
      .access 1, .access 1, .access 0, .access 0, .access 0]
    ∃ s, system.run ⟨reg, [], []⟩ actions = some s ∧ s.readers = [] ∧
      s.answered = [(lookupF, .lookedUp (some (true, txt "a", txt "1"))),
        (lookupF, .lookedUp (some (true, txt "a", txt "2")))] ∧
      ¬ Linearised reg actions s := by
  intro reg actions
  have hend : (system.run ⟨reg, [], []⟩ actions).map (fun s => (s.readers.length, s.answered)) =
      some (0, [(lookupF, .lookedUp (some (true, txt "a", txt "1"))),
        (lookupF, .lookedUp (some (true, txt "a", txt "2")))]) := by decide +kernel
  have hsequential : (machine.runFrom reg [lookupF, lookupF]).1 =
      [.lookedUp (some (true, txt "a", txt "1")), .lookedUp (some (true, txt "b", txt "2"))] := by
    decide +kernel
  obtain ⟨s, hrun, hs⟩ := Option.map_eq_some_iff.mp hend
  obtain ⟨hreaders, hanswered⟩ := Prod.mk.inj hs
  refine ⟨s, hrun, List.eq_nil_of_length_eq_zero hreaders, hanswered, fun h => ?_⟩
  obtain ⟨order, hperm, horder⟩ := h.sequential
  rw [hanswered] at hperm
  rw [Machine.InOrder, map_fst_of_perm_pair hperm] at horder
  have hmem : Answer.lookedUp (some (true, txt "a", txt "2")) ∈ order.map Prod.snd :=
    (hperm.map Prod.snd).mem_iff.mpr (by simp)
  have hanswers : (machine.runFrom reg [lookupF, lookupF]).1 = order.map Prod.snd :=
    congrArg Prod.fst horder
  rw [← hanswers, hsequential] at hmem
  exact absurd hmem (by decide +kernel)

/-! ### Lost advances -/

/-- The cursor of several providers moves. -/
theorem advance_ne_self {data : ServiceData} {name : Text} (h : data.WellFormed name)
    (hlen : 1 < data.providers.length) : data.advance ≠ data := by
  intro heq
  have hlt := h.lastUsed_lt
  have hmod : (data.lastUsed + 1) % data.providers.length = data.lastUsed := by
    have hcursor := congrArg ServiceData.lastUsed heq
    rwa [ServiceData.advance, if_pos (by omega)] at hcursor
  rcases Nat.lt_or_ge (data.lastUsed + 1) data.providers.length with hnext | hlast
  · rw [Nat.mod_eq_of_lt hnext] at hmod
    omega
  · rw [show data.lastUsed + 1 = data.providers.length by omega, Nat.mod_self] at hmod
    omega

/-- Left alone, a lookup reads everything of the provider at the cursor. -/
theorem run_access_three {s : Shared} {i : ℕ} {reader : Reader} {data : ServiceData}
    {pair : Provider} (hreader : s.readers[i]? = some reader)
    (hfound : reader.progress = .found)
    (hdata : s.registry.services[reader.name]? = some data)
    (hpair : data.providers[data.lastUsed]? = some pair) :
    system.run s [.access i, .access i, .access i] =
      some { s with
        readers := s.readers.set i
          { reader with progress := .readCursor pair.1 pair.2 data.lastUsed } } := by
  have hi : i < s.readers.length := (List.getElem?_eq_some_iff.mp hreader).1
  have hgoOn : ∀ progress next : Progress, progress.access data = .inl next →
      system.step { s with readers := s.readers.set i { reader with progress } } (.access i) =
        some { s with readers := s.readers.set i { reader with progress := next } } := by
    intro progress next hnext
    have hget : (s.readers.set i { reader with progress })[i]? = some { reader with progress } := by
      simp [hi]
    have hstep := access_of_inl
      (s := { s with readers := s.readers.set i { reader with progress } }) hget hdata hnext
    rw [hstep, List.set_set]
  have hhost : reader.progress.access data = .inl (.tookHost pair.1) := by
    rw [hfound, Progress.access, hpair]
  have hport : (Progress.tookHost pair.1).access data = .inl (.tookPort pair.1 pair.2) := by
    rw [Progress.access, hpair]
  rw [System.run_cons, access_of_inl hreader hdata hhost, Option.bind_some, System.run_cons,
    hgoOn _ _ hport, Option.bind_some, System.run_cons, hgoOn _ _ rfl, Option.bind_some,
    System.run_nil]

/-- **Every entry with several providers can lose an advance.** A lookup reads everything, another
one runs from its start to its end, and the first one writes: both have got the same provider and
the cursor has moved by one. -/
theorem exists_not_linearised {reg : RegistryImpl} (h : reg.WellFormed)
    {signature : ServiceSignature} {data : ServiceData}
    (hdata : reg.services[signature.name]? = some data) (hlen : 1 < data.providers.length)
    (host port : Text) :
    let op : Operation := .lookupService signature host port
    let actions : List Action := [.call op, .call op] ++ ([.access 0, .access 0, .access 0] ++
      ([.access 1, .access 1, .access 1] ++ [.access 1, .access 0]))
    ∃ s, system.run ⟨reg, [], []⟩ actions = some s ∧ s.readers = [] ∧
      ¬ Linearised reg actions s := by
  intro op actions
  have hwf := h _ _ hdata
  have hput := h.put hwf.advance
  have hdata' : (reg.put signature.name data.advance).services[signature.name]? =
      some data.advance := by
    rw [getElem?_put, if_pos rfl]
  obtain ⟨pair, -, hpair, hfirst⟩ := lookupService_of_some h hdata host port
  obtain ⟨pair', -, -, hsecond⟩ := lookupService_of_some hput hdata' host port
  have hrun : system.run ⟨reg, [], []⟩ actions =
      some ⟨(reg.put signature.name data.advance).put signature.name data.advance, [],
        [(op, .lookedUp (some (true, pair))), (op, .lookedUp (some (true, pair)))]⟩ := by
    have hcalls : system.run ⟨reg, [], []⟩ [.call op, .call op] =
        some ⟨reg, [⟨signature, host, port, .found⟩, ⟨signature, host, port, .found⟩], []⟩ := by
      simp [op, system, Shared.call, hdata]
    rw [System.run_append, hcalls, Option.bind_some, System.run_append,
      run_access_three rfl rfl hdata hpair, Option.bind_some, System.run_append,
      run_access_three rfl rfl hdata hpair, Option.bind_some, System.run_cons,
      access_of_inr rfl hdata rfl, Option.bind_some, System.run_cons,
      access_of_inr rfl hdata' rfl]
    rfl
  have htwice : (machine.runFrom reg [op, op]).2 =
      (reg.put signature.name data.advance).put signature.name data.advance.advance := by
    show ((reg.lookupService signature host port).2.lookupService signature host port).2 = _
    rw [hfirst, hsecond]
  refine ⟨_, hrun, rfl, fun hlin => ?_⟩
  obtain ⟨order, hperm, horder⟩ := hlin.sequential
  rw [Machine.InOrder, map_fst_of_perm_pair hperm] at horder
  have hentry := congrArg (fun reg : RegistryImpl => reg.services[signature.name]?)
    (htwice.symm.trans (congrArg Prod.snd horder))
  simp only [getElem?_put, if_pos] at hentry
  exact advance_ne_self hwf.advance hlen (Option.some.inj hentry)

end RegistryImpl

end Ssoa
