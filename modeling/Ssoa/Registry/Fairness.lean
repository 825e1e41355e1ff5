import Ssoa.Lib.Rotation
import Ssoa.Registry.Directory

/-!
# Taking turns under a service

`lookupService` hands out the providers of a service in turn, by a cursor into their list. What an
operation does to the entry of one service is said once (`WellFormed.perform_entry`): a lookup moves
the cursor, an erasure may change the list under it, and everything else leaves it where it is. A
new provider goes to the end, so the list is always in the order of registration.

While the list does not change, the lookups therefore go round it. When a provider is erased, the
cursor is only reduced modulo the new length: the providers behind the erased one move up under it,
and if that one stood before the cursor, the provider whose turn it was is passed over.

## Main results

* `WellFormed.perform_entry` — what an operation does to the entry of a service
* `run_byRegistration` — the providers of a service are in the order of their registration
* `round_robin_fair` — every provider gets its share of the lookups
* `keepsNext_iff` — when a change of the providers keeps whose turn it is
-/

namespace Ssoa

namespace RegistryImpl

open Rotation

/-- The operation is a lookup under this name. -/
def Operation.looksUp (op : Operation) (name : Text) : Bool :=
  match op with
  | .lookupService signature _ _ => decide (signature.name = name)
  | _ => false

/-- The operation takes the provider out of an entry like this. -/
def Operation.Erases (op : Operation) (data : ServiceData) (pair : Provider) : Prop :=
  pair ∈ data.providers ∧
    match op with
    | .deregisterService signature host port => (host, port) = pair ∧
        (signature.equals .any = true ∨ data.signature.equals signature = true)
    | .deregisterServer host port => (host, port) = pair
    | _ => False

/-- The provider that the operation registered under the name, if it was answered that it did. -/
def registered (name : Text) : Operation × Answer → Option Provider
  | (.registerService signature host port, .registered (.ok true)) =>
    if signature.name = name then some (host, port) else none
  | _ => none

variable {reg : RegistryImpl} {name : Text} {data : ServiceData}

theorem registered_of_looksUp {op : Operation} (h : op.looksUp name = true) (answer : Answer) :
    registered name (op, answer) = none := by
  cases op with
  | lookupService => rfl
  | registerService => cases h
  | deregisterService => cases h
  | deregisterServer => cases h

theorem Operation.Erases.registered_eq_none {op : Operation} {pair : Provider}
    (h : op.Erases data pair) (answer : Answer) : registered name (op, answer) = none := by
  cases op with
  | deregisterService => rfl
  | deregisterServer => rfl
  | registerService => exact h.2.elim
  | lookupService => exact h.2.elim

theorem Operation.Erases.eq {op : Operation} {pair pair' : Provider} (h : op.Erases data pair)
    (h' : op.Erases data pair') : pair = pair' := by
  cases op with
  | deregisterService => exact h.2.1.symm.trans h'.2.1
  | deregisterServer => exact h.2.symm.trans h'.2
  | registerService => exact h.2.elim
  | lookupService => exact h.2.elim

/-! ### What an operation does to an entry -/

theorem registered_of_name_ne {signature : ServiceSignature} (hname : signature.name ≠ name)
    (host port : Text) (answer : Answer) :
    registered name (.registerService signature host port, answer) = none := by
  unfold registered
  split
  · next heq =>
    cases heq
    exact if_neg hname
  · rfl

/-- A registration under another name leaves the entry alone. -/
theorem WellFormed.getElem?_registerService_of_ne (h : reg.WellFormed)
    {signature : ServiceSignature} (hname : signature.name ≠ name) (host port : Text) :
    (reg.registerService signature host port).2.services[name]? = reg.services[name]? := by
  cases hvalid : signature.isValid with
  | false => rw [registerService_of_invalid hvalid]
  | true =>
    cases hother : reg.services[signature.name]? with
    | none => rw [registerService_of_none hvalid hother, getElem?_put, if_neg hname]
    | some other =>
      cases heq : other.signature.equals signature with
      | false => rw [registerService_of_ne h hvalid hother heq]
      | true =>
        by_cases hmem : (host, port) ∈ other.providers
        · rw [registerService_of_mem h hvalid hother heq hmem]
        · rw [registerService_of_not_mem h hvalid hother heq hmem, getElem?_put, if_neg hname]

/-- So does a lookup. -/
theorem WellFormed.getElem?_lookupService_of_ne (h : reg.WellFormed)
    {signature : ServiceSignature} (hname : signature.name ≠ name) (host port : Text) :
    (reg.lookupService signature host port).2.services[name]? = reg.services[name]? := by
  cases hother : reg.services[signature.name]? with
  | none => rw [lookupService_of_none hother]
  | some other =>
    obtain ⟨pair, -, -, heq⟩ := lookupService_of_some h hother host port
    rw [heq, getElem?_put, if_neg hname]

theorem WellFormed.entry_registerService (h : reg.WellFormed)
    (hdata : reg.services[name]? = some data) (signature : ServiceSignature) (host port : Text) :
    let op := Operation.registerService signature host port
    (registered name (op, (reg.perform op).1) = none ∧
      (reg.perform op).2.services[name]? = some data) ∨
    registered name (op, (reg.perform op).1) = some (host, port) ∧ (host, port) ∉ data.providers ∧
      (reg.perform op).2.services[name]? =
        some { data with providers := data.providers ++ [(host, port)] } := by
  intro op
  have hperform : reg.perform op =
      (reg.registerService signature host port).map .registered id := rfl
  rw [hperform]
  by_cases hname : signature.name = name
  · subst hname
    cases hvalid : signature.isValid with
    | false =>
      rw [registerService_of_invalid hvalid]
      exact .inl ⟨rfl, hdata⟩
    | true =>
      cases heq : data.signature.equals signature with
      | false =>
        rw [registerService_of_ne h hvalid hdata heq]
        exact .inl ⟨rfl, hdata⟩
      | true =>
        by_cases hmem : (host, port) ∈ data.providers
        · rw [registerService_of_mem h hvalid hdata heq hmem]
          exact .inl ⟨rfl, hdata⟩
        · rw [registerService_of_not_mem h hvalid hdata heq hmem, Prod.map_snd, id, getElem?_put]
          exact .inr ⟨if_pos rfl, hmem, if_pos rfl⟩
  · exact .inl ⟨registered_of_name_ne hname host port _,
      (h.getElem?_registerService_of_ne hname host port).trans hdata⟩

theorem afterErase_of_not_mem {pair : Provider} (h : pair ∉ data.providers) :
    data.afterErase pair = some data := if_neg h

/-- Deregistering takes the pair out of the entry, or leaves the entry alone. -/
theorem WellFormed.entry_deregisterService (h : reg.WellFormed)
    (hdata : reg.services[name]? = some data) (signature : ServiceSignature) (host port : Text) :
    ((Operation.deregisterService signature host port).Erases data (host, port) ∧
      (reg.deregisterService signature host port).2.services[name]? =
        data.afterErase (host, port)) ∨
    ¬ (Operation.deregisterService signature host port).Erases data (host, port) ∧
      (reg.deregisterService signature host port).2.services[name]? = some data := by
  by_cases hany : signature = .any
  · have hentry : (reg.deregisterService signature host port).2.services[name]? =
        data.afterErase (host, port) := by
      rw [hany, deregisterService_any, getElem?_deregisterServer, hdata]
      rfl
    by_cases hmem : (host, port) ∈ data.providers
    · exact .inl ⟨⟨hmem, rfl, .inl (by simp [hany])⟩, hentry⟩
    · exact .inr ⟨fun herases => hmem herases.1, hentry.trans (afterErase_of_not_mem hmem)⟩
  -- the entry has the signature only if it is the one under its name
  have hname : data.signature.equals signature = true → signature.name = name := fun heq =>
    (name_eq_of_equals heq).symm.trans (h _ _ hdata).name_eq
  by_cases hoffers : reg.Offers signature (host, port)
  · rw [(deregisterService_of_offers hany hoffers).2]
    by_cases hsame : signature.name = name
    · obtain ⟨other, hother, heq, hmem⟩ := hoffers
      rw [hsame, hdata] at hother
      obtain rfl := Option.some.inj hother
      rw [if_pos hsame, hdata]
      exact .inl ⟨⟨hmem, rfl, .inr heq⟩, rfl⟩
    · rw [if_neg hsame]
      refine .inr ⟨fun herases => ?_, hdata⟩
      rcases herases.2.2 with heq | heq
      · rw [equals_any_of_ne hany] at heq
        cases heq
      · exact hsame (hname heq)
  · rw [deregisterService_of_not_offers hany hoffers]
    refine .inr ⟨fun herases => ?_, hdata⟩
    rcases herases.2.2 with heq | heq
    · rw [equals_any_of_ne hany] at heq
      cases heq
    · exact hoffers ⟨data, (hname heq).symm ▸ hdata, heq, herases.1⟩

/-- **What an operation does to the entry of a service**: a lookup of it moves the cursor; another
operation erases a provider, or registers a new one, which goes to the end, or leaves the entry
alone. -/
theorem WellFormed.perform_entry (h : reg.WellFormed) (hdata : reg.services[name]? = some data)
    (op : Operation) :
    (op.looksUp name = true ∧ (reg.perform op).2.services[name]? = some data.advance) ∨
    (op.looksUp name = false ∧ ∃ pair, op.Erases data pair ∧
      (reg.perform op).2.services[name]? = data.afterErase pair) ∨
    (op.looksUp name = false ∧ (∀ pair, ¬ op.Erases data pair) ∧
      ((registered name (op, (reg.perform op).1) = none ∧
          (reg.perform op).2.services[name]? = some data) ∨
        ∃ pair ∉ data.providers, registered name (op, (reg.perform op).1) = some pair ∧
          (reg.perform op).2.services[name]? =
            some { data with providers := data.providers ++ [pair] })) := by
  cases op with
  | registerService signature host port =>
    have hno : ∀ pair, ¬ (Operation.registerService signature host port).Erases data pair :=
      fun _ herases => herases.2
    rcases h.entry_registerService hdata signature host port with hsame | ⟨hnew, hmem, hpush⟩
    · exact .inr (.inr ⟨rfl, hno, .inl hsame⟩)
    · exact .inr (.inr ⟨rfl, hno, .inr ⟨_, hmem, hnew, hpush⟩⟩)
  | deregisterService signature host port =>
    rcases h.entry_deregisterService hdata signature host port with
      ⟨herases, hentry⟩ | ⟨hno, hentry⟩
    · exact .inr (.inl ⟨rfl, _, herases, hentry⟩)
    · refine .inr (.inr ⟨rfl, ?_, .inl ⟨rfl, hentry⟩⟩)
      rintro pair ⟨hmem, rfl, hsignature⟩
      exact hno ⟨hmem, rfl, hsignature⟩
  | deregisterServer host port =>
    have hentry : (reg.deregisterServer host port).2.services[name]? =
        data.afterErase (host, port) := by
      rw [getElem?_deregisterServer, hdata]
      rfl
    by_cases hmem : (host, port) ∈ data.providers
    · exact .inr (.inl ⟨rfl, _, ⟨hmem, rfl⟩, hentry⟩)
    · refine .inr (.inr ⟨rfl, ?_, .inl ⟨rfl, hentry.trans (afterErase_of_not_mem hmem)⟩⟩)
      rintro pair ⟨hpair, rfl⟩
      exact hmem hpair
  | lookupService signature host port =>
    have hno : ∀ pair, ¬ (Operation.lookupService signature host port).Erases data pair :=
      fun _ herases => herases.2
    have hperform : (reg.perform (.lookupService signature host port)).2 =
        (reg.lookupService signature host port).2 := rfl
    rw [hperform]
    by_cases hname : signature.name = name
    · subst hname
      obtain ⟨pair, -, -, heq⟩ := lookupService_of_some h hdata host port
      rw [heq, getElem?_put]
      exact .inl ⟨by simp [Operation.looksUp], if_pos rfl⟩
    · rw [h.getElem?_lookupService_of_ne hname]
      exact .inr (.inr ⟨by simp [Operation.looksUp, hname], hno, .inl ⟨rfl, hdata⟩⟩)

/-! ### The order of registration -/

/-- The providers of a service, in the order of their registration. -/
def providersOf (reg : RegistryImpl) (name : Text) : Option (List Provider) :=
  reg.services[name]?.map fun data => data.providers

/-- The registrations of new providers under a name, in the order in which they were made. -/
def registrationsOf (name : Text) (calls : List (Operation × Answer)) : List Provider :=
  calls.filterMap (registered name)

/-- A name that is free stays free, unless a provider is registered under it. -/
theorem WellFormed.perform_of_none (h : reg.WellFormed) (hnone : reg.services[name]? = none)
    (op : Operation) :
    (registered name (op, (reg.perform op).1) = none ∧
      (reg.perform op).2.services[name]? = none) ∨
    ∃ signature pair, registered name (op, (reg.perform op).1) = some pair ∧
      (reg.perform op).2.services[name]? = some ⟨signature, [pair], 0⟩ := by
  cases op with
  | registerService signature host port =>
    have hperform : reg.perform (.registerService signature host port) =
        (reg.registerService signature host port).map .registered id := rfl
    rw [hperform]
    by_cases hname : signature.name = name
    · subst hname
      cases hvalid : signature.isValid with
      | false =>
        rw [registerService_of_invalid hvalid]
        exact .inl ⟨rfl, hnone⟩
      | true =>
        rw [registerService_of_none hvalid hnone, Prod.map_snd, id, getElem?_put]
        exact .inr ⟨signature, (host, port), if_pos rfl, if_pos rfl⟩
    · exact .inl ⟨registered_of_name_ne hname host port _,
        (h.getElem?_registerService_of_ne hname host port).trans hnone⟩
  | deregisterService signature host port =>
    refine .inl ⟨rfl, ?_⟩
    change (reg.deregisterService signature host port).2.services[name]? = none
    by_cases hany : signature = .any
    · rw [hany, deregisterService_any, getElem?_deregisterServer, hnone]
      rfl
    by_cases hoffers : reg.Offers signature (host, port)
    · rw [(deregisterService_of_offers hany hoffers).2, hnone]
      exact ite_self none
    · rw [deregisterService_of_not_offers hany hoffers]
      exact hnone
  | deregisterServer host port =>
    refine .inl ⟨rfl, ?_⟩
    change (reg.deregisterServer host port).2.services[name]? = none
    rw [getElem?_deregisterServer, hnone]
    rfl
  | lookupService signature host port =>
    refine .inl ⟨rfl, ?_⟩
    change (reg.lookupService signature host port).2.services[name]? = none
    by_cases hname : signature.name = name
    · subst hname
      rw [lookupService_of_none hnone]
      exact hnone
    · exact (h.getElem?_lookupService_of_ne hname host port).trans hnone

/-- The providers of a service are in the order of these registrations; without the service there
are none. -/
def ByRegistration (reg : RegistryImpl) (name : Text) (registrations : List Provider) : Prop :=
  ByArrival ((reg.providersOf name).getD []) registrations

theorem byRegistration_iff_of_some {registrations : List Provider}
    (hdata : reg.services[name]? = some data) :
    reg.ByRegistration name registrations ↔ ByArrival data.providers registrations := by
  rw [ByRegistration, providersOf, hdata]
  rfl

theorem byRegistration_of_none {registrations : List Provider}
    (hnone : reg.services[name]? = none) : reg.ByRegistration name registrations := by
  rw [ByRegistration, providersOf, hnone]
  exact byArrival_nil registrations

/-- An erasure leaves the others in order. -/
theorem byRegistration_of_afterErase {reg' : RegistryImpl} {registrations : List Provider}
    {pair : Provider} (h : ByArrival data.providers registrations)
    (hentry : reg'.services[name]? = data.afterErase pair) :
    reg'.ByRegistration name registrations := by
  unfold ServiceData.afterErase at hentry
  split at hentry
  · split at hentry
    · exact byRegistration_of_none hentry
    · exact (byRegistration_iff_of_some hentry).mpr (h.sublist List.erase_sublist)
  · exact (byRegistration_iff_of_some hentry).mpr h

/-- **An operation keeps the order**: a new provider goes to the end, the others stay in order. -/
theorem WellFormed.perform_byRegistration (h : reg.WellFormed) {registrations : List Provider}
    (horder : reg.ByRegistration name registrations) (op : Operation) :
    (reg.perform op).2.ByRegistration name
      (registrations ++ (registered name (op, (reg.perform op).1)).toList) := by
  cases hdata : reg.services[name]? with
  | none =>
    rcases h.perform_of_none hdata op with ⟨-, hentry⟩ | ⟨signature, pair, hnew, hentry⟩
    · exact byRegistration_of_none hentry
    · rw [hnew, byRegistration_iff_of_some hentry]
      exact (byArrival_nil registrations).push List.not_mem_nil
  | some data =>
    rw [byRegistration_iff_of_some hdata] at horder
    rcases h.perform_entry hdata op with
      ⟨hop, hentry⟩ | ⟨-, pair, herases, hentry⟩ |
        ⟨-, -, ⟨hold, hentry⟩ | ⟨pair, hpair, hnew, hentry⟩⟩
    · rw [registered_of_looksUp hop, Option.toList_none, List.append_nil]
      exact (byRegistration_iff_of_some hentry).mpr horder
    · rw [herases.registered_eq_none, Option.toList_none, List.append_nil]
      exact byRegistration_of_afterErase horder hentry
    · rw [hold, Option.toList_none, List.append_nil]
      exact (byRegistration_iff_of_some hentry).mpr horder
    · rw [hnew, byRegistration_iff_of_some hentry]
      exact horder.push hpair

theorem registrationsOf_cons (name : Text) (op : Operation) (answer : Answer)
    (calls : List (Operation × Answer)) : registrationsOf name ((op, answer) :: calls) =
      (registered name (op, answer)).toList ++ registrationsOf name calls := by
  rw [registrationsOf, List.filterMap_cons]
  cases registered name (op, answer) <;> rfl

theorem WellFormed.run_byRegistration (h : reg.WellFormed) {registrations : List Provider}
    (horder : reg.ByRegistration name registrations) (operations : List Operation) :
    (machine.runFrom reg operations).2.ByRegistration name
      (registrations ++
        registrationsOf name (operations.zip (machine.runFrom reg operations).1)) := by
  induction operations generalizing reg registrations with
  | nil => simpa [registrationsOf] using horder
  | cons op operations ih =>
    rw [Machine.runFrom_cons, List.zip_cons_cons, registrationsOf_cons, ← List.append_assoc]
    exact ih (invariant.step reg op h) (h.perform_byRegistration horder op)

/-- **The providers of a service are in the order of their registration**, in every reachable
state. -/
theorem run_byRegistration (name : Text) (operations : List Operation) :
    (machine.runFrom machine.init operations).2.ByRegistration name
      (registrationsOf name (operations.zip (machine.runFrom machine.init operations).1)) := by
  have hstart : ({} : RegistryImpl).ByRegistration name [] :=
    byRegistration_of_none Std.ExtTreeMap.getElem?_empty
  exact wellFormed_empty.run_byRegistration hstart operations

-- who leaves and comes back stands at the end
example :
    let f := ServiceSignature.ofText (txt "f(in int)")
    let a := (txt "a", txt "1")
    let b := (txt "b", txt "2")
    (machine.runFrom machine.init [.registerService f a.1 a.2, .registerService f b.1 b.2,
      .deregisterService f a.1 a.2, .registerService f a.1 a.2]).2.providersOf (txt "f") =
        some [b, a] := by
  decide +kernel

/-! ### While the providers of a service stay -/

/-- The answers to the lookups under a name. -/
def lookupsOf (name : Text) (calls : List (Operation × Answer)) : List Answer :=
  (calls.filter fun call => call.1.looksUp name).map Prod.snd

/-- The answer that hands out a provider. -/
def handedOut (pair : Provider) : Answer := .lookedUp (some (true, pair.1, pair.2))

/-- A lookup of the service hands out the provider at the cursor. -/
theorem WellFormed.perform_of_looksUp (h : reg.WellFormed)
    (hdata : reg.services[name]? = some data) {op : Operation} (hop : op.looksUp name = true) :
    ∃ pair, data.providers[data.lastUsed]? = some pair ∧ (reg.perform op).1 = handedOut pair := by
  cases op with
  | lookupService signature host port =>
    obtain rfl : signature.name = name := of_decide_eq_true hop
    obtain ⟨pair, -, hpair, heq⟩ := lookupService_of_some h hdata host port
    exact ⟨pair, hpair, by rw [perform, heq]; rfl⟩
  | registerService => cases hop
  | deregisterService => cases hop
  | deregisterServer => cases hop

/-- An operation after which the providers are the same moves the cursor only if it is a lookup. -/
theorem WellFormed.perform_of_stays (h : reg.WellFormed)
    (hdata : reg.services[name]? = some data) {op : Operation}
    (hstays : (reg.perform op).2.providersOf name = some data.providers) :
    (op.looksUp name = true ∧ (reg.perform op).2.services[name]? = some data.advance) ∨
    op.looksUp name = false ∧ (reg.perform op).2.services[name]? = some data := by
  rcases h.perform_entry hdata op with
    hlookup | ⟨hop, pair, ⟨hmem, -⟩, hentry⟩ | ⟨hop, -, ⟨-, hentry⟩ | ⟨pair, -, -, hentry⟩⟩
  · exact .inl hlookup
  · -- an erasure makes the list shorter
    have hlen := List.length_erase_of_mem hmem
    have hpos := List.length_pos_of_mem hmem
    rw [providersOf, hentry, ServiceData.afterErase, if_pos hmem] at hstays
    split at hstays
    · cases hstays
    · have hsame : data.providers.erase pair = data.providers := Option.some.inj hstays
      rw [hsame] at hlen
      omega
  · exact .inr ⟨hop, hentry⟩
  · rw [providersOf, hentry] at hstays
    have hlen := congrArg List.length (Option.some.inj hstays)
    simp at hlen

theorem lookupsOf_cons (name : Text) (op : Operation) (answer : Answer)
    (calls : List (Operation × Answer)) : lookupsOf name ((op, answer) :: calls) =
      (if op.looksUp name then [answer] else []) ++ lookupsOf name calls := by
  rw [lookupsOf, List.filter_cons]
  split <;> rfl

/-- **While the providers stay, the lookups take turns.** -/
theorem WellFormed.lookupsOf_run (h : reg.WellFormed) (hdata : reg.services[name]? = some data)
    (operations : List Operation)
    (hstays : ∀ earlier ∈ operations.inits,
      (machine.runFrom reg earlier).2.providersOf name = some data.providers) :
    ∃ m, lookupsOf name (operations.zip (machine.runFrom reg operations).1) =
      (turns data.providers data.lastUsed m).map handedOut := by
  induction operations generalizing reg data with
  | nil => exact ⟨0, rfl⟩
  | cons op operations ih =>
    have hlater : ∀ earlier ∈ operations.inits, (machine.runFrom (reg.perform op).2
        earlier).2.providersOf name = some data.providers := by
      intro earlier hearlier
      refine hstays (op :: earlier) ?_
      rw [List.inits_cons]
      exact List.mem_cons_of_mem _ (List.mem_map_of_mem hearlier)
    have hfirst : (reg.perform op).2.providersOf name = some data.providers :=
      hlater [] ((List.mem_inits _ _).mpr List.nil_prefix)
    have hwf : (reg.perform op).2.WellFormed := invariant.step reg op h
    rw [Machine.runFrom_cons, List.zip_cons_cons, lookupsOf_cons]
    rcases h.perform_of_stays hdata hfirst with ⟨hop, hentry⟩ | ⟨hop, hentry⟩
    · obtain ⟨pair, hpair, hanswer⟩ := h.perform_of_looksUp hdata hop
      obtain ⟨m, hm⟩ := ih hwf hentry hlater
      have hlt := (h _ _ hdata).lastUsed_lt
      have hturn : data.providers[data.lastUsed % data.providers.length]? = some pair := by
        rwa [Nat.mod_eq_of_lt hlt]
      have hnext : turns data.advance.providers data.advance.lastUsed m =
          turns data.providers (data.lastUsed + 1) m := by
        rw [ServiceData.advance, if_pos (Nat.ne_of_gt (Nat.zero_lt_of_lt hlt))]
        exact turns_mod ..
      refine ⟨m + 1, ?_⟩
      rw [turns_succ hturn, List.map_cons, ← hnext, ← hm, hop, ← hanswer]
      rfl
    · obtain ⟨m, hm⟩ := ih hwf hentry hlater
      exact ⟨m, by rw [hop, ← hm]; rfl⟩

/-- **Every provider gets its share.** From a reachable registry on, while the providers of a
service stay the same: they are in the order of their registration; of any lookups of the service
that come one after the other, every provider is handed out the same number of times, up to
rounding; and as many lookups as there are providers hand out each of them once, in that order,
round and round. -/
theorem round_robin_fair (past operations : List Operation) {name : Text}
    {providers : List Provider}
    (hstays : ∀ earlier ∈ operations.inits, (machine.runFrom (machine.runFrom machine.init past).2
      earlier).2.providersOf name = some providers)
    {window : List Answer} (hwindow : window <:+: lookupsOf name (operations.zip
      (machine.runFrom (machine.runFrom machine.init past).2 operations).1)) :
    ByArrival providers
        (registrationsOf name (past.zip (machine.runFrom machine.init past).1)) ∧
      ∃ returned : List Provider, window = returned.map handedOut ∧
        (∀ pair ∈ providers, returned.count pair = window.length / providers.length ∨
          returned.count pair = window.length ⌈/⌉ providers.length) ∧
        (window.length = providers.length → (∀ pair ∈ providers, returned.count pair = 1) ∧
          ∃ k, returned = providers.rotate k) := by
  have hwf : (machine.runFrom machine.init past).2.WellFormed := Reachable.wellFormed ⟨past, rfl⟩
  have hstart := hstays [] ((List.mem_inits _ _).mpr List.nil_prefix)
  obtain ⟨data, hdata, rfl⟩ := Option.map_eq_some_iff.mp hstart
  obtain ⟨m, hm⟩ := hwf.lookupsOf_run hdata operations hstays
  rw [hm] at hwindow
  obtain ⟨returned, hreturned, rfl⟩ := List.infix_map_iff.mp hwindow
  have hentry := hwf _ _ hdata
  obtain ⟨c, hc⟩ := eq_turns_of_infix hentry.ne_nil hreturned
  rw [List.length_map]
  refine ⟨(byRegistration_iff_of_some hdata).mp (run_byRegistration name past), returned, rfl,
    fun pair hpair => ?_, fun hlen => ?_⟩
  · rw [hc, length_turns hentry.ne_nil]
    exact count_turns hentry.nodup hpair c returned.length
  · rw [hlen] at hc
    rw [hc]
    exact ⟨fun pair hpair => count_round hentry.nodup hpair c, c, turns_round _ c⟩

/-- Three providers of one service, the last of them also provider of another one. -/
private def threeProviders : List Operation :=
  [.registerService (.ofText (txt "f(in int)")) (txt "a") (txt "1"),
    .registerService (.ofText (txt "f(in int)")) (txt "b") (txt "2"),
    .registerService (.ofText (txt "f(in int)")) (txt "c") (txt "3"),
    .registerService (.ofText (txt "g(in int)")) (txt "c") (txt "3")]

/-- Four lookups, with a re-registration and a deregistration of another service between them. -/
theorem round_robin_fair_sample :
    let reg := (machine.runFrom machine.init threeProviders).2
    let providers := [(txt "a", txt "1"), (txt "b", txt "2"), (txt "c", txt "3")]
    let lookupF := Operation.lookupService (.ofText (txt "f(in int)")) [] []
    let operations := [lookupF, lookupF,
      .registerService (.ofText (txt "f(in int)")) (txt "b") (txt "2"), lookupF,
      .deregisterService (.ofText (txt "g(in int)")) (txt "c") (txt "3"), lookupF]
    ∃ window : List Answer, window.length = 3 ∧
      window <:+: lookupsOf (txt "f") (operations.zip (machine.runFrom reg operations).1) ∧
      ∃ returned : List Provider, window = returned.map handedOut ∧
        (∀ pair ∈ providers, returned.count pair = 1) ∧ ∃ k, returned = providers.rotate k := by
  intro reg providers lookupF operations
  -- the last three of the four answers
  have hwindow : [handedOut (txt "b", txt "2"), handedOut (txt "c", txt "3"),
      handedOut (txt "a", txt "1")] <:+:
      lookupsOf (txt "f") (operations.zip (machine.runFrom reg operations).1) :=
    ⟨[handedOut (txt "a", txt "1")], [], by decide +kernel⟩
  have hstays : ∀ earlier ∈ operations.inits,
      (machine.runFrom reg earlier).2.providersOf (txt "f") = some providers := by decide +kernel
  obtain ⟨-, returned, hmap, -, hround⟩ :=
    round_robin_fair threeProviders operations hstays hwindow
  exact ⟨_, rfl, hwindow, returned, hmap, hround rfl⟩

/-! ### When the providers of a service change -/

/-- The provider is the one the next lookup of the service returns. -/
def HandsOutNext (reg : RegistryImpl) (signature : ServiceSignature) (pair : Provider) : Prop :=
  ∀ host port : Text, (reg.lookupService signature host port).1 = some (true, pair.1, pair.2)

/-- The provider whose turn it is still has it after the operation, if it is still there. -/
def KeepsNext (reg : RegistryImpl) (op : Operation) (signature : ServiceSignature) : Prop :=
  ∀ pair, reg.HandsOutNext signature pair →
    (∃ providers, (reg.perform op).2.providersOf signature.name = some providers ∧
      pair ∈ providers) →
    (reg.perform op).2.HandsOutNext signature pair

/-- The operation takes out a provider that stands before the cursor, and not the first one of
two. -/
def ErasesEarlier (reg : RegistryImpl) (op : Operation) (signature : ServiceSignature) : Prop :=
  ∃ data pair, reg.services[signature.name]? = some data ∧ op.Erases data pair ∧
    data.providers.idxOf pair < data.lastUsed ∧ data.providers.length ≠ 2

variable {signature : ServiceSignature}

theorem WellFormed.handsOutNext_iff (h : reg.WellFormed)
    (hdata : reg.services[signature.name]? = some data) (pair : Provider) :
    reg.HandsOutNext signature pair ↔ data.providers[data.lastUsed]? = some pair := by
  constructor
  · intro hnext
    obtain ⟨first, -, hfirst, heq⟩ := lookupService_of_some h hdata [] []
    have hanswer := hnext [] []
    rw [heq] at hanswer
    obtain ⟨-, hpair⟩ := Prod.mk.inj (Option.some.inj hanswer)
    rw [hfirst]
    exact congrArg some hpair
  · intro hpair host port
    obtain ⟨first, -, hfirst, heq⟩ := lookupService_of_some h hdata host port
    obtain rfl : first = pair := Option.some.inj (hfirst.symm.trans hpair)
    rw [heq]

/-- The answer does not depend on the values `host` and `port` come with. -/
theorem WellFormed.handsOutNext_of_answer (h : reg.WellFormed) {pair : Provider} (host port : Text)
    (hanswer : (reg.lookupService signature host port).1 = some (true, pair.1, pair.2)) :
    reg.HandsOutNext signature pair := by
  cases hdata : reg.services[signature.name]? with
  | none =>
    rw [lookupService_of_none hdata] at hanswer
    cases hanswer
  | some data =>
    obtain ⟨first, -, hfirst, heq⟩ := lookupService_of_some h hdata host port
    rw [heq] at hanswer
    obtain ⟨-, hpair⟩ := Prod.mk.inj (Option.some.inj hanswer)
    obtain rfl : first = pair := hpair
    exact (h.handsOutNext_iff hdata first).mpr hfirst

theorem handsOutNext_of_none (hnone : reg.services[signature.name]? = none) (pair : Provider) :
    ¬ reg.HandsOutNext signature pair := by
  intro hnext
  have hanswer := hnext [] []
  rw [lookupService_of_none hnone] at hanswer
  cases hanswer

theorem afterErase_of_next {gone next : Provider} (hgone : gone ∈ data.providers)
    (hnext : next ∈ data.providers) (hne : next ≠ gone) :
    data.afterErase gone = some (data.eraseProvider gone) := by
  have hleft : next ∈ data.providers.erase gone := (List.mem_erase_of_ne hne).mpr hnext
  rw [ServiceData.afterErase, if_pos hgone, if_neg]
  exact fun hempty => List.ne_nil_of_mem hleft (List.isEmpty_iff.mp hempty)

/-- An erasure keeps the turn unless it passes the cursor by. -/
theorem WellFormed.keepsNext_of_erases (h : reg.WellFormed)
    (hdata : reg.services[signature.name]? = some data) {op : Operation} {gone : Provider}
    (hgone : gone ∈ data.providers)
    (hentry : (reg.perform op).2.services[signature.name]? = data.afterErase gone) :
    reg.KeepsNext op signature ↔
      ¬ (data.providers.idxOf gone < data.lastUsed ∧ data.providers.length ≠ 2) := by
  have hwf := h _ _ hdata
  have hwf' : (reg.perform op).2.WellFormed := invariant.step reg op h
  obtain ⟨next, hnext⟩ : ∃ next, data.providers[data.lastUsed]? = some next :=
    ⟨_, List.getElem?_eq_getElem hwf.lastUsed_lt⟩
  have hmem : next ∈ data.providers := List.mem_of_getElem? hnext
  by_cases hne : next = gone
  · -- it is the one whose turn it is that is erased
    subst hne
    have hidx : data.providers.idxOf next = data.lastUsed := by
      have hfirst := List.getElem?_idxOf hmem
      exact (List.getElem?_inj (List.idxOf_lt_length_iff.mpr hmem) hwf.nodup).mp
        (hfirst.trans hnext.symm)
    refine iff_of_true (fun pair hpair => ?_) fun hearlier => hearlier.1.ne hidx
    rintro ⟨providers, hproviders, hstill⟩
    obtain rfl := Option.some.inj (hnext.symm.trans ((h.handsOutNext_iff hdata pair).mp hpair))
    rw [providersOf, hentry, ServiceData.afterErase, if_pos hgone] at hproviders
    split at hproviders
    · cases hproviders
    · obtain rfl := Option.some.inj hproviders
      exact absurd rfl (hwf.nodup.mem_erase_iff.mp hstill).1
  · rw [afterErase_of_next hgone hmem hne] at hentry
    have hleft : next ∈ (data.eraseProvider gone).providers := (List.mem_erase_of_ne hne).mpr hmem
    have hcursor : (data.eraseProvider gone).lastUsed =
        data.lastUsed % (data.providers.erase gone).length :=
      if_pos (List.length_pos_of_mem hleft).ne'
    have hkeeps : reg.KeepsNext op signature ↔
        (data.eraseProvider gone).providers[(data.eraseProvider gone).lastUsed]? = some next := by
      constructor
      · intro hkeeps
        have hstill : (reg.perform op).2.providersOf signature.name =
            some (data.eraseProvider gone).providers := by rw [providersOf, hentry]; rfl
        exact (hwf'.handsOutNext_iff hentry next).mp
          (hkeeps next ((h.handsOutNext_iff hdata next).mpr hnext) ⟨_, hstill, hleft⟩)
      · intro hlater pair hpair _
        obtain rfl := Option.some.inj (hnext.symm.trans ((h.handsOutNext_iff hdata pair).mp hpair))
        exact (hwf'.handsOutNext_iff hentry next).mpr hlater
    rw [hkeeps, hcursor]
    exact getElem?_erase_mod hwf.nodup hgone hne hnext

/-- Without an erasure the provider whose turn it is stays at the cursor. -/
theorem WellFormed.keepsNext_of_not_erases (h : reg.WellFormed)
    (hdata : reg.services[signature.name]? = some data) {op : Operation}
    (hentry : (reg.perform op).2.services[signature.name]? = some data ∨
      ∃ pair, (reg.perform op).2.services[signature.name]? =
        some { data with providers := data.providers ++ [pair] }) :
    reg.KeepsNext op signature := by
  have hwf' : (reg.perform op).2.WellFormed := invariant.step reg op h
  intro next hnext _
  rw [h.handsOutNext_iff hdata] at hnext
  rcases hentry with hentry | ⟨pair, hentry⟩
  · exact (hwf'.handsOutNext_iff hentry next).mpr hnext
  · refine (hwf'.handsOutNext_iff hentry next).mpr ?_
    exact (List.getElem?_append_left (h _ _ hdata).lastUsed_lt).trans hnext

/-- **When a change of the providers keeps whose turn it is.** In every reachable registry, an
operation that is no lookup of the service leaves the provider that comes next the next one, exactly
when it does not take out an earlier one. -/
theorem keepsNext_iff (past : List Operation) (op : Operation) (signature : ServiceSignature)
    (hop : op.looksUp signature.name = false) :
    (machine.runFrom machine.init past).2.KeepsNext op signature ↔
      ¬ (machine.runFrom machine.init past).2.ErasesEarlier op signature := by
  have h : (machine.runFrom machine.init past).2.WellFormed := Reachable.wellFormed ⟨past, rfl⟩
  set reg := (machine.runFrom machine.init past).2
  cases hdata : reg.services[signature.name]? with
  | none =>
    refine iff_of_true (fun pair hpair => absurd hpair (handsOutNext_of_none hdata pair)) ?_
    rintro ⟨data, -, hsome, -⟩
    rw [hdata] at hsome
    cases hsome
  | some data =>
    have honly : ∀ {pair}, op.Erases data pair → (reg.ErasesEarlier op signature ↔
        data.providers.idxOf pair < data.lastUsed ∧ data.providers.length ≠ 2) := by
      intro pair herases
      constructor
      · rintro ⟨data', pair', hdata', herases', hearlier⟩
        obtain rfl := Option.some.inj (hdata.symm.trans hdata')
        rwa [herases.eq herases'] 
      · exact fun hearlier => ⟨data, pair, hdata, herases, hearlier⟩
    rcases h.perform_entry hdata op with
      ⟨hlookup, -⟩ | ⟨-, pair, herases, hentry⟩ | ⟨-, hno, hentry⟩
    · rw [hop] at hlookup
      cases hlookup
    · rw [honly herases]
      exact h.keepsNext_of_erases hdata herases.1 hentry
    · refine iff_of_true (h.keepsNext_of_not_erases hdata ?_) ?_
      · rcases hentry with ⟨-, hsame⟩ | ⟨new, -, -, hpush⟩
        · exact .inl hsame
        · exact .inr ⟨new, hpush⟩
      rintro ⟨data', pair, hdata', herases, -⟩
      obtain rfl := Option.some.inj (hdata.symm.trans hdata')
      exact hno pair herases

/-- A new provider and a lookup of another service keep the turn. -/
theorem keepsNext_sample :
    (machine.runFrom machine.init threeProviders).2.KeepsNext
      (.registerService (.ofText (txt "f(in int)")) (txt "d") (txt "4"))
      (.ofText (txt "f(in int)")) :=
  (keepsNext_iff threeProviders _ _ rfl).mpr fun ⟨_, _, _, herases, _⟩ => herases.2

/-- **A provider that is passed over.** After one lookup the next one is for the second of three
providers; when the first one goes, it is for the third. -/
theorem not_keepsNext :
    let f := ServiceSignature.ofText (txt "f(in int)")
    let past := threeProviders ++ [.lookupService f [] []]
    let reg := (machine.runFrom machine.init past).2
    reg.HandsOutNext f (txt "b", txt "2") ∧
      (reg.perform (.deregisterService f (txt "a") (txt "1"))).2.HandsOutNext f
        (txt "c", txt "3") ∧
      ¬ reg.KeepsNext (.deregisterService f (txt "a") (txt "1")) f := by
  intro f past reg
  have h : reg.WellFormed := Reachable.wellFormed ⟨past, rfl⟩
  set op := Operation.deregisterService f (txt "a") (txt "1") with hop
  have h' : (reg.perform op).2.WellFormed := invariant.step reg op h
  have hnext : reg.HandsOutNext f (txt "b", txt "2") :=
    h.handsOutNext_of_answer [] [] (by decide +kernel)
  have hlater : (reg.perform op).2.HandsOutNext f (txt "c", txt "3") :=
    h'.handsOutNext_of_answer [] [] (by decide +kernel)
  refine ⟨hnext, hlater, fun hkeeps => ?_⟩
  have hstill : (reg.perform op).2.providersOf f.name =
      some [(txt "b", txt "2"), (txt "c", txt "3")] := by decide +kernel
  have hsame := hkeeps _ hnext ⟨_, hstill, List.mem_cons_self⟩ [] []
  rw [hlater [] []] at hsame
  exact absurd hsame (by decide)

end RegistryImpl

end Ssoa
