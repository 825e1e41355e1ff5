import Ssoa.Registry.Impl
import Ssoa.Signature.Canonical

/-!
# What holds in every state of the registry

Every entry has providers, no provider twice, a valid signature of the entry's name, and a cursor
inside the list. Each operation is first evaluated on such a table, one lemma for each way it can
go; everything said about the operations afterwards is said in these terms.

## Main results

* `registerService_of_*`, `deregisterService_of_*`, `lookupService_of_*` — the operations, evaluated
* `getElem?_deregisterServer` — the sweep over the whole table, entry by entry
* `invariant` — well-formedness is an invariant
-/

namespace Ssoa

/-- What an entry under the name `name` looks like between two operations. -/
structure ServiceData.WellFormed (data : ServiceData) (name : Text) : Prop where
  isValid : data.signature.isValid = true
  name_eq : data.signature.name = name
  ne_nil : data.providers ≠ []
  nodup : data.providers.Nodup
  lastUsed_lt : data.lastUsed < data.providers.length

/-- Every entry of the table is well formed. -/
def RegistryImpl.WellFormed (reg : RegistryImpl) : Prop :=
  ∀ (name : Text) (data : ServiceData), reg.services[name]? = some data → data.WellFormed name

namespace ServiceData

variable {data : ServiceData} {name : Text} {pair : Provider}

theorem WellFormed.ne_any (h : data.WellFormed name) : data.signature.equals .any = false := by
  by_contra hany
  have heq : data.signature = .any :=
    ServiceSignature.eq_any_of_signature (ServiceSignature.equals_iff.mp (by simpa using hany))
  have hvalid := h.isValid
  rw [heq] at hvalid
  exact absurd hvalid (by decide)

/-- A new entry with its first provider. -/
theorem wellFormed_new {signature : ServiceSignature} (h : signature.isValid = true)
    (pair : Provider) : (⟨signature, [pair], 0⟩ : ServiceData).WellFormed signature.name :=
  ⟨h, rfl, by simp, by simp, by simp⟩

theorem WellFormed.push (h : data.WellFormed name) (hpair : pair ∉ data.providers) :
    { data with providers := data.providers ++ [pair] }.WellFormed name where
  isValid := h.isValid
  name_eq := h.name_eq
  ne_nil := by simp
  nodup := List.nodup_append.mpr ⟨h.nodup, by simp, by
    rintro a ha b hb rfl
    obtain rfl : a = pair := by simpa using hb
    exact hpair ha⟩
  lastUsed_lt := by
    have := h.lastUsed_lt
    simp only [List.length_append, List.length_singleton]
    omega

theorem WellFormed.erase (h : data.WellFormed name)
    (hne : (data.eraseProvider pair).providers ≠ []) :
    (data.eraseProvider pair).WellFormed name where
  isValid := h.isValid
  name_eq := h.name_eq
  ne_nil := hne
  nodup := h.nodup.erase pair
  lastUsed_lt := by
    have hpos : 0 < (data.providers.erase pair).length := List.length_pos_iff.mpr hne
    simpa [eraseProvider, hpos.ne'] using Nat.mod_lt _ hpos

/-- Advancing brings any value of the cursor into range. -/
theorem WellFormed.advance_from (h : data.WellFormed name) (lastUsed : ℕ) :
    { data with lastUsed }.advance.WellFormed name where
  isValid := h.isValid
  name_eq := h.name_eq
  ne_nil := h.ne_nil
  nodup := h.nodup
  lastUsed_lt := by
    have hpos : 0 < data.providers.length := List.length_pos_iff.mpr h.ne_nil
    simpa [ServiceData.advance, hpos.ne'] using Nat.mod_lt _ hpos

theorem WellFormed.advance (h : data.WellFormed name) : data.advance.WellFormed name :=
  h.advance_from data.lastUsed

theorem WellFormed.afterErase (h : data.WellFormed name) {data' : ServiceData}
    (h' : data.afterErase pair = some data') : data'.WellFormed name := by
  unfold ServiceData.afterErase at h'
  split at h'
  · split at h'
    · cases h'
    · next hne =>
      obtain rfl := Option.some.inj h'
      exact h.erase (by simpa using hne)
  · obtain rfl := Option.some.inj h'
    exact h

end ServiceData

namespace RegistryImpl

variable {reg : RegistryImpl} {signature : ServiceSignature} {host port : Text} {data : ServiceData}

theorem ext_entries {reg reg' : RegistryImpl}
    (h : ∀ name : Text, reg.services[name]? = reg'.services[name]?) : reg = reg' := by
  obtain ⟨services⟩ := reg
  obtain ⟨services'⟩ := reg'
  exact congrArg mk (Std.ExtTreeMap.ext_getElem? fun {name} => h name)

theorem getElem?_put (reg : RegistryImpl) (name name' : Text) (data : ServiceData) :
    (reg.put name data).services[name']? =
      if name = name' then some data else reg.services[name']? := by
  simp [put, Std.ExtTreeMap.getElem?_insert]

/-- Writing back what is there changes nothing. -/
theorem put_self {name : Text} (h : reg.services[name]? = some data) : reg.put name data = reg := by
  refine ext_entries fun name' => ?_
  rw [getElem?_put]
  split
  · next heq => rw [← heq, h]
  · rfl

theorem WellFormed.put (h : reg.WellFormed) {name : Text} (hdata : data.WellFormed name) :
    (reg.put name data).WellFormed := by
  intro name' data' hdata'
  rw [getElem?_put] at hdata'
  split at hdata'
  · next heq =>
    obtain rfl := Option.some.inj hdata'
    exact heq ▸ hdata
  · exact h name' data' hdata'

/-! ### `registerService` -/

theorem registerService_of_invalid (h : signature.isValid = false) :
    reg.registerService signature host port = (.error invalidSignature, reg) := by
  simp [registerService, h]

theorem registerService_of_none (h : signature.isValid = true)
    (hnone : reg.services[signature.name]? = none) :
    reg.registerService signature host port =
      (.ok true, reg.put signature.name ⟨signature, [(host, port)], 0⟩) := by
  simp [registerService, h, hnone, ServiceData.pushProvider]

theorem registerService_of_ne (hreg : reg.WellFormed) (h : signature.isValid = true)
    (hdata : reg.services[signature.name]? = some data)
    (hne : data.signature.equals signature = false) :
    reg.registerService signature host port = (.error differentSignature, reg) := by
  have hany := (hreg _ _ hdata).ne_any
  simp [registerService, h, hdata, hne, hany, put_self hdata]

theorem registerService_of_mem (hreg : reg.WellFormed) (h : signature.isValid = true)
    (hdata : reg.services[signature.name]? = some data)
    (heq : data.signature.equals signature = true)
    (hmem : (host, port) ∈ data.providers) :
    reg.registerService signature host port = (.ok false, reg) := by
  have hany := (hreg _ _ hdata).ne_any
  simp [registerService, h, hdata, heq, hany, ServiceData.pushProvider, hmem, put_self hdata]

theorem registerService_of_not_mem (hreg : reg.WellFormed) (h : signature.isValid = true)
    (hdata : reg.services[signature.name]? = some data)
    (heq : data.signature.equals signature = true)
    (hmem : (host, port) ∉ data.providers) :
    reg.registerService signature host port =
      (.ok true, reg.put signature.name
        { data with providers := data.providers ++ [(host, port)] }) := by
  have hany := (hreg _ _ hdata).ne_any
  simp [registerService, h, hdata, heq, hany, ServiceData.pushProvider, hmem]

/-! ### `deregisterServer` -/

/-- The names the loop empties, the number of pairs it erases and the table it updates. -/
theorem eraseFromEntries_eq (pair : Provider) (entries : List (Text × ServiceData))
    (services : ServiceDataMap) (emptied : List Text) (count : ℕ) :
    eraseFromEntries pair entries (services, emptied, count) =
      let hit := entries.filter fun e => decide (pair ∈ e.2.providers)
      (hit.foldl (fun services e => services.insert e.1 (e.2.eraseProvider pair)) services,
        emptied ++ (hit.filter fun e => (e.2.eraseProvider pair).providers.isEmpty).map Prod.fst,
        count + hit.length) := by
  induction entries generalizing services emptied count with
  | nil => simp [eraseFromEntries]
  | cons e entries ih =>
    obtain ⟨name, data⟩ := e
    by_cases hmem : pair ∈ data.providers
    · rw [eraseFromEntries, if_pos hmem, ih]
      by_cases hempty : (data.eraseProvider pair).providers.isEmpty <;>
        simp [hmem, hempty, Nat.add_assoc, Nat.add_comm 1]
    · rw [eraseFromEntries, if_neg hmem, ih]
      simp [hmem]

theorem getElem?_foldl_insert_of_not_mem (f : ServiceData → ServiceData) {name : Text} :
    ∀ {entries : List (Text × ServiceData)} (services : ServiceDataMap),
      name ∉ entries.map Prod.fst →
      (entries.foldl (fun services e => services.insert e.1 (f e.2)) services)[name]? =
        services[name]? := by
  intro entries
  induction entries with
  | nil => intro services _; rfl
  | cons e entries ih =>
    intro services hnot
    obtain ⟨hne, hnot⟩ := not_or.mp (List.mem_cons.not.mp hnot)
    rw [List.foldl_cons, ih _ hnot, Std.ExtTreeMap.getElem?_insert]
    simp [Ne.symm hne]

theorem getElem?_foldl_insert_of_mem (f : ServiceData → ServiceData) {name : Text}
    {data : ServiceData} :
    ∀ {entries : List (Text × ServiceData)} (services : ServiceDataMap),
      (entries.map Prod.fst).Nodup → (name, data) ∈ entries →
      (entries.foldl (fun services e => services.insert e.1 (f e.2)) services)[name]? =
        some (f data) := by
  intro entries
  induction entries with
  | nil => intro services _ hmem; cases hmem
  | cons e entries ih =>
    intro services hnodup hmem
    obtain ⟨hnot, hnodup⟩ := List.nodup_cons.mp hnodup
    rw [List.foldl_cons]
    rcases List.mem_cons.mp hmem with rfl | hmem
    · rw [getElem?_foldl_insert_of_not_mem f _ hnot]
      simp
    · exact ih _ hnodup hmem

theorem getElem?_foldl_erase (name : Text) : ∀ (names : List Text) (services : ServiceDataMap),
    (names.foldl (fun services name => services.erase name) services)[name]? =
      if name ∈ names then none else services[name]? := by
  intro names
  induction names with
  | nil => simp
  | cons n names ih =>
    intro services
    rw [List.foldl_cons, ih, Std.ExtTreeMap.getElem?_erase]
    by_cases hn : n = name
    · simp [hn]
    · simp [hn, Ne.symm hn]

/-- **The sweep over the table, entry by entry.** -/
theorem getElem?_deregisterServer (reg : RegistryImpl) (host port name : Text) :
    (reg.deregisterServer host port).2.services[name]? =
      reg.services[name]?.bind fun data => data.afterErase (host, port) := by
  have hkeys : (reg.services.toList.map Prod.fst).Nodup := by
    rw [Std.ExtTreeMap.map_fst_toList_eq_keys]
    exact Std.ExtTreeMap.nodup_keys
  simp only [deregisterServer, eraseFromEntries_eq, List.nil_append, getElem?_foldl_erase]
  set hit := reg.services.toList.filter fun e => decide ((host, port) ∈ e.2.providers) with hhit
  have hsub : (hit.map Prod.fst).Nodup := hkeys.sublist (List.filter_sublist.map _)
  have hmem_hit : ∀ {name : Text} {data : ServiceData},
      (name, data) ∈ hit ↔ reg.services[name]? = some data ∧ (host, port) ∈ data.providers := by
    intro name data
    rw [hhit, List.mem_filter, Std.ExtTreeMap.mem_toList_iff_getElem?_eq_some, decide_eq_true_iff]
  have hmem_keys : name ∈ hit.map Prod.fst ↔
      ∃ data, reg.services[name]? = some data ∧ (host, port) ∈ data.providers := by
    simp only [List.mem_map, Prod.exists, exists_and_right, exists_eq_right, hmem_hit]
  have hemptied : name ∈ (hit.filter fun e =>
      (e.2.eraseProvider (host, port)).providers.isEmpty).map Prod.fst ↔
      ∃ data, reg.services[name]? = some data ∧ (host, port) ∈ data.providers ∧
        (data.eraseProvider (host, port)).providers.isEmpty := by
    simp only [List.mem_map, List.mem_filter, Prod.exists, hmem_hit, and_assoc]
    constructor
    · rintro ⟨_, data, hdata, hpair, hempty, rfl⟩
      exact ⟨data, hdata, hpair, hempty⟩
    · rintro ⟨data, hdata, hpair, hempty⟩
      exact ⟨name, data, hdata, hpair, hempty, rfl⟩
  cases hdata : reg.services[name]? with
  | none =>
    have hnot : name ∉ hit.map Prod.fst := by simp [hmem_keys, hdata]
    rw [getElem?_foldl_insert_of_not_mem (fun data => data.eraseProvider (host, port)) _ hnot,
      hdata]
    simp
  | some data =>
    by_cases hpair : (host, port) ∈ data.providers
    · rw [getElem?_foldl_insert_of_mem (fun data => data.eraseProvider (host, port)) _ hsub
        (hmem_hit.mpr ⟨hdata, hpair⟩)]
      simp [hemptied, hdata, hpair, ServiceData.afterErase]
    · have hnot : name ∉ hit.map Prod.fst := by simp [hmem_keys, hdata, hpair]
      rw [getElem?_foldl_insert_of_not_mem (fun data => data.eraseProvider (host, port)) _ hnot,
      hdata]
      simp [hemptied, hdata, hpair, ServiceData.afterErase]

/-- The number of entries the pair is erased from. -/
theorem deregisterServer_fst (reg : RegistryImpl) (host port : Text) :
    (reg.deregisterServer host port).1 =
      (reg.services.toList.filter fun e => decide ((host, port) ∈ e.2.providers)).length := by
  simp [deregisterServer, eraseFromEntries_eq]

theorem WellFormed.deregisterServer (h : reg.WellFormed) (host port : Text) :
    (reg.deregisterServer host port).2.WellFormed := by
  intro name data hdata
  rw [getElem?_deregisterServer, Option.bind_eq_some_iff] at hdata
  obtain ⟨data', hdata', hafter⟩ := hdata
  exact (h name data' hdata').afterErase hafter

/-! ### `deregisterService` -/

theorem deregisterService_any (host port : Text) :
    reg.deregisterService .any host port =
      (decide ((reg.deregisterServer host port).1 > 0), (reg.deregisterServer host port).2) := by
  simp [deregisterService]

theorem equals_any_of_ne (h : signature ≠ .any) : signature.equals .any = false := by
  by_contra hany
  exact h (ServiceSignature.eq_any_of_signature
    (ServiceSignature.equals_iff.mp (by simpa using hany)))

/-- The table has the pair under the signature. -/
def Offers (reg : RegistryImpl) (signature : ServiceSignature) (pair : Provider) : Prop :=
  ∃ data, reg.services[signature.name]? = some data ∧ data.signature.equals signature = true ∧
    pair ∈ data.providers

theorem deregisterService_of_not_offers (hany : signature ≠ .any)
    (h : ¬ reg.Offers signature (host, port)) :
    reg.deregisterService signature host port = (false, reg) := by
  rw [deregisterService, equals_any_of_ne hany]
  cases hdata : reg.services[signature.name]? with
  | none => rfl
  | some data =>
    have hcond : ¬ (data.signature.equals signature = true ∧ (host, port) ∈ data.providers) :=
      fun hcond => h ⟨data, hdata, hcond⟩
    simp [hcond]

theorem deregisterService_of_offers (hany : signature ≠ .any)
    (h : reg.Offers signature (host, port)) :
    (reg.deregisterService signature host port).1 = true ∧
      ∀ name : Text, (reg.deregisterService signature host port).2.services[name]? =
        if signature.name = name then
          reg.services[name]?.bind fun data => data.afterErase (host, port)
        else reg.services[name]? := by
  obtain ⟨data, hdata, heq, hmem⟩ := h
  rw [deregisterService, equals_any_of_ne hany]
  simp only [hdata, heq, hmem, decide_true, Bool.and_true, Bool.false_eq_true, if_false, if_true]
  split
  · next hempty =>
    refine ⟨rfl, fun name => ?_⟩
    by_cases hname : signature.name = name
    · subst hname
      simpa [hdata, ServiceData.afterErase, hmem] using hempty
    · simp [hname, Std.ExtTreeMap.getElem?_erase]
  · next hempty =>
    refine ⟨rfl, fun name => ?_⟩
    rw [getElem?_put]
    by_cases hname : signature.name = name
    · subst hname
      simpa [hdata, ServiceData.afterErase, hmem] using hempty
    · simp [hname]

theorem WellFormed.deregisterService (h : reg.WellFormed) (signature : ServiceSignature)
    (host port : Text) : (reg.deregisterService signature host port).2.WellFormed := by
  by_cases hany : signature = .any
  · rw [hany, deregisterService_any]
    exact h.deregisterServer host port
  by_cases hoffers : reg.Offers signature (host, port)
  · intro name data hdata
    rw [(deregisterService_of_offers hany hoffers).2] at hdata
    split at hdata
    · obtain ⟨data', hdata', hafter⟩ := Option.bind_eq_some_iff.mp hdata
      exact (h name data' hdata').afterErase hafter
    · exact h name data hdata
  · rw [deregisterService_of_not_offers hany hoffers]
    exact h

theorem WellFormed.registerService (h : reg.WellFormed) (signature : ServiceSignature)
    (host port : Text) : (reg.registerService signature host port).2.WellFormed := by
  cases hvalid : signature.isValid with
  | false =>
    rw [registerService_of_invalid hvalid]
    exact h
  | true =>
    cases hdata : reg.services[signature.name]? with
    | none =>
      rw [registerService_of_none hvalid hdata]
      exact h.put (ServiceData.wellFormed_new hvalid _)
    | some data =>
      cases heq : data.signature.equals signature with
      | false =>
        rw [registerService_of_ne h hvalid hdata heq]
        exact h
      | true =>
        by_cases hmem : (host, port) ∈ data.providers
        · rw [registerService_of_mem h hvalid hdata heq hmem]
          exact h
        · rw [registerService_of_not_mem h hvalid hdata heq hmem]
          exact h.put ((h _ _ hdata).push hmem)

/-! ### `lookupService` -/

theorem lookupService_of_none (h : reg.services[signature.name]? = none) :
    reg.lookupService signature host port = (some (false, host, port), reg) := by
  simp [lookupService, h]

theorem lookupService_of_some (hreg : reg.WellFormed)
    (hdata : reg.services[signature.name]? = some data) (host port : Text) :
    ∃ pair ∈ data.providers, data.providers[data.lastUsed]? = some pair ∧
      reg.lookupService signature host port =
        (some (true, pair.1, pair.2), reg.put signature.name data.advance) := by
  have hlt := (hreg _ _ hdata).lastUsed_lt
  have hget : data.providers[data.lastUsed]? = some data.providers[data.lastUsed] :=
    List.getElem?_eq_getElem hlt
  refine ⟨_, List.getElem_mem hlt, hget, ?_⟩
  simp [lookupService, hdata, hget]

theorem WellFormed.lookupService (h : reg.WellFormed) (signature : ServiceSignature)
    (host port : Text) : (reg.lookupService signature host port).2.WellFormed := by
  cases hdata : reg.services[signature.name]? with
  | none =>
    rw [lookupService_of_none hdata]
    exact h
  | some data =>
    obtain ⟨pair, -, -, heq⟩ := lookupService_of_some h hdata host port
    rw [heq]
    exact h.put (h _ _ hdata).advance

/-- A well-formed table never reads past the end of a provider list. -/
theorem WellFormed.lookupService_ne_none (h : reg.WellFormed) (signature : ServiceSignature)
    (host port : Text) : (reg.lookupService signature host port).1 ≠ none := by
  cases hdata : reg.services[signature.name]? with
  | none => simp [lookupService_of_none hdata]
  | some data =>
    obtain ⟨pair, -, -, heq⟩ := lookupService_of_some h hdata host port
    simp [heq]

/-! ### The invariant -/

theorem wellFormed_empty : ({} : RegistryImpl).WellFormed := by
  intro name data hdata
  simp at hdata

/-- **Well-formedness is an invariant of the registry.** -/
theorem invariant : machine.Invariant WellFormed where
  init := wellFormed_empty
  step reg op h := by
    cases op with
    | registerService signature host port => exact h.registerService signature host port
    | deregisterService signature host port => exact h.deregisterService signature host port
    | deregisterServer host port => exact h.deregisterServer host port
    | lookupService signature host port => exact h.lookupService signature host port

theorem Reachable.wellFormed (h : reg.Reachable) : reg.WellFormed := invariant.of_reachable h

/-- **Every reachable registry is well formed**, so that the cursor of `lookupService` is never out
of range. -/
theorem reachable_entries (operations : List Operation) :
    let reg := (machine.runFrom machine.init operations).2
    (∀ (name : Text) (data : ServiceData), reg.services[name]? = some data →
      data.providers ≠ [] ∧ data.providers.Nodup ∧ data.signature.isValid = true ∧
        data.signature.name = name ∧ data.lastUsed < data.providers.length) ∧
      ∀ signature host port, (reg.lookupService signature host port).1 ≠ none := by
  intro reg
  have hreg : reg.WellFormed := Reachable.wellFormed ⟨operations, rfl⟩
  refine ⟨fun name data hdata => ?_, hreg.lookupService_ne_none⟩
  have h := hreg name data hdata
  exact ⟨h.ne_nil, h.nodup, h.isValid, h.name_eq, h.lastUsed_lt⟩

end RegistryImpl

end Ssoa
