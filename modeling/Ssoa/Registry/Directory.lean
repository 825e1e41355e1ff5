import Ssoa.Registry.Invariant
import Mathlib.Data.Set.Card

/-!
# The registry as a set of offers

What a registry is for can be said without tables and cursors: it is a set of offers, each a
provider under a signature, in which signatures of one name agree. `Directory` says so over
arbitrary signatures and providers. The registry refines it: its table is read as the set of its
offers, and every operation answers and changes that set as the directory prescribes.

Signatures are compared by their canonical strings, so an offer is *present* under every signature
written like its own.

## Main results

* `Directory.Consistent.*` — signatures of one name agree, whatever the directory is asked
* `refines`, `Reachable.consistent` — the registry refines the directory, and so its signatures of
  one name agree
* `offers_spec` — every operation in every reachable state, in terms of offers
-/

namespace Ssoa

/-! ### Directories -/

namespace Directory

section

variable {σ κ π : Type*} (valid : σ → Prop) (name : σ → κ) (same : σ → σ → Prop)
  (S S' : Set (σ × π)) (s : σ) (p : π)

/-- The provider is present under a signature written like `s`. -/
def Present : Prop := ∃ t, same t s ∧ (t, p) ∈ S

/-- The signature may not be registered: it is malformed, or another one has its name. -/
def Refused : Prop := ¬ valid s ∨ ∃ o ∈ S, name o.1 = name s ∧ ¬ same o.1 s

/-- Registering fails and changes nothing, or adds an offer and tells whether it is new. -/
structure Register (r : Option Bool) : Prop where
  eq_none_iff : r = none ↔ Refused valid name same S s
  unchanged : r = none → S' = S
  answer : r ≠ none → (r = some true ↔ ¬ Present same S s p)
  insert : r ≠ none → S' = insert (s, p) S

/-- Deregistering removes an offer and tells whether it was there. -/
structure Deregister (r : Bool) : Prop where
  answer : r = true ↔ Present same S s p
  remove : S' = {o ∈ S | ¬ (same o.1 s ∧ o.2 = p)}

/-- Removing a provider removes all its offers and tells how many there were. -/
structure Remove (n : ℕ) : Prop where
  answer : n = {o ∈ S | o.2 = p}.ncard
  remove : S' = {o ∈ S | o.2 ≠ p}

/-- A lookup changes nothing and returns a provider of the name, if any. -/
structure Lookup (r : Option π) : Prop where
  unchanged : S' = S
  answer : ∀ p, r = some p → ∃ o ∈ S, name o.1 = name s ∧ o.2 = p

/-- All signatures are well formed, and those of one name agree. -/
def Consistent : Prop :=
  ∀ o ∈ S, valid o.1 ∧ ∀ o' ∈ S, name o.1 = name o'.1 → same o.1 o'.1

variable {valid name same S S' s p}

theorem Consistent.subset (h : Consistent valid name same S) (hsub : S' ⊆ S) :
    Consistent valid name same S' :=
  fun o ho => ⟨(h o (hsub ho)).1, fun o' ho' => (h o (hsub ho)).2 o' (hsub ho')⟩

theorem Consistent.register (h : Consistent valid name same S) (heqv : Equivalence same)
    {r : Option Bool} (hr : Register valid name same S S' s p r) :
    Consistent valid name same S' := by
  by_cases hnone : r = none
  · rw [hr.unchanged hnone]
    exact h
  have hallowed : ¬ Refused valid name same S s := fun hc => hnone (hr.eq_none_iff.mpr hc)
  simp only [Refused, not_or, not_not, not_exists, not_and] at hallowed
  obtain ⟨hvalid, hagree⟩ := hallowed
  rw [hr.insert hnone]
  rintro o (rfl | ho)
  · refine ⟨hvalid, ?_⟩
    rintro o' (rfl | ho') hname
    · exact heqv.refl _
    · exact heqv.symm (hagree o' ho' hname.symm)
  · refine ⟨(h o ho).1, ?_⟩
    rintro o' (rfl | ho') hname
    · exact hagree o ho hname
    · exact (h o ho).2 o' ho' hname

end

end Directory

/-- The signature was read from a well-formed text. -/
abbrev ServiceSignature.Valid (a : ServiceSignature) : Prop := a.isValid = true

/-- The signatures are written alike. -/
abbrev ServiceSignature.Same (a b : ServiceSignature) : Prop := a.equals b = true

theorem ServiceSignature.same_equivalence : Equivalence ServiceSignature.Same where
  refl a := equals_refl a
  symm h := equals_iff.mpr (equals_iff.mp h).symm
  trans h h' := equals_iff.mpr ((equals_iff.mp h).trans (equals_iff.mp h'))

/-! ### The offers of a table -/

namespace RegistryImpl

open Directory ServiceSignature

variable {reg : RegistryImpl} {signature : ServiceSignature} {host port : Text} {data : ServiceData}

/-- The offers in the table. -/
def offers (reg : RegistryImpl) : Set (ServiceSignature × Provider) :=
  {o | ∃ (name : Text) (data : ServiceData),
    reg.services[name]? = some data ∧ data.signature = o.1 ∧ o.2 ∈ data.providers}

/-- Signatures with the same string are equal when they are valid. -/
theorem eq_of_equals {a b : ServiceSignature} (ha : a.isValid = true) (hb : b.isValid = true)
    (h : a.equals b = true) : a = b := by
  rw [← ServiceSignature.ofText_signature ha, ← ServiceSignature.ofText_signature hb,
    ServiceSignature.equals_iff.mp h]

theorem name_eq_of_equals {a b : ServiceSignature} (h : a.equals b = true) : a.name = b.name :=
  (ServiceSignature.eq_of_signature_eq (ServiceSignature.equals_iff.mp h)).1

/-- In a well-formed table the offers of a signature are under its name. -/
theorem WellFormed.mem_offers (h : reg.WellFormed) {o : ServiceSignature × Provider} :
    o ∈ reg.offers ↔ ∃ data : ServiceData,
      reg.services[o.1.name]? = some data ∧ data.signature = o.1 ∧ o.2 ∈ data.providers := by
  constructor
  · rintro ⟨name, data, hdata, hsig, hmem⟩
    refine ⟨data, ?_, hsig, hmem⟩
    rw [← hsig, (h name data hdata).name_eq, hdata]
  · rintro ⟨data, hdata, hsig, hmem⟩
    exact ⟨_, data, hdata, hsig, hmem⟩

/-- The table offers a pair under a signature when the directory has it. -/
theorem WellFormed.offers_iff (h : reg.WellFormed) {pair : Provider} :
    reg.Offers signature pair ↔
      Present Same reg.offers signature pair := by
  constructor
  · rintro ⟨data, hdata, heq, hmem⟩
    exact ⟨data.signature, heq, _, data, hdata, rfl, hmem⟩
  · rintro ⟨t, heq, ht⟩
    obtain ⟨data, hdata, rfl, hmem⟩ := h.mem_offers.mp ht
    exact ⟨data, name_eq_of_equals heq ▸ hdata, heq, hmem⟩

/-- The offers after writing an entry. -/
theorem WellFormed.mem_offers_put (h : reg.WellFormed) {name : Text} (hdata : data.WellFormed name)
    {o : ServiceSignature × Provider} :
    o ∈ (reg.put name data).offers ↔
      (data.signature = o.1 ∧ o.2 ∈ data.providers) ∨ (o.1.name ≠ name ∧ o ∈ reg.offers) := by
  rw [(h.put hdata).mem_offers, h.mem_offers, getElem?_put]
  by_cases hname : name = o.1.name
  · simp [hname]
  · have hne : data.signature ≠ o.1 := fun heq => hname (heq ▸ hdata.name_eq.symm)
    simp [hname, hne, Ne.symm hname]

/-- Moving a cursor changes no offer. -/
theorem WellFormed.offers_advance (h : reg.WellFormed) {name : Text}
    (hdata : reg.services[name]? = some data) :
    (reg.put name data.advance).offers = reg.offers := by
  have hwf := h _ _ hdata
  ext o
  rw [h.mem_offers_put hwf.advance, h.mem_offers]
  by_cases hname : o.1.name = name
  · simp [hname, hdata, ServiceData.advance]
  · have hne : data.signature ≠ o.1 := fun heq => hname (heq ▸ hwf.name_eq)
    simp [hname, ServiceData.advance, hne]

/-- What is left of an entry offers what it offered before, without the pair. -/
theorem exists_afterErase {name : Text} (h : data.WellFormed name) {pair q : Provider} :
    (∃ data', data.afterErase pair = some data' ∧ data'.signature = signature ∧
      q ∈ data'.providers) ↔
      data.signature = signature ∧ q ∈ data.providers ∧ q ≠ pair := by
  unfold ServiceData.afterErase
  by_cases hpair : pair ∈ data.providers
  · have hmem : q ∈ (data.eraseProvider pair).providers ↔ q ∈ data.providers ∧ q ≠ pair :=
      h.nodup.mem_erase_iff.trans and_comm
    rw [if_pos hpair]
    split
    · next hempty =>
      have hnone : ¬ (q ∈ data.providers ∧ q ≠ pair) := by
        rw [← hmem, List.isEmpty_iff.mp hempty]
        exact List.not_mem_nil
      simpa using fun _ => by simpa using hnone
    · simp only [Option.some.injEq, exists_eq_left', hmem]
      rfl
  · rw [if_neg hpair]
    have hne : q ∈ data.providers → q ≠ pair := fun hq heq => hpair (heq ▸ hq)
    simp only [Option.some.injEq, exists_eq_left']
    exact and_congr_right fun _ => ⟨fun hq => ⟨hq, hne hq⟩, And.left⟩

/-! ### The operations on offers -/

section Register

variable {p : Provider} {S S' : Set (ServiceSignature × Provider)}

/-- Registering fails. -/
theorem register_refused (h : Refused Valid (fun a => a.name) Same S signature) :
    Register Valid (fun a => a.name) Same S S signature p none :=
  ⟨⟨fun _ => h, fun _ => rfl⟩, fun _ => rfl, fun hne => absurd rfl hne, fun hne => absurd rfl hne⟩

/-- Registering succeeds. -/
theorem register_allowed {added : Bool}
    (h : ¬ Refused Valid (fun a => a.name) Same S signature)
    (hadded : added = true ↔ ¬ Present Same S signature p) (hS' : S' = insert (signature, p) S) :
    Register Valid (fun a => a.name) Same S S' signature p (some added) :=
  ⟨⟨fun hnone => (by cases hnone), fun hc => absurd hc h⟩, fun hnone => (by cases hnone),
    fun _ => by rw [Option.some.injEq, hadded], fun _ => hS'⟩

end Register

/-- Registering under a name that has no entry. -/
theorem WellFormed.register_none (h : reg.WellFormed) (hvalid : signature.isValid = true)
    (hdata : reg.services[signature.name]? = none) (host port : Text) :
    Register Valid (fun a => a.name) Same reg.offers
      (reg.put signature.name ⟨signature, [(host, port)], 0⟩).offers signature (host, port)
      (some true) := by
  -- nothing is offered under the name
  have hno : ∀ o ∈ reg.offers, o.1.name ≠ signature.name := by
    intro o ho hname
    obtain ⟨data, hdata', -⟩ := h.mem_offers.mp ho
    rw [hname, hdata] at hdata'
    cases hdata'
  have hpresent : ¬ Present Same reg.offers signature (host, port) :=
    fun ⟨t, heq, ht⟩ => hno _ ht (name_eq_of_equals heq)
  refine register_allowed ?_ ⟨fun _ => hpresent, fun _ => rfl⟩ ?_
  · rintro (hinvalid | ⟨o, ho, hname, -⟩)
    · exact hinvalid hvalid
    · exact hno o ho hname
  · ext o
    rw [h.mem_offers_put (ServiceData.wellFormed_new hvalid _), Set.mem_insert_iff]
    refine or_congr ?_ ⟨And.right, fun ho => ⟨hno o ho, ho⟩⟩
    simp [Prod.ext_iff, eq_comm]

/-- Adding a provider to an entry adds an offer. -/
theorem WellFormed.offers_push (h : reg.WellFormed)
    (hdata : reg.services[signature.name]? = some data) (hsame : data.signature = signature)
    {pair : Provider} (hmem : pair ∉ data.providers) :
    (reg.put signature.name { data with providers := data.providers ++ [pair] }).offers =
      insert (signature, pair) reg.offers := by
  ext o
  rw [h.mem_offers_put ((h _ _ hdata).push hmem), Set.mem_insert_iff, h.mem_offers]
  by_cases hname : o.1.name = signature.name
  · simp [hname, hdata, hsame, Prod.ext_iff, and_or_left, eq_comm, or_comm]
  · have hne : signature ≠ o.1 := fun heq => hname (heq ▸ rfl)
    simp [hname, hsame, Prod.ext_iff, hne, Ne.symm hne]

/-- Registering under a name that has an entry. -/
theorem WellFormed.register_some (h : reg.WellFormed) (hvalid : signature.isValid = true)
    (hdata : reg.services[signature.name]? = some data) (host port : Text) :
    Register Valid (fun a => a.name) Same reg.offers
      (reg.registerService signature host port).2.offers signature (host, port)
      (reg.registerService signature host port).1.toOption := by
  have hwf := h _ _ hdata
  cases heq : data.signature.equals signature with
  | false =>
    rw [registerService_of_ne h hvalid hdata heq]
    obtain ⟨q, hq⟩ := List.exists_mem_of_ne_nil _ hwf.ne_nil
    exact register_refused (.inr ⟨(data.signature, q), ⟨_, data, hdata, rfl, hq⟩, hwf.name_eq,
      by simp [heq]⟩)
  | true =>
    have hsame : data.signature = signature := eq_of_equals hwf.isValid hvalid heq
    -- every offer under the name is in this entry
    have hallowed : ¬ Refused Valid (fun a => a.name) Same reg.offers signature := by
      rintro (hinvalid | ⟨o, ho, hname, hne⟩)
      · exact hinvalid hvalid
      · obtain ⟨data', hdata', hsig, -⟩ := h.mem_offers.mp ho
        have hname : o.1.name = signature.name := hname
        rw [hname, hdata] at hdata'
        obtain rfl := Option.some.inj hdata'
        exact hne (hsig ▸ heq)
    have hpresent : Present Same reg.offers signature (host, port) ↔
        (host, port) ∈ data.providers := by
      rw [← h.offers_iff]
      simp [Offers, hdata, heq]
    by_cases hmem : (host, port) ∈ data.providers
    · rw [registerService_of_mem h hvalid hdata heq hmem]
      have hoffer : (signature, (host, port)) ∈ reg.offers := ⟨_, data, hdata, hsame, hmem⟩
      exact register_allowed hallowed
        ⟨fun hnew => (by cases hnew), fun hnew => absurd (hpresent.mpr hmem) hnew⟩
        (Set.insert_eq_of_mem hoffer).symm
    · rw [registerService_of_not_mem h hvalid hdata heq hmem]
      exact register_allowed hallowed ⟨fun _ => hpresent.not.mpr hmem, fun _ => rfl⟩
        (h.offers_push hdata hsame hmem)

/-- `registerService` on offers. -/
theorem WellFormed.register (h : reg.WellFormed) (signature : ServiceSignature) (host port : Text) :
    Register Valid (fun a => a.name) Same reg.offers
      (reg.registerService signature host port).2.offers
      signature (host, port) (reg.registerService signature host port).1.toOption := by
  cases hvalid : signature.isValid with
  | false =>
    rw [registerService_of_invalid hvalid]
    exact register_refused (.inl (by simp [hvalid]))
  | true =>
    cases hdata : reg.services[signature.name]? with
    | none =>
      rw [registerService_of_none hvalid hdata]
      exact h.register_none hvalid hdata host port
    | some data => exact h.register_some hvalid hdata host port

/-- `deregisterService` on offers, for a signature other than `any`. -/
theorem WellFormed.deregister (h : reg.WellFormed) (hany : signature ≠ .any) (host port : Text) :
    Deregister Same reg.offers
      (reg.deregisterService signature host port).2.offers signature (host, port)
      (reg.deregisterService signature host port).1 := by
  by_cases hoffers : reg.Offers signature (host, port)
  · obtain ⟨htrue, hentries⟩ := deregisterService_of_offers hany hoffers
    refine ⟨⟨fun _ => h.offers_iff.mp hoffers, fun _ => htrue⟩, ?_⟩
    obtain ⟨data, hdata, heq, hmem⟩ := hoffers
    ext o
    rw [(h.deregisterService signature host port).mem_offers, hentries, Set.mem_sep_iff,
      h.mem_offers]
    by_cases hname : signature.name = o.1.name
    · rw [if_pos hname, ← hname, hdata, Option.bind_some, exists_afterErase (h _ _ hdata)]
      simp only [Option.some.injEq, exists_eq_left']
      constructor
      · rintro ⟨hsig, hq, hne⟩
        exact ⟨⟨hsig, hq⟩, fun hc => hne hc.2⟩
      · rintro ⟨⟨hsig, hq⟩, hne⟩
        exact ⟨hsig, hq, fun hc => hne ⟨hsig ▸ heq, hc⟩⟩
    · rw [if_neg hname]
      have hne : ¬ (o.1.equals signature = true ∧ o.2 = (host, port)) :=
        fun hc => hname (name_eq_of_equals hc.1).symm
      exact ⟨fun hc => ⟨hc, hne⟩, And.left⟩
  · rw [deregisterService_of_not_offers hany hoffers]
    have hpresent := h.offers_iff.not.mp hoffers
    refine ⟨⟨fun hc => (by cases hc), fun hc => absurd hc hpresent⟩, ?_⟩
    ext o
    refine ⟨fun ho => ⟨ho, ?_⟩, And.left⟩
    rintro ⟨heq, hpair⟩
    exact hpresent ⟨o.1, heq, hpair ▸ ho⟩

/-- `deregisterServer` on offers. -/
theorem WellFormed.remove (h : reg.WellFormed) (host port : Text) :
    Remove reg.offers (reg.deregisterServer host port).2.offers (host, port)
      (reg.deregisterServer host port).1 := by
  refine ⟨?_, ?_⟩
  · -- an entry with the pair is an offer of the pair
    rw [deregisterServer_fst]
    set hit := reg.services.toList.filter fun e => decide ((host, port) ∈ e.2.providers) with hhit
    have hmem_hit : ∀ {e : Text × ServiceData},
        e ∈ hit ↔ reg.services[e.1]? = some e.2 ∧ (host, port) ∈ e.2.providers := by
      intro e
      rw [hhit, List.mem_filter, Std.ExtTreeMap.mem_toList_iff_getElem?_eq_some, decide_eq_true_iff]
    have hnodup : (hit.map fun e => e.2.signature).Nodup := by
      have hkeys : (hit.map Prod.fst).Nodup := by
        refine List.Nodup.sublist (List.filter_sublist.map _) ?_
        rw [Std.ExtTreeMap.map_fst_toList_eq_keys]
        exact Std.ExtTreeMap.nodup_keys
      have hnames : hit.map Prod.fst = (hit.map fun e => e.2.signature).map fun s => s.name := by
        rw [List.map_map]
        exact List.map_congr_left fun e he => ((h _ _ (hmem_hit.mp he).1).name_eq).symm
      exact List.Nodup.of_map _ (hnames ▸ hkeys)
    have himage : {o ∈ reg.offers | o.2 = (host, port)} =
        (fun s => (s, (host, port))) '' {s | s ∈ hit.map fun e => e.2.signature} := by
      ext ⟨s, q⟩
      simp only [Set.mem_ofPred_eq, Set.mem_image, List.mem_map, Prod.mk.injEq]
      constructor
      · rintro ⟨⟨name, data, hdata, rfl, hq⟩, rfl⟩
        exact ⟨_, ⟨(name, data), hmem_hit.mpr ⟨hdata, hq⟩, rfl⟩, rfl, rfl⟩
      · rintro ⟨_, ⟨e, he, rfl⟩, rfl, rfl⟩
        obtain ⟨hdata, hq⟩ := hmem_hit.mp he
        exact ⟨⟨e.1, e.2, hdata, rfl, hq⟩, rfl⟩
    classical
    have hset : {s | s ∈ hit.map fun e => e.2.signature} =
        ((hit.map fun e => e.2.signature).toFinset : Set ServiceSignature) := by
      ext s
      simp
    rw [himage, Set.ncard_image_of_injective _ fun s t hst => (Prod.mk.inj hst).1, hset,
      Set.ncard_coe_finset, List.toFinset_card_of_nodup hnodup, List.length_map]
  · ext o
    rw [(h.deregisterServer host port).mem_offers, Set.mem_sep_iff, h.mem_offers,
      getElem?_deregisterServer]
    cases hdata : reg.services[o.1.name]? with
    | none => simp
    | some data =>
      rw [Option.bind_some, exists_afterErase (h _ _ hdata)]
      simp [and_assoc]

/-- `lookupService` on offers. -/
theorem WellFormed.lookup (h : reg.WellFormed) (signature : ServiceSignature) (host port : Text) :
    ∃ found host' port', (reg.lookupService signature host port).1 = some (found, host', port') ∧
      Lookup (fun a : ServiceSignature => a.name) reg.offers
        (reg.lookupService signature host port).2.offers signature
        (if found then some (host', port') else none) := by
  cases hdata : reg.services[signature.name]? with
  | none =>
    rw [lookupService_of_none hdata]
    exact ⟨false, host, port, rfl, rfl, fun p hp => (by cases hp)⟩
  | some data =>
    obtain ⟨pair, hmem, -, heq⟩ := lookupService_of_some h hdata host port
    rw [heq]
    refine ⟨true, pair.1, pair.2, rfl, h.offers_advance hdata, fun p hp => ?_⟩
    obtain rfl : pair = p := Option.some.inj hp
    exact ⟨(data.signature, pair), ⟨_, data, hdata, rfl, hmem⟩, (h _ _ hdata).name_eq, rfl⟩

/-! ### Refinement -/

/-- What the directory allows as answer to an operation and as offers after it. -/
def Allowed (S : Set (ServiceSignature × Provider)) :
    Operation → Answer → Set (ServiceSignature × Provider) → Prop
  | .registerService signature host port, .registered result, S' =>
    Register Valid (fun a => a.name) Same S S' signature (host, port) result.toOption
  | .deregisterService signature host port, .deregistered done, S' =>
    if signature = .any then ∃ n, Remove S S' (host, port) n ∧ done = decide (0 < n)
    else Deregister Same S S' signature (host, port) done
  | .deregisterServer host port, .removed count, S' => Remove S S' (host, port) count
  | .lookupService signature _ _, .lookedUp result, S' =>
    ∃ found host' port', result = some (found, host', port') ∧
      Lookup (fun a => a.name) S S' signature (if found then some (host', port') else none)
  | _, _, _ => False

/-- **The registry refines the directory.** -/
theorem refines : machine.Refines WellFormed offers Allowed where
  invariant := invariant
  step reg op h := by
    cases op with
    | registerService signature host port => exact h.register signature host port
    | deregisterService signature host port =>
      by_cases hany : signature = .any
      · subst hany
        simp only [machine, perform, deregisterService_any, Prod.map, Allowed, if_pos]
        exact ⟨_, h.remove host port, rfl⟩
      · simp only [machine, perform, Prod.map, Allowed, if_neg hany]
        exact h.deregister hany host port
    | deregisterServer host port => exact h.remove host port
    | lookupService signature host port => exact h.lookup signature host port

/-- In the directory, signatures of one name agree, whatever it is asked. -/
theorem Allowed.consistent {S S' : Set (ServiceSignature × Provider)} {op : Operation}
    {answer : Answer} (h : Allowed S op answer S')
    (hS : Consistent Valid (fun a => a.name) Same S) :
    Consistent Valid (fun a => a.name) Same S' := by
  cases op <;> cases answer <;> simp only [Allowed] at h
  case registerService.registered => exact hS.register ServiceSignature.same_equivalence h
  case deregisterService.deregistered =>
    split at h
    · obtain ⟨n, h, -⟩ := h
      exact hS.subset (h.remove ▸ Set.sep_subset _ _)
    · exact hS.subset (h.remove ▸ Set.sep_subset _ _)
  case deregisterServer.removed => exact hS.subset (h.remove ▸ Set.sep_subset _ _)
  case lookupService.lookedUp =>
    obtain ⟨_, _, _, _, h⟩ := h
    exact h.unchanged ▸ hS

/-- **In every reachable registry the signatures of one name agree.** -/
theorem Reachable.consistent (h : reg.Reachable) :
    Consistent Valid (fun a => a.name) Same reg.offers := by
  refine refines.of_reachable ?_ (fun S op answer S' hS hallowed => hallowed.consistent hS) h
  rintro o ⟨name, data, hdata, -⟩
  exact absurd hdata (by simp [machine])

/-- A `registerService` that throws leaves the whole table unchanged. -/
theorem WellFormed.registerService_throws (h : reg.WellFormed) {e : Exn}
    (he : (reg.registerService signature host port).1 = .error e) :
    (reg.registerService signature host port).2 = reg := by
  cases hvalid : signature.isValid with
  | false => rw [registerService_of_invalid hvalid]
  | true =>
    cases hdata : reg.services[signature.name]? with
    | none =>
      rw [registerService_of_none hvalid hdata] at he
      cases he
    | some data =>
      cases heq : data.signature.equals signature with
      | false => rw [registerService_of_ne h hvalid hdata heq]
      | true =>
        by_cases hmem : (host, port) ∈ data.providers
        · rw [registerService_of_mem h hvalid hdata heq hmem]
        · rw [registerService_of_not_mem h hvalid hdata heq hmem] at he
          cases he

/-- **The operations of every reachable registry, on its offers.** -/
theorem offers_spec (operations : List Operation) :
    let reg := (machine.runFrom machine.init operations).2
    (∀ signature host port,
      Register Valid (fun a => a.name) Same reg.offers
        (reg.registerService signature host port).2.offers signature (host, port)
        (reg.registerService signature host port).1.toOption ∧
      ∀ e, (reg.registerService signature host port).1 = .error e →
        (reg.registerService signature host port).2 = reg) ∧
    (∀ signature host port, signature ≠ .any →
      Deregister Same reg.offers (reg.deregisterService signature host port).2.offers signature
        (host, port) (reg.deregisterService signature host port).1) ∧
    (∀ host port,
      Remove reg.offers (reg.deregisterServer host port).2.offers (host, port)
        (reg.deregisterServer host port).1 ∧
      reg.deregisterService .any host port =
        (decide (0 < (reg.deregisterServer host port).1), (reg.deregisterServer host port).2)) ∧
    ∀ signature host port, ∃ found host' port',
      (reg.lookupService signature host port).1 = some (found, host', port') ∧
      Lookup (fun a : ServiceSignature => a.name) reg.offers
        (reg.lookupService signature host port).2.offers signature
        (if found then some (host', port') else none) := by
  intro reg
  have h : reg.WellFormed := Reachable.wellFormed ⟨operations, rfl⟩
  exact ⟨fun signature host port =>
      ⟨h.register signature host port, fun e he => h.registerService_throws he⟩,
    fun signature host port hany => h.deregister hany host port,
    fun host port => ⟨h.remove host port, deregisterService_any host port⟩, h.lookup⟩

end RegistryImpl

end Ssoa
