import Ssoa.Registry.Invariant

/-!
# Deregistering one by one and all at once

`deregisterServer` erases a provider from every entry of the table in one pass and removes the
entries it empties afterwards; `deregisterService` does the same to a single entry at once. Taken
over all registered services, in whatever order, the single operations have the result of the bulk
one: each of them touches only the entry of its service, so a later one still finds what the table
had at the start.

## Main results

* `WellFormed.deregisterService_entry` — `deregisterService` for a registered service
* `deregisterServer_eq_each` — both ways agree, in the table and in the count
-/

namespace Ssoa

namespace RegistryImpl

variable {reg : RegistryImpl} {signature : ServiceSignature} {host port : Text} {data : ServiceData}

/-- The signatures of the registered services, in the order of the table. -/
def signatures (reg : RegistryImpl) : List ServiceSignature :=
  reg.services.toList.map fun entry => entry.2.signature

/-- Deregister the provider from one service after the other: the answers, and the table in the
end. -/
def deregisterEach (reg : RegistryImpl) (order : List ServiceSignature) (host port : Text) :
    List Answer × RegistryImpl :=
  machine.runFrom reg (order.map fun signature => .deregisterService signature host port)

/-- The service is in the table. -/
def Registered (reg : RegistryImpl) (signature : ServiceSignature) : Prop :=
  ∃ data, reg.services[signature.name]? = some data ∧ data.signature = signature

/-- **Deregistering from a registered service**, whether it has the provider or not. -/
theorem WellFormed.deregisterService_entry (h : reg.WellFormed)
    (hdata : reg.services[signature.name]? = some data) (hsame : data.signature = signature)
    (host port : Text) :
    (reg.deregisterService signature host port).1 = decide ((host, port) ∈ data.providers) ∧
      ∀ name : Text, (reg.deregisterService signature host port).2.services[name]? =
        if signature.name = name then data.afterErase (host, port) else reg.services[name]? := by
  have hany : signature ≠ .any := by
    rintro rfl
    have hne := (h _ _ hdata).ne_any
    rw [hsame, ServiceSignature.equals_refl] at hne
    cases hne
  have hequals : data.signature.equals signature = true := by
    rw [hsame, ServiceSignature.equals_refl]
  by_cases hmem : (host, port) ∈ data.providers
  · obtain ⟨htrue, hentries⟩ := deregisterService_of_offers hany ⟨data, hdata, hequals, hmem⟩
    refine ⟨htrue.trans (decide_eq_true hmem).symm, fun name => ?_⟩
    rw [hentries]
    split
    · next hname => rw [← hname, hdata, Option.bind_some]
    · rfl
  · have hno : ¬ reg.Offers signature (host, port) := by
      rintro ⟨other, hother, -, hpair⟩
      obtain rfl := Option.some.inj (hdata.symm.trans hother)
      exact hmem hpair
    rw [deregisterService_of_not_offers hany hno]
    refine ⟨(decide_eq_false hmem).symm, fun name => ?_⟩
    split
    · next hname => rw [← hname, hdata, ServiceData.afterErase, if_neg hmem]
    · rfl

/-- The services of other names are as they were. -/
theorem WellFormed.getElem?_deregisterService_of_ne (h : reg.WellFormed)
    (hregistered : reg.Registered signature) (host port : Text) {name : Text}
    (hne : signature.name ≠ name) :
    (reg.deregisterService signature host port).2.services[name]? = reg.services[name]? := by
  obtain ⟨data, hdata, hsame⟩ := hregistered
  rw [(h.deregisterService_entry hdata hsame host port).2, if_neg hne]

/-- **A run of single deregistrations**: each answers as it would have at the start, and the entries
of the services it was about are without the provider. -/
theorem WellFormed.deregisterEach (h : reg.WellFormed) {order : List ServiceSignature}
    (hnodup : (order.map fun signature => signature.name).Nodup)
    (hregistered : ∀ signature ∈ order, reg.Registered signature) (host port : Text) :
    (reg.deregisterEach order host port).1.count (.deregistered true) =
        order.countP (fun signature => (reg.deregisterService signature host port).1) ∧
      ∀ name : Text, (reg.deregisterEach order host port).2.services[name]? =
        if name ∈ order.map fun signature => signature.name then
          reg.services[name]?.bind fun data => data.afterErase (host, port)
        else reg.services[name]? := by
  induction order generalizing reg with
  | nil => exact ⟨rfl, fun name => rfl⟩
  | cons first rest ih =>
    obtain ⟨hfirst, hnodup⟩ := List.nodup_cons.mp hnodup
    have hhere := hregistered first List.mem_cons_self
    have hother : ∀ signature ∈ rest, first.name ≠ signature.name := fun signature hmem hname =>
      hfirst (List.mem_map.mpr ⟨signature, hmem, hname.symm⟩)
    set reg' := (reg.deregisterService first host port).2 with hreg'
    have hwf : reg'.WellFormed := h.deregisterService first host port
    -- the later services still have the entries they had
    have hlater : ∀ signature ∈ rest, reg'.services[signature.name]? =
        reg.services[signature.name]? := fun signature hmem =>
      h.getElem?_deregisterService_of_ne hhere host port (hother signature hmem)
    obtain ⟨hcount, hentries⟩ := ih hwf hnodup fun signature hmem => by
      obtain ⟨data, hdata, hsame⟩ := hregistered signature (List.mem_cons_of_mem _ hmem)
      exact ⟨data, (hlater signature hmem).trans hdata, hsame⟩
    have hanswers : rest.countP (fun signature => (reg'.deregisterService signature host port).1) =
        rest.countP (fun signature => (reg.deregisterService signature host port).1) := by
      refine List.countP_congr fun signature hmem => ?_
      obtain ⟨data, hdata, hsame⟩ := hregistered signature (List.mem_cons_of_mem _ hmem)
      rw [(h.deregisterService_entry hdata hsame host port).1,
        (hwf.deregisterService_entry ((hlater signature hmem).trans hdata) hsame host port).1]
    constructor
    · have hstep : (reg.deregisterEach (first :: rest) host port).1 =
          .deregistered (reg.deregisterService first host port).1 ::
            (reg'.deregisterEach rest host port).1 := rfl
      rw [hstep, List.count_cons, hcount, hanswers, List.countP_cons]
      cases (reg.deregisterService first host port).1 <;> rfl
    · intro name
      have hstep : (reg.deregisterEach (first :: rest) host port).2 =
          (reg'.deregisterEach rest host port).2 := rfl
      rw [hstep, hentries]
      by_cases hname : first.name = name
      · obtain ⟨data, hdata, hsame⟩ := hhere
        subst hname
        rw [if_neg hfirst, if_pos (by simp), hreg',
          (h.deregisterService_entry hdata hsame host port).2, if_pos rfl, hdata, Option.bind_some]
      · rw [hreg', h.getElem?_deregisterService_of_ne hhere host port hname]
        simp only [List.map_cons, List.mem_cons, Ne.symm hname, false_or]

/-! ### All registered services -/

theorem WellFormed.registered_of_mem (h : reg.WellFormed) (hmem : signature ∈ reg.signatures) :
    reg.Registered signature := by
  obtain ⟨entry, hentry, rfl⟩ := List.mem_map.mp hmem
  have hdata := Std.ExtTreeMap.mem_toList_iff_getElem?_eq_some.mp hentry
  exact ⟨entry.2, (h _ _ hdata).name_eq.symm ▸ hdata, rfl⟩

/-- The names of the signatures are the keys of the table. -/
theorem WellFormed.map_name_signatures (h : reg.WellFormed) :
    (reg.signatures.map fun signature => signature.name) = reg.services.keys := by
  rw [signatures, List.map_map, ← Std.ExtTreeMap.map_fst_toList_eq_keys]
  refine List.map_congr_left fun entry hentry => ?_
  exact (h _ _ (Std.ExtTreeMap.mem_toList_iff_getElem?_eq_some.mp hentry)).name_eq

/-- **Bulk and single deregistration agree.** In every reachable registry, deregistering a server
leaves the table that deregistering its services one by one leaves, in any order, and counts those
that were there. -/
theorem deregisterServer_eq_each (past : List Operation) (host port : Text)
    {order : List ServiceSignature}
    (horder : order.Perm (machine.runFrom machine.init past).2.signatures) :
    (((machine.runFrom machine.init past).2.deregisterEach order host port).1.count
        (.deregistered true),
      ((machine.runFrom machine.init past).2.deregisterEach order host port).2) =
    (machine.runFrom machine.init past).2.deregisterServer host port := by
  have h : (machine.runFrom machine.init past).2.WellFormed := Reachable.wellFormed ⟨past, rfl⟩
  set reg := (machine.runFrom machine.init past).2
  have hnames : (order.map fun signature => signature.name).Perm reg.services.keys :=
    h.map_name_signatures ▸ horder.map _
  obtain ⟨hcount, hentries⟩ := h.deregisterEach
    (hnames.nodup_iff.mpr Std.ExtTreeMap.nodup_keys)
    (fun signature hmem => h.registered_of_mem (horder.mem_iff.mp hmem)) host port
  refine Prod.ext ?_ (ext_entries fun name => ?_)
  · rw [hcount, horder.countP_eq, signatures, List.countP_map, deregisterServer_fst,
      ← List.countP_eq_length_filter]
    refine List.countP_congr fun entry hentry => ?_
    have hdata := Std.ExtTreeMap.mem_toList_iff_getElem?_eq_some.mp hentry
    have hname := (h _ _ hdata).name_eq
    rw [Function.comp_apply, (h.deregisterService_entry (hname.symm ▸ hdata) rfl host port).1]
  · rw [hentries, getElem?_deregisterServer]
    split
    · rfl
    · next hout =>
      have hnone : reg.services[name]? = none := by
        rw [hnames.mem_iff, Std.ExtTreeMap.mem_keys] at hout
        exact Std.ExtTreeMap.getElem?_eq_none hout
      rw [hnone, Option.bind_none]

/-- Three services, two of them of `a`, deregistered against the order of the table. -/
theorem deregisterServer_eq_each_sample :
    let f := ServiceSignature.ofText (txt "f(in int)")
    let g := ServiceSignature.ofText (txt "g(in int)")
    let h := ServiceSignature.ofText (txt "h(in int)")
    let past := [.registerService f (txt "a") (txt "1"), .registerService g (txt "b") (txt "2"),
      .registerService g (txt "a") (txt "1"), .registerService h (txt "b") (txt "2"),
      .lookupService g [] []]
    let reg := (machine.runFrom machine.init past).2
    ((reg.deregisterEach [h, g, f] (txt "a") (txt "1")).1.count (.deregistered true),
      (reg.deregisterEach [h, g, f] (txt "a") (txt "1")).2) =
    reg.deregisterServer (txt "a") (txt "1") := by
  intro f g h past reg
  have horder : [h, g, f].Perm reg.signatures := by decide +kernel
  exact deregisterServer_eq_each past _ _ horder

end RegistryImpl

end Ssoa
