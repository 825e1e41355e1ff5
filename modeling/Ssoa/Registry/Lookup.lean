import Ssoa.Registry.Directory

/-!
# What a lookup finds

Registering and deregistering compare whole signatures, as the comment on the table asks
("parameters must match"); `lookupService` compares names only. It therefore also finds a service
whose parameters are other than the requested ones, and finds one for a malformed request.

## Main results

* `looksUpExactly_iff` — when a lookup answers for the requested signature and no other
* `lookup_other_parameters` — a lookup that does not
-/

namespace Ssoa

namespace RegistryImpl

open Directory ServiceSignature

variable {reg : RegistryImpl} {signature : ServiceSignature} {host port : Text} {data : ServiceData}

/-- The lookup succeeds exactly when a provider is registered under this very signature, and
returns one of its providers; for a signature that is malformed, or whose name belongs to other
parameters, it fails; and when it fails, nothing changes. -/
def LooksUpExactly (reg : RegistryImpl) (signature : ServiceSignature) (host port : Text) : Prop :=
  ∃ found host' port', (reg.lookupService signature host port).1 = some (found, host', port') ∧
    (found = true ↔ ∃ o ∈ reg.offers, o.1.Same signature) ∧
    (found = true → Present Same reg.offers signature (host', port')) ∧
    ((signature.isValid = false ∨
        ∃ o ∈ reg.offers, o.1.name = signature.name ∧ ¬ o.1.Same signature) → found = false) ∧
    (found = false → host' = host ∧ port' = port ∧
      (reg.lookupService signature host port).2 = reg)

/-- No other signature is registered under the name, and a malformed one is not asked for while
the name is. -/
def NameAgrees (reg : RegistryImpl) (signature : ServiceSignature) : Prop :=
  ∀ o ∈ reg.offers, o.1.name = signature.name → signature.isValid = true ∧ o.1.Same signature

theorem WellFormed.exists_offer (h : reg.WellFormed) :
    (∃ o ∈ reg.offers, o.1.name = signature.name) ↔
      ∃ data, reg.services[signature.name]? = some data := by
  constructor
  · rintro ⟨o, ho, hname⟩
    obtain ⟨data, hdata, -⟩ := h.mem_offers.mp ho
    exact ⟨data, hname ▸ hdata⟩
  · rintro ⟨data, hdata⟩
    have hwf := h _ _ hdata
    obtain ⟨q, hq⟩ := List.exists_mem_of_ne_nil _ hwf.ne_nil
    exact ⟨(data.signature, q), ⟨_, data, hdata, rfl, hq⟩, hwf.name_eq⟩

/-- A lookup finds something when the name is in the table. -/
theorem WellFormed.lookupService_found (h : reg.WellFormed) {found : Bool} {host' port' : Text}
    (hres : (reg.lookupService signature host port).1 = some (found, host', port')) :
    found = true ↔ ∃ o ∈ reg.offers, o.1.name = signature.name := by
  rw [h.exists_offer]
  cases hdata : reg.services[signature.name]? with
  | none =>
    rw [lookupService_of_none hdata] at hres
    obtain ⟨rfl, -⟩ := Prod.mk.inj (Option.some.inj hres)
    simp
  | some data =>
    obtain ⟨pair, -, -, heq⟩ := lookupService_of_some h hdata host port
    rw [heq] at hres
    obtain ⟨rfl, -⟩ := Prod.mk.inj (Option.some.inj hres)
    simp

/-- A lookup that finds nothing changes nothing. -/
theorem WellFormed.lookupService_not_found (h : reg.WellFormed) {host' port' : Text}
    (hres : (reg.lookupService signature host port).1 = some (false, host', port')) :
    host' = host ∧ port' = port ∧ (reg.lookupService signature host port).2 = reg := by
  cases hdata : reg.services[signature.name]? with
  | none =>
    rw [lookupService_of_none hdata] at hres ⊢
    obtain ⟨-, hpair⟩ := Prod.mk.inj (Option.some.inj hres)
    obtain ⟨rfl, rfl⟩ := Prod.mk.inj hpair
    exact ⟨rfl, rfl, rfl⟩
  | some data =>
    obtain ⟨pair, -, -, heq⟩ := lookupService_of_some h hdata host port
    rw [heq] at hres
    cases hres

/-- A lookup answers for the requested signature exactly when the name agrees. -/
theorem WellFormed.looksUpExactly_iff (h : reg.WellFormed) :
    reg.LooksUpExactly signature host port ↔ reg.NameAgrees signature := by
  obtain ⟨found, host', port', hres, hspec⟩ := h.lookup signature host port
  have hfound := h.lookupService_found hres
  constructor
  · rintro ⟨found₁, host₁, port₁, hres₁, -, -, hother, -⟩ o ho hname
    obtain ⟨rfl, -⟩ := Prod.mk.inj (Option.some.inj (hres.symm.trans hres₁))
    have htrue : found = true := hfound.mpr ⟨o, ho, hname⟩
    constructor
    · by_contra hinvalid
      exact absurd (hother (.inl (by simpa using hinvalid))) (by simp [htrue])
    · by_contra hne
      exact absurd (hother (.inr ⟨o, ho, hname, hne⟩)) (by simp [htrue])
  · intro hagrees
    refine ⟨found, host', port', hres, ?_, ?_, ?_, ?_⟩
    · rw [hfound]
      constructor
      · rintro ⟨o, ho, hname⟩
        exact ⟨o, ho, (hagrees o ho hname).2⟩
      · rintro ⟨o, ho, hsame⟩
        exact ⟨o, ho, name_eq_of_equals hsame⟩
    · rintro rfl
      obtain ⟨o, ho, hname, hpair⟩ := hspec.answer _ rfl
      exact ⟨o.1, (hagrees o ho hname).2, hpair ▸ ho⟩
    · rintro hbad
      by_contra hne
      obtain ⟨o, ho, hname⟩ := hfound.mp (by simpa using hne)
      rcases hbad with hinvalid | ⟨o', ho', hname', hne'⟩
      · exact absurd (hagrees o ho hname).1 (by simp [hinvalid])
      · exact hne' (hagrees o' ho' hname').2
    · rintro rfl
      exact h.lookupService_not_found hres

/-- **In every reachable registry, a lookup answers for the requested signature exactly when the
name agrees.** -/
theorem looksUpExactly_iff_nameAgrees (operations : List Operation) (signature : ServiceSignature)
    (host port : Text) :
    (machine.runFrom machine.init operations).2.LooksUpExactly signature host port ↔
      (machine.runFrom machine.init operations).2.NameAgrees signature :=
  (Reachable.wellFormed ⟨operations, rfl⟩).looksUpExactly_iff

/-- **A lookup that answers for other parameters.** With `f(in int)` registered at one provider, a
client that asks for `f(in double)` is handed that provider. -/
theorem lookup_other_parameters :
    let reg := (machine.runFrom machine.init
      [.registerService (.ofText (txt "f(in int)")) (txt "host") (txt "1300")]).2
    (reg.lookupService (.ofText (txt "f(in double)")) [] []).1 =
        some (true, txt "host", txt "1300") ∧
      ¬ reg.LooksUpExactly (.ofText (txt "f(in double)")) [] [] := by
  intro reg
  refine ⟨by decide +kernel, fun h => ?_⟩
  have hwf : reg.WellFormed := Reachable.wellFormed ⟨_, rfl⟩
  have hoffers := (wellFormed_empty.register (.ofText (txt "f(in int)")) (txt "host")
    (txt "1300")).insert (by decide +kernel)
  have hmem : (ofText (txt "f(in int)"), (txt "host", txt "1300")) ∈ reg.offers :=
    hoffers ▸ Set.mem_insert _ _
  have hsame := (hwf.looksUpExactly_iff.mp h _ hmem (by decide +kernel)).2
  exact absurd hsame (by decide +kernel)

end RegistryImpl

end Ssoa
