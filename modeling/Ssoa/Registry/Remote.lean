import Ssoa.Registry.ClientHandler
import Ssoa.Registry.Directory
import Ssoa.Signature.Malformed

/-!
# The registry at a distance

A call through the proxy is evaluated once and for all: whatever stands behind the server, the call
has the effect of the direct call with the signature parsed twice more, and the exception of the
direct call comes back as a `runtime_error` with the same text (`registerService_eq`,
`getProvider_eq`). For a valid signature the two parses change nothing, and the remote registry is
indistinguishable from the local one.

Removing a provider through the proxy does not get that far: the request goes out without the
`deregister` flag, and with a signature that no longer stands for all services.

## Main results

* `registerService_eq`, `getProvider_eq` — a remote call, evaluated
* `remote_transparent` — the remote registry for valid signatures
* `rejectsText_iff` — the remote registry for malformed ones
* `deregisterProvider_eq`, `not_removesProvider` — removing a provider always fails
-/

namespace Ssoa

namespace Registry

variable {σ : Type} [IRegistry σ] {r : Registry} (y : YamlCpp)

/-- What the server replies to a registration request. -/
def registrationReply (done : Except Exn Bool) : RegistryRegistrationResponse :=
  match done with
  | .ok _ => ⟨true, txt "OK"⟩
  | .error e => ⟨false, e.what⟩

/-- What the server replies to a service request. -/
def serviceReply (found : Except Exn (Bool × Text × Text)) : RegistryServiceResponse :=
  match found with
  | .ok (true, host, port) => .ofProvider host port
  | .ok (false, _, _) => .ofStatus (txt "No provider available for the requested service.")
  | .error e => .ofStatus e.what

/-- What the caller of a remote registration sees of the direct result. -/
def registrationOutcome (done : Except Exn Bool) : Except Exn Unit :=
  match done with
  | .ok _ => .ok ()
  | .error e => .error (.runtime e.what)

/-- What the caller of a remote lookup sees of the direct result. -/
def serviceOutcome (found : Except Exn (Bool × Text × Text)) : Except Exn Provider :=
  match found with
  | .ok (true, host, port) => .ok (host, port)
  | .ok (false, _, _) =>
    .error (.runtime (txt "No provider available for the requested service."))
  | .error e => .error (.runtime e.what)

/-- The direct call behind a registration request. -/
def direct (registry : σ) (signature : ServiceSignature) (host port : Text) (deregister : Bool) :
    Except Exn Bool × σ :=
  if deregister then IRegistry.deregisterService registry signature host port
  else IRegistry.registerService registry signature host port

theorem zero_not_mem_toYaml (m : RegistryMessage) : 0 ∉ m.toYaml y := by
  rw [RegistryMessage.toYaml_eq]
  exact y.zero_not_mem_emitted _

/-- The server decodes the request and the client the reply. -/
theorem submit_eq (hr : r.Initialized) {registry registry' : σ} {request reply : RegistryMessage}
    (h : ClientHandler.generateResponse y registry request.reread =
      (.ok (reply.toYaml y), registry'))
    (hreply : reply.reread = reply) :
    r.submit y registry request = (.ok reply, registry') := by
  have hhost : r.host.isEmpty = false := by simpa [List.isEmpty_iff] using hr.1
  have hport : r.port.isEmpty = false := by simpa [List.isEmpty_iff] using hr.2
  have hread : ClientHandler.handleRead y registry (wire (request.toYaml y)) =
      (wire (reply.toYaml y), registry') := by
    simp only [ClientHandler.handleRead, cstr_wire (zero_not_mem_toYaml y request),
      RegistryMessage.fromYaml_toYaml, h]
  simp only [submit, hhost, hport, Bool.or_self, Bool.false_eq_true, if_false, hread,
    cstr_wire (zero_not_mem_toYaml y reply), RegistryMessage.fromYaml_toYaml, hreply]

theorem generateRegistrationResponse_eq {registry registry' : σ} {m : RegistryRegistrationRequest}
    {done : Except Exn Bool}
    (h : direct registry m.service.reread m.host m.port m.deregister = (done, registry')) :
    ClientHandler.generateRegistrationResponse y registry m =
      ((registrationReply done).toYaml y, registry') := by
  simp only [direct, ServiceSignature.reread] at h
  simp only [ClientHandler.generateRegistrationResponse, h]
  cases done <;> rfl

theorem generateServiceResponse_eq {registry registry' : σ} {m : RegistryServiceRequest}
    {found : Except Exn (Bool × Text × Text)}
    (h : IRegistry.lookupService registry m.service.reread (txt "") (txt "") = (found, registry')) :
    ClientHandler.generateServiceResponse y registry m =
      ((serviceReply found).toYaml y, registry') := by
  simp only [ServiceSignature.reread] at h
  simp only [ClientHandler.generateServiceResponse, h]
  rcases found with e | ⟨_ | _, host, port⟩ <;> rfl

/-- **A remote registration or deregistration** does what the direct call does with the signature
parsed twice more. -/
theorem registerService_eq (hr : r.Initialized) (registry : σ) (signature : ServiceSignature)
    (host port : Text) (deregister : Bool) :
    r.registerService y registry signature host port deregister =
      (direct registry signature.reread.reread host port deregister).map
        registrationOutcome id := by
  cases hdirect : direct registry signature.reread.reread host port deregister with
  | mk done registry' =>
    have hgenerate := generateRegistrationResponse_eq y
      (m := ⟨signature.reread, host, port, deregister⟩) hdirect
    have hresponse : ClientHandler.generateResponse y registry
        (RegistryMessage.registrationRequest ⟨signature, host, port, deregister⟩).reread =
        (.ok ((RegistryMessage.registrationResponse (registrationReply done)).toYaml y),
          registry') := by
      simp only [RegistryMessage.reread, ClientHandler.generateResponse, hgenerate]
      rfl
    rw [registerService, submit_eq y hr hresponse rfl]
    cases done <;> rfl

/-- **A remote lookup** does what the direct lookup does with the signature parsed twice more. -/
theorem getProvider_eq (hr : r.Initialized) (registry : σ) (signature : Text) :
    r.getProvider y registry signature =
      (IRegistry.lookupService registry (ServiceSignature.ofText signature).reread.reread (txt "")
        (txt "")).map serviceOutcome id := by
  cases hfound : IRegistry.lookupService registry
      (ServiceSignature.ofText signature).reread.reread (txt "") (txt "") with
  | mk found registry' =>
    have hgenerate := generateServiceResponse_eq y
      (m := ⟨(ServiceSignature.ofText signature).reread⟩) hfound
    have hresponse : ClientHandler.generateResponse y registry
        (RegistryMessage.serviceRequest ⟨.ofText signature⟩).reread =
        (.ok ((RegistryMessage.serviceResponse (serviceReply found)).toYaml y), registry') := by
      simp only [RegistryMessage.reread, ClientHandler.generateResponse, hgenerate]
      rfl
    rw [getProvider, submit_eq y hr hresponse rfl]
    rcases found with e | ⟨_ | _, host, port⟩ <;> rfl

theorem direct_fst (reg : SoundRegistry) (signature : ServiceSignature) (host port : Text) :
    (direct reg signature host port false).1 =
      (reg.table.registerService signature host port).1 := rfl

theorem direct_snd (reg : SoundRegistry) (signature : ServiceSignature) (host port : Text) :
    (direct reg signature host port false).2.table =
      (reg.table.registerService signature host port).2 := rfl

/-- A direct registration of a malformed signature. -/
theorem direct_of_invalid {signature : ServiceSignature} (h : signature.isValid = false)
    (reg : SoundRegistry) (host port : Text) :
    direct reg signature host port false = (.error RegistryImpl.invalidSignature, reg) := by
  refine Prod.ext ?_ (SoundRegistry.ext ?_)
  · rw [direct_fst, RegistryImpl.registerService_of_invalid h]
  · rw [direct_snd, RegistryImpl.registerService_of_invalid h]

/-! ### Valid signatures -/

/-- A remote registration of a valid signature is the direct one. -/
theorem registerService_of_isValid (hr : r.Initialized) (reg : SoundRegistry) {s : Text}
    (hs : (ServiceSignature.ofText s).isValid = true) (host port : Text) :
    r.registerService y reg (.ofText s) host port =
      (reg.registerService (.ofText s) host port).map registrationOutcome id := by
  have hreread := ServiceSignature.reread_of_isValid hs
  rw [registerService_eq y hr, hreread, hreread]
  rfl

/-- A remote deregistration of a valid signature is the direct one, and does not throw. -/
theorem deregisterService_of_isValid (hr : r.Initialized) (reg : SoundRegistry) {s : Text}
    (hs : (ServiceSignature.ofText s).isValid = true) (host port : Text) :
    r.deregisterService y reg (.ofText s) host port =
      (.ok (), (reg.deregisterService (.ofText s) host port).2) := by
  have hreread := ServiceSignature.reread_of_isValid hs
  rw [deregisterService, registerService_eq y hr, hreread, hreread]
  rfl

/-- The remote registry for one valid signature: the state of the direct calls, the exceptions of
`registerService` with their text, no exception from `deregisterService`, and from `getProvider`
the pair of the direct lookup, or an exception when it finds nothing. -/
structure Transparent (r : Registry) (y : YamlCpp) (reg : SoundRegistry) (s host port : Text) :
    Prop where
  register_state : (r.registerService y reg (.ofText s) host port).2 =
    (reg.registerService (.ofText s) host port).2
  register_ok : ∀ added, (reg.registerService (.ofText s) host port).1 = .ok added →
    (r.registerService y reg (.ofText s) host port).1 = .ok ()
  register_throws : ∀ e, (reg.registerService (.ofText s) host port).1 = .error e →
    (r.registerService y reg (.ofText s) host port).1 = .error (.runtime e.what)
  deregister_state : (r.deregisterService y reg (.ofText s) host port).2 =
    (reg.deregisterService (.ofText s) host port).2
  deregister_ok : (r.deregisterService y reg (.ofText s) host port).1 = .ok ()
  provider_state : (r.getProvider y reg s).2 = (reg.lookupService (.ofText s) host port).2
  provider_ok : ∀ host' port', (reg.lookupService (.ofText s) host port).1 = (true, host', port') →
    (r.getProvider y reg s).1 = .ok (host', port')
  provider_throws : (reg.lookupService (.ofText s) host port).1.1 = false →
    ∃ text, (r.getProvider y reg s).1 = .error (.runtime text)

/-- **The remote registry is transparent for valid signatures.** -/
theorem remote_transparent (hr : r.Initialized) (reg : SoundRegistry) {s : Text}
    (hs : (ServiceSignature.ofText s).isValid = true) (host port : Text) :
    Transparent r y reg s host port := by
  have hregister := registerService_of_isValid y hr reg hs host port
  have hderegister := deregisterService_of_isValid y hr reg hs host port
  have hprovider : r.getProvider y reg s =
      ((reg.lookupService (.ofText s) (txt "") (txt "")).map .ok id).map serviceOutcome id := by
    have hreread := ServiceSignature.reread_of_isValid hs
    rw [getProvider_eq y hr, hreread, hreread]
    rfl
  obtain ⟨hstate, hfound, hpair⟩ :=
    reg.lookupService_start (.ofText s) host port (txt "") (txt "")
  exact {
    register_state := by rw [hregister]; rfl
    register_ok := fun added hadded => by rw [hregister, Prod.map, hadded]; rfl
    register_throws := fun e he => by rw [hregister, Prod.map, he]; rfl
    deregister_state := by rw [hderegister]
    deregister_ok := by rw [hderegister]
    provider_state := by rw [hprovider, hstate]; rfl
    provider_ok := fun host' port' hres => by
      have hres' := (hpair (by rw [hres])).symm.trans hres
      rw [hprovider, Prod.map, Prod.map, hres']
      rfl
    provider_throws := fun hres => by
      have hres' := hfound.symm.trans hres
      rw [hprovider, Prod.map, Prod.map]
      generalize (reg.lookupService (.ofText s) (txt "") (txt "")).1 = found at hres' ⊢
      rcases found with ⟨_ | _, host', port'⟩
      · exact ⟨_, rfl⟩
      · cases hres' }

/-! ### Malformed signatures -/

/-- Two more parses are two more canonical strings. -/
theorem ofText_reread_reread (s : Text) :
    (ServiceSignature.ofText s).reread.reread = .ofText (canon (canon s)) := rfl

/-- A remote registration under the text always throws and changes nothing. -/
def RejectsText (r : Registry) (y : YamlCpp) (s : Text) : Prop :=
  ∀ (reg : SoundRegistry) (host port : Text),
    (∃ e, (r.registerService y reg (.ofText s) host port).1 = .error e) ∧
      (r.registerService y reg (.ofText s) host port).2 = reg

/-- The two parses of a remote registration decide whether a text is rejected. -/
theorem rejectsText_iff_isValid (hr : r.Initialized) (s : Text) :
    RejectsText r y s ↔ (ServiceSignature.ofText (canon (canon s))).isValid = false := by
  constructor
  · intro h
    by_contra hvalid
    have hvalid : (ServiceSignature.ofText (canon (canon s))).isValid = true := by
      simpa using hvalid
    -- an empty registry accepts it
    obtain ⟨⟨e, he⟩, -⟩ := h ⟨{}, RegistryImpl.wellFormed_empty⟩ [] []
    rw [registerService_eq y hr, ofText_reread_reread] at he
    rw [Prod.map_fst, direct_fst, RegistryImpl.registerService_of_none hvalid (by simp)] at he
    cases he
  · intro hinvalid reg host port
    rw [registerService_eq y hr, ofText_reread_reread, direct_of_invalid hinvalid]
    exact ⟨⟨_, rfl⟩, rfl⟩

/-- **When a malformed signature is rejected.** Exactly when its text does not leak; and then no
number of parses makes it valid. -/
theorem rejectsText_iff (hr : r.Initialized) {s : Text}
    (hs : (ServiceSignature.ofText s).isValid = false) :
    (RejectsText r y s ↔ ¬ Leaks s) ∧
      ((∀ k, (ServiceSignature.ofText (canon^[k] s)).isValid = false) ↔ ¬ Leaks s) := by
  constructor
  · rw [rejectsText_iff_isValid y hr, ← isValid_canon_canon_iff, Bool.not_eq_true]
    rfl
  · rw [← exists_isValid_iterate_iff hs]
    simp only [not_exists, Bool.not_eq_true]
    rfl

/-! ### Removing a provider -/

/-- The string of `any`, parsed, is another signature; and it is malformed. -/
theorem isValid_any_reread : ServiceSignature.any.reread.reread.isValid = false := by
  decide +kernel

/-- **Removing a provider always fails**, and changes nothing. -/
theorem deregisterProvider_eq (hr : r.Initialized) (reg : SoundRegistry) (host port : Text) :
    r.deregisterProvider y reg host port =
      (.error (.runtime (txt "The specified signature is not valid.")), reg) := by
  rw [deregisterProvider, registerService_eq y hr, direct_of_invalid isValid_any_reread]
  rfl

/-- The call returns without an exception and removes the offers of the provider and no others, as
`deregisterServer` does. -/
def RemovesProvider (r : Registry) (y : YamlCpp) (reg : SoundRegistry) (host port : Text) : Prop :=
  (r.deregisterProvider y reg host port).1 = .ok () ∧
    (r.deregisterProvider y reg host port).2.table.offers =
      {o ∈ reg.table.offers | o.2 ≠ (host, port)} ∧
    (r.deregisterProvider y reg host port).2 = (reg.deregisterServer host port).2

/-- Without an address the proxy throws. -/
theorem deregisterProvider_uninitialized (hr : ¬ r.Initialized) (reg : SoundRegistry)
    (host port : Text) : ∃ e, (r.deregisterProvider y reg host port).1 = .error e := by
  have hempty : (r.host.isEmpty || r.port.isEmpty) = true := by
    by_contra hne
    simp only [Bool.or_eq_true, List.isEmpty_iff, not_or] at hne
    exact hr hne
  exact ⟨_, by simp [deregisterProvider, registerService, submit, hempty]; rfl⟩

/-- **No call of `deregisterProvider` removes a provider**, whatever the registry and the
provider. -/
theorem not_removesProvider (r : Registry) (reg : SoundRegistry) (host port : Text) :
    ¬ RemovesProvider r y reg host port := by
  rintro ⟨hok, -, -⟩
  by_cases hr : r.Initialized
  · rw [deregisterProvider_eq y hr] at hok
    cases hok
  · obtain ⟨e, he⟩ := deregisterProvider_uninitialized y hr reg host port
    rw [he] at hok
    cases hok

/-! ### An exchange -/

/-- The address of the registry in the exchanges below. -/
def sampleAddress : Registry := ⟨txt "127.0.0.1", txt "1200"⟩

theorem sampleAddress_initialized : sampleAddress.Initialized := ⟨by decide, by decide⟩

/-- The messages about one provider of `f(in int)`. -/
def sampleMessages : List RegistryMessage :=
  [.registrationRequest ⟨.ofText (txt "f(in int)"), txt "localhost", txt "1300", false⟩,
    .registrationRequest ⟨.ofText (txt "f(in int)"), txt "localhost", txt "1300", true⟩,
    .registrationRequest ⟨.any, txt "localhost", txt "1300", false⟩,
    .registrationResponse ⟨true, txt "OK"⟩,
    .registrationResponse ⟨false, txt "The specified signature is not valid."⟩,
    .serviceRequest ⟨.ofText (txt "f(in int)")⟩,
    .serviceResponse (.ofProvider (txt "localhost") (txt "1300")),
    .serviceResponse (.ofStatus (txt "No provider available for the requested service."))]

/-- A library that writes them as yaml-cpp does. -/
noncomputable def sampleYaml : YamlCpp :=
  .ofTexts (sampleMessages.map RegistryMessage.document) (by decide +kernel) (by decide +kernel)

/-- A registry with one provider. -/
def sampleRegistry : SoundRegistry :=
  .ofReachable
    (RegistryImpl.machine.runFrom RegistryImpl.machine.init
      [.registerService (.ofText (txt "f(in int)")) (txt "localhost") (txt "1300")]).2
    ⟨_, rfl⟩

/-- The remote registry for `f(in int)`, which has one provider: `getProvider` returns it. -/
theorem remote_transparent_sample :
    (ServiceSignature.ofText (txt "f(in int)")).isValid = true ∧
      Transparent sampleAddress sampleYaml sampleRegistry (txt "f(in int)") (txt "localhost")
        (txt "1300") ∧
      (sampleAddress.getProvider sampleYaml sampleRegistry (txt "f(in int)")).1 =
        .ok (txt "localhost", txt "1300") := by
  have hvalid : (ServiceSignature.ofText (txt "f(in int)")).isValid = true := by decide +kernel
  have htransparent := remote_transparent sampleYaml sampleAddress_initialized sampleRegistry hvalid
    (txt "localhost") (txt "1300")
  exact ⟨hvalid, htransparent, htransparent.provider_ok _ _ (by decide +kernel)⟩

/-- The text `f(int int)` is rejected. -/
theorem rejectsText_sample :
    (RejectsText sampleAddress sampleYaml (txt "f(int int)") ↔ ¬ Leaks (txt "f(int int)")) ∧
      ((∀ k, (ServiceSignature.ofText (canon^[k] (txt "f(int int)"))).isValid = false) ↔
        ¬ Leaks (txt "f(int int)")) :=
  rejectsText_iff sampleYaml sampleAddress_initialized (by decide +kernel)

/-- The malformed text `f(in int, foo bar)` is registered, as the valid signature `f(in int)`. -/
theorem registerService_malformed :
    (ServiceSignature.ofText (txt "f(in int, foo bar)")).isValid = false ∧
      (ServiceSignature.ofText (canon (txt "f(in int, foo bar)"))).isValid = true ∧
      ¬ RejectsText sampleAddress sampleYaml (txt "f(in int, foo bar)") := by
  refine ⟨by decide +kernel, by decide +kernel, ?_⟩
  rw [rejectsText_iff_isValid sampleYaml sampleAddress_initialized]
  decide +kernel

/-- The provider of `f(in int)` cannot be removed through the proxy. -/
theorem deregisterProvider_sample :
    (sampleAddress.deregisterProvider sampleYaml sampleRegistry (txt "localhost") (txt "1300")).1 =
        .error (.runtime (txt "The specified signature is not valid.")) ∧
      ¬ RemovesProvider sampleAddress sampleYaml sampleRegistry (txt "localhost") (txt "1300") := by
  have h := deregisterProvider_eq sampleYaml sampleAddress_initialized sampleRegistry
    (txt "localhost") (txt "1300")
  refine ⟨congrArg Prod.fst h, ?_⟩
  rintro ⟨hok, -, -⟩
  rw [h] at hok
  cases hok

end Registry

end Ssoa
