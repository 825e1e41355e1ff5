import Ssoa.Registry.Invariant
import Ssoa.Registry.Messages

/-!
# The registry server and its clients

`ClientHandler` answers one request on the server side, with any implementation of the `IRegistry`
interface behind it; `Registry` is the proxy on the client side. A request and its reply are one
exchange: the client sends a message as a NUL-terminated text, the handler reads up to the NUL,
answers in the same way, and the client decodes the answer and turns an unsuccessful one into an
exception.

`SoundRegistry` is the implementation behind the server: a table with the proof that it is well
formed, so that none of its operations is undefined.

## Main results

* `SoundRegistry.lookupService_eq` — the lookup of a sound registry is the one of its table
-/

namespace Ssoa

/-! ### The interface -/

/-- `IRegistry`: an implementation may throw from any of its operations. -/
class IRegistry (σ : Type) where
  registerService : σ → ServiceSignature → Text → Text → Except Exn Bool × σ
  deregisterService : σ → ServiceSignature → Text → Text → Except Exn Bool × σ
  deregisterServer : σ → Text → Text → Except Exn ℕ × σ
  lookupService : σ → ServiceSignature → Text → Text → Except Exn (Bool × Text × Text) × σ

/-- A well-formed table. -/
structure SoundRegistry where
  table : RegistryImpl
  wellFormed : table.WellFormed

namespace SoundRegistry

@[ext] theorem ext {reg reg' : SoundRegistry} (h : reg.table = reg'.table) : reg = reg' := by
  obtain ⟨table, _⟩ := reg
  obtain ⟨_, _⟩ := reg'
  obtain rfl : table = _ := h
  rfl

def registerService (reg : SoundRegistry) (signature : ServiceSignature) (host port : Text) :
    Except Exn Bool × SoundRegistry :=
  ((reg.table.registerService signature host port).1,
    ⟨_, reg.wellFormed.registerService signature host port⟩)

def deregisterService (reg : SoundRegistry) (signature : ServiceSignature) (host port : Text) :
    Bool × SoundRegistry :=
  ((reg.table.deregisterService signature host port).1,
    ⟨_, reg.wellFormed.deregisterService signature host port⟩)

def deregisterServer (reg : SoundRegistry) (host port : Text) : ℕ × SoundRegistry :=
  ((reg.table.deregisterServer host port).1, ⟨_, reg.wellFormed.deregisterServer host port⟩)

def lookupService (reg : SoundRegistry) (signature : ServiceSignature) (host port : Text) :
    (Bool × Text × Text) × SoundRegistry :=
  ((reg.table.lookupService signature host port).1.get
      (Option.isSome_iff_ne_none.mpr (reg.wellFormed.lookupService_ne_none signature host port)),
    ⟨_, reg.wellFormed.lookupService signature host port⟩)

theorem lookupService_eq (reg : SoundRegistry) (signature : ServiceSignature) (host port : Text) :
    reg.table.lookupService signature host port =
      (some (reg.lookupService signature host port).1,
        (reg.lookupService signature host port).2.table) := by
  simp [lookupService]

/-- What a lookup does does not depend on what `host` and `port` held before, except that they stay
as they were when nothing is found. -/
theorem lookupService_start (reg : SoundRegistry) (signature : ServiceSignature)
    (host port host' port' : Text) :
    (reg.lookupService signature host port).2 = (reg.lookupService signature host' port').2 ∧
      (reg.lookupService signature host port).1.1 = (reg.lookupService signature host' port').1.1 ∧
      ((reg.lookupService signature host port).1.1 = true →
        (reg.lookupService signature host port).1 =
          (reg.lookupService signature host' port').1) := by
  have h := reg.lookupService_eq signature host port
  have h' := reg.lookupService_eq signature host' port'
  cases hdata : reg.table.services[signature.name]? with
  | none =>
    rw [RegistryImpl.lookupService_of_none hdata] at h h'
    obtain ⟨hres, hreg⟩ := Prod.mk.inj h
    obtain ⟨hres', hreg'⟩ := Prod.mk.inj h'
    refine ⟨SoundRegistry.ext (hreg.symm.trans hreg'), ?_, fun htrue => ?_⟩
    · rw [← Option.some.inj hres, ← Option.some.inj hres']
    · rw [← Option.some.inj hres] at htrue
      cases htrue
  | some data =>
    obtain ⟨pair, -, hget, heq⟩ :=
      RegistryImpl.lookupService_of_some reg.wellFormed hdata host port
    obtain ⟨pair', -, hget', heq'⟩ :=
      RegistryImpl.lookupService_of_some reg.wellFormed hdata host' port'
    obtain rfl := Option.some.inj (hget.symm.trans hget')
    obtain ⟨hres, hreg⟩ := Prod.mk.inj (h.symm.trans heq)
    obtain ⟨hres', hreg'⟩ := Prod.mk.inj (h'.symm.trans heq')
    have hsame := (Option.some.inj hres).trans (Option.some.inj hres').symm
    exact ⟨SoundRegistry.ext (hreg.trans hreg'.symm), congrArg Prod.fst hsame, fun _ => hsame⟩

/-- The reachable tables are sound registries. -/
def ofReachable (reg : RegistryImpl) (h : reg.Reachable) : SoundRegistry := ⟨reg, h.wellFormed⟩

instance : IRegistry SoundRegistry where
  registerService := registerService
  deregisterService reg signature host port :=
    (reg.deregisterService signature host port).map .ok id
  deregisterServer reg host port := (reg.deregisterServer host port).map .ok id
  lookupService reg signature host port := (reg.lookupService signature host port).map .ok id

end SoundRegistry

/-! ### The server -/

namespace ClientHandler

variable {σ : Type} [IRegistry σ] (y : YamlCpp)

/-- `typeid(request).name()`. The request is a pointer, so this is the name of `RegistryMessage *`
for every message. -/
def typeName : Text := txt "PN4ssoa15RegistryMessageE"

def generateRegistrationResponse (registry : σ) (request : RegistryRegistrationRequest) :
    Text × σ :=
  let service := request.service.signature
  let (done, registry) :=
    if request.deregister then
      IRegistry.deregisterService registry (.ofText service) request.host request.port
    else
      IRegistry.registerService registry (.ofText service) request.host request.port
  match done with
  | .ok _ => ((RegistryRegistrationResponse.mk true (txt "OK")).toYaml y, registry)
  | .error e => ((RegistryRegistrationResponse.mk false e.what).toYaml y, registry)

def generateServiceResponse (registry : σ) (request : RegistryServiceRequest) : Text × σ :=
  let service := request.service.signature
  let (found, registry) := IRegistry.lookupService registry (.ofText service) (txt "") (txt "")
  match found with
  | .ok (true, host, port) => ((RegistryServiceResponse.ofProvider host port).toYaml y, registry)
  | .ok (false, _, _) =>
    ((RegistryServiceResponse.ofStatus
      (txt "No provider available for the requested service.")).toYaml y, registry)
  | .error e => ((RegistryServiceResponse.ofStatus e.what).toYaml y, registry)

def generateResponse (registry : σ) (request : RegistryMessage) : Except Exn Text × σ :=
  match request with
  | .registrationRequest m => (generateRegistrationResponse y registry m).map .ok id
  | .serviceRequest m => (generateServiceResponse y registry m).map .ok id
  | _ =>
    (.error (.runtime (txt "Unsupported request (class: " ++ typeName ++ txt ").")), registry)

/-- What the handler writes back for the bytes it received. -/
def handleRead (registry : σ) (received : Text) : Text × σ :=
  let text := cstr received
  match RegistryMessage.fromYaml y.toYamlReader text with
  | .error e => (wire ((RegistryErrorMessage.mk e.what).toYaml y), registry)
  | .ok request =>
    match generateResponse y registry request with
    | (.ok response, registry) => (wire response, registry)
    | (.error e, registry) => (wire ((RegistryErrorMessage.mk e.what).toYaml y), registry)

end ClientHandler

/-! ### The client -/

/-- The static members of the proxy: the address of the registry. -/
structure Registry where
  host : Text := txt ""
  port : Text := txt ""

namespace Registry

variable {σ : Type} [IRegistry σ] (r : Registry) (y : YamlCpp)

/-- The address has been set. -/
def Initialized : Prop := r.host ≠ [] ∧ r.port ≠ []

/-- One exchange with the server. -/
def submit (registry : σ) (request : RegistryMessage) : Except Exn RegistryMessage × σ :=
  if r.host.isEmpty || r.port.isEmpty then
    (.error (.logic (txt "Registry not initialized!")), registry)
  else
    let (reply, registry) := ClientHandler.handleRead y registry (wire (request.toYaml y))
    (RegistryMessage.fromYaml y.toYamlReader (cstr reply), registry)

/-- The exception for a reply of the wrong class. -/
def invalidResponse : Exn := .runtime (txt "Received an invalid response from registry.")

def registerService (registry : σ) (signature : ServiceSignature) (host port : Text)
    (deregister : Bool := false) : Except Exn Unit × σ :=
  match r.submit y registry (.registrationRequest ⟨signature, host, port, deregister⟩) with
  | (.error e, registry) => (.error e, registry)
  | (.ok (.registrationResponse response), registry) =>
    if response.successful then (.ok (), registry)
    else (.error (.runtime response.status), registry)
  | (.ok (.error error), registry) => (.error (.runtime error.status), registry)
  | (.ok _, registry) => (.error invalidResponse, registry)

def deregisterService (registry : σ) (signature : ServiceSignature) (host port : Text) :
    Except Exn Unit × σ :=
  r.registerService y registry signature host port true

def deregisterProvider (registry : σ) (host port : Text) : Except Exn Unit × σ :=
  r.registerService y registry .any host port false

def getProvider (registry : σ) (signature : Text) : Except Exn Provider × σ :=
  match r.submit y registry (.serviceRequest ⟨.ofText signature⟩) with
  | (.error e, registry) => (.error e, registry)
  | (.ok (.serviceResponse response), registry) =>
    if response.successful then (.ok (response.host, response.port), registry)
    else (.error (.runtime response.status), registry)
  | (.ok (.error error), registry) => (.error (.runtime error.status), registry)
  | (.ok _, registry) => (.error invalidResponse, registry)

end Registry

end Ssoa
