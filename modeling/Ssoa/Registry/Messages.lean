import Ssoa.Signature.Canonical
import Ssoa.Yaml

/-!
# Messages exchanged with the registry

Five classes derive from `RegistryMessage`. Each writes itself as a flat YAML map with a `type`
field, and each installs a function in a factory that reads it back; `RegistryMessage.fromYaml`
dispatches on the `type` field. Here the base class is the sum of the five, so that a
`dynamic_cast` is a pattern match.

A message that carries a signature sends its canonical string, and the receiver parses that string
again: a signature comes out as `reread`.

## Main results

* `RegistryMessage.fromYaml_toYaml` — a message is read back, with its signature parsed again
* `RegistryMessage.round_trip` — with a valid signature it comes back as it was
-/

namespace Ssoa

/-- The signature parsed from the canonical string of another. -/
def ServiceSignature.reread (a : ServiceSignature) : ServiceSignature := .ofText a.signature

theorem ServiceSignature.reread_of_isValid {signature : ServiceSignature}
    (h : signature.isValid = true) : signature.reread = signature :=
  ofText_signature h

/-- What a `fromYaml` of another message class throws. -/
def typeMismatch : Exn := .logic (txt "Message type mismatch")

/-- The check every `fromYaml` begins with. -/
def checkMessageType (y : YamlReader) (node : y.Node) (messageType : Text) : Except Exn Unit := do
  let type ← y.textAt node (txt "type")
  if type ≠ messageType then throw typeMismatch

/-! ### The message classes -/

structure RegistryRegistrationRequest where
  service : ServiceSignature
  host : Text
  port : Text
  deregister : Bool := false

namespace RegistryRegistrationRequest

def messageType : Text := txt "registration-request"

def document (m : RegistryRegistrationRequest) : Document :=
  [(txt "type", .text messageType), (txt "service", .text m.service.signature),
    (txt "host", .text m.host), (txt "port", .text m.port)] ++
  (if m.deregister then [(txt "deregister", .bool m.deregister)] else [])

def toYaml (y : YamlCpp) (m : RegistryRegistrationRequest) : Text := y.emitted m.document

def fromYaml (y : YamlReader) (node : y.Node) : Except Exn RegistryRegistrationRequest := do
  checkMessageType y node messageType
  let service ← y.textAt node (txt "service")
  let host ← y.textAt node (txt "host")
  let port ← y.textAt node (txt "port")
  let deregister ←
    if (y.find node (txt "deregister")).isSome then y.boolAt node (txt "deregister") else pure false
  return ⟨.ofText service, host, port, deregister⟩

end RegistryRegistrationRequest

structure RegistryRegistrationResponse where
  successful : Bool
  status : Text

namespace RegistryRegistrationResponse

def messageType : Text := txt "registration-response"

def document (m : RegistryRegistrationResponse) : Document :=
  [(txt "type", .text messageType), (txt "successful", .bool m.successful)] ++
  (if m.status ≠ [] then [(txt "status", .text m.status)] else [])

def toYaml (y : YamlCpp) (m : RegistryRegistrationResponse) : Text := y.emitted m.document

def fromYaml (y : YamlReader) (node : y.Node) : Except Exn RegistryRegistrationResponse := do
  checkMessageType y node messageType
  let successful ← y.boolAt node (txt "successful")
  let status ←
    if (y.find node (txt "status")).isSome then y.textAt node (txt "status") else pure (txt "")
  return ⟨successful, status⟩

end RegistryRegistrationResponse

structure RegistryServiceRequest where
  service : ServiceSignature

namespace RegistryServiceRequest

def messageType : Text := txt "service-request"

def document (m : RegistryServiceRequest) : Document :=
  [(txt "type", .text messageType), (txt "service", .text m.service.signature)]

def toYaml (y : YamlCpp) (m : RegistryServiceRequest) : Text := y.emitted m.document

def fromYaml (y : YamlReader) (node : y.Node) : Except Exn RegistryServiceRequest := do
  checkMessageType y node messageType
  let service ← y.textAt node (txt "service")
  return ⟨.ofText service⟩

end RegistryServiceRequest

/-- One constructor of the class makes it successful with a provider and no status, the other
unsuccessful with a status and no provider. -/
structure RegistryServiceResponse where
  host : Text
  port : Text
  successful : Bool
  status : Text
  built : (successful = true ∧ status = []) ∨ (successful = false ∧ host = [] ∧ port = [])

namespace RegistryServiceResponse

def ofProvider (host port : Text) : RegistryServiceResponse :=
  ⟨host, port, true, [], .inl ⟨rfl, rfl⟩⟩

def ofStatus (status : Text) : RegistryServiceResponse :=
  ⟨[], [], false, status, .inr ⟨rfl, rfl, rfl⟩⟩

def messageType : Text := txt "service-response"

def document (m : RegistryServiceResponse) : Document :=
  [(txt "type", .text messageType), (txt "successful", .bool m.successful)] ++
  (if m.successful then [(txt "host", .text m.host), (txt "port", .text m.port)] else []) ++
  (if m.status ≠ [] then [(txt "status", .text m.status)] else [])

def toYaml (y : YamlCpp) (m : RegistryServiceResponse) : Text := y.emitted m.document

def fromYaml (y : YamlReader) (node : y.Node) : Except Exn RegistryServiceResponse := do
  checkMessageType y node messageType
  let successful := y.find node (txt "successful")
  let isSuccessful ← successful.elim (pure true) y.toBool
  if isSuccessful then
    let host ← y.textAt node (txt "host")
    let port ← y.textAt node (txt "port")
    return ofProvider host port
  else
    let pstatus := y.find node (txt "status")
    let status ← pstatus.elim (pure (txt "")) y.toText
    return ofStatus status

end RegistryServiceResponse

structure RegistryErrorMessage where
  status : Text

namespace RegistryErrorMessage

def messageType : Text := txt "error"

def document (m : RegistryErrorMessage) : Document :=
  [(txt "type", .text messageType), (txt "status", .text m.status)]

def toYaml (y : YamlCpp) (m : RegistryErrorMessage) : Text := y.emitted m.document

def fromYaml (y : YamlReader) (node : y.Node) : Except Exn RegistryErrorMessage := do
  checkMessageType y node messageType
  let status ← y.textAt node (txt "status")
  return ⟨status⟩

end RegistryErrorMessage

/-! ### The base class -/

/-- A `RegistryMessage *`. -/
inductive RegistryMessage where
  | registrationRequest (m : RegistryRegistrationRequest)
  | registrationResponse (m : RegistryRegistrationResponse)
  | serviceRequest (m : RegistryServiceRequest)
  | serviceResponse (m : RegistryServiceResponse)
  | error (m : RegistryErrorMessage)

namespace RegistryMessage

def toYaml (y : YamlCpp) : RegistryMessage → Text
  | registrationRequest m => m.toYaml y
  | registrationResponse m => m.toYaml y
  | serviceRequest m => m.toYaml y
  | serviceResponse m => m.toYaml y
  | error m => m.toYaml y

/-- `factory().create(type, node)`, with the five classes installed. -/
def create (y : YamlReader) (type : Text) (node : y.Node) : Except Exn RegistryMessage :=
  if type = RegistryErrorMessage.messageType then
    (RegistryErrorMessage.fromYaml y node).map error
  else if type = RegistryRegistrationRequest.messageType then
    (RegistryRegistrationRequest.fromYaml y node).map registrationRequest
  else if type = RegistryRegistrationResponse.messageType then
    (RegistryRegistrationResponse.fromYaml y node).map registrationResponse
  else if type = RegistryServiceRequest.messageType then
    (RegistryServiceRequest.fromYaml y node).map serviceRequest
  else if type = RegistryServiceResponse.messageType then
    (RegistryServiceResponse.fromYaml y node).map serviceResponse
  else
    throw (.runtime
      (txt "RegistryMessage" ++ txt ": Unknown message type: \"" ++ type ++ txt "\"."))

def fromYaml (y : YamlReader) (yaml : Text) : Except Exn RegistryMessage := do
  let node ← y.load yaml
  let type ← y.textAt node (txt "type")
  create y type node

/-- The message as the receiver sees it: its signature is parsed once more. -/
def reread : RegistryMessage → RegistryMessage
  | registrationRequest m => registrationRequest { m with service := m.service.reread }
  | serviceRequest m => serviceRequest ⟨m.service.reread⟩
  | m => m

end RegistryMessage

/-! ### Reading back -/

section

variable {y : YamlReader} {node : y.Node}

theorem checkMessageType_eq {t : Text} (h : y.textAt node (txt "type") = .ok t) :
    checkMessageType y node t = .ok () := by
  simp [checkMessageType, h, bind, Except.bind, pure, Except.pure]

theorem RegistryRegistrationRequest.fromYaml_eq {m : RegistryRegistrationRequest}
    (h : y.IsMap node m.document) :
    fromYaml y node = .ok { m with service := m.service.reread } := by
  have htype := h.textAt (txt "type") (t := messageType) rfl
  have hservice := h.textAt (txt "service") (t := m.service.signature) rfl
  have hhost := h.textAt (txt "host") (t := m.host) rfl
  have hport := h.textAt (txt "port") (t := m.port) rfl
  simp only [fromYaml, checkMessageType_eq htype, hservice, hhost, hport, bind, Except.bind]
  obtain ⟨service, host, port, _ | _⟩ := m
  · have hfind := h.find_none (txt "deregister") rfl
    simp [hfind, pure, Except.pure, ServiceSignature.reread]
  · obtain ⟨child, hfind, -⟩ := h.find (txt "deregister") rfl
    have hbool := h.boolAt (txt "deregister") (b := true) rfl
    simp [hfind, hbool, pure, Except.pure, ServiceSignature.reread]

theorem RegistryRegistrationResponse.fromYaml_eq {m : RegistryRegistrationResponse}
    (h : y.IsMap node m.document) : fromYaml y node = .ok m := by
  have htype := h.textAt (txt "type") (t := messageType) rfl
  have hsuccessful := h.boolAt (txt "successful") (b := m.successful) rfl
  simp only [fromYaml, checkMessageType_eq htype, hsuccessful, bind, Except.bind]
  obtain ⟨successful, _ | ⟨b, status⟩⟩ := m
  · have hfind := h.find_none (txt "status") rfl
    simp [hfind, pure, Except.pure]
  · obtain ⟨child, hfind, -⟩ := h.find (txt "status") rfl
    have htext := h.textAt (txt "status") rfl
    simp [hfind, htext, pure, Except.pure]

theorem RegistryServiceRequest.fromYaml_eq {m : RegistryServiceRequest}
    (h : y.IsMap node m.document) : fromYaml y node = .ok ⟨m.service.reread⟩ := by
  have htype := h.textAt (txt "type") (t := messageType) rfl
  have hservice := h.textAt (txt "service") (t := m.service.signature) rfl
  simp [fromYaml, checkMessageType_eq htype, hservice, bind, Except.bind, pure, Except.pure,
    ServiceSignature.reread]

theorem RegistryServiceResponse.fromYaml_eq {m : RegistryServiceResponse}
    (h : y.IsMap node m.document) : fromYaml y node = .ok m := by
  have htype := h.textAt (txt "type") (t := messageType) rfl
  obtain ⟨child, hfind, -, hholds⟩ := h (txt "successful")
  have hbool : y.toBool child = .ok m.successful := hholds
  simp only [fromYaml, checkMessageType_eq htype, hfind, Option.elim_some, hbool, bind, Except.bind]
  obtain ⟨host, port, successful, status, ⟨rfl, rfl⟩ | ⟨rfl, rfl, rfl⟩⟩ := m
  · have hhost := h.textAt (txt "host") (t := host) rfl
    have hport := h.textAt (txt "port") (t := port) rfl
    simp [hhost, hport, pure, Except.pure, ofProvider]
  · have hstatus := h (txt "status")
    obtain _ | ⟨b, status⟩ := status
    · have hnone : y.find node (txt "status") = none := hstatus.1
      simp [hnone, pure, Except.pure, ofStatus]
    · obtain ⟨child', hfind', -, hholds'⟩ := hstatus
      have htext : y.toText child' = .ok (b :: status) := hholds'
      simp [hfind', htext, pure, Except.pure, ofStatus]

theorem RegistryErrorMessage.fromYaml_eq {m : RegistryErrorMessage}
    (h : y.IsMap node m.document) : fromYaml y node = .ok m := by
  have htype := h.textAt (txt "type") (t := messageType) rfl
  have hstatus := h.textAt (txt "status") (t := m.status) rfl
  simp [fromYaml, checkMessageType_eq htype, hstatus, bind, Except.bind, pure, Except.pure]

end

namespace RegistryMessage

/-- The map a message is written as. -/
def document : RegistryMessage → Document
  | registrationRequest m => m.document
  | registrationResponse m => m.document
  | serviceRequest m => m.document
  | serviceResponse m => m.document
  | error m => m.document

theorem toYaml_eq (y : YamlCpp) (m : RegistryMessage) : m.toYaml y = y.emitted m.document := by
  cases m <;> rfl

/-- The keys of a message, in the order they are written. -/
theorem keys_sublist (m : RegistryMessage) : List.Sublist (m.document.map Prod.fst)
    [txt "type", txt "service", txt "successful", txt "host", txt "port", txt "deregister",
      txt "status"] := by
  cases m with
  | registrationRequest m =>
    obtain ⟨service, host, port, _ | _⟩ := m <;> exact List.isSublist_iff_sublist.mp rfl
  | registrationResponse m =>
    obtain ⟨successful, _ | ⟨b, status⟩⟩ := m <;> exact List.isSublist_iff_sublist.mp rfl
  | serviceRequest m => exact List.isSublist_iff_sublist.mp rfl
  | serviceResponse m =>
    obtain ⟨host, port, _ | _, _ | ⟨b, status⟩, _⟩ := m <;>
      exact List.isSublist_iff_sublist.mp rfl
  | error m => exact List.isSublist_iff_sublist.mp rfl

theorem nodup_keys (m : RegistryMessage) : (m.document.map Prod.fst).Nodup :=
  List.Nodup.sublist m.keys_sublist (by decide)

/-- The factory on the map a message is written as. -/
theorem create_eq {y : YamlReader} {node : y.Node} {m : RegistryMessage} {type : Text}
    (h : y.IsMap node m.document) (htype : y.textAt node (txt "type") = .ok type) :
    create y type node = .ok m.reread := by
  cases m with
  | registrationRequest m =>
    obtain rfl := Except.ok.inj (htype.symm.trans (h.textAt (txt "type") rfl))
    rw [create, if_neg (by decide), if_pos rfl, RegistryRegistrationRequest.fromYaml_eq h]
    rfl
  | registrationResponse m =>
    obtain rfl := Except.ok.inj (htype.symm.trans (h.textAt (txt "type") rfl))
    rw [create, if_neg (by decide), if_neg (by decide), if_pos rfl,
      RegistryRegistrationResponse.fromYaml_eq h]
    rfl
  | serviceRequest m =>
    obtain rfl := Except.ok.inj (htype.symm.trans (h.textAt (txt "type") rfl))
    rw [create, if_neg (by decide), if_neg (by decide), if_neg (by decide), if_pos rfl,
      RegistryServiceRequest.fromYaml_eq h]
    rfl
  | serviceResponse m =>
    obtain rfl := Except.ok.inj (htype.symm.trans (h.textAt (txt "type") rfl))
    rw [create, if_neg (by decide), if_neg (by decide), if_neg (by decide), if_neg (by decide),
      if_pos rfl, RegistryServiceResponse.fromYaml_eq h]
    rfl
  | error m =>
    obtain rfl := Except.ok.inj (htype.symm.trans (h.textAt (txt "type") rfl))
    rw [create, if_pos rfl, RegistryErrorMessage.fromYaml_eq h]
    rfl

/-- **A message is read back**, with its signature parsed once more. -/
theorem fromYaml_toYaml (y : YamlCpp) (m : RegistryMessage) :
    fromYaml y.toYamlReader (m.toYaml y) = .ok m.reread := by
  obtain ⟨node, hload, hmap⟩ := y.load_emitted m.nodup_keys
  have htype : ∃ type, y.textAt node (txt "type") = .ok type := by
    cases m <;> exact ⟨_, hmap.textAt (txt "type") rfl⟩
  obtain ⟨type, htype⟩ := htype
  rw [toYaml_eq]
  simp only [fromYaml, hload, htype, bind, Except.bind]
  exact create_eq hmap htype

/-- The signature a message carries, if it carries one. -/
def signature : RegistryMessage → Option ServiceSignature
  | registrationRequest m => some m.service
  | serviceRequest m => some m.service
  | _ => none

theorem reread_of_isValid {m : RegistryMessage} (h : ∀ s ∈ m.signature, s.isValid = true) :
    m.reread = m := by
  cases m with
  | registrationRequest m => rw [reread, ServiceSignature.reread_of_isValid (h m.service rfl)]
  | serviceRequest m => rw [reread, ServiceSignature.reread_of_isValid (h m.service rfl)]
  | registrationResponse m => rfl
  | serviceResponse m => rfl
  | error m => rfl

/-- **A message with a valid signature comes back as it was**, of the same class and with the same
fields, and is written as the same map again. -/
theorem round_trip (y : YamlCpp) (m : RegistryMessage) (h : ∀ s ∈ m.signature, s.isValid = true) :
    ∃ m', fromYaml y.toYamlReader (m.toYaml y) = .ok m' ∧ m' = m ∧ m'.document = m.document := by
  refine ⟨m.reread, fromYaml_toYaml y m, reread_of_isValid h, ?_⟩
  rw [reread_of_isValid h]

/-- A request to take a provider without a host out of a service. -/
def sampleRequest : RegistryMessage :=
  .registrationRequest ⟨.ofText (txt "f(in int)"), [], txt "1300", true⟩

theorem round_trip_sample :
    let y := YamlCpp.ofTexts [sampleRequest.document] (by decide +kernel) (by decide +kernel)
    ∃ m', fromYaml y.toYamlReader (sampleRequest.toYaml y) = .ok m' ∧ m' = sampleRequest ∧
      m'.document = sampleRequest.document :=
  round_trip _ sampleRequest (by decide +kernel)

end RegistryMessage

end Ssoa
