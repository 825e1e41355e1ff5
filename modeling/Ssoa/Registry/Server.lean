import Ssoa.Registry.Remote

/-!
# Every request is answered

A request can go wrong at five places: the text may not be YAML, the `type` may be missing or
unknown, a field may be missing or of the wrong type, the class may be one the server does not take
requests of, and the registry may refuse. The first four end in the `catch` clauses of `handleRead`,
the last one in the reply of the operation itself. Whichever it is, there is one reply, its class
follows from what the text decodes to, and nothing has happened to the registry unless the reply
reports success.

## Main results

* `ClientHandler.generateResponse_cases` — what becomes of a decoded request
* `ClientHandler.request_handling_total` — every text is answered, and refused without a trace
-/

namespace Ssoa

/-- The message reports success: it is a response, and marked successful. -/
def RegistryMessage.reportsSuccess : RegistryMessage → Bool
  | .registrationResponse m => m.successful
  | .serviceResponse m => m.successful
  | _ => false

namespace ClientHandler

/-- The class of the reply to a text, by what the text decodes to. -/
def RepliesTo (decoded : Except Exn RegistryMessage) (reply : RegistryMessage) : Prop :=
  match decoded with
  | .ok (.registrationRequest _) => ∃ m, reply = .registrationResponse m
  | .ok (.serviceRequest _) => ∃ m, reply = .serviceResponse m
  | _ => ∃ m, reply = .error m

/-- A registration or deregistration that throws leaves the registry as it was. -/
theorem direct_throws {reg reg' : SoundRegistry} {signature : ServiceSignature} {host port : Text}
    {deregister : Bool} {e : Exn}
    (h : Registry.direct reg signature host port deregister = (.error e, reg')) : reg' = reg := by
  cases deregister with
  | true => cases congrArg Prod.fst h
  | false =>
    have he : (reg.table.registerService signature host port).1 = .error e := congrArg Prod.fst h
    have hreg : reg.registerService signature host port = (.error e, reg') := h
    obtain rfl : _ = reg' := congrArg Prod.snd hreg
    exact SoundRegistry.ext (reg.wellFormed.registerService_throws he)

/-- A lookup that finds nothing leaves the registry as it was, and none throws. -/
theorem lookupService_cases {reg reg' : SoundRegistry} {signature : ServiceSignature}
    {found : Except Exn (Bool × Text × Text)}
    (h : IRegistry.lookupService reg signature (txt "") (txt "") = (found, reg')) :
    ∃ result, found = .ok result ∧ (result.1 = false → reg' = reg) := by
  have hreg : (reg.lookupService signature (txt "") (txt "")).map Except.ok id = (found, reg') := h
  obtain ⟨hfound, rfl⟩ := Prod.mk.inj hreg
  refine ⟨(reg.lookupService signature (txt "") (txt "")).1, hfound.symm, fun hfalse => ?_⟩
  have heq := reg.lookupService_eq signature (txt "") (txt "")
  cases hdata : reg.table.services[signature.name]? with
  | none =>
    rw [RegistryImpl.lookupService_of_none hdata] at heq
    exact SoundRegistry.ext (Prod.mk.inj heq).2.symm
  | some data =>
    obtain ⟨pair, -, -, hsome⟩ :=
      RegistryImpl.lookupService_of_some reg.wellFormed hdata (txt "") (txt "")
    obtain ⟨hresult, -⟩ := Prod.mk.inj (heq.symm.trans hsome)
    rw [Option.some.inj hresult] at hfalse
    cases hfalse

/-- **What becomes of a decoded request**: it is answered in kind, or it is of a class that is not
taken. -/
theorem generateResponse_cases (y : YamlCpp) (reg : SoundRegistry) (request : RegistryMessage) :
    (∃ reply : RegistryMessage, RepliesTo (.ok request) reply ∧ reply.reread = reply ∧
      (generateResponse y reg request).1 = .ok (reply.toYaml y) ∧
      (reply.reportsSuccess = false → (generateResponse y reg request).2 = reg)) ∨
    ((∀ e, RepliesTo (.ok request) (.error e)) ∧
      ∃ e, generateResponse y reg request = (.error e, reg)) := by
  cases request with
  | registrationRequest m =>
    cases hdirect : Registry.direct reg m.service.reread m.host m.port m.deregister with
    | mk done reg' =>
      have hgenerate := Registry.generateRegistrationResponse_eq y hdirect
      refine .inl ⟨.registrationResponse (Registry.registrationReply done), ⟨_, rfl⟩, rfl, ?_,
        fun hfalse => ?_⟩
      · rw [generateResponse, hgenerate]
        rfl
      · rw [generateResponse, hgenerate]
        cases done with
        | ok _ => cases hfalse
        | error e => exact direct_throws hdirect
  | serviceRequest m =>
    cases hlookup : IRegistry.lookupService reg m.service.reread (txt "") (txt "") with
    | mk found reg' =>
      have hgenerate := Registry.generateServiceResponse_eq y hlookup
      obtain ⟨⟨_ | _, host, port⟩, rfl, hsame⟩ := lookupService_cases hlookup
      · refine .inl ⟨.serviceResponse (Registry.serviceReply (.ok (false, host, port))), ⟨_, rfl⟩,
          rfl, ?_, fun _ => ?_⟩
        · rw [generateResponse, hgenerate]
          rfl
        · rw [generateResponse, hgenerate]
          exact hsame rfl
      · refine .inl ⟨.serviceResponse (Registry.serviceReply (.ok (true, host, port))), ⟨_, rfl⟩,
          rfl, ?_, fun hfalse => by cases hfalse⟩
        rw [generateResponse, hgenerate]
        rfl
  | registrationResponse m => exact .inr ⟨fun _ => ⟨_, rfl⟩, _, rfl⟩
  | serviceResponse m => exact .inr ⟨fun _ => ⟨_, rfl⟩, _, rfl⟩
  | error m => exact .inr ⟨fun _ => ⟨_, rfl⟩, _, rfl⟩

/-- **Every request is answered**, whatever the text: with one message, which the client decodes,
and whose class follows from what the text decodes to. If the reply is an error or unsuccessful, the
registry is as it was. -/
theorem request_handling_total (y : YamlCpp) (reg : SoundRegistry) (received : Text) :
    ∃ reply : RegistryMessage, (handleRead y reg received).1 = wire (reply.toYaml y) ∧
      RegistryMessage.fromYaml y.toYamlReader (cstr (handleRead y reg received).1) = .ok reply ∧
      RepliesTo (RegistryMessage.fromYaml y.toYamlReader (cstr received)) reply ∧
      (reply.reportsSuccess = false → (handleRead y reg received).2 = reg) := by
  have hdecodes : ∀ reply : RegistryMessage, reply.reread = reply →
      (handleRead y reg received).1 = wire (reply.toYaml y) →
      RegistryMessage.fromYaml y.toYamlReader (cstr (handleRead y reg received).1) = .ok reply := by
    intro reply hreread hreply
    rw [hreply, cstr_wire (Registry.zero_not_mem_toYaml y reply),
      RegistryMessage.fromYaml_toYaml, hreread]
  cases hrequest : RegistryMessage.fromYaml y.toYamlReader (cstr received) with
  | error e =>
    have hread : handleRead y reg received =
        (wire ((RegistryMessage.error ⟨e.what⟩).toYaml y), reg) := by
      simp only [handleRead, hrequest]
      rfl
    exact ⟨.error ⟨e.what⟩, congrArg Prod.fst hread,
      hdecodes _ rfl (congrArg Prod.fst hread), ⟨_, rfl⟩, fun _ => congrArg Prod.snd hread⟩
  | ok request =>
    rcases generateResponse_cases y reg request with
      ⟨reply, hkind, hreread, hreply, hsame⟩ | ⟨hkind, e, hthrows⟩
    · have hread : handleRead y reg received =
          (wire (reply.toYaml y), (generateResponse y reg request).2) := by
        simp only [handleRead, hrequest]
        cases hgenerate : generateResponse y reg request with
        | mk response reg' =>
          rw [hgenerate] at hreply
          obtain rfl : response = .ok (reply.toYaml y) := hreply
          rfl
      exact ⟨reply, congrArg Prod.fst hread, hdecodes _ hreread (congrArg Prod.fst hread), hkind,
        fun hfalse => (congrArg Prod.snd hread).trans (hsame hfalse)⟩
    · have hread : handleRead y reg received =
          (wire ((RegistryMessage.error ⟨e.what⟩).toYaml y), reg) := by
        simp only [handleRead, hrequest, hthrows]
        rfl
      exact ⟨.error ⟨e.what⟩, congrArg Prod.fst hread,
        hdecodes _ rfl (congrArg Prod.fst hread), hkind _, fun _ => congrArg Prod.snd hread⟩

end ClientHandler

end Ssoa
