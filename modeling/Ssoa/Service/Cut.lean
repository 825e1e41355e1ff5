import Ssoa.Service.BlockSizes
import Ssoa.Service.Installed

/-!
# Streams that are cut off

A request or a response may arrive only in part. The header ends with a NUL and has the sizes of all
arguments, so what arrives in part is not mistaken for something else: either the receiver notices,
or what it needs is there, and then it is what was sent.

## Main results

* `SerializationHelper.decodes_of_cut` — a part of a request decodes to that request, if at all
* `Response.deserialize_of_cut` — a part of a response is read as a successful one only if all of
  it is there, and then it is that response
-/

namespace Ssoa

open Scatter

/-! ### The header and the payload -/

/-- If the delimiter is in the part that arrives, so is the header, and the payload is a part of the
payload. -/
theorem cstr_of_cut {header : Text} (h : 0 ∉ header) {payload stream : List Byte}
    (hcut : stream <+: wire header ++ payload) (hmem : 0 ∈ stream) :
    cstr stream = header ∧ payloadOf stream <+: payload := by
  obtain ⟨rest, hrest⟩ := hcut
  rw [← wire_append_payloadOf hmem, List.append_assoc] at hrest
  have hheader : cstr stream = header := by
    have hcstr := congrArg cstr hrest
    rwa [cstr_wire_append (zero_not_mem_cstr stream), cstr_wire_append h] at hcstr
  rw [hheader] at hrest
  exact ⟨hheader, rest, List.append_cancel_left hrest⟩

theorem Carries.mono {params : List Text} {blocks : List (BitVec 32)} {payload payload' : List Byte}
    {args : List ServiceArgument} (h : Carries params blocks payload args)
    (hcut : payload <+: payload') : Carries params blocks payload' args :=
  ⟨h.types, h.sizes, h.bytes.trans hcut⟩

/-- A payload carries one list of arguments of these types and sizes. -/
theorem Carries.unique {params : List Text} {blocks : List (BitVec 32)} {payload : List Byte}
    {args args' : List ServiceArgument} (h : Carries params blocks payload args)
    (h' : Carries params blocks payload args') : args = args' := by
  obtain ⟨zeros, hzeros, hfill⟩ := (carries_iff h.length_eq).mp h
  obtain ⟨zeros', hzeros', hfill'⟩ := (carries_iff h.length_eq).mp h'
  obtain rfl := Except.ok.inj (hzeros.symm.trans hzeros')
  exact Option.some.inj (hfill.symm.trans hfill')

/-! ### Requests -/

/-- The header of a request that is sent. -/
theorem requestHeader_of_sent (y : YamlCpp) {signature : ServiceSignature}
    (hvalid : signature.isValid = true) (args : List ServiceArgument) :
    RequestHeader y.toYamlReader (y.emitted (Service.ofArguments signature args).header) signature
      (blocksOf args) := by
  have hheader := (requestText_emitted y signature.signature (blocksOf args)).header
  rwa [ServiceSignature.ofText_signature hvalid] at hheader

namespace SerializationHelper

/-- **A part of a request decodes to that request, if at all.** -/
theorem decodes_of_cut (y : YamlCpp) {p : ServiceProvider} (hy : p.yaml = y.toYamlLibrary)
    {signature signature' : ServiceSignature} (hvalid : signature.isValid = true)
    {args args' : List ServiceArgument} (htypes : args.map (·.kind.type) = signature.inputParams)
    (hsize : ∀ a ∈ args, a.data.length < 2 ^ 31) {stream : List Byte}
    (hcut : stream <+: wire (y.emitted (Service.ofArguments signature args).header) ++
      (args.map (·.data)).flatten) {blocks : List (BitVec 32)}
    (h : Decodes p stream signature' blocks args') : signature' = signature ∧ args' = args := by
  obtain ⟨hmem, hheader, -, -, hpayload⟩ := h
  obtain ⟨hcstr, hpart⟩ := cstr_of_cut (y.zero_not_mem_emitted _) hcut hmem
  rw [hcstr, hy] at hheader
  have hsent := requestHeader_of_sent y hvalid args
  obtain rfl := hheader.requested.unique hsent.requested
  obtain rfl := hheader.blocks_eq hsent
  exact ⟨rfl, (hpayload.mono hpart).unique (carries_of_sent htypes hsize)⟩

end SerializationHelper

/-! ### Responses -/

namespace Response

/-- The header of a response that is sent says what the response is. -/
theorem responseHeader_of_sent (y : YamlCpp) {r : Response} {signature : ServiceSignature}
    {successful : Bool} {status : Text} {blocks : List (BitVec 32)}
    (h : ResponseHeader y.toYamlReader (y.emitted r.header) signature successful status blocks) :
    signature = .ofText r.signature.signature ∧ successful = r.successful ∧ status = r.status ∧
      blocks = blocksOf r.arguments := by
  obtain ⟨node, service, hload, hservice, rfl, hsuccessful, hstatus, hblocks⟩ := h
  obtain ⟨node', hload', hmap⟩ := y.load_emitted r.nodup_header
  obtain rfl := Except.ok.inj (hload.symm.trans hload')
  have hservice' := hmap.textAt (txt "service") (t := r.signature.signature) rfl
  obtain rfl := Except.ok.inj (hservice.symm.trans hservice')
  have hsuccessful' := hmap.boolAt (txt "successful") (b := r.successful) rfl
  refine ⟨rfl, Except.ok.inj (hsuccessful.symm.trans hsuccessful'), ?_,
    Except.ok.inj (hblocks.symm.trans (hmap.readBlocks r.lookup_blocks))⟩
  -- without the field, the client has thrown
  cases hkey : r.header.lookup (txt "status") with
  | none =>
    obtain ⟨e, he⟩ := hmap.textAt_error (txt "status") hkey
    cases hstatus.symm.trans he
  | some value =>
    rw [lookup_status] at hkey
    split at hkey
    · next hwritten =>
      refine Except.ok.inj (hstatus.symm.trans (hmap.textAt (txt "status") ?_))
      rw [lookup_status, if_pos hwritten]
    · cases hkey

/-- A successful response that can be sent has the arguments its signature declares, all pushed. -/
theorem Reachable.complete {y : YamlLibrary} {r : Response} (h : r.Reachable)
    (hs : r.successful = true) {buffers : List (List Byte)}
    (hbuffers : r.getConstBuffers y = .ok buffers) :
    r.arguments.map (·.kind.type) = r.signature.outputParams ∧ r.pushed = r.arguments.length := by
  have hlen := length_le_of_getConstBuffers hbuffers hs
  obtain ⟨hpushed, htypes⟩ := h.aligned.types_eq hlen
  refine ⟨htypes, hpushed.trans ?_⟩
  rw [← htypes, List.length_map]

theorem flatten_of_getConstBuffers {y : YamlLibrary} {r : Response} {buffers : List (List Byte)}
    (h : r.getConstBuffers y = .ok buffers) :
    buffers.flatten = wire (y.emitted r.header) ++ (r.arguments.map (·.data)).flatten := by
  rw [getConstBuffers] at h
  split at h
  · cases h
  · rw [← Except.ok.inj h, List.flatten_cons]

variable {r r' : Response} {buffers : List (List Byte)} {stream : List Byte} {overRead : ℕ}

/-- What a client takes for a successful response is a part of one. -/
theorem exists_carries_of_cut (y : YamlCpp) (hbuffers : r.getConstBuffers y.toYamlLibrary =
      .ok buffers) (hover : overRead < 2 ^ 31) (hcut : stream <+: buffers.flatten)
    (h : deserialize y.toYamlReader stream overRead = .ok r') (hs : r'.successful = true) :
    r.successful = true ∧ ∃ arguments,
      Carries (ServiceSignature.ofText r.signature.signature).outputParams (blocksOf r.arguments)
        (r.arguments.map (·.data)).flatten arguments ∧
      r' = { r with
        signature := .ofText r.signature.signature, arguments, pushed := arguments.length } := by
  rw [flatten_of_getConstBuffers hbuffers] at hcut
  obtain ⟨hmem, signature, successful, status, blocks, hheader, hcases⟩ :=
    (deserialize_eq_ok_iff hover).mp h
  obtain ⟨hcstr, hpart⟩ := cstr_of_cut (y.zero_not_mem_emitted _) hcut hmem
  rw [hcstr] at hheader
  obtain ⟨rfl, rfl, rfl, rfl⟩ := responseHeader_of_sent y hheader
  obtain ⟨hfalse, rfl⟩ | ⟨htrue, arguments, hcarries, rfl⟩ := hcases
  · cases hs
  · exact ⟨htrue, arguments, hcarries.mono hpart, rfl⟩

/-- **A part of a response is read as a successful one only if all of it is there**, and then it is
that response. -/
theorem deserialize_of_cut (y : YamlCpp) (hr : r.Reachable) (hvalid : r.signature.isValid = true)
    (hsize : ∀ a ∈ r.arguments, a.data.length < 2 ^ 31)
    (hbuffers : r.getConstBuffers y.toYamlLibrary = .ok buffers) (hover : overRead < 2 ^ 31)
    (hcut : stream <+: buffers.flatten)
    (h : deserialize y.toYamlReader stream overRead = .ok r') (hs : r'.successful = true) :
    r' = r := by
  obtain ⟨hrs, arguments, hcarries, rfl⟩ := exists_carries_of_cut y hbuffers hover hcut h hs
  obtain ⟨htypes, hpushed⟩ := hr.complete hrs hbuffers
  rw [ServiceSignature.ofText_signature hvalid] at hcarries ⊢
  obtain rfl := hcarries.unique (carries_of_sent htypes hsize)
  rw [← hpushed]

end Response

end Ssoa
