import Ssoa.Service.RoundTrip

/-!
# The sizes in a header

The `blocks` field of a header has an `int` for the size of each argument. The sender makes it from
a `size_t` by a cast, so a size from 2 GiB on is written as another number; the receiver reads an
`int` and keeps it as an `unsigned int`, so a negative number becomes a size of 2 GiB or more.

The receivers do refuse a block that does not fit its type (`check_argument_size`), but the text and
the buffer have any size.

## Main results

* `Service.writesSizes_iff`, `Response.writesSizes_iff` — when the sizes are written as they are
* `SerializationHelper.preparesSizes_iff`, `Response.deserializesSizes_iff` — when they are taken
  as they are written
* `blockSizes_iff` — all four places
-/

namespace Ssoa

open Scatter

/-! ### Numbers of 32 bits -/

theorem toInt_eq_toNat_iff {z : BitVec 32} : z.toInt = z.toNat ↔ 0 ≤ z.toInt := by
  have hlt := z.isLt
  rw [BitVec.toInt_eq_toNat_cond]
  split <;> omega

theorem toInt_ofNat_eq_iff {n : ℕ} : (BitVec.ofNat 32 n).toInt = n ↔ n < 2 ^ 31 := by
  rw [BitVec.toInt_eq_toNat_cond, BitVec.toNat_ofNat]
  split <;> omega

theorem toInt_blocksOf_iff {args : List ServiceArgument} :
    (blocksOf args).map BitVec.toInt = args.map (fun a => (a.data.length : ℤ)) ↔
      ∀ a ∈ args, a.data.length < 2 ^ 31 := by
  rw [blocksOf, List.map_map, List.map_inj_left]
  exact forall₂_congr fun a _ => toInt_ofNat_eq_iff

theorem toInt_blocks_iff {blocks : List (BitVec 32)} {sizes : List ℕ}
    (h : sizes = blocks.map BitVec.toNat) :
    blocks.map BitVec.toInt = sizes.map (fun n : ℕ => (n : ℤ)) ↔ ∀ z ∈ blocks, 0 ≤ z.toInt := by
  rw [h, List.map_map, List.map_inj_left]
  exact forall₂_congr fun z _ => toInt_eq_toNat_iff

/-! ### Writing -/

/-- If the object is serialised, the `blocks` of its header are the numbers of bytes that follow,
argument by argument. -/
def WritesSizes (y : YamlLibrary) (header : Document) (sent : Except Exn (List (List Byte))) :
    Prop :=
  ∀ buffers, sent = .ok buffers → ∃ zs payload, buffers = wire (y.emitted header) :: payload ∧
    header.lookup (txt "blocks") = some (.ints zs) ∧
    zs.map BitVec.toInt = payload.map fun bytes => (bytes.length : ℤ)

theorem writesSizes_of_ok {y : YamlLibrary} {header : Document} {args : List ServiceArgument}
    (hkey : header.lookup (txt "blocks") = some (.ints (blocksOf args))) :
    WritesSizes y header (.ok (wire (y.emitted header) :: args.map (·.data))) ↔
      ∀ a ∈ args, a.data.length < 2 ^ 31 := by
  rw [← toInt_blocksOf_iff]
  constructor
  · intro h
    obtain ⟨zs, payload, hbuffers, hzs, hsizes⟩ := h _ rfl
    obtain rfl := Emitted.ints.inj (Option.some.inj (hkey.symm.trans hzs))
    rw [hsizes, ← (List.cons.inj hbuffers).2, List.map_map]
    rfl
  · rintro hsizes buffers hbuffers
    obtain rfl := Except.ok.inj hbuffers
    refine ⟨_, _, rfl, hkey, ?_⟩
    rw [hsizes, List.map_map]
    rfl

theorem writesSizes_of_error {y : YamlLibrary} {header : Document} (e : Exn) :
    WritesSizes y header (.error e) := by
  rintro buffers ⟨⟩

theorem Service.lookup_blocks (s : Service) :
    s.header.lookup (txt "blocks") = some (.ints (blocksOf s.arguments)) := rfl

/-- **When a request has the sizes it announces.** -/
theorem Service.writesSizes_iff (y : YamlLibrary) (s : Service) :
    WritesSizes y s.header (s.getConstBuffers y) ↔
      s.arguments.length < s.signature.inputParams.length ∨
        ∀ a ∈ s.arguments, a.data.length < 2 ^ 31 := by
  by_cases hmissing : s.arguments.length < s.signature.inputParams.length
  · rw [getConstBuffers, if_pos hmissing]
    exact iff_of_true (writesSizes_of_error _) (.inl hmissing)
  · rw [getConstBuffers, if_neg hmissing, writesSizes_of_ok s.lookup_blocks,
      or_iff_right hmissing]

/-- **When a response has the sizes it announces.** -/
theorem Response.writesSizes_iff (y : YamlLibrary) (r : Response) :
    WritesSizes y r.header (r.getConstBuffers y) ↔
      (r.successful = true ∧ r.arguments.length < r.signature.outputParams.length) ∨
        ∀ a ∈ r.arguments, a.data.length < 2 ^ 31 := by
  by_cases hmissing : r.successful = true ∧ r.arguments.length < r.signature.outputParams.length
  · rw [getConstBuffers, if_pos hmissing]
    exact iff_of_true (writesSizes_of_error _) (.inl hmissing)
  · rw [getConstBuffers, if_neg hmissing, writesSizes_of_ok r.lookup_blocks,
      or_iff_right hmissing]

/-! ### Preparing the arguments -/

/-- Every parameter has a known type, and its block a size that arguments of the type can have. -/
def Admits (params : List Text) (blocks : List (BitVec 32)) : Prop :=
  List.Forall₂ (fun type block => ∃ k : ArgumentClass, type = k.type ∧ k.Fits (BitVec.toNat block))
    params blocks

/-- The blocks arguments are prepared for. -/
theorem exists_prepareAll_iff {params : List Text} {blocks : List (BitVec 32)}
    (hlen : blocks.length = params.length) :
    (∃ args, prepareAll params blocks = .ok args) ↔ Admits params blocks := by
  constructor
  · rintro ⟨args, hargs⟩
    induction params generalizing blocks args with
    | nil =>
      obtain rfl := List.eq_nil_of_length_eq_zero hlen
      exact .nil
    | cons type params ih =>
      obtain _ | ⟨block, blocks⟩ := blocks
      · simp at hlen
      obtain ⟨a, rest, rfl, ha, hrest⟩ := prepareAll_cons_eq_ok.mp hargs
      obtain ⟨k, hfits, htype, -⟩ := ServiceArgument.prepare_eq_ok_iff.mp ha
      exact .cons ⟨k, htype, hfits⟩ (ih (Nat.succ.inj hlen) rest hrest)
  · intro h
    refine exists_prepareAll_of_forall₂ (h.imp ?_)
    rintro type block ⟨k, rfl, hfits⟩
    exact ⟨_, ServiceArgument.prepare_of_fits hfits⟩

theorem prepareArguments_sizeT (params : List Text) (blocks : List (BitVec 32))
    (fetched : List Byte) : prepareArguments sizeT params blocks fetched =
      (prepareAll params blocks).map (prefetch · fetched) :=
  prepareArguments_eq fun _ _ => rfl

theorem exists_prepareArguments_iff {params : List Text} {blocks : List (BitVec 32)}
    (hlen : blocks.length = params.length) (fetched : List Byte) :
    (∃ payloadBuffers, prepareArguments sizeT params blocks fetched = .ok payloadBuffers) ↔
      Admits params blocks := by
  rw [← exists_prepareAll_iff hlen, prepareArguments_sizeT]
  cases prepareAll params blocks <;> simp [Except.map]

/-- The arguments have the sizes the loop has kept. -/
theorem sizes_of_prepareArguments {params : List Text} {blocks : List (BitVec 32)}
    (hlen : blocks.length = params.length) {fetched : List Byte}
    {payloadBuffers : List (Buffer ServiceArgument)}
    (h : prepareArguments sizeT params blocks fetched = .ok payloadBuffers) :
    payloadBuffers.map (fun buffer => size buffer.1) = blocks.map BitVec.toNat := by
  rw [prepareArguments_sizeT] at h
  cases hargs : prepareAll params blocks with
  | error e =>
    rw [hargs] at h
    cases h
  | ok args =>
    rw [hargs] at h
    obtain rfl := Except.ok.inj h
    rw [map_size_prefetch, (prepareAll_types_sizes hlen hargs).2]

theorem receiveArguments_eq_ok_iff (fetchedSize : ℕ → ℤ) (params : List Text)
    (blocks : List (BitVec 32)) (payload : List Byte) (overRead : ℕ)
    (args : List ServiceArgument) :
    receiveArguments fetchedSize params blocks payload overRead = .ok (some args) ↔
      ∃ payloadBuffers, prepareArguments fetchedSize params blocks (payload.take overRead) =
        .ok payloadBuffers ∧ fill payloadBuffers (payload.drop overRead) = some args := by
  rw [receiveArguments]
  cases prepareArguments fetchedSize params blocks (payload.take overRead) <;> simp [Except.map]

theorem Carries.length_eq {params : List Text} {blocks : List (BitVec 32)} {payload : List Byte}
    {args : List ServiceArgument} (h : Carries params blocks payload args) :
    blocks.length = params.length := by
  have hsizes := congrArg List.length h.sizes
  rw [List.length_map, List.length_map] at hsizes
  rw [← hsizes, ← h.types, List.length_map]

/-! ### Reading a request -/

namespace SerializationHelper

variable {p : ServiceProvider} {c : Connection}

/-- If the handler goes on to read the payload, it has prepared arguments of the sizes the header
announces. -/
def PreparesSizes (p : ServiceProvider) (c : Connection) (n : ℕ) (h : SerializationHelper) : Prop :=
  let h' := ((onHeaderReceived p c none n).run h).2
  h'.reading = true → ∃ signature blocks,
    RequestHeader p.yaml.toYamlReader (h.headerBuffer.take (n - 1)) signature blocks ∧
    blocks.map BitVec.toInt = h'.payloadBuffers.map fun buffer => (size buffer.1 : ℤ)

/-- No size is negative in a header that is fit to be accepted: it is for an installed service, and
has a block for each parameter that fits its type. -/
def InRange (p : ServiceProvider) (header : Text) : Prop :=
  ∀ signature blocks, RequestHeader p.yaml.toYamlReader header signature blocks →
    p.factory.contains signature.signature = true → Admits signature.inputParams blocks →
    ∀ z ∈ blocks, 0 ≤ z.toInt

/-- The helper when the header has arrived. -/
def started (headerBuffer : List Byte) (endpointCalls : ℕ) : SerializationHelper :=
  { headerBuffer, endpointCalls }

/-- **When the sizes of a request are taken as they are written.** -/
theorem preparesSizes_iff (p : ServiceProvider) (c : Connection) (n : ℕ) (headerBuffer : List Byte)
    (calls : ℕ) :
    PreparesSizes p c n (started headerBuffer calls) ↔
      (c.endpoint calls = none → InRange p (headerBuffer.take (n - 1))) := by
  have hbuffer : (started headerBuffer calls).headerBuffer = headerBuffer := rfl
  constructor
  · intro h halive signature blocks hheader hinst hadmits
    have hcount : blocks.length = signature.inputParams.length := hadmits.length_eq.symm
    obtain ⟨payloadBuffers, hprepared⟩ :=
      (exists_prepareArguments_iff hcount (headerBuffer.drop n)).mpr hadmits
    rcases onHeaderReceived_of_accepts (c := c) (h := started headerBuffer calls)
      ⟨hheader, hinst, hcount, hprepared⟩ with ⟨-, heq⟩ | ⟨e, he, -⟩
    · rw [PreparesSizes, heq] at h
      obtain ⟨signature', blocks', hheader', hsizes⟩ := h rfl
      obtain rfl := hheader.requested.unique hheader'.requested
      obtain rfl := hheader.blocks_eq hheader'
      refine (toInt_blocks_iff (sizes_of_prepareArguments hcount hprepared)).mp ?_
      rw [hsizes, List.map_map]
      rfl
    · exact absurd (halive.symm.trans he) (by simp)
  · intro h hreading
    by_cases hacc : ∃ signature blocks payloadBuffers,
        Accepts p (headerBuffer.take (n - 1)) (headerBuffer.drop n) signature blocks payloadBuffers
    · obtain ⟨signature, blocks, payloadBuffers, hacc⟩ := hacc
      have hadmits := (exists_prepareArguments_iff hacc.count _).mp ⟨_, hacc.prepared⟩
      rcases onHeaderReceived_of_accepts (c := c) (h := started headerBuffer calls) hacc with
        ⟨halive, heq⟩ | ⟨e, -, heq⟩
      · refine ⟨signature, blocks, hacc.header, ?_⟩
        have hsizes := (toInt_blocks_iff (sizes_of_prepareArguments hacc.count hacc.prepared)).mpr
          (h halive signature blocks hacc.header hacc.installed hadmits)
        rw [heq, hsizes, List.map_map]
        rfl
      · rw [heq] at hreading
        cases hreading
    · have hstill := onHeaderReceived_reading (p := p) (c := c) (n := n)
        (h := started headerBuffer calls) fun signature blocks payloadBuffers hacc' =>
          hacc ⟨signature, blocks, payloadBuffers, hacc'⟩
      rw [hreading] at hstill
      cases hstill

end SerializationHelper

/-! ### Reading a response -/

namespace Response

/-- The header is the one of a response with these fields. -/
def ResponseHeader (y : YamlReader) (header : Text) (signature : ServiceSignature)
    (successful : Bool) (status : Text) (blocks : List (BitVec 32)) : Prop :=
  ∃ node service, y.load header = .ok node ∧ y.textAt node (txt "service") = .ok service ∧
    signature = .ofText service ∧ y.boolAt node (txt "successful") = .ok successful ∧
    y.textAt node (txt "status") = .ok status ∧ readBlocks y node = .ok blocks

variable {y : YamlReader} {stream : List Byte} {overRead : ℕ} {signature : ServiceSignature}
  {successful : Bool} {status : Text} {blocks : List (BitVec 32)} {r : Response}

theorem ResponseHeader.blocks_eq {header : Text} {signature' : ServiceSignature}
    {successful' : Bool} {status' : Text} {blocks' : List (BitVec 32)}
    (h : ResponseHeader y header signature successful status blocks)
    (h' : ResponseHeader y header signature' successful' status' blocks') : blocks = blocks' := by
  obtain ⟨node, _, hload, -, -, -, -, hblocks⟩ := h
  obtain ⟨node', _, hload', -, -, -, -, hblocks'⟩ := h'
  obtain rfl := Except.ok.inj (hload.symm.trans hload')
  exact Except.ok.inj (hblocks.symm.trans hblocks')

/-- What `deserialize` does after the header. -/
theorem deserialize_of_header (hmem : 0 ∈ stream)
    (h : ResponseHeader y (cstr stream) signature successful status blocks) :
    deserialize y stream overRead =
      if successful = false then .ok (new signature false status)
      else if blocks.length ≠ signature.outputParams.length then
        .error (invalidBlocks (txt "response") signature.outputParams.length blocks.length)
      else (receiveArguments intT signature.outputParams blocks (payloadOf stream) overRead).bind
        fun received => match received with
          | none => .error (endOfFile (txt "read"))
          | some arguments =>
            .ok { signature, successful, status, arguments, pushed := arguments.length } := by
  obtain ⟨node, service, hload, hservice, rfl, hsuccessful, hstatus, hblocks⟩ := h
  simp only [deserialize, readUntil_of_mem hmem, take_wire_append, drop_wire_append, hload,
    hservice, hsuccessful, hstatus, hblocks, bind, Except.bind, pure, Except.pure,
    receiveArguments]
  cases prepareArguments intT _ blocks ((payloadOf stream).take overRead) <;> rfl

/-- What is deserialized has a header. -/
theorem exists_header_of_deserialize (h : deserialize y stream overRead = .ok r) :
    0 ∈ stream ∧ ∃ signature successful status blocks,
      ResponseHeader y (cstr stream) signature successful status blocks := by
  by_cases hmem : 0 ∈ stream
  · refine ⟨hmem, ?_⟩
    simp only [deserialize, readUntil_of_mem hmem, take_wire_append] at h
    cases hload : y.load (cstr stream) with
    | error e => simp [hload, bind, Except.bind] at h
    | ok node =>
    cases hservice : y.textAt node (txt "service") with
    | error e => simp [hload, hservice, bind, Except.bind] at h
    | ok service =>
    cases hsuccessful : y.boolAt node (txt "successful") with
    | error e => simp [hload, hservice, hsuccessful, bind, Except.bind] at h
    | ok successful =>
    cases hstatus : y.textAt node (txt "status") with
    | error e => simp [hload, hservice, hsuccessful, hstatus, bind, Except.bind] at h
    | ok status =>
    cases hblocks : readBlocks y node with
    | error e => simp [hload, hservice, hsuccessful, hstatus, hblocks, bind, Except.bind] at h
    | ok blocks =>
      exact ⟨_, _, _, _, node, service, hload, hservice, rfl, hsuccessful, hstatus, hblocks⟩
  · rw [deserialize, readUntil_of_not_mem hmem] at h
    cases h

/-- **What `deserialize` reads**: a header, and after the header of a successful response its
arguments. What has been fetched must be fewer than 2 GiB. -/
theorem deserialize_eq_ok_iff (hover : overRead < 2 ^ 31) : deserialize y stream overRead = .ok r ↔
    0 ∈ stream ∧ ∃ signature successful status blocks,
      ResponseHeader y (cstr stream) signature successful status blocks ∧
      (successful = false ∧ r = new signature false status ∨
        successful = true ∧ ∃ arguments,
          Carries signature.outputParams blocks (payloadOf stream) arguments ∧
          r = { signature, successful, status, arguments, pushed := arguments.length }) := by
  have hheader : ∀ {signature successful status blocks}, 0 ∈ stream →
      ResponseHeader y (cstr stream) signature successful status blocks →
      (deserialize y stream overRead = .ok r ↔
        successful = false ∧ r = new signature false status ∨
        successful = true ∧ ∃ arguments,
          Carries signature.outputParams blocks (payloadOf stream) arguments ∧
          r = { signature, successful, status, arguments, pushed := arguments.length }) := by
    intro signature successful status blocks hmem h
    rw [deserialize_of_header hmem h]
    cases successful with
    | false => simp [eq_comm]
    | true =>
      by_cases hcount : blocks.length = signature.outputParams.length
      · have hcarries : ∀ arguments, Carries signature.outputParams blocks (payloadOf stream)
            arguments ↔ receiveArguments intT signature.outputParams blocks (payloadOf stream)
              overRead = .ok (some arguments) := fun arguments =>
          (carries_iff_prepareArguments (fun n hn => intT_of_lt (by omega)) hcount).trans
            (receiveArguments_eq_ok_iff ..).symm
        simp only [hcarries, hcount, ne_eq, not_true, if_false, Bool.true_eq_false, false_and,
          false_or, true_and]
        cases receiveArguments intT signature.outputParams blocks (payloadOf stream) overRead with
        | error e => simp [Except.bind]
        | ok received =>
          cases received with
          | none => simp [Except.bind]
          | some arguments => simp [Except.bind, eq_comm]
      · have hno : ∀ arguments,
            ¬ Carries signature.outputParams blocks (payloadOf stream) arguments :=
          fun arguments hcarries => hcount hcarries.length_eq
        simp [hcount, hno]
  constructor
  · intro h
    obtain ⟨hmem, signature, successful, status, blocks, hres⟩ := exists_header_of_deserialize h
    exact ⟨hmem, _, _, _, _, hres, (hheader hmem hres).mp h⟩
  · rintro ⟨hmem, signature, successful, status, blocks, hres, h⟩
    exact (hheader hmem hres).mpr h

/-- What is deserialized has arguments of the sizes the header announces. -/
def DeserializesSizes (y : YamlReader) (stream : List Byte) (overRead : ℕ) : Prop :=
  ∀ r, deserialize y stream overRead = .ok r → ∃ signature successful status blocks,
    ResponseHeader y (cstr stream) signature successful status blocks ∧
    blocks.map BitVec.toInt = r.arguments.map fun a => (a.data.length : ℤ)

/-- No size is negative in a successful response with its whole payload, and an unsuccessful one
announces no arguments. -/
def InRange (y : YamlReader) (stream : List Byte) : Prop :=
  ∀ signature successful status blocks,
    ResponseHeader y (cstr stream) signature successful status blocks →
    (successful = false → blocks = []) ∧
    (successful = true → (∃ args, Carries signature.outputParams blocks (payloadOf stream) args) →
      ∀ z ∈ blocks, 0 ≤ z.toInt)

/-- **When the sizes of a response are taken as they are written.** -/
theorem deserializesSizes_iff (y : YamlReader) (stream : List Byte) (hover : overRead < 2 ^ 31) :
    DeserializesSizes y stream overRead ↔ (0 ∈ stream → InRange y stream) := by
  constructor
  · intro h hmem signature successful status blocks hheader
    refine ⟨?_, ?_⟩
    · rintro rfl
      obtain ⟨_, _, _, _, hheader', hsizes⟩ := h _ ((deserialize_eq_ok_iff hover).mpr
        ⟨hmem, _, _, _, _, hheader, .inl ⟨rfl, rfl⟩⟩)
      obtain rfl := hheader.blocks_eq hheader'
      exact List.map_eq_nil_iff.mp hsizes
    · rintro rfl ⟨args, hcarries⟩
      obtain ⟨_, _, _, _, hheader', hsizes⟩ := h _ ((deserialize_eq_ok_iff hover).mpr
        ⟨hmem, _, _, _, _, hheader, .inr ⟨rfl, args, hcarries, rfl⟩⟩)
      obtain rfl := hheader.blocks_eq hheader'
      refine (toInt_blocks_iff hcarries.sizes).mp ?_
      rw [hsizes, List.map_map]
      rfl
  · intro h r hr
    obtain ⟨hmem, signature, successful, status, blocks, hheader, hcases⟩ :=
      (deserialize_eq_ok_iff hover).mp hr
    obtain ⟨hnone, hall⟩ := h hmem _ _ _ _ hheader
    refine ⟨_, _, _, _, hheader, ?_⟩
    rcases hcases with ⟨hsuccessful, rfl⟩ | ⟨hsuccessful, args, hcarries, rfl⟩
    · rw [hnone hsuccessful]
      rfl
    · rw [(toInt_blocks_iff hcarries.sizes).mpr (hall hsuccessful ⟨args, hcarries⟩), List.map_map]
      rfl

end Response

/-! ### All four places -/

/-- **When the sizes in a header are exact**: in a request and in a response that are sent, in a
request and in a response that are received. -/
theorem blockSizes_iff (y : YamlLibrary) (s : Service) (r : Response) (p : ServiceProvider)
    (c : Connection) (n : ℕ) (headerBuffer : List Byte) (calls : ℕ) (stream : List Byte)
    {overRead : ℕ} (hover : overRead < 2 ^ 31) :
    (WritesSizes y s.header (s.getConstBuffers y) ↔
      s.arguments.length < s.signature.inputParams.length ∨
        ∀ a ∈ s.arguments, a.data.length < 2 ^ 31) ∧
    (WritesSizes y r.header (r.getConstBuffers y) ↔
      (r.successful = true ∧ r.arguments.length < r.signature.outputParams.length) ∨
        ∀ a ∈ r.arguments, a.data.length < 2 ^ 31) ∧
    (SerializationHelper.PreparesSizes p c n (SerializationHelper.started headerBuffer calls) ↔
      (c.endpoint calls = none → SerializationHelper.InRange p (headerBuffer.take (n - 1)))) ∧
    (Response.DeserializesSizes y.toYamlReader stream overRead ↔
      (0 ∈ stream → Response.InRange y.toYamlReader stream)) :=
  ⟨s.writesSizes_iff y, r.writesSizes_iff y,
    SerializationHelper.preparesSizes_iff p c n headerBuffer calls,
    Response.deserializesSizes_iff y.toYamlReader stream hover⟩

/-- A request with a number and a text of three bytes, and the response with a number: their sizes
are written and taken as they are. -/
theorem blockSizes_sample :
    let y := headerYaml.toYamlLibrary
    let s := Service.ofArguments sampleSignature (sampleValues.map ServiceArgument.ofValue)
    let r := sampleResponse (txt "OK")
    WritesSizes y s.header (s.getConstBuffers y) ∧ WritesSizes y r.header (r.getConstBuffers y) ∧
      SerializationHelper.PreparesSizes ⟨y, sampleFactory⟩ ⟨[], 0, [], fun _ => none⟩
        ((y.emitted s.header).length + 1)
        (SerializationHelper.started (wire (y.emitted s.header)) 1) ∧
      Response.DeserializesSizes y.toYamlReader (wire (y.emitted r.header) ++ htonl 7) 2 := by
  intro y s r
  obtain ⟨hrequest, hresponse, hprepares, hdeserializes⟩ := blockSizes_iff y s r
    ⟨y, sampleFactory⟩ ⟨[], 0, [], fun _ => none⟩ ((y.emitted s.header).length + 1)
    (wire (y.emitted s.header)) 1 (wire (y.emitted r.header) ++ htonl 7) (by decide : 2 < 2 ^ 31)
  refine ⟨hrequest.mpr (.inr (by decide +kernel)), hresponse.mpr (.inr (by decide +kernel)),
    hprepares.mpr fun _ => ?_, hdeserializes.mpr fun _ => ?_⟩
  · have htake : (wire (y.emitted s.header)).take ((y.emitted s.header).length + 1 - 1) =
        y.emitted s.header := by simpa using take_wire_append (y.emitted s.header) []
    obtain ⟨node, hload, hmap⟩ := headerYaml.load_emitted
      (by decide +kernel : (s.header.map Prod.fst).Nodup)
    have hheader : RequestHeader y.toYamlReader (y.emitted s.header) _ [4, 3] :=
      ⟨node, _, hload, hmap.textAt (txt "service") rfl, rfl, hmap.readBlocks rfl⟩
    rw [htake]
    intro signature blocks h _ _
    rw [h.blocks_eq hheader]
    simp
  · have hcstr : cstr (wire (y.emitted r.header) ++ htonl 7) = y.emitted r.header :=
      cstr_wire_append (headerYaml.zero_not_mem_emitted _) _
    obtain ⟨node, hload, hmap⟩ := headerYaml.load_emitted
      (by decide +kernel : (r.header.map Prod.fst).Nodup)
    have hsuccessful : y.boolAt node (txt "successful") = .ok true := hmap.boolAt _ rfl
    rw [Response.InRange, hcstr]
    rintro signature successful status blocks ⟨node', _, hload', -, -, hread, -, hblocks⟩
    obtain rfl := Except.ok.inj (hload.symm.trans hload')
    obtain rfl := Except.ok.inj (hsuccessful.symm.trans hread)
    refine ⟨nofun, fun _ _ => ?_⟩
    have hfour : readBlocks y.toYamlReader node = .ok [4] := hmap.readBlocks rfl
    rw [Except.ok.inj (hblocks.symm.trans hfour)]
    simp

/-- A header for a service with a buffer, of size -1. -/
def negativeHeader : Document :=
  [(txt "service", .text (txt "f(in buffer)")), (txt "blocks", .ints [-1])]

/-- A library that writes this header as yaml-cpp does. -/
noncomputable def negativeYaml : YamlCpp :=
  .ofTexts [negativeHeader] (by decide +kernel) (by decide +kernel)

/-- A provider of the service. -/
noncomputable def bufferProvider : ServiceProvider :=
  ⟨negativeYaml.toYamlLibrary, ⟨txt "ServiceSkeleton", [(txt "f(in buffer)",
    SkeletonClass.create ⟨.ofText (txt "f(in buffer)"), fun _ => .ok none⟩)]⟩⟩

/-- **Sizes that are not exact**: the one a sender writes for a buffer of 2 GiB, and the one a
receiver makes of -1. -/
theorem not_blockSizes :
    let s := Service.ofArguments (.ofText (txt "f(in buffer)"))
      [.ofBuffer (List.replicate (2 ^ 31) 0)]
    let header := negativeYaml.emitted negativeHeader
    ¬ WritesSizes negativeYaml.toYamlLibrary s.header
        (s.getConstBuffers negativeYaml.toYamlLibrary) ∧
      ¬ SerializationHelper.PreparesSizes bufferProvider ⟨[], 0, [], fun _ => none⟩
        (header.length + 1) (SerializationHelper.started (wire header) 1) := by
  intro s header
  have hparams : (ServiceSignature.ofText (txt "f(in buffer)")).inputParams = [txt "buffer"] := by
    decide +kernel
  constructor
  · rw [Service.writesSizes_iff]
    rintro (hmissing | hsizes)
    · have hlen : s.signature.inputParams.length = 1 := congrArg List.length hparams
      rw [hlen] at hmissing
      exact absurd hmissing (Nat.lt_irrefl 1)
    · have hlt := hsizes _ List.mem_cons_self
      rw [ServiceArgument.ofBuffer, List.length_replicate] at hlt
      exact absurd hlt (Nat.lt_irrefl _)
  · rw [SerializationHelper.preparesSizes_iff]
    intro h
    have htake : (wire header).take (header.length + 1 - 1) = header := by
      simpa using take_wire_append header []
    obtain ⟨node, hload, hmap⟩ := negativeYaml.load_emitted
      (by decide : (negativeHeader.map Prod.fst).Nodup)
    have hheader : RequestHeader bufferProvider.yaml.toYamlReader header
        (.ofText (txt "f(in buffer)")) [-1] :=
      ⟨node, _, hload, hmap.textAt (txt "service") rfl, rfl, hmap.readBlocks rfl⟩
    have hadmits : Admits (ServiceSignature.ofText (txt "f(in buffer)")).inputParams [-1] := by
      rw [hparams]
      exact .cons ⟨.buffer, rfl, by decide⟩ .nil
    have hinst : bufferProvider.factory.contains
        (ServiceSignature.ofText (txt "f(in buffer)")).signature = true := by
      have hkey : (ServiceSignature.ofText (txt "f(in buffer)")).signature =
          txt "f(in buffer)" := by decide +kernel
      rw [hkey]
      rfl
    have hrange := h rfl _ _ (htake.symm ▸ hheader) hinst hadmits _ List.mem_cons_self
    exact absurd hrange (by decide)

end Ssoa
