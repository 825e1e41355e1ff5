import Ssoa.Service.Dispatch

/-!
# Requests and responses travel

What a client sends is what the provider invokes the service with, and what the provider answers is
what the client gets, except that the header of a successful response with an empty status lacks a
field the client insists on.

## Main results

* `request_round_trip` — a service is invoked with the values the client pushed
* `Response.roundTrips_iff` — which responses survive the way back
-/

namespace Ssoa

/-- The blocks are the sizes, if the sizes fit into an `int`. -/
theorem toNat_blocksOf {args : List ServiceArgument}
    (h : ∀ a ∈ args, a.data.length < 2 ^ 31) :
    (blocksOf args).map BitVec.toNat = args.map (·.data.length) := by
  rw [blocksOf, List.map_map]
  refine List.map_congr_left fun a ha => ?_
  have := h a ha
  simp only [Function.comp_apply, BitVec.toNat_ofNat]
  omega

/-- The payload that is sent carries the arguments. -/
theorem carries_of_sent {params : List Text} {args : List ServiceArgument}
    (htypes : args.map (·.kind.type) = params) (hsize : ∀ a ∈ args, a.data.length < 2 ^ 31) :
    Carries params (blocksOf args) (args.map (·.data)).flatten args :=
  ⟨htypes, (toNat_blocksOf hsize).symm, List.prefix_rfl⟩

/-! ### Requests -/

theorem Service.nodup_header (s : Service) : (s.header.map Prod.fst).Nodup := by
  show [txt "service", txt "blocks"].Nodup
  decide

/-- What a client sends decodes to the arguments it pushed. -/
theorem decodes_of_sent (y : YamlCpp) {p : ServiceProvider} (hy : p.yaml = y.toYamlLibrary)
    {signature : ServiceSignature} (hvalid : signature.isValid = true)
    (hinst : p.factory.contains signature.signature = true) {args : List ServiceArgument}
    (htypes : args.map (·.kind.type) = signature.inputParams)
    (hsize : ∀ a ∈ args, a.data.length < 2 ^ 31) :
    Decodes p (wire (y.emitted (Service.ofArguments signature args).header) ++
      (args.map (·.data)).flatten) signature (blocksOf args) args := by
  obtain ⟨yaml, factory⟩ := p
  obtain rfl := hy
  obtain ⟨node, hload, hmap⟩ := y.load_emitted (Service.ofArguments signature args).nodup_header
  have hnul := y.zero_not_mem_emitted (Service.ofArguments signature args).header
  have hservice := hmap.textAt (txt "service") (t := signature.signature) rfl
  refine ⟨by simp [wire], ?_, hinst, ?_, ?_⟩
  · rw [cstr_wire_append hnul]
    exact ⟨node, signature.signature, hload, hservice,
      (ServiceSignature.ofText_signature hvalid).symm, hmap.readBlocks rfl⟩
  · rw [← htypes, blocksOf, List.length_map, List.length_map]
  · rw [payloadOf_wire hnul]
    exact carries_of_sent htypes hsize

/-- **A service is invoked with the values the client pushed.** -/
theorem request_round_trip (y : YamlCpp)
    (factory : FactoryBase (List ServiceArgument) Skeleton) (s : SkeletonClass)
    {signature : ServiceSignature} (hvalid : signature.isValid = true)
    (hs : s.signature.signature = signature.signature)
    (hinst : factory.mappings.lookup signature.signature = some s.create) {values : List Value}
    (htypes : values.map (·.kind.type) = signature.inputParams)
    (hsize : ∀ v ∈ values, (ServiceArgument.ofValue v).data.length < 2 ^ 31) :
    ∃ service buffers,
      (forM (values.map ServiceArgument.ofValue) Service.pushArgument).run (.new signature) =
        (.ok (), service) ∧
      service.getConstBuffers y.toYamlLibrary = .ok buffers ∧
      ∀ c : Connection, c.stream = buffers.flatten → c.Alive →
        ∃ skeleton args,
          (SerializationHelper.served ⟨y.toYamlLibrary, factory⟩ c).invocations =
            [(signature.signature, skeleton)] ∧
          ((values.map Value.kind).mapM Service.popArgument).run skeleton =
            (.ok args, { skeleton with arguments := [] }) ∧
          args.map ServiceArgument.value = values := by
  generalize hargs : values.map ServiceArgument.ofValue = args
  have htypes' : args.map (·.kind.type) = signature.inputParams := by
    simpa [← hargs, Function.comp_def] using htypes
  have hsize' : ∀ a ∈ args, a.data.length < 2 ^ 31 := by
    intro a ha
    obtain ⟨v, hv, rfl⟩ := List.mem_map.mp (hargs ▸ ha)
    exact hsize v hv
  refine ⟨_, _, Service.run_forM_pushArgument htypes',
    Service.getConstBuffers_of_pushed y.toYamlLibrary htypes', fun c hc halive => ?_⟩
  have hdecodes := decodes_of_sent y (p := ⟨y.toYamlLibrary, factory⟩) rfl hvalid
    (FactoryBase.contains_of_lookup hinst) htypes' hsize'
  rw [← List.flatten_cons, ← hc] at hdecodes
  have hinvoked : (SerializationHelper.served ⟨y.toYamlLibrary, factory⟩ c).invocations =
      [(signature.signature, Service.ofArguments s.signature args)] := by
    rcases SerializationHelper.serve_of_decodes hdecodes with ⟨-, n, hn⟩ | hcreated
    · exact absurd (halive n) hn
    · rw [hcreated, SerializationHelper.created, FactoryBase.create_of_lookup hinst]
      rfl
  have hparams : s.signature.inputParams = signature.inputParams :=
    (ServiceSignature.eq_of_signature_eq hs).2.1
  refine ⟨_, args, hinvoked, ?_, ?_⟩
  · refine Service.run_mapM_popArgument_ofArguments (htypes'.trans hparams.symm) ?_
    rw [hparams, ← htypes, List.map_map]
    rfl
  · rw [← hargs, List.map_map]
    exact (List.map_congr_left fun v _ => ServiceArgument.value_ofValue v).trans (List.map_id _)

/-! ### Responses -/

namespace Response

theorem nodup_header (r : Response) : (r.header.map Prod.fst).Nodup := by
  have hsub : List.Sublist (r.header.map Prod.fst)
      [txt "service", txt "successful", txt "status", txt "blocks"] := by
    rw [header]
    split <;> exact List.isSublist_iff_sublist.mp rfl
  exact hsub.nodup (by decide)

theorem lookup_blocks (r : Response) :
    r.header.lookup (txt "blocks") = some (.ints (blocksOf r.arguments)) := by
  rw [header]
  split <;> rfl

theorem lookup_status (r : Response) : r.header.lookup (txt "status") =
    if r.successful = false ∨ r.status ≠ [] then some (.text r.status) else none := by
  rw [header]
  split <;> rfl

/-- The client's view of a response, when these are the bytes it reads and that many of them past
the header come with the first read: the same signature, flag and status, and the arguments if it
is successful. -/
def RoundTrips (y : YamlReader) (r : Response) (stream : List Byte) (overRead : ℕ) : Prop :=
  ∃ r', deserialize y stream overRead = .ok r' ∧ r'.signature = r.signature ∧
    r'.successful = r.successful ∧ r'.status = r.status ∧
    (r.successful = true →
      ∀ kinds : List ArgumentClass, kinds.map ArgumentClass.type = r.signature.outputParams →
        (kinds.mapM popArgument).run r' = (.ok r.arguments, { r' with arguments := [] }))

/-- What `deserialize` does with the bytes of a response. -/
theorem deserialize_sent (y : YamlCpp) {r : Response} (hvalid : r.signature.isValid = true)
    (payload : List Byte) (overRead : ℕ) : ∃ node, y.IsMap node r.header ∧
      deserialize y.toYamlReader (wire (y.emitted r.header) ++ payload) overRead = (do
        let status ← y.textAt node (txt "status")
        if r.successful = false then return new r.signature false status
        else
          if (blocksOf r.arguments).length ≠ r.signature.outputParams.length then
            throw (invalidBlocks (txt "response") r.signature.outputParams.length
              (blocksOf r.arguments).length)
          else
            let payloadBuffers ← prepareArguments intT r.signature.outputParams
              (blocksOf r.arguments) (payload.take overRead)
            match Scatter.fill payloadBuffers (payload.drop overRead) with
            | none => throw (endOfFile (txt "read"))
            | some arguments =>
              return { signature := r.signature, successful := r.successful, status, arguments,
                       pushed := arguments.length }) := by
  obtain ⟨node, hnode, hmap⟩ := y.load_emitted r.nodup_header
  have hload : y.load (y.emitted r.header) = pure node := hnode
  have hservice : y.textAt node (txt "service") = pure r.signature.signature :=
    hmap.textAt (txt "service") rfl
  have hsuccessful : y.boolAt node (txt "successful") = pure r.successful :=
    hmap.boolAt (txt "successful") rfl
  have hblocks : readBlocks y.toYamlReader node = pure (blocksOf r.arguments) :=
    hmap.readBlocks r.lookup_blocks
  refine ⟨node, hmap, ?_⟩
  generalize hresult :
    deserialize y.toYamlReader (wire (y.emitted r.header) ++ payload) overRead = result
  simp only [deserialize, readUntil_wire (y.zero_not_mem_emitted r.header), take_wire_append,
    drop_wire_append, hload, hservice, hsuccessful, hblocks, pure_bind,
    ServiceSignature.ofText_signature hvalid] at hresult
  exact hresult.symm

/-- Without the `status` field, the client throws. -/
theorem deserialize_of_empty_status (y : YamlCpp) {r : Response}
    (hvalid : r.signature.isValid = true) (hsuccessful : r.successful = true)
    (hstatus : r.status = [])
    (payload : List Byte) (overRead : ℕ) : ∃ e,
      deserialize y.toYamlReader (wire (y.emitted r.header) ++ payload) overRead = .error e := by
  obtain ⟨node, hmap, heq⟩ := deserialize_sent y hvalid payload overRead
  have hnone : r.header.lookup (txt "status") = none := by
    rw [lookup_status, if_neg (by simp [hsuccessful, hstatus])]
  obtain ⟨e, he⟩ := hmap.textAt_error (txt "status") hnone
  exact ⟨e, by rw [heq, he]; rfl⟩

/-- An unsuccessful response arrives without its arguments. -/
theorem deserialize_of_unsuccessful (y : YamlCpp) {r : Response}
    (hvalid : r.signature.isValid = true) (hsuccessful : r.successful = false)
    (payload : List Byte) (overRead : ℕ) :
    deserialize y.toYamlReader (wire (y.emitted r.header) ++ payload) overRead =
      .ok (new r.signature false r.status) := by
  obtain ⟨node, hmap, heq⟩ := deserialize_sent y hvalid payload overRead
  have hstatus := hmap.textAt (txt "status") (t := r.status) (by
    rw [lookup_status, if_pos (.inl hsuccessful)])
  rw [heq, hstatus]
  exact if_pos hsuccessful

/-- A successful response with a status arrives with its arguments. -/
theorem deserialize_of_successful (y : YamlCpp) {r : Response}
    (hvalid : r.signature.isValid = true) (hsuccessful : r.successful = true)
    (hstatus : r.status ≠ []) (htypes : r.arguments.map (·.kind.type) = r.signature.outputParams)
    (hsize : ∀ a ∈ r.arguments, a.data.length < 2 ^ 31) {overRead : ℕ} (hover : overRead < 2 ^ 31) :
    deserialize y.toYamlReader (wire (y.emitted r.header) ++ (r.arguments.map (·.data)).flatten)
      overRead = .ok { r with pushed := r.arguments.length } := by
  obtain ⟨node, hmap, heq⟩ := deserialize_sent y hvalid (r.arguments.map (·.data)).flatten overRead
  have htext := hmap.textAt (txt "status") (t := r.status) (by
    rw [lookup_status, if_pos (.inr hstatus)])
  have hcount : (blocksOf r.arguments).length = r.signature.outputParams.length := by
    rw [← htypes, blocksOf, List.length_map, List.length_map]
  -- the `int` holds every number of bytes that may have been fetched
  have hint : ∀ n ≤ overRead, intT n = n := fun n hn => intT_of_lt (Nat.lt_of_le_of_lt hn hover)
  obtain ⟨payloadBuffers, hprepared, hfill⟩ :=
    (carries_iff_prepareArguments hint hcount).mp (carries_of_sent htypes hsize)
  rw [heq, htext]
  simp only [bind, Except.bind, hsuccessful, Bool.true_eq_false, if_false, hcount, ne_eq, not_true,
    hprepared, hfill]
  rw [← hsuccessful]
  rfl

/-- **Which responses survive the way back**: all but the successful ones with an empty status. -/
theorem roundTrips_iff (y : YamlCpp) {r : Response} (hr : r.Reachable)
    (hvalid : r.signature.isValid = true) {buffers : List (List Byte)}
    (hbuffers : r.getConstBuffers y.toYamlLibrary = .ok buffers)
    (hsize : ∀ a ∈ r.arguments, a.data.length < 2 ^ 31) {overRead : ℕ} (hover : overRead < 2 ^ 31) :
    RoundTrips y.toYamlReader r buffers.flatten overRead ↔
      ¬ (r.successful = true ∧ r.status = []) := by
  rw [getConstBuffers] at hbuffers
  split at hbuffers
  · exact absurd hbuffers (by simp)
  next hcomplete =>
  obtain rfl := Except.ok.inj hbuffers
  rw [List.flatten_cons]
  constructor
  · rintro ⟨r', hr', -⟩ ⟨hsuccessful, hstatus⟩
    obtain ⟨e, he⟩ := deserialize_of_empty_status y hvalid hsuccessful hstatus
      (r.arguments.map (·.data)).flatten overRead
    exact absurd (hr'.symm.trans he) (by simp)
  · intro hnot
    cases hsuccessful : r.successful with
    | false =>
      exact ⟨_, deserialize_of_unsuccessful y hvalid hsuccessful _ _, rfl, hsuccessful.symm, rfl,
        fun h => absurd (hsuccessful.symm.trans h) (by simp)⟩
    | true =>
      have hstatus : r.status ≠ [] := fun h => hnot ⟨hsuccessful, h⟩
      obtain ⟨hpushed, htypes⟩ :=
        hr.aligned.types_eq (Nat.le_of_not_lt fun h => hcomplete ⟨hsuccessful, h⟩)
      have hlen : r.arguments.length = r.signature.outputParams.length := by
        rw [← htypes, List.length_map]
      refine ⟨_, deserialize_of_successful y hvalid hsuccessful hstatus htypes hsize hover, rfl,
        rfl,
        rfl, fun _ kinds hkinds => ?_⟩
      rw [ServiceArgument.eq_map_kind (hkinds.trans htypes.symm)]
      exact run_mapM_popArgument (r := { r with pushed := r.arguments.length }) hlen

end Response

/-! ### Samples -/

/-- Values for `f(in int, in string, out int)`. -/
def sampleValues : List Value := [.int 7, .string (txt "abc")]

/-- The signature of a service. -/
def sampleSignature : ServiceSignature := .ofText (txt "f(in int, in string, out int)")

/-- The implementation of `f(in int, in string, out int)`, which answers with a null pointer. -/
def sampleSkeleton : SkeletonClass :=
  ⟨sampleSignature, fun _ => .ok none⟩

/-- The factory with that implementation. -/
def sampleFactory : FactoryBase (List ServiceArgument) Skeleton :=
  ⟨txt "ServiceSkeleton", [(txt "f(in int, in string, out int)", sampleSkeleton.create)]⟩

/-- A response of that service with an argument. -/
def sampleResponse (status : Text) : Response where
  signature := sampleSignature
  successful := true
  status := status
  arguments := [.ofInt 7]
  pushed := 1

/-- The headers that are sent. -/
def sampleHeaders : List Document :=
  [(Service.ofArguments sampleSignature (sampleValues.map ServiceArgument.ofValue)).header,
    (sampleResponse (txt "OK")).header, (sampleResponse []).header]

/-- A library that writes them as yaml-cpp does. -/
noncomputable def headerYaml : YamlCpp :=
  .ofTexts sampleHeaders (by decide +kernel) (by decide +kernel)

/-- `f` is invoked with the numbers and texts a client sends. -/
theorem request_round_trip_sample : ∃ service buffers,
    (forM (sampleValues.map ServiceArgument.ofValue) Service.pushArgument).run
      (.new sampleSignature) = (.ok (), service) ∧
    service.getConstBuffers headerYaml.toYamlLibrary = .ok buffers ∧
    ∀ c : Connection, c.stream = buffers.flatten → c.Alive →
      ∃ skeleton args,
        (SerializationHelper.served ⟨headerYaml.toYamlLibrary, sampleFactory⟩ c).invocations =
          [(sampleSignature.signature, skeleton)] ∧
        ((sampleValues.map Value.kind).mapM Service.popArgument).run skeleton =
          (.ok args, { skeleton with arguments := [] }) ∧
        args.map ServiceArgument.value = sampleValues :=
  request_round_trip headerYaml sampleFactory sampleSkeleton (by decide +kernel) rfl
    (by
      have hkey : sampleSignature.signature = txt "f(in int, in string, out int)" := by
        decide +kernel
      show sampleFactory.mappings.lookup sampleSignature.signature = _
      rw [hkey]
      rfl)
    (by decide +kernel) (by decide +kernel)

namespace Response

theorem outputParams_sampleSignature : sampleSignature.outputParams = [txt "int"] := by
  decide +kernel

theorem sampleResponse_reachable (status : Text) : (sampleResponse status).Reachable := by
  have hpush := @run_pushArgument (new sampleSignature true status) (.ofInt 7) (by
    show sampleSignature.outputParams[0]? = _
    rw [outputParams_sampleSignature]
    rfl)
  refine ⟨sampleSignature, true, status, [.pushArgument (.ofInt 7)], ?_⟩
  show sampleResponse status =
    ((call (.pushArgument (.ofInt 7))).run (new sampleSignature true status)).2
  rw [call, Throwing.run_map_of_ok hpush]
  rfl

theorem getConstBuffers_sampleResponse (y : YamlLibrary) (status : Text) :
    (sampleResponse status).getConstBuffers y =
      .ok [wire (y.emitted (sampleResponse status).header), htonl 7] := by
  rw [getConstBuffers, if_neg (by simp [sampleResponse, outputParams_sampleSignature])]
  rfl

/-- The response with the status `OK` survives. -/
theorem roundTrips_sample : RoundTrips headerYaml.toYamlReader (sampleResponse (txt "OK"))
      [wire (headerYaml.emitted (sampleResponse (txt "OK")).header), htonl 7].flatten 2 ↔
    ¬ ((sampleResponse (txt "OK")).successful = true ∧ (sampleResponse (txt "OK")).status = []) :=
  roundTrips_iff headerYaml (sampleResponse_reachable _) (by decide +kernel)
    (getConstBuffers_sampleResponse _ _) (by decide +kernel) (by decide)

/-- The response with an empty status does not. -/
theorem not_roundTrips_empty_status : (sampleResponse []).Reachable ∧
    (sampleResponse []).getConstBuffers headerYaml.toYamlLibrary =
      .ok [wire (headerYaml.emitted (sampleResponse []).header), htonl 7] ∧
    ¬ RoundTrips headerYaml.toYamlReader (sampleResponse [])
      [wire (headerYaml.emitted (sampleResponse []).header), htonl 7].flatten 2 := by
  refine ⟨sampleResponse_reachable _, getConstBuffers_sampleResponse _ _, ?_⟩
  rintro ⟨r', hr', -⟩
  obtain ⟨e, he⟩ := deserialize_of_empty_status headerYaml (r := sampleResponse [])
    (by decide +kernel) rfl rfl ([htonl 7]).flatten 2
  exact absurd (hr'.symm.trans he) (by simp)

end Response

end Ssoa
