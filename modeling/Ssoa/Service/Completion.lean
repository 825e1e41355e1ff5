import Ssoa.Service.RoundTrip

/-!
# One response for each connection

`serve` takes the bytes of a connection and lets the reads complete as these bytes allow. Here the
reads complete in any way whatever: `attend` is given an error or some bytes for each, and
`serve_eq_attend` says that `serve` is one case of it.

As long as the peer stays connected, every path through the two handlers writes one response. The
`catch` clauses send a response too, but only after an exception, and nothing throws after a
response has been written.

## Main results

* `SerializationHelper.invokeService_cases` — what invoking a service does
* `SerializationHelper.responses_of_brings` — the response to a request that is there as a whole
* `SerializationHelper.one_response` — one response, successful only if the service said so
-/

namespace Ssoa

open Scatter

/-- How the two reads of a connection complete, each with the message of an error or with bytes:
the header buffer with the number of bytes up to the delimiter, and the bytes from which the payload
buffers are filled. -/
structure Completion where
  header : Except Text (List Byte × ℕ)
  payload : Except Text (List Byte)

/-- The reads of a connection complete as its bytes allow. -/
def Connection.completion (c : Connection) : Completion :=
  match readUntil c.stream c.overRead with
  | none => ⟨.error c.ending, .error c.ending⟩
  | some (headerBuffer, bytesTransferred, stream) =>
    ⟨.ok (headerBuffer, bytesTransferred), .ok stream⟩

namespace SerializationHelper

/-- The payload read, if it has been started, and the handler when it completes. -/
def completePayload (p : ServiceProvider) (c : Connection) (payload : Except Text (List Byte)) :
    Handler Unit :=
  match payload with
  | .error message => do
    let h ← get
    if h.reading then onPayloadReceived p c (some message)
  | .ok stream => readPayload p c stream

/-- `start`: the header read is begun. -/
def start (c : Connection) : Handler Unit := remoteEndpoint c

/-- The handlers as the reads complete. -/
def receive (p : ServiceProvider) (c : Connection) (reads : Completion) : Handler Unit :=
  match reads.header with
  | .error message => onHeaderReceived p c (some message) 0
  | .ok (headerBuffer, bytesTransferred) => do
    modify fun h => { h with headerBuffer }
    onHeaderReceived p c none bytesTransferred
    completePayload p c reads.payload

/-- A connection, from `start` on. -/
def attend (p : ServiceProvider) (c : Connection) (reads : Completion) : Handler Unit := do
  start c
  receive p c reads

variable {p : ServiceProvider} {c : Connection} {reads : Completion}

/-- A connection is attended as its own bytes allow. -/
theorem serve_eq_attend (p : ServiceProvider) (c : Connection) :
    serve p c = attend p c c.completion := by
  unfold serve attend start receive Connection.completion
  cases readUntil c.stream c.overRead <;> rfl

/-! ### What the reads bring -/

/-- The header is accepted, and these buffers are to be filled. -/
def Opens (p : ServiceProvider) (reads : Completion) (signature : ServiceSignature)
    (payloadBuffers : List (Buffer ServiceArgument)) : Prop :=
  ∃ headerBuffer n blocks, reads.header = .ok (headerBuffer, n) ∧
    Accepts p (headerBuffer.take (n - 1)) (headerBuffer.drop n) signature blocks payloadBuffers

/-- The header is for a service that is not installed. -/
def AsksUnavailable (p : ServiceProvider) (reads : Completion) : Prop :=
  ∃ headerBuffer n, reads.header = .ok (headerBuffer, n) ∧
    Unavailable p (headerBuffer.take (n - 1))

/-- The whole request is there. -/
def Brings (p : ServiceProvider) (reads : Completion) (signature : ServiceSignature)
    (args : List ServiceArgument) : Prop :=
  ∃ payloadBuffers stream, Opens p reads signature payloadBuffers ∧
    reads.payload = .ok stream ∧ fill payloadBuffers stream = some args

/-! ### The payload -/

theorem completePayload_of_not_reading {h : SerializationHelper} (hr : h.reading = false)
    (payload : Except Text (List Byte)) : (completePayload p c payload).run h = (.ok (), h) := by
  cases payload with
  | error message => simp [completePayload, hr]
  | ok stream => exact readPayload_of_not_reading hr stream

/-- The payload has been read, or an error is reported. -/
theorem completePayload_cases {h : SerializationHelper} (hr : h.reading = true)
    (payload : Except Text (List Byte)) :
    (∃ stream args, payload = .ok stream ∧ fill h.payloadBuffers stream = some args ∧
      (completePayload p c payload).run h =
        (onPayloadReceived p c none).run { h with payloadBuffers := whole args }) ∨
    (∀ stream args, payload = .ok stream → fill h.payloadBuffers stream ≠ some args) ∧
      ∃ message, (completePayload p c payload).run h =
        (onPayloadReceived p c (some message)).run h := by
  cases payload with
  | error message =>
    exact .inr ⟨fun _ _ h => (by cases h), message, by simp [completePayload, hr]⟩
  | ok stream =>
    cases hfill : fill h.payloadBuffers stream with
    | none =>
      refine .inr ⟨fun stream' args h' => ?_, c.ending, readPayload_of_none hr hfill⟩
      obtain rfl := Except.ok.inj h'
      simp [hfill]
    | some args => exact .inl ⟨stream, args, rfl, hfill, readPayload_of_some hr hfill⟩

/-- The helper when the skeleton has been created and its `invoke()` is called. -/
def invoking (h : SerializationHelper) (impl : Skeleton) : SerializationHelper :=
  { h with events := h.events ++ [.invoke h.signature.signature impl.service] }

/-- Invoking a service: no skeleton is created, or it throws, or it returns a response, which is
sent. -/
theorem invokeService_cases (p : ServiceProvider) (c : Connection) (h : SerializationHelper) :
    (∃ e, p.factory.create h.signature.signature (h.payloadBuffers.map Prod.fst) = .error e ∧
      (invokeService p c).run h = (.error e, h)) ∨
    ∃ impl, p.factory.create h.signature.signature (h.payloadBuffers.map Prod.fst) = .ok impl ∧
      ((∃ e, impl.invoke impl.service = .error e ∧
        (invokeService p c).run h = (.error e, h.invoking impl)) ∨
      ∃ r, impl.invoke impl.service = .ok r ∧
        (invokeService p c).run h = (sendResponse p c r).run (h.invoking impl)) := by
  cases hcreate : p.factory.create h.signature.signature (h.payloadBuffers.map Prod.fst) with
  | error e => exact .inl ⟨e, rfl, by simp [invokeService, Throwing.run_lift_bind, hcreate]⟩
  | ok impl =>
    refine .inr ⟨impl, rfl, ?_⟩
    cases hinvoke : impl.invoke impl.service with
    | error e =>
      exact .inl ⟨e, rfl, by
        simp [invokeService, Throwing.run_lift_bind, hcreate, note, hinvoke, invoking]⟩
    | ok r =>
      exact .inr ⟨r, rfl, by
        simp [invokeService, Throwing.run_lift_bind, hcreate, note, hinvoke, invoking]⟩

/-! ### While the peer stays connected -/

section Alive

variable (halive : c.Alive)
include halive

theorem run_remoteEndpoint_bind (x : Handler Unit) (h : SerializationHelper) :
    (remoteEndpoint c >>= fun _ => x).run h =
      x.run { h with endpointCalls := h.endpointCalls + 1 } := by
  obtain ⟨-, heq⟩ | ⟨e, he, -⟩ := remoteEndpoint_cases c h
  · exact Throwing.run_bind_of_ok heq
  · exact absurd he halive.ne_some

/-- An unsuccessful response is written. -/
theorem run_sendFailure (message : Text) (h : SerializationHelper) :
    ∃ r t, r.successful = false ∧ (sendFailure p c message).run h = (.ok (), t) ∧
      t.reading = h.reading ∧ t.responses = h.responses ++ [r] := by
  obtain ⟨r, hr, ⟨buffers, heq⟩ | ⟨e, he, -⟩⟩ := sendFailure_cases p c message h
  · exact ⟨r, _, hr, heq, rfl, by simp [responses, Event.response]⟩
  · exact absurd he halive.ne_some

/-- A header that is not accepted is answered. -/
theorem run_onHeaderReceived_of_not_accepts {h : SerializationHelper} {n : ℕ}
    (hacc : ∀ signature blocks payloadBuffers, ¬ Accepts p (h.headerBuffer.take (n - 1))
      (h.headerBuffer.drop n) signature blocks payloadBuffers) :
    ∃ r t, r.successful = false ∧ (onHeaderReceived p c none n).run h = (.ok (), t) ∧
      t.reading = h.reading ∧ t.responses = h.responses ++ [r] := by
  rw [onHeaderReceived, run_remoteEndpoint_bind halive]
  obtain ⟨t, hrun, hreading, hrefused⟩ | ⟨e, t, hrun, hquiet⟩ :=
    receiveHeader_of_not_accepts (p := p) (c := c) (n := n)
      (h := { h with endpointCalls := h.endpointCalls + 1 }) hacc
  · obtain ⟨r, hr, hresponses⟩ | ⟨-, m, hm⟩ := hrefused.responses
    · exact ⟨r, t, hr, Throwing.run_tryCatch_of_ok hrun, hreading, hresponses⟩
    · exact absurd (halive m) hm
  · obtain ⟨r, u, hr, hrun', hreading, hresponses⟩ := run_sendFailure (p := p) halive e.what t
    refine ⟨r, u, hr, (Throwing.run_tryCatch_of_error hrun).trans hrun',
      hreading.trans hquiet.reading, ?_⟩
    rw [hresponses, responses, hquiet.events]
    rfl

/-- The service is invoked and its response written, or an unsuccessful one. -/
theorem run_onPayloadReceived (h : SerializationHelper) :
    ∃ r t, (onPayloadReceived p c none).run h = (.ok (), t) ∧ t.responses = h.responses ++ [r] ∧
      (r.successful = true → ∃ impl buffers,
        p.factory.create h.signature.signature (h.payloadBuffers.map Prod.fst) = .ok impl ∧
        impl.invoke impl.service = .ok (some r) ∧ r.getConstBuffers p.yaml = .ok buffers ∧
        t.events = h.events ++
          [.invoke h.signature.signature impl.service, .write r buffers]) := by
  rw [onPayloadReceived, run_remoteEndpoint_bind halive, run_remoteEndpoint_bind halive]
  -- after an exception, with nothing written
  have hcatch : ∀ (e : Exn) (u : SerializationHelper), u.responses = h.responses → ∃ r t,
      r.successful = false ∧
      (sendFailure p c (txt "Internal server error: " ++ e.what)).run u = (.ok (), t) ∧
      t.responses = h.responses ++ [r] := by
    intro e u hu
    obtain ⟨r, t, hr, hrun, -, hresponses⟩ := run_sendFailure (p := p) halive
      (txt "Internal server error: " ++ e.what) u
    exact ⟨r, t, hr, hrun, hu ▸ hresponses⟩
  have hinvoking : ∀ (impl : Skeleton) (u : SerializationHelper),
      (u.invoking impl).responses = u.responses := fun impl u => by
    simp [invoking, responses, Event.response]
  set u : SerializationHelper := { h with endpointCalls := h.endpointCalls + 1 + 1 } with hu
  obtain ⟨e, -, hrun⟩ | ⟨impl, hcreate, ⟨e, -, hrun⟩ | ⟨r, hinvoke, hrun⟩⟩ :=
    invokeService_cases p c u
  · obtain ⟨r, t, hr, hfail, hresponses⟩ := hcatch e u rfl
    exact ⟨r, t, (Throwing.run_tryCatch_of_error hrun).trans hfail, hresponses, by simp [hr]⟩
  · obtain ⟨r, t, hr, hfail, hresponses⟩ := hcatch e _ (hinvoking impl u)
    exact ⟨r, t, (Throwing.run_tryCatch_of_error hrun).trans hfail, hresponses, by simp [hr]⟩
  · obtain ⟨r', hr', ⟨buffers, hbuffers, hsend⟩ | ⟨e, -, hsend⟩⟩ :=
      sendResponse_cases p c r (u.invoking impl)
    · refine ⟨r', _, Throwing.run_tryCatch_of_ok (hrun.trans hsend), ?_, fun hsuccessful => ?_⟩
      · simp [responses, Event.response, invoking, hu, List.filterMap_cons]
      · refine ⟨impl, buffers, hcreate, ?_, hbuffers, by simp [invoking, hu]⟩
        -- a null response is replaced by an unsuccessful one
        cases r with
        | none =>
          rw [hr'] at hsuccessful
          cases hsuccessful
        | some r => rw [hinvoke, hr', Option.getD_some]
    · obtain ⟨r, t, hr, hfail, hresponses⟩ :=
        hcatch e ((u.invoking impl).sending r') (hinvoking impl u)
      exact ⟨r, t, (Throwing.run_tryCatch_of_error (hrun.trans hsend)).trans hfail, hresponses,
        by simp [hr]⟩

end Alive

/-- **One response for each connection**, however its reads complete and whatever the service does.
It is successful only if `invoke()` was called with the arguments of this request and returned this
response, with every output argument pushed. -/
theorem one_response (p : ServiceProvider) (c : Connection) (halive : c.Alive)
    (reads : Completion) :
    ∃ h r, (attend p c reads).run {} = (.ok (), h) ∧ h.responses = [r] ∧
      (r.successful = true → ∃ signature args impl buffers, Brings p reads signature args ∧
        p.factory.create signature.signature args = .ok impl ∧
        impl.invoke impl.service = .ok (some r) ∧
        h.events = [.invoke signature.signature impl.service, .write r buffers] ∧
        r.signature.outputParams.length ≤ r.arguments.length ∧
        (r.Reachable → r.pushed = r.signature.outputParams.length)) := by
  rw [attend, start, run_remoteEndpoint_bind halive, receive]
  cases hheader : reads.header with
  | error message =>
    dsimp only
    rw [onHeaderReceived, run_remoteEndpoint_bind halive]
    obtain ⟨r, t, hr, hrun, -, hresponses⟩ := run_sendFailure (p := p) halive
      (txt "Cannot receive header: " ++ message) { endpointCalls := 0 + 1 + 1 }
    exact ⟨t, r, hrun, hresponses, by simp [hr]⟩
  | ok received =>
    obtain ⟨headerBuffer, n⟩ := received
    rw [Throwing.run_modify_bind]
    set u : SerializationHelper := { headerBuffer, endpointCalls := 0 + 1 } with hu
    by_cases hacc : ∃ signature blocks payloadBuffers, Accepts p (headerBuffer.take (n - 1))
        (headerBuffer.drop n) signature blocks payloadBuffers
    · obtain ⟨signature, blocks, payloadBuffers, hacc⟩ := hacc
      obtain ⟨-, hrun⟩ | ⟨e, he, -⟩ := onHeaderReceived_of_accepts (c := c) (h := u) hacc
      · rw [Throwing.run_bind_of_ok hrun]
        obtain ⟨stream, args, hpayload, hfill, heq⟩ | ⟨-, message, heq⟩ :=
          completePayload_cases (p := p) (c := c) (h := { u with
            signature, payloadBuffers, reading := true, endpointCalls := u.endpointCalls + 1 })
            rfl reads.payload
        · rw [heq]
          obtain ⟨r, t, hrun', hresponses, hsuccessful⟩ := run_onPayloadReceived halive _
          refine ⟨t, r, hrun', hresponses, fun hr => ?_⟩
          obtain ⟨impl, buffers, hcreate, hinvoke, hbuffers, hevents⟩ := hsuccessful hr
          have hlen := Response.length_le_of_getConstBuffers hbuffers hr
          rw [map_fst_whole] at hcreate
          exact ⟨signature, args, impl, buffers,
            ⟨payloadBuffers, stream, ⟨headerBuffer, n, blocks, hheader, hacc⟩, hpayload, hfill⟩,
            hcreate, hinvoke, hevents, hlen, fun h => h.pushed_eq hlen⟩
        · rw [heq, onPayloadReceived, run_remoteEndpoint_bind halive]
          obtain ⟨r, t, hr, hrun', -, hresponses⟩ := run_sendFailure (p := p) halive
            (txt "Cannot receive payload: " ++ message) _
          exact ⟨t, r, hrun', hresponses, by simp [hr]⟩
      · exact absurd he halive.ne_some
    · obtain ⟨r, t, hr, hrun, hreading, hresponses⟩ :=
        run_onHeaderReceived_of_not_accepts (p := p) (h := u) halive
          fun signature blocks payloadBuffers h => hacc ⟨signature, blocks, payloadBuffers, h⟩
      refine ⟨t, r, ?_, hresponses, by simp [hr]⟩
      rw [Throwing.run_bind_of_ok hrun, completePayload_of_not_reading hreading]

/-- **The response of the service is written**, if the whole request is there and the response is
complete. -/
theorem responses_of_brings (halive : c.Alive) {signature : ServiceSignature}
    {args : List ServiceArgument} (h : Brings p reads signature args) {impl : Skeleton}
    (hcreate : p.factory.create signature.signature args = .ok impl) {r : Response}
    (hinvoke : impl.invoke impl.service = .ok (some r)) {buffers : List (List Byte)}
    (hbuffers : r.getConstBuffers p.yaml = .ok buffers) :
    ((attend p c reads).run {}).2.responses = [r] := by
  obtain ⟨payloadBuffers, stream, ⟨headerBuffer, n, blocks, hheader, hacc⟩, hpayload, hfill⟩ := h
  rw [attend, start, run_remoteEndpoint_bind halive, receive, hheader]
  dsimp only
  rw [Throwing.run_modify_bind]
  obtain ⟨-, hrun⟩ | ⟨e, he, -⟩ := onHeaderReceived_of_accepts (c := c)
    (h := { headerBuffer, endpointCalls := 0 + 1 }) hacc
  · rw [Throwing.run_bind_of_ok hrun, hpayload, completePayload, readPayload_of_some rfl hfill,
      onPayloadReceived, run_remoteEndpoint_bind halive, run_remoteEndpoint_bind halive]
    dsimp only
    set u : SerializationHelper :=
      { headerBuffer, signature, payloadBuffers := whole args, reading := true, endpointCalls := _ }
    obtain ⟨e, hcreate', -⟩ | ⟨impl', hcreate', hcases⟩ := invokeService_cases p c u
    all_goals rw [map_fst_whole] at hcreate'
    · cases hcreate.symm.trans hcreate'
    obtain rfl := Except.ok.inj (hcreate.symm.trans hcreate')
    obtain ⟨e, hinvoke', -⟩ | ⟨r', hinvoke', hrun'⟩ := hcases
    · cases hinvoke.symm.trans hinvoke'
    obtain rfl := Except.ok.inj (hinvoke.symm.trans hinvoke')
    obtain ⟨_, rfl, ⟨_, -, hsend⟩ | ⟨e, he | he, -⟩⟩ :=
      sendResponse_cases p c (some r) (u.invoking impl)
    · rw [Throwing.run_tryCatch_of_ok (hrun'.trans hsend)]
      simp [responses, Event.response, invoking, u, List.filterMap_cons]
    · exact absurd he halive.ne_some
    · cases hbuffers.symm.trans he
  · exact absurd he halive.ne_some

/-- Bytes that decode bring the request. -/
theorem brings_of_decodes {signature : ServiceSignature} {blocks : List (BitVec 32)}
    {args : List ServiceArgument} (h : Decodes p c.stream signature blocks args) :
    Brings p c.completion signature args := by
  obtain ⟨payloadBuffers, hacc, hfill⟩ := (decodes_iff h.terminated c.overRead).mp h
  have hcompletion : c.completion = ⟨.ok (wire (cstr c.stream) ++
      (payloadOf c.stream).take c.overRead, (cstr c.stream).length + 1),
        .ok ((payloadOf c.stream).drop c.overRead)⟩ := by
    rw [Connection.completion, readUntil_of_mem h.terminated]
  rw [hcompletion]
  refine ⟨payloadBuffers, _, ⟨_, _, blocks, rfl, ?_⟩, rfl, hfill⟩
  rwa [take_wire_append, drop_wire_append]

/-- An implementation of `f(in int, in string, out int)` that answers with 7. -/
def answeringSkeleton : SkeletonClass :=
  ⟨sampleSignature, fun _ => .ok (some (sampleResponse (txt "OK")))⟩

/-- A provider with that implementation. -/
noncomputable def answeringProvider : ServiceProvider :=
  ⟨headerYaml.toYamlLibrary, txt "ServiceSkeleton",
    [(txt "f(in int, in string, out int)", answeringSkeleton.create)]⟩

/-- A request for `f`, the first four bytes of whose payload come with the header. -/
noncomputable def sampleConnection : Connection where
  stream := wire (headerYaml.emitted (Service.ofArguments sampleSignature
      (sampleValues.map ServiceArgument.ofValue)).header) ++
    ((sampleValues.map ServiceArgument.ofValue).map (·.data)).flatten
  overRead := 4

/-- The service returns a response with its argument, and this response is written. -/
theorem one_response_sample : sampleConnection.Alive ∧
    ∃ h r, (attend answeringProvider sampleConnection sampleConnection.completion).run {} =
        (.ok (), h) ∧ h.responses = [r] ∧ r = sampleResponse (txt "OK") ∧
      ∃ signature args impl buffers,
        Brings answeringProvider sampleConnection.completion signature args ∧
        answeringProvider.factory.create signature.signature args = .ok impl ∧
        impl.invoke impl.service = .ok (some r) ∧
        h.events = [.invoke signature.signature impl.service, .write r buffers] ∧
        r.signature.outputParams.length ≤ r.arguments.length ∧
        (r.Reachable → r.pushed = r.signature.outputParams.length) := by
  have halive : sampleConnection.Alive := fun _ => rfl
  have hlookup : answeringProvider.factory.mappings.lookup sampleSignature.signature =
      some answeringSkeleton.create := by
    rw [show sampleSignature.signature = txt "f(in int, in string, out int)" by decide +kernel]
    rfl
  have hdecodes := decodes_of_sent headerYaml (p := answeringProvider) rfl
    (by decide +kernel : sampleSignature.isValid = true)
    (FactoryBase.contains_of_lookup hlookup)
    (by decide +kernel : (sampleValues.map ServiceArgument.ofValue).map (·.kind.type) =
      sampleSignature.inputParams) (by decide +kernel)
  have hwritten := responses_of_brings halive
    (brings_of_decodes (c := sampleConnection) hdecodes)
    (FactoryBase.create_of_lookup hlookup _) (r := sampleResponse (txt "OK")) rfl
    (Response.getConstBuffers_sampleResponse _ _)
  obtain ⟨h, r, hrun, hresponses, hsuccessful⟩ :=
    one_response answeringProvider sampleConnection halive sampleConnection.completion
  rw [hrun, hresponses] at hwritten
  obtain rfl := List.head_eq_of_cons_eq hwritten
  exact ⟨halive, h, _, hrun, hresponses, rfl, hsuccessful rfl⟩

end SerializationHelper

end Ssoa
