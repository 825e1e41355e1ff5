import Ssoa.Service.Skeleton
import Ssoa.Signature.Canonical

/-!
# Dispatching requests

What becomes of a connection is decided by what its bytes decode to (`Decodes`): a header with an
installed service and a block for each parameter, and a payload that carries arguments of those
types and sizes. How many bytes were fetched with the header does not enter. If the bytes decode to
something, that service is invoked with those arguments; if not, nothing is invoked and an
unsuccessful response is sent (`Refused`).

## Main results

* `SerializationHelper.serve_of_decodes`, `SerializationHelper.serve_refused` — the two cases
* `SerializationHelper.dispatch_type_safe` — dispatch is type safe on arbitrary input
-/

namespace Ssoa

open Scatter

/-- The header is for this service. -/
def RequestedService (y : YamlReader) (header : Text) (signature : ServiceSignature) : Prop :=
  ∃ node service, y.load header = .ok node ∧ y.textAt node (txt "service") = .ok service ∧
    signature = .ofText service

/-- The header is for this service, with blocks of these sizes. -/
def RequestHeader (y : YamlReader) (header : Text) (signature : ServiceSignature)
    (blocks : List (BitVec 32)) : Prop :=
  ∃ node service, y.load header = .ok node ∧ y.textAt node (txt "service") = .ok service ∧
    signature = .ofText service ∧ readBlocks y node = .ok blocks

theorem RequestHeader.requested {y : YamlReader} {header : Text} {signature : ServiceSignature}
    {blocks : List (BitVec 32)} (h : RequestHeader y header signature blocks) :
    RequestedService y header signature := by
  obtain ⟨node, service, hload, hservice, rfl, -⟩ := h
  exact ⟨node, service, hload, hservice, rfl⟩

/-- A header requests one service. -/
theorem RequestedService.unique {y : YamlReader} {header : Text} {a b : ServiceSignature}
    (h : RequestedService y header a) (h' : RequestedService y header b) : a = b := by
  obtain ⟨node, service, hload, hservice, rfl⟩ := h
  obtain ⟨node', service', hload', hservice', rfl⟩ := h'
  obtain rfl := Except.ok.inj (hload.symm.trans hload')
  obtain rfl := Except.ok.inj (hservice.symm.trans hservice')
  rfl

/-- A header announces one list of blocks. -/
theorem RequestHeader.blocks_eq {y : YamlReader} {header : Text} {a b : ServiceSignature}
    {blocks blocks' : List (BitVec 32)} (h : RequestHeader y header a blocks)
    (h' : RequestHeader y header b blocks') : blocks = blocks' := by
  obtain ⟨node, _, hload, _, _, hblocks⟩ := h
  obtain ⟨node', _, hload', _, _, hblocks'⟩ := h'
  obtain rfl := Except.ok.inj (hload.symm.trans hload')
  exact Except.ok.inj (hblocks.symm.trans hblocks')

/-- The bytes are a request with the arguments `args` for the installed service `signature`. -/
structure Decodes (p : ServiceProvider) (stream : List Byte) (signature : ServiceSignature)
    (blocks : List (BitVec 32)) (args : List ServiceArgument) : Prop where
  terminated : 0 ∈ stream
  header : RequestHeader p.yaml.toYamlReader (cstr stream) signature blocks
  installed : p.factory.contains signature.signature = true
  count : blocks.length = signature.inputParams.length
  payload : Carries signature.inputParams blocks (payloadOf stream) args

namespace SerializationHelper

variable {p : ServiceProvider} {c : Connection}

/-- Between two states of the helper nothing was invoked, and one unsuccessful response was
written, unless the peer was gone. -/
def Refused (c : Connection) (h h' : SerializationHelper) : Prop :=
  (∃ r buffers, r.successful = false ∧ h'.events = h.events ++ [.write r buffers]) ∨
    (h'.events = h.events ∧ ∃ n, c.endpoint n ≠ none)

/-- Nothing can be observed between two states, and the payload was not asked for. -/
structure Quiet (h h' : SerializationHelper) : Prop where
  reading : h'.reading = h.reading
  events : h'.events = h.events

theorem Refused.of_quiet {h t u : SerializationHelper} (hq : Quiet h t) (hr : Refused c t u) :
    Refused c h u := by
  rwa [Refused, hq.events] at hr

theorem refused_of_gone {h t : SerializationHelper} (hq : Quiet h t) {n : ℕ} {e : Exn}
    (he : c.endpoint n = some e) : Refused c h t :=
  .inr ⟨hq.events, n, by simp [he]⟩

theorem sendFailure_refused (p : ServiceProvider) (c : Connection) (message : Text)
    (h : SerializationHelper) : Refused c h ((sendFailure p c message).run h).2 := by
  obtain ⟨r, hr, ⟨buffers, heq⟩ | ⟨e, he, heq⟩⟩ := sendFailure_cases p c message h
  · rw [heq]
    exact .inl ⟨r, buffers, hr, rfl⟩
  · rw [heq]
    exact refused_of_gone ⟨rfl, rfl⟩ he

theorem sendFailure_reading (p : ServiceProvider) (c : Connection) (message : Text)
    (h : SerializationHelper) : ((sendFailure p c message).run h).2.reading = h.reading := by
  obtain ⟨r, -, ⟨buffers, heq⟩ | ⟨e, -, heq⟩⟩ := sendFailure_cases p c message h <;>
    rw [heq] <;> rfl

theorem remoteEndpoint_refused {x : Handler Unit} {h : SerializationHelper}
    (hx : ∀ t, t = { h with endpointCalls := t.endpointCalls } → Refused c t (x.run t).2) :
    Refused c h ((remoteEndpoint c >>= fun _ => x).run h).2 := by
  rcases remoteEndpoint_cases c h with ⟨-, heq⟩ | ⟨e, he, heq⟩
  · rw [Throwing.run_bind_of_ok heq]
    exact .of_quiet (t := { h with endpointCalls := h.endpointCalls + 1 }) ⟨rfl, rfl⟩ (hx _ rfl)
  · rw [Throwing.run_bind_of_error heq]
    exact refused_of_gone ⟨rfl, rfl⟩ he

/-! ### The header -/

/-- What the `try` block of `onHeaderReceived` asks of a header and the bytes fetched after it. -/
structure Accepts (p : ServiceProvider) (header fetched : List Byte) (signature : ServiceSignature)
    (blocks : List (BitVec 32)) (payloadBuffers : List (Buffer ServiceArgument)) : Prop where
  header : RequestHeader p.yaml.toYamlReader header signature blocks
  installed : p.factory.contains signature.signature = true
  count : blocks.length = signature.inputParams.length
  prepared : prepareArguments sizeT signature.inputParams blocks fetched = .ok payloadBuffers

theorem receiveHeader_of_accepts {h : SerializationHelper} {n : ℕ} {signature : ServiceSignature}
    {blocks : List (BitVec 32)} {payloadBuffers : List (Buffer ServiceArgument)}
    (hacc : Accepts p (h.headerBuffer.take (n - 1)) (h.headerBuffer.drop n) signature blocks
      payloadBuffers) : (receiveHeader p c n).run h =
        (.ok (), { h with signature, payloadBuffers, reading := true }) := by
  obtain ⟨⟨node, service, hload, hservice, rfl, hblocks⟩, hinst, hcount, hprepared⟩ := hacc
  simp only [receiveHeader, Throwing.run_get_bind, Throwing.run_lift_bind, Throwing.run_set_bind,
    hload, hservice, hinst, hblocks, hcount, hprepared, Bool.true_eq_false, if_false, ne_eq,
    not_true, Throwing.run_set]

/-- The header is for a service that is not installed. -/
def Unavailable (p : ServiceProvider) (header : Text) : Prop :=
  ∃ signature, RequestedService p.yaml.toYamlReader header signature ∧
    p.factory.contains signature.signature = false

/-- A header is accepted, or the service is not installed, or an exception is thrown. -/
theorem receiveHeader_cases (p : ServiceProvider) (c : Connection) (n : ℕ)
    (h : SerializationHelper) :
    (∃ signature blocks payloadBuffers, Accepts p (h.headerBuffer.take (n - 1))
      (h.headerBuffer.drop n) signature blocks payloadBuffers) ∨
    (Unavailable p (h.headerBuffer.take (n - 1)) ∧ ∃ signature, (receiveHeader p c n).run h =
      (sendFailure p c (txt "Service not available.")).run { h with signature }) ∨
    (¬ Unavailable p (h.headerBuffer.take (n - 1)) ∧
      ∃ e signature, (receiveHeader p c n).run h = (.error e, { h with signature })) := by
  cases hload : p.yaml.load (h.headerBuffer.take (n - 1)) with
  | error e =>
    refine .inr (.inr ⟨?_, e, h.signature, by simp [receiveHeader, Throwing.run_lift_bind, hload]⟩)
    rintro ⟨_, ⟨node, service, hload', -⟩, -⟩
    rw [hload] at hload'
    cases hload'
  | ok node =>
  cases hservice : p.yaml.textAt node (txt "service") with
  | error e =>
    refine .inr (.inr ⟨?_, e, h.signature,
      by simp [receiveHeader, Throwing.run_lift_bind, hload, hservice]⟩)
    rintro ⟨_, ⟨node', service, hload', hservice', -⟩, -⟩
    obtain rfl := Except.ok.inj (hload.symm.trans hload')
    rw [hservice] at hservice'
    cases hservice'
  | ok service =>
  have hrequested : RequestedService p.yaml.toYamlReader (h.headerBuffer.take (n - 1))
      (.ofText service) := ⟨node, service, hload, hservice, rfl⟩
  cases hinst : p.factory.contains (ServiceSignature.ofText service).signature with
  | false =>
    exact .inr (.inl ⟨⟨_, hrequested, hinst⟩, .ofText service,
      by simp [receiveHeader, Throwing.run_lift_bind, hload, hservice, hinst]⟩)
  | true =>
  have havailable : ¬ Unavailable p (h.headerBuffer.take (n - 1)) := by
    rintro ⟨signature, hsignature, habsent⟩
    obtain rfl := hrequested.unique hsignature
    rw [hinst] at habsent
    cases habsent
  cases hblocks : readBlocks p.yaml.toYamlReader node with
  | error e =>
    exact .inr (.inr ⟨havailable, e, .ofText service,
      by simp [receiveHeader, Throwing.run_lift_bind, hload, hservice, hinst, hblocks]⟩)
  | ok blocks =>
  by_cases hcount : blocks.length = (ServiceSignature.ofText service).inputParams.length
  · cases hprepared : prepareArguments sizeT (ServiceSignature.ofText service).inputParams blocks
        (h.headerBuffer.drop n) with
    | error e =>
      exact .inr (.inr ⟨havailable, e, .ofText service, by
        simp [receiveHeader, Throwing.run_lift_bind, hload, hservice, hinst, hblocks, hcount,
          hprepared]⟩)
    | ok payloadBuffers =>
      exact .inl ⟨_, _, _,
        ⟨node, service, hload, hservice, rfl, hblocks⟩, hinst, hcount, hprepared⟩
  · exact .inr (.inr ⟨havailable, _, .ofText service, by
      simp [receiveHeader, Throwing.run_lift_bind, hload, hservice, hinst, hblocks, hcount]; rfl⟩)

/-- A header that is not accepted: either the response has been sent, or an exception leaves the
`try` block. -/
theorem receiveHeader_of_not_accepts {h : SerializationHelper} {n : ℕ}
    (hacc : ∀ signature blocks payloadBuffers, ¬ Accepts p (h.headerBuffer.take (n - 1))
      (h.headerBuffer.drop n) signature blocks payloadBuffers) :
    (∃ t, (receiveHeader p c n).run h = (.ok (), t) ∧ t.reading = h.reading ∧ Refused c h t) ∨
    ∃ e t, (receiveHeader p c n).run h = (.error e, t) ∧ Quiet h t := by
  obtain ⟨signature, blocks, payloadBuffers, h⟩ | ⟨-, signature, heq⟩ | ⟨-, e, signature, heq⟩ :=
    receiveHeader_cases p c n h
  · exact absurd h (hacc signature blocks payloadBuffers)
  · rw [heq]
    obtain ⟨r, hr, ⟨buffers, hrun⟩ | ⟨e, -, hrun⟩⟩ := sendFailure_cases p c
      (txt "Service not available.") { h with signature }
    · exact .inl ⟨_, hrun, rfl, .inl ⟨r, buffers, hr, rfl⟩⟩
    · exact .inr ⟨e, _, hrun, rfl, rfl⟩
  · exact .inr ⟨e, _, heq, rfl, rfl⟩

theorem onHeaderReceived_refused {h : SerializationHelper} {n : ℕ}
    (hacc : ∀ signature blocks payloadBuffers, ¬ Accepts p (h.headerBuffer.take (n - 1))
      (h.headerBuffer.drop n) signature blocks payloadBuffers) :
    Refused c h ((onHeaderReceived p c none n).run h).2 := by
  refine remoteEndpoint_refused fun t ht => ?_
  have hbuffer : t.headerBuffer = h.headerBuffer := by rw [ht]
  rw [← hbuffer] at hacc
  obtain ⟨u, hrun, -, hrefused⟩ | ⟨e, u, hrun, hquiet⟩ := receiveHeader_of_not_accepts (c := c) hacc
  · rw [Throwing.run_tryCatch_of_ok hrun]
    exact hrefused
  · rw [Throwing.run_tryCatch_of_error hrun]
    exact (sendFailure_refused p c e.what u).of_quiet hquiet

theorem onHeaderReceived_reading {h : SerializationHelper} {n : ℕ}
    (hacc : ∀ signature blocks payloadBuffers, ¬ Accepts p (h.headerBuffer.take (n - 1))
      (h.headerBuffer.drop n) signature blocks payloadBuffers) :
    ((onHeaderReceived p c none n).run h).2.reading = h.reading := by
  show ((remoteEndpoint c >>= fun _ => _).run h).2.reading = h.reading
  rcases remoteEndpoint_cases c h with ⟨-, heq⟩ | ⟨e, -, heq⟩
  · rw [Throwing.run_bind_of_ok heq]
    obtain ⟨u, hrun, hreading, -⟩ | ⟨e, u, hrun, hquiet⟩ :=
      receiveHeader_of_not_accepts (p := p) (c := c) (n := n)
        (h := { h with endpointCalls := h.endpointCalls + 1 }) hacc
    · rw [Throwing.run_tryCatch_of_ok hrun]
      exact hreading
    · rw [Throwing.run_tryCatch_of_error hrun]
      exact (sendFailure_reading p c e.what u).trans hquiet.reading
  · rw [Throwing.run_bind_of_error heq]

theorem onHeaderReceived_of_accepts {h : SerializationHelper} {n : ℕ}
    {signature : ServiceSignature} {blocks : List (BitVec 32)}
    {payloadBuffers : List (Buffer ServiceArgument)}
    (hacc : Accepts p (h.headerBuffer.take (n - 1)) (h.headerBuffer.drop n) signature blocks
      payloadBuffers) :
    (c.endpoint h.endpointCalls = none ∧ (onHeaderReceived p c none n).run h = (.ok (), { h with
      signature, payloadBuffers, reading := true, endpointCalls := h.endpointCalls + 1 })) ∨
    ∃ e, c.endpoint h.endpointCalls = some e ∧ (onHeaderReceived p c none n).run h =
      (.error e, { h with endpointCalls := h.endpointCalls + 1 }) := by
  rcases remoteEndpoint_cases c h with ⟨halive, heq⟩ | ⟨e, he, heq⟩
  · refine .inl ⟨halive, (Throwing.run_bind_of_ok heq).trans (Throwing.run_tryCatch_of_ok ?_)⟩
    exact receiveHeader_of_accepts (h := { h with endpointCalls := h.endpointCalls + 1 }) hacc
  · exact .inr ⟨e, he, Throwing.run_bind_of_error heq⟩

/-- The header read has failed, or the payload read. -/
theorem onHeaderReceived_error_refused (message : Text) (n : ℕ) (h : SerializationHelper) :
    Refused c h ((onHeaderReceived p c (some message) n).run h).2 :=
  remoteEndpoint_refused fun _ _ => sendFailure_refused ..

theorem onPayloadReceived_error_refused (message : Text) (h : SerializationHelper) :
    Refused c h ((onPayloadReceived p c (some message)).run h).2 :=
  remoteEndpoint_refused fun _ _ => sendFailure_refused ..

/-! ### The payload -/

/-- The bytes decode if the header is accepted and the rest of the stream fills the buffers. -/
theorem decodes_iff {stream : List Byte} (h : 0 ∈ stream) (overRead : ℕ)
    {signature : ServiceSignature} {blocks : List (BitVec 32)} {args : List ServiceArgument} :
    Decodes p stream signature blocks args ↔ ∃ payloadBuffers,
      Accepts p (cstr stream) ((payloadOf stream).take overRead) signature blocks payloadBuffers ∧
      fill payloadBuffers ((payloadOf stream).drop overRead) = some args := by
  have hsize : ∀ n ≤ overRead, sizeT n = n := fun _ _ => rfl
  constructor
  · rintro ⟨-, hheader, hinst, hcount, hpayload⟩
    obtain ⟨payloadBuffers, hprepared, hfill⟩ :=
      (carries_iff_prepareArguments hsize hcount).mp hpayload
    exact ⟨payloadBuffers, ⟨hheader, hinst, hcount, hprepared⟩, hfill⟩
  · rintro ⟨payloadBuffers, ⟨hheader, hinst, hcount, hprepared⟩, hfill⟩
    exact ⟨h, hheader, hinst, hcount, (carries_iff_prepareArguments hsize hcount).mpr
      ⟨payloadBuffers, hprepared, hfill⟩⟩

/-- What is invoked for these arguments. -/
def created (p : ServiceProvider) (signature : ServiceSignature) (args : List ServiceArgument) :
    List (Text × Service) :=
  match p.factory.create signature.signature args with
  | .ok impl => [(signature.signature, impl.service)]
  | .error _ => []

theorem invocations_sendResponse (r : Option Response) (h : SerializationHelper) :
    ((sendResponse p c r).run h).2.invocations = h.invocations := by
  obtain ⟨r', -, ⟨buffers, -, heq⟩ | ⟨e, -, heq⟩⟩ := sendResponse_cases p c r h <;> rw [heq]
  · simp [invocations, Event.invocation]
  · rfl

theorem Refused.invocations {h h' : SerializationHelper} (hr : Refused c h h') :
    h'.invocations = h.invocations := by
  rcases hr with ⟨r, buffers, -, heq⟩ | ⟨heq, -⟩
  · simp [SerializationHelper.invocations, heq, Event.invocation]
  · simp [SerializationHelper.invocations, heq]

theorem invocations_invokeService {h : SerializationHelper} :
    ((invokeService p c).run h).2.invocations =
      h.invocations ++ created p h.signature (h.payloadBuffers.map Prod.fst) := by
  cases hcreate : p.factory.create h.signature.signature (h.payloadBuffers.map Prod.fst) with
  | error e => simp [invokeService, Throwing.run_lift_bind, created, hcreate]
  | ok impl =>
    simp only [invokeService, Throwing.run_get_bind, Throwing.run_lift_bind, hcreate, note,
      Throwing.run_modify_bind, created]
    cases hinvoke : impl.invoke impl.service with
    | error e => simp [invocations, Event.invocation]
    | ok r =>
      simp only [invocations_sendResponse]
      simp [invocations, Event.invocation]

theorem invocations_onPayloadReceived (h : SerializationHelper) :
    (((onPayloadReceived p c none).run h).2.invocations = h.invocations ∧
      ∃ n, c.endpoint n ≠ none) ∨
    ((onPayloadReceived p c none).run h).2.invocations =
      h.invocations ++ created p h.signature (h.payloadBuffers.map Prod.fst) := by
  show (((remoteEndpoint c >>= fun _ => remoteEndpoint c >>= fun _ => _).run h).2.invocations = _ ∧
    _) ∨ ((remoteEndpoint c >>= fun _ => remoteEndpoint c >>= fun _ => _).run h).2.invocations = _
  rcases remoteEndpoint_cases c h with ⟨-, heq⟩ | ⟨e, he, heq⟩
  · rw [Throwing.run_bind_of_ok heq]
    rcases remoteEndpoint_cases c { h with endpointCalls := h.endpointCalls + 1 } with
      ⟨-, heq'⟩ | ⟨e, he, heq'⟩
    · rw [Throwing.run_bind_of_ok heq']
      refine .inr ?_
      have hinvoke := invocations_invokeService (p := p) (c := c)
        (h := { h with endpointCalls := h.endpointCalls + 1 + 1 })
      rcases hrun : (invokeService p c).run
        { h with endpointCalls := h.endpointCalls + 1 + 1 } with ⟨e | _, t⟩
      · rw [Throwing.run_tryCatch_of_error hrun, (sendFailure_refused ..).invocations]
        rw [hrun] at hinvoke
        exact hinvoke
      · rw [Throwing.run_tryCatch_of_ok hrun]
        rw [hrun] at hinvoke
        exact hinvoke
    · rw [Throwing.run_bind_of_error heq']
      exact .inl ⟨rfl, Connection.exists_gone he⟩
  · rw [Throwing.run_bind_of_error heq]
    exact .inl ⟨rfl, Connection.exists_gone he⟩

theorem readPayload_of_not_reading {h : SerializationHelper} (hr : h.reading = false)
    (stream : List Byte) : (readPayload p c stream).run h = (.ok (), h) := by
  simp [readPayload, hr]

theorem readPayload_of_none {h : SerializationHelper} (hr : h.reading = true) {stream : List Byte}
    (hfill : fill h.payloadBuffers stream = none) :
    (readPayload p c stream).run h = (onPayloadReceived p c (some c.ending)).run h := by
  simp [readPayload, hr, hfill]

theorem readPayload_of_some {h : SerializationHelper} (hr : h.reading = true) {stream : List Byte}
    {args : List ServiceArgument} (hfill : fill h.payloadBuffers stream = some args) :
    (readPayload p c stream).run h =
      (onPayloadReceived p c none).run { h with payloadBuffers := whole args } := by
  simp [readPayload, hr, hfill]

/-! ### Connections -/

/-- The helper when the header has been read. -/
def fetched (c : Connection) (h : SerializationHelper) : SerializationHelper :=
  { h with headerBuffer := wire (cstr c.stream) ++ (payloadOf c.stream).take c.overRead }

theorem accepts_fetched {h : SerializationHelper} {signature : ServiceSignature}
    {blocks : List (BitVec 32)} {payloadBuffers : List (Buffer ServiceArgument)} :
    Accepts p ((fetched c h).headerBuffer.take ((cstr c.stream).length + 1 - 1))
      ((fetched c h).headerBuffer.drop ((cstr c.stream).length + 1)) signature blocks
      payloadBuffers ↔
    Accepts p (cstr c.stream) ((payloadOf c.stream).take c.overRead) signature blocks
      payloadBuffers := by
  rw [fetched, take_wire_append, drop_wire_append]

/-- What `serve` does with a stream that has a delimiter, after `start`. -/
theorem serve_of_mem (h : 0 ∈ c.stream) : serve p c = remoteEndpoint c >>= fun _ =>
    modify (fetched c) >>= fun _ =>
    onHeaderReceived p c none ((cstr c.stream).length + 1) >>= fun _ =>
    readPayload p c ((payloadOf c.stream).drop c.overRead) := by
  rw [serve, readUntil_of_mem h]
  rfl

/-- **Bytes that do not decode are refused.** -/
theorem serve_refused (hno : ∀ signature blocks args, ¬ Decodes p c.stream signature blocks args) :
    Refused c {} (served p c) := by
  by_cases hmem : 0 ∈ c.stream
  · rw [served, serve_of_mem hmem]
    refine remoteEndpoint_refused fun t ht => ?_
    have hreading : (fetched c t).reading = false := by rw [fetched, ht]
    rw [Throwing.run_modify_bind]
    refine .of_quiet (t := fetched c t) ⟨rfl, rfl⟩ ?_
    by_cases hacc : ∃ signature blocks payloadBuffers, Accepts p (cstr c.stream)
        ((payloadOf c.stream).take c.overRead) signature blocks payloadBuffers
    · obtain ⟨signature, blocks, payloadBuffers, hacc⟩ := hacc
      rcases onHeaderReceived_of_accepts (c := c) (accepts_fetched.mpr hacc) with
        ⟨-, heq⟩ | ⟨e, he, heq⟩
      · have hfill : fill payloadBuffers ((payloadOf c.stream).drop c.overRead) = none :=
          Option.eq_none_iff_forall_not_mem.mpr fun args hargs =>
            hno _ _ args ((decodes_iff hmem c.overRead).mpr ⟨_, hacc, hargs⟩)
        rw [Throwing.run_bind_of_ok heq, readPayload_of_none rfl hfill]
        exact onPayloadReceived_error_refused ..
      · rw [Throwing.run_bind_of_error heq]
        exact refused_of_gone ⟨rfl, rfl⟩ he
    · have hno : ∀ signature blocks payloadBuffers, ¬ Accepts p
          ((fetched c t).headerBuffer.take ((cstr c.stream).length + 1 - 1))
          ((fetched c t).headerBuffer.drop ((cstr c.stream).length + 1)) signature blocks
          payloadBuffers :=
        fun signature blocks payloadBuffers h =>
          hacc ⟨signature, blocks, payloadBuffers, accepts_fetched.mp h⟩
      have hrefused := onHeaderReceived_refused (c := c) hno
      have hstill := onHeaderReceived_reading (c := c) hno
      rcases hrun : (onHeaderReceived p c none ((cstr c.stream).length + 1)).run (fetched c t) with
        ⟨e | _, u⟩
      · rw [hrun] at hrefused
        rw [Throwing.run_bind_of_error hrun]
        exact hrefused
      · rw [hrun] at hrefused hstill
        rw [Throwing.run_bind_of_ok hrun, readPayload_of_not_reading (hstill.trans hreading)]
        exact hrefused
  · have hserve : serve p c = remoteEndpoint c >>= fun _ =>
        onHeaderReceived p c (some c.ending) 0 := by
      rw [serve, readUntil_of_not_mem hmem]
    rw [served, hserve]
    exact remoteEndpoint_refused fun t _ => onHeaderReceived_error_refused ..

/-- **Bytes that decode are dispatched**: the service is invoked with the arguments they carry,
unless the peer was gone before that. -/
theorem serve_of_decodes {signature : ServiceSignature} {blocks : List (BitVec 32)}
    {args : List ServiceArgument} (h : Decodes p c.stream signature blocks args) :
    ((served p c).invocations = [] ∧ ∃ n, c.endpoint n ≠ none) ∨
      (served p c).invocations = created p signature args := by
  obtain ⟨payloadBuffers, hacc, hfill⟩ := (decodes_iff h.terminated c.overRead).mp h
  rw [served, serve_of_mem h.terminated]
  rcases remoteEndpoint_cases c {} with ⟨-, heq⟩ | ⟨e, he, heq⟩
  · rw [Throwing.run_bind_of_ok heq, Throwing.run_modify_bind]
    rcases onHeaderReceived_of_accepts (c := c) (accepts_fetched.mpr hacc) with
      ⟨-, heq'⟩ | ⟨e, he, heq'⟩
    · rw [Throwing.run_bind_of_ok heq', readPayload_of_some rfl hfill]
      rcases invocations_onPayloadReceived (p := p) (c := c) _ with ⟨hnone, hgone⟩ | hsome
      · exact .inl ⟨hnone, hgone⟩
      · right
        rw [hsome]
        exact congrArg (created p signature) (map_fst_whole args)
    · rw [Throwing.run_bind_of_error heq']
      exact .inl ⟨rfl, Connection.exists_gone he⟩
  · rw [Throwing.run_bind_of_error heq]
    exact .inl ⟨rfl, Connection.exists_gone he⟩

theorem Refused.responses {h h' : SerializationHelper} (hr : Refused c h h') :
    (∃ r, r.successful = false ∧ h'.responses = h.responses ++ [r]) ∨
      (h'.responses = h.responses ∧ ∃ n, c.endpoint n ≠ none) := by
  rcases hr with ⟨r, buffers, hr, heq⟩ | ⟨heq, hgone⟩
  · exact .inl ⟨r, hr, by simp [SerializationHelper.responses, heq, Event.response]⟩
  · exact .inr ⟨by simp [SerializationHelper.responses, heq], hgone⟩

/-- What is invoked comes from bytes that decode. -/
theorem exists_decodes_of_invoked {service : Text} {skeleton : Service}
    (h : (service, skeleton) ∈ (served p c).invocations) :
    ∃ signature blocks args, Decodes p c.stream signature blocks args ∧
      (service, skeleton) ∈ created p signature args := by
  by_cases hex : ∃ signature blocks args, Decodes p c.stream signature blocks args
  · obtain ⟨signature, blocks, args, hdecodes⟩ := hex
    refine ⟨signature, blocks, args, hdecodes, ?_⟩
    rcases serve_of_decodes hdecodes with ⟨hnone, -⟩ | hcreated
    · rw [hnone] at h
      exact absurd h List.not_mem_nil
    · rwa [hcreated] at h
  · have hrefused := serve_refused (p := p) (c := c) fun signature blocks args hdecodes =>
      hex ⟨signature, blocks, args, hdecodes⟩
    rw [hrefused.invocations] at h
    exact absurd h List.not_mem_nil

/-! ### Defective requests -/

/-- The ways a request can be wrong: the service is not installed, there is a wrong number of
blocks, the type of a parameter is unknown, a block has the wrong size for its type, or the payload
is short. -/
inductive Defective (p : ServiceProvider) (stream : List Byte) : Prop
  | unavailable {signature : ServiceSignature}
      (service : RequestedService p.yaml.toYamlReader (cstr stream) signature)
      (absent : p.factory.contains signature.signature = false)
  | blockCount {signature : ServiceSignature} {blocks : List (BitVec 32)}
      (header : RequestHeader p.yaml.toYamlReader (cstr stream) signature blocks)
      (count : blocks.length ≠ signature.inputParams.length)
  | unknownType {signature : ServiceSignature} {type : Text}
      (service : RequestedService p.yaml.toYamlReader (cstr stream) signature)
      (param : type ∈ signature.inputParams) (unknown : ∀ k : ArgumentClass, k.type ≠ type)
  | blockSize {signature : ServiceSignature} {blocks : List (BitVec 32)} {i : ℕ}
      {k : ArgumentClass} {block : BitVec 32}
      (header : RequestHeader p.yaml.toYamlReader (cstr stream) signature blocks)
      (param : signature.inputParams[i]? = some k.type) (size : blocks[i]? = some block)
      (misfit : ¬ k.Fits block.toNat)
  | short {signature : ServiceSignature} {blocks : List (BitVec 32)}
      (header : RequestHeader p.yaml.toYamlReader (cstr stream) signature blocks)
      (length : (payloadOf stream).length < (blocks.map BitVec.toNat).sum)

theorem carries_fits {params : List Text} {blocks : List (BitVec 32)} {payload : List Byte}
    {args : List ServiceArgument} (h : Carries params blocks payload args) {i : ℕ}
    {k : ArgumentClass} {block : BitVec 32} (hparam : params[i]? = some k.type)
    (hblock : blocks[i]? = some block) : k.Fits block.toNat := by
  have htypes : (args.map (·.kind.type))[i]? = some k.type := h.types ▸ hparam
  have hsizes : (args.map (·.data.length))[i]? = some block.toNat := by
    rw [h.sizes, List.getElem?_map, hblock]
    rfl
  obtain ⟨a, ha, htype⟩ := Option.map_eq_some_iff.mp (List.getElem?_map ▸ htypes)
  obtain ⟨a', ha', hsize⟩ := Option.map_eq_some_iff.mp (List.getElem?_map ▸ hsizes)
  obtain rfl : a = a' := Option.some.inj (ha.symm.trans ha')
  rw [← ArgumentClass.type_injective htype, ← hsize]
  exact a.fits

theorem Defective.not_decodes {stream : List Byte} (h : Defective p stream)
    {signature : ServiceSignature} {blocks : List (BitVec 32)} {args : List ServiceArgument} :
    ¬ Decodes p stream signature blocks args := by
  intro hdecodes
  cases h with
  | unavailable hservice habsent =>
    obtain rfl := hdecodes.header.requested.unique hservice
    rw [hdecodes.installed] at habsent
    exact absurd habsent (by simp)
  | blockCount hheader hcount =>
    obtain rfl := hdecodes.header.requested.unique hheader.requested
    obtain rfl := hdecodes.header.blocks_eq hheader
    exact hcount hdecodes.count
  | unknownType hservice hparam hunknown =>
    obtain rfl := hdecodes.header.requested.unique hservice
    rw [← hdecodes.payload.types] at hparam
    obtain ⟨a, -, ha⟩ := List.mem_map.mp hparam
    exact hunknown a.kind ha
  | blockSize hheader hparam hsize hmisfit =>
    obtain rfl := hdecodes.header.requested.unique hheader.requested
    obtain rfl := hdecodes.header.blocks_eq hheader
    exact hmisfit (carries_fits hdecodes.payload hparam hsize)
  | short hheader hlength =>
    obtain rfl := hdecodes.header.requested.unique hheader.requested
    obtain rfl := hdecodes.header.blocks_eq hheader
    have hle := hdecodes.payload.bytes.length_le
    rw [List.length_flatten, List.map_map, ← hdecodes.payload.sizes] at *
    exact absurd hlength (Nat.not_lt.mpr hle)

/-- An invoked skeleton holds arguments of its own input parameters, from the payload. -/
theorem exists_carries_of_invoked {s : SkeletonClass}
    (hinst : p.factory.mappings.lookup s.signature.signature = some s.create) {skeleton : Service}
    (h : (s.signature.signature, skeleton) ∈ (served p c).invocations) :
    ∃ signature blocks args, RequestHeader p.yaml.toYamlReader (cstr c.stream) signature blocks ∧
      Carries s.signature.inputParams blocks (payloadOf c.stream) args ∧
      skeleton = .ofArguments s.signature args := by
  obtain ⟨signature, blocks, args, hdecodes, hcreated⟩ := exists_decodes_of_invoked h
  have hkey : s.signature.signature = signature.signature := by
    rw [created] at hcreated
    split at hcreated
    · exact congrArg Prod.fst (List.mem_singleton.mp hcreated)
    · exact absurd hcreated List.not_mem_nil
  -- the peer's text need not be well formed, but it has the parameters its canonical string says
  have hparams : s.signature.inputParams = signature.inputParams :=
    (ServiceSignature.eq_of_signature_eq hkey).2.1
  rw [created, ← hkey, FactoryBase.create_of_lookup hinst] at hcreated
  exact ⟨signature, blocks, args, hdecodes.header, hparams ▸ hdecodes.payload,
    congrArg Prod.snd (List.mem_singleton.mp hcreated)⟩

/-- A defective request invokes nothing and is answered with unsuccessful responses only, one of
them if the peer stays connected. -/
theorem Defective.answered (h : Defective p c.stream) : (served p c).invocations = [] ∧
    (∀ r ∈ (served p c).responses, r.successful = false) ∧
    (c.Alive → ∃ r, (served p c).responses = [r]) := by
  have hrefused := serve_refused (p := p) (c := c) fun _ _ _ => h.not_decodes
  refine ⟨hrefused.invocations, ?_⟩
  rcases hrefused.responses with ⟨r', hr', heq⟩ | ⟨heq, n, hn⟩
  · rw [heq]
    exact ⟨fun r hr => List.mem_singleton.mp hr ▸ hr', fun _ => ⟨r', rfl⟩⟩
  · rw [heq]
    exact ⟨fun r hr => absurd hr List.not_mem_nil, fun halive => absurd (halive n) hn⟩

/-- **Dispatch is type safe on arbitrary input.** When a skeleton is invoked, it holds the
arguments its own signature declares, filled from the payload, so popping the declared types
succeeds; and a defective request invokes nothing and is answered with one unsuccessful
response. -/
theorem dispatch_type_safe (p : ServiceProvider) (c : Connection) :
    (∀ s : SkeletonClass, p.factory.mappings.lookup s.signature.signature = some s.create →
      ∀ skeleton, (s.signature.signature, skeleton) ∈ (served p c).invocations →
        skeleton.signature = s.signature ∧
        (∃ signature blocks, RequestHeader p.yaml.toYamlReader (cstr c.stream) signature blocks ∧
          Carries s.signature.inputParams blocks (payloadOf c.stream) skeleton.arguments) ∧
        ∀ kinds : List ArgumentClass, kinds.map ArgumentClass.type = s.signature.inputParams →
          (kinds.mapM Service.popArgument).run skeleton =
            (.ok skeleton.arguments, { skeleton with arguments := [] })) ∧
    (Defective p c.stream → (served p c).invocations = [] ∧
      (∀ r ∈ (served p c).responses, r.successful = false) ∧
      (c.Alive → ∃ r, (served p c).responses = [r])) := by
  refine ⟨fun s hinst skeleton hinvoked => ?_, Defective.answered⟩
  obtain ⟨signature, blocks, args, hheader, hcarries, rfl⟩ :=
    exists_carries_of_invoked hinst hinvoked
  refine ⟨rfl, ⟨signature, blocks, hheader, hcarries⟩, fun kinds hkinds => ?_⟩
  exact Service.run_mapM_popArgument_ofArguments hcarries.types hkinds

end SerializationHelper

end Ssoa
