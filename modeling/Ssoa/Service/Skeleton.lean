import Ssoa.Service.Response

/-!
# Service skeletons

A provider installs a skeleton class for each service it offers. For every connection a
`ServiceSkeletonSerializationHelper` reads a request, creates the skeleton, invokes it and sends
its response. It works in three steps: `start` begins to read the header, `onHeaderReceived`
prepares the arguments and begins to read the payload, and `onPayloadReceived` invokes the service.

The handlers are transcribed statement by statement. `Logger::debug` is here because its argument
`socket->remote_endpoint()` throws when the peer is gone. What the outside can observe, an
invocation or a response being written, is recorded as an event.

Not in the model: the completion of the write, after which the connection is closed.

## Main definitions

* `SerializationHelper.onHeaderReceived`, `SerializationHelper.onPayloadReceived` — the handlers
* `SerializationHelper.serve` — what becomes of a connection
-/

namespace Ssoa

/-- A `ServiceSkeleton`: the service it derives from, and its `invoke`. A null pointer is `none`. -/
structure Skeleton where
  service : Service
  invoke : Service → Except Exn (Option Response)

/-- A class derived from `ServiceSkeleton`: the signature it gives to the base class, and its
`invoke`. -/
structure SkeletonClass where
  signature : ServiceSignature
  invoke : Service → Except Exn (Option Response)

/-- The static member `create` of such a class. -/
def SkeletonClass.create (s : SkeletonClass) : CreatorMethod (List ServiceArgument) Skeleton :=
  fun arguments => .ok ⟨.ofArguments s.signature arguments, s.invoke⟩

/-- A provider: the YAML library, and the factory with what has been installed. -/
structure ServiceProvider where
  yaml : YamlLibrary
  factory : FactoryBase (List ServiceArgument) Skeleton

/-- A connection: all bytes that arrive, how many of them the first read fetches past the header,
the error a read past the end completes with, and what `remote_endpoint()` throws, if it does, the
first time, the second time and so on. -/
structure Connection where
  stream : List Byte
  overRead : ℕ := 0
  ending : Text := txt "End of file"
  endpoint : ℕ → Option Exn := fun _ => none

/-- The peer stays connected. -/
def Connection.Alive (c : Connection) : Prop := ∀ n, c.endpoint n = none

theorem Connection.exists_gone {c : Connection} {n : ℕ} {e : Exn} (h : c.endpoint n = some e) :
    ∃ n, c.endpoint n ≠ none :=
  ⟨n, by simp [h]⟩

theorem Connection.Alive.ne_some {c : Connection} (h : c.Alive) {n : ℕ} {e : Exn} :
    c.endpoint n ≠ some e := by
  simp [h n]

/-- What can be observed of a provider: `invoke()` of the skeleton installed for a service, which
holds its arguments, and a response being written. -/
inductive Event where
  | invoke (service : Text) (skeleton : Service)
  | write (response : Response) (buffers : List (List Byte))

/-- The invocation, if the event is one. -/
def Event.invocation : Event → Option (Text × Service)
  | .invoke service skeleton => some (service, skeleton)
  | .write _ _ => none

/-- The response, if the event is one being written. -/
def Event.response : Event → Option Response
  | .invoke _ _ => none
  | .write r _ => some r

/-- The members of the helper, with the arguments next to the position from which `payloadBuffers`
has them, whether the payload is being read, how often `remote_endpoint()` has been called, and the
events so far. -/
structure SerializationHelper where
  headerBuffer : List Byte := []
  payloadBuffers : List (Scatter.Buffer ServiceArgument) := []
  signature : ServiceSignature := .any
  response : Option Response := none
  reading : Bool := false
  endpointCalls : ℕ := 0
  events : List Event := []

/-- A member function of the helper. -/
abbrev Handler := Throwing SerializationHelper Exn

namespace SerializationHelper

/-- `socket->remote_endpoint()`. -/
def remoteEndpoint (c : Connection) : Handler Unit := do
  let h ← get
  set { h with endpointCalls := h.endpointCalls + 1 }
  match c.endpoint h.endpointCalls with
  | none => return ()
  | some e => throw e

def note (event : Event) : Handler Unit := modify fun h => { h with events := h.events ++ [event] }

def sendResponse (p : ServiceProvider) (c : Connection) (r : Option Response) : Handler Unit := do
  let h ← get
  let r := r.getD (.new h.signature false
    (txt "Internal server error: produced a NULL response."))
  set { h with response := some r }
  remoteEndpoint c
  let buffers ← r.getConstBuffers p.yaml
  note (.write r buffers)

/-- `sendResponse(new Response(signature, false, message))`. -/
def sendFailure (p : ServiceProvider) (c : Connection) (message : Text) : Handler Unit := do
  let h ← get
  sendResponse p c (some (.new h.signature false message))

/-- The `try` block of `onHeaderReceived`. -/
def receiveHeader (p : ServiceProvider) (c : Connection) (bytesTransferred : ℕ) : Handler Unit := do
  let h ← get
  let node ← p.yaml.load (h.headerBuffer.take (bytesTransferred - 1))
  let service ← p.yaml.textAt node (txt "service")
  let signature := ServiceSignature.ofText service
  set { h with signature }
  if p.factory.contains signature.signature = false then
    sendFailure p c (txt "Service not available.")
  else
    let blocks ← readBlocks p.yaml.toYamlReader node
    let params := signature.inputParams
    if blocks.length ≠ params.length then
      throw (Response.invalidBlocks (txt "request") params.length blocks.length)
    else
      let headerBuffer := h.headerBuffer.drop bytesTransferred
      let payloadBuffers ← prepareArguments sizeT params blocks headerBuffer
      -- `async_read`
      set { h with signature, payloadBuffers, reading := true }

/-- The first argument is the message of the error code, if there is an error. -/
def onHeaderReceived (p : ServiceProvider) (c : Connection) (e : Option Text)
    (bytesTransferred : ℕ) :
    Handler Unit :=
  match e with
  | some message => do
    remoteEndpoint c
    sendFailure p c (txt "Cannot receive header: " ++ message)
  | none => do
    remoteEndpoint c
    tryCatch (receiveHeader p c bytesTransferred) fun e => sendFailure p c e.what

/-- The `try` block of `onPayloadReceived`. -/
def invokeService (p : ServiceProvider) (c : Connection) : Handler Unit := do
  let h ← get
  let impl ← p.factory.create h.signature.signature (h.payloadBuffers.map Prod.fst)
  note (.invoke h.signature.signature impl.service)
  let r ← impl.invoke impl.service
  sendResponse p c r

def onPayloadReceived (p : ServiceProvider) (c : Connection) (e : Option Text) : Handler Unit :=
  match e with
  | some message => do
    remoteEndpoint c
    sendFailure p c (txt "Cannot receive payload: " ++ message)
  | none => do
    remoteEndpoint c
    remoteEndpoint c
    tryCatch (invokeService p c) fun e =>
      sendFailure p c (txt "Internal server error: " ++ e.what)

/-- The payload read, if it has been started, and the handler when it completes. -/
def readPayload (p : ServiceProvider) (c : Connection) (stream : List Byte) : Handler Unit := do
  let h ← get
  if h.reading then
    match Scatter.fill h.payloadBuffers stream with
    | none => onPayloadReceived p c (some c.ending)
    | some arguments =>
      set { h with payloadBuffers := Scatter.whole arguments }
      onPayloadReceived p c none

/-- `start`, and the handlers as the reads complete. An exception that leaves one of them ends the
connection. -/
def serve (p : ServiceProvider) (c : Connection) : Handler Unit := do
  remoteEndpoint c
  match readUntil c.stream c.overRead with
  | none => onHeaderReceived p c (some c.ending) 0
  | some (headerBuffer, bytesTransferred, stream) =>
    modify fun h => { h with headerBuffer }
    onHeaderReceived p c none bytesTransferred
    readPayload p c stream

/-- The helper at the end of a connection. -/
def served (p : ServiceProvider) (c : Connection) : SerializationHelper := ((serve p c).run {}).2

/-- What has been invoked. -/
def invocations (h : SerializationHelper) : List (Text × Service) :=
  h.events.filterMap Event.invocation

/-- The responses being written. -/
def responses (h : SerializationHelper) : List Response := h.events.filterMap Event.response

/-! ### Sending a response -/

variable {p : ServiceProvider} {c : Connection}

/-- What a call of `remote_endpoint()` does. -/
theorem remoteEndpoint_cases (c : Connection) (h : SerializationHelper) :
    (c.endpoint h.endpointCalls = none ∧ (remoteEndpoint c).run h =
      (.ok (), { h with endpointCalls := h.endpointCalls + 1 })) ∨
    ∃ e, c.endpoint h.endpointCalls = some e ∧ (remoteEndpoint c).run h =
      (.error e, { h with endpointCalls := h.endpointCalls + 1 }) := by
  cases he : c.endpoint h.endpointCalls with
  | none => exact .inl ⟨rfl, by simp [remoteEndpoint, he]⟩
  | some e => exact .inr ⟨e, rfl, by simp [remoteEndpoint, he]⟩

/-- The helper while a response is being sent. -/
def sending (h : SerializationHelper) (r : Response) : SerializationHelper :=
  { h with response := some r, endpointCalls := h.endpointCalls + 1 }

/-- What sending a response does: it is written, or an exception is thrown, by `remote_endpoint()`
or because the response cannot be serialised. -/
theorem sendResponse_cases (p : ServiceProvider) (c : Connection) (r : Option Response)
    (h : SerializationHelper) :
    ∃ r', r' = r.getD (.new h.signature false
        (txt "Internal server error: produced a NULL response.")) ∧
      ((∃ buffers, r'.getConstBuffers p.yaml = .ok buffers ∧ (sendResponse p c r).run h =
        (.ok (), { h.sending r' with events := h.events ++ [.write r' buffers] })) ∨
      ∃ e, (c.endpoint h.endpointCalls = some e ∨ r'.getConstBuffers p.yaml = .error e) ∧
        (sendResponse p c r).run h = (.error e, h.sending r')) := by
  refine ⟨_, rfl, ?_⟩
  generalize hr : r.getD (.new h.signature false
    (txt "Internal server error: produced a NULL response.")) = r'
  simp only [sendResponse, Throwing.run_get_bind, Throwing.run_set_bind, hr]
  rcases remoteEndpoint_cases c { h with response := some r' } with ⟨-, heq⟩ | ⟨e, he, heq⟩
  · rw [Throwing.run_bind_of_ok heq]
    cases hbuffers : r'.getConstBuffers p.yaml with
    | ok buffers =>
      refine .inl ⟨buffers, rfl, ?_⟩
      rw [Throwing.run_bind_of_ok (Throwing.run_lift _ _)]
      rfl
    | error e => exact .inr ⟨e, .inr rfl, Throwing.run_bind_of_error (Throwing.run_lift _ _)⟩
  · exact .inr ⟨e, .inl he, Throwing.run_bind_of_error heq⟩

/-- What sending an unsuccessful response does. -/
theorem sendFailure_cases (p : ServiceProvider) (c : Connection) (message : Text)
    (h : SerializationHelper) : ∃ r, r.successful = false ∧
      ((∃ buffers, (sendFailure p c message).run h =
        (.ok (), { h.sending r with events := h.events ++ [.write r buffers] })) ∨
      ∃ e, c.endpoint h.endpointCalls = some e ∧
        (sendFailure p c message).run h = (.error e, h.sending r)) := by
  obtain ⟨r, hr, hcases⟩ := sendResponse_cases p c (some (.new h.signature false message)) h
  have hfalse : r.successful = false := by rw [hr]; rfl
  refine ⟨r, hfalse, ?_⟩
  rcases hcases with ⟨buffers, -, heq⟩ | ⟨e, he | he, heq⟩
  · exact .inl ⟨buffers, heq⟩
  · exact .inr ⟨e, he, heq⟩
  · rw [Response.getConstBuffers_of_unsuccessful p.yaml hfalse] at he
    exact absurd he (by simp)

end SerializationHelper

end Ssoa
