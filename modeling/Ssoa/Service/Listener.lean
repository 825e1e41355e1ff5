import Ssoa.Service.Completion

/-!
# A listener and its peers

`ServiceListener::handleAccept` starts a connection and then waits for the next one. Whatever leaves
`start` or a handler leaves `io_service::run`, and the threads of the pool catch nothing: the
provider is down. A peer can make that happen by going away, because `remote_endpoint()` then
throws, and not every call of it is in a `try` block.

Which calls matter depends on how the request goes (`Course`). A call in a `try` block matters only
together with the call in its `catch` clause.

## Main results

* `SerializationHelper.run_onPayloadReceived_result` — what is written to a peer that stays
* `SerializationHelper.Course.succeeds_iff` — what must not go wrong in the course of a request
* `ServiceListener.acceptsNext_iff` — when the listener accepts the next connection
* `ServiceListener.connections_iff` — when it goes on through a sequence of connections
-/

namespace Ssoa

open Scatter

namespace SerializationHelper

variable {p : ServiceProvider} {c : Connection} {reads : Completion}

/-! ### Calls that throw -/

theorem succeeds_remoteEndpoint_bind {x : Handler Unit} {h : SerializationHelper} :
    (remoteEndpoint c >>= fun _ => x).Succeeds h ↔ c.endpoint h.endpointCalls = none ∧
      x.Succeeds { h with endpointCalls := h.endpointCalls + 1 } := by
  obtain ⟨hnone, heq⟩ | ⟨e, he, heq⟩ := remoteEndpoint_cases c h
  · rw [Throwing.Succeeds, Throwing.run_bind_of_ok heq]
    exact ⟨fun hx => ⟨hnone, hx⟩, And.right⟩
  · rw [Throwing.Succeeds, Throwing.run_bind_of_error heq, he]
    simp

/-- The response lacks output arguments, but is marked successful. -/
def Deficient (r : Option Response) : Prop :=
  ∃ r', r = some r' ∧ r'.successful = true ∧
    r'.arguments.length < r'.signature.outputParams.length

theorem sendResponse_endpointCalls (r : Option Response) (h : SerializationHelper) :
    ((sendResponse p c r).run h).2.endpointCalls = h.endpointCalls + 1 := by
  obtain ⟨r', -, ⟨buffers, -, heq⟩ | ⟨e, -, heq⟩⟩ := sendResponse_cases p c r h <;> rw [heq] <;> rfl

/-- What is sent when the service returns this. -/
def returned (r : Option Response) (h : SerializationHelper) : Response :=
  r.getD (.new h.signature false (txt "Internal server error: produced a NULL response."))

theorem returned_deficient_iff {r : Option Response} {h : SerializationHelper} :
    ((returned r h).successful = true ∧
      (returned r h).arguments.length < (returned r h).signature.outputParams.length) ↔
      Deficient r := by
  cases r with
  | none => simp [returned, Deficient, Response.new]
  | some r => simp [returned, Deficient]

/-- **When an exception leaves `sendResponse`.** -/
theorem succeeds_sendResponse {r : Option Response} {h : SerializationHelper} :
    (sendResponse p c r).Succeeds h ↔
      c.endpoint h.endpointCalls = none ∧ ¬ Deficient r := by
  have hrun : (sendResponse p c r).run h = (remoteEndpoint c >>= fun _ => do
      let buffers ← (returned r h).getConstBuffers p.yaml
      note (.write (returned r h) buffers)).run { h with response := some (returned r h) } := rfl
  rw [Throwing.Succeeds, hrun]
  refine succeeds_remoteEndpoint_bind.trans (and_congr_right fun _ => ?_)
  rw [← returned_deficient_iff (h := h), Throwing.Succeeds, Throwing.run_lift_bind,
    Response.getConstBuffers]
  by_cases hdeficient : (returned r h).successful = true ∧
      (returned r h).arguments.length < (returned r h).signature.outputParams.length
  · simp [hdeficient]
  · simp only [hdeficient, not_false_iff, iff_true]
    exact ⟨(), rfl⟩

/-- With the peer connected, a response that is not deficient is written. -/
theorem run_sendResponse (halive : c.Alive) {r : Option Response} (hr : ¬ Deficient r)
    (h : SerializationHelper) : ∃ t, (sendResponse p c r).run h = (.ok (), t) ∧
      t.responses = h.responses ++ [returned r h] := by
  obtain ⟨_, hok⟩ := succeeds_sendResponse.mpr ⟨halive h.endpointCalls, hr⟩
  obtain ⟨r', rfl, ⟨buffers, -, hrun⟩ | ⟨e, -, hrun⟩⟩ := sendResponse_cases p c r h
  · exact ⟨_, hrun, by simp [responses, Event.response, returned]⟩
  · rw [hrun] at hok
    cases hok

theorem not_deficient_some {r : Response} (h : r.successful = false) : ¬ Deficient (some r) := by
  rintro ⟨r', hr', hs, -⟩
  rw [← Option.some.inj hr', h] at hs
  cases hs

theorem succeeds_sendFailure {message : Text} {h : SerializationHelper} :
    (sendFailure p c message).Succeeds h ↔ c.endpoint h.endpointCalls = none := by
  refine succeeds_sendResponse.trans ⟨And.left, fun hnone => ⟨hnone, not_deficient_some rfl⟩⟩

theorem sendFailure_endpointCalls (message : Text) (h : SerializationHelper) :
    ((sendFailure p c message).run h).2.endpointCalls = h.endpointCalls + 1 :=
  sendResponse_endpointCalls _ h

/-- A `try` block whose `catch` clause sends a response. -/
theorem succeeds_tryCatch {x : Handler Unit} {message : Exn → Text} {h : SerializationHelper} :
    (tryCatch x fun e => sendFailure p c (message e)).Succeeds h ↔
      x.Succeeds h ∨ c.endpoint (x.run h).2.endpointCalls = none := by
  rcases hrun : x.run h with ⟨e | a, t⟩
  · rw [Throwing.Succeeds, Throwing.run_tryCatch_of_error hrun, Throwing.Succeeds, hrun]
    exact succeeds_sendFailure.trans (or_iff_right (by simp)).symm
  · rw [Throwing.Succeeds, Throwing.run_tryCatch_of_ok hrun, Throwing.Succeeds, hrun]
    simp

/-! ### The handlers -/

/-- The handlers when a read has failed. -/
theorem succeeds_onHeaderReceived_error {message : Text} {n : ℕ} {h : SerializationHelper} :
    (onHeaderReceived p c (some message) n).Succeeds h ↔
      c.endpoint h.endpointCalls = none ∧ c.endpoint (h.endpointCalls + 1) = none :=
  succeeds_remoteEndpoint_bind.trans (and_congr_right fun _ => succeeds_sendFailure)

theorem succeeds_onPayloadReceived_error {message : Text} {h : SerializationHelper} :
    (onPayloadReceived p c (some message)).Succeeds h ↔
      c.endpoint h.endpointCalls = none ∧ c.endpoint (h.endpointCalls + 1) = none :=
  succeeds_remoteEndpoint_bind.trans (and_congr_right fun _ => succeeds_sendFailure)

/-- A service that is not installed is not accepted. -/
theorem Accepts.not_unavailable {header fetched : List Byte} {signature : ServiceSignature}
    {blocks : List (BitVec 32)} {payloadBuffers : List (Buffer ServiceArgument)}
    (h : Accepts p header fetched signature blocks payloadBuffers) : ¬ Unavailable p header := by
  rintro ⟨signature', hrequested, habsent⟩
  obtain rfl := h.header.requested.unique hrequested
  rw [h.installed] at habsent
  cases habsent

/-- The header is for a service that is not installed. -/
theorem succeeds_onHeaderReceived_unavailable {n : ℕ} {h : SerializationHelper}
    (hunavailable : Unavailable p (h.headerBuffer.take (n - 1))) :
    (onHeaderReceived p c none n).Succeeds h ↔ c.endpoint h.endpointCalls = none ∧
      (c.endpoint (h.endpointCalls + 1) = none ∨ c.endpoint (h.endpointCalls + 2) = none) := by
  refine succeeds_remoteEndpoint_bind.trans (and_congr_right fun _ => succeeds_tryCatch.trans ?_)
  obtain ⟨signature, blocks, payloadBuffers, hacc⟩ | ⟨-, signature, heq⟩ | ⟨havailable, -⟩ :=
    receiveHeader_cases p c n { h with endpointCalls := h.endpointCalls + 1 }
  · exact absurd hunavailable hacc.not_unavailable
  · rw [Throwing.Succeeds, heq, sendFailure_endpointCalls]
    exact or_congr_left succeeds_sendFailure
  · exact absurd hunavailable havailable

/-- The header is refused for another reason. -/
theorem succeeds_onHeaderReceived_refused {n : ℕ} {h : SerializationHelper}
    (hacc : ∀ signature blocks payloadBuffers, ¬ Accepts p (h.headerBuffer.take (n - 1))
      (h.headerBuffer.drop n) signature blocks payloadBuffers)
    (havailable : ¬ Unavailable p (h.headerBuffer.take (n - 1))) :
    (onHeaderReceived p c none n).Succeeds h ↔
      c.endpoint h.endpointCalls = none ∧ c.endpoint (h.endpointCalls + 1) = none := by
  refine succeeds_remoteEndpoint_bind.trans (and_congr_right fun _ => succeeds_tryCatch.trans ?_)
  obtain ⟨signature, blocks, payloadBuffers, h⟩ | ⟨hunavailable, -⟩ | ⟨-, e, signature, heq⟩ :=
    receiveHeader_cases p c n { h with endpointCalls := h.endpointCalls + 1 }
  · exact absurd h (hacc signature blocks payloadBuffers)
  · exact absurd hunavailable havailable
  · rw [Throwing.Succeeds, heq]
    exact or_iff_right (by simp)

/-- What the service makes of these arguments. -/
def result (p : ServiceProvider) (signature : ServiceSignature) (args : List ServiceArgument) :
    Except Exn (Option Response) :=
  p.factory.create signature.signature args >>= fun impl => impl.invoke impl.service

/-- The helper after an attempt to invoke a service: it has sent nothing, and has not asked for the
peer. -/
structure Attempted (h u : SerializationHelper) : Prop where
  signature : u.signature = h.signature
  endpointCalls : u.endpointCalls = h.endpointCalls
  responses : u.responses = h.responses

theorem Attempted.refl (h : SerializationHelper) : Attempted h h := ⟨rfl, rfl, rfl⟩

theorem Attempted.invoking (h : SerializationHelper) (impl : Skeleton) :
    Attempted h (h.invoking impl) :=
  ⟨rfl, rfl, by simp [SerializationHelper.invoking, SerializationHelper.responses, Event.response]⟩

/-- Invoking a service that throws. -/
theorem invokeService_of_error {h : SerializationHelper} {e : Exn}
    (he : result p h.signature (h.payloadBuffers.map Prod.fst) = .error e) :
    ∃ u, (invokeService p c).run h = (.error e, u) ∧ Attempted h u := by
  obtain ⟨e', hcreate, hrun⟩ | ⟨impl, hcreate, ⟨e', hinvoke, hrun⟩ | ⟨r, hinvoke, -⟩⟩ :=
    invokeService_cases p c h <;> rw [result, hcreate] at he
  · obtain rfl : e' = e := Except.error.inj he
    exact ⟨h, hrun, .refl h⟩
  · obtain rfl : e' = e := Except.error.inj (hinvoke.symm.trans he)
    exact ⟨_, hrun, .invoking h impl⟩
  · cases hinvoke.symm.trans he

/-- Invoking a service that returns, perhaps a null pointer. -/
theorem invokeService_of_ok {h : SerializationHelper} {r : Option Response}
    (hr : result p h.signature (h.payloadBuffers.map Prod.fst) = .ok r) :
    ∃ u, (invokeService p c).run h = (sendResponse p c r).run u ∧ Attempted h u := by
  obtain ⟨e, hcreate, -⟩ | ⟨impl, hcreate, ⟨e, hinvoke, -⟩ | ⟨r', hinvoke, hrun⟩⟩ :=
    invokeService_cases p c h <;> rw [result, hcreate] at hr
  · cases hr
  · cases hinvoke.symm.trans hr
  · obtain rfl : r' = r := Except.ok.inj (hinvoke.symm.trans hr)
    exact ⟨_, hrun, .invoking h impl⟩

/-- The service throws. -/
theorem succeeds_onPayloadReceived_of_error {h : SerializationHelper} {e : Exn}
    (he : result p h.signature (h.payloadBuffers.map Prod.fst) = .error e) :
    (onPayloadReceived p c none).Succeeds h ↔ c.endpoint h.endpointCalls = none ∧
      c.endpoint (h.endpointCalls + 1) = none ∧ c.endpoint (h.endpointCalls + 2) = none := by
  refine succeeds_remoteEndpoint_bind.trans (and_congr_right fun _ =>
    succeeds_remoteEndpoint_bind.trans (and_congr_right fun _ => succeeds_tryCatch.trans ?_))
  obtain ⟨u, hrun, hu⟩ := invokeService_of_error (c := c)
    (h := { h with endpointCalls := h.endpointCalls + 1 + 1 }) he
  rw [Throwing.Succeeds, hrun, hu.endpointCalls]
  exact or_iff_right (by simp)

/-- The service returns, perhaps a null pointer. -/
theorem succeeds_onPayloadReceived_of_ok {h : SerializationHelper} {r : Option Response}
    (hr : result p h.signature (h.payloadBuffers.map Prod.fst) = .ok r) :
    (onPayloadReceived p c none).Succeeds h ↔ c.endpoint h.endpointCalls = none ∧
      c.endpoint (h.endpointCalls + 1) = none ∧
      (c.endpoint (h.endpointCalls + 2) = none ∧ ¬ Deficient r ∨
        c.endpoint (h.endpointCalls + 3) = none) := by
  refine succeeds_remoteEndpoint_bind.trans (and_congr_right fun _ =>
    succeeds_remoteEndpoint_bind.trans (and_congr_right fun _ => succeeds_tryCatch.trans ?_))
  obtain ⟨u, hrun, hu⟩ := invokeService_of_ok (c := c)
    (h := { h with endpointCalls := h.endpointCalls + 1 + 1 }) hr
  have hcalls : u.endpointCalls = h.endpointCalls + 2 := hu.endpointCalls
  have hsend := succeeds_sendResponse (p := p) (c := c) (r := r) (h := u)
  rw [hcalls] at hsend
  rw [Throwing.Succeeds, hrun, sendResponse_endpointCalls, hcalls]
  exact or_congr_left hsend

/-- What is sent in reply, given what the service returns or throws. -/
def reply (signature : ServiceSignature) : Except Exn (Option Response) → Response
  | .ok r => returned r { signature }
  | .error e => .new signature false (txt "Internal server error: " ++ e.what)

/-- **What is written** when the peer stays connected and the service does not return a response
that lacks arguments. -/
theorem run_onPayloadReceived_result (halive : c.Alive) {h : SerializationHelper}
    (hcomplete : ∀ r, result p h.signature (h.payloadBuffers.map Prod.fst) = .ok r →
      ¬ Deficient r) :
    ∃ t, (onPayloadReceived p c none).run h = (.ok (), t) ∧ t.responses = h.responses ++
      [reply h.signature (result p h.signature (h.payloadBuffers.map Prod.fst))] := by
  rw [onPayloadReceived, run_remoteEndpoint_bind halive, run_remoteEndpoint_bind halive]
  set v : SerializationHelper := { h with endpointCalls := h.endpointCalls + 1 + 1 } with hv
  cases hresult : result p h.signature (h.payloadBuffers.map Prod.fst) with
  | error e =>
    obtain ⟨u, hrun, hu⟩ := invokeService_of_error (c := c) (h := v) hresult
    obtain ⟨t, hsend, ht⟩ := run_sendResponse (p := p) halive (r := some (.new u.signature false
      (txt "Internal server error: " ++ e.what))) (not_deficient_some rfl) u
    refine ⟨t, (Throwing.run_tryCatch_of_error hrun).trans hsend, ?_⟩
    rw [ht, hu.responses, hu.signature]
    rfl
  | ok r =>
    obtain ⟨u, hrun, hu⟩ := invokeService_of_ok (c := c) (h := v) hresult
    obtain ⟨t, hsend, ht⟩ := run_sendResponse (p := p) halive (hcomplete r hresult) u
    refine ⟨t, Throwing.run_tryCatch_of_ok (hrun.trans hsend), ?_⟩
    rw [ht, hu.responses, returned, hu.signature]
    rfl

/-! ### The course of a request -/

/-- How a request goes, and the calls of `remote_endpoint()` that matter: of each of these lists,
one call must succeed. The calls of a connection are numbered from 0. -/
inductive Course (p : ServiceProvider) (reads : Completion) : List (List ℕ) → Prop
  /-- The header is not received, or it is refused. -/
  | refused (hopens : ∀ signature payloadBuffers, ¬ Opens p reads signature payloadBuffers)
      (havailable : ¬ AsksUnavailable p reads) : Course p reads [[0], [1], [2]]
  /-- The service is not installed. -/
  | unavailable (hunavailable : AsksUnavailable p reads) : Course p reads [[0], [1], [2, 3]]
  /-- The payload is not received. -/
  | incomplete {signature : ServiceSignature} {payloadBuffers : List (Buffer ServiceArgument)}
      (hopens : Opens p reads signature payloadBuffers)
      (hbrings : ∀ args, ¬ Brings p reads signature args) : Course p reads [[0], [1], [2], [3]]
  /-- The skeleton cannot be created, or `invoke()` throws. -/
  | failed {signature : ServiceSignature} {args : List ServiceArgument} {e : Exn}
      (hbrings : Brings p reads signature args) (hresult : result p signature args = .error e) :
      Course p reads [[0], [1], [2], [3], [4]]
  /-- The response of the service is sent. -/
  | sent {signature : ServiceSignature} {args : List ServiceArgument} {r : Option Response}
      (hbrings : Brings p reads signature args) (hresult : result p signature args = .ok r)
      (hsent : ¬ Deficient r) : Course p reads [[0], [1], [2], [3], [4, 5]]
  /-- The response of the service lacks arguments. -/
  | deficient {signature : ServiceSignature} {args : List ServiceArgument} {r : Option Response}
      (hbrings : Brings p reads signature args) (hresult : result p signature args = .ok r)
      (hdeficient : Deficient r) : Course p reads [[0], [1], [2], [3], [5]]

/-- Every request takes some course. -/
theorem exists_course (p : ServiceProvider) (reads : Completion) :
    ∃ calls, Course p reads calls := by
  by_cases hopens : ∃ signature payloadBuffers, Opens p reads signature payloadBuffers
  · obtain ⟨signature, payloadBuffers, hopens⟩ := hopens
    by_cases hbrings : ∃ args, Brings p reads signature args
    · obtain ⟨args, hbrings⟩ := hbrings
      cases hresult : result p signature args with
      | error e => exact ⟨_, .failed hbrings hresult⟩
      | ok r =>
        by_cases hdeficient : Deficient r
        · exact ⟨_, .deficient hbrings hresult hdeficient⟩
        · exact ⟨_, .sent hbrings hresult hdeficient⟩
    · exact ⟨_, .incomplete hopens (not_exists.mp hbrings)⟩
  · by_cases hunavailable : AsksUnavailable p reads
    · exact ⟨_, .unavailable hunavailable⟩
    · exact ⟨_, .refused (by simpa using hopens) hunavailable⟩

/-- The peer is there for the calls that matter. -/
def PeerStays (p : ServiceProvider) (c : Connection) (reads : Completion) : Prop :=
  ∃ calls, Course p reads calls ∧ ∀ ns ∈ calls, ∃ n ∈ ns, c.endpoint n = none

/-- The helper when the payload is being read. -/
def opened (signature : ServiceSignature) (payloadBuffers : List (Buffer ServiceArgument))
    (headerBuffer : List Byte) : SerializationHelper :=
  { headerBuffer, signature, payloadBuffers, reading := true, endpointCalls := 2 }

/-- With an accepted header, it is the payload that decides. -/
theorem succeeds_attend_of_opens {signature : ServiceSignature}
    {payloadBuffers : List (Buffer ServiceArgument)}
    (h : Opens p reads signature payloadBuffers) : ∃ headerBuffer,
      (attend p c reads).Succeeds {} ↔ c.endpoint 0 = none ∧ c.endpoint 1 = none ∧
        (completePayload p c reads.payload).Succeeds
          (opened signature payloadBuffers headerBuffer) := by
  obtain ⟨headerBuffer, n, blocks, hheader, hacc⟩ := h
  refine ⟨headerBuffer, succeeds_remoteEndpoint_bind.trans (and_congr_right fun _ => ?_)⟩
  simp only [receive, hheader]
  rw [Throwing.Succeeds, Throwing.run_modify_bind]
  obtain ⟨hnone, hrun⟩ | ⟨e, he, hrun⟩ := onHeaderReceived_of_accepts (c := c)
    (h := { headerBuffer, endpointCalls := 0 + 1 }) hacc
  · rw [Throwing.run_bind_of_ok hrun]
    exact ⟨fun hpayload => ⟨hnone, hpayload⟩, And.right⟩
  · rw [Throwing.run_bind_of_error hrun, show c.endpoint 1 = some e from he]
    simp

/-- The whole request is there. -/
theorem succeeds_attend_of_brings {signature : ServiceSignature} {args : List ServiceArgument}
    (h : Brings p reads signature args) : ∃ u : SerializationHelper,
      u.signature = signature ∧ u.payloadBuffers.map Prod.fst = args ∧ u.endpointCalls = 2 ∧
      ((attend p c reads).Succeeds {} ↔ c.endpoint 0 = none ∧ c.endpoint 1 = none ∧
        (onPayloadReceived p c none).Succeeds u) := by
  obtain ⟨payloadBuffers, stream, hopens, hpayload, hfill⟩ := h
  obtain ⟨headerBuffer, hiff⟩ := succeeds_attend_of_opens (c := c) hopens
  refine ⟨{ opened signature payloadBuffers headerBuffer with payloadBuffers := whole args },
    rfl, map_fst_whole args, rfl, ?_⟩
  rw [hiff, hpayload, Throwing.Succeeds, completePayload, readPayload_of_some rfl hfill]
  rfl

/-- A header that is not accepted leaves nothing to read. -/
theorem succeeds_attend_of_not_accepts {headerBuffer : List Byte} {n : ℕ}
    (hheader : reads.header = .ok (headerBuffer, n))
    (hacc : ∀ signature blocks payloadBuffers, ¬ Accepts p (headerBuffer.take (n - 1))
      (headerBuffer.drop n) signature blocks payloadBuffers) :
    (attend p c reads).Succeeds {} ↔ c.endpoint 0 = none ∧
      (onHeaderReceived p c none n).Succeeds { headerBuffer, endpointCalls := 1 } := by
  refine succeeds_remoteEndpoint_bind.trans (and_congr_right fun _ => ?_)
  simp only [receive, hheader]
  rw [Throwing.Succeeds, Throwing.run_modify_bind, Throwing.Succeeds]
  have hreading := onHeaderReceived_reading (c := c)
    (h := { headerBuffer, endpointCalls := 0 + 1 }) hacc
  rcases hrun : (onHeaderReceived p c none n).run { headerBuffer, endpointCalls := 0 + 1 } with
    ⟨e | _, t⟩
  · rw [Throwing.run_bind_of_error hrun]
  · rw [hrun] at hreading
    rw [Throwing.run_bind_of_ok hrun, completePayload_of_not_reading hreading]

/-- **What must not go wrong in the course of a request.** -/
theorem Course.succeeds_iff {calls : List (List ℕ)} (h : Course p reads calls) :
    (attend p c reads).Succeeds {} ↔ ∀ ns ∈ calls, ∃ n ∈ ns, c.endpoint n = none := by
  cases h with
  | refused hopens havailable =>
    cases hheader : reads.header with
    | error message =>
      have hreceive : receive p c reads = onHeaderReceived p c (some message) 0 := by
        simp only [receive, hheader]
      rw [attend, hreceive, start, succeeds_remoteEndpoint_bind,
        succeeds_onHeaderReceived_error]
      simp
    | ok received =>
      obtain ⟨headerBuffer, n⟩ := received
      have hacc : ∀ signature blocks payloadBuffers, ¬ Accepts p (headerBuffer.take (n - 1))
          (headerBuffer.drop n) signature blocks payloadBuffers :=
        fun signature blocks payloadBuffers h =>
          hopens signature payloadBuffers ⟨headerBuffer, n, blocks, hheader, h⟩
      rw [succeeds_attend_of_not_accepts hheader hacc, succeeds_onHeaderReceived_refused hacc
        fun h => havailable ⟨headerBuffer, n, hheader, h⟩]
      simp
  | unavailable hunavailable =>
    obtain ⟨headerBuffer, n, hheader, hunavailable⟩ := hunavailable
    rw [succeeds_attend_of_not_accepts hheader fun _ _ _ h => h.not_unavailable hunavailable,
      succeeds_onHeaderReceived_unavailable hunavailable]
    simp
  | incomplete hopens hbrings =>
    obtain ⟨headerBuffer, hiff⟩ := succeeds_attend_of_opens (c := c) hopens
    rw [hiff]
    obtain ⟨stream, args, hpayload, hfill, -⟩ | ⟨-, message, heq⟩ :=
      completePayload_cases (p := p) (c := c) (h := opened _ _ headerBuffer) rfl reads.payload
    · exact absurd ⟨_, stream, hopens, hpayload, hfill⟩ (hbrings args)
    · rw [Throwing.Succeeds, heq]
      exact (and_congr_right fun _ => and_congr_right fun _ =>
        succeeds_onPayloadReceived_error).trans (by simp [opened])
  | failed hbrings hresult =>
    obtain ⟨u, rfl, rfl, hcalls, hiff⟩ := succeeds_attend_of_brings (c := c) hbrings
    rw [hiff, succeeds_onPayloadReceived_of_error hresult, hcalls]
    simp
  | sent hbrings hresult hsent =>
    obtain ⟨u, rfl, rfl, hcalls, hiff⟩ := succeeds_attend_of_brings (c := c) hbrings
    rw [hiff, succeeds_onPayloadReceived_of_ok hresult, hcalls]
    simp [hsent]
  | deficient hbrings hresult hdeficient =>
    obtain ⟨u, rfl, rfl, hcalls, hiff⟩ := succeeds_attend_of_brings (c := c) hbrings
    rw [hiff, succeeds_onPayloadReceived_of_ok hresult, hcalls]
    simp [hdeficient]

/-- A connection survives if the peer is there when it matters. -/
theorem succeeds_attend_iff : (attend p c reads).Succeeds {} ↔ PeerStays p c reads := by
  constructor
  · intro h
    obtain ⟨calls, hcourse⟩ := exists_course p reads
    exact ⟨calls, hcourse, hcourse.succeeds_iff.mp h⟩
  · rintro ⟨calls, hcourse, hcalls⟩
    exact hcourse.succeeds_iff.mpr hcalls

end SerializationHelper

/-! ### The listener -/

open SerializationHelper

/-- A `ServiceListener`: whether an `async_accept` is pending, and the helper of the connection it
has accepted last. -/
structure ServiceListener where
  accepting : Bool
  helper : SerializationHelper := {}

namespace ServiceListener

/-- The connection that has been accepted. -/
def connection : Throwing.Part ServiceListener SerializationHelper Unit where
  part := helper
  put l helper := { l with helper }
  rest _ := ()
  put_part _ := rfl
  part_put _ _ := rfl
  put_put _ _ _ := rfl
  rest_put _ _ := rfl

def startAccept : Throwing ServiceListener Exn Unit := modify fun l => { l with accepting := true }

/-- `handleAccept`. The first argument is the message of the error code, if there is an error. -/
def handleAccept (e : Option Text) (c : Connection) : Throwing ServiceListener Exn Unit := do
  -- the accept has completed, and the helper is new
  set ({ accepting := false } : ServiceListener)
  if e = none then Throwing.within connection fun _ => start c
  startAccept

/-- A connection, from the accept on. Its handlers run after `handleAccept`. -/
def connect (p : ServiceProvider) (c : Connection) (reads : Completion) :
    Throwing ServiceListener Exn Unit := do
  handleAccept none c
  Throwing.within connection fun _ => receive p c reads

/-- No exception leaves the handlers of the connection, and the listener waits for the next one. -/
def AcceptsNext (p : ServiceProvider) (c : Connection) (reads : Completion) : Prop :=
  ∀ l, ∃ l', (connect p c reads).run l = (.ok (), l') ∧ l'.accepting = true

variable {p : ServiceProvider} {c : Connection} {reads : Completion}

/-- The connection is started, and then the listener waits for the next one. -/
theorem handleAccept_of_ok {h : SerializationHelper} (hstart : (start c).run {} = (.ok (), h))
    (l : ServiceListener) : (handleAccept none c).run l = (.ok (), ⟨true, h⟩) := by
  rw [handleAccept, Throwing.run_set_bind, if_pos rfl, Throwing.run_bind_of_ok
    (Throwing.run_within_of_eq connection (x := fun _ => start c) (s := ⟨false, {}⟩) hstart)]
  rfl

/-- When `start` throws, the listener does not wait for the next connection. -/
theorem handleAccept_of_error {e : Exn} {h : SerializationHelper}
    (hstart : (start c).run {} = (.error e, h)) (l : ServiceListener) :
    (handleAccept none c).run l = (.error e, ⟨false, h⟩) := by
  rw [handleAccept, Throwing.run_set_bind, if_pos rfl, Throwing.run_bind_of_error
    (Throwing.run_within_of_eq connection (x := fun _ => start c) (s := ⟨false, {}⟩) hstart)]
  rfl

/-- A connection ends as its handlers do, and without an exception the listener waits for the next
one. -/
theorem run_connect (p : ServiceProvider) (c : Connection) (reads : Completion)
    (l : ServiceListener) : ∃ l',
      (connect p c reads).run l = (((attend p c reads).run {}).1, l') ∧
        (((attend p c reads).run {}).1 = .ok () → l'.accepting = true) := by
  rcases hstart : (start c).run {} with ⟨e | _, h⟩
  · rw [attend, Throwing.run_bind_of_error hstart]
    exact ⟨_, Throwing.run_bind_of_error (handleAccept_of_error hstart l),
      fun hok => (by cases hok)⟩
  · rw [attend, Throwing.run_bind_of_ok hstart]
    exact ⟨⟨true, ((receive p c reads).run h).2⟩,
      Throwing.run_bind_of_ok (handleAccept_of_ok hstart l), fun _ => rfl⟩

/-- It is the exceptions that leave `start` or a handler that matter. -/
theorem acceptsNext_iff_succeeds : AcceptsNext p c reads ↔ (attend p c reads).Succeeds {} := by
  constructor
  · intro hnext
    obtain ⟨l', hrun, -⟩ := hnext ⟨true, {}⟩
    obtain ⟨l'', hrun', -⟩ := run_connect p c reads ⟨true, {}⟩
    exact ⟨(), congrArg Prod.fst (hrun'.symm.trans hrun)⟩
  · rintro ⟨_, hok⟩ l
    obtain ⟨l', hrun, haccepting⟩ := run_connect p c reads l
    exact ⟨l', hok ▸ hrun, haccepting hok⟩

/-- **When a peer cannot take the provider down.** No exception leaves `start` or the handlers, and
the listener waits for the next connection, if and only if the peer is there for the calls that
matter; an exception leaves `sendResponse` when the peer is gone at its call, or when the response
lacks arguments. -/
theorem acceptsNext_iff (p : ServiceProvider) (c : Connection) (reads : Completion) :
    (AcceptsNext p c reads ↔ PeerStays p c reads) ∧
      ∀ r h, (sendResponse p c r).Succeeds h ↔
        c.endpoint h.endpointCalls = none ∧ ¬ Deficient r :=
  ⟨acceptsNext_iff_succeeds.trans succeeds_attend_iff, fun _ _ => succeeds_sendResponse⟩

/-! ### A peer that goes away -/

/-- The peer is there for `k` calls, and then gone for good. -/
def GoneAfter (c : Connection) (k : ℕ) : Prop := ∀ n, c.endpoint n = none ↔ n < k

/-- **A peer that is gone before the third call** takes the provider down, whatever it sent. -/
theorem not_acceptsNext_of_gone {k : ℕ} (hgone : GoneAfter c k) (hk : k < 3) :
    ¬ AcceptsNext p c reads := by
  rw [acceptsNext_iff_succeeds, succeeds_attend_iff]
  rintro ⟨calls, hcourse, hcalls⟩
  -- the last list of every course asks for a call from the third on
  have hlast : ∃ ns ∈ calls, ∀ n ∈ ns, 2 ≤ n := by
    cases hcourse <;> decide
  obtain ⟨ns, hns, hle⟩ := hlast
  obtain ⟨n, hn, hnone⟩ := hcalls ns hns
  have hlt := (hgone n).mp hnone
  have hge := hle n hn
  omega

/-- **A peer that stays for six calls** does not, whatever it sent. -/
theorem acceptsNext_of_gone {k : ℕ} (hgone : GoneAfter c k) (hk : 6 ≤ k) :
    AcceptsNext p c reads := by
  rw [acceptsNext_iff_succeeds, succeeds_attend_iff]
  obtain ⟨calls, hcourse⟩ := exists_course p reads
  have hfirst : ∀ ns ∈ calls, ∃ n ∈ ns, n < 6 := by
    cases hcourse <;> decide
  refine ⟨calls, hcourse, fun ns hns => ?_⟩
  obtain ⟨n, hn, hlt⟩ := hfirst ns hns
  exact ⟨n, hn, (hgone n).mpr (Nat.lt_of_lt_of_le hlt hk)⟩

/-- A peer that is gone when its connection is accepted. -/
def goneConnection : Connection where
  stream := []
  endpoint _ := some (.runtime (txt "remote_endpoint: Transport endpoint is not connected"))

/-- It takes the provider down. -/
theorem not_acceptsNext_goneConnection :
    ¬ AcceptsNext ⟨headerYaml.toYamlLibrary, sampleFactory⟩ goneConnection
      goneConnection.completion :=
  not_acceptsNext_of_gone (k := 0) (fun n => by simp [goneConnection]) (by decide)

/-! ### One connection after the other -/

/-- **A listener goes on** through a sequence of connections if and only if each peer is there for
the calls that matter. -/
theorem connections_iff (p : ServiceProvider) (connections : List (Connection × Completion)) :
    (∃ l, (forM connections fun x => connect p x.1 x.2).run ⟨true, {}⟩ = (.ok (), l) ∧
      l.accepting = true) ↔ ∀ x ∈ connections, PeerStays p x.1 x.2 := by
  suffices h : ∀ l : ServiceListener, l.accepting = true →
      ((∃ l', (forM connections fun x => connect p x.1 x.2).run l = (.ok (), l') ∧
        l'.accepting = true) ↔ ∀ x ∈ connections, PeerStays p x.1 x.2) from h _ rfl
  intro l hl
  induction connections generalizing l with
  | nil => exact ⟨fun _ x hx => absurd hx List.not_mem_nil, fun _ => ⟨l, rfl, hl⟩⟩
  | cons x connections ih =>
    rw [List.forall_mem_cons, List.forM_cons, ← succeeds_attend_iff]
    obtain ⟨t, hrun, haccepting⟩ := run_connect p x.1 x.2 l
    rcases hend : ((attend p x.1 x.2).run {}).1 with e | _
    · rw [hend] at hrun
      rw [Throwing.run_bind_of_error hrun]
      exact ⟨fun ⟨l', h, _⟩ => (by cases h), fun ⟨⟨_, h⟩, _⟩ => (by rw [hend] at h; cases h)⟩
    · rw [hend] at hrun
      rw [Throwing.run_bind_of_ok hrun, ih t (haccepting hend)]
      exact ⟨fun h => ⟨⟨(), hend⟩, h⟩, And.right⟩

end ServiceListener

end Ssoa
