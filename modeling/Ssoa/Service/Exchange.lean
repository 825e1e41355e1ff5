import Ssoa.Service.Cut
import Ssoa.Service.Stub

/-!
# What a provider writes

Whatever is written to a connection are the bytes of a response. If the request decodes, the service
is invoked at most once, and the response is what it returned, or an unsuccessful one (`Answered`).

The peer may be gone for any call of `remote_endpoint()`. This can leave a service invoked and
nothing written.

## Main results

* `SerializationHelper.encoded_served` — responses are written as `getConstBuffers` says
* `SerializationHelper.answered_of_decodes` — what becomes of a request that decodes
-/

namespace Ssoa

open Scatter

namespace SerializationHelper

variable {p : ServiceProvider} {c : Connection}

/-! ### Responses are written whole -/

/-- What has been written are the bytes of responses. -/
def Encoded (y : YamlLibrary) (h : SerializationHelper) : Prop :=
  ∀ r buffers, Event.write r buffers ∈ h.events → r.getConstBuffers y = .ok buffers

theorem preserves_remoteEndpoint (p : ServiceProvider) (c : Connection) :
    Throwing.Preserves (Encoded p.yaml) (remoteEndpoint c) := by
  intro h hh
  obtain ⟨-, heq⟩ | ⟨e, -, heq⟩ := remoteEndpoint_cases c h <;>
    · rw [heq]
      exact hh

theorem preserves_sendResponse (p : ServiceProvider) (c : Connection) (r : Option Response) :
    Throwing.Preserves (Encoded p.yaml) (sendResponse p c r) := by
  intro h hh
  obtain ⟨r', -, ⟨buffers, hbuffers, heq⟩ | ⟨e, -, heq⟩⟩ := sendResponse_cases p c r h
  · rw [heq]
    intro r'' buffers' hmem
    rcases List.mem_append.mp hmem with hmem | hmem
    · exact hh r'' buffers' hmem
    · obtain ⟨rfl, rfl⟩ := Event.write.inj (List.mem_singleton.mp hmem)
      exact hbuffers
  · rw [heq]
    exact hh

theorem preserves_sendFailure (p : ServiceProvider) (c : Connection) (message : Text) :
    Throwing.Preserves (Encoded p.yaml) (sendFailure p c message) :=
  .get_bind fun _ _ => preserves_sendResponse p c _

theorem preserves_receiveHeader (p : ServiceProvider) (c : Connection) (n : ℕ) :
    Throwing.Preserves (Encoded p.yaml) (receiveHeader p c n) := by
  refine .get_bind fun h hh => .bind (Throwing.preserves_lift _) fun node =>
    .bind (Throwing.preserves_lift _) fun service => .bind (Throwing.preserves_set hh) fun _ => ?_
  split
  · exact preserves_sendFailure p c _
  · refine .bind (Throwing.preserves_lift _) fun blocks => ?_
    dsimp only
    split
    · exact Throwing.preserves_throw _
    · exact .bind (Throwing.preserves_lift _) fun _ => Throwing.preserves_set hh

theorem preserves_onHeaderReceived (p : ServiceProvider) (c : Connection) (e : Option Text)
    (n : ℕ) : Throwing.Preserves (Encoded p.yaml) (onHeaderReceived p c e n) := by
  cases e with
  | some message =>
    exact (preserves_remoteEndpoint p c).bind fun _ => preserves_sendFailure p c _
  | none =>
    exact (preserves_remoteEndpoint p c).bind fun _ =>
      (preserves_receiveHeader p c n).tryCatch fun _ => preserves_sendFailure p c _

theorem preserves_invokeService (p : ServiceProvider) (c : Connection) :
    Throwing.Preserves (Encoded p.yaml) (invokeService p c) := by
  intro h hh
  have hinvoking : ∀ impl, Encoded p.yaml (h.invoking impl) := by
    intro impl r buffers hmem
    rcases List.mem_append.mp hmem with hmem | hmem
    · exact hh r buffers hmem
    · cases List.mem_singleton.mp hmem
  obtain ⟨e, -, heq⟩ | ⟨impl, -, ⟨e, -, heq⟩ | ⟨r, -, heq⟩⟩ := invokeService_cases p c h <;>
    rw [heq]
  · exact hh
  · exact hinvoking impl
  · exact preserves_sendResponse p c r _ (hinvoking impl)

theorem preserves_onPayloadReceived (p : ServiceProvider) (c : Connection) (e : Option Text) :
    Throwing.Preserves (Encoded p.yaml) (onPayloadReceived p c e) := by
  cases e with
  | some message =>
    exact (preserves_remoteEndpoint p c).bind fun _ => preserves_sendFailure p c _
  | none =>
    exact (preserves_remoteEndpoint p c).bind fun _ => (preserves_remoteEndpoint p c).bind fun _ =>
      (preserves_invokeService p c).tryCatch fun _ => preserves_sendFailure p c _

theorem preserves_serve (p : ServiceProvider) (c : Connection) :
    Throwing.Preserves (Encoded p.yaml) (serve p c) := by
  refine (preserves_remoteEndpoint p c).bind fun _ => ?_
  cases readUntil c.stream c.overRead with
  | none => exact preserves_onHeaderReceived p c _ _
  | some received =>
    refine .bind (fun _ hh => hh) fun _ =>
      (preserves_onHeaderReceived p c none _).bind fun _ => .get_bind fun h hh => ?_
    split
    · cases fill h.payloadBuffers received.2.2 with
      | none => exact preserves_onPayloadReceived p c _
      | some arguments =>
        exact .bind (Throwing.preserves_set hh) fun _ => preserves_onPayloadReceived p c none
    · exact Throwing.preserves_pure _

/-- **Responses are written as `getConstBuffers` says.** -/
theorem encoded_served (p : ServiceProvider) (c : Connection) : Encoded p.yaml (served p c) :=
  preserves_serve p c {} fun _ _ hmem => absurd hmem List.not_mem_nil

/-! ### A request that decodes -/

/-- The response to a request, given what the service returns or throws: if it cannot be serialised,
an unsuccessful one takes its place. -/
def outcome (y : YamlLibrary) (signature : ServiceSignature) (x : Except Exn (Option Response)) :
    Response :=
  match (reply signature x).getConstBuffers y with
  | .ok _ => reply signature x
  | .error e => .new signature false (txt "Internal server error: " ++ e.what)

theorem outcome_of_ok {y : YamlLibrary} {signature : ServiceSignature}
    {x : Except Exn (Option Response)} {buffers : List (List Byte)}
    (h : (reply signature x).getConstBuffers y = .ok buffers) :
    outcome y signature x = reply signature x := by
  rw [outcome, h]

theorem outcome_of_error {y : YamlLibrary} {signature : ServiceSignature}
    {x : Except Exn (Option Response)} {e : Exn}
    (h : (reply signature x).getConstBuffers y = .error e) :
    outcome y signature x = .new signature false (txt "Internal server error: " ++ e.what) := by
  rw [outcome, h]

/-- A service that throws. -/
theorem outcome_error (y : YamlLibrary) (signature : ServiceSignature) (e : Exn) :
    outcome y signature (.error e) =
      .new signature false (txt "Internal server error: " ++ e.what) :=
  outcome_of_ok (Response.getConstBuffers_of_unsuccessful y
    (r := .new signature false (txt "Internal server error: " ++ e.what)) rfl)

/-- Only what a service returns is a successful response. -/
theorem eq_of_outcome_successful {y : YamlLibrary} {signature : ServiceSignature}
    {x : Except Exn (Option Response)} (h : (outcome y signature x).successful = true) :
    x = .ok (some (outcome y signature x)) := by
  cases hbuffers : (reply signature x).getConstBuffers y with
  | error e =>
    rw [outcome_of_error hbuffers] at h
    cases h
  | ok buffers =>
    rw [outcome_of_ok hbuffers] at h ⊢
    obtain e | _ | r := x
    · cases h
    · cases h
    · rfl

/-- Between two states of the helper the service was invoked and a response to the peer written,
as far as the peer was there. -/
inductive Answered (p : ServiceProvider) (c : Connection) (impl : Skeleton)
    (h h' : SerializationHelper) : Prop
  /-- Nothing was invoked. -/
  | gone (hgone : ¬ c.Alive) (hevents : h'.events = h.events)
  /-- Nothing was written. -/
  | silent (hgone : ¬ c.Alive)
      (hevents : h'.events = h.events ++ [.invoke h.signature.signature impl.service])
  /-- A response was written. If it is not the outcome, the peer was gone for a while. -/
  | answered (r : Response) (buffers : List (List Byte))
      (houtcome : r = outcome p.yaml h.signature (impl.invoke impl.service) ∨
        r.successful = false ∧ ¬ c.Alive)
      (hevents : h'.events =
        h.events ++ [.invoke h.signature.signature impl.service, .write r buffers])

theorem not_alive_of_endpoint {n : ℕ} {e : Exn} (h : c.endpoint n = some e) : ¬ c.Alive :=
  fun halive => halive.ne_some h

theorem Answered.of_events {impl : Skeleton} {h t u : SerializationHelper}
    (hsignature : t.signature = h.signature) (hevents : t.events = h.events)
    (ha : Answered p c impl t u) : Answered p c impl h u := by
  obtain ⟨hgone, heq⟩ | ⟨hgone, heq⟩ | ⟨r, buffers, houtcome, heq⟩ := ha
  · exact .gone hgone (heq.trans hevents)
  · exact .silent hgone (by rw [heq, hevents, hsignature])
  · exact .answered r buffers (hsignature ▸ houtcome) (by rw [heq, hevents, hsignature])

theorem remoteEndpoint_answered {x : Handler Unit} {impl : Skeleton} {h : SerializationHelper}
    (hx : Answered p c impl { h with endpointCalls := h.endpointCalls + 1 }
      (x.run { h with endpointCalls := h.endpointCalls + 1 }).2) :
    Answered p c impl h ((remoteEndpoint c >>= fun _ => x).run h).2 := by
  obtain ⟨-, heq⟩ | ⟨e, he, heq⟩ := remoteEndpoint_cases c h
  · rw [Throwing.run_bind_of_ok heq]
    exact .of_events (t := { h with endpointCalls := h.endpointCalls + 1 }) rfl rfl hx
  · rw [Throwing.run_bind_of_error heq]
    exact .gone (not_alive_of_endpoint he) rfl

/-- The `catch` clause, after the service has been invoked and nothing was written. -/
theorem sendFailure_answered {impl : Skeleton} {h t : SerializationHelper} (message : Text)
    (hsignature : t.signature = h.signature)
    (hevents : t.events = h.events ++ [.invoke h.signature.signature impl.service])
    (houtcome : .new h.signature false message =
      outcome p.yaml h.signature (impl.invoke impl.service) ∨ ¬ c.Alive) :
    Answered p c impl h ((sendFailure p c message).run t).2 := by
  have hrun : (sendFailure p c message).run t =
      (sendResponse p c (some (.new t.signature false message))).run t := rfl
  obtain ⟨r, hr, ⟨buffers, -, heq⟩ | ⟨e, he | he, heq⟩⟩ :=
    sendResponse_cases p c (some (.new t.signature false message)) t
  · rw [hrun, heq]
    refine .answered r buffers ?_ (by simp [hevents])
    rw [hr, Option.getD_some, hsignature]
    exact houtcome.imp id fun hgone => ⟨rfl, hgone⟩
  · rw [hrun, heq]
    exact .silent (not_alive_of_endpoint he) hevents
  · rw [Response.getConstBuffers_of_unsuccessful p.yaml (by rw [hr]; rfl)] at he
    cases he

/-- **What the handler does when the payload is there.** -/
theorem onPayloadReceived_answered {impl : Skeleton} {h : SerializationHelper}
    (hcreate : p.factory.create h.signature.signature (h.payloadBuffers.map Prod.fst) = .ok impl) :
    Answered p c impl h ((onPayloadReceived p c none).run h).2 := by
  refine remoteEndpoint_answered (remoteEndpoint_answered (.of_events
    (t := { h with endpointCalls := h.endpointCalls + 1 + 1 }) rfl rfl ?_))
  set u : SerializationHelper := { h with endpointCalls := h.endpointCalls + 1 + 1 }
  obtain ⟨e, hcreate', -⟩ | ⟨impl', hcreate', hcases⟩ := invokeService_cases p c u
  · cases hcreate.symm.trans hcreate'
  obtain rfl := Except.ok.inj (hcreate.symm.trans hcreate')
  obtain ⟨e, hinvoke, hrun⟩ | ⟨r, hinvoke, hrun⟩ := hcases
  · rw [Throwing.run_tryCatch_of_error hrun]
    refine sendFailure_answered _ rfl rfl (.inl ?_)
    rw [hinvoke, outcome_error]
  · have hreply : reply u.signature (impl.invoke impl.service) =
        r.getD (.new u.signature false (txt "Internal server error: produced a NULL response.")) :=
      by rw [hinvoke]; rfl
    obtain ⟨r', hr', ⟨buffers, hbuffers, hsend⟩ | ⟨e, he, hsend⟩⟩ :=
      sendResponse_cases p c r (u.invoking impl)
    · rw [Throwing.run_tryCatch_of_ok (hrun.trans hsend)]
      have hr' : r' = reply u.signature (impl.invoke impl.service) := hr'.trans hreply.symm
      refine .answered r' buffers (.inl ?_) (by simp [invoking])
      rw [hr'] at hbuffers
      rw [outcome_of_ok hbuffers, hr']
    · rw [Throwing.run_tryCatch_of_error (hrun.trans hsend)]
      refine sendFailure_answered _ rfl rfl (he.symm.imp (fun hbuffers => ?_) not_alive_of_endpoint)
      have hr' : r' = reply u.signature (impl.invoke impl.service) := hr'.trans hreply.symm
      rw [hr'] at hbuffers
      rw [outcome_of_error hbuffers]

/-- **What becomes of a request that decodes.** -/
theorem answered_of_decodes {signature : ServiceSignature} {blocks : List (BitVec 32)}
    {args : List ServiceArgument} (h : Decodes p c.stream signature blocks args) {impl : Skeleton}
    (hcreate : p.factory.create signature.signature args = .ok impl) :
    Answered p c impl { signature } (served p c) := by
  have hmem : 0 ∈ c.stream := h.terminated
  obtain ⟨payloadBuffers, hacc, hfill⟩ := (decodes_iff hmem c.overRead).mp h
  rw [served, serve_of_mem hmem]
  obtain ⟨-, hstart⟩ | ⟨e, he, hstart⟩ := remoteEndpoint_cases c {}
  · rw [Throwing.run_bind_of_ok hstart, Throwing.run_modify_bind]
    obtain ⟨-, hheader⟩ | ⟨e, he, hheader⟩ :=
      onHeaderReceived_of_accepts (c := c) (accepts_fetched.mpr hacc)
    · rw [Throwing.run_bind_of_ok hheader, readPayload_of_some rfl hfill]
      refine .of_events ?_ ?_ (onPayloadReceived_answered (by rw [map_fst_whole]; exact hcreate))
      · rfl
      · rfl
    · rw [Throwing.run_bind_of_error hheader]
      exact .gone (not_alive_of_endpoint he) rfl
  · rw [Throwing.run_bind_of_error hstart]
    exact .gone (not_alive_of_endpoint he) rfl

end SerializationHelper

end Ssoa
