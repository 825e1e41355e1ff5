import Ssoa.Service.Exchange

/-!
# Remote calls

To submit a request is to call the service of somebody else. What comes of it depends on the network
in between, which may lose the request or the response, wholly or in part. The call takes place at
most once, with exactly the arguments that were pushed, and a successful response is the one the
service returned. A client that gets an error, or an unsuccessful response, does not know whether
the call has taken place.

Arguments of 2 GiB and more are left out, since their sizes cannot be written.

## Main results

* `Hosts.allows_clients` — any number of submissions: each is a call at most once
* `Hosts.submit_of_whole` — if nothing goes wrong, it is a call
* `Hosts.exists_run_submit_mortal` — if the provider ends as it serves the request
-/

namespace Ssoa

/-! ### One exchange -/

namespace ServiceStub

open SerializationHelper

/-- The stub has all arguments, of the declared types, none of them of 2 GiB, and its signature is
valid. -/
structure Ready (s : ServiceStub) : Prop where
  valid : s.signature.isValid = true
  types : s.arguments.map (·.kind.type) = s.signature.inputParams
  small : ∀ a ∈ s.arguments, a.data.length < 2 ^ 31

variable {W : Type} {s : ServiceStub} {p : Installation W} {k : ServiceClass W}

/-- The skeleton a class is invoked with, for the request of the stub. -/
def skeleton (s : ServiceStub) (k : ServiceClass W) : Service :=
  .ofArguments k.signature s.arguments

/-- The bytes of a request. -/
def request (y : YamlLibrary) (s : ServiceStub) : List Byte :=
  wire (y.emitted s.header) ++ (s.arguments.map (·.data)).flatten

/-- What a provider that keeps `w` writes to the peer, and keeps then, when it gets the request or a
part of it. -/
inductive Served (p : Installation W) (y : YamlLibrary) (s : ServiceStub) (w : W) :
    List Byte → W → Prop
  | idle : Served p y s w [] w
  | refused {r : Response} {buffers : List (List Byte)} (hr : r.successful = false)
      (hbuffers : r.getConstBuffers y = .ok buffers) : Served p y s w buffers.flatten w
  | silent {k : ServiceClass W} (hk : p.classOf s.signature.signature = some k) :
      Served p y s w [] (k.invoke (s.skeleton k) w).2
  | answered {k : ServiceClass W} (hk : p.classOf s.signature.signature = some k) {r : Response}
      {buffers : List (List Byte)} (hbuffers : r.getConstBuffers y = .ok buffers)
      (hr : r = outcome y s.signature (k.invoke (s.skeleton k) w).1 ∨ r.successful = false) :
      Served p y s w buffers.flatten (k.invoke (s.skeleton k) w).2

theorem Ready.getConstBuffers (h : s.Ready) (y : YamlLibrary) : ∃ buffers,
    s.getConstBuffers y = .ok buffers ∧ buffers.flatten = s.request y := by
  have hlen : s.arguments.length = s.signature.inputParams.length := by
    rw [← h.types, List.length_map]
  refine ⟨_, if_neg (Nat.not_lt.mpr (Nat.le_of_eq hlen.symm)), ?_⟩
  rw [List.flatten_cons]
  rfl

theorem after_nil (p : Installation W) (w : W) : p.after w [] = w := rfl

theorem after_singleton {service : Text} (hk : p.classOf service = some k) (skeleton : Service)
    (w : W) : p.after w [(service, skeleton)] = (k.invoke skeleton w).2 := by
  simp [Installation.after, hk]

/-- A service was invoked and a response written. -/
theorem serve_of_events {y : YamlLibrary} {w : W} {c : Connection} {service : Text}
    (hk : p.classOf service = some k) {skeleton : Service} {r : Response}
    {buffers : List (List Byte)} (hevents : (served (p.provider y w) c).events =
      [.invoke service skeleton, .write r buffers]) :
    p.serve y c w = (buffers.flatten, (k.invoke skeleton w).2) := by
  simp [Installation.serve, written, invocations, hevents, Event.invocation, List.filterMap_cons,
    after_singleton hk]

/-- A request that is not understood. -/
theorem served_of_refused {y : YamlLibrary} {w : W} {c : Connection}
    (h : Refused c {} (served (p.provider y w) c)) :
    Served p y s w (p.serve y c w).1 (p.serve y c w).2 := by
  have hafter : (p.serve y c w).2 = w := by
    rw [Installation.serve, h.invocations]
    rfl
  have hencoded := encoded_served (p.provider y w) c
  obtain ⟨r, buffers, hr, hevents⟩ | ⟨hevents, -⟩ := h
  · have hwritten : (p.serve y c w).1 = buffers.flatten := by
      simp [Installation.serve, written, hevents]
    rw [hafter, hwritten]
    exact .refused hr (hencoded r buffers (by simp [hevents]))
  · have hwritten : (p.serve y c w).1 = [] := by simp [Installation.serve, written, hevents]
    rw [hafter, hwritten]
    exact .idle

/-- A request that is understood. -/
theorem served_of_answered {y : YamlLibrary} {w : W} {c : Connection}
    (hk : p.classOf s.signature.signature = some k)
    (h : Answered (p.provider y w) c ⟨s.skeleton k, fun s => (k.invoke s w).1⟩
      { signature := s.signature } (served (p.provider y w) c)) :
    Served p y s w (p.serve y c w).1 (p.serve y c w).2 := by
  have hencoded := encoded_served (p.provider y w) c
  obtain ⟨-, hevents⟩ | ⟨-, hevents⟩ | ⟨r, buffers, houtcome, hevents⟩ := h
  · have hserve : p.serve y c w = ([], w) := by
      simp [Installation.serve, written, invocations, hevents, after_nil]
    rw [hserve]
    exact .idle
  · have hserve : p.serve y c w = ([], (k.invoke (s.skeleton k) w).2) := by
      simp [Installation.serve, written, invocations, hevents, Event.invocation,
        after_singleton hk]
    rw [hserve]
    exact .silent hk
  · rw [serve_of_events hk hevents]
    exact .answered hk (hencoded r buffers (by simp [hevents])) (houtcome.imp id And.left)

/-- **What a provider makes of a part of a request.** -/
theorem served_of_cut (h : s.Ready) (p : Installation W) (y : YamlCpp) (w : W) {c : Connection}
    (hcut : c.stream <+: s.request y.toYamlLibrary) :
    Served p y.toYamlLibrary s w (p.serve y.toYamlLibrary c w).1
      (p.serve y.toYamlLibrary c w).2 := by
  by_cases hdecodes : ∃ signature blocks args,
      Decodes (p.provider y.toYamlLibrary w) c.stream signature blocks args
  · obtain ⟨signature, blocks, args, hdecodes⟩ := hdecodes
    obtain ⟨rfl, rfl⟩ := decodes_of_cut y rfl h.valid h.types h.small hcut hdecodes
    obtain ⟨k, hk⟩ := Installation.classOf_of_contains _ hdecodes.installed
    have hlookup := Installation.lookup_of_classOf y.toYamlLibrary (w := w) hk
    exact served_of_answered hk
      (answered_of_decodes hdecodes (FactoryBase.create_of_lookup hlookup s.arguments))
  · exact served_of_refused (serve_refused fun signature blocks args h =>
      hdecodes ⟨signature, blocks, args, h⟩)

/-! ### A request over a link that is whole -/

/-- What the client gets of a response if nothing goes wrong. -/
inductive Delivers (r : Response) : Except Exn Response → Prop
  /-- An unsuccessful response arrives without its arguments. -/
  | unsuccessful (hr : r.successful = false) : Delivers r (.ok (.new r.signature false r.status))
  /-- Without a status, the client throws. -/
  | noStatus (hr : r.successful = true) (hstatus : r.status = []) (e : Exn) : Delivers r (.error e)
  | successful (hr : r.successful = true) (hstatus : r.status ≠ []) : Delivers r (.ok r)

theorem Delivers.of_unsuccessful {r : Response} {received : Except Exn Response}
    (h : Delivers r received) (hr : r.successful = false) :
    received = .ok (.new r.signature false r.status) := by
  cases h with
  | unsuccessful => rfl
  | noStatus hr' => cases hr.symm.trans hr'
  | successful hr' => cases hr.symm.trans hr'

theorem Delivers.of_status {r : Response} {received : Except Exn Response} (h : Delivers r received)
    (hr : r.successful = true) (hstatus : r.status ≠ []) : received = .ok r := by
  cases h with
  | unsuccessful hr' => cases hr.symm.trans hr'
  | noStatus _ hnone => exact absurd hnone hstatus
  | successful => rfl

theorem delivers_deserialize (y : YamlCpp) {r : Response} (hr : r.Reachable)
    (hvalid : r.signature.isValid = true) {buffers : List (List Byte)}
    (hbuffers : r.getConstBuffers y.toYamlLibrary = .ok buffers)
    (hsize : r.successful = true → ∀ a ∈ r.arguments, a.data.length < 2 ^ 31) {overRead : ℕ}
    (hover : overRead < 2 ^ 31) :
    Delivers r (Response.deserialize y.toYamlReader buffers.flatten overRead) := by
  rw [Response.flatten_of_getConstBuffers hbuffers]
  cases hs : r.successful with
  | false =>
    rw [Response.deserialize_of_unsuccessful y hvalid hs]
    exact .unsuccessful hs
  | true =>
    by_cases hstatus : r.status = []
    · obtain ⟨e, he⟩ := Response.deserialize_of_empty_status y hvalid hs hstatus
        (r.arguments.map (·.data)).flatten overRead
      rw [he]
      exact .noStatus hs hstatus e
    · obtain ⟨htypes, hpushed⟩ := hr.complete hs hbuffers
      rw [Response.deserialize_of_successful y hvalid hs hstatus htypes (hsize hs) hover, ← hpushed]
      exact .successful hs hstatus

/-- **A whole request to a peer that stays is a call**: the service is invoked with the arguments of
the stub, and the outcome is written. -/
theorem serve_of_whole (h : s.Ready) (y : YamlCpp) (w : W)
    (hk : p.classOf s.signature.signature = some k) {c : Connection}
    (hc : c.stream = s.request y.toYamlLibrary) (halive : c.Alive) :
    ∃ buffers, (outcome y.toYamlLibrary s.signature (k.invoke (s.skeleton k) w).1).getConstBuffers
        y.toYamlLibrary = .ok buffers ∧
      p.serve y.toYamlLibrary c w = (buffers.flatten, (k.invoke (s.skeleton k) w).2) := by
  have hlookup := Installation.lookup_of_classOf y.toYamlLibrary (w := w) hk
  have hdecodes := decodes_of_sent y (p := p.provider y.toYamlLibrary w) rfl h.valid
    (FactoryBase.contains_of_lookup hlookup) h.types h.small
  have hstream : c.stream = wire (y.emitted (Service.ofArguments s.signature s.arguments).header) ++
    (s.arguments.map (·.data)).flatten := hc
  rw [← hstream] at hdecodes
  have hencoded := encoded_served (p.provider y.toYamlLibrary w) c
  have hanswered : Answered (p.provider y.toYamlLibrary w) c
      ⟨s.skeleton k, fun s => (k.invoke s w).1⟩ { signature := s.signature }
      (served (p.provider y.toYamlLibrary w) c) :=
    answered_of_decodes hdecodes (FactoryBase.create_of_lookup hlookup s.arguments)
  obtain ⟨hgone, -⟩ | ⟨hgone, -⟩ | ⟨r, buffers, hr | ⟨-, hgone⟩, hevents⟩ := hanswered
  · exact absurd halive hgone
  · exact absurd halive hgone
  · have hbuffers := hencoded r buffers (by simp [hevents])
    exact ⟨buffers, by rwa [hr] at hbuffers, serve_of_events hk hevents⟩
  · exact absurd halive hgone

end ServiceStub

/-! ### Submissions -/

/-- A stub that is submitted. Its signature is valid, and no argument has 2 GiB. -/
structure Submission where
  stub : ServiceStub
  reachable : stub.Reachable
  valid : stub.signature.isValid = true
  small : ∀ a ∈ stub.arguments, a.data.length < 2 ^ 31

open ServiceStub in
theorem Submission.ready (s : Submission)
    (hlen : s.stub.signature.inputParams.length ≤ s.stub.arguments.length) : s.stub.Ready where
  valid := s.valid
  types := (reachable_iff.mp s.reachable).types.eq_of_length_le (by rwa [List.length_map])
  small := s.small

namespace Hosts

open ServiceStub SerializationHelper

variable {W : Type} (hosts : Hosts W)

/-- The class the request of a stub is for, when it is submitted over the `n`-th connection. -/
def target (n : ℕ) (s : ServiceStub) : Option (ServiceClass W) :=
  (hosts.listening n s.host s.port).bind fun p => p.classOf s.signature.signature

/-- What may come of a submission: either the call does not take place, and the client does not get
a successful response; or it takes place, and if the client gets a successful response, it is the
one the service returned. -/
inductive AtMostOnce : W × ℕ → Submission → Except Exn Response → W × ℕ → Prop
  | lost {w : W} {n n' : ℕ} {s : Submission} {received : Except Exn Response}
      (hreceived : ∀ r, received = .ok r → r.successful = false) :
      AtMostOnce (w, n) s received (w, n')
  | called {w : W} {n n' : ℕ} {s : Submission} {received : Except Exn Response} {k : ServiceClass W}
      (hk : hosts.target n s.stub = some k)
      (hreceived : ∀ r, received = .ok r → r.successful = true → ∃ r₀,
        (k.invoke (s.stub.skeleton k) w).1 = .ok (some r₀) ∧ r₀.successful = true ∧
        ((∀ a ∈ r₀.arguments, a.data.length < 2 ^ 31) → r = r₀)) :
      AtMostOnce (w, n) s received ((k.invoke (s.stub.skeleton k) w).2, n')

/-- The clients of the hosts, as they submit one stub after the other. -/
def clients (y : YamlLibrary) (w : W) : Machine (W × ℕ) Submission (Except Exn Response) :=
  ⟨(w, 0), fun t s => (s.stub.submit y (hosts.network y)).run t⟩

variable {hosts} {s : ServiceStub} {w : W} {n : ℕ} {p : Installation W}

theorem run_connect (y : YamlLibrary) (hp : hosts.listening n s.host s.port = some p) :
    ((hosts.network y).connect s.host s.port).run (w, n) = (.ok (), (w, n)) := by
  simp only [network, Throwing.run, hp]

/-- Nobody listens. -/
theorem run_submit_of_none (y : YamlLibrary) (hp : hosts.listening n s.host s.port = none) :
    (s.submit y (hosts.network y)).run (w, n) =
      (.error (hosts.unreachable s.host s.port), (w, n + 1)) := by
  have hconnect : ((hosts.network y).connect s.host s.port).run (w, n) =
      (.error (hosts.unreachable s.host s.port), (w, n + 1)) := by
    simp only [network, Throwing.run, hp]
  exact Throwing.run_bind_of_error hconnect

/-- Arguments are missing. -/
theorem run_submit_of_lt (y : YamlLibrary) (hp : hosts.listening n s.host s.port = some p)
    (hlt : s.arguments.length < s.signature.inputParams.length) :
    (s.submit y (hosts.network y)).run (w, n) =
      (.error (stillMissing (s.signature.inputParams.length - s.arguments.length)), (w, n)) := by
  have hmissing : s.getConstBuffers y = .error _ := if_pos hlt
  rw [submit, Throwing.run_bind_of_ok (run_connect y hp)]
  exact Throwing.run_bind_of_error ((Throwing.run_lift _ _).trans (by rw [hmissing]))

/-- What is received is deserialized. -/
theorem run_submit_of_exchange {y : YamlLibrary} {net : Network W} {w' : W}
    {buffers : List (List Byte)} {received : Except Exn (List Byte × ℕ)}
    (hconnect : (net.connect s.host s.port).run w = (.ok (), w))
    (hbuffers : s.getConstBuffers y = .ok buffers)
    (hexchange : (net.exchange s.host s.port buffers.flatten).run w = (received, w')) :
    (s.submit y net).run w = (received.bind fun received =>
      Response.deserialize y.toYamlReader received.1 received.2, w') := by
  rw [submit, Throwing.run_bind_of_ok hconnect,
    Throwing.run_bind_of_ok ((Throwing.run_lift _ _).trans (by rw [hbuffers]))]
  cases received with
  | error e => exact Throwing.run_bind_of_error hexchange
  | ok received => exact Throwing.run_bind_of_ok hexchange

/-- A stub that has all arguments is submitted to a host that listens. -/
theorem run_submit {y : YamlLibrary} (hs : s.Ready)
    (hp : hosts.listening n s.host s.port = some p) :
    let served := p.serve y ((hosts.link n).connection (s.request y)) w
    (s.submit y (hosts.network y)).run (w, n) =
      (((hosts.link n).comesBack served.1).bind fun received =>
        Response.deserialize y.toYamlReader received.1 received.2, (served.2, n + 1)) := by
  intro served
  obtain ⟨buffers, hbuffers, hflatten⟩ := hs.getConstBuffers y
  have hexchange : ((hosts.network y).exchange s.host s.port (s.request y)).run (w, n) =
      ((hosts.link n).comesBack served.1, (served.2, n + 1)) := by
    simp only [network, Throwing.run, hp, Installation.exchange]
    rfl
  exact run_submit_of_exchange (run_connect y hp) hbuffers (by rw [hflatten, hexchange])

/-- What the client deserializes is a part of the response, and not much of it has been fetched
with the header. -/
theorem exists_of_comesBack {link : Link} {y : YamlReader} {bytes : List Byte} {r : Response}
    (h : ((link.comesBack bytes).bind fun received =>
      Response.deserialize y received.1 received.2) = .ok r) :
    ∃ stream overRead, stream <+: bytes ∧ overRead < 2 ^ 31 ∧
      Response.deserialize y stream overRead = .ok r := by
  rw [Link.comesBack] at h
  split at h
  · cases h
  · exact ⟨_, _, Link.arrives_prefix _ _,
      Nat.lt_of_le_of_lt link.overReadBack_le (by decide), h⟩

/-- Of no bytes the client makes no response. -/
theorem exists_of_comesBack_nil (link : Link) (y : YamlReader) : ∃ e,
    ((link.comesBack []).bind fun received =>
      Response.deserialize y received.1 received.2) = .error e := by
  cases h : (link.comesBack []).bind fun received =>
      Response.deserialize y received.1 received.2 with
  | error e => exact ⟨e, rfl⟩
  | ok r =>
    obtain ⟨stream, overRead, hcut, hover, hr⟩ := exists_of_comesBack h
    obtain rfl := List.prefix_nil.mp hcut
    exact absurd ((Response.deserialize_eq_ok_iff hover).mp hr).1 List.not_mem_nil

/-- What the client gets of these bytes. -/
theorem atMostOnce_of_served {y : YamlCpp} {s : Submission}
    (hp : hosts.listening n s.stub.host s.stub.port = some p) {bytes : List Byte} {w' : W}
    (h : Served p y.toYamlLibrary s.stub w bytes w') (n' : ℕ) :
    hosts.AtMostOnce (w, n) s (((hosts.link n).comesBack bytes).bind fun received =>
      Response.deserialize y.toYamlReader received.1 received.2) (w', n') := by
  have htarget : ∀ {k}, p.classOf s.stub.signature.signature = some k →
      hosts.target n s.stub = some k := fun hk => by rw [target, hp]; exact hk
  have hempty : ∀ r, (((hosts.link n).comesBack []).bind fun received =>
      Response.deserialize y.toYamlReader received.1 received.2) ≠ .ok r := by
    intro r hr
    obtain ⟨e, he⟩ := exists_of_comesBack_nil (hosts.link n) y.toYamlReader
    cases he.symm.trans hr
  cases h with
  | idle => exact .lost fun r hr => absurd hr (hempty r)
  | silent hk => exact .called (htarget hk) fun r hr => absurd hr (hempty r)
  | @refused r₀ buffers hr₀ hbuffers =>
    refine .lost fun r hr => ?_
    obtain ⟨stream, overRead, hcut, hover, hr⟩ := exists_of_comesBack hr
    cases hs : r.successful with
    | false => rfl
    | true =>
      obtain ⟨hs', -⟩ := Response.exists_carries_of_cut y hbuffers hover hcut hr hs
      cases hr₀.symm.trans hs'
  | @answered k hk r₀ buffers hbuffers houtcome =>
    refine .called (htarget hk) fun r hr hs => ?_
    obtain ⟨stream, overRead, hcut, hover, hr⟩ := exists_of_comesBack hr
    obtain ⟨hs', -⟩ := Response.exists_carries_of_cut y hbuffers hover hcut hr hs
    obtain rfl | hfalse := houtcome
    · have hreturned := eq_of_outcome_successful hs'
      obtain ⟨hreachable, hvalid⟩ := k.made _ _ _ hreturned
      exact ⟨_, hreturned, hs', fun hsize =>
        Response.deserialize_of_cut y hreachable hvalid hsize hbuffers hover hcut hr hs⟩
    · cases hfalse.symm.trans hs'

/-- **A submission is a call at most once.** -/
theorem atMostOnce_submit (y : YamlCpp) (hosts : Hosts W) (s : Submission) (t : W × ℕ) :
    hosts.AtMostOnce t s
      ((s.stub.submit y.toYamlLibrary (hosts.network y.toYamlLibrary)).run t).1
      ((s.stub.submit y.toYamlLibrary (hosts.network y.toYamlLibrary)).run t).2 := by
  obtain ⟨w, n⟩ := t
  cases hp : hosts.listening n s.stub.host s.stub.port with
  | none =>
    rw [run_submit_of_none _ hp]
    exact .lost fun r hr => by cases hr
  | some p =>
    by_cases hlen : s.stub.signature.inputParams.length ≤ s.stub.arguments.length
    · have hready := s.ready hlen
      rw [run_submit hready hp]
      exact atMostOnce_of_served hp
        (served_of_cut hready p y w (Link.arrives_prefix (hosts.link n).cut _)) _
    · rw [run_submit_of_lt _ hp (Nat.lt_of_not_le hlen)]
      exact .lost fun r hr => by cases hr

/-- **Submissions are calls at most once**, whoever listens and whatever happens to the connections:
what the providers keep in the end is what the calls that took place have made of it. -/
theorem allows_clients (y : YamlCpp) (hosts : Hosts W) (w : W) (submissions : List Submission) :
    let run := (hosts.clients y.toYamlLibrary w).runFrom (w, 0) submissions
    Machine.Allows hosts.AtMostOnce (w, 0) submissions run.1 run.2 := by
  have hrefines : (hosts.clients y.toYamlLibrary w).Refines (fun _ => True) id hosts.AtMostOnce := {
    invariant := ⟨trivial, fun _ _ _ => trivial⟩
    step := fun t s _ => atMostOnce_submit y hosts s t }
  exact hrefines.run trivial submissions

/-- The outcome of an invocation is made as responses are. -/
theorem outcome_made (y : YamlLibrary) {k : ServiceClass W} {signature : ServiceSignature}
    (hvalid : signature.isValid = true) (skeleton : Service) (w : W) :
    (outcome y signature (k.invoke skeleton w).1).Reachable ∧
      (outcome y signature (k.invoke skeleton w).1).signature.isValid = true := by
  have hnew : ∀ status, (Response.new signature false status).Reachable := fun status =>
    ⟨signature, false, status, .init _⟩
  cases hbuffers : (reply signature (k.invoke skeleton w).1).getConstBuffers y with
  | error e =>
    rw [outcome_of_error hbuffers]
    exact ⟨hnew _, hvalid⟩
  | ok buffers =>
    rw [outcome_of_ok hbuffers]
    rcases hinvoke : (k.invoke skeleton w).1 with e | _ | r
    · exact ⟨hnew _, hvalid⟩
    · exact ⟨hnew _, hvalid⟩
    · exact k.made _ _ _ hinvoke

/-- **If nothing goes wrong, a submission is a call**: the service is invoked with the arguments
pushed, and the client gets the outcome. -/
theorem submit_of_whole (y : YamlCpp) (hosts : Hosts W) (s : Submission)
    (hall : s.stub.signature.inputParams.length ≤ s.stub.arguments.length) {n : ℕ}
    {k : ServiceClass W} (hk : hosts.target n s.stub = some k) (hwhole : (hosts.link n).Whole)
    (w : W) :
    let returned := k.invoke (s.stub.skeleton k) w
    let r := outcome y.toYamlLibrary s.stub.signature returned.1
    ∃ received, (s.stub.submit y.toYamlLibrary (hosts.network y.toYamlLibrary)).run (w, n) =
        (received, (returned.2, n + 1)) ∧
      ((r.successful = true → ∀ a ∈ r.arguments, a.data.length < 2 ^ 31) →
        Delivers r received) := by
  intro returned r
  obtain ⟨p, hp, hk⟩ := Option.bind_eq_some_iff.mp hk
  have hready := s.ready hall
  obtain ⟨buffers, hbuffers, hserve⟩ := serve_of_whole hready y w hk
    (c := (hosts.link n).connection (s.stub.request y.toYamlLibrary))
    (by simp [Link.connection, hwhole.cut, Link.arrives]) hwhole.alive
  have hback : (hosts.link n).comesBack buffers.flatten =
      .ok (buffers.flatten, (hosts.link n).overReadBack) := by
    simp [Link.comesBack, hwhole.unbroken, hwhole.cutBack, Link.arrives]
  have hrun := run_submit (y := y.toYamlLibrary) (w := w) hready hp
  rw [hserve] at hrun
  dsimp only at hrun
  rw [hback] at hrun
  refine ⟨_, hrun, fun hsize => ?_⟩
  obtain ⟨hreachable, hvalid⟩ := outcome_made y.toYamlLibrary (k := k) s.valid (s.stub.skeleton k) w
  exact delivers_deserialize y hreachable hvalid hbuffers hsize
    (Nat.lt_of_le_of_lt (hosts.link n).overReadBack_le (by decide))

/-- A class that counts its calls, and answers with 7. -/
def sampleClass : ServiceClass ℕ where
  text := txt "f(in int, in string, out int)"
  invoke _ w := (.ok (some (sampleResponse (txt "OK"))), w + 1)
  valid := by decide +kernel
  canonical := by decide +kernel
  made s w r hr := by
    obtain rfl := Option.some.inj (Except.ok.inj hr)
    exact ⟨Response.sampleResponse_reachable _, by decide +kernel⟩

/-- The class is offered everywhere, over links that are whole. -/
def sampleHosts : Hosts ℕ where
  listening _ _ _ := some ⟨[sampleClass], List.nodup_singleton _⟩
  unreachable _ _ := .runtime (txt "connect: Connection refused")
  link _ := .plain

/-- A stub with both arguments pushed. -/
def sampleSubmission : Submission where
  stub := { Service.ofArguments sampleSignature (sampleValues.map ServiceArgument.ofValue) with
    host := txt "10.0.0.2", port := txt "5000" }
  reachable := reachable_iff.mpr ⟨rfl, by decide +kernel⟩
  valid := by decide +kernel
  small := by decide +kernel

/-- The service is invoked once, and the client gets its response. -/
theorem submit_of_whole_sample :
    (sampleSubmission.stub.submit headerYaml.toYamlLibrary
      (sampleHosts.network headerYaml.toYamlLibrary)).run (0, 0) =
        (.ok (sampleResponse (txt "OK")), (1, 1)) := by
  have htarget : sampleHosts.target 0 sampleSubmission.stub = some sampleClass :=
    (Installation.classOf_eq_some_iff _).mpr ⟨List.mem_singleton_self _, by decide +kernel⟩
  obtain ⟨received, hrun, hdelivers⟩ := submit_of_whole headerYaml sampleHosts sampleSubmission
    (by decide +kernel) htarget ⟨rfl, fun _ => rfl, rfl, rfl⟩ 0
  have houtcome : outcome headerYaml.toYamlLibrary sampleSubmission.stub.signature
      (sampleClass.invoke (sampleSubmission.stub.skeleton sampleClass) 0).1 =
        sampleResponse (txt "OK") :=
    outcome_of_ok (Response.getConstBuffers_sampleResponse headerYaml.toYamlLibrary (txt "OK"))
  rw [houtcome] at hdelivers
  rw [hrun, (hdelivers (by decide +kernel)).of_status rfl (by decide)]
  rfl

/-! ### Providers that may end -/

/-- The network, if a provider may end its own process as it serves a request: then nothing comes
back. How often this has happened, can be seen in what the providers keep. -/
def mortal (hosts : Hosts W) (ended : W → ℕ) (y : YamlLibrary) : Network (W × ℕ) where
  connect := (hosts.network y).connect
  exchange host port request := fun t =>
    let (received, t') := ((hosts.network y).exchange host port request).run t
    if ended t'.1 = ended t.1 then (received, t') else ((hosts.link t.2).comesBack [], t')

theorem run_exchange_mortal (ended : W → ℕ) {y : YamlLibrary} {host port : Text}
    {request : List Byte} {t t' : W × ℕ} {received : Except Exn (List Byte × ℕ)}
    (h : ((hosts.network y).exchange host port request).run t = (received, t')) :
    ((hosts.mortal ended y).exchange host port request).run t =
      if ended t'.1 = ended t.1 then (received, t') else ((hosts.link t.2).comesBack [], t') := by
  obtain ⟨rfl, rfl⟩ := Prod.mk.inj h
  rfl

/-- **A submission to a provider that may end** leads to the same, but if the provider ends, to an
exception. -/
theorem exists_run_submit_mortal (y : YamlLibrary) (hosts : Hosts W) (ended : W → ℕ)
    (s : ServiceStub) (t : W × ℕ) :
    let submitted := (s.submit y (hosts.network y)).run t
    ∃ received, (s.submit y (hosts.mortal ended y)).run t = (received, submitted.2) ∧
      (ended submitted.2.1 = ended t.1 → received = submitted.1) ∧
      (ended submitted.2.1 ≠ ended t.1 → ∃ e, received = .error e) := by
  obtain ⟨w, n⟩ := t
  dsimp only
  cases hp : hosts.listening n s.host s.port with
  | none =>
    have hconnect : ((hosts.mortal ended y).connect s.host s.port).run (w, n) =
        (.error (hosts.unreachable s.host s.port), (w, n + 1)) := by
      simp only [mortal, network, Throwing.run, hp]
    rw [run_submit_of_none y hp]
    exact ⟨_, Throwing.run_bind_of_error hconnect, fun _ => rfl, fun h => absurd rfl h⟩
  | some p =>
    have hconnect := run_connect (w := w) y hp
    have hmortal : ((hosts.mortal ended y).connect s.host s.port).run (w, n) = (.ok (), (w, n)) :=
      hconnect
    cases hbuffers : s.getConstBuffers y with
    | error e =>
      rw [submit, submit, Throwing.run_bind_of_ok hconnect, Throwing.run_bind_of_ok hmortal,
        hbuffers]
      exact ⟨_, rfl, fun _ => rfl, fun h => absurd rfl h⟩
    | ok buffers =>
      rcases hnetwork : ((hosts.network y).exchange s.host s.port buffers.flatten).run (w, n) with
        ⟨received, t'⟩
      have hexchange := run_exchange_mortal ended hnetwork
      rw [run_submit_of_exchange hconnect hbuffers hnetwork]
      by_cases hsame : ended t'.1 = ended w
      · rw [if_pos hsame] at hexchange
        rw [run_submit_of_exchange hmortal hbuffers hexchange]
        exact ⟨_, rfl, fun _ => rfl, fun h => absurd hsame h⟩
      · rw [if_neg hsame] at hexchange
        rw [run_submit_of_exchange hmortal hbuffers hexchange]
        exact ⟨_, rfl, fun h => absurd h hsame, fun _ => exists_of_comesBack_nil _ _⟩

/-- **It is a call at most once too.** -/
theorem atMostOnce_submit_mortal (y : YamlCpp) (hosts : Hosts W) (ended : W → ℕ) (s : Submission)
    (t : W × ℕ) :
    hosts.AtMostOnce t s
      ((s.stub.submit y.toYamlLibrary (hosts.mortal ended y.toYamlLibrary)).run t).1
      ((s.stub.submit y.toYamlLibrary (hosts.mortal ended y.toYamlLibrary)).run t).2 := by
  obtain ⟨received, hrun, hsame, hended⟩ :=
    exists_run_submit_mortal y.toYamlLibrary hosts ended s.stub t
  have honce := atMostOnce_submit y hosts s t
  generalize (s.stub.submit y.toYamlLibrary (hosts.network y.toYamlLibrary)).run t = submitted
    at honce hrun hsame hended
  obtain ⟨received', t'⟩ := submitted
  rw [hrun]
  by_cases h : ended t'.1 = ended t.1
  · rw [hsame h]
    exact honce
  · obtain ⟨e, rfl⟩ := hended h
    cases honce with
    | lost hreceived => exact .lost nofun
    | called hk hreceived => exact .called hk nofun

end Hosts

end Ssoa
