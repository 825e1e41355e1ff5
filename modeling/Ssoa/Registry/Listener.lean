import Ssoa.Lib.Interleave
import Ssoa.Registry.Remote
import Ssoa.Service.Cut

/-!
# The connections of the registry

`RegistryListener` accepts connections, and a `ClientHandler` serves each of them: it reads until
there is a NUL, handles the request, writes the response, and is gone. What is read arrives in
pieces, and the completions of different connections come in any order. A connection may fail at any
time, on either side. While a handler is at work on a thread of the pool, others go on, or begin.

The proxy makes a connection for every request. If it is cut off, the proxy throws, and cannot know
whether the request has been handled. But no request is handled twice, or in part, and the requests
that have been handled are those that `Registry.submit` makes one after the other.

The only thing that handlers share is the registry, and each calls it once. A call is one step here,
and what a handler does is told at that step: `Ssoa.Registry.Linearised` says what becomes of
lookups that overlap.

## Main results

* `RegistryListener.inOrder` — the responses are those to one request after another
* `RegistryListener.buffer_eq` — pieces that arrive are put together
* `RegistryListener.submissions_of_run` — requests of proxies, over any connections
-/

namespace Ssoa

/-- What a `ClientHandler` has read and what it writes back; it is alive as long as one of its
operations is under way. -/
structure ClientConnection where
  buffer : List Byte := []
  response : Option (List Byte) := none
  alive : Bool := true

namespace ClientConnection

/-- `async_read_until` is under way. -/
def reading (c : ClientConnection) : Bool :=
  c.alive && c.response.isNone && decide (0 ∉ c.buffer)

/-- `ClientHandler::handleRead` is at work. -/
def handling (c : ClientConnection) : Bool :=
  c.alive && c.response.isNone && decide (0 ∈ c.buffer)

/-- `async_write` is under way. -/
def writing (c : ClientConnection) : Bool := c.alive && c.response.isSome

variable {c : ClientConnection}

theorem reading_iff : c.reading = true ↔ c.alive = true ∧ c.response = none ∧ 0 ∉ c.buffer := by
  simp [reading, and_assoc]

theorem handling_iff : c.handling = true ↔ c.alive = true ∧ c.response = none ∧ 0 ∈ c.buffer := by
  simp [handling, and_assoc]

theorem writing_iff : c.writing = true ↔ c.alive = true ∧ c.response ≠ none := by
  simp [writing, Option.isSome_iff_ne_none]

end ClientConnection

/-- The registry, the connections that have been accepted, and what has been answered: the
connection, what it had read, and the response. -/
structure RegistryListener (σ : Type) where
  registry : σ
  connections : List ClientConnection := []
  answered : List ((ℕ × List Byte) × List Byte) := []

/-- What completes: an accept, with or without an error; a read from the socket of the `i`-th
connection, with some bytes or with an error; what its handler does; or its write, with or without
an error. -/
inductive ListenerEvent where
  | accepted (e : Option Text)
  | arrived (i : ℕ) (bytes : List Byte)
  | broken (i : ℕ)
  | handled (i : ℕ)
  | written (i : ℕ) (e : Option Text)

namespace RegistryListener

variable {σ : Type} [IRegistry σ] (y : YamlCpp)

/-- `handleAccept`. In any case the listener goes on to accept. -/
def handleAccept (l : RegistryListener σ) (e : Option Text) : RegistryListener σ :=
  if e = none then { l with connections := l.connections ++ [{}] } else l

/-- Some bytes arrive. -/
def arrive (l : RegistryListener σ) (i : ℕ) (c : ClientConnection) (bytes : List Byte) :
    RegistryListener σ :=
  { l with connections := l.connections.set i { c with buffer := c.buffer ++ bytes } }

/-- `ClientHandler::handleRead`, up to `async_write`. -/
def handle (l : RegistryListener σ) (i : ℕ) (c : ClientConnection) : RegistryListener σ :=
  let (response, registry) := ClientHandler.handleRead y l.registry c.buffer
  { registry
    connections := l.connections.set i { c with response := some response }
    answered := l.answered ++ [((i, c.buffer), response)] }

/-- Nothing more is started for the connection. -/
def close (l : RegistryListener σ) (i : ℕ) (c : ClientConnection) : RegistryListener σ :=
  { l with connections := l.connections.set i { c with alive := false } }

/-- What happens on an event, if it can. -/
def step (l : RegistryListener σ) : ListenerEvent → Option (RegistryListener σ)
  | .accepted e => some (l.handleAccept e)
  | .arrived i bytes => l.connections[i]?.bind fun c =>
    if c.reading then some (l.arrive i c bytes) else none
  | .broken i => l.connections[i]?.bind fun c => if c.reading then some (l.close i c) else none
  | .handled i => l.connections[i]?.bind fun c => if c.handling then some (l.handle y i c) else none
  | .written i _ => l.connections[i]?.bind fun c => if c.writing then some (l.close i c) else none

/-- The listener with its connections. -/
def system := System.ofStep (step (σ := σ) y)

/-- The handlers, one request after the other. -/
def handlers (init : σ) : Machine σ (ℕ × List Byte) (List Byte) :=
  ⟨init, fun registry request => ClientHandler.handleRead y registry request.2⟩

/-- What an event can do. -/
inductive Step (l : RegistryListener σ) : ListenerEvent → RegistryListener σ → Prop
  | accepted : Step l (.accepted none) { l with connections := l.connections ++ [{}] }
  | refused (e : Text) : Step l (.accepted (some e)) l
  | arrived (i : ℕ) (c : ClientConnection) (bytes : List Byte) (hc : l.connections[i]? = some c)
      (hreading : c.reading = true) : Step l (.arrived i bytes) (l.arrive i c bytes)
  | broken (i : ℕ) (c : ClientConnection) (hc : l.connections[i]? = some c)
      (hreading : c.reading = true) : Step l (.broken i) (l.close i c)
  | handled (i : ℕ) (c : ClientConnection) (hc : l.connections[i]? = some c)
      (hhandling : c.handling = true) : Step l (.handled i) (l.handle y i c)
  | written (i : ℕ) (e : Option Text) (c : ClientConnection) (hc : l.connections[i]? = some c)
      (hwriting : c.writing = true) : Step l (.written i e) (l.close i c)

variable {y} {l l' : RegistryListener σ} {event : ListenerEvent}

omit [IRegistry σ] in
/-- An operation of a connection that completes. -/
theorem exists_of_guarded {i : ℕ} {p : ClientConnection → Bool}
    {f : ClientConnection → RegistryListener σ}
    (h : (l.connections[i]?.bind fun c => if p c then some (f c) else none) = some l') :
    ∃ c, l.connections[i]? = some c ∧ p c = true ∧ f c = l' := by
  obtain ⟨c, hc, hstep⟩ := Option.bind_eq_some_iff.mp h
  split at hstep
  · next hp => exact ⟨c, hc, hp, Option.some.inj hstep⟩
  · cases hstep

theorem Step.of_step (h : (system y).step l event = some l') : Step y l event l' := by
  cases event with
  | accepted e =>
    obtain rfl := Option.some.inj h
    cases e with
    | none => exact .accepted
    | some e => exact .refused e
  | arrived i bytes =>
    obtain ⟨c, hc, hreading, rfl⟩ := exists_of_guarded h
    exact .arrived i c bytes hc hreading
  | broken i =>
    obtain ⟨c, hc, hreading, rfl⟩ := exists_of_guarded h
    exact .broken i c hc hreading
  | handled i =>
    obtain ⟨c, hc, hhandling, rfl⟩ := exists_of_guarded h
    exact .handled i c hc hhandling
  | written i e =>
    obtain ⟨c, hc, hwriting, rfl⟩ := exists_of_guarded h
    exact .written i e c hc hwriting

/-! ### One request after another -/

theorem linearises (init : σ) : (system y).Linearises (handlers y init) (fun _ _ => True)
    (fun _ => True) registry answered where
  keeps _ _ _ _ _ _ := trivial
  point l event l' _ _ hstep := by
    cases Step.of_step hstep with
    | handled i c hc hhandling => exact .inr ⟨(i, c.buffer), rfl, rfl⟩
    | accepted => exact .inl ⟨rfl, rfl⟩
    | refused e => exact .inl ⟨rfl, rfl⟩
    | arrived i c bytes hc hreading => exact .inl ⟨rfl, rfl⟩
    | broken i c hc hreading => exact .inl ⟨rfl, rfl⟩
    | written i e c hc hwriting => exact .inl ⟨rfl, rfl⟩

/-- **The responses are those to one request after another.** -/
theorem inOrder {registry : σ} {events : List ListenerEvent}
    (hrun : (system y).run { registry } events = some l) :
    (handlers y registry).InOrder registry l.answered l.registry :=
  (linearises registry).inOrder trivial rfl hrun ((system y).along_true _ events)

/-! ### What has arrived -/

/-- What has been read from a connection, and what is written back. -/
def seen (l : RegistryListener σ) (i : ℕ) : Option (List Byte × Option (List Byte)) :=
  l.connections[i]?.map fun c => (c.buffer, c.response)

theorem seen_set {connections : List ClientConnection} {i : ℕ} {c : ClientConnection}
    (hc : connections[i]? = some c) (c' : ClientConnection) :
    (fun j => (connections.set i c')[j]?.map fun c => (c.buffer, c.response)) =
      Function.update (fun j => connections[j]?.map fun c => (c.buffer, c.response)) i
        (some (c'.buffer, c'.response)) := by
  funext j
  have hi := (List.getElem?_eq_some_iff.mp hc).1
  rw [Function.update_apply, List.getElem?_set]
  split
  · next heq =>
    obtain rfl := heq
    rw [if_pos rfl]
    rfl
  · next hne => rw [if_neg fun heq => hne heq.symm]

omit [IRegistry σ] in
theorem seen_close {i : ℕ} {c : ClientConnection} (hc : l.connections[i]? = some c) :
    (l.close i c).seen = l.seen := by
  refine (seen_set hc { c with alive := false }).trans (Function.update_eq_self_iff.mpr ?_)
  rw [hc, Option.map_some]

end RegistryListener

/-- The bytes that arrive over a connection. -/
def ListenerEvent.bytesOf (i : ℕ) : ListenerEvent → List Byte
  | arrived j bytes => if j = i then bytes else []
  | _ => []

namespace RegistryListener

variable {σ : Type} [IRegistry σ] {y : YamlCpp} {l l' : RegistryListener σ} {event : ListenerEvent}

/-- What is seen of an event. -/
theorem Step.seen_cases (h : Step y l event l') :
    (l'.seen = l.seen ∧ l'.answered = l.answered ∧ ∀ j, event.bytesOf j = []) ∨
    (∃ i, l.seen i = none ∧ l'.seen = Function.update l.seen i (some ([], none)) ∧
      l'.answered = l.answered ∧ ∀ j, event.bytesOf j = []) ∨
    (∃ i buffer bytes, l.seen i = some (buffer, none) ∧ event = .arrived i bytes ∧
      l'.seen = Function.update l.seen i (some (buffer ++ bytes, none)) ∧
      l'.answered = l.answered) ∨
    ∃ i buffer response, l.seen i = some (buffer, none) ∧ 0 ∈ buffer ∧
      l'.seen = Function.update l.seen i (some (buffer, some response)) ∧
      l'.answered = l.answered ++ [((i, buffer), response)] ∧ ∀ j, event.bytesOf j = [] := by
  cases h with
  | accepted =>
    refine .inr (.inl ⟨l.connections.length, ?_, funext fun j => ?_, rfl, fun _ => rfl⟩)
    · rw [seen, List.getElem?_eq_none le_rfl, Option.map_none]
    · rw [Function.update_apply, seen, seen]
      rcases lt_trichotomy j l.connections.length with hlt | rfl | hgt
      · rw [if_neg hlt.ne, List.getElem?_append_left hlt]
      · rw [if_pos rfl, List.getElem?_concat_length, Option.map_some]
      · rw [if_neg hgt.ne', List.getElem?_eq_none (by simp; omega), List.getElem?_eq_none hgt.le]
  | refused e => exact .inl ⟨rfl, rfl, fun _ => rfl⟩
  | broken i c hc hreading => exact .inl ⟨seen_close hc, rfl, fun _ => rfl⟩
  | written i e c hc hwriting => exact .inl ⟨seen_close hc, rfl, fun _ => rfl⟩
  | arrived i c bytes hc hreading =>
    obtain ⟨-, hnone, -⟩ := ClientConnection.reading_iff.mp hreading
    refine .inr (.inr (.inl ⟨i, c.buffer, bytes, ?_, rfl, ?_, rfl⟩))
    · rw [seen, hc, Option.map_some, hnone]
    · exact hnone ▸ seen_set hc { c with buffer := c.buffer ++ bytes }
  | handled i c hc hhandling =>
    obtain ⟨-, hnone, hnul⟩ := ClientConnection.handling_iff.mp hhandling
    refine .inr (.inr (.inr ⟨i, c.buffer, _, ?_, hnul, ?_, rfl, fun _ => rfl⟩))
    · rw [seen, hc, Option.map_some, hnone]
    · exact seen_set hc { c with response := some _ }

/-- What has been read from a connection. -/
def buffer (l : RegistryListener σ) (i : ℕ) : List Byte := ((l.seen i).map Prod.fst).getD []

theorem Step.buffer_eq (h : Step y l event l') (i : ℕ) :
    l'.buffer i = l.buffer i ++ event.bytesOf i := by
  obtain ⟨hseen, -, hbytes⟩ | ⟨j, hnone, hseen, -, hbytes⟩ | ⟨j, read, bytes, hj, rfl, hseen, -⟩ |
      ⟨j, read, response, hj, -, hseen, -, hbytes⟩ := h.seen_cases
  · rw [buffer, buffer, hseen, hbytes, List.append_nil]
  · rw [buffer, buffer, hseen, hbytes, List.append_nil, Function.update_apply]
    split
    · next heq => rw [heq, hnone]; rfl
    · rfl
  · rw [buffer, buffer, hseen, Function.update_apply, ListenerEvent.bytesOf]
    by_cases heq : i = j
    · rw [if_pos heq, if_pos heq.symm, heq, hj]
      rfl
    · rw [if_neg heq, if_neg (Ne.symm heq), List.append_nil]
  · rw [buffer, buffer, hseen, hbytes, List.append_nil, Function.update_apply]
    split
    · next heq => rw [heq, hj]; rfl
    · rfl

/-- **Pieces that arrive are put together.** -/
theorem buffer_eq {events : List ListenerEvent} (hrun : (system y).run l events = some l') (i : ℕ) :
    l'.buffer i = l.buffer i ++ events.flatMap (ListenerEvent.bytesOf i) := by
  induction events generalizing l with
  | nil =>
    obtain rfl := Option.some.inj hrun
    exact (List.append_nil _).symm
  | cons event events ih =>
    obtain ⟨t, ht, hrest⟩ := Option.bind_eq_some_iff.mp hrun
    rw [ih hrest, (Step.of_step ht).buffer_eq, List.append_assoc, List.flatMap_cons]

/-! ### What has been answered -/

/-- A connection has been answered once, if there is a response, and none otherwise. -/
structure Answered (l : RegistryListener σ) : Prop where
  complete : ∀ i read response, l.seen i = some (read, some response) →
    ((i, read), response) ∈ l.answered
  sound : ∀ x ∈ l.answered, 0 ∈ x.1.2 ∧ l.seen x.1.1 = some (x.1.2, some x.2)
  nodup : (l.answered.map fun x => x.1.1).Nodup

omit [IRegistry σ] in
/-- Where there is no response, nothing has been answered. -/
theorem Answered.ne {i : ℕ} (hl : Answered l)
    (hi : ∀ read response, l.seen i ≠ some (read, some response)) :
    ∀ x ∈ l.answered, x.1.1 ≠ i := by
  rintro x hx rfl
  exact hi _ _ (hl.sound x hx).2

omit [IRegistry σ] in
/-- What is seen of a connection without a response changes. -/
theorem Answered.update {i : ℕ} {read : List Byte} (hl : Answered l)
    (hi : ∀ read response, l.seen i ≠ some (read, some response))
    (hseen : l'.seen = Function.update l.seen i (some (read, none)))
    (hanswered : l'.answered = l.answered) : Answered l' := by
  refine ⟨fun j read' response hj => ?_, fun x hx => ?_, hanswered ▸ hl.nodup⟩
  · rw [hseen, Function.update_apply] at hj
    split at hj
    · cases hj
    · exact hanswered ▸ hl.complete j read' response hj
  · rw [hanswered] at hx
    rw [hseen, Function.update_of_ne (hl.ne hi x hx)]
    exact hl.sound x hx

theorem keeps_answered : (system y).Keeps (fun _ _ => True) (Answered (σ := σ)) := by
  intro l event l' hl _ hstep
  obtain ⟨hseen, hanswered, -⟩ | ⟨i, hnone, hseen, hanswered, -⟩ |
      ⟨i, read, bytes, hi, -, hseen, hanswered⟩ |
      ⟨i, read, response, hi, hnul, hseen, hanswered, -⟩ := (Step.of_step hstep).seen_cases
  · exact ⟨hseen ▸ hanswered ▸ hl.complete, hseen ▸ hanswered ▸ hl.sound, hanswered ▸ hl.nodup⟩
  · exact hl.update (fun _ _ h => by cases hnone.symm.trans h) hseen hanswered
  · exact hl.update (fun _ _ h => by cases hi.symm.trans h) hseen hanswered
  · have hfresh := hl.ne (i := i) fun _ _ h => by cases hi.symm.trans h
    refine ⟨fun j read' response' hj => ?_, fun x hx => ?_, ?_⟩
    · rw [hseen, Function.update_apply] at hj
      rw [hanswered]
      split at hj
      · next heq =>
        obtain ⟨rfl, hresponse⟩ := Prod.mk.inj (Option.some.inj hj)
        obtain rfl := Option.some.inj hresponse
        exact List.mem_append_right _ (heq ▸ List.mem_singleton_self _)
      · exact List.mem_append_left _ (hl.complete j read' response' hj)
    · rw [hanswered] at hx
      rcases List.mem_append.mp hx with hx | hx
      · rw [hseen, Function.update_of_ne (hfresh x hx)]
        exact hl.sound x hx
      · obtain rfl := List.mem_singleton.mp hx
        rw [hseen, Function.update_self]
        exact ⟨hnul, rfl⟩
    · rw [hanswered, List.map_append, List.nodup_append]
      refine ⟨hl.nodup, List.nodup_singleton _, ?_⟩
      rintro _ hmem _ hi rfl
      obtain ⟨x, hx, rfl⟩ := List.mem_map.mp hmem
      exact hfresh x hx (List.mem_singleton.mp hi)

theorem answered_of_run {registry : σ} {events : List ListenerEvent}
    (hrun : (system y).run { registry } events = some l) : l.Answered := by
  have hstart : Answered ({ registry } : RegistryListener σ) :=
    ⟨fun _ _ _ h => (by cases h), fun _ h => (by cases h), List.nodup_nil⟩
  exact keeps_answered.run hstart hrun ((system y).along_true _ events)

/-! ### Handlers at work -/

/-- The handler of a connection is at work. -/
def Handling (l : RegistryListener σ) (i : ℕ) : Prop :=
  ∃ c, l.connections[i]? = some c ∧ c.handling = true

/-- No connection is closed while its handler is at work. -/
def Open (l : RegistryListener σ) : Prop :=
  ∀ c ∈ l.connections, 0 ∈ c.buffer → c.response = none → c.alive = true

omit [IRegistry σ] in
theorem Open.set {i : ℕ} {c' : ClientConnection} (hl : Open l)
    (hconnections : l'.connections = l.connections.set i c')
    (hc' : 0 ∈ c'.buffer → c'.response = none → c'.alive = true) : Open l' := by
  intro c hc
  rw [hconnections] at hc
  rcases List.mem_or_eq_of_mem_set hc with hc | rfl
  · exact hl c hc
  · exact hc'

theorem keeps_open : (system y).Keeps (fun _ _ => True) (Open (σ := σ)) := by
  intro l event l' hl _ hstep
  cases Step.of_step hstep with
  | accepted =>
    intro c hc hnul hnone
    rcases List.mem_append.mp hc with hc | hc
    · exact hl c hc hnul hnone
    · obtain rfl := List.mem_singleton.mp hc
      cases hnul
  | refused e => exact hl
  | arrived i c bytes hc hreading =>
    exact hl.set rfl fun _ _ => (ClientConnection.reading_iff.mp hreading).1
  | broken i c hc hreading =>
    exact hl.set rfl fun hnul _ => absurd hnul (ClientConnection.reading_iff.mp hreading).2.2
  | handled i c hc hhandling => exact hl.set rfl fun _ hnone => by cases hnone
  | written i e c hc hwriting =>
    exact hl.set rfl fun _ hnone => absurd hnone (ClientConnection.writing_iff.mp hwriting).2

/-- A request that has been read has no response as long as its handler is at work. -/
theorem handling_iff {registry : σ} {events : List ListenerEvent}
    (hrun : (system y).run { registry } events = some l) {i : ℕ} :
    l.Handling i ↔ ∃ read, l.seen i = some (read, none) ∧ 0 ∈ read := by
  have hopen : l.Open := keeps_open.run (fun c hc => by cases hc) hrun
    ((system y).along_true _ events)
  constructor
  · rintro ⟨c, hc, hhandling⟩
    obtain ⟨-, hnone, hnul⟩ := ClientConnection.handling_iff.mp hhandling
    exact ⟨c.buffer, by rw [seen, hc, Option.map_some, hnone], hnul⟩
  · rintro ⟨read, hseen, hnul⟩
    obtain ⟨c, hc, hpair⟩ := Option.map_eq_some_iff.mp hseen
    obtain ⟨rfl, hnone⟩ := Prod.mk.inj hpair
    have halive := hopen c (List.mem_of_getElem? hc) hnul hnone
    exact ⟨c, hc, ClientConnection.handling_iff.mpr ⟨halive, hnone, hnul⟩⟩

/-! ### Requests of proxies -/

/-- `Registry::submit`, one after the other. -/
def submissions (r : Registry) (y : YamlCpp) (init : σ) :
    Machine σ RegistryMessage (Except Exn RegistryMessage) :=
  ⟨init, r.submit y⟩

/-- What `submit` makes of what comes back, up to the place where the connection is cut off. -/
def received (y : YamlCpp) (back : List Byte) : Except Exn RegistryMessage :=
  if 0 ∈ back then RegistryMessage.fromYaml y.toYamlReader (cstr back)
  else .error (Response.endOfFile (txt "read_until"))

/-- What is written back to a connection. -/
def response (l : RegistryListener σ) (i : ℕ) : List Byte := ((l.seen i).bind Prod.snd).getD []

/-- A response to a request is a message. -/
theorem exists_generateResponse {registry registry' : σ} {request : RegistryMessage} {text : Text}
    (h : ClientHandler.generateResponse y registry request = (.ok text, registry')) :
    ∃ reply : RegistryMessage, text = reply.toYaml y := by
  cases request with
  | registrationRequest m =>
    rcases hdirect : Registry.direct registry m.service.reread m.host m.port m.deregister
      with ⟨done, registry''⟩
    rw [ClientHandler.generateResponse, Registry.generateRegistrationResponse_eq y hdirect] at h
    exact ⟨.registrationResponse _, (Except.ok.inj (congrArg Prod.fst h)).symm⟩
  | serviceRequest m =>
    rcases hlookup : IRegistry.lookupService registry m.service.reread (txt "") (txt "")
      with ⟨found, registry''⟩
    rw [ClientHandler.generateResponse, Registry.generateServiceResponse_eq y hlookup] at h
    exact ⟨.serviceResponse _, (Except.ok.inj (congrArg Prod.fst h)).symm⟩
  | registrationResponse m => cases congrArg Prod.fst h
  | serviceResponse m => cases congrArg Prod.fst h
  | error m => cases congrArg Prod.fst h

/-- What is written back is a message. -/
theorem exists_handleRead (y : YamlCpp) (registry : σ) (read : Text) : ∃ reply : RegistryMessage,
    (ClientHandler.handleRead y registry read).1 = wire (reply.toYaml y) := by
  rw [ClientHandler.handleRead]
  cases RegistryMessage.fromYaml y.toYamlReader (cstr read) with
  | error e => exact ⟨.error ⟨e.what⟩, rfl⟩
  | ok request =>
    dsimp only
    rcases hresponse : ClientHandler.generateResponse y registry request with ⟨e | text, registry'⟩
    · exact ⟨.error ⟨e.what⟩, rfl⟩
    · obtain ⟨reply, rfl⟩ := exists_generateResponse hresponse
      exact ⟨reply, rfl⟩

/-- A part of a message is read as that message, if at all. -/
theorem received_of_cut {reply : RegistryMessage} {back : List Byte}
    (hback : back <+: wire (reply.toYaml y)) :
    received y back = .error (Response.endOfFile (txt "read_until")) ∨
      received y back =
        RegistryMessage.fromYaml y.toYamlReader (cstr (wire (reply.toYaml y))) := by
  have hnul := Registry.zero_not_mem_toYaml y reply
  rw [received]
  split
  · next hmem =>
    rw [← List.append_nil (wire (reply.toYaml y))] at hback
    rw [(cstr_of_cut hnul hback hmem).1, cstr_wire hnul]
    exact .inr rfl
  · exact .inl rfl

/-- With a NUL, all of a message has arrived. -/
theorem eq_wire_of_cut {message : RegistryMessage} {read : List Byte}
    (hread : read <+: wire (message.toYaml y)) (hmem : 0 ∈ read) :
    read = wire (message.toYaml y) := by
  have hcut : read <+: wire (message.toYaml y) ++ [] := by rwa [List.append_nil]
  obtain ⟨hcstr, -⟩ := cstr_of_cut (Registry.zero_not_mem_toYaml y message) hcut hmem
  refine hread.eq_of_length_le ?_
  rw [← wire_append_payloadOf hmem, hcstr, List.length_append]
  exact Nat.le_add_right _ _

/-- **Requests of proxies**, each of them over a connection of its own, of which any part may
arrive, in any pieces, and any part of the response come back. Those that have arrived as a whole
have been handled once, unless their handler is still at work, and the registry and the responses
are as if `submit` had made them one after the other. The proxy gets that response, or throws. -/
theorem submissions_of_run {registry : σ} {events : List ListenerEvent}
    (hrun : (system y).run { registry } events = some l) {r : Registry} (hr : r.Initialized)
    (request : ℕ → RegistryMessage)
    (hsent : ∀ i, events.flatMap (ListenerEvent.bytesOf i) <+: wire ((request i).toYaml y)) :
    (submissions r y registry).InOrder registry
        (l.answered.map (Prod.map (fun c => request c.1)
          fun response => RegistryMessage.fromYaml y.toYamlReader (cstr response))) l.registry ∧
      (l.answered.map fun x => x.1.1).Nodup ∧
      (∀ i, i ∈ l.answered.map (fun x => x.1.1) ↔
        events.flatMap (ListenerEvent.bytesOf i) = wire ((request i).toYaml y) ∧
          ¬ l.Handling i) ∧
      ∀ i back, back <+: l.response i →
        received y back = .error (Response.endOfFile (txt "read_until")) ∨
          ∃ x ∈ l.answered, x.1.1 = i ∧
            received y back = RegistryMessage.fromYaml y.toYamlReader (cstr x.2) := by
  have hanswered := answered_of_run hrun
  have hbuffer : ∀ i, l.buffer i = events.flatMap (ListenerEvent.bytesOf i) := buffer_eq hrun
  have hwhole : ∀ x ∈ l.answered, x.1.2 = wire ((request x.1.1).toYaml y) := by
    intro x hx
    obtain ⟨hnul, hseen⟩ := hanswered.sound x hx
    have hread : l.buffer x.1.1 = x.1.2 := by
      rw [buffer, hseen]
      rfl
    exact eq_wire_of_cut (hread ▸ hbuffer x.1.1 ▸ hsent x.1.1) hnul
  refine ⟨(inOrder hrun).map fun x hx t => ?_, hanswered.nodup,
    fun i => ⟨fun hi => ⟨?_, fun hhandling => ?_⟩, fun ⟨hi, hidle⟩ => ?_⟩, fun i back hback => ?_⟩
  · show r.submit y t (request x.1.1) = _
    have huninitialized : (r.host.isEmpty || r.port.isEmpty) = false := by
      simpa [List.isEmpty_iff, Registry.Initialized] using hr
    rw [Registry.submit, huninitialized, if_neg Bool.false_ne_true, ← hwhole x hx]
    rfl
  · obtain ⟨x, hx, rfl⟩ := List.mem_map.mp hi
    obtain ⟨-, hseen⟩ := hanswered.sound x hx
    rw [← hbuffer, ← hwhole x hx, buffer, hseen]
    rfl
  · obtain ⟨x, hx, rfl⟩ := List.mem_map.mp hi
    obtain ⟨read, hseen, -⟩ := (handling_iff hrun).mp hhandling
    cases (hanswered.sound x hx).2.symm.trans hseen
  · rw [← hbuffer, buffer] at hi
    have hmem : (0 : Byte) ∈ wire ((request i).toYaml y) := by simp [wire]
    rcases hseen : l.seen i with _ | ⟨read, _ | response⟩
    · rw [hseen] at hi
      rw [← hi] at hmem
      cases hmem
    · rw [hseen] at hi
      have hread : read = wire ((request i).toYaml y) := hi
      exact absurd ((handling_iff hrun).mpr ⟨read, hseen, hread ▸ hmem⟩) hidle
    · exact List.mem_map.mpr ⟨_, hanswered.complete i read response hseen, rfl⟩
  · rw [response] at hback
    rcases hseen : l.seen i with _ | ⟨read, _ | response⟩
    · rw [hseen] at hback
      exact .inl (by rw [List.prefix_nil.mp hback]; rfl)
    · rw [hseen] at hback
      exact .inl (by rw [List.prefix_nil.mp hback]; rfl)
    · rw [hseen] at hback
      have hmem := hanswered.complete i read response hseen
      obtain ⟨before, -, hresponse⟩ := (inOrder hrun).answer hmem
      obtain ⟨reply, hreply⟩ :=
        exists_handleRead y ((handlers y registry).runFrom registry before).2 read
      obtain rfl : response = wire (reply.toYaml y) := hresponse.trans hreply
      exact (received_of_cut hback).imp_right fun h => ⟨_, hmem, rfl, h⟩

/-- Nothing arrives over the first connection, and a request over the second one; an accept fails
between them. -/
def sampleEvents (y : YamlCpp) (request : RegistryMessage) : List ListenerEvent :=
  [.accepted none, .accepted (some (txt "Too many open files")), .accepted none,
    .arrived 1 (wire (request.toYaml y)), .handled 1]

theorem run_sampleEvents (registry : σ) (request : RegistryMessage) :
    ∃ l : RegistryListener σ, (system y).run { registry } (sampleEvents y request) = some l ∧
      ¬ l.Handling 1 := by
  have hhandling : ClientConnection.handling { buffer := [] ++ wire (request.toYaml y) } := by
    simp [ClientConnection.handling_iff, wire]
  refine ⟨handle y { registry, connections := [{}, { buffer := [] ++ wire (request.toYaml y) }] } 1
    { buffer := [] ++ wire (request.toYaml y) }, ?_, ?_⟩
  · exact congrArg (Option.bind · some) (if_pos hhandling)
  · rintro ⟨c, hc, hc'⟩
    obtain rfl := Option.some.inj hc
    cases (ClientConnection.handling_iff.mp hc').2.1

theorem submissions_of_run_sample : ∃ l : RegistryListener SoundRegistry,
    (system Registry.sampleYaml).run { registry := Registry.sampleRegistry }
      (sampleEvents Registry.sampleYaml RegistryMessage.sampleRequest) = some l ∧
    (submissions Registry.sampleAddress Registry.sampleYaml Registry.sampleRegistry).InOrder
      Registry.sampleRegistry (l.answered.map (Prod.map (fun _ => RegistryMessage.sampleRequest)
        fun response =>
          RegistryMessage.fromYaml Registry.sampleYaml.toYamlReader (cstr response))) l.registry ∧
    1 ∈ l.answered.map (fun x => x.1.1) ∧ 0 ∉ l.answered.map (fun x => x.1.1) := by
  have hbytes : ∀ i, (sampleEvents Registry.sampleYaml RegistryMessage.sampleRequest).flatMap
      (ListenerEvent.bytesOf i) =
        if 1 = i then wire (RegistryMessage.sampleRequest.toYaml Registry.sampleYaml) else [] := by
    intro i
    simp [sampleEvents, ListenerEvent.bytesOf]
  obtain ⟨l, hrun, hidle⟩ := run_sampleEvents (y := Registry.sampleYaml) Registry.sampleRegistry
    RegistryMessage.sampleRequest
  obtain ⟨hinOrder, -, hmem, -⟩ := submissions_of_run hrun Registry.sampleAddress_initialized
    (fun _ => RegistryMessage.sampleRequest) fun i => by
      rw [hbytes]
      split
      · exact List.prefix_rfl
      · exact List.nil_prefix
  refine ⟨l, hrun, hinOrder, (hmem 1).mpr ⟨?_, hidle⟩, fun h => ?_⟩
  · exact (hbytes 1).trans (if_pos rfl)
  · have hnil := ((hmem 0).mp h).1
    rw [hbytes, if_neg (by decide)] at hnil
    exact absurd (congrArg List.length hnil) (by simp [wire])

end RegistryListener

end Ssoa
