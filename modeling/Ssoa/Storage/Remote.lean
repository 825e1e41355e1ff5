import Ssoa.Storage.Calls

/-!
# The storage provider from afar

Seen through the stubs of a client and over a network, the storage provider is still the map it is
for, as far as a network allows that: an image that was to be stored may have been stored although
the client was told otherwise, but what the client is told of success is true.

## Main results

* `StorageProvider.allows_remote` — any requests, whatever happens to the connections
* `StorageProvider.exact_remote` — any requests, if nothing happens to the connections
-/

namespace Ssoa

namespace StorageProvider

open StorageRequest StorageService

/-- What the map allows over a network: what the client is told of success is true. -/
def AllowedRemotely (stored : ImageName → Option (List Byte)) (request : StorageRequest)
    (output : StorageOutput) (answer : StorageAnswer)
    (stored' : ImageName → Option (List Byte)) : Prop :=
  match request, answer with
  | .storeImage name content, .storeImage told =>
    (stored' = stored ∨ stored' = Function.update stored name (some content)) ∧
      (told = .ok true → stored' = Function.update stored name (some content))
  | .getImage name, .getImage told => stored' = stored ∧
    ∀ content, told = .ok (true, content) → stored name = some content
  | .getList, .getList told => stored' = stored ∧
    ∀ list, told = .ok (true, list) → ∃ names : List ImageName, names.Nodup ∧
      (∀ name, name ∈ names ↔ stored name ≠ none) ∧
      (((names.map ImageName.text).flatMap wire).length < 2 ^ 31 →
        list = output.list ++ names.map ImageName.text)
  | _, _ => False

/-- No content that is stored has 2 GiB. -/
def SmallContents (t : FileSystem) : Prop :=
  ∀ name content, contents t name = some content → content.length < 2 ^ 31

theorem map_fst_eq_ok_true_iff {x : Except Exn (Bool × Unit)} :
    x.map Prod.fst = .ok true ↔ x = .ok (true, ()) := by
  rcases x with e | ⟨b, _⟩ <;> simp [Except.map]

section Submitted

variable {request : StorageRequest} {output : StorageOutput} {received : Except Exn Response}

/-- A call that does not take place. -/
theorem allowedRemotely_of_lost (stored : ImageName → Option (List Byte))
    (h : ∀ r, received = .ok r → r.successful = false) :
    AllowedRemotely stored request output (request.told output received) stored := by
  have hno : ∀ {α : Type} {receive : Response → Except Exn α} {output a : α},
      TypedStub.told receive output received ≠ .ok (true, a) := by
    intro α receive output a htold
    obtain ⟨r, hr, hs, -⟩ := TypedStub.told_eq_ok_true_iff.mp htold
    cases (h r hr).symm.trans hs
  cases request with
  | storeImage name content =>
    exact ⟨.inl rfl, fun htold => absurd (map_fst_eq_ok_true_iff.mp htold) hno⟩
  | getImage name => exact ⟨rfl, fun content htold => absurd htold hno⟩
  | getList => exact ⟨rfl, fun list htold => absurd htold hno⟩

/-- A call that takes place. -/
theorem allowedRemotely_of_called {t : FileSystem} (honly : OnlyImages t) (hsmall : SmallContents t)
    (h : ∀ r, received = .ok r → r.successful = true → ∃ r₀,
      (onFiles (request.invoke sys) request.service t).1 = .ok (some r₀) ∧ r₀.successful = true ∧
      ((∀ a ∈ r₀.arguments, a.data.length < 2 ^ 31) → r = r₀)) :
    AllowedRemotely (contents t) request output (request.told output received)
      (contents (request.answer sys t).2) := by
  have hallowed := allowed_answer sys honly request
  -- a successful response is the answer
  have hanswer : ∀ r, received = .ok r → r.successful = true →
      (request.answer sys t).1.successful = true ∧
      ((∀ a ∈ (request.answer sys t).1.arguments, a.data.length < 2 ^ 31) →
        r = (request.answer sys t).1) := by
    intro r hr hs
    obtain ⟨r₀, hreturned, hs₀, heq⟩ := h r hr hs
    rw [answer_of_returned hreturned]
    exact ⟨hs₀, heq⟩
  cases request with
  | storeImage name content =>
    rw [Allowed] at hallowed
    refine ⟨?_, fun htold => ?_⟩
    · rw [hallowed]
      split
      · exact .inr rfl
      · exact .inl rfl
    · obtain ⟨r, hr, hs, -⟩ := TypedStub.told_eq_ok_true_iff.mp (map_fst_eq_ok_true_iff.mp htold)
      rw [hallowed, if_pos (hanswer r hr hs).1]
  | getImage name =>
    refine ⟨hallowed.1, fun content htold => ?_⟩
    obtain ⟨r, hr, hs, hpop⟩ := TypedStub.told_eq_ok_true_iff.mp htold
    obtain ⟨hs₀, heq⟩ := hanswer r hr hs
    obtain ⟨-, hfalse, -⟩ | ⟨content', hcontent, hanswered⟩ := answer_getImage sys name t
    · cases hfalse.symm.trans hs₀
    · rw [hanswered] at heq
      rw [heq (List.forall_mem_singleton.mpr (hsmall name content' hcontent)),
        TypedStub.popBuffer_single (by decide +kernel)] at hpop
      rw [hcontent, Except.ok.inj hpop]
  | getList =>
    refine ⟨hallowed.1, fun list htold => ?_⟩
    obtain ⟨r, hr, hs, hpop⟩ := TypedStub.told_eq_ok_true_iff.mp htold
    obtain ⟨-, heq⟩ := hanswer r hr hs
    obtain ⟨names, hnodup, hmem, hanswered⟩ := answer_getList sys honly
    refine ⟨names, hnodup, hmem, fun hsize => ?_⟩
    rw [hanswered] at heq
    rw [heq (List.forall_mem_singleton.mpr hsize),
      TypedStub.popBuffer_single (by decide +kernel)] at hpop
    rw [← Except.ok.inj hpop]
    refine congrArg (output.list ++ ·) (GetListService.receive_flatMap_wire fun s hs => ?_)
    obtain ⟨name, -, rfl⟩ := List.mem_map.mp hs
    exact ⟨name.text_ne_nil, name.zero_not_mem_text⟩

end Submitted

/-- A request that fits. -/
abbrev SmallRequest := { request : StorageRequest // request.IsSmall }

theorem smallContents_answer {t : FileSystem} (h : SmallContents t) (request : SmallRequest)
    (honly : OnlyImages t) : SmallContents (request.1.answer sys t).2 := by
  obtain ⟨request, hrequest⟩ := request
  have hallowed := allowed_answer sys honly request
  intro name content hcontent
  cases request with
  | storeImage name' content' =>
    rw [Allowed] at hallowed
    rw [hallowed] at hcontent
    split at hcontent
    · rw [Function.update_apply] at hcontent
      split at hcontent
      · rw [← Option.some.inj hcontent]
        exact hrequest.2
      · exact h name content hcontent
    · exact h name content hcontent
  | getImage name' => exact h name content (hallowed.1 ▸ hcontent)
  | getList => exact h name content (hallowed.1 ▸ hcontent)

/-- At this address, nobody else listens but the storage provider. -/
def OnlyAt (sys : System) (hosts : Hosts FileSystem) (host port : Text) : Prop :=
  ∀ n p, hosts.listening n host port = some p → p = installation sys

/-- The clients of the storage provider at an address, as they send one request after the other,
each with what it passes for the output. -/
def clients (y : YamlLibrary) (hosts : Hosts FileSystem) (host port : Text) (start : FileSystem) :
    Machine (FileSystem × ℕ) (SmallRequest × StorageOutput) StorageAnswer :=
  ⟨(start, 0), fun t call => call.1.1.call y (hosts.network y) host port call.2 t⟩

/-- One request over the network, where the files are a part of what the providers keep. -/
theorem call_cases {W κ : Type} (y : YamlCpp) (part : Throwing.Part W FileSystem κ)
    {hosts : Hosts W} {host port : Text} (request : SmallRequest)
    (htarget : ∀ n k, hosts.target n (request.1.stub host port) = some k →
      k = (request.1.serviceClass sys).onPart part) (output : StorageOutput) (w : W) (n : ℕ) :
    let called :=
      request.1.call y.toYamlLibrary (hosts.network y.toYamlLibrary) host port output (w, n)
    ∃ n' t', called.2 = (part.put w t', n') ∧
      (t' = part.part w ∨ t' = (request.1.answer sys (part.part w)).2) ∧
      (OnlyImages (part.part w) → SmallContents (part.part w) →
        AllowedRemotely (contents (part.part w)) request.1 output called.1 (contents t')) := by
  intro called
  obtain ⟨request, hrequest⟩ := request
  rcases hsubmit : ((request.stub host port).submit y.toYamlLibrary
    (hosts.network y.toYamlLibrary)).run (w, n) with ⟨received, w', n'⟩
  have honce := Hosts.atMostOnce_submit y hosts (request.submission hrequest host port) (w, n)
  rw [show (request.submission hrequest host port).stub = request.stub host port from rfl,
    hsubmit] at honce
  have hcalled : called = _ := request.call_eq output hsubmit
  rw [hcalled]
  cases honce with
  | lost hreceived =>
    exact ⟨n', part.part w, by rw [part.put_part], .inl rfl,
      fun _ _ => allowedRemotely_of_lost _ hreceived⟩
  | @called _ _ _ _ _ k hk hreceived =>
    obtain rfl := htarget n k hk
    have hinvoke : (request.serviceClass sys).invoke
        ((request.submission hrequest host port).stub.skeleton (request.serviceClass sys))
          (part.part w) = onFiles (request.invoke sys) request.service (part.part w) :=
      request.invoke_serviceClass sys host port (part.part w)
    have hwhole : ((request.serviceClass sys).onPart part).invoke
        ((request.submission hrequest host port).stub.skeleton
          ((request.serviceClass sys).onPart part)) w =
        ((onFiles (request.invoke sys) request.service (part.part w)).1,
          part.put w (onFiles (request.invoke sys) request.service (part.part w)).2) := by
      rw [← hinvoke]
      rfl
    rw [hwhole] at hreceived ⊢
    rw [← answer_snd]
    exact ⟨n', _, rfl, .inr rfl,
      fun honly hsmall => allowedRemotely_of_called honly hsmall hreceived⟩

/-- The class of the storage provider, if nobody else listens. -/
theorem OnlyAt.target {hosts : Hosts FileSystem} {host port : Text} (h : OnlyAt sys hosts host port)
    (request : StorageRequest) (n : ℕ) (k : ServiceClass FileSystem)
    (hk : hosts.target n (request.stub host port) = some k) :
    k = (request.serviceClass sys).onPart (.self FileSystem) := by
  obtain ⟨p, hp, hk⟩ := Option.bind_eq_some_iff.mp hk
  obtain rfl := h n p hp
  exact Option.some.inj (hk.symm.trans (request.classOf_installation sys))

/-- **The storage provider from afar refines the map of what is stored**, whatever happens to the
connections. -/
theorem refines_remote (y : YamlCpp) {hosts : Hosts FileSystem} {host port : Text}
    (hosts_only : OnlyAt sys hosts host port) {start : FileSystem} (h : EmptyFolder start) :
    (clients y.toYamlLibrary hosts host port start).Refines
      (fun s => OnlyImages s.1 ∧ SmallContents s.1) (fun s => contents s.1)
      fun stored call => AllowedRemotely stored call.1.1 call.2 where
  invariant := {
    init := ⟨(refines sys h).invariant.init, fun name content hcontent => by
      cases (congrFun h.contents name).symm.trans hcontent⟩
    step := by
      rintro ⟨t, n⟩ ⟨request, output⟩ ⟨honly, hsmall⟩
      obtain ⟨n', t', heq, ht', -⟩ :=
        call_cases y (.self FileSystem) request (hosts_only.target request.1) output t n
      show OnlyImages (request.1.call _ _ host port output (t, n)).2.1 ∧
        SmallContents (request.1.call _ _ host port output (t, n)).2.1
      rw [heq]
      obtain rfl | rfl := ht'
      · exact ⟨honly, hsmall⟩
      · exact ⟨onlyImages_answer sys honly request.1, smallContents_answer hsmall request honly⟩ }
  step := by
    rintro ⟨t, n⟩ ⟨request, output⟩ ⟨honly, hsmall⟩
    obtain ⟨n', t', heq, -, hallowed⟩ :=
      call_cases y (.self FileSystem) request (hosts_only.target request.1) output t n
    have hfiles : t' = (request.1.call y.toYamlLibrary (hosts.network y.toYamlLibrary) host port
        output (t, n)).2.1 := by rw [heq]; rfl
    have h := hallowed honly hsmall
    rw [hfiles] at h
    exact h

/-- **Any requests over any network**: what is stored changes as the map says, or not at all, and
what a client is told of success is true. -/
theorem allows_remote (y : YamlCpp) {hosts : Hosts FileSystem} {host port : Text}
    (hosts_only : OnlyAt sys hosts host port) {start : FileSystem} (h : EmptyFolder start)
    (calls : List (SmallRequest × StorageOutput)) :
    let run := (clients y.toYamlLibrary hosts host port start).runFrom (start, 0) calls
    Machine.Allows (fun stored call => AllowedRemotely stored call.1.1 call.2) (fun _ => none)
      calls run.1 (contents run.2.1) := by
  have hrefines := refines_remote y hosts_only h
  have hrun := hrefines.run hrefines.invariant.init calls
  have hinit : contents (clients y.toYamlLibrary hosts host port start).init.1 = fun _ => none :=
    h.contents
  rwa [hinit] at hrun

/-- Store an image, and retrieve it into a buffer that is not empty. -/
def smallCalls : List (SmallRequest × StorageOutput) :=
  [(⟨.storeImage sampleName (txt "x"), by decide +kernel⟩, {}),
    (⟨.getImage sampleName, by decide +kernel⟩, { buffer := txt "y" })]

/-- A library that writes the headers of these requests, and of the responses to them, as yaml-cpp
does. -/
noncomputable def storageYaml : YamlCpp :=
  .ofTexts [(storeImage sampleName (txt "x")).service.header, (getImage sampleName).service.header,
      (Response.new StoreImageServiceImpl.serviceSignature true (txt "OK")).header,
      (Response.single GetImageServiceImpl.serviceSignature (txt "OK")
        (.ofBuffer (txt "x"))).header]
    (by decide +kernel) (by decide +kernel)

/-- The storage provider listens everywhere, and these are the connections to it. -/
def storageHosts (link : ℕ → Link) : Hosts FileSystem where
  listening _ _ _ := some (installation sampleSystem)
  unreachable _ _ := .runtime (txt "connect: Connection refused")
  link := link

/-- The response to the first request is lost. -/
def lossyLink : ℕ → Link
  | 0 => { Link.plain with cutBack := some 3 }
  | _ => .plain

theorem allows_remote_sample :
    let run := (clients storageYaml.toYamlLibrary (storageHosts lossyLink) (txt "10.0.0.2")
      (txt "5000") .empty).runFrom (.empty, 0) smallCalls
    Machine.Allows (fun stored call => AllowedRemotely stored call.1.1 call.2) (fun _ => none)
      smallCalls run.1 (contents run.2.1) :=
  allows_remote storageYaml (fun _ _ hp => (Option.some.inj hp).symm) (.inl rfl) smallCalls

/-! ### If nothing happens to the connections -/

/-- The storage provider always listens at this address, and every connection is whole. -/
structure Undisturbed (sys : System) (hosts : Hosts FileSystem) (host port : Text) : Prop where
  listening : ∀ n, hosts.listening n host port = some (installation sys)
  whole : ∀ n, (hosts.link n).Whole

/-- What the map answers. Without success, the output is what the caller has passed. -/
def Exact (stored : ImageName → Option (List Byte)) (request : StorageRequest)
    (output : StorageOutput) (answer : StorageAnswer)
    (stored' : ImageName → Option (List Byte)) : Prop :=
  match request, answer with
  | .storeImage name content, .storeImage told =>
    told = .ok true ∧ stored' = Function.update stored name (some content) ∨
      told = .ok false ∧ stored' = stored
  | .getImage name, .getImage told => stored' = stored ∧
    told = .ok (match stored name with
      | none => (false, output.buffer)
      | some content => (true, content))
  | .getList, .getList told => stored' = stored ∧ ∃ names : List ImageName, names.Nodup ∧
    (∀ name, name ∈ names ↔ stored name ≠ none) ∧
    (((names.map ImageName.text).flatMap wire).length < 2 ^ 31 →
      told = .ok (true, output.list ++ names.map ImageName.text))
  | _, _ => False

/-- The outcome of a request is its answer. -/
theorem outcome_eq_answer (y : YamlLibrary) (sys : System) (request : StorageRequest)
    (t : FileSystem) : SerializationHelper.outcome y request.service.signature
      (onFiles (request.invoke sys) request.service t).1 = (request.answer sys t).1 := by
  have hreply : SerializationHelper.reply request.service.signature
      (onFiles (request.invoke sys) request.service t).1 = (request.answer sys t).1 :=
    (answer_fst sys request t).symm
  cases hbuffers : (SerializationHelper.reply request.service.signature
    (onFiles (request.invoke sys) request.service t).1).getConstBuffers y with
  | ok buffers => rw [SerializationHelper.outcome_of_ok hbuffers, hreply]
  | error e =>
    rw [Response.getConstBuffers] at hbuffers
    split at hbuffers
    · next hlt =>
      rcases hinvoke : (onFiles (request.invoke sys) request.service t).1 with e | r
      · rw [hinvoke] at hlt
        cases hlt.1
      · rw [hinvoke] at hlt
        exact absurd (SerializationHelper.returned_deficient_iff.mp hlt)
          (not_deficient_of_invoke hinvoke)
    · cases hbuffers

/-- The response when an image has been stored. -/
theorem answer_storeImage_eq {name : ImageName} {content : List Byte} {t : FileSystem}
    (h : ((storeImage name content).answer sys t).1.successful = true) :
    ((storeImage name content).answer sys t).1 =
      .new StoreImageServiceImpl.serviceSignature true (txt "OK") := by
  obtain ⟨s, hrun⟩ := StoreImageServiceImpl.run_invoke sys name content t
  rw [answer_fst, StorageRequest.invoke, hrun] at h ⊢
  dsimp only at h ⊢
  cases hsave : ((saveFile sys name.text content).run t).1 with
  | error e =>
    rw [hsave] at h
    cases h
  | ok _ => rfl

/-- What the client makes of an answer that is delivered. -/
theorem exact_of_delivers {t : FileSystem} (honly : OnlyImages t) (hsmall : SmallContents t)
    {request : StorageRequest} (output : StorageOutput) {received : Except Exn Response}
    (h : ((request.answer sys t).1.successful = true →
        ∀ a ∈ (request.answer sys t).1.arguments, a.data.length < 2 ^ 31) →
      ServiceStub.Delivers (request.answer sys t).1 received) :
    Exact (contents t) request output (request.told output received)
      (contents (request.answer sys t).2) := by
  have hallowed := allowed_answer sys honly request
  cases request with
  | storeImage name content =>
    rw [Allowed] at hallowed
    cases hs : ((storeImage name content).answer sys t).1.successful with
    | false =>
      rw [hs] at hallowed
      have hdelivers := h fun h => by cases hs.symm.trans h
      rw [hdelivers.of_unsuccessful hs]
      exact .inr ⟨rfl, hallowed⟩
    | true =>
      rw [hs] at hallowed
      rw [answer_storeImage_eq hs] at h
      rw [(h fun _ a ha => absurd ha List.not_mem_nil).of_status rfl TypedStub.status_ok_ne_nil]
      exact .inl ⟨rfl, hallowed⟩
  | getImage name =>
    refine ⟨hallowed.1, ?_⟩
    obtain ⟨hnone, hs, -⟩ | ⟨content, hcontent, hanswered⟩ := answer_getImage sys name t
    · have hdelivers := h fun h => by cases hs.symm.trans h
      rw [hnone, hdelivers.of_unsuccessful hs]
      rfl
    · rw [hanswered] at h
      have hdelivers := h fun _ => List.forall_mem_singleton.mpr (hsmall name content hcontent)
      rw [hcontent, hdelivers.of_status rfl TypedStub.status_ok_ne_nil]
      exact TypedStub.told_eq_ok_true_iff.mpr
        ⟨_, rfl, rfl, TypedStub.popBuffer_single (by decide +kernel) _ content⟩
  | getList =>
    refine ⟨hallowed.1, ?_⟩
    obtain ⟨names, hnodup, hmem, hanswered⟩ := answer_getList sys honly
    refine ⟨names, hnodup, hmem, fun hsize => ?_⟩
    rw [hanswered] at h
    have hdelivers := h fun _ => List.forall_mem_singleton.mpr hsize
    rw [hdelivers.of_status rfl TypedStub.status_ok_ne_nil]
    refine TypedStub.told_eq_ok_true_iff.mpr ⟨_, rfl, rfl, ?_⟩
    rw [TypedStub.popBuffer_single (by decide +kernel)]
    refine congrArg (fun list => Except.ok (output.list ++ list))
      (GetListService.receive_flatMap_wire fun s hs => ?_)
    obtain ⟨name, -, rfl⟩ := List.mem_map.mp hs
    exact ⟨name.text_ne_nil, name.zero_not_mem_text⟩

/-- One request over a connection that is whole, where the files are a part of what the providers
keep. -/
theorem call_of_whole {W κ : Type} (y : YamlCpp) (part : Throwing.Part W FileSystem κ)
    {hosts : Hosts W} {host port : Text} (request : SmallRequest) {n : ℕ}
    (htarget : hosts.target n (request.1.stub host port) =
      some ((request.1.serviceClass sys).onPart part))
    (hwhole : (hosts.link n).Whole) {w : W} (honly : OnlyImages (part.part w))
    (hsmall : SmallContents (part.part w)) (output : StorageOutput) : ∃ answer,
      request.1.call y.toYamlLibrary (hosts.network y.toYamlLibrary) host port output (w, n) =
        (answer, (part.put w (request.1.answer sys (part.part w)).2, n + 1)) ∧
      Exact (contents (part.part w)) request.1 output answer
        (contents (request.1.answer sys (part.part w)).2) := by
  obtain ⟨request, hrequest⟩ := request
  have hall : (request.submission hrequest host port).stub.signature.inputParams.length ≤
      (request.submission hrequest host port).stub.arguments.length := by
    show request.service.signature.inputParams.length ≤ request.service.arguments.length
    rw [← request.types, List.length_map]
  obtain ⟨received, hrun, hdelivers⟩ := Hosts.submit_of_whole y hosts
    (request.submission hrequest host port) hall htarget hwhole w
  have hinvoke : (request.serviceClass sys).invoke
      ((request.submission hrequest host port).stub.skeleton (request.serviceClass sys))
        (part.part w) = onFiles (request.invoke sys) request.service (part.part w) :=
    request.invoke_serviceClass sys host port (part.part w)
  have hon : ((request.serviceClass sys).onPart part).invoke
      ((request.submission hrequest host port).stub.skeleton
        ((request.serviceClass sys).onPart part)) w =
      ((onFiles (request.invoke sys) request.service (part.part w)).1,
        part.put w (onFiles (request.invoke sys) request.service (part.part w)).2) := by
    rw [← hinvoke]
    rfl
  rw [hon] at hrun hdelivers
  rw [← answer_snd] at hrun
  have houtcome : SerializationHelper.outcome y.toYamlLibrary
      (request.submission hrequest host port).stub.signature
      (onFiles (request.invoke sys) request.service (part.part w)).1 =
        (request.answer sys (part.part w)).1 :=
    outcome_eq_answer y.toYamlLibrary sys request (part.part w)
  rw [houtcome] at hdelivers
  exact ⟨_, request.call_eq output hrun, exact_of_delivers honly hsmall output hdelivers⟩

theorem Undisturbed.target {hosts : Hosts FileSystem} {host port : Text}
    (h : Undisturbed sys hosts host port) (request : StorageRequest) (n : ℕ) :
    hosts.target n (request.stub host port) =
      some ((request.serviceClass sys).onPart (.self FileSystem)) := by
  show (hosts.listening n host port).bind _ = _
  rw [h.listening n]
  exact request.classOf_installation sys

/-- **If nothing happens to the connections, the storage provider is the map from afar too.** -/
theorem exact_remote (y : YamlCpp) {hosts : Hosts FileSystem} {host port : Text}
    (hundisturbed : Undisturbed sys hosts host port) {start : FileSystem} (h : EmptyFolder start)
    (calls : List (SmallRequest × StorageOutput)) :
    let run := (clients y.toYamlLibrary hosts host port start).runFrom (start, 0) calls
    Machine.Allows (fun stored call => Exact stored call.1.1 call.2) (fun _ => none) calls
      run.1 (contents run.2.1) := by
  have hrefines : (clients y.toYamlLibrary hosts host port start).Refines
      (fun s => OnlyImages s.1 ∧ SmallContents s.1) (fun s => contents s.1)
      fun stored call => Exact stored call.1.1 call.2 := {
    invariant := (refines_remote y (fun n p hp =>
      Option.some.inj (hp.symm.trans (hundisturbed.listening n))) h).invariant
    step := by
      rintro ⟨t, n⟩ ⟨request, output⟩ ⟨honly, hsmall⟩
      obtain ⟨answer, heq, hexact⟩ := call_of_whole y (.self FileSystem) request
        (hundisturbed.target request.1 n) (hundisturbed.whole n) (w := t) honly hsmall output
      have hstep : (clients y.toYamlLibrary hosts host port start).step (t, n) (request, output) =
          (answer, ((request.1.answer sys t).2, n + 1)) := heq
      rw [hstep]
      exact hexact }
  have hrun := hrefines.run hrefines.invariant.init calls
  have hinit : contents (clients y.toYamlLibrary hosts host port start).init.1 = fun _ => none :=
    h.contents
  rwa [hinit] at hrun

theorem exact_remote_sample :
    let run := (clients storageYaml.toYamlLibrary (storageHosts fun _ => {}) (txt "10.0.0.2")
      (txt "5000") .empty).runFrom (.empty, 0) smallCalls
    Machine.Allows (fun stored call => Exact stored call.1.1 call.2) (fun _ => none) smallCalls
      run.1 (contents run.2.1) :=
  exact_remote storageYaml ⟨fun _ => rfl, fun _ => ⟨rfl, fun _ => rfl, rfl, rfl⟩⟩ (.inl rfl)
    smallCalls

end StorageProvider

end Ssoa
