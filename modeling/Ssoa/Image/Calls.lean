import Ssoa.Image.ImageProvider

/-!
# Requests for the image manipulation provider

The provider has two classes installed. Here a request is served as a whole, which is what it comes
to if any number of them are served at the same time (`ImageProvider.concurrent_manipulation`). A
client makes an object for every request, and passes the same buffer for the input and the output.
The provider may end as it serves a request, and be started again; it is counted how often.

## Main results

* `ImageRequest.call_eq` — calling `invoke` submits the request
* `ImageRequest.invoke_serviceClass` — what is invoked for it
* `ImageRequest.call_cases` — one request over a network
-/

namespace Ssoa

open Routine ImageHelper

variable {T : Type} [Inhabited T]

/-! ### The classes of the provider -/

/-- What the provider keeps: its temporary files. Beside them it is counted how many requests there
were, and for how many of them the process has ended. -/
structure ImageKept where
  files : Text → Option (List Byte) := fun _ => none
  served : ℕ := 0
  ended : ℕ := 0

namespace ImageProvider

/-- The skeleton's `invoke` as a whole. Where the process ends, there is no result; what stands for
one is given to nobody. -/
def onKept (sys : ImageSystem T) (attempts : ℕ → Attempt)
    (steps : Attempt → SkeletonSteps (Option (List Byte)) (Option (Option Response))) (s : Service)
    (t : ImageKept) : Except Exn (Option Response) × ImageKept :=
  let a := attempts t.served
  let returned := (toThrowing ((steps a).run s)).run (t.files (path sys a))
  let result := unlessEnded (returned.1.map Prod.fst)
  (result.getD (.ok none),
    { files := Function.update t.files (path sys a) returned.2
      served := t.served + 1
      ended := if result.isNone then t.ended + 1 else t.ended })

section Made

variable {τ α β : Type}

/-- What returns has returned from its first part. -/
theorem exists_of_run_bind_ok {x : SkeletonSteps τ α} {f : α → SkeletonSteps τ β} {s : Service}
    {t : τ} {b : β × Service} (h : ((toThrowing ((x >>= f).run s)).run t).1 = .ok b) :
    ∃ a s' t', (toThrowing (x.run s)).run t = (.ok (a, s'), t') ∧
      ((toThrowing ((f a).run s')).run t').1 = .ok b := by
  rw [StateT.run_bind, toThrowing_bind] at h
  obtain ⟨⟨a, s'⟩, t', hx, hf⟩ := Throwing.exists_of_run_bind_ok h
  exact ⟨a, s', t', hx, hf⟩

/-- The end of both skeletons makes a response. -/
theorem made_respond {signature : ServiceSignature} (hvalid : signature.isValid = true)
    {arg : ServiceArgument} {s s' : Service} {t : τ} {r : Response}
    (hr : ((toThrowing ((do
      let response ← SkeletonSteps.own (liftM
        ((Response.new signature true (txt "OK")).withArgument arg))
      return some (some response) : SkeletonSteps τ (Option (Option Response))).run s)).run t).1 =
        .ok (some (some r), s')) : r.Reachable ∧ r.signature.isValid = true := by
  obtain ⟨response, s₁, t₁, hown, hreturn⟩ := exists_of_run_bind_ok hr
  obtain rfl := Option.some.inj (Option.some.inj (Prod.mk.inj (Except.ok.inj hreturn)).1)
  rw [SkeletonSteps.run_own, Throwing.run_lift] at hown
  cases hwith : (Response.new signature true (txt "OK")).withArgument arg with
  | error e =>
    rw [hwith] at hown
    cases (Prod.mk.inj hown).1
  | ok response' =>
    rw [hwith] at hown
    obtain rfl : response' = response :=
      (Prod.mk.inj (Except.ok.inj (Prod.mk.inj hown).1)).1
    obtain ⟨hreachable, hsignature⟩ := Response.withArgument_made hwith
      (Response.made_new hvalid true (txt "OK")).1
    exact ⟨hreachable, by rw [hsignature]; exact hvalid⟩

variable {sys : ImageSystem T} {attempts : ℕ → Attempt} {s : Service} {t : ImageKept} {r : Response}

omit [Inhabited T] in
theorem exists_of_onKept
    {steps : Attempt → SkeletonSteps (Option (List Byte)) (Option (Option Response))}
    (hr : (onKept sys attempts steps s t).1 = .ok (some r)) :
    ∃ a content s', ((toThrowing ((steps a).run s)).run content).1 = .ok (some (some r), s') := by
  obtain ⟨⟨returned, s'⟩, hok, rfl⟩ := Throwing.exists_of_map_ok (eq_of_unlessEnded hr)
  exact ⟨_, _, s', hok⟩

theorem made_rotateImage
    (hr : (onKept sys attempts (RotateImageServiceImpl.steps sys) s t).1 = .ok (some r)) :
    r.Reachable ∧ r.signature.isValid = true := by
  obtain ⟨a, content, s', hr⟩ := exists_of_onKept hr
  rw [RotateImageServiceImpl.steps] at hr
  obtain ⟨degrees, _, _, -, hr⟩ := exists_of_run_bind_ok hr
  obtain ⟨inputBuffer, _, _, -, hr⟩ := exists_of_run_bind_ok hr
  obtain ⟨_ | buffer, _, _, -, hr⟩ := exists_of_run_bind_ok hr
  · cases (Prod.mk.inj (Except.ok.inj hr)).1
  · exact made_respond (by decide +kernel) hr

omit [Inhabited T] in
theorem made_horizontalFlipImage
    (hr : (onKept sys attempts (HorizontalFlipImageServiceImpl.steps sys) s t).1 = .ok (some r)) :
    r.Reachable ∧ r.signature.isValid = true := by
  obtain ⟨a, content, s', hr⟩ := exists_of_onKept hr
  rw [HorizontalFlipImageServiceImpl.steps] at hr
  obtain ⟨inputBuffer, _, _, -, hr⟩ := exists_of_run_bind_ok hr
  obtain ⟨_ | buffer, _, _, -, hr⟩ := exists_of_run_bind_ok hr
  · cases (Prod.mk.inj (Except.ok.inj hr)).1
  · exact made_respond (by decide +kernel) hr

end Made

def rotateImageClass (sys : ImageSystem T) (attempts : ℕ → Attempt) : ServiceClass ImageKept where
  text := txt "RotateImage(in int, in buffer, out buffer)"
  invoke := onKept sys attempts (RotateImageServiceImpl.steps sys)
  valid := by decide +kernel
  canonical := by decide +kernel
  made _ _ _ hr := made_rotateImage hr

def horizontalFlipImageClass (sys : ImageSystem T) (attempts : ℕ → Attempt) :
    ServiceClass ImageKept where
  text := txt "HorizontalFlipImage(in buffer, out buffer)"
  invoke := onKept sys attempts (HorizontalFlipImageServiceImpl.steps sys)
  valid := by decide +kernel
  canonical := by decide +kernel
  made _ _ _ hr := made_horizontalFlipImage hr

/-- Both services installed. -/
def installation (sys : ImageSystem T) (attempts : ℕ → Attempt) : Installation ImageKept where
  classes := [rotateImageClass sys attempts, horizontalFlipImageClass sys attempts]
  nodup := by
    show [txt "RotateImage(in int, in buffer, out buffer)",
      txt "HorizontalFlipImage(in buffer, out buffer)"].Nodup
    decide +kernel

end ImageProvider

/-! ### The objects of a client -/

namespace ImageRequest

open ImageProvider

variable {W : Type}

/-- Make an object for the request, and call its `invoke` with the buffer for the output too. -/
def call (y : YamlLibrary) (net : Network W) (host port : Text) (request : ImageRequest) (w : W) :
    Except Exn (Bool × List Byte) × W :=
  match request with
  | rotateImage degrees input =>
    let (told, t) := (RotateImageService.invoke y net degrees input input).run
      (RotateImageService.new host port, w)
    (told, t.2)
  | horizontalFlipImage input =>
    let (told, t) := (HorizontalFlipImageService.invoke y net input input).run
      (HorizontalFlipImageService.new host port, w)
    (told, t.2)

/-- The stub that is submitted. -/
def stub (request : ImageRequest) (host port : Text) : ServiceStub :=
  { request.service with host, port }

theorem types (request : ImageRequest) :
    request.service.arguments.map (·.kind.type) = request.service.signature.inputParams := by
  cases request with
  | rotateImage degrees input =>
    show [txt "int", txt "buffer"] = RotateImageServiceImpl.serviceSignature.inputParams
    decide +kernel
  | horizontalFlipImage input =>
    show [txt "buffer"] = HorizontalFlipImageServiceImpl.serviceSignature.inputParams
    decide +kernel

/-- **Calling `invoke` submits the request.** -/
theorem call_eq {y : YamlLibrary} {net : Network W} {host port : Text} (request : ImageRequest)
    {w w' : W} {received : Except Exn Response}
    (hsubmit : ((request.stub host port).submit y net).run w = (received, w')) :
    request.call y net host port w =
      (TypedStub.told TypedStub.popBuffer request.input received, w') := by
  cases request with
  | rotateImage degrees input =>
    obtain ⟨s, -, hrun⟩ := TypedStub.run_invoke_new (rotateImage degrees input).types
      TypedStub.popBuffer input hsubmit
    have hinvoke : (RotateImageService.invoke y net degrees input input).run
        (RotateImageService.new host port, w) = (_, (s, w')) := hrun
    simp only [call, hinvoke]
    rfl
  | horizontalFlipImage input =>
    obtain ⟨s, -, hrun⟩ := TypedStub.run_invoke_new (horizontalFlipImage input).types
      TypedStub.popBuffer input hsubmit
    have hinvoke : (HorizontalFlipImageService.invoke y net input input).run
        (HorizontalFlipImageService.new host port, w) = (_, (s, w')) := hrun
    simp only [call, hinvoke]
    rfl

theorem valid (request : ImageRequest) : request.service.signature.isValid = true := by
  cases request with
  | rotateImage degrees input =>
    show RotateImageServiceImpl.serviceSignature.isValid = true
    decide +kernel
  | horizontalFlipImage input =>
    show HorizontalFlipImageServiceImpl.serviceSignature.isValid = true
    decide +kernel

theorem length_outputParams (request : ImageRequest) :
    request.service.signature.outputParams.length = 1 := by
  cases request with
  | rotateImage degrees input =>
    show RotateImageServiceImpl.serviceSignature.outputParams.length = 1
    decide +kernel
  | horizontalFlipImage input =>
    show HorizontalFlipImageServiceImpl.serviceSignature.outputParams.length = 1
    decide +kernel

/-- The submission of a request with an image smaller than 2 GiB. -/
def submission (request : ImageRequest) (h : request.input.length < 2 ^ 31) (host port : Text) :
    Submission where
  stub := request.stub host port
  reachable := ServiceStub.reachable_iff.mpr ⟨by cases request <;> rfl,
    by rw [show (request.stub host port).arguments = request.service.arguments from rfl,
      request.types]; exact List.prefix_rfl⟩
  valid := request.valid
  small := by
    cases request with
    | rotateImage degrees input =>
      have hint : (ServiceArgument.ofInt degrees).data.length < 2 ^ 31 :=
        show 4 < 2 ^ 31 by decide
      exact List.forall_mem_cons.mpr ⟨hint, List.forall_mem_singleton.mpr h⟩
    | horizontalFlipImage input => exact List.forall_mem_singleton.mpr h

/-- The class installed for the request. -/
def serviceClass (sys : ImageSystem T) (attempts : ℕ → Attempt) :
    ImageRequest → ServiceClass ImageKept
  | rotateImage _ _ => rotateImageClass sys attempts
  | horizontalFlipImage _ => horizontalFlipImageClass sys attempts

theorem classOf_installation (sys : ImageSystem T) (attempts : ℕ → Attempt)
    (request : ImageRequest) :
    (installation sys attempts).classOf request.service.signature.signature =
      some (request.serviceClass sys attempts) := by
  refine (Installation.classOf_eq_some_iff _).mpr ?_
  cases request with
  | rotateImage degrees input =>
    refine ⟨List.mem_cons_self, ?_⟩
    show txt "RotateImage(in int, in buffer, out buffer)" =
      RotateImageServiceImpl.serviceSignature.signature
    decide +kernel
  | horizontalFlipImage input =>
    refine ⟨List.mem_cons_of_mem _ List.mem_cons_self, ?_⟩
    show txt "HorizontalFlipImage(in buffer, out buffer)" =
      HorizontalFlipImageServiceImpl.serviceSignature.signature
    decide +kernel

/-- **What is invoked for a request**: the call of `ImageHelper`, with what the system decides for
it. -/
theorem invoke_serviceClass (sys : ImageSystem T) (attempts : ℕ → Attempt) (request : ImageRequest)
    (host port : Text) (t : ImageKept) :
    let a := attempts t.served
    (request.serviceClass sys attempts).invoke
        ((request.stub host port).skeleton (request.serviceClass sys attempts)) t =
      ((unlessEnded (request.result sys a)).getD (.ok none),
        { files := Function.update t.files (path sys a)
            (left sys a (request.manipulation sys) request.input (t.files (path sys a)))
          served := t.served + 1
          ended := if (unlessEnded (request.result sys a)).isNone then t.ended + 1
            else t.ended }) := by
  intro a
  have hskeleton : (request.stub host port).skeleton (request.serviceClass sys attempts) =
      request.service := by cases request <;> rfl
  have hinvoke : (request.serviceClass sys attempts).invoke =
      onKept sys attempts (request.steps sys) := by cases request <;> rfl
  obtain ⟨s, hrun⟩ := request.run_steps sys a (t.files (path sys a))
  rw [hskeleton, hinvoke, onKept, hrun, result]
  rcases (outcome sys a (request.manipulation sys) request.input).1 with e | _ | buffer <;> rfl

/-! ### Over a network -/

/-- The file is made of the image in the request. -/
def Makes (sys : ImageSystem T) (request : ImageRequest) (output : List Byte) : Prop :=
  ∃ filename image, sys.loadJpeg filename request.input = .ok image ∧
    jpegOf sys (request.manipulation sys image) = some output

/-- The file is not made of the image in the request, since libjpeg refuses it. -/
def Ends (sys : ImageSystem T) (request : ImageRequest) : Prop :=
  ∃ filename image, sys.loadJpeg filename request.input = .ok image ∧
    jpegOf sys (request.manipulation sys image) = none

theorem makes_of_outcome {sys : ImageSystem T} {a : Attempt} {request : ImageRequest}
    {output : List Byte}
    (h : (outcome sys a (request.manipulation sys) request.input).1 = .ok (some output)) :
    request.Makes sys output := by
  rw [outcome] at h
  cases hfolder : sys.temporaryFolder with
  | error e =>
    rw [hfolder] at h
    cases h
  | ok folder =>
    rw [hfolder] at h
    dsimp only at h
    split at h
    · cases h
    split at h
    · cases h
    cases hload : sys.loadJpeg (tempfilename folder a) request.input with
    | error e =>
      rw [hload] at h
      cases h
    | ok image =>
      rw [hload] at h
      dsimp only at h
      split at h
      · cases h
      rcases hsaved : saved sys a.saving (request.manipulation sys image) with ⟨_ | _, file⟩
      · rw [hsaved] at h
        cases h
      · rw [hsaved] at h
        dsimp only at h
        split at h
        · cases h
        · rw [← Option.some.inj (Except.ok.inj h)]
          exact ⟨_, image, hload, jpegOf_of_saved hsaved⟩

/-- **One request over a network**, where the temporary files are a part of what the providers keep:
a client that is told of success gets the image that was made, unless it has 2 GiB. -/
theorem call_cases {W κ : Type} {sys : ImageSystem T} {attempts : ℕ → Attempt} (y : YamlCpp)
    (part : Throwing.Part W ImageKept κ) (ended : W → ℕ) {hosts : Hosts W} {host port : Text}
    (request : ImageRequest) (hsmall : request.input.length < 2 ^ 31)
    (htarget : ∀ n k, hosts.target n (request.stub host port) = some k →
      k = (request.serviceClass sys attempts).onPart part) (w : W) (n : ℕ) :
    let called := request.call y.toYamlLibrary (hosts.mortal ended y.toYamlLibrary) host port (w, n)
    ∃ n' t', called.2 = (part.put w t', n') ∧ ∀ output, called.1 = .ok (true, output) →
      ∃ made, request.Makes sys made ∧ (made.length < 2 ^ 31 → output = made) := by
  intro called
  rcases hsubmit : ((request.stub host port).submit y.toYamlLibrary
    (hosts.mortal ended y.toYamlLibrary)).run (w, n) with ⟨received, w', n'⟩
  have honce := Hosts.atMostOnce_submit_mortal y hosts ended
    (request.submission hsmall host port) (w, n)
  rw [show (request.submission hsmall host port).stub = request.stub host port from rfl,
    hsubmit] at honce
  have hcalled : called = _ := request.call_eq hsubmit
  rw [hcalled]
  cases honce with
  | lost hreceived =>
    refine ⟨n', part.part w, by rw [part.put_part], fun output htold => ?_⟩
    obtain ⟨r, hr, hs, -⟩ := TypedStub.told_eq_ok_true_iff.mp htold
    cases (hreceived r hr).symm.trans hs
  | @called _ _ _ _ _ k hk hreceived =>
    obtain rfl := htarget n k hk
    have hinvoke := request.invoke_serviceClass sys attempts host port (part.part w)
    dsimp only at hinvoke
    have hwhole : ((request.serviceClass sys attempts).onPart part).invoke
        ((request.submission hsmall host port).stub.skeleton
          ((request.serviceClass sys attempts).onPart part)) w = _ :=
      congrArg (fun x => (x.1, part.put w x.2)) hinvoke
    rw [hwhole] at hreceived ⊢
    refine ⟨n', _, rfl, fun output htold => ?_⟩
    obtain ⟨r, hr, hs, hpop⟩ := TypedStub.told_eq_ok_true_iff.mp htold
    obtain ⟨r₀, hreturned, -, heq⟩ := hreceived r hr hs
    obtain ⟨_ | made, hmade, hr₀⟩ := Throwing.exists_of_map_ok (eq_of_unlessEnded hreturned)
    · cases hr₀
    obtain rfl := Option.some.inj (Option.some.inj hr₀)
    refine ⟨made, makes_of_outcome hmade, fun hlt => ?_⟩
    rw [heq (List.forall_mem_singleton.mpr hlt),
      TypedStub.popBuffer_single request.length_outputParams] at hpop
    exact (Except.ok.inj hpop).symm

/-- The outcome of a request is its response. -/
theorem outcome_of_response (y : YamlLibrary) {sys : ImageSystem T} {a : Attempt}
    {request : ImageRequest} {r : Response} (h : request.response sys a = some r) :
    SerializationHelper.outcome y request.service.signature
      ((unlessEnded (request.result sys a)).getD (.ok none)) = r := by
  rcases houtcome : (outcome sys a (request.manipulation sys) request.input).1 with
    e | _ | output
  all_goals
    rw [response, result, houtcome] at h
    rw [result, houtcome]
  · rw [← Option.some.inj h]
    exact SerializationHelper.outcome_error y _ e
  · cases h
  · rw [← Option.some.inj h]
    cases hbuffers : (SerializationHelper.reply request.service.signature (.ok (some
        (.single request.service.signature (txt "OK") (.ofBuffer output))))).getConstBuffers y with
    | ok buffers => exact SerializationHelper.outcome_of_ok hbuffers
    | error e =>
      rw [Response.getConstBuffers] at hbuffers
      split at hbuffers
      · next hlt =>
        have hlt : 1 < request.service.signature.outputParams.length := hlt.2
        rw [request.length_outputParams] at hlt
        cases Nat.lt_irrefl 1 hlt
      · cases hbuffers

/-- **One request over a connection that is whole.** The client gets an exception if the provider
ends. -/
theorem call_of_whole {W κ : Type} {sys : ImageSystem T} {attempts : ℕ → Attempt} (y : YamlCpp)
    (part : Throwing.Part W ImageKept κ) {hosts : Hosts W} {host port : Text}
    (request : ImageRequest) (hsmall : request.input.length < 2 ^ 31) {n : ℕ}
    (htarget : hosts.target n (request.stub host port) =
      some ((request.serviceClass sys attempts).onPart part))
    (hwhole : (hosts.link n).Whole) (w : W) :
    ∃ told t', request.call y.toYamlLibrary
        (hosts.mortal (fun w => (part.part w).ended) y.toYamlLibrary) host port (w, n) =
          (told, (part.put w t', n + 1)) ∧
      let made := (outcome sys (attempts (part.part w).served) (request.manipulation sys)
        request.input).1
      (∀ e, made = .error e → told = .ok (false, request.input)) ∧
        (made = .ok none → ∃ e, told = .error e) ∧
        ∀ output, made = .ok (some output) → output.length < 2 ^ 31 →
          told = .ok (true, output) := by
  have hall : (request.submission hsmall host port).stub.signature.inputParams.length ≤
      (request.submission hsmall host port).stub.arguments.length := by
    show request.service.signature.inputParams.length ≤ request.service.arguments.length
    rw [← request.types, List.length_map]
  obtain ⟨received, hrun, hdelivers⟩ := Hosts.submit_of_whole y hosts
    (request.submission hsmall host port) hall htarget hwhole w
  have hinvoke := request.invoke_serviceClass sys attempts host port (part.part w)
  dsimp only at hinvoke
  have hon : ((request.serviceClass sys attempts).onPart part).invoke
      ((request.submission hsmall host port).stub.skeleton
        ((request.serviceClass sys attempts).onPart part)) w = _ :=
    congrArg (fun x => (x.1, part.put w x.2)) hinvoke
  rw [hon] at hrun hdelivers
  obtain ⟨received', hrun', hsame, hended⟩ := Hosts.exists_run_submit_mortal y.toYamlLibrary hosts
    (fun w => (part.part w).ended) (request.submission hsmall host port).stub (w, n)
  rw [hrun] at hrun' hsame hended
  simp only [part.part_put] at hsame hended
  have houtcome : ∀ {r}, request.response sys (attempts (part.part w).served) = some r →
      SerializationHelper.outcome y.toYamlLibrary
        (request.submission hsmall host port).stub.signature
        ((unlessEnded (request.result sys (attempts (part.part w).served))).getD (.ok none)) = r :=
    outcome_of_response y.toYamlLibrary
  refine ⟨_, _, request.call_eq hrun', fun e hmade => ?_, fun hmade => ?_,
    fun output hmade hlt => ?_⟩
  · rw [houtcome (by rw [response, result, hmade]; rfl)] at hdelivers
    rw [hsame (by rw [result, hmade]; rfl),
      (hdelivers fun h => by cases h).of_unsuccessful rfl]
    rfl
  · obtain ⟨e, rfl⟩ := hended (by rw [result, hmade]; exact Nat.succ_ne_self _)
    exact ⟨e, rfl⟩
  · rw [houtcome (by rw [response, result, hmade]; rfl)] at hdelivers
    rw [hsame (by rw [result, hmade]; rfl), (hdelivers fun _ =>
      List.forall_mem_singleton.mpr hlt).of_status rfl TypedStub.status_ok_ne_nil]
    exact TypedStub.told_eq_ok_true_iff.mpr ⟨_, rfl, rfl,
      TypedStub.popBuffer_single request.length_outputParams _ output⟩

end ImageRequest

/-! ### If all attempts succeed -/

/-- The file can be opened every time, and written as a whole. -/
structure Attempt.Succeeds (a : Attempt) : Prop where
  writing : a.writing = .complete
  loading : a.loading = true
  saving : a.saving = .complete
  reading : a.reading = true

omit [Inhabited T] in
theorem Attempt.Succeeds.outcome_eq {sys : ImageSystem T} {a : Attempt} (h : a.Succeeds)
    {folder : Text} (hfolder : sys.temporaryFolder = .ok folder) (manipulation : CImg T → CImg T)
    (input : List Byte) : (outcome sys a manipulation input).1 =
      (sys.loadJpeg (tempfilename folder a) input).map fun image =>
        jpegOf sys (manipulation image) := by
  rw [outcome, hfolder]
  simp only [h.writing, h.loading, h.saving, h.reading, ne_eq, not_true_eq_false, if_false,
    Bool.true_eq_false, saved_complete, reduceCtorEq]
  cases sys.loadJpeg (tempfilename folder a) input with
  | error e => rfl
  | ok image =>
    dsimp only [Except.map]
    cases jpegOf sys (manipulation image) <;> rfl

end Ssoa
