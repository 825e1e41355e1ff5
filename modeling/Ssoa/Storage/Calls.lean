import Ssoa.Client.Services

/-!
# Requests for the storage provider

The storage provider has three classes installed. For each of them a client has a class of stubs; it
makes an object for every request and calls its `invoke`.

## Main results

* `StorageRequest.call_eq` — calling `invoke` submits the request
* `StorageRequest.classOf_installation`, `StorageRequest.invoke_serviceClass` — what is invoked for
  it
-/

namespace Ssoa

/-! ### The classes of the provider -/

/-- A new response. -/
theorem Response.made_new {signature : ServiceSignature} (hvalid : signature.isValid = true)
    (successful : Bool) (status : Text) :
    (Response.new signature successful status).Reachable ∧
      (Response.new signature successful status).signature.isValid = true :=
  ⟨⟨signature, successful, status, .init _⟩, hvalid⟩

/-- What is pushed on a response that has been made is made too. -/
theorem Response.withArgument_made {r r' : Response} {arg : ServiceArgument}
    (h : r.withArgument arg = .ok r') (hr : r.Reachable) :
    r'.Reachable ∧ r'.signature = r.signature := by
  have hpush : ((Response.pushArgument arg).run r).2.signature = r.signature := rfl
  rw [withArgument] at h
  rcases hrun : (Response.pushArgument arg).run r with ⟨e | _, t⟩
  · simp only [hrun] at h
    cases h
  · simp only [hrun] at h
    obtain rfl := Except.ok.inj h
    rw [hrun] at hpush
    obtain ⟨signature, successful, status, hr⟩ := hr
    have hstep : ((machine signature successful status).step r (.pushArgument arg)).2 = t :=
      congrArg Prod.snd (Throwing.run_map_of_ok hrun)
    exact ⟨⟨signature, successful, status, hstep ▸ hr.step (.pushArgument arg)⟩, hpush⟩

namespace StorageProvider

variable {sys : System}

/-- The skeleton's `invoke`, with the files as what the provider keeps. -/
def onFiles (invoke : Throwing StorageJob Exn (Option Response)) (s : Service) (t : FileSystem) :
    Except Exn (Option Response) × FileSystem :=
  ((invoke.run ⟨s, t⟩).1, (invoke.run ⟨s, t⟩).2.files)

/-- A response with an output argument. -/
theorem made_withArgument {signature : ServiceSignature} (hvalid : signature.isValid = true)
    {status : Text} {arg : ServiceArgument} {j : StorageJob} {r : Response}
    (hr : ((do
      let response ← (Response.new signature true status).withArgument arg
      return some response : Throwing StorageJob Exn (Option Response)).run j).1 = .ok (some r)) :
    r.Reachable ∧ r.signature.isValid = true := by
  obtain ⟨response, _, hresponse, hr⟩ := Throwing.exists_of_run_bind_ok hr
  obtain rfl := Option.some.inj (Except.ok.inj hr)
  obtain ⟨hreachable, hsignature⟩ := Response.withArgument_made
    (congrArg Prod.fst hresponse) (Response.made_new hvalid true status).1
  exact ⟨hreachable, by rw [hsignature]; exact hvalid⟩

section Made

variable {j : StorageJob} {r : Response}

theorem made_storeImage (hr : ((StoreImageServiceImpl.invoke sys).run j).1 = .ok (some r)) :
    r.Reachable ∧ r.signature.isValid = true := by
  rw [StoreImageServiceImpl.invoke] at hr
  obtain ⟨name, _, -, hr⟩ := Throwing.exists_of_run_bind_ok hr
  obtain ⟨buffer, _, -, hr⟩ := Throwing.exists_of_run_bind_ok hr
  obtain ⟨_, _, -, hr⟩ := Throwing.exists_of_run_bind_ok hr
  obtain rfl := Option.some.inj (Except.ok.inj hr)
  exact Response.made_new (by decide +kernel) _ _

theorem made_getImage (hr : ((GetImageServiceImpl.invoke sys).run j).1 = .ok (some r)) :
    r.Reachable ∧ r.signature.isValid = true := by
  rw [GetImageServiceImpl.invoke] at hr
  obtain ⟨name, _, -, hr⟩ := Throwing.exists_of_run_bind_ok hr
  obtain ⟨buffer, _, -, hr⟩ := Throwing.exists_of_run_bind_ok hr
  exact made_withArgument (by decide +kernel) hr

theorem made_getList (hr : ((GetListServiceImpl.invoke sys).run j).1 = .ok (some r)) :
    r.Reachable ∧ r.signature.isValid = true := by
  rw [GetListServiceImpl.invoke, GetListServiceImpl.invokeOn] at hr
  obtain ⟨list, _, -, hr⟩ := Throwing.exists_of_run_bind_ok hr
  exact made_withArgument (by decide +kernel) hr

end Made

def storeImageClass (sys : System) : ServiceClass FileSystem where
  text := txt "StoreImage(in string, in buffer)"
  invoke := onFiles (StoreImageServiceImpl.invoke sys)
  valid := by decide +kernel
  canonical := by decide +kernel
  made _ _ _ hr := made_storeImage hr

def getImageClass (sys : System) : ServiceClass FileSystem where
  text := txt "GetImage(in string, out buffer)"
  invoke := onFiles (GetImageServiceImpl.invoke sys)
  valid := by decide +kernel
  canonical := by decide +kernel
  made _ _ _ hr := made_getImage hr

def getListClass (sys : System) : ServiceClass FileSystem where
  text := txt "GetList(out buffer)"
  invoke := onFiles (GetListServiceImpl.invoke sys)
  valid := by decide +kernel
  canonical := by decide +kernel
  made _ _ _ hr := made_getList hr

/-- The three services installed. -/
def installation (sys : System) : Installation FileSystem where
  classes := [storeImageClass sys, getImageClass sys, getListClass sys]
  nodup := by
    show [txt "StoreImage(in string, in buffer)", txt "GetImage(in string, out buffer)",
      txt "GetList(out buffer)"].Nodup
    decide +kernel

end StorageProvider

/-! ### The objects of a client -/

/-- What the caller passes for the output. -/
structure StorageOutput where
  buffer : List Byte := []
  list : List Text := []

/-- What `invoke` returns or throws, with the output. -/
inductive StorageAnswer where
  | storeImage (told : Except Exn Bool)
  | getImage (told : Except Exn (Bool × List Byte))
  | getList (told : Except Exn (Bool × List Text))

namespace StorageRequest

variable {W : Type}

/-- Make an object for the request, and call its `invoke`. -/
def call (y : YamlLibrary) (net : Network W) (host port : Text) (request : StorageRequest)
    (output : StorageOutput) (w : W) : StorageAnswer × W :=
  match request with
  | storeImage name content =>
    let (told, t) := (StoreImageService.invoke y net name.text content).run
      (StoreImageService.new host port, w)
    (.storeImage told, t.2)
  | getImage name =>
    let (told, t) := (GetImageService.invoke y net name.text output.buffer).run
      (GetImageService.new host port, w)
    (.getImage told, t.2)
  | getList =>
    let (told, t) := (GetListService.invoke y net output.list).run
      (GetListService.new host port, w)
    (.getList told, t.2)

/-- What the client is told when this has been received. -/
def told (output : StorageOutput) (received : Except Exn Response) : StorageRequest → StorageAnswer
  | storeImage _ _ => .storeImage ((TypedStub.told (fun _ => .ok ()) () received).map Prod.fst)
  | getImage _ => .getImage (TypedStub.told TypedStub.popBuffer output.buffer received)
  | getList => .getList (TypedStub.told
      (fun r => do return output.list ++ GetListService.receive (← TypedStub.popBuffer r))
        output.list received)

/-- The stub that is submitted. -/
def stub (request : StorageRequest) (host port : Text) : ServiceStub :=
  { request.service with host, port }

theorem types (request : StorageRequest) :
    request.service.arguments.map (·.kind.type) = request.service.signature.inputParams := by
  cases request with
  | storeImage name content =>
    show [txt "string", txt "buffer"] = StoreImageServiceImpl.serviceSignature.inputParams
    decide +kernel
  | getImage name =>
    show [txt "string"] = GetImageServiceImpl.serviceSignature.inputParams
    decide +kernel
  | getList =>
    show [] = GetListServiceImpl.serviceSignature.inputParams
    decide +kernel

/-- **Calling `invoke` submits the request.** -/
theorem call_eq {y : YamlLibrary} {net : Network W} {host port : Text} (request : StorageRequest)
    (output : StorageOutput) {w w' : W} {received : Except Exn Response}
    (hsubmit : ((request.stub host port).submit y net).run w = (received, w')) :
    request.call y net host port output w = (request.told output received, w') := by
  cases request with
  | storeImage name content =>
    obtain ⟨s, -, hrun⟩ := TypedStub.run_invoke_new (storeImage name content).types
      (fun _ => .ok ()) () hsubmit
    have hinvoke : (StoreImageService.invoke y net name.text content).run
        (StoreImageService.new host port, w) = (_, (s, w')) := Throwing.run_map_of_eq hrun
    simp only [call, hinvoke]
    rfl
  | getImage name =>
    obtain ⟨s, -, hrun⟩ := TypedStub.run_invoke_new (getImage name).types TypedStub.popBuffer
      output.buffer hsubmit
    have hinvoke : (GetImageService.invoke y net name.text output.buffer).run
        (GetImageService.new host port, w) = (_, (s, w')) := hrun
    simp only [call, hinvoke]
    rfl
  | getList =>
    obtain ⟨s, -, hrun⟩ := TypedStub.run_invoke_new getList.types
      (fun r => do return output.list ++ GetListService.receive (← TypedStub.popBuffer r))
        output.list hsubmit
    have hinvoke : (GetListService.invoke y net output.list).run
        (GetListService.new host port, w) = (_, (s, w')) := hrun
    simp only [call, hinvoke]
    rfl

/-- The name and the content are smaller than 2 GiB. -/
def IsSmall : StorageRequest → Prop
  | storeImage name content => name.text.length < 2 ^ 31 ∧ content.length < 2 ^ 31
  | getImage name => name.text.length < 2 ^ 31
  | getList => True

instance : DecidablePred IsSmall
  | storeImage name content =>
    inferInstanceAs (Decidable (name.text.length < 2 ^ 31 ∧ content.length < 2 ^ 31))
  | getImage name => inferInstanceAs (Decidable (name.text.length < 2 ^ 31))
  | getList => inferInstanceAs (Decidable True)

theorem IsSmall.arguments {request : StorageRequest} (h : request.IsSmall) :
    ∀ a ∈ request.service.arguments, a.data.length < 2 ^ 31 := by
  cases request with
  | storeImage name content =>
    exact List.forall_mem_cons.mpr ⟨h.1, List.forall_mem_singleton.mpr h.2⟩
  | getImage name => exact List.forall_mem_singleton.mpr h
  | getList => exact fun _ ha => absurd ha List.not_mem_nil

theorem valid (request : StorageRequest) : request.service.signature.isValid = true := by
  cases request with
  | storeImage name content =>
    show StoreImageServiceImpl.serviceSignature.isValid = true
    decide +kernel
  | getImage name =>
    show GetImageServiceImpl.serviceSignature.isValid = true
    decide +kernel
  | getList =>
    show GetListServiceImpl.serviceSignature.isValid = true
    decide +kernel

/-- The submission of a request. -/
def submission (request : StorageRequest) (h : request.IsSmall) (host port : Text) :
    Submission where
  stub := request.stub host port
  reachable := ServiceStub.reachable_iff.mpr ⟨by cases request <;> rfl,
    by rw [show (request.stub host port).arguments = request.service.arguments from rfl,
      request.types]; exact List.prefix_rfl⟩
  valid := request.valid
  small := h.arguments

/-- The class installed for the request. -/
def serviceClass (sys : System) : StorageRequest → ServiceClass FileSystem
  | storeImage _ _ => StorageProvider.storeImageClass sys
  | getImage _ => StorageProvider.getImageClass sys
  | getList => StorageProvider.getListClass sys

theorem classOf_installation (sys : System) (request : StorageRequest) :
    (StorageProvider.installation sys).classOf request.service.signature.signature =
      some (request.serviceClass sys) := by
  refine (Installation.classOf_eq_some_iff _).mpr ?_
  cases request with
  | storeImage name content =>
    refine ⟨List.mem_cons_self, ?_⟩
    show txt "StoreImage(in string, in buffer)" = StoreImageServiceImpl.serviceSignature.signature
    decide +kernel
  | getImage name =>
    refine ⟨List.mem_cons_of_mem _ List.mem_cons_self, ?_⟩
    show txt "GetImage(in string, out buffer)" = GetImageServiceImpl.serviceSignature.signature
    decide +kernel
  | getList =>
    refine ⟨List.mem_cons_of_mem _ (List.mem_cons_of_mem _ List.mem_cons_self), ?_⟩
    show txt "GetList(out buffer)" = GetListServiceImpl.serviceSignature.signature
    decide +kernel

/-- Invoking the class is what the answer is made from. -/
theorem invoke_serviceClass (sys : System) (request : StorageRequest) (host port : Text)
    (t : FileSystem) : (request.serviceClass sys).invoke
      ((request.stub host port).skeleton (request.serviceClass sys)) t =
        StorageProvider.onFiles (request.invoke sys) request.service t := by
  have hskeleton : (request.stub host port).skeleton (request.serviceClass sys) =
      request.service := by cases request <;> rfl
  have hinvoke : (request.serviceClass sys).invoke =
      StorageProvider.onFiles (request.invoke sys) := by cases request <;> rfl
  rw [hskeleton, hinvoke]

theorem answer_snd (sys : System) (request : StorageRequest) (t : FileSystem) :
    (request.answer sys t).2 =
      (StorageProvider.onFiles (request.invoke sys) request.service t).2 := by
  rw [answer, StorageProvider.onFiles]
  rcases (request.invoke sys).run ⟨request.service, t⟩ with ⟨e | r, j⟩ <;> rfl

theorem answer_of_returned {sys : System} {request : StorageRequest} {t : FileSystem} {r : Response}
    (h : (StorageProvider.onFiles (request.invoke sys) request.service t).1 = .ok (some r)) :
    (request.answer sys t).1 = r := by
  rw [StorageProvider.answer_fst, show ((request.invoke sys).run ⟨request.service, t⟩).1 = _ from h]
  rfl

end StorageRequest

end Ssoa
