import Ssoa.Image.ImageHelper
import Ssoa.Service.Steps
import Ssoa.Storage.Calls

/-!
# The image manipulation provider

The skeletons of the provider pop the arguments of a request, have `ImageHelper` turn or mirror the
image, and respond with the result. Any number of requests are served at the same time, and each of
them has its temporary file.

Nothing but the names that `unique_path()` makes up keeps two requests apart. So it is taken for
granted that a name is not made up while a request with the same name is being served; later it may
come again. A request for which libjpeg ends the process gets no response, and nor does any other
that is being served then.

## Main results

* `ImageRequest.run_routine` — one request
* `ImageProvider.concurrent_manipulation` — any number of them, and the files they leave
-/

namespace Ssoa

open Routine ImageHelper

variable {T : Type} [Inhabited T]

/-- What a program returns or throws, unless it returns `none` since the process ends. -/
def unlessEnded {α : Type} : Except Exn (Option α) → Option (Except Exn α)
  | .ok none => none
  | .ok (some a) => some (.ok a)
  | .error e => some (.error e)

theorem eq_of_unlessEnded {α : Type} {x : Except Exn (Option (Option α))} {a : α}
    (h : (unlessEnded x).getD (.ok none) = .ok (some a)) : x = .ok (some (some a)) := by
  rcases x with e | _ | b
  · cases h
  · cases h
  · rw [Except.ok.inj h]

/-! ### The services -/

namespace RotateImageServiceImpl

def serviceSignature : ServiceSignature :=
  .ofText (txt "RotateImage(in int, in buffer, out buffer)")

/-- `invoke()` step by step. -/
def steps (sys : ImageSystem T) (a : Attempt) :
    SkeletonSteps (Option (List Byte)) (Option (Option Response)) := do
  let degrees ← SkeletonSteps.own (Service.popArgument .int)
  let inputBuffer ← SkeletonSteps.own (Service.popArgument .buffer)
  let some buffer ← SkeletonSteps.shared
    (ImageHelper.rotate sys a inputBuffer.data (floatOfInt (ntohl degrees.data))) | return none
  let response ← SkeletonSteps.own (liftM
    ((Response.new serviceSignature true (txt "OK")).withArgument (.ofBuffer buffer)))
  return some (some response)

end RotateImageServiceImpl

namespace HorizontalFlipImageServiceImpl

def serviceSignature : ServiceSignature :=
  .ofText (txt "HorizontalFlipImage(in buffer, out buffer)")

/-- `invoke()` step by step. -/
def steps (sys : ImageSystem T) (a : Attempt) :
    SkeletonSteps (Option (List Byte)) (Option (Option Response)) := do
  let inputBuffer ← SkeletonSteps.own (Service.popArgument .buffer)
  let some buffer ← SkeletonSteps.shared
    (ImageHelper.flipHorizontally sys a inputBuffer.data) | return none
  let response ← SkeletonSteps.own (liftM
    ((Response.new serviceSignature true (txt "OK")).withArgument (.ofBuffer buffer)))
  return some (some response)

end HorizontalFlipImageServiceImpl

/-- A request for one of the services. -/
inductive ImageRequest where
  | rotateImage (degrees : BitVec 32) (input : List Byte)
  | horizontalFlipImage (input : List Byte)

namespace ImageRequest

/-- The service and the arguments. -/
def service : ImageRequest → Service
  | rotateImage degrees input => .ofArguments RotateImageServiceImpl.serviceSignature
      [.ofInt degrees, .ofBuffer input]
  | horizontalFlipImage input => .ofArguments HorizontalFlipImageServiceImpl.serviceSignature
      [.ofBuffer input]

/-- `invoke()` of the class that is installed for the service, step by step. -/
def steps (sys : ImageSystem T) (a : Attempt) :
    ImageRequest → SkeletonSteps (Option (List Byte)) (Option (Option Response))
  | rotateImage _ _ => RotateImageServiceImpl.steps sys a
  | horizontalFlipImage _ => HorizontalFlipImageServiceImpl.steps sys a

def input : ImageRequest → List Byte
  | rotateImage _ input => input
  | horizontalFlipImage input => input

/-- What is done to the image. -/
def manipulation (sys : ImageSystem T) : ImageRequest → CImg T → CImg T
  | rotateImage degrees _ => CImg.rotate sys.generic (floatOfInt degrees)
  | horizontalFlipImage _ => CImg.mirror

/-- The response to a request, step by step, unless the process ends. -/
def routine (sys : ImageSystem T) (a : Attempt) (request : ImageRequest) :
    Routine (Option (List Byte)) (Option Response) := do
  let result ← ((request.steps sys a).run request.service).run
  return (unlessEnded (result.map Prod.fst)).map
    (SerializationHelper.reply request.service.signature)

/-! ### One request -/

/-- What the service returns or throws. -/
def result (sys : ImageSystem T) (a : Attempt) (request : ImageRequest) :
    Except Exn (Option (Option Response)) :=
  (outcome sys a (request.manipulation sys) request.input).1.map fun buffer =>
    buffer.map fun buffer => some (.single request.service.signature (txt "OK") (.ofBuffer buffer))

/-- The response, unless the process ends. -/
def response (sys : ImageSystem T) (a : Attempt) (request : ImageRequest) : Option Response :=
  (unlessEnded (request.result sys a)).map
    (SerializationHelper.reply request.service.signature)

section Steps

variable {sys : ImageSystem T} {a : Attempt} {request : ImageRequest}

/-- Popping the next argument, for a service all of whose arguments were pushed. -/
theorem run_popArgument {s : Service} {b : ServiceArgument} {rest : List ServiceArgument}
    {c : ArgumentClass} (hall : s.pushed = s.signature.inputParams.length)
    (h : s.arguments = b :: rest) (hc : b.kind = c) :
    (Service.popArgument c).run s = (.ok b, s.left rest) := by
  subst hc
  exact Throwing.run_within_of_eq Service.queue (x := fun params =>
    ArgumentQueue.popArgument params b.kind) (ArgumentQueue.popArgument_of_cons hall h)

omit [Inhabited T] in
/-- The end of both skeletons. -/
theorem run_respond {signature : ServiceSignature}
    (houtput : signature.outputParams = [txt "buffer"]) (manipulation : CImg T → CImg T)
    (input : List Byte) (s : Service) (content : Option (List Byte)) :
    (toThrowing ((do
        let some buffer ← SkeletonSteps.shared (manipulate sys a manipulation input) | return none
        let response ← SkeletonSteps.own (liftM
          ((Response.new signature true (txt "OK")).withArgument (.ofBuffer buffer)))
        return some (some response) :
          SkeletonSteps (Option (List Byte)) (Option (Option Response))).run s)).run content =
      ((outcome sys a manipulation input).1.map fun buffer =>
          (buffer.map fun buffer => some (.single signature (txt "OK") (.ofBuffer buffer)), s),
        left sys a manipulation input content) := by
  have hshared := SkeletonSteps.run_shared (run_manipulate sys a manipulation input content) s
  rw [StateT.run_bind, toThrowing_bind]
  cases houtcome : (outcome sys a manipulation input).1 with
  | error e =>
    rw [houtcome] at hshared
    exact Throwing.run_bind_of_error hshared
  | ok buffer =>
    rw [houtcome] at hshared
    rw [Throwing.run_bind_of_ok hshared]
    cases buffer with
    | none => rfl
    | some buffer =>
      have hwith : (liftM ((Response.new signature true (txt "OK")).withArgument
          (.ofBuffer buffer)) : Throwing Service Exn Response).run s =
            (.ok (.single signature (txt "OK") (.ofBuffer buffer)), s) := by
        rw [Throwing.run_lift, Response.withArgument_new houtput]
      exact SkeletonSteps.run_own_bind hwith (fun response => pure (some (some response))) _

/-- **What the skeleton does** for a request. -/
theorem run_steps (sys : ImageSystem T) (a : Attempt) (request : ImageRequest)
    (content : Option (List Byte)) :
    ∃ s, (toThrowing ((request.steps sys a).run request.service)).run content =
      ((outcome sys a (request.manipulation sys) request.input).1.map fun buffer =>
          (buffer.map fun buffer =>
            some (.single request.service.signature (txt "OK") (.ofBuffer buffer)), s),
        left sys a (request.manipulation sys) request.input content) := by
  cases request with
  | rotateImage degrees input =>
    have hlen : 2 = RotateImageServiceImpl.serviceSignature.inputParams.length := by
      decide +kernel
    have houtput : RotateImageServiceImpl.serviceSignature.outputParams = [txt "buffer"] := by
      decide +kernel
    have hdegrees := run_popArgument (s := (rotateImage degrees input).service) (c := .int) hlen rfl
      rfl
    have hinput := run_popArgument
      (s := (rotateImage degrees input).service.left [.ofBuffer input]) (c := .buffer) hlen rfl rfl
    have hvalue : ntohl (ServiceArgument.ofInt degrees).data = degrees := ntohl_htonl degrees
    refine ⟨((rotateImage degrees input).service.left [.ofBuffer input]).left [], ?_⟩
    rw [steps, RotateImageServiceImpl.steps, SkeletonSteps.run_own_bind hdegrees,
      SkeletonSteps.run_own_bind hinput, hvalue]
    exact run_respond houtput _ input _ content
  | horizontalFlipImage input =>
    have hlen : 1 = HorizontalFlipImageServiceImpl.serviceSignature.inputParams.length := by
      decide +kernel
    have houtput : HorizontalFlipImageServiceImpl.serviceSignature.outputParams =
        [txt "buffer"] := by
      decide +kernel
    have hinput := run_popArgument (s := (horizontalFlipImage input).service) (c := .buffer) hlen
      rfl rfl
    refine ⟨(horizontalFlipImage input).service.left [], ?_⟩
    rw [steps, HorizontalFlipImageServiceImpl.steps, SkeletonSteps.run_own_bind hinput]
    exact run_respond houtput _ input _ content

/-- **Without interruption, the steps lead to the response**, and leave the file as the call of
`ImageHelper` does. -/
theorem run_routine (sys : ImageSystem T) (a : Attempt) (request : ImageRequest)
    (content : Option (List Byte)) :
    (request.routine sys a).run content =
      (request.response sys a, left sys a (request.manipulation sys) request.input content) := by
  obtain ⟨s, hsteps⟩ := request.run_steps sys a content
  rw [run_toThrowing] at hsteps
  rw [routine, run_bind, hsteps, response, result]
  rcases (outcome sys a (request.manipulation sys) request.input).1 with e | buffer <;> rfl

/-- There is a successful response if and only if the call returns. -/
theorem successful_response_iff :
    (∃ r, response sys a request = some r ∧ r.successful = true) ↔
      ∃ output, (outcome sys a (request.manipulation sys) request.input).1 =
        .ok (some output) := by
  rw [response, result]
  rcases (outcome sys a (request.manipulation sys) request.input).1 with e | _ | buffer
  · refine ⟨?_, fun ⟨_, h⟩ => nomatch h⟩
    rintro ⟨r, ⟨⟩, ⟨⟩⟩
  · exact ⟨fun ⟨_, h, _⟩ => (nomatch h), fun ⟨_, h⟩ => nomatch h⟩
  · exact ⟨fun _ => ⟨buffer, rfl⟩, fun _ => ⟨_, rfl, rfl⟩⟩

end Steps

end ImageRequest

/-! ### Any number of requests -/

namespace ImageProvider

/-- The path of the temporary file. Without a folder for it there is none. -/
def path (sys : ImageSystem T) (a : Attempt) : Text :=
  match sys.temporaryFolder with
  | .ok folder => tempfilename folder a
  | .error _ => a.unique

/-- The requests that the threads serve, each with what the system decides for it. -/
def cells (sys : ImageSystem T) :
    Cells Text (Option (List Byte)) (Attempt × ImageRequest) (Option Response) where
  cell call := path sys call.1
  body call := call.2.routine sys call.1

/-- The process, which may end. -/
def process (sys : ImageSystem T) :=
  (cells sys).pool.mortal (· = none)

/-- The last request to have opened this file, and its response. -/
def lastOn (sys : ImageSystem T) (p : Text)
    (returned : List ((Attempt × ImageRequest) × Option Response)) :
    Option ((Attempt × ImageRequest) × Option Response) :=
  returned.reverse.find? fun x => path sys x.1.1 = p ∧ OpensFile sys x.1.1

/-- What becomes of a file is decided by the last request to have opened it. -/
theorem foldl_left (sys : ImageSystem T) (p : Text) (content : Option (List Byte))
    {returned : List ((Attempt × ImageRequest) × Option Response)}
    (hresponses : ∀ x ∈ returned, x.2 = x.1.2.response sys x.1.1) :
    let final := ((returned.map Prod.fst).filter fun c => path sys c.1 = p).foldl
      (fun content c => left sys c.1 (c.2.manipulation sys) c.2.input content) content
    match lastOn sys p returned with
    | none => final = content
    | some x => final = none ↔ ∃ r, x.2 = some r ∧ r.successful = true := by
  induction returned using List.reverseRecOn with
  | nil => rfl
  | append_singleton returned x ih =>
    have ih := ih fun y hy => hresponses y (List.mem_append_left _ hy)
    have hx := hresponses x (List.mem_append_right _ (List.mem_singleton_self x))
    rw [lastOn] at ih ⊢
    rw [List.reverse_append, List.reverse_singleton, List.singleton_append, List.find?_cons,
      List.map_append, List.map_singleton, List.filter_append, List.foldl_append]
    by_cases hp : path sys x.1.1 = p
    · by_cases hopens : OpensFile sys x.1.1
      · simp only [hp, hopens, List.filter_cons, List.filter_nil, List.foldl_cons, List.foldl_nil,
          and_self, decide_true, if_true]
        rw [left_eq_none_iff hopens, hx, ImageRequest.successful_response_iff]
      · simp only [hp, hopens, List.filter_cons, List.filter_nil, List.foldl_cons, List.foldl_nil,
          and_false, decide_false, decide_true, if_true, left, if_false]
        exact ih
    · simp only [hp, List.filter_cons, List.filter_nil, List.foldl_nil, false_and, decide_false,
        Bool.false_eq_true, if_false]
      exact ih

/-- **Any number of requests are served as if each were alone**, until one of them ends the process.
However their steps alternate, the response to each request is the one to the request alone. A file
that no request is at work on is as it was if no request has opened it, and otherwise it is there if
and only if the last request to have opened it has failed or ended the process. All requests can be
brought to their end, or that of the process. -/
theorem concurrent_manipulation (sys : ImageSystem T) {start : Text → Option (List Byte)}
    {actions : List (Pool.Action (Attempt × ImageRequest))}
    {s : Pool.State (Text → Option (List Byte)) (Attempt × ImageRequest) (Option Response)}
    (hrun : (process sys).run { object := start } actions = some s) :
    (∀ x ∈ s.returned, x.2 = x.1.2.response sys x.1.1) ∧
      (∀ p, (∀ r ∈ s.running, path sys r.call.1 ≠ p) →
        match lastOn sys p s.returned with
        | none => s.object p = start p
        | some x => s.object p = none ↔ ∃ r, x.2 = some r ∧ r.successful = true) ∧
      ∃ actions' s', (process sys).run s actions' = some s' ∧
        (s'.running = [] ∨ s'.Over (· = none)) := by
  obtain ⟨horder, hfree⟩ := (cells sys).inOrder (System.run_of_restrict hrun)
  have hresponses : ∀ x ∈ s.returned, x.2 = x.1.2.response sys x.1.1 := by
    rintro ⟨call, response⟩ hx
    obtain ⟨before, -, hanswer⟩ := horder.answer hx
    rw [hanswer]
    show (((call.2.routine sys call.1).onCell (path sys call.1)).run
      (((cells sys).pool.machine start).runFrom start before).2).1 = _
    rw [Routine.run_onCell, ImageRequest.run_routine]
  refine ⟨hresponses, fun p hp => ?_, Pool.exists_run_over _ _ s⟩
  have hfinal : s.object p = _ := (hfree p hp).symm.trans ((cells sys).apply_of_inOrder horder p)
  have hbody : (fun content (c : Attempt × ImageRequest) =>
      (((cells sys).body c).run content).2) =
        fun content c => left sys c.1 (c.2.manipulation sys) c.2.input content :=
    funext fun content => funext fun c => by
      rw [show (cells sys).body c = c.2.routine sys c.1 from rfl, ImageRequest.run_routine]
  rw [hbody] at hfinal
  rw [hfinal]
  exact foldl_left sys p (start p) hresponses

/-- A format of images: one row of pixels. -/
def sampleSystem : ImageSystem Byte where
  loadJpeg _ content :=
    if h : 0 < content.length ∧ content.length < 2 ^ 31 then
      .ok ⟨content.length, 1, 1, 1, content, by omega, ⟨h.2, by decide, by decide, by decide,
        by decide, by omega⟩⟩
    else .error (.runtime (txt "Empty input file"))
  jpeg image := if image.width ≤ 65500 then some image.data else none
  generic _ image := image
  temporaryFolder := .ok (txt "/tmp")
  strerror := txt "Bad file descriptor"
  resize := .logic (txt "vector::_M_default_append")

/-- Two requests, one of which fails, are served by turns, and then one that ends the process, since
its image cannot be saved as a whole. -/
def sampleActions : List (Pool.Action (Attempt × ImageRequest)) :=
  [.start ({ unique := txt "a" }, .horizontalFlipImage (txt "xyz")),
    .start ({ unique := txt "b" }, .rotateImage 180 [])] ++
    (List.replicate 4 [.resume 1, .resume 0]).flatten ++ List.replicate 5 (.resume 0) ++
    .start ({ unique := txt "b", saving := .stopped 1 }, .horizontalFlipImage (txt "xyz")) ::
    List.replicate 6 (.resume 0)

theorem concurrent_manipulation_sample :
    ∃ s, (process sampleSystem).run { object := fun _ => none } sampleActions = some s ∧
      s.returned.map (fun x => x.2.map (·.successful)) = [some false, some true, none] ∧
      (∀ x ∈ s.returned, x.2 = x.1.2.response sampleSystem x.1.1) ∧
      (∀ p, (∀ r ∈ s.running, path sampleSystem r.call.1 ≠ p) →
        match lastOn sampleSystem p s.returned with
        | none => s.object p = none
        | some x => s.object p = none ↔ ∃ r, x.2 = some r ∧ r.successful = true) ∧
      ∃ actions' s', (process sampleSystem).run s actions' = some s' ∧
        (s'.running = [] ∨ s'.Over (· = none)) := by
  have hsome : ∃ s ∈ (process sampleSystem).run { object := fun _ => none } sampleActions,
      s.returned.map (fun x => x.2.map (·.successful)) = [some false, some true, none] := by
    decide +kernel
  obtain ⟨s, hs, hreturned⟩ := hsome
  exact ⟨s, hs, hreturned, concurrent_manipulation sampleSystem hs⟩

end ImageProvider

end Ssoa
