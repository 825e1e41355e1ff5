import Ssoa.Service.RemoteCall
import Ssoa.Storage.StorageProvider

/-!
# The services a client calls

Every provider comes with a class derived from `ServiceStub` for each of its services. Their
`invoke` pushes the arguments, submits the request, takes the output from a successful response and
keeps the status. They are written once here (`TypedStub.invoke`), with the arguments and what is
done with the response as parameters.

The arguments of an object are never taken back. So an object whose class has input parameters can
be used for one request; after it, even if it failed, `invoke` throws.

## Main results

* `TypedStub.run_invoke_new` — what `invoke` of a new object does
* `TypedStub.runFrom_calls` — an object sends one request in its life
-/

namespace Ssoa

/-- An object of a class derived from `ServiceStub`. -/
structure TypedStub extends ServiceStub where
  status : Text := []

namespace TypedStub

variable {W α : Type}

def new (signature : ServiceSignature) (host port : Text) : TypedStub :=
  { ServiceStub.new signature host port with }

/-- The stub it derives from. -/
def stub : Throwing.Part (TypedStub × W) ServiceStub Unit where
  part t := t.1.toServiceStub
  put t toServiceStub := ({ t.1 with toServiceStub }, t.2)
  rest _ := ()
  put_part _ := rfl
  part_put _ _ := rfl
  put_put _ _ _ := rfl
  rest_put _ _ := rfl

/-- The network. -/
def network : Throwing.Part (TypedStub × W) W ServiceStub where
  part t := t.2
  put t w := (t.1, w)
  rest t := t.1.toServiceStub
  put_part _ := rfl
  part_put _ _ := rfl
  put_put _ _ _ := rfl
  rest_put _ _ := rfl

/-- The output: what is taken from a successful response, or else what the caller has passed. -/
def taken (receive : Response → Except Exn α) (output : α) (r : Response) : Except Exn α :=
  if r.successful then receive r else .ok output

/-- `invoke`, for the arguments `args`. -/
def invoke (y : YamlLibrary) (net : Network W) (args : List ServiceArgument)
    (receive : Response → Except Exn α) (output : α) :
    Throwing (TypedStub × W) Exn (Bool × α) := do
  forM args fun arg => Throwing.within stub fun _ => ServiceStub.pushArgument arg
  let response ← Throwing.within network fun s => s.submit y net
  let output ← taken receive output response
  modify fun t => ({ t.1 with status := response.status }, t.2)
  return (response.successful, output)

/-- An object that is made for one call. -/
def once (s : TypedStub) (x : Throwing (TypedStub × W) Exn α) : Throwing W Exn α := fun w =>
  ((x.run (s, w)).1, (x.run (s, w)).2.2)

/-- `popArgument<ServiceBufferArgument>()` on a response. -/
def popBuffer (r : Response) : Except Exn (List Byte) :=
  ((Response.popArgument .buffer).run r).1.map fun arg => arg.data

end TypedStub

/-! ### The classes -/

section Classes

variable {W : Type} (y : YamlLibrary) (net : Network W)

namespace StoreImageService

def serviceSignature : ServiceSignature := .ofText (txt "StoreImage(in string, in buffer)")

def new (host port : Text) : TypedStub := .new serviceSignature host port

def invoke (name : Text) (buffer : List Byte) : Throwing (TypedStub × W) Exn Bool :=
  Prod.fst <$> TypedStub.invoke y net [.ofString name, .ofBuffer buffer] (fun _ => pure ()) ()

end StoreImageService

namespace GetImageService

def serviceSignature : ServiceSignature := .ofText (txt "GetImage(in string, out buffer)")

def new (host port : Text) : TypedStub := .new serviceSignature host port

def invoke (name : Text) (buffer : List Byte) : Throwing (TypedStub × W) Exn (Bool × List Byte) :=
  TypedStub.invoke y net [.ofString name] TypedStub.popBuffer buffer

end GetImageService

namespace GetListService

def serviceSignature : ServiceSignature := .ofText (txt "GetList(out buffer)")

def new (host port : Text) : TypedStub := .new serviceSignature host port

/-- The items are added at the end of the list. -/
def invoke (list : List Text) : Throwing (TypedStub × W) Exn (Bool × List Text) :=
  TypedStub.invoke y net [] (fun r => do return list ++ receive (← TypedStub.popBuffer r)) list

end GetListService

namespace RotateImageService

def serviceSignature : ServiceSignature :=
  .ofText (txt "RotateImage(in int, in buffer, out buffer)")

def new (host port : Text) : TypedStub := .new serviceSignature host port

def invoke (degrees : BitVec 32) (input output : List Byte) :
    Throwing (TypedStub × W) Exn (Bool × List Byte) :=
  TypedStub.invoke y net [.ofInt degrees, .ofBuffer input] TypedStub.popBuffer output

end RotateImageService

namespace HorizontalFlipImageService

def serviceSignature : ServiceSignature :=
  .ofText (txt "HorizontalFlipImage(in buffer, out buffer)")

def new (host port : Text) : TypedStub := .new serviceSignature host port

def invoke (input output : List Byte) : Throwing (TypedStub × W) Exn (Bool × List Byte) :=
  TypedStub.invoke y net [.ofBuffer input] TypedStub.popBuffer output

end HorizontalFlipImageService

end Classes

/-! ### New objects -/

namespace TypedStub

variable {W α : Type} {y : YamlLibrary} {net : Network W} {receive : Response → Except Exn α}

/-- The object when these arguments have been pushed. -/
def withArguments (signature : ServiceSignature) (host port : Text) (args : List ServiceArgument) :
    TypedStub :=
  { Service.ofArguments signature args with host, port }

theorem run_push_new {signature : ServiceSignature} {args : List ServiceArgument}
    (h : args.map (·.kind.type) = signature.inputParams) (host port : Text) (w : W) :
    (forM args fun arg => Throwing.within stub fun _ => ServiceStub.pushArgument arg :
        Throwing (TypedStub × W) Exn PUnit).run (new signature host port, w) =
      (.ok (), (withArguments signature host port args, w)) := by
  have hservice := Service.run_forM_pushArgument h
  have hstub : (forM args ServiceStub.pushArgument).run (ServiceStub.new signature host port) =
      (.ok (), { Service.ofArguments signature args with host, port }) := by
    have hforM : forM args ServiceStub.pushArgument =
        Throwing.within ServiceStub.service fun _ => forM args Service.pushArgument :=
      Throwing.forM_within ServiceStub.service (fun arg _ => Service.pushArgument arg) args
    rw [hforM]
    exact Throwing.run_within_of_eq ServiceStub.service
      (x := fun _ => forM args Service.pushArgument)
      (s := ServiceStub.new signature host port) hservice
  rw [Throwing.forM_within stub (fun arg _ => ServiceStub.pushArgument arg) args]
  exact Throwing.run_within_of_eq stub (x := fun _ => forM args ServiceStub.pushArgument)
    (s := (new signature host port, w)) hstub

/-- The object has all arguments pushed. -/
def Used (s : TypedStub) : Prop := s.pushed = s.signature.inputParams.length

/-- What the caller is told, when this has been received. -/
def told (receive : Response → Except Exn α) (output : α) (received : Except Exn Response) :
    Except Exn (Bool × α) :=
  received.bind fun r => (taken receive output r).map fun output => (r.successful, output)

/-- The caller is told of success only if a successful response has been received. -/
theorem told_eq_ok_true_iff {output a : α} {received : Except Exn Response} :
    told receive output received = .ok (true, a) ↔
      ∃ r, received = .ok r ∧ r.successful = true ∧ receive r = .ok a := by
  obtain e | r := received
  · simp [told, Except.bind]
  · cases hr : r.successful <;> cases hreceive : receive r <;>
      simp [told, taken, Except.bind, Except.map, hr, hreceive]

/-- The output of a response with one buffer. -/
theorem popBuffer_single {signature : ServiceSignature} (h : signature.outputParams.length = 1)
    (status : Text) (content : List Byte) :
    popBuffer (.single signature status (.ofBuffer content)) = .ok content := by
  have hpop : (ArgumentQueue.popArgument signature.outputParams .buffer).run
      (Response.single signature status (.ofBuffer content)).toArgumentQueue =
        (.ok (.ofBuffer content), { arguments := [], pushed := 1 }) :=
    ArgumentQueue.popArgument_of_cons (a := .ofBuffer content) h.symm rfl
  have hrun := Throwing.run_within_of_eq Response.queue
    (x := fun params => ArgumentQueue.popArgument params .buffer)
    (s := Response.single signature status (.ofBuffer content)) hpop
  rw [popBuffer, Response.popArgument, hrun]
  rfl

theorem status_ok_ne_nil : txt "OK" ≠ [] := by decide

/-- **What `invoke` of a new object does**: it submits a stub with these arguments. -/
theorem run_invoke_new {signature : ServiceSignature} {args : List ServiceArgument}
    (h : args.map (·.kind.type) = signature.inputParams) (receive : Response → Except Exn α)
    (output : α) {host port : Text} {w w' : W} {received : Except Exn Response}
    (hsubmit : ((withArguments signature host port args).submit y net).run w = (received, w')) :
    ∃ s : TypedStub, s.Used ∧ (invoke y net args receive output).run (new signature host port, w) =
      (told receive output received, (s, w')) := by
  have hused : (withArguments signature host port args).Used := by
    show args.length = signature.inputParams.length
    rw [← h, List.length_map]
  have hnetwork := Throwing.run_within_of_eq network (x := fun s => s.submit y net)
    (s := (withArguments signature host port args, w)) hsubmit
  rw [invoke, Throwing.run_bind_of_ok (run_push_new h host port w)]
  cases received with
  | error e => exact ⟨_, hused, Throwing.run_bind_of_error hnetwork⟩
  | ok r =>
    rw [Throwing.run_bind_of_ok hnetwork, Throwing.run_lift_bind]
    cases htaken : taken receive output r with
    | error e => exact ⟨_, hused, by simp only [told, Except.bind, htaken]; rfl⟩
    | ok output =>
      exact ⟨{ withArguments signature host port args with status := r.status }, hused,
        by simp only [told, Except.bind, htaken]; rfl⟩

/-! ### Objects in use -/

/-- The next argument is not accepted. -/
theorem run_invoke_used {s : TypedStub} (hs : s.Used) {args : List ServiceArgument}
    (hargs : args ≠ []) (output : α) (w : W) :
    (invoke y net args receive output).run (s, w) =
      (.error (.logic (txt "All arguments already pushed.")), (s, w)) := by
  obtain ⟨arg, rest, rfl⟩ := List.exists_cons_of_ne_nil hargs
  have hqueue : (ArgumentQueue.pushArgument s.signature.inputParams arg).run s.toArgumentQueue =
      (.error (.logic (txt "All arguments already pushed.")), s.toArgumentQueue) := by
    rw [ArgumentQueue.pushArgument, Throwing.run_get_bind,
      if_pos (show s.pushed = s.signature.inputParams.length from hs)]
    rfl
  have hpush : (Throwing.within stub fun _ => ServiceStub.pushArgument arg :
      Throwing (TypedStub × W) Exn Unit).run (s, w) =
        (.error (.logic (txt "All arguments already pushed.")), (s, w)) :=
    Throwing.run_within_of_eq stub (x := fun _ => ServiceStub.pushArgument arg) (s := (s, w))
      (Throwing.run_within_of_eq ServiceStub.service (x := fun _ => Service.pushArgument arg)
        (Throwing.run_within_of_eq Service.queue
          (x := fun params => ArgumentQueue.pushArgument params arg) hqueue))
  rw [invoke, List.forM_cons]
  exact Throwing.run_bind_of_error (Throwing.run_bind_of_error hpush)

/-- An object whose `invoke` is called again and again, each time with some arguments and something
for the output. -/
def calls (y : YamlLibrary) (net : Network W) (receive : Response → Except Exn α)
    (start : TypedStub × W) :
    Machine (TypedStub × W) (List ServiceArgument × α) (Except Exn (Bool × α)) :=
  ⟨start, fun t call => (invoke y net call.1 receive call.2).run t⟩

/-- **An object sends one request in its life**, if its class has input parameters: whatever came of
the first call of `invoke`, every later one throws, and changes nothing. -/
theorem runFrom_calls (y : YamlLibrary) (net : Network W) (receive : Response → Except Exn α)
    {signature : ServiceSignature} (hparams : signature.inputParams ≠ []) (host port : Text) (w : W)
    (first : List ServiceArgument × α) (later : List (List ServiceArgument × α))
    (htypes : ∀ call ∈ first :: later, call.1.map (·.kind.type) = signature.inputParams) :
    let object := calls y net receive (new signature host port, w)
    object.runFrom object.init (first :: later) =
      ((object.step object.init first).1 ::
          List.replicate later.length (.error (.logic (txt "All arguments already pushed."))),
        (object.step object.init first).2) := by
  intro object
  obtain ⟨hfirst, hlater⟩ := List.forall_mem_cons.mp htypes
  -- after the first call, all arguments have been pushed
  have hused : (object.step object.init first).2.1.Used := by
    obtain ⟨s, hs, hrun⟩ := run_invoke_new hfirst receive first.2
      (show ((withArguments signature host port first.1).submit y net).run w = _ from rfl)
    show ((invoke y net first.1 receive first.2).run (new signature host port, w)).2.1.Used
    rwa [hrun]
  rw [Machine.runFrom_cons]
  suffices hgen : ∀ t : TypedStub × W, t.1.Used → object.runFrom t later =
      (List.replicate later.length (.error (.logic (txt "All arguments already pushed."))), t) by
    rw [hgen _ hused]
  intro t ht
  clear htypes hused
  induction later with
  | nil => rfl
  | cons call later ih =>
    obtain ⟨hcall, hlater⟩ := List.forall_mem_cons.mp hlater
    have hargs : call.1 ≠ [] := by
      intro hnil
      rw [hnil] at hcall
      exact hparams hcall.symm
    have hstep : object.step t call =
        (.error (.logic (txt "All arguments already pushed.")), t) :=
      run_invoke_used ht hargs call.2 t.2
    rw [Machine.runFrom_cons, hstep, ih hlater]
    rfl

/-- An image, to be stored twice with the same object. -/
def sampleCall : List ServiceArgument × Unit := ([.ofString (txt "a"), .ofBuffer (txt "x")], ())

/-- The second call throws. -/
theorem runFrom_calls_sample :
    let object := calls headerYaml.toYamlLibrary
      (Hosts.sampleHosts.network headerYaml.toYamlLibrary) (fun _ => .ok ())
      (new StoreImageService.serviceSignature (txt "10.0.0.2") (txt "5000"), (0, 0))
    object.runFrom object.init [sampleCall, sampleCall] =
      ([(object.step object.init sampleCall).1,
          .error (.logic (txt "All arguments already pushed."))],
        (object.step object.init sampleCall).2) :=
  runFrom_calls headerYaml.toYamlLibrary (Hosts.sampleHosts.network headerYaml.toYamlLibrary)
    (fun _ => .ok ()) (by decide +kernel)
    (txt "10.0.0.2") (txt "5000") (0, 0) sampleCall [sampleCall] (by decide +kernel)

end TypedStub

end Ssoa
