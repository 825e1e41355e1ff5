import Ssoa.Client.Disk
import Ssoa.Image.Calls

/-!
# The client

A client goes round and round: it takes an image from its disk or from the storage provider, has it
turned or mirrored, and stores it under the same name. Before each request it asks the registry for
a provider. If something is not successful it begins again; an exception ends it.

Other clients are at work at the same time, so what a client does is a routine, with one step for
each question to the registry and one for each request to a provider.

## Main definitions

* `Client.iteration` — the body of the loop in `main`
* `Client.main` — the loop

## Main results

* `Client.Ensures.bind` — what a client ensures, whatever others do in between
-/

namespace Ssoa

/-- What clients have in common: `Registry::getProvider`, the YAML library, and the network. -/
structure Environment (S : Type) where
  getProvider : Text → Throwing S Exn (Text × Text)
  yaml : YamlLibrary
  network : Network S

/-- A client: its disk, and the numbers that `rand()` returns. -/
structure Client where
  disk : Disk
  rand : ℕ → ℕ

namespace Client

/-- A part of the program of a client. It counts the calls of `rand()`. -/
abbrev Steps (S : Type) := StateT ℕ (ExceptT Exn (Routine S))

variable {S α β : Type}

/-- A call in one step. -/
def step (x : Throwing S Exn α) : Steps S α := StateT.lift (Routine.atomically x)

/-- The provider that the registry names for a service. -/
def provider (env : Environment S) (service : ServiceSignature) : Steps S (Text × Text) :=
  step (env.getProvider service.signature)

variable (c : Client)

def random : Steps S ℕ := fun n => return (c.rand n, n + 1)

/-- `list[rand() % list.size()]`. -/
def choose (list : List α) (h : list ≠ []) : Steps S α := do
  let i ← c.random
  return list.get ⟨i % list.length, Nat.mod_lt _ (List.length_pos_of_ne_nil h)⟩

def readRandomFileFromDisk : Steps S (Option (Text × List Byte)) := do
  let files ← liftM c.disk.files
  if h : files = [] then return none
  else
    let file ← c.choose files h
    let image ← liftM (c.disk.read file)
    return some image

variable (env : Environment S)

def readRandomFileFromStorageProvider : Steps S (Option (Text × List Byte)) := do
  let (host, port) ← provider env GetListService.serviceSignature
  let (listed, list) ← step (TypedStub.once (GetListService.new host port)
    (GetListService.invoke env.yaml env.network []))
  if listed = false then return none
  else if h : list = [] then return none
  else
    let name ← c.choose list h
    let (host, port) ← provider env GetImageService.serviceSignature
    let (found, buffer) ← step (TypedStub.once (GetImageService.new host port)
      (GetImageService.invoke env.yaml env.network name []))
    if found = false then return none else return some (name, buffer)

/-- The image that the loop begins with. -/
def retrieve : Steps S (Option (Text × List Byte)) := do
  let r ← c.random
  if r % 2 = 1 then c.readRandomFileFromDisk else c.readRandomFileFromStorageProvider env

/-- The image is turned or mirrored. The same buffer is passed for the input and the output. -/
def manipulate (buffer : List Byte) : Steps S (Bool × List Byte) := do
  let r ← c.random
  if r % 2 = 1 then
    let (host, port) ← provider env RotateImageService.serviceSignature
    let degrees ← c.random
    step (TypedStub.once (RotateImageService.new host port) (RotateImageService.invoke env.yaml
      env.network (BitVec.ofNat 32 (degrees % 360)) buffer buffer))
  else
    let (host, port) ← provider env HorizontalFlipImageService.serviceSignature
    step (TypedStub.once (HorizontalFlipImageService.new host port)
      (HorizontalFlipImageService.invoke env.yaml env.network buffer buffer))

/-- The image is stored. Either way the loop goes on. -/
def store (name : Text) (buffer : List Byte) : Steps S Unit := do
  let (host, port) ← provider env StoreImageService.serviceSignature
  let _ ← step (TypedStub.once (StoreImageService.new host port)
    (StoreImageService.invoke env.yaml env.network name buffer))

/-- The body of the loop. -/
def iteration : Steps S Unit := do
  let image ← c.retrieve env
  match image with
  | none => return ()
  | some (name, buffer) =>
    let (changed, buffer) ← c.manipulate env buffer
    if changed = false then return () else store env name buffer

/-- The loop, for a number of times. -/
def main : ℕ → Steps S Unit
  | 0 => return ()
  | times + 1 => do
    c.iteration env
    main times

/-! ### What a client ensures -/

/-- Whatever others do that keeps `I`, the client keeps it, and what it returns is as promised. -/
def Ensures (I : S → Prop) (Q : α → Prop) (x : Steps S α) : Prop :=
  ∀ n, Routine.Ensures I (fun result => ∀ a n', result = .ok (a, n') → Q a) (x.run n).run

section Ensures

variable {I : S → Prop} {Q : α → Prop} {R : β → Prop}

theorem ensures_pure {a : α} (h : Q a) : Ensures I Q (pure a) := by
  rintro n b n' ⟨⟩
  exact h

theorem ensures_lift {x : Except Exn α} (h : ∀ a, x = .ok a → Q a) :
    Ensures I Q (liftM x : Steps S α) := by
  intro n
  cases x with
  | error e => exact fun a n' hresult => nomatch hresult
  | ok a =>
    rintro b n' ⟨⟩
    exact h a rfl

theorem ensures_random : Ensures I (fun _ => True) (c.random : Steps S ℕ) :=
  fun _ _ _ _ => trivial

/-- **What a call in one step ensures.** -/
theorem ensures_step {x : Throwing S Exn α}
    (h : ∀ s, I s → I (x.run s).2 ∧ ∀ a, (x.run s).1 = .ok a → Q a) : Ensures I Q (step x) := by
  intro n s hs
  obtain ⟨hkeeps, hreturns⟩ := h s hs
  refine ⟨hkeeps, ?_⟩
  show Routine.Ensures I _ ((Routine.done (x.run s).1).andThen _)
  cases hresult : (x.run s).1 with
  | error e => exact fun a n' hreturned => nomatch hreturned
  | ok a =>
    rintro b n' ⟨⟩
    exact hreturns a hresult

theorem Ensures.mono {Q' : α → Prop} {x : Steps S α} (h : Ensures I Q x) (hQ : ∀ a, Q a → Q' a) :
    Ensures I Q' x :=
  fun n => (h n).mono fun _ hresult a n' heq => hQ a (hresult a n' heq)

/-- **One part after another.** -/
theorem Ensures.bind {x : Steps S α} {f : α → Steps S β} (hx : Ensures I Q x)
    (hf : ∀ a, Q a → Ensures I R (f a)) : Ensures I R (x >>= f) := by
  intro n
  rw [StateT.run_bind, ExceptT.run_bind]
  refine (hx n).bind fun result hresult => ?_
  cases result with
  | error e => exact fun a n' hreturned => nomatch hreturned
  | ok p => exact hf p.1 (hresult p.1 p.2 rfl) p.2

theorem ensures_choose (list : List α) (h : list ≠ []) :
    Ensures I (fun a => a ∈ list) (c.choose list h : Steps S α) :=
  (c.ensures_random (I := I)).bind fun _ _ => ensures_pure (List.get_mem ..)

end Ensures

end Client

end Ssoa
