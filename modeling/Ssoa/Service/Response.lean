import Ssoa.Service.Request

/-!
# Service responses

A `Response` is a signature with a flag, a status text and output arguments. A provider pushes the
arguments and serialises the object; the client reads it back with `deserialize`.

The header has a `status` field only if the response is unsuccessful or its status is not empty. An
unsuccessful response may be serialised with any number of arguments pushed; the client does not
read them.

## Main results

* `Response.Reachable.aligned` — what every sequence of calls on a response keeps
* `Response.getConstBuffers_of_unsuccessful` — an unsuccessful response can always be sent
-/

namespace Ssoa

/-- A `Response`. -/
structure Response extends ArgumentQueue where
  signature : ServiceSignature
  successful : Bool
  status : Text

namespace Response

/-- The arguments of a response, with the types its signature gives them. -/
def queue : Throwing.Part Response ArgumentQueue (List Text) where
  part := toArgumentQueue
  put r q := { r with toArgumentQueue := q }
  rest r := r.signature.outputParams
  put_part _ := rfl
  part_put _ _ := rfl
  put_put _ _ _ := rfl
  rest_put _ _ := rfl

/-- The constructor with a flag and a status. -/
def new (signature : ServiceSignature) (successful : Bool) (status : Text) : Response :=
  { signature, successful, status }

def pushArgument (arg : ServiceArgument) : Throwing Response Exn Unit :=
  Throwing.within queue fun params => ArgumentQueue.pushArgument params arg

def popArgument (c : ArgumentClass) : Throwing Response Exn ServiceArgument :=
  Throwing.within queue fun params => ArgumentQueue.popArgument params c

/-- The YAML header. -/
def header (r : Response) : Document :=
  [(txt "service", .text r.signature.signature), (txt "successful", .bool r.successful)] ++
  (if r.successful = false ∨ r.status ≠ [] then [(txt "status", .text r.status)] else []) ++
  [(txt "blocks", .ints (blocksOf r.arguments))]

def getConstBuffers (y : YamlLibrary) (r : Response) : Except Exn (List (List Byte)) :=
  if r.successful ∧ r.arguments.length < r.signature.outputParams.length then
    .error (stillMissing (r.signature.outputParams.length - r.arguments.length))
  else .ok (wire (y.emitted r.header) :: r.arguments.map (·.data))

/-- What a read past the end of the stream throws. -/
def endOfFile (function : Text) : Exn := .runtime (function ++ txt ": End of file")

/-- What is thrown when the header has another number of blocks than the signature has
parameters. -/
def invalidBlocks (message : Text) (params blocks : ℕ) : Exn :=
  .runtime (txt "Received an invalid " ++ message ++ txt " (expected " ++ lexicalCast params ++
    txt " argument blocks, received " ++ lexicalCast blocks ++ txt ").")

/-- `deserialize`, with the number of bytes the first read fetches past the header. -/
def deserialize (y : YamlReader) (stream : List Byte) (overRead : ℕ) : Except Exn Response :=
  match readUntil stream overRead with
  | none => .error (endOfFile (txt "read_until"))
  | some (headerBuffer, bytesTransferred, stream) => do
    let node ← y.load (headerBuffer.take (bytesTransferred - 1))
    let signature := ServiceSignature.ofText (← y.textAt node (txt "service"))
    let successful ← y.boolAt node (txt "successful")
    let status ← y.textAt node (txt "status")
    let blocks ← readBlocks y node
    if successful = false then return new signature false status
    else
      let params := signature.outputParams
      if blocks.length ≠ params.length then
        throw (invalidBlocks (txt "response") params.length blocks.length)
      else
        let headerBuffer := headerBuffer.drop bytesTransferred
        let payloadBuffers ← prepareArguments intT params blocks headerBuffer
        match Scatter.fill payloadBuffers stream with
        | none => throw (endOfFile (txt "read"))
        | some arguments =>
          return { signature, successful, status, arguments, pushed := arguments.length }

/-! ### Runs of calls -/

/-- The program of a call; a pop answers with an argument. -/
def call : ArgumentQueue.Call → Throwing Response Exn (Option ServiceArgument)
  | .pushArgument arg => (fun _ => none) <$> pushArgument arg
  | .popArgument c => some <$> popArgument c

/-- A response as an object, from its constructor on. -/
def machine (signature : ServiceSignature) (successful : Bool) (status : Text) :
    Machine Response ArgumentQueue.Call (Except Exn (Option ServiceArgument)) :=
  ⟨new signature successful status, fun r c => (call c).run r⟩

/-- What some sequence of calls makes of a new response. -/
def Reachable (r : Response) : Prop :=
  ∃ signature successful status, (machine signature successful status).Reachable r

/-- The arguments are pushed and popped as the signature says. -/
def Aligned (r : Response) : Prop := r.toArgumentQueue.Aligned r.signature.outputParams

theorem call_eq (c : ArgumentQueue.Call) :
    call c = Throwing.within queue fun params => ArgumentQueue.call params c := by
  cases c with
  | pushArgument arg => exact Throwing.map_within queue _ _
  | popArgument c => exact Throwing.map_within queue _ _

theorem invariant (signature : ServiceSignature) (successful : Bool) (status : Text) :
    (machine signature successful status).Invariant Aligned where
  init := ArgumentQueue.aligned_new
  step r c h := by
    show Aligned ((call c).run r).2
    rw [call_eq, Throwing.run_within]
    exact (ArgumentQueue.invariant r.signature.outputParams).step r.toArgumentQueue c h

theorem Reachable.aligned {r : Response} (h : r.Reachable) : r.Aligned := by
  obtain ⟨signature, successful, status, h⟩ := h
  exact (invariant signature successful status).of_reachable h

theorem run_pushArgument {r : Response} {arg : ServiceArgument}
    (h : r.signature.outputParams[r.pushed]? = some arg.kind.type) : (pushArgument arg).run r =
      (.ok (), { r with arguments := r.arguments ++ [arg], pushed := r.pushed + 1 }) :=
  Throwing.run_within_of_eq queue (x := fun params => ArgumentQueue.pushArgument params arg)
    (ArgumentQueue.pushArgument_of_getElem? h)

/-- Popping the declared types returns all arguments in order and leaves none. -/
theorem run_mapM_popArgument {r : Response} (h : r.pushed = r.signature.outputParams.length) :
    ((r.arguments.map (·.kind)).mapM popArgument).run r =
      (.ok r.arguments, { r with arguments := [] }) := by
  have hpop := ArgumentQueue.mapM_popArgument r.toArgumentQueue h
  have hmapM : (r.arguments.map (·.kind)).mapM popArgument = Throwing.within queue fun params =>
      (r.arguments.map (·.kind)).mapM (ArgumentQueue.popArgument params) :=
    Throwing.mapM_within queue (fun c params => ArgumentQueue.popArgument params c) _
  rw [hmapM, Throwing.run_within_of_eq queue hpop]
  rfl

/-- A successful response that can be sent has all its output arguments. -/
theorem length_le_of_getConstBuffers {y : YamlLibrary} {r : Response} {buffers : List (List Byte)}
    (h : r.getConstBuffers y = .ok buffers) (hs : r.successful = true) :
    r.signature.outputParams.length ≤ r.arguments.length := by
  rw [getConstBuffers] at h
  split at h
  · cases h
  · next hcomplete => exact Nat.not_lt.mp fun hlt => hcomplete ⟨hs, hlt⟩

/-- A response that holds as many arguments as its signature has output parameters got them all
pushed. -/
theorem Reachable.pushed_eq {r : Response} (h : r.Reachable)
    (hlen : r.signature.outputParams.length ≤ r.arguments.length) :
    r.pushed = r.signature.outputParams.length := by
  have hle := h.aligned.types.length_le
  rw [List.length_map, List.length_take] at hle
  exact le_antisymm h.aligned.pushed_le (hlen.trans (hle.trans (Nat.min_le_left ..)))

theorem getConstBuffers_of_unsuccessful (y : YamlLibrary) {r : Response}
    (h : r.successful = false) :
    r.getConstBuffers y = .ok (wire (y.emitted r.header) :: r.arguments.map (·.data)) := by
  rw [getConstBuffers, if_neg (by simp [h])]

end Response

end Ssoa
