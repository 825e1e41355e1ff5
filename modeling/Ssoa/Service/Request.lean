import Ssoa.Service.Payload
import Ssoa.Service.Queue
import Ssoa.Signature.Constructor

/-!
# Service requests

A `Service` is a signature with input arguments. A client pushes the arguments and serialises the
object with `getConstBuffers`; a provider makes one from the arguments it has read, and pops them.

## Main results

* `Service.run_forM_pushArgument`, `Service.run_mapM_popArgument` — pushing all arguments, popping
  all arguments
* `Service.getConstBuffers_of_pushed` — what is sent
-/

namespace Ssoa

/-- What `getConstBuffers` throws when arguments are missing. -/
def stillMissing (n : ℕ) : Exn :=
  .logic (txt "Still missing " ++ lexicalCast n ++ txt " argument(s).")

/-- A `Service`: the member `signature`, and the members of `ArgumentQueue`. -/
structure Service extends ArgumentQueue where
  signature : ServiceSignature

namespace Service

/-- The arguments of a service, with the types its signature gives them. -/
def queue : Throwing.Part Service ArgumentQueue (List Text) where
  part := toArgumentQueue
  put s q := { s with toArgumentQueue := q }
  rest s := s.signature.inputParams
  put_part _ := rfl
  part_put _ _ := rfl
  put_put _ _ _ := rfl
  rest_put _ _ := rfl

/-- The public constructor. -/
def new (signature : ServiceSignature) : Service := { signature }

/-- The protected constructor, which a skeleton is made with. -/
def ofArguments (signature : ServiceSignature) (arguments : List ServiceArgument) : Service :=
  { signature, arguments, pushed := arguments.length }

def pushArgument (arg : ServiceArgument) : Throwing Service Exn Unit :=
  Throwing.within queue fun params => ArgumentQueue.pushArgument params arg

def popArgument (c : ArgumentClass) : Throwing Service Exn ServiceArgument :=
  Throwing.within queue fun params => ArgumentQueue.popArgument params c

/-- The YAML header. -/
def header (s : Service) : Document :=
  [(txt "service", .text s.signature.signature), (txt "blocks", .ints (blocksOf s.arguments))]

def getConstBuffers (y : YamlLibrary) (s : Service) : Except Exn (List (List Byte)) :=
  if s.arguments.length < s.signature.inputParams.length then
    .error (stillMissing (s.signature.inputParams.length - s.arguments.length))
  else .ok (wire (y.emitted s.header) :: s.arguments.map (·.data))

/-- Arguments of the declared types can be pushed, all of them. -/
theorem run_forM_pushArgument {signature : ServiceSignature} {args : List ServiceArgument}
    (h : args.map (·.kind.type) = signature.inputParams) :
    (forM args pushArgument).run (new signature) = (.ok (), ofArguments signature args) := by
  have hall : args.map (·.kind.type) <+: signature.inputParams.drop 0 :=
    List.prefix_iff_eq_take.mpr (by simp [h])
  have hpush := ArgumentQueue.forM_pushArgument args {} hall
  have hforM : forM args pushArgument =
      Throwing.within queue fun params => forM args (ArgumentQueue.pushArgument params) :=
    Throwing.forM_within queue (fun a params => ArgumentQueue.pushArgument params a) args
  rw [hforM, Throwing.run_within_of_eq queue hpush]
  simp [queue, new, ofArguments]

/-- Popping the declared types returns all arguments in order and leaves none. -/
theorem run_mapM_popArgument {s : Service} (h : s.pushed = s.signature.inputParams.length) :
    ((s.arguments.map (·.kind)).mapM popArgument).run s =
      (.ok s.arguments, { s with arguments := [] }) := by
  have hpop := ArgumentQueue.mapM_popArgument s.toArgumentQueue h
  have hmapM : (s.arguments.map (·.kind)).mapM popArgument = Throwing.within queue fun params =>
      (s.arguments.map (·.kind)).mapM (ArgumentQueue.popArgument params) :=
    Throwing.mapM_within queue (fun c params => ArgumentQueue.popArgument params c) _
  rw [hmapM, Throwing.run_within_of_eq queue hpop]
  rfl

/-- A service made from arguments of the declared types gives them back. -/
theorem run_mapM_popArgument_ofArguments {signature : ServiceSignature}
    {args : List ServiceArgument}
    (h : args.map (·.kind.type) = signature.inputParams) {kinds : List ArgumentClass}
    (hkinds : kinds.map ArgumentClass.type = signature.inputParams) :
    (kinds.mapM popArgument).run (ofArguments signature args) =
      (.ok args, { ofArguments signature args with arguments := [] }) := by
  have hlen : args.length = signature.inputParams.length := by rw [← h, List.length_map]
  rw [ServiceArgument.eq_map_kind (hkinds.trans h.symm)]
  exact run_mapM_popArgument (s := ofArguments signature args) hlen

theorem getConstBuffers_of_pushed (y : YamlLibrary) {signature : ServiceSignature}
    {args : List ServiceArgument} (h : args.map (·.kind.type) = signature.inputParams) :
    (ofArguments signature args).getConstBuffers y =
      .ok (wire (y.emitted (ofArguments signature args).header) :: args.map (·.data)) := by
  have hlen : args.length = signature.inputParams.length := by rw [← h, List.length_map]
  have hnot : ¬ (ofArguments signature args).arguments.length < signature.inputParams.length :=
    Nat.not_lt.mpr (Nat.le_of_eq hlen.symm)
  exact if_neg hnot

end Service

end Ssoa
