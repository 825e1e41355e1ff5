import Ssoa.Lib.Machine
import Ssoa.Signature.Constructor
import Std.Data.ExtTreeMap

/-!
# The registry

`RegistryImpl` keeps, under the name of each service, the signature it was registered with, the
list of its providers and a cursor for handing them out in turn. The four operations are
transcribed with the table passed explicitly: an operation that throws returns the exception next
to the table as the throw leaves it.

The vector access in `lookupService` is unchecked in the source. Here it is an access that can
fail: `none` is the undefined behaviour of an index out of range.

`lastUsed` and the count of `deregisterServer` are natural numbers: that a list of providers has
fewer than 2³¹ entries, and a table too, is not part of the model.
-/

namespace Ssoa

/-- A provider: host and port. -/
abbrev Provider := Text × Text

/-- `service_data`, with the values `services[name]` gives a new entry. -/
structure ServiceData where
  signature : ServiceSignature := .any
  providers : List Provider := []
  lastUsed : ℕ := 0

/-- `service_data_map`. -/
abbrev ServiceDataMap := Std.ExtTreeMap Text ServiceData compare

/-- The state of a `RegistryImpl`. -/
structure RegistryImpl where
  services : ServiceDataMap := ∅

namespace ServiceData

/-- Append the pair unless the list has it; whether it was appended. -/
def pushProvider (data : ServiceData) (pair : Provider) : Bool × ServiceData :=
  if pair ∈ data.providers then (false, data)
  else (true, { data with providers := data.providers ++ [pair] })

/-- Erase the pair and bring the cursor back into the list. -/
def eraseProvider (data : ServiceData) (pair : Provider) : ServiceData :=
  let list := data.providers.erase pair
  { data with
    providers := list
    lastUsed := if list.length ≠ 0 then data.lastUsed % list.length else 0 }

/-- What erasing a provider leaves of an entry: nothing when it was the last one. -/
def afterErase (data : ServiceData) (pair : Provider) : Option ServiceData :=
  if pair ∈ data.providers then
    if (data.eraseProvider pair).providers.isEmpty then none else some (data.eraseProvider pair)
  else some data

/-- Move the cursor to the next provider. -/
def advance (data : ServiceData) : ServiceData :=
  { data with
    lastUsed :=
      if data.providers.length ≠ 0 then (data.lastUsed + 1) % data.providers.length else 0 }

end ServiceData

namespace RegistryImpl

/-- The exception for a signature that is not valid. -/
def invalidSignature : Exn := .runtime (txt "The specified signature is not valid.")

/-- The exception for a name that is taken by another signature. -/
def differentSignature : Exn :=
  .runtime (txt "Is already registered a service with same name and different signature.")

/-- Write an entry of the table. -/
def put (reg : RegistryImpl) (name : Text) (data : ServiceData) : RegistryImpl :=
  ⟨reg.services.insert name data⟩

def registerService (reg : RegistryImpl) (signature : ServiceSignature) (host port : Text) :
    Except Exn Bool × RegistryImpl :=
  if !signature.isValid then (.error invalidSignature, reg)
  else
    -- `services[name]` creates the entry if there is none
    let data := (reg.services[signature.name]?).getD {}
    if data.signature.equals .any then
      let (added, data) := { data with signature }.pushProvider (host, port)
      (.ok added, reg.put signature.name data)
    else if !data.signature.equals signature then
      (.error differentSignature, reg.put signature.name data)
    else
      let (added, data) := data.pushProvider (host, port)
      (.ok added, reg.put signature.name data)

/-- The loop of `deregisterServer` over the entries of the table: the table it updates, the names
whose list it empties, and the number of pairs it erases. -/
def eraseFromEntries (pair : Provider) :
    List (Text × ServiceData) → ServiceDataMap × List Text × ℕ → ServiceDataMap × List Text × ℕ
  | [], acc => acc
  | (name, data) :: rest, (services, emptyEntries, count) =>
    if pair ∈ data.providers then
      let data := data.eraseProvider pair
      eraseFromEntries pair rest (services.insert name data,
        if data.providers.isEmpty then emptyEntries ++ [name] else emptyEntries, count + 1)
    else eraseFromEntries pair rest (services, emptyEntries, count)

def deregisterServer (reg : RegistryImpl) (host port : Text) : ℕ × RegistryImpl :=
  let (services, emptyEntries, count) :=
    eraseFromEntries (host, port) reg.services.toList (reg.services, [], 0)
  (count, ⟨emptyEntries.foldl (fun services name => services.erase name) services⟩)

def deregisterService (reg : RegistryImpl) (signature : ServiceSignature) (host port : Text) :
    Bool × RegistryImpl :=
  if signature.equals .any then
    let (count, reg) := reg.deregisterServer host port
    (decide (count > 0), reg)
  else
    match reg.services[signature.name]? with
    | none => (false, reg)
    | some data =>
      if data.signature.equals signature && decide ((host, port) ∈ data.providers) then
        let data := data.eraseProvider (host, port)
        if data.providers.isEmpty then (true, ⟨reg.services.erase signature.name⟩)
        else (true, reg.put signature.name data)
      else (false, reg)

/-- The answer comes with the new values of the reference parameters `host` and `port`. -/
def lookupService (reg : RegistryImpl) (signature : ServiceSignature) (host port : Text) :
    Option (Bool × Text × Text) × RegistryImpl :=
  match reg.services[signature.name]? with
  | none => (some (false, host, port), reg)
  | some data =>
    match data.providers[data.lastUsed]? with
    | none => (none, reg)
    | some (host, port) => (some (true, host, port), reg.put signature.name data.advance)

/-! ### Operations and answers -/

/-- The operations of the `IRegistry` interface. -/
inductive Operation where
  | registerService (signature : ServiceSignature) (host port : Text)
  | deregisterService (signature : ServiceSignature) (host port : Text)
  | deregisterServer (host port : Text)
  | lookupService (signature : ServiceSignature) (host port : Text)
  deriving DecidableEq

/-- What they return. -/
inductive Answer where
  | registered (result : Except Exn Bool)
  | deregistered (done : Bool)
  | removed (count : ℕ)
  | lookedUp (result : Option (Bool × Text × Text))
  deriving DecidableEq

/-- Perform one operation. -/
def perform (reg : RegistryImpl) : Operation → Answer × RegistryImpl
  | .registerService signature host port =>
    (reg.registerService signature host port).map .registered id
  | .deregisterService signature host port =>
    (reg.deregisterService signature host port).map .deregistered id
  | .deregisterServer host port => (reg.deregisterServer host port).map .removed id
  | .lookupService signature host port =>
    (reg.lookupService signature host port).map .lookedUp id

/-- The registry as an object: it starts empty. -/
def machine : Machine RegistryImpl Operation Answer := ⟨{}, perform⟩

/-- The state some sequence of operations leads to from the empty registry. -/
abbrev Reachable (reg : RegistryImpl) : Prop := machine.Reachable reg

end RegistryImpl

end Ssoa
