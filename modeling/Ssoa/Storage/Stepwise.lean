import Ssoa.Lib.Lock
import Ssoa.Storage.StorageService

/-!
# The storage folder under its reader/writer lock

The threads of the storage provider share one folder. Here the functions of `StorageService` are
taken apart into the calls they make of the system: a file is first emptied and then written, its
size is asked before it is read, and a walk looks at one entry after the other. Another thread may
come in between.

The lock is what makes the functions atomic: `saveFile` takes it alone, the others share it.

## Main results

* `StorageService.toThrowing_steps` — without interruption, the steps are the functions
* `StorageService.serialised` — under the lock they are too, whatever the threads do
-/

namespace Ssoa

namespace StorageService

open Routine

/-! ### The functions step by step -/

/-- A function that works on the folder step by step. -/
abbrev Stepwise := ExceptT Exn (Routine FileSystem)

namespace Stepwise

/-- `exists`. -/
def existsAt (p : Text) : Stepwise Bool :=
  atomically (do let t ← get; return StorageService.existsAt t p)

/-- The constructor of an `ofstream`: the file is there, and empty, unless it cannot be opened. -/
def openFile (p : Text) : Stepwise Bool := atomically do
  let t ← get
  match t.writeFile (location p) [] with
  | some t' => set t'; return true
  | none => return false

/-- `write`, to a stream that has been opened. -/
def write (p : Text) (buffer : List Byte) : Stepwise Bool := atomically do
  let t ← get
  match t.writeFile (location p) buffer with
  | some t' => set t'; return true
  | none => return false

/-- The first part of `saveFile`. -/
def makeParent (sys : System) (parent : Text) : Stepwise Unit := do
  let there ← existsAt parent
  if there then return ()
  else
    let created ← atomically (createDirectory sys parent)
    if created then return ()
    else throw (.runtime (txt "Cannot create folder '" ++ cstr parent ++ txt "'."))

def saveFile (sys : System) (filename : Text) (buffer : List Byte) : Stepwise Unit := do
  let fullPath := Path.append path filename
  makeParent sys (Path.parentPath fullPath)
  let opened ← openFile fullPath
  let written ← if opened then write fullPath buffer else pure false
  if written then return ()
  else throw (.runtime (txt "Cannot write file '" ++ cstr fullPath ++ txt "' (" ++
      sys.strerror ++ txt ")."))

/-- The constructor of an `ifstream`, and `buffer.resize(infile.tellg())`. -/
def fileSize (sys : System) (p : Text) : Stepwise ℕ := atomically do
  let t ← get
  match t.readFile (location p) with
  | some content => return content.length
  | none => throw (sys.readFolder p)

/-- `read`, of so many bytes; `none` if there are fewer. -/
def read (p : Text) (size : ℕ) : Stepwise (Option (List Byte)) := atomically do
  let t ← get
  match t.readFile (location p) with
  | some content => return if size ≤ content.length then some (content.take size) else none
  | none => return none

def loadFile (sys : System) (filename : Text) : Stepwise (List Byte) := do
  let fullPath := Path.append path filename
  let there ← existsAt fullPath
  if there = false then
    throw (.runtime (txt "The specified file '" ++ cstr fullPath ++ txt "' does not exist."))
  else
    let size ← fileSize sys fullPath
    let buffer ← read fullPath size
    match buffer with
    | some buffer => return buffer
    | none => throw (.runtime (txt "Cannot read file '" ++ cstr fullPath ++ txt "' (" ++
        sys.strerror ++ txt ")."))

/-- The constructor of the iterator: the entries it will visit. -/
def visited (sys : System) : Stepwise (List (List Text)) := atomically do
  let t ← get
  match t.lookup (location path) with
  | some .folder => return (sys.order (t.below (location path))).map Prod.fst
  | _ => throw (sys.notFolder path)

/-- `is_regular_file(it->status())`. -/
def isRegularFile (cs : List Text) : Stepwise Bool :=
  atomically (do let t ← get; return (t.lookup cs).any Entry.isFile)

/-- The body of the loop, for the entries still to come. -/
def walk : List (List Text) → Stepwise (List Text)
  | [] => return []
  | cs :: rest => do
    let regular ← isRegularFile cs
    let files ← walk rest
    return if regular then relativePath (entryPath cs) :: files else files

def getList (sys : System) : Stepwise (List Text) := do
  let there ← existsAt path
  if there = false then return []
  else
    let entries ← visited sys
    walk entries

end Stepwise

/-! ### Without interruption -/

variable {sys : System} {t : FileSystem}

/-- A step that is an access is taken. -/
theorem run_atomically_bind {α β : Type} {x : Throwing FileSystem Exn α} {a : α}
    {f : α → Stepwise β} {t' : FileSystem} (h : x.run t = (.ok a, t')) :
    (toThrowing (atomically x >>= f)).run t = (toThrowing (f a)).run t' := by
  rw [toThrowing_bind, toThrowing_atomically, Throwing.run_bind_of_ok h]

theorem run_existsAt_bind {β : Type} (p : Text) (f : Bool → Stepwise β) (t : FileSystem) :
    (toThrowing (Stepwise.existsAt p >>= f)).run t = (toThrowing (f (existsAt t p))).run t :=
  run_atomically_bind rfl

theorem toThrowing_makeParent (sys : System) (parent : Text) :
    toThrowing (Stepwise.makeParent sys parent) = makeParent sys parent := by
  refine Throwing.ext_run fun t => ?_
  rw [Stepwise.makeParent, run_existsAt_bind, makeParent, Throwing.run_get_bind]
  cases hthere : existsAt t parent with
  | true => rfl
  | false =>
    simp only [Bool.false_eq_true, if_false, toThrowing_bind, toThrowing_atomically,
      toThrowing_ite, toThrowing_pure, toThrowing_throw]

/-- A file that has been opened is written as if it had not been emptied. -/
theorem toThrowing_saveFile (sys : System) (filename : Text) (buffer : List Byte) :
    toThrowing (Stepwise.saveFile sys filename buffer) = saveFile sys filename buffer := by
  rw [Stepwise.saveFile, saveFile, toThrowing_bind, toThrowing_makeParent]
  refine congrArg _ (funext fun _ => Throwing.ext_run fun t => ?_)
  rw [Throwing.run_get_bind]
  generalize Path.append path filename = fullPath
  cases hopen : t.writeFile (location fullPath) [] with
  | none =>
    -- whether a file can be opened does not depend on what is written into it
    have hwrite : t.writeFile (location fullPath) buffer = none := by
      rw [Option.eq_none_iff_forall_ne_some] at hopen ⊢
      intro t' ht'
      obtain ⟨u, hu⟩ := FileTree.exists_writeFile_iff.mpr
        (FileTree.exists_writeFile_iff.mp ⟨t', ht'⟩)
      exact hopen u hu
    have hopened : (toThrowing (Stepwise.openFile fullPath)).run t = (.ok false, t) := by
      simp [Stepwise.openFile, hopen]
    rw [toThrowing_bind, Throwing.run_bind_of_ok hopened, hwrite]
    rfl
  | some t' =>
    have hwrite := FileTree.writeFile_writeFile hopen buffer
    obtain ⟨u, hu⟩ : ∃ u, t.writeFile (location fullPath) buffer = some u :=
      FileTree.exists_writeFile_iff.mpr (FileTree.exists_writeFile_iff.mp ⟨t', hopen⟩)
    have hopened : (toThrowing (Stepwise.openFile fullPath)).run t = (.ok true, t') := by
      simp [Stepwise.openFile, hopen]
    have hwritten : (toThrowing (Stepwise.write fullPath buffer)).run t' = (.ok true, u) := by
      simp [Stepwise.write, hwrite, hu]
    rw [toThrowing_bind, Throwing.run_bind_of_ok hopened, hu, if_pos rfl, toThrowing_bind,
      Throwing.run_bind_of_ok hwritten]
    rfl

/-- The size of a file that nobody changes is the length of what is read. -/
theorem toThrowing_loadFile (sys : System) (filename : Text) :
    toThrowing (Stepwise.loadFile sys filename) = loadFile sys filename := by
  refine Throwing.ext_run fun t => ?_
  rw [Stepwise.loadFile, loadFile, run_existsAt_bind, Throwing.run_get_bind]
  generalize Path.append path filename = fullPath
  cases hthere : existsAt t fullPath with
  | false => rfl
  | true =>
    simp only [Bool.true_eq_false, if_false]
    cases hread : t.readFile (location fullPath) with
    | none =>
      have hsize : (toThrowing (Stepwise.fileSize sys fullPath)).run t =
          (.error (sys.readFolder fullPath), t) := by
        simp [Stepwise.fileSize, hread]
      rw [toThrowing_bind, Throwing.run_bind_of_error hsize]
      rfl
    | some content =>
      have hsize : (toThrowing (Stepwise.fileSize sys fullPath)).run t =
          (.ok content.length, t) := by
        simp [Stepwise.fileSize, hread]
      have hbuffer : (toThrowing (Stepwise.read fullPath content.length)).run t =
          (.ok (some content), t) := by
        simp [Stepwise.read, hread]
      rw [toThrowing_bind, Throwing.run_bind_of_ok hsize, toThrowing_bind,
        Throwing.run_bind_of_ok hbuffer]
      rfl

/-- The entries, looked at one after the other. -/
theorem run_walk (entries : List (List Text × Entry (List Byte)))
    (h : ∀ x ∈ entries, t.lookup x.1 = some x.2) :
    (toThrowing (Stepwise.walk (entries.map Prod.fst))).run t =
      (.ok ((entries.filter fun x => x.2.isFile).map fun x => relativePath (entryPath x.1)),
        t) := by
  induction entries with
  | nil => rfl
  | cons x entries ih =>
    obtain ⟨hx, hentries⟩ := List.forall_mem_cons.mp h
    have hregular : (toThrowing (Stepwise.isRegularFile x.1)).run t = (.ok x.2.isFile, t) := by
      show (Except.ok ((t.lookup x.1).any Entry.isFile), t) = _
      rw [hx]
      rfl
    rw [List.map_cons, Stepwise.walk, toThrowing_bind, Throwing.run_bind_of_ok hregular,
      toThrowing_bind, Throwing.run_bind_of_ok (ih hentries), List.filter_cons]
    cases x.2.isFile <;> rfl

theorem toThrowing_getList (sys : System) : toThrowing (Stepwise.getList sys) = getList sys := by
  refine Throwing.ext_run fun t => ?_
  rw [Stepwise.getList, getList, run_existsAt_bind, Throwing.run_get_bind, existsAt]
  cases hlookup : t.lookup (location path) with
  | none => rfl
  | some e =>
    simp only [Option.isSome_some, Bool.true_eq_false, if_false]
    cases e with
    | file content =>
      have hvisited : (toThrowing (Stepwise.visited sys)).run t =
          (.error (sys.notFolder path), t) := by
        simp [Stepwise.visited, hlookup]
      rw [toThrowing_bind, Throwing.run_bind_of_error hvisited]
      rfl
    | folder =>
      have hvisited : (toThrowing (Stepwise.visited sys)).run t =
          (.ok ((sys.order (t.below (location path))).map Prod.fst), t) := by
        simp [Stepwise.visited, hlookup]
      rw [toThrowing_bind, Throwing.run_bind_of_ok hvisited, run_walk]
      · rfl
      · intro x hx
        have hx := (sys.order_perm _).mem_iff.mp hx
        obtain ⟨-, -, -, hx⟩ := FileTree.mem_below.mp (show (x.1, x.2) ∈ t.below _ from hx)
        exact hx

/-! ### Under the lock -/

/-- A call of a member function. -/
inductive Operation where
  | saveFile (filename : Text) (buffer : List Byte)
  | loadFile (filename : Text)
  | getList

/-- What it returns. -/
inductive Result where
  | saved
  | loaded (buffer : List Byte)
  | listed (files : List Text)

namespace Operation

/-- The function as a whole. -/
def perform (sys : System) : Operation → Throwing FileSystem Exn Result
  | .saveFile filename buffer => (fun _ => .saved) <$> StorageService.saveFile sys filename buffer
  | .loadFile filename => .loaded <$> StorageService.loadFile sys filename
  | .getList => .listed <$> StorageService.getList sys

/-- The function step by step. -/
def steps (sys : System) : Operation → Stepwise Result
  | .saveFile filename buffer => (fun _ => .saved) <$> Stepwise.saveFile sys filename buffer
  | .loadFile filename => .loaded <$> Stepwise.loadFile sys filename
  | .getList => .listed <$> Stepwise.getList sys

/-- `unique_lock`, or `shared_lock`. -/
def isUnique : Operation → Bool
  | .saveFile _ _ => true
  | _ => false

end Operation

/-- **Without interruption, the steps are the functions.** -/
theorem toThrowing_steps (sys : System) (op : Operation) :
    toThrowing (op.steps sys) = op.perform sys := by
  cases op with
  | saveFile filename buffer =>
    rw [Operation.steps, toThrowing_map, toThrowing_saveFile, Operation.perform]
  | loadFile filename =>
    rw [Operation.steps, toThrowing_map, toThrowing_loadFile, Operation.perform]
  | getList =>
    rw [Operation.steps, toThrowing_map, toThrowing_getList, Operation.perform]

theorem readOnly_existsAt (p : Text) : ReadOnly (Stepwise.existsAt p).run :=
  readOnly_atomically fun _ => rfl

theorem readOnly_loadFile (sys : System) (filename : Text) :
    ReadOnly (Stepwise.loadFile sys filename).run := by
  refine (readOnly_existsAt _).bindExcept fun there => ?_
  split
  · trivial
  · refine ReadOnly.bindExcept (readOnly_atomically fun t => ?_) fun size => ?_
    · rw [Throwing.run_get_bind]
      split <;> rfl
    · refine ReadOnly.bindExcept (readOnly_atomically fun t => ?_) fun buffer => ?_
      · rw [Throwing.run_get_bind]
        split <;> rfl
      · cases buffer <;> trivial

theorem readOnly_walk (entries : List (List Text)) : ReadOnly (Stepwise.walk entries).run := by
  induction entries with
  | nil => trivial
  | cons cs rest ih =>
    refine ReadOnly.bindExcept (readOnly_atomically fun _ => rfl) fun regular => ?_
    exact ih.bindExcept fun files => trivial

theorem readOnly_getList (sys : System) : ReadOnly (Stepwise.getList sys).run := by
  refine (readOnly_existsAt _).bindExcept fun there => ?_
  split
  · trivial
  · refine ReadOnly.bindExcept (readOnly_atomically fun t => ?_) fun entries =>
      readOnly_walk entries
    rw [Throwing.run_get_bind]
    split <;> rfl

theorem readOnly_steps (sys : System) {op : Operation} (h : op.isUnique = false) :
    ReadOnly (op.steps sys).run := by
  cases op with
  | saveFile filename buffer => cases h
  | loadFile filename => exact (readOnly_loadFile sys filename).mapExcept
  | getList => exact (readOnly_getList sys).mapExcept

/-- The member functions under `mutex`. -/
def lock (sys : System) : Lock FileSystem Operation (Except Exn Result) where
  body op := (op.steps sys).run
  unique := Operation.isUnique
  readOnly _ h := readOnly_steps sys h

/-- The folder, when one function is called after the other. -/
def machine (sys : System) (start : FileSystem) :
    Machine FileSystem Operation (Except Exn Result) :=
  ⟨start, fun t op => (op.perform sys).run t⟩

theorem machine_eq (sys : System) (start : FileSystem) :
    (lock sys).pool.machine start = machine sys start := by
  refine congrArg (Machine.mk start) (funext fun t => funext fun op => ?_)
  show (toThrowing (op.steps sys)).run t = _
  rw [toThrowing_steps]

/-- **The member functions are atomic**: however the steps of any number of calls alternate, what
the calls return is what they return one after the other, in the order in which they return. A
`saveFile` is at work alone, and all calls that have begun can come to their end; then the files are
as the calls, one after the other, leave them. -/
theorem serialised (sys : System) (start : FileSystem) {actions : List (Pool.Action Operation)}
    {s : Pool.State FileSystem Operation (Except Exn Result)}
    (hrun : (lock sys).pool.system.run { object := start } actions = some s) :
    (∃ t, (machine sys start).InOrder start s.returned t ∧ (s.running = [] → s.object = t)) ∧
      (∀ r ∈ s.running, r.call.isUnique = true → s.running = [r]) ∧
      ∃ actions' s', (lock sys).pool.system.run s actions' = some s' ∧ s'.running = [] := by
  obtain ⟨horder, hidle⟩ := (lock sys).inOrder hrun
  rw [machine_eq] at horder
  exact ⟨⟨_, horder, fun hnil => (hidle hnil).symm⟩,
    fun r hr hunique => (lock sys).exclusion hrun hr hunique, Pool.exists_run_idle _ s⟩

/-- A system that lists folders from the last entry to the first. -/
def plainSystem : System where
  createDirectory p := .runtime (txt "boost::filesystem::create_directory: " ++ p)
  notFolder p := .runtime (txt "boost::filesystem::directory_iterator::construct: " ++ p)
  readFolder _ := .logic (txt "vector::_M_default_append")
  strerror := txt "Is a directory"
  order := List.reverse
  order_perm := List.reverse_perm

/-- A file is stored, and then two threads read it and list the folder by turns. -/
def sampleActions : List (Pool.Action Operation) :=
  .start (.saveFile (txt "a") (txt "x")) :: List.replicate 5 (.resume 0) ++
    [.start (.loadFile (txt "a")), .start .getList, .resume 0, .resume 1, .resume 0, .resume 1,
      .resume 1]

theorem serialised_sample : ∃ s, (lock plainSystem).pool.system.run { object := FileTree.empty }
      sampleActions = some s ∧
    (∃ t, (machine plainSystem .empty).InOrder .empty s.returned t ∧
      (s.running = [] → s.object = t)) ∧
    (∀ r ∈ s.running, r.call.isUnique = true → s.running = [r]) ∧
    ∃ actions' s', (lock plainSystem).pool.system.run s actions' = some s' ∧ s'.running = [] := by
  have hsome : ((lock plainSystem).pool.system.run { object := FileTree.empty }
      sampleActions).isSome = true := by decide +kernel
  obtain ⟨s, hs⟩ := Option.isSome_iff_exists.mp hsome
  exact ⟨s, hs, serialised plainSystem .empty hs⟩

end StorageService

end Ssoa
