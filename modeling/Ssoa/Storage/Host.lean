import Ssoa.Lib.PathWalk
import Ssoa.Storage.StorageProvider

/-!
# The storage folder on its host

A name comes from a client and may be any text: it may go up, begin or end with a slash, or contain
a NUL. What it refers to is then decided by the whole host, of which the storage folder is a part:
the provider runs in a folder of the host, from which relative paths are followed step by step.

`loadFile` and `saveFile` are transcribed here for such names, and for a stream that may not be
opened or may fail after some bytes. Opening a file truncates it. In the root of the tree, under the
names of images, and if writing does not fail, they are the functions of `StorageService`.

Not in the model: permissions to walk through a folder, limits on the length of paths, and symbolic
links.

## Main results

* `Host.saveFile_eq`, `Host.loadFile_eq` — for the names of images, the functions of
  `StorageService`
* `StorageCall.answer_storeImage`, `StorageCall.answer_getImage` — and so are the answers
-/

namespace Ssoa

namespace Path

/-- The step for a component. -/
def step (c : Text) : Step Text :=
  if c = txt "." then .here else if c = txt ".." then .up else .down c

/-- The steps for the components of a path. -/
def route (p : Text) : List (Step Text) := (components p).map step

/-- The steps the system takes along a path; a slash at the end asks for a folder. -/
def steps (p : Text) : List (Step Text) :=
  route p ++ if p.getLast? = some slash then [.here] else []

end Path

/-- What becomes of the bytes written to a file: all of them reach it, or only some before writing
fails, or the file is not opened. -/
inductive Writing where
  | complete
  | stopped (written : ℕ)
  | notOpened
  deriving DecidableEq

/-- The content of the file, if it is opened. -/
def Writing.content (buffer : List Byte) : Writing → Option (List Byte)
  | complete => some buffer
  | stopped written => some (buffer.take written)
  | notOpened => none

/-- The host: what the system decides, and the folder the provider runs in. -/
structure Host where
  system : System
  cwd : List Text

namespace Host

/-- Where the steps along a path lead, if there is a folder wherever one is taken. -/
def follow (host : Host) (t : FileSystem) (p : Text) (steps : List (Step Text)) :
    Option (List Text) :=
  if p = [] then none else t.walk (if p.head? = some slash then [] else host.cwd) steps

/-- What a path refers to, given as `c_str()`. -/
def resolve (host : Host) (t : FileSystem) (p : Text) : Option (List Text) :=
  host.follow t (cstr p) (Path.steps (cstr p))

/-- `exists`. -/
def existsAt (host : Host) (t : FileSystem) (p : Text) : Bool :=
  match host.resolve t p with
  | none => false
  | some location => (t.lookup location).isSome

/-- `create_directory`, for which a slash at the end of the path does not matter. -/
def createDirectory (host : Host) (p : Text) : Throwing FileSystem Exn Bool := do
  let t ← get
  match host.follow t (cstr p) (Path.route (cstr p)) with
  | none => throw (host.system.createDirectory p)
  | some location =>
    match t.createFolder location with
    | some t' => set t'; return true
    | none => if t.isFolder location then return false else throw (host.system.createDirectory p)

def loadFile (host : Host) (filename : Text) : Throwing FileSystem Exn (List Byte) := do
  let fullPath := Path.append StorageService.path filename
  let t ← get
  if host.existsAt t fullPath = false then
    throw (.runtime (txt "The specified file '" ++ cstr fullPath ++ txt "' does not exist."))
  else
    match (host.resolve t fullPath).bind fun location => t.readFile location with
    | some content => return content
    | none => throw (host.system.readFolder fullPath)

/-- The first part of `saveFile`: the folder of the file is made if it is not there. -/
def makeParent (host : Host) (parent : Text) : Throwing FileSystem Exn Unit := do
  let t ← get
  if host.existsAt t parent then return ()
  else
    let created ← host.createDirectory parent
    if created then return ()
    else throw (.runtime (txt "Cannot create folder '" ++ cstr parent ++ txt "'."))

/-- The file after it was opened and written to, if it could be opened. -/
def write (host : Host) (writing : Writing) (t : FileSystem) (p : Text) (buffer : List Byte) :
    Option FileSystem := do
  let location ← host.resolve t p
  let content ← writing.content buffer
  t.writeFile location content

def saveFile (host : Host) (writing : Writing) (filename : Text) (buffer : List Byte) :
    Throwing FileSystem Exn Unit := do
  let fullPath := Path.append StorageService.path filename
  let cannotWrite : Exn := .runtime (txt "Cannot write file '" ++ cstr fullPath ++ txt "' (" ++
    host.system.strerror ++ txt ").")
  host.makeParent (Path.parentPath fullPath)
  let t ← get
  match host.write writing t fullPath buffer with
  | none => throw cannotWrite
  | some t' =>
    set t'
    if writing = .complete then return () else throw cannotWrite

/-- A host on which the provider runs in `srv`. -/
def sampleHost : Host := ⟨StorageProvider.sampleSystem, [txt "srv"]⟩

/-! ### Paths of ordinary components -/

variable {host : Host} {t : FileSystem} {cs : List Text}

theorem step_of_ordinary {c : Text} (h : Ordinary c) : Path.step c = .down c := by
  rw [Path.step, if_neg h.not_dot, if_neg h.not_dotdot]

theorem route_join (h : ∀ c ∈ cs, Ordinary c) : Path.route (Path.join cs) = cs.map .down := by
  rw [Path.route, Path.components_join h]
  exact List.map_congr_left fun c hc => step_of_ordinary (h c hc)

theorem steps_join (h : ∀ c ∈ cs, Ordinary c) : Path.steps (Path.join cs) = cs.map .down := by
  rw [Path.steps, if_neg (Path.getLast?_join h), List.append_nil, route_join h]

/-- **Where a path of ordinary components leads**, if its folder is there. -/
theorem follow_join (hcwd : host.cwd = []) (hne : cs ≠ []) (h : ∀ c ∈ cs, Ordinary c) :
    host.follow t (Path.join cs) (cs.map .down) =
      if t.isFolder cs.dropLast then some cs else none := by
  rw [follow, if_neg (Path.join_ne_nil hne h), if_neg (Path.head?_join h), hcwd,
    FileTree.walk_map_down t [] hne, List.nil_append]

theorem resolve_join (hcwd : host.cwd = []) (hne : cs ≠ []) (h : ∀ c ∈ cs, Ordinary c) :
    host.resolve t (Path.join cs) = if t.isFolder cs.dropLast then some cs else none := by
  rw [resolve, Path.cstr_join h, steps_join h, follow_join hcwd hne h]

theorem existsAt_join (hcwd : host.cwd = []) (hne : cs ≠ []) (h : ∀ c ∈ cs, Ordinary c) :
    host.existsAt t (Path.join cs) = StorageService.existsAt t (Path.join cs) := by
  rw [existsAt, resolve_join hcwd hne h, StorageService.existsAt, StorageService.location_join h]
  cases hfolder : t.isFolder cs.dropLast with
  | true => rfl
  | false =>
    rw [(FileTree.of_not_folder hfolder).1]
    rfl

theorem createDirectory_join (hcwd : host.cwd = []) (hne : cs ≠ []) (h : ∀ c ∈ cs, Ordinary c)
    (t : FileSystem) : (host.createDirectory (Path.join cs)).run t =
      (StorageService.createDirectory host.system (Path.join cs)).run t := by
  rw [createDirectory, StorageService.createDirectory, Throwing.run_get_bind,
    Throwing.run_get_bind, Path.cstr_join h, route_join h, follow_join hcwd hne h,
    StorageService.location_join h]
  cases hfolder : t.isFolder cs.dropLast with
  | true => rfl
  | false =>
    obtain ⟨hlookup, hcreate, -⟩ := FileTree.of_not_folder hfolder
    have hself : t.isFolder cs = false := by rw [FileTree.isFolder, hlookup]
    simp [hcreate, hself]

theorem makeParent_join (hcwd : host.cwd = []) (hne : cs ≠ []) (h : ∀ c ∈ cs, Ordinary c)
    (t : FileSystem) : (host.makeParent (Path.join cs)).run t =
      (StorageService.makeParent host.system (Path.join cs)).run t := by
  rw [makeParent, StorageService.makeParent, Throwing.run_get_bind, Throwing.run_get_bind,
    Throwing.run_ite, Throwing.run_ite, existsAt_join hcwd hne h]
  have hcreate := createDirectory_join hcwd hne h t
  rcases hrun : (StorageService.createDirectory host.system (Path.join cs)).run t with ⟨e | b, t'⟩
  · rw [Throwing.run_bind_of_error (hcreate.trans hrun), Throwing.run_bind_of_error hrun]
  · rw [Throwing.run_bind_of_ok (hcreate.trans hrun), Throwing.run_bind_of_ok hrun]

theorem write_join (hcwd : host.cwd = []) (hne : cs ≠ []) (h : ∀ c ∈ cs, Ordinary c)
    (t : FileSystem) (buffer : List Byte) :
    host.write .complete t (Path.join cs) buffer = t.writeFile cs buffer := by
  rw [write, resolve_join hcwd hne h]
  cases hfolder : t.isFolder cs.dropLast with
  | true => rfl
  | false =>
    rw [(FileTree.of_not_folder hfolder).2.2]
    rfl

/-- **Saving an image** in the root, when writing does not fail. -/
theorem saveFile_eq (hcwd : host.cwd = []) (name : ImageName) (buffer : List Byte)
    (t : FileSystem) : (host.saveFile .complete name.text buffer).run t =
      (StorageService.saveFile host.system name.text buffer).run t := by
  have hplace := StorageService.ordinary_place name
  have hne : StorageService.place name ≠ [] := List.cons_ne_nil _ _
  have hparent : (StorageService.place name).dropLast ≠ [] := by
    rw [StorageService.place, List.dropLast_cons_of_ne_nil name.ne_nil]
    exact List.cons_ne_nil _ _
  have hmake := makeParent_join hcwd hparent (fun c hc => hplace c (List.mem_of_mem_dropLast hc)) t
  rw [← StorageService.parentPath_append] at hmake
  rw [saveFile, StorageService.saveFile]
  rcases hrun : (StorageService.makeParent host.system
    (Path.parentPath (Path.append StorageService.path name.text))).run t with ⟨e | ⟨⟩, t'⟩
  · rw [Throwing.run_bind_of_error (hmake.trans hrun), Throwing.run_bind_of_error hrun]
  · rw [Throwing.run_bind_of_ok (hmake.trans hrun), Throwing.run_bind_of_ok hrun,
      Throwing.run_get_bind, Throwing.run_get_bind, StorageService.append_path,
      write_join hcwd hne hplace, StorageService.location_join hplace]
    cases t'.writeFile (StorageService.place name) buffer <;> rfl

/-- **Loading an image** in the root. -/
theorem loadFile_eq (hcwd : host.cwd = []) (name : ImageName) (t : FileSystem) :
    (host.loadFile name.text).run t = (StorageService.loadFile host.system name.text).run t := by
  have hplace := StorageService.ordinary_place name
  have hne : StorageService.place name ≠ [] := List.cons_ne_nil _ _
  rw [loadFile, StorageService.loadFile, Throwing.run_get_bind, Throwing.run_get_bind,
    StorageService.append_path, existsAt_join hcwd hne hplace, resolve_join hcwd hne hplace,
    StorageService.location_join hplace]
  cases hfolder : t.isFolder (StorageService.place name).dropLast with
  | true => rfl
  | false =>
    rw [StorageService.existsAt, StorageService.location_join hplace,
      (FileTree.of_not_folder hfolder).1]
    rfl

end Host

/-- A request to store or to retrieve an image under a name that may be any text, and what becomes
of what is written. -/
inductive StorageCall where
  | storeImage (writing : Writing) (name : Text) (content : List Byte)
  | getImage (name : Text)

namespace StorageCall

/-- The name in the request. -/
def name : StorageCall → Text
  | storeImage _ name _ => name
  | getImage name => name

/-- The response, as the handler of the connection sends it. -/
def respond (signature : ServiceSignature) : Except Exn Response → Response
  | .ok r => r
  | .error e => .new signature false (txt "Internal server error: " ++ e.what)

/-- The response, and the files after it. -/
def answer (host : Host) (call : StorageCall) (t : FileSystem) : Response × FileSystem :=
  match call with
  | storeImage writing name content =>
    let r := (host.saveFile writing name content).run t
    (respond StoreImageServiceImpl.serviceSignature
      (r.1.map fun _ => .new StoreImageServiceImpl.serviceSignature true (txt "OK")), r.2)
  | getImage name =>
    let r := (host.loadFile name).run t
    (respond GetImageServiceImpl.serviceSignature (r.1.map fun content =>
      .single GetImageServiceImpl.serviceSignature (txt "OK") (.ofBuffer content)), r.2)

/-- The responses to requests one after the other, and the files after them. -/
def run (host : Host) : List StorageCall → FileSystem → List Response × FileSystem
  | [], t => ([], t)
  | call :: calls, t =>
    let r := call.answer host t
    let rest := run host calls r.2
    (r.1 :: rest.1, rest.2)

variable {host : Host}

/-- In the root, an image is stored as the service does it. -/
theorem answer_storeImage (hcwd : host.cwd = []) (name : ImageName) (content : List Byte)
    (t : FileSystem) : (storeImage .complete name.text content).answer host t =
      (StorageRequest.storeImage name content).answer host.system t := by
  obtain ⟨s, hrun⟩ := StoreImageServiceImpl.run_invoke host.system name content t
  rw [answer, StorageRequest.answer, StorageRequest.invoke, hrun, Host.saveFile_eq hcwd]
  rcases (StorageService.saveFile host.system name.text content).run t with ⟨e | ⟨⟩, t'⟩ <;> rfl

/-- In the root, an image is retrieved as the service does it. -/
theorem answer_getImage (hcwd : host.cwd = []) (name : ImageName) (t : FileSystem) :
    (getImage name.text).answer host t =
      (StorageRequest.getImage name).answer host.system t := by
  obtain ⟨s, hrun⟩ := GetImageServiceImpl.run_invoke host.system name t
  rw [answer, StorageRequest.answer, StorageRequest.invoke, hrun, Host.loadFile_eq hcwd]
  rcases (StorageService.loadFile host.system name.text).run t with ⟨e | content, t'⟩ <;> rfl

end StorageCall

end Ssoa
