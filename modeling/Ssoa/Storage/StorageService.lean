import Ssoa.Lib.FileTree
import Ssoa.Lib.Throwing
import Ssoa.Storage.Path
import Mathlib.Data.Set.List

/-!
# The storage folder

`StorageService` keeps images as files in a folder, under their names. The member functions are
transcribed over a tree of files. What the system decides is a parameter: the exceptions it throws,
and the order in which it lists a folder.

A lock makes the functions atomic. `setPath` is not in the model: nothing calls it, so the folder is
`database`.

## Main results

* `StorageService.saveFile_cases`, `StorageService.loadFile_cases` — saving and loading an image,
  and when that succeeds
* `StorageService.getList_eq` — what is listed when all files are images
-/

namespace Ssoa

/-- The files of the host, below the directory the provider runs in. -/
abbrev FileSystem := FileTree Text (List Byte)

/-- What the system throws when a folder cannot be made, a path is not a folder, or a folder is read
as a file; the text of `errno`; and the order in which a walk visits entries. -/
structure System where
  createDirectory : Text → Exn
  notFolder : Text → Exn
  readFolder : Text → Exn
  strerror : Text
  order : List (List Text × Entry (List Byte)) → List (List Text × Entry (List Byte))
  order_perm : ∀ l, (order l).Perm l

namespace StorageService

def path : Text := txt "database"

/-- Where the system looks for a path, whose `c_str()` it is given. -/
def location (p : Text) : List Text := Path.components (cstr p)

/-- `exists`. -/
def existsAt (t : FileSystem) (p : Text) : Bool := (t.lookup (location p)).isSome

/-- `create_directory`. -/
def createDirectory (sys : System) (p : Text) : Throwing FileSystem Exn Bool := do
  let t ← get
  match t.createFolder (location p) with
  | some t' => set t'; return true
  | none => if t.isFolder (location p) then return false else throw (sys.createDirectory p)

/-- The path of an entry, as the iterator makes it from the path where it starts. -/
def entryPath (location : List Text) : Text :=
  (location.drop (StorageService.location path).length).foldl Path.append path

/-- The path of an entry without the base path. Normalising the base path does not change it. -/
def relativePath (p : Text) : Text :=
  (Path.stripBase (Path.components path) (Path.components p)).foldl Path.append []

def getList (sys : System) : Throwing FileSystem Exn (List Text) := do
  let t ← get
  match t.lookup (location path) with
  | none => return []
  | some (.file _) => throw (sys.notFolder path)
  | some .folder =>
    let visited := sys.order (t.below (location path))
    return (visited.filter fun x => x.2.isFile).map fun x => relativePath (entryPath x.1)

def loadFile (sys : System) (filename : Text) : Throwing FileSystem Exn (List Byte) := do
  let fullPath := Path.append path filename
  let t ← get
  if existsAt t fullPath = false then
    throw (.runtime (txt "The specified file '" ++ cstr fullPath ++ txt "' does not exist."))
  else
    match t.readFile (location fullPath) with
    | some content => return content
    | none => throw (sys.readFolder fullPath)

/-- The first part of `saveFile`: the folder of the file is made if it is not there. -/
def makeParent (sys : System) (parent : Text) : Throwing FileSystem Exn Unit := do
  let t ← get
  if existsAt t parent then return ()
  else
    let created ← createDirectory sys parent
    if created then return ()
    else throw (.runtime (txt "Cannot create folder '" ++ cstr parent ++ txt "'."))

def saveFile (sys : System) (filename : Text) (buffer : List Byte) :
    Throwing FileSystem Exn Unit := do
  let fullPath := Path.append path filename
  makeParent sys (Path.parentPath fullPath)
  let t ← get
  match t.writeFile (location fullPath) buffer with
  | some t' => set t'
  | none => throw (.runtime (txt "Cannot write file '" ++ cstr fullPath ++ txt "' (" ++
      sys.strerror ++ txt ")."))

/-! ### Where images are -/

/-- Where an image is. -/
def place (name : ImageName) : List Text := txt "database" :: name.components

theorem ordinary_database : Ordinary (txt "database") := by decide

theorem ordinary_place (name : ImageName) : ∀ c ∈ place name, Ordinary c := by
  rintro c (_ | ⟨_, hc⟩)
  · exact ordinary_database
  · exact name.ordinary c hc

theorem path_eq_join : path = Path.join [txt "database"] := by decide

theorem append_path (name : ImageName) : Path.append path name.text = Path.join (place name) := by
  rw [path_eq_join, ImageName.text,
    Path.append_join (by simpa using ordinary_database) name.ordinary]
  rfl

theorem location_join {cs : List Text} (h : ∀ c ∈ cs, Ordinary c) :
    location (Path.join cs) = cs := by
  rw [location, Path.cstr_join h, Path.components_join h]

theorem location_path : location path = [txt "database"] := by
  rw [path_eq_join, location_join (by simpa using ordinary_database)]

@[simp] theorem location_append (name : ImageName) :
    location (Path.append path name.text) = place name := by
  rw [append_path, location_join (ordinary_place name)]

theorem place_injective : Function.Injective place := by
  intro name name' h
  refine ImageName.text_injective ?_
  rw [ImageName.text, ImageName.text, (List.cons.inj h).2]

/-- The name of an image is what the list says of its entry. -/
theorem relativePath_entryPath (name : ImageName) :
    relativePath (entryPath (place name)) = name.text := by
  have hentry : entryPath (place name) = Path.join (place name) := by
    rw [entryPath, location_path]
    show name.components.foldl Path.append path = _
    rw [path_eq_join, Path.foldl_append (by simpa using ordinary_database) name.ordinary]
    rfl
  have hpath : Path.components path = [txt "database"] := by
    rw [path_eq_join, Path.components_join (by simpa using ordinary_database)]
  rw [relativePath, hentry, Path.components_join (ordinary_place name), hpath]
  show (Path.stripBase [txt "database"] ([txt "database"] ++ name.components)).foldl _ [] = _
  rw [Path.stripBase_append]
  exact Path.foldl_append (fun _ hc => absurd hc List.not_mem_nil) name.ordinary

/-! ### What the functions do -/

variable {sys : System} {t : FileSystem}

/-- The folder of a file is there, or is made, or cannot be made. -/
theorem makeParent_cases (sys : System) (parent : Text) (t : FileSystem) :
    (t.lookup (location parent) ≠ none ∧ (makeParent sys parent).run t = (.ok (), t)) ∨
    (∃ t', t.createFolder (location parent) = some t' ∧
      (makeParent sys parent).run t = (.ok (), t')) ∨
    t.lookup (location parent) = none ∧ (¬ ∃ t', t.createFolder (location parent) = some t') ∧
      ∃ e, (makeParent sys parent).run t = (.error e, t) := by
  rw [makeParent, Throwing.run_get_bind, Throwing.run_ite, existsAt]
  cases hlookup : t.lookup (location parent) with
  | some e => exact .inl ⟨by simp, rfl⟩
  | none =>
    right
    cases hcreate : t.createFolder (location parent) with
    | some t' =>
      have hrun : (createDirectory sys parent).run t = (.ok true, t') := by
        rw [createDirectory, Throwing.run_get_bind, hcreate]
        rfl
      exact .inl ⟨t', rfl, Throwing.run_bind_of_ok hrun⟩
    | none =>
      have hfolder : t.isFolder (location parent) = false := by
        rw [FileTree.isFolder, hlookup]
      have hrun : (createDirectory sys parent).run t =
          (.error (sys.createDirectory parent), t) := by
        rw [createDirectory, Throwing.run_get_bind, hcreate]
        simp [hfolder]
      exact .inr ⟨rfl, by simp, _, Throwing.run_bind_of_error hrun⟩

/-- An image can be stored under the name: the folder it is in is there, or can be made in one that
is, and there is no folder where the image is to be. -/
def Storable (t : FileSystem) (name : ImageName) : Prop :=
  (t.lookup (place name).dropLast = some .folder ∨ t.lookup (place name).dropLast = none ∧
    t.lookup (place name).dropLast.dropLast = some .folder) ∧
  t.lookup (place name) ≠ some .folder

/-- The folder in which an image is. -/
theorem parentPath_append (name : ImageName) :
    Path.parentPath (Path.append path name.text) = Path.join (place name).dropLast := by
  have hsplit : (txt "database" :: name.components.dropLast) ++
      [name.components.getLast name.ne_nil] = place name := by
    rw [List.cons_append, List.dropLast_append_getLast]
    rfl
  have hordinary := ordinary_place name
  rw [← hsplit] at hordinary
  rw [append_path, ← hsplit, Path.parentPath_join (List.cons_ne_nil _ _) hordinary,
    List.dropLast_concat]

theorem location_parent (name : ImageName) :
    location (Path.parentPath (Path.append path name.text)) = (place name).dropLast := by
  rw [parentPath_append, location_join]
  exact fun c hc => ordinary_place name c (List.mem_of_mem_dropLast hc)

/-- With the folder there, or made, the file can be written exactly if the name is storable. -/
theorem makeParent_storable (sys : System) (name : ImageName) (buffer : List Byte)
    (t : FileSystem) :
    let parent := Path.parentPath (Path.append path name.text)
    (¬ Storable t name ∧ ∃ e, (makeParent sys parent).run t = (.error e, t)) ∨
    ∃ t', (makeParent sys parent).run t = (.ok (), t') ∧ (∀ p, t'.readFile p = t.readFile p) ∧
      ((∃ u, t'.writeFile (place name) buffer = some u) ↔ Storable t name) := by
  intro parent
  have hparent : location parent = (place name).dropLast := location_parent name
  rcases makeParent_cases sys parent t with
    ⟨hthere, hrun⟩ | ⟨t', hcreate, hrun⟩ | ⟨hnone, hcreate, hrun⟩
  · refine .inr ⟨t, hrun, fun _ => rfl, FileTree.exists_writeFile_iff.trans ?_⟩
    rw [hparent] at hthere
    simp [Storable, hthere]
  · refine .inr ⟨t', hrun, FileTree.readFile_createFolder hcreate,
      FileTree.exists_writeFile_iff.trans ?_⟩
    obtain ⟨hnone, hfolder⟩ := FileTree.exists_createFolder_iff.mp ⟨t', hcreate⟩
    have hne : place name ≠ (place name).dropLast := fun heq => by
      have hlen := congrArg List.length heq
      rw [List.length_dropLast] at hlen
      simp [place] at hlen
    rw [hparent] at hnone hfolder hcreate
    rw [FileTree.lookup_createFolder hcreate, FileTree.lookup_createFolder hcreate, if_pos rfl,
      if_neg hne]
    simp [Storable, hnone, hfolder]
  · refine .inl ⟨?_, hrun⟩
    rw [FileTree.exists_createFolder_iff, hparent] at hcreate
    rw [hparent] at hnone
    rintro ⟨hthere | hfolder, -⟩
    · rw [hnone] at hthere
      cases hthere
    · exact hcreate hfolder

/-- **Saving an image** under a storable name changes the content of its file and of no other; under
another name it throws and changes no content. -/
theorem saveFile_cases (sys : System) (name : ImageName) (buffer : List Byte) (t : FileSystem) :
    (¬ Storable t name ∧ ∃ e t', (saveFile sys name.text buffer).run t = (.error e, t') ∧
      ∀ p, t'.readFile p = t.readFile p) ∨
    (Storable t name ∧ ∃ t', (saveFile sys name.text buffer).run t = (.ok (), t') ∧
      ∀ p, t'.readFile p = if p = place name then some buffer else t.readFile p) := by
  rw [saveFile]
  rcases makeParent_storable sys name buffer t with ⟨hno, e, hrun⟩ | ⟨t', hrun, hsame, hwritable⟩
  · exact .inl ⟨hno, e, t, Throwing.run_bind_of_error hrun, fun _ => rfl⟩
  · rw [Throwing.run_bind_of_ok hrun, Throwing.run_get_bind, location_append]
    cases hwrite : t'.writeFile (place name) buffer with
    | none => exact .inl ⟨fun h => by simpa [hwrite] using hwritable.mpr h, _, t', rfl, hsame⟩
    | some u =>
      refine .inr ⟨hwritable.mp ⟨u, hwrite⟩, u, rfl, fun p => ?_⟩
      rw [FileTree.readFile_writeFile hwrite, hsame]

/-- **Loading an image** returns the content of its file, or throws when there is none. -/
theorem loadFile_cases (sys : System) (name : ImageName) (t : FileSystem) :
    (∃ content, t.readFile (place name) = some content ∧
      (loadFile sys name.text).run t = (.ok content, t)) ∨
    (t.readFile (place name) = none ∧ ∃ e, (loadFile sys name.text).run t = (.error e, t)) := by
  rw [loadFile, Throwing.run_get_bind, existsAt, location_append]
  cases hread : t.readFile (place name) with
  | some content =>
    have hsome : (t.lookup (place name)).isSome = true := by
      rw [FileTree.readFile_eq_some.mp hread, Option.isSome_some]
    exact .inl ⟨content, rfl, by simp [hsome]⟩
  | none =>
    refine .inr ⟨rfl, ?_⟩
    cases hsome : (t.lookup (place name)).isSome with
    | true => exact ⟨_, rfl⟩
    | false => exact ⟨_, rfl⟩

/-- The files of the storage folder are images. -/
def OnlyImages (t : FileSystem) : Prop :=
  ∀ cs content, t.readFile (txt "database" :: cs) = some content →
    ∃ name : ImageName, cs = name.components

/-- The entries of the files in the storage folder, as a walk visits them. -/
def files (sys : System) (t : FileSystem) : List (List Text) :=
  ((sys.order (t.below [txt "database"])).filter fun x => x.2.isFile).map Prod.fst

theorem nodup_files (sys : System) (t : FileSystem) : (files sys t).Nodup := by
  have hperm := (sys.order_perm (t.below [txt "database"])).map Prod.fst
  exact (hperm.nodup_iff.mpr (t.nodup_below _)).sublist (List.filter_sublist.map _)

theorem mem_files {cs : List Text} : cs ∈ files sys t ↔
    ∃ rest content, rest ≠ [] ∧ cs = txt "database" :: rest ∧ t.readFile cs = some content := by
  have hbelow : ∀ x, x ∈ sys.order (t.below [txt "database"]) ↔ x ∈ t.below [txt "database"] :=
    fun x => (sys.order_perm _).mem_iff
  rw [files, List.mem_map]
  constructor
  · rintro ⟨⟨cs, e⟩, hx, rfl⟩
    obtain ⟨hx, hfile⟩ := List.mem_filter.mp hx
    obtain ⟨rest, hrest, rfl, hlookup⟩ := FileTree.mem_below.mp ((hbelow _).mp hx)
    cases e with
    | folder => cases hfile
    | file content => exact ⟨rest, content, hrest, rfl, FileTree.readFile_eq_some.mpr hlookup⟩
  · rintro ⟨rest, content, hrest, rfl, hread⟩
    refine ⟨(_, .file content), List.mem_filter.mpr ⟨(hbelow _).mpr ?_, rfl⟩, rfl⟩
    exact FileTree.mem_below.mpr ⟨rest, hrest, rfl, FileTree.readFile_eq_some.mp hread⟩

/-- **What is listed** is every image once, under its name. -/
theorem getList_eq (sys : System) {t : FileSystem} (h : OnlyImages t) : ∃ names : List ImageName,
    names.Nodup ∧ (∀ name, name ∈ names ↔ t.readFile (place name) ≠ none) ∧
      (getList sys).run t = (.ok (names.map ImageName.text), t) := by
  rw [getList, Throwing.run_get_bind, location_path]
  cases hbase : t.lookup [txt "database"] with
  | none =>
    -- there is nothing below a path that does not exist
    refine ⟨[], List.nodup_nil, fun name => ?_, rfl⟩
    refine ⟨fun hmem => absurd hmem List.not_mem_nil, fun hread => ?_⟩
    obtain ⟨content, hread⟩ := Option.ne_none_iff_exists'.mp hread
    have hfolder : t.lookup [txt "database"] = some .folder :=
      FileTree.lookup_of_prefix name.ne_nil (FileTree.readFile_eq_some.mp hread)
    rw [hbase] at hfolder
    cases hfolder
  | some e =>
  cases e with
  | file content =>
    obtain ⟨name, hname⟩ := h [] content (FileTree.readFile_eq_some.mpr hbase)
    exact absurd hname.symm name.ne_nil
  | folder =>
    have himages : ∀ cs ∈ files sys t, cs ∈ Set.range place := by
      intro cs hcs
      obtain ⟨rest, content, -, rfl, hread⟩ := mem_files.mp hcs
      obtain ⟨name, rfl⟩ := h rest content hread
      exact ⟨name, rfl⟩
    obtain ⟨names, hnames⟩ : ∃ names : List ImageName, names.map place = files sys t := by
      have hrange : files sys t ∈ Set.range (List.map place) := by
        rw [Set.range_list_map]
        exact himages
      exact hrange
    refine ⟨names, ?_, fun name => ?_, ?_⟩
    · exact List.Nodup.of_map place (hnames ▸ nodup_files sys t)
    · rw [← List.mem_map_of_injective place_injective, hnames, mem_files]
      constructor
      · rintro ⟨rest, content, -, -, hread⟩
        simp [hread]
      · intro hread
        obtain ⟨content, hread⟩ := Option.ne_none_iff_exists'.mp hread
        exact ⟨name.components, content, name.ne_nil, rfl, hread⟩
    · have htexts : names.map ImageName.text =
          (files sys t).map fun cs => relativePath (entryPath cs) := by
        rw [← hnames, List.map_map]
        exact List.map_congr_left fun name _ => (relativePath_entryPath name).symm
      rw [htexts, files, List.map_map]
      rfl

end StorageService

end Ssoa
