import Ssoa.Storage.Host

/-!
# Storing over an image

`saveFile` opens the file of an image, which truncates it, and then writes to it. When it throws
before that, what can be loaded stays as it was. When writing fails, the old image is lost, and what
was written until then is loaded in its place. Other files stay.

## Main results

* `Host.loads_of_saveFile_error` — what is loaded after saving has failed
* `Host.not_kept` — an image that is lost
-/

namespace Ssoa

namespace Host

open FileTree Throwing

/-- The bytes are loaded under the name. -/
def Loads (host : Host) (t : FileSystem) (name : Text) (content : List Byte) : Prop :=
  (host.loadFile name).run t = (.ok content, t)

/-- The names refer to the same file. -/
def SameFile (host : Host) (t : FileSystem) (name other : Text) : Prop :=
  host.resolve t (Path.append StorageService.path name) =
    host.resolve t (Path.append StorageService.path other)

variable {host : Host} {t t' : FileSystem} {p name filename : Text} {content buffer : List Byte}
  {writing : Writing} {location : List Text} {e : Exn}

theorem loads_iff : host.Loads t name content ↔
    ∃ location, host.resolve t (Path.append StorageService.path name) = some location ∧
      t.readFile location = some content := by
  rw [Loads, loadFile, run_get_bind, existsAt]
  cases hresolve : host.resolve t (Path.append StorageService.path name) with
  | none => simp
  | some location =>
    cases hlookup : t.lookup location with
    | none => simp [readFile, hlookup]
    | some entry =>
      cases entry with
      | folder => simp [readFile, hlookup]
      | file content' => simp [readFile, hlookup]

/-- Folders are still there. -/
def Keeps (t t' : FileSystem) : Prop := ∀ q, t.lookup q = some .folder → t'.lookup q = some .folder

theorem keeps_createFolder (h : t.createFolder location = some t') : Keeps t t' := by
  intro q hq
  rw [lookup_createFolder h, hq, ite_self]

theorem keeps_writeFile (h : t.writeFile location content = some t') : Keeps t t' := by
  intro q hq
  have hne : q ≠ location := by
    rintro rfl
    exact (exists_writeFile_iff.mp ⟨t', h⟩).2 hq
  rw [lookup_writeFile h, if_neg hne, hq]

/-- A path refers to the same place as long as folders stay. -/
theorem resolve_mono (hkeeps : Keeps t t') (h : host.resolve t p = some location) :
    host.resolve t' p = some location := by
  rw [resolve, follow] at h ⊢
  split at h
  · cases h
  · next hne => rw [if_neg hne, walk_mono hkeeps h]

/-- Between the trees at most folders were made. -/
structure Grows (t t' : FileSystem) : Prop where
  keeps : Keeps t t'
  same : ∀ q, t'.readFile q = t.readFile q

theorem Grows.refl (t : FileSystem) : Grows t t := ⟨fun _ hq => hq, fun _ => rfl⟩

theorem Grows.loads (h : Grows t t') (hloads : host.Loads t name content) :
    host.Loads t' name content := by
  obtain ⟨location, hresolve, hread⟩ := loads_iff.mp hloads
  exact loads_iff.mpr ⟨location, resolve_mono h.keeps hresolve, by rw [h.same, hread]⟩

theorem grows_createDirectory (host : Host) (p : Text) (t : FileSystem) :
    Grows t ((host.createDirectory p).run t).2 := by
  rw [createDirectory, run_get_bind]
  cases host.follow t (cstr p) (Path.route (cstr p)) with
  | none => exact .refl t
  | some location =>
    dsimp only
    cases hcreate : t.createFolder location with
    | some t' => exact ⟨keeps_createFolder hcreate, readFile_createFolder hcreate⟩
    | none =>
      rw [run_ite]
      split
      · exact .refl t
      · exact .refl t

/-- Making the folder of a file makes at most a folder, whether or not it throws. -/
theorem grows_makeParent (host : Host) (p : Text) (t : FileSystem) :
    Grows t ((host.makeParent p).run t).2 := by
  rw [makeParent, run_get_bind, run_ite]
  split
  · exact .refl t
  · have hgrows := grows_createDirectory host p t
    rcases hrun : (host.createDirectory p).run t with ⟨e | created, t'⟩ <;> rw [hrun] at hgrows
    · rw [run_bind_of_error hrun]
      exact hgrows
    · rw [run_bind_of_ok hrun, run_ite]
      split
      · exact hgrows
      · exact hgrows

/-- **When saving fails,** what was loaded before is loaded as before, or else writing has failed
after some bytes, which are loaded now, and no other file has changed. -/
theorem loads_of_saveFile_error (host : Host) (writing : Writing) (filename : Text)
    (buffer : List Byte) (t t' : FileSystem) (e : Exn)
    (h : (host.saveFile writing filename buffer).run t = (.error e, t')) :
    (∀ name content, host.Loads t name content → host.Loads t' name content) ∨
    ∃ k, writing = .stopped k ∧ host.Loads t' filename (buffer.take k) ∧
      ∀ name content, ¬ host.SameFile t' name filename → host.Loads t name content →
        host.Loads t' name content := by
  rw [saveFile] at h
  set fullPath := Path.append StorageService.path filename
  have hgrows := grows_makeParent host (Path.parentPath fullPath) t
  rcases hrun : (host.makeParent (Path.parentPath fullPath)).run t with ⟨e' | ⟨⟩, u⟩ <;>
    rw [hrun] at hgrows
  · -- the folder cannot be made
    rw [run_bind_of_error hrun] at h
    obtain rfl := (Prod.mk.inj h).2
    exact .inl fun _ _ => hgrows.loads
  rw [run_bind_of_ok hrun, run_get_bind] at h
  cases hwrite : host.write writing u fullPath buffer with
  | none =>
    -- the file cannot be opened
    rw [hwrite] at h
    obtain rfl := (Prod.mk.inj h).2
    exact .inl fun _ _ => hgrows.loads
  | some u' =>
    rw [hwrite, run_set_bind, run_ite] at h
    obtain ⟨location, hresolve, hcontent⟩ := Option.bind_eq_some_iff.mp hwrite
    obtain ⟨written, hwritten, hfile⟩ := Option.bind_eq_some_iff.mp hcontent
    have hresolve' := resolve_mono (keeps_writeFile hfile) hresolve
    cases writing with
    | complete => cases h
    | notOpened => cases hwritten
    | stopped k =>
      obtain rfl : buffer.take k = written := Option.some.inj hwritten
      obtain rfl : u' = t' := (Prod.mk.inj h).2
      refine .inr ⟨k, rfl, loads_iff.mpr ⟨location, hresolve', ?_⟩,
        fun name content hother hloads => ?_⟩
      · rw [readFile_writeFile hfile, if_pos rfl]
      · obtain ⟨place, hplace, hread⟩ := loads_iff.mp (hgrows.loads hloads)
        have hplace' := resolve_mono (keeps_writeFile hfile) hplace
        have hne : place ≠ location := by
          rintro rfl
          exact hother (hplace'.trans hresolve'.symm)
        refine loads_iff.mpr ⟨place, hplace', ?_⟩
        rw [readFile_writeFile hfile, if_neg hne, hread]

/-- The folder with an image. -/
def stored : FileSystem where
  entries := [([txt "srv"], .folder), ([txt "srv", txt "database"], .folder),
    ([txt "srv", txt "database", txt "a"], .file (txt "xyz")),
    ([txt "srv", txt "database", txt "b"], .file (txt "b"))]
  nodup := by decide
  ne_nil := by simp
  parents := by simp

/-- What is thrown when writing fails there. -/
def failed : Exn := .runtime (txt "Cannot write file 'database/a' (Is a directory).")

/-- **Writing fails after two bytes**: another image stays. -/
theorem loads_of_saveFile_error_sample :
    let saved := (sampleHost.saveFile (.stopped 2) (txt "a") (txt "new")).run stored
    sampleHost.Loads saved.2 (txt "b") (txt "b") := by
  intro saved
  rcases loads_of_saveFile_error sampleHost (.stopped 2) (txt "a") (txt "new") stored _ failed rfl
    with h | ⟨k, -, -, h⟩
  · exact h _ _ rfl
  · exact h _ _ (by rw [SameFile]; decide +kernel) rfl

/-- **An image that is lost**: writing fails at once. -/
theorem not_kept : ∃ t', sampleHost.Loads stored (txt "a") (txt "xyz") ∧
    (sampleHost.saveFile (.stopped 0) (txt "a") (txt "new")).run stored = (.error failed, t') ∧
    ¬ sampleHost.Loads t' (txt "a") (txt "xyz") ∧ sampleHost.Loads t' (txt "a") [] := by
  have hlost : sampleHost.Loads
      ((sampleHost.saveFile (.stopped 0) (txt "a") (txt "new")).run stored).2 (txt "a") [] := rfl
  refine ⟨_, rfl, rfl, fun hloads => ?_, hlost⟩
  have hcontent : txt "xyz" = [] := Except.ok.inj (congrArg Prod.fst (hloads.symm.trans hlost))
  cases hcontent

end Host

end Ssoa
