import Ssoa.Storage.BasePath
import Mathlib.Data.List.DropRight

/-!
# Images on the disk of a client

A client looks for images in a folder of its own. The name it stores one under is what is left of
its path when the path of the folder has been skipped.

The folder does not change while the client runs.

## Main results

* `Normalization.loops_stay_inside` — the loop that skips the folder stays in the path of the file
* `Disk.Plain.filename_eq` — the name of an image is its place below the folder
-/

namespace Ssoa

/-- `toupper` of one character. -/
def toUpper (b : Byte) : Byte := if 97 ≤ b ∧ b ≤ 122 then b - 32 else b

/-- `boost::iequals`. -/
def iequals (a b : Text) : Bool := a.map toUpper = b.map toUpper

namespace Path

/-- `extension()`: what the last element has from its last dot on. -/
def extension (p : Text) : Text :=
  let name := (elements p).getLast?.getD []
  let behind := name.rtakeWhile fun b => b ≠ chr '.'
  if name = txt "." ∨ name = txt ".." ∨ behind = name then [] else chr '.' :: behind

example : ["a/b.tar.JPG", "a.jpg/b", ".."].map (fun p => extension (txt p)) =
    [txt ".JPG", [], []] := by decide

end Path

/-- A regular file below the folder: the names that lead to it, and its content, if it can be
opened. -/
structure DiskFile where
  name : ImageName
  content : Option (List Byte)

/-- The disk of a client: what `recursive_directory_iterator` finds in `imageFolder`, or throws, and
what `resize` throws when a file cannot be opened, so that its size is -1. -/
structure Disk where
  imageFolder : Text
  norm : Normalization
  found : Except Exn (List DiskFile)
  resize : Exn

namespace Disk

open Ssoa.Path

variable (disk : Disk)

/-- The path that the iterator makes for a file. -/
def path (file : DiskFile) : Text := file.name.components.foldl append disk.imageFolder

/-- What is put into `files`. -/
def files : Except Exn (List DiskFile) :=
  disk.found.map fun found =>
    found.filter fun file => iequals (cstr (extension (disk.path file))) (txt ".jpg")

/-- `filename`. There always is one (`Normalization.loops_stay_inside`). -/
def filename (file : DiskFile) : Text :=
  (disk.norm.filename disk.imageFolder (disk.path file)).getD []

/-- The second half of `readRandomFileFromDisk`. -/
def read (file : DiskFile) : Except Exn (Text × List Byte) :=
  match file.content with
  | some content => .ok (disk.filename file, content)
  | none => .error disk.resize

end Disk

namespace Path

variable {skip combined base names : List Text}

/-- The loop does not look behind the last element if there are more of them, dots aside, than are
to be skipped. -/
theorem skipLoop_ne_none (h : (withoutDots skip).length < (withoutDots combined).length) :
    skipLoop skip combined ≠ none := by
  fun_induction skipLoop skip combined with
  | case1 combined => exact Option.some_ne_none combined
  | case2 s skip =>
    rw [show withoutDots [] = [] from rfl] at h
    exact absurd h (Nat.not_lt_zero _)
  | case3 skip c combined ih =>
    refine ih ?_
    by_cases hc : c = txt "."
    · rwa [hc, withoutDots_cons_dot, withoutDots_cons_dot] at h
    · rw [withoutDots_cons hc, withoutDots_cons hc] at h
      exact Nat.lt_of_succ_lt_succ h
  | case4 skip c combined hne ih =>
    rw [withoutDots_cons_dot] at h
    exact ih h
  | case5 s skip combined hne hs ih =>
    rw [withoutDots_cons_dot] at h
    exact ih h
  | case6 s skip c combined hne hs hc => exact Option.some_ne_none _

end Path

namespace Normalization

open Ssoa.Path Neighbours

variable {norm : Normalization} {base : Text} {names : List Text}

theorem withoutDots_of_ordinary (h : ∀ c ∈ names, Ordinary c) : withoutDots names = names :=
  List.filter_eq_self.mpr fun c hc => by simpa using (h c hc).not_dot

/-- The path of a file has more elements, dots aside, than what is to be skipped. -/
theorem relativePath_ne_none (norm : Normalization) (hbase : base ≠ []) (hnames : names ≠ [])
    (hordinary : ∀ c ∈ names, Ordinary c) :
    norm.relativePath base (names.foldl append base) ≠ none := by
  have hp := extends_foldl hbase hnames hordinary
  rcases elements_of_extends hp hnames with rfl | ⟨before, hbefore, helements⟩
  · have hirredundant : norm.Irredundant [slash, slash] := List.isChain_singleton _
    obtain ⟨r, hr, -⟩ := skips_of_irredundant hbase hnames hordinary hp hirredundant
    exact hr ▸ Option.some_ne_none r
  · have hskip : (withoutDots (norm.normalized base)).length ≤ (withoutDots before).length := by
      rw [norm.withoutDots_normalized, hbefore]
      exact length_cancel_le _ _
    have hlonger : (withoutDots before).length < (withoutDots (elements (names.foldl append
        base))).length := by
      have hpos : 0 < names.length := List.length_pos_of_ne_nil hnames
      rcases helements with helements | helements
      · rw [helements, withoutDots_append, withoutDots_of_ordinary hordinary, List.length_append]
        omega
      · rw [helements, withoutDots_append, withoutDots_cons (by decide),
          withoutDots_of_ordinary hordinary, List.length_append, List.length_cons]
        omega
    exact mt Option.map_eq_none_iff.mp (skipLoop_ne_none (Nat.lt_of_le_of_lt hskip hlonger))

/-- **Neither loop leaves the path of the file**, whatever the path of the folder is and whatever
normalising makes of it: they never look at an element behind the last. -/
theorem loops_stay_inside (norm : Normalization) (base : Text) (hbase : base ≠ [])
    (hzero : 0 ∉ base) (names : List Text) (hnames : names ≠ [])
    (hordinary : ∀ c ∈ names, Ordinary c) :
    let p := names.foldl append base
    norm.files base p ≠ none ∧ norm.filename base p ≠ none := by
  intro p
  have hcstr : cstr p = p := cstr_eq_self (zero_not_mem_foldl hbase hzero hordinary)
  rw [files, filename, hcstr]
  exact ⟨norm.relativePath_ne_none hbase hnames hordinary,
    norm.relativePath_ne_none hbase hnames hordinary⟩

/-- The folder of an image whose path is not skipped. -/
theorem loops_stay_inside_sample :
    sampleNormalization.files (txt "a/../b") (txt "a/../b/x") ≠ none ∧
      sampleNormalization.filename (txt "a/../b") (txt "a/../b/x") ≠ none :=
  sampleNormalization.loops_stay_inside (txt "a/../b") (by decide) (by decide) [txt "x"]
    (by decide) (by decide)

end Normalization

/-! ### Folders without dots -/

namespace Disk

open Ssoa.Path Neighbours

variable {disk : Disk}

/-- The path of the folder is not empty and has no `.` in it, no name that normalising takes out,
and not exactly two slashes at its beginning. -/
structure Plain (disk : Disk) : Prop where
  ne_nil : disk.imageFolder ≠ []
  no_nul : 0 ∉ disk.imageFolder
  no_dot : txt "." ∉ components disk.imageFolder
  irredundant : disk.norm.Irredundant disk.imageFolder
  no_host : (disk.imageFolder.takeWhile fun b => b = slash).length ≠ 2

/-- **The name of an image** is its place below the folder. -/
theorem Plain.filename_eq (h : disk.Plain) (file : DiskFile) :
    disk.filename file = file.name.text := by
  have hp := extends_foldl h.ne_nil file.name.ne_nil file.name.ordinary
  let before := (if disk.imageFolder.head? = some slash then [[slash]] else []) ++
    components disk.imageFolder
  have helements : elements (disk.path file) = before ++ file.name.components := by
    rw [path, elements, hp.slashes, if_neg h.no_host, hp.head, hp.components,
      trailing_of_last hp.last, List.append_nil, List.append_assoc]
  have hbase : elements disk.imageFolder =
      before ++ trailing disk.imageFolder (components disk.imageFolder) := by
    rw [elements, if_neg h.no_host]
  have hdots : txt "." ∉ before := by
    intro hmem
    rcases List.mem_append.mp hmem with hmem | hmem
    · split at hmem
      · exact absurd (List.mem_singleton.mp hmem) (by decide)
      · cases hmem
    · exact h.no_dot hmem
  have hskip : withoutDots (disk.norm.normalized disk.imageFolder) = withoutDots before := by
    rw [disk.norm.withoutDots_normalized, cancel_of_reduced h.irredundant, hbase,
      withoutDots_append, withoutDots_trailing, List.append_nil]
  obtain ⟨dots, hskipped, hloop⟩ := skipLoop_of_withoutDots hskip file.name.ne_nil fun hhead =>
    (file.name.ordinary _ (List.mem_of_mem_head? hhead)).not_dot rfl
  obtain rfl : dots = [] := List.eq_nil_iff_forall_not_mem.mpr fun d hd =>
    hdots ((hskipped d hd).1 ▸ (hskipped d hd).2)
  have hcstr : cstr (disk.path file) = disk.path file :=
    cstr_eq_self (Normalization.zero_not_mem_foldl h.ne_nil h.no_nul file.name.ordinary)
  rw [Disk.filename, Normalization.filename, hcstr, Normalization.relativePath, helements, hloop,
    Option.map_some, Option.getD_some]
  exact foldl_append (fun _ hc => absurd hc List.not_mem_nil) file.name.ordinary

end Disk

end Ssoa
