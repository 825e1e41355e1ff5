import Ssoa.Image.CImg
import Ssoa.Lib.Cells
import Ssoa.Storage.Host

/-!
# Temporary files

The CImg library reads and writes files only. So `ImageHelper` saves an image in a temporary file,
loads it, saves it again when it has been turned or mirrored, reads the file and removes it. Every
call uses a file of its own, whose name `unique_path()` makes up.

The functions are transcribed step by step. Any attempt to open the file or to write to it may fail;
when it is open, it can be read. When an exception is thrown, nobody removes the file. CImg has
libjpeg throw when it cannot load an image, but not when it cannot save one: if libjpeg refuses the
image then, because it is too large, or if a write fails, it ends the process.

Parameters stand for the JPEG library, what CImg does with floating-point numbers, and the system. A
`CImgException` is told from other exceptions by its text only.

## Main results

* `ImageHelper.run_manipulate` — what a call returns, and what is in its file then
* `ImageHelper.left_eq_none_iff` — a file that has been opened is gone if and only if the call has
  returned
-/

namespace Ssoa

/-- The JPEG library, the part of CImg that computes with floating-point numbers, and what the
system has and throws. -/
structure ImageSystem (T : Type) where
  /-- The image in a file with this name and content. -/
  loadJpeg : Text → List Byte → Except Exn (CImg T)
  /-- The file that is made of an image which is not empty, unless libjpeg refuses it. -/
  jpeg : CImg T → Option (List Byte)
  /-- `rotate`, if the angle is not a multiple of 90 degrees. -/
  generic : ℤ → CImg T → CImg T
  temporaryFolder : Except Exn Text
  strerror : Text
  /-- What `resize` throws when a file cannot be opened, so that its size is -1. -/
  resize : Exn

/-- What the system decides for one call: the name of the temporary file, and what becomes of the
attempts to write it, to load it, to save it again and to read it. -/
structure Attempt where
  unique : Text
  writing : Writing := .complete
  loading : Bool := true
  saving : Writing := .complete
  reading : Bool := true

/-- `(float)value`: a whole number of at most 24 binary digits, and zeros after them. -/
def floatOfInt (value : BitVec 32) : ℤ :=
  let n := value.toInt
  let unit := 2 ^ (n.natAbs.log2 - 23)
  let quotient := n.natAbs / unit
  let rest := n.natAbs % unit
  let rounded :=
    if 2 * rest < unit ∨ 2 * rest = unit ∧ quotient % 2 = 0 then quotient else quotient + 1
  n.sign * (rounded * unit)

example : [359, 16777217, 16777219].map (floatOfInt ∘ BitVec.ofNat 32) =
    [359, 16777216, 16777220] := by decide

namespace ImageHelper

open Routine

variable {T : Type}

/-- A function that works on the temporary file step by step. -/
abbrev Stepwise := ExceptT Exn (Routine (Option (List Byte)))

namespace Stepwise

/-- The file has this content now, or is gone. -/
def put (content : Option (List Byte)) : Stepwise Unit := atomically (set content)

/-- The content of the file, if it is there. -/
def content : Stepwise (Option (List Byte)) := atomically get

/-- The content of the file, if a stream can be opened to read it. -/
def read (opened : Bool) : Stepwise (Option (List Byte)) := if opened then content else pure none

end Stepwise

def cannotWrite (sys : ImageSystem T) (filename : Text) : Exn :=
  .runtime (txt "Cannot write file '" ++ filename ++ txt "' (" ++ sys.strerror ++ txt ").")

def cannotRead (sys : ImageSystem T) (filename : Text) : Exn :=
  .runtime (txt "Cannot read file '" ++ filename ++ txt "' (" ++ sys.strerror ++ txt ").")

/-- What `cimg::fopen` throws. -/
def cannotOpen (filename mode : Text) : Exn :=
  .runtime (txt "cimg::fopen(): Failed to open file '" ++ filename ++ txt "' with mode '" ++ mode ++
    txt "'.")

def saveFile (sys : ImageSystem T) (writing : Writing) (filename : Text) (buffer : List Byte) :
    Stepwise Unit :=
  match writing.content buffer with
  | none => throw (cannotWrite sys filename)
  | some written => do
    -- the file is emptied when it is opened
    Stepwise.put (some [])
    Stepwise.put (some written)
    if writing = .complete then return () else throw (cannotWrite sys filename)

/-- `load_jpeg`. -/
def loadJpeg (sys : ImageSystem T) (opened : Bool) (filename : Text) : Stepwise (CImg T) := do
  let content ← Stepwise.read opened
  match content with
  | some content => liftM (sys.loadJpeg filename content)
  | none => throw (cannotOpen filename (txt "rb"))

/-- `save_jpeg`. It returns `false` where it ends the process. -/
def saveJpeg (sys : ImageSystem T) (writing : Writing) (filename : Text) (image : CImg T) :
    Stepwise Bool :=
  if writing = .notOpened then throw (cannotOpen filename (txt "wb"))
  else do
    Stepwise.put (some [])
    if image.isEmpty then return true
    else
      match sys.jpeg image with
      | none => return false
      | some file => do
        Stepwise.put (writing.content file)
        return decide (writing = .complete)

def loadFile (sys : ImageSystem T) (opened : Bool) (filename : Text) : Stepwise (List Byte) := do
  let content ← Stepwise.read opened
  match content with
  | none => throw sys.resize
  | some content =>
    -- the buffer has this size when the file is read
    let size := content.length
    let content ← Stepwise.content
    match content with
    | some content =>
      if size ≤ content.length then return content.take size else throw (cannotRead sys filename)
    | none => throw (cannotRead sys filename)

/-- The name of the temporary file in this folder, as a C string. -/
def tempfilename (folder : Text) (a : Attempt) : Text := cstr (Path.append folder a.unique)

/-- The body of both functions, with what is done to the image. It returns `none` where the process
ends. -/
def manipulate (sys : ImageSystem T) (a : Attempt) (manipulation : CImg T → CImg T)
    (input : List Byte) : Stepwise (Option (List Byte)) := do
  let folder ← liftM sys.temporaryFolder
  saveFile sys a.writing (tempfilename folder a) input
  let image ← loadJpeg sys a.loading (tempfilename folder a)
  let saved ← saveJpeg sys a.saving (tempfilename folder a) (manipulation image)
  if saved then
    let output ← loadFile sys a.reading (tempfilename folder a)
    Stepwise.put none
    return some output
  else return none

def rotate [Inhabited T] (sys : ImageSystem T) (a : Attempt) (input : List Byte) (degrees : ℤ) :
    Stepwise (Option (List Byte)) :=
  manipulate sys a (CImg.rotate sys.generic degrees) input

def flipHorizontally (sys : ImageSystem T) (a : Attempt) (input : List Byte) :
    Stepwise (Option (List Byte)) :=
  manipulate sys a CImg.mirror input

/-! ### One call -/

/-- The file that `save_jpeg` makes of an image, if nothing ends the process. -/
def jpegOf (sys : ImageSystem T) (image : CImg T) : Option (List Byte) :=
  if image.isEmpty then some [] else sys.jpeg image

/-- What `save_jpeg` returns when it has opened the file, and what is in the file then. -/
def saved (sys : ImageSystem T) (writing : Writing) (image : CImg T) : Bool × List Byte :=
  if image.isEmpty then (true, [])
  else
    match sys.jpeg image with
    | none => (false, [])
    | some file => (decide (writing = .complete), (writing.content file).getD [])

/-- What a call returns or throws, and what it leaves in the file if it has opened it. -/
def outcome (sys : ImageSystem T) (a : Attempt) (manipulation : CImg T → CImg T)
    (input : List Byte) : Except Exn (Option (List Byte)) × Option (List Byte) :=
  match sys.temporaryFolder with
  | .error e => (.error e, none)
  | .ok folder =>
    let filename := tempfilename folder a
    if a.writing ≠ .complete then
      (.error (cannotWrite sys filename), a.writing.content input)
    else if a.loading = false then (.error (cannotOpen filename (txt "rb")), some input)
    else
      match sys.loadJpeg filename input with
      | .error e => (.error e, some input)
      | .ok image =>
        if a.saving = .notOpened then (.error (cannotOpen filename (txt "wb")), some input)
        else
          match saved sys a.saving (manipulation image) with
          | (false, written) => (.ok none, some written)
          | (true, output) =>
            if a.reading = false then (.error sys.resize, some output)
            else (.ok (some output), none)

/-- The call opens its file. -/
def OpensFile (sys : ImageSystem T) (a : Attempt) : Prop :=
  sys.temporaryFolder.isOk = true ∧ a.writing ≠ .notOpened

instance (sys : ImageSystem T) (a : Attempt) : Decidable (OpensFile sys a) :=
  inferInstanceAs (Decidable (_ ∧ _))

/-- What is in the file after a call. -/
def left (sys : ImageSystem T) (a : Attempt) (manipulation : CImg T → CImg T) (input : List Byte)
    (content : Option (List Byte)) : Option (List Byte) :=
  if OpensFile sys a then (outcome sys a manipulation input).2 else content

variable {sys : ImageSystem T} {a : Attempt} {manipulation : CImg T → CImg T} {input : List Byte}

section Run

variable (sys : ImageSystem T) (filename : Text) (content : Option (List Byte)) (buffer : List Byte)

theorem run_saveFile (writing : Writing) :
    (toThrowing (saveFile sys writing filename buffer)).run content =
      (if writing = .complete then .ok () else .error (cannotWrite sys filename),
        (writing.content buffer).or content) := by
  cases writing <;> rfl

theorem run_loadJpeg (opened : Bool) :
    (toThrowing (loadJpeg sys opened filename)).run (some buffer) =
      (if opened then sys.loadJpeg filename buffer else .error (cannotOpen filename (txt "rb")),
        some buffer) := by
  cases opened <;> rfl

theorem run_saveJpeg (writing : Writing) (image : CImg T) :
    (toThrowing (saveJpeg sys writing filename image)).run content =
      if writing = .notOpened then (.error (cannotOpen filename (txt "wb")), content)
      else (.ok (saved sys writing image).1, some (saved sys writing image).2) := by
  rw [saveJpeg, saved]
  split
  · rfl
  by_cases hempty : image.isEmpty
  · simp only [hempty, if_true]
    rfl
  · simp only [hempty]
    cases sys.jpeg image with
    | none => rfl
    | some file => cases writing with
      | notOpened => contradiction
      | complete => rfl
      | stopped written => rfl

/-- The file is read as a whole. -/
theorem run_loadFile (opened : Bool) :
    (toThrowing (loadFile sys opened filename)).run (some buffer) =
      (if opened then .ok buffer else .error sys.resize, some buffer) := by
  cases opened with
  | false => rfl
  | true =>
    show (toThrowing (if buffer.length ≤ buffer.length then pure (buffer.take buffer.length)
      else throw (cannotRead sys filename) : Stepwise (List Byte))).run (some buffer) = _
    rw [if_pos (Nat.le_refl _), List.take_length]
    rfl

end Run

/-- **What a call returns, and what is in its file then**, whatever was in it before. -/
theorem run_manipulate (sys : ImageSystem T) (a : Attempt) (manipulation : CImg T → CImg T)
    (input : List Byte) (content : Option (List Byte)) :
    (toThrowing (manipulate sys a manipulation input)).run content =
      ((outcome sys a manipulation input).1, left sys a manipulation input content) := by
  have hlift : ∀ (x : Except Exn Text) (f : Text → Stepwise (Option (List Byte))),
      toThrowing (liftM x >>= f) = (liftM x >>= fun folder => toThrowing (f folder)) :=
    fun x f => by rw [toThrowing_bind]; cases x <;> rfl
  rw [manipulate, hlift, Throwing.run_lift_bind, left, outcome]
  cases hfolder : sys.temporaryFolder with
  | error e =>
    have hopens : ¬ OpensFile sys a := fun h => by
      rw [OpensFile, hfolder] at h
      cases h.1
    rw [if_neg hopens]
  | ok folder =>
    have hopens : OpensFile sys a ↔ a.writing ≠ .notOpened := by
      simp [OpensFile, hfolder, Except.isOk, Except.toBool]
    dsimp only
    generalize tempfilename folder a = filename
    have hsave := run_saveFile sys filename content input a.writing
    rw [toThrowing_bind]
    cases hwriting : a.writing with
    | notOpened =>
      rw [hwriting] at hsave hopens
      have hclosed : ¬ OpensFile sys a := fun h => hopens.mp h rfl
      rw [Throwing.run_bind_of_error hsave, if_pos (nofun : Writing.notOpened ≠ .complete),
        if_neg hclosed]
      rfl
    | stopped written =>
      rw [hwriting] at hsave hopens
      have hopened : OpensFile sys a := hopens.mpr nofun
      rw [Throwing.run_bind_of_error hsave, if_pos (nofun : Writing.stopped written ≠ .complete),
        if_pos hopened]
      rfl
    | complete =>
      rw [hwriting] at hsave hopens
      have hopened : OpensFile sys a := hopens.mpr nofun
      rw [Throwing.run_bind_of_ok hsave, if_neg (not_not_intro rfl), if_pos hopened,
        toThrowing_bind]
      have hload := run_loadJpeg sys filename input a.loading
      cases hloading : a.loading with
      | false =>
        rw [hloading] at hload
        exact Throwing.run_bind_of_error hload
      | true =>
        rw [hloading] at hload
        cases hjpeg : sys.loadJpeg filename input with
        | error e =>
          rw [hjpeg] at hload
          exact Throwing.run_bind_of_error hload
        | ok image =>
          rw [hjpeg] at hload
          rw [show (Writing.complete.content input).or content = some input from rfl,
            Throwing.run_bind_of_ok hload, toThrowing_bind]
          have hagain := run_saveJpeg sys filename (some input) a.saving (manipulation image)
          by_cases hsaving : a.saving = .notOpened
          · rw [if_pos hsaving] at hagain
            simp only [hsaving, Bool.true_eq_false, if_true, if_false]
            rw [← hsaving]
            exact Throwing.run_bind_of_error hagain
          rw [if_neg hsaving] at hagain
          rw [Throwing.run_bind_of_ok hagain]
          simp only [hsaving, Bool.true_eq_false, if_false]
          obtain ⟨_ | _, file⟩ := saved sys a.saving (manipulation image)
          · rfl
          · dsimp only
            rw [if_pos rfl, toThrowing_bind]
            have hread := run_loadFile sys filename file a.reading
            cases hreading : a.reading with
            | false =>
              rw [hreading] at hread
              exact Throwing.run_bind_of_error hread
            | true =>
              rw [hreading] at hread
              rw [Throwing.run_bind_of_ok hread]
              rfl

/-- What is saved is the file that is made of the image. -/
theorem jpegOf_of_saved {writing : Writing} {image : CImg T} {output : List Byte}
    (h : saved sys writing image = (true, output)) : jpegOf sys image = some output := by
  rw [saved] at h
  rw [jpegOf]
  split at h
  · next hempty => rw [if_pos hempty, (Prod.mk.inj h).2]
  · next hempty =>
    rw [if_neg hempty]
    cases hjpeg : sys.jpeg image with
    | none =>
      rw [hjpeg] at h
      cases (Prod.mk.inj h).1
    | some file =>
      rw [hjpeg] at h
      obtain ⟨hcomplete, hcontent⟩ := Prod.mk.inj h
      rw [of_decide_eq_true hcomplete] at hcontent
      exact congrArg some hcontent

/-- If the file is written, it is the one that is made of the image. -/
theorem saved_complete (sys : ImageSystem T) (image : CImg T) :
    saved sys .complete image =
      match jpegOf sys image with
      | none => (false, [])
      | some output => (true, output) := by
  rw [saved, jpegOf]
  split
  · rfl
  · cases sys.jpeg image <;> rfl

/-- **A file that has been opened** is gone if and only if the call has returned. -/
theorem left_eq_none_iff (h : OpensFile sys a) (content : Option (List Byte)) :
    left sys a manipulation input content = none ↔
      ∃ output, (outcome sys a manipulation input).1 = .ok (some output) := by
  rw [left, if_pos h, outcome]
  cases hfolder : sys.temporaryFolder with
  | error e =>
    rw [OpensFile, hfolder] at h
    cases h.1
  | ok folder =>
    dsimp only
    cases hwriting : a.writing with
    | notOpened => exact absurd hwriting h.2
    | stopped written => simp [Writing.content]
    | complete =>
      cases a.loading with
      | false => simp
      | true => cases sys.loadJpeg (tempfilename folder a) input with
        | error e => simp
        | ok image =>
          by_cases hsaving : a.saving = .notOpened
          · simp [hsaving]
          · rcases hsaved : saved sys a.saving (manipulation image) with ⟨_ | _, file⟩
            · simp [hsaving, hsaved]
            · cases a.reading <;> simp [hsaving, hsaved]

end ImageHelper

end Ssoa
