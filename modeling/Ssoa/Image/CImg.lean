import Ssoa.Lib.Raster
import Mathlib.Data.List.GetD
import Mathlib.Dynamics.PeriodicPts.Defs

/-!
# Images

What the image manipulation provider does to an image is done by the CImg library: `mirror('x')`
swaps the pixels of each row in place, with one pointer from the left and one from the right, and
`rotate` of a multiple of 90 degrees writes the pixels of a new image one after the other. Both are
transcribed here. For any other angle `rotate` computes with floating-point numbers; what it makes
then is a parameter.

The dimensions of an image are as small as those in a JPEG file, so that no loop counter overflows.

## Main results

* `CImg.pixel_mirror` — the loop of `mirror` reflects every row
* `CImg.dihedral` — turning and mirroring compose as in the plane
-/

namespace Ssoa

/-- The loop counters of an image with these dimensions, of type `int` or `unsigned int`, do not
overflow. -/
structure CImg.Fits (width height depth spectrum : ℕ) : Prop where
  width_lt : width < 2 ^ 31
  height_lt : height < 2 ^ 31
  depth_lt : depth < 2 ^ 31
  spectrum_lt : spectrum < 2 ^ 31
  rows_lt : height * depth * spectrum < 2 ^ 32
  columns_lt : width * depth * spectrum < 2 ^ 32

/-- `CImg<T>`: the pixels of each channel row after row, plane after plane. -/
structure CImg (T : Type) where
  width : ℕ
  height : ℕ
  depth : ℕ
  spectrum : ℕ
  data : List T
  length_data : data.length = width * height * depth * spectrum
  fits : CImg.Fits width height depth spectrum

namespace CImg

variable {T : Type}

theorem Fits.swap {w h d s : ℕ} (hfits : Fits w h d s) : Fits h w d s :=
  ⟨hfits.height_lt, hfits.width_lt, hfits.depth_lt, hfits.spectrum_lt, hfits.columns_lt,
    hfits.rows_lt⟩

/-- `is_empty()`. -/
def isEmpty (img : CImg T) : Bool :=
  img.width = 0 ∨ img.height = 0 ∨ img.depth = 0 ∨ img.spectrum = 0

/-- Where a pixel is in the data. -/
def offset (img : CImg T) (x y z c : ℕ) : ℕ :=
  x + y * img.width + z * img.width * img.height + c * img.width * img.height * img.depth

/-! ### `mirror('x')` -/

/-- The loop over the rows, with the pointers `pf` and `pb`. -/
def mirrorRows (width : ℕ) : ℕ → List T → ℕ → ℕ → List T
  | 0, data, _, _ => data
  | rows + 1, data, pf, pb =>
    let width2 := width / 2
    mirrorRows width rows (Raster.swaps width2 data pf pb) (pf + width2 + (width - width2))
      (pb - width2 + (width + width2))

theorem length_mirrorRows (width rows : ℕ) (data : List T) (pf pb : ℕ) :
    (mirrorRows width rows data pf pb).length = data.length := by
  induction rows generalizing data pf pb with
  | zero => rfl
  | succ rows ih => rw [mirrorRows, ih, Raster.length_swaps]

/-- `mirror('x')`. The number of rows is computed as an `unsigned int`. -/
def mirror (img : CImg T) : CImg T :=
  if img.isEmpty then img
  else
    { img with
      data := mirrorRows img.width (img.height * img.depth * img.spectrum % 2 ^ 32) img.data 0
        (img.width - 1)
      length_data := by rw [length_mirrorRows, img.length_data] }

/-- **The rows from `pf` on are reflected**, and the rest of the data stays. -/
theorem getElem?_mirrorRows {width rows pf : ℕ} {data : List T} (hwidth : 0 < width)
    (hrows : pf + rows * width ≤ data.length) (m : ℕ) :
    (mirrorRows width rows data pf (pf + width - 1))[m]? =
      if pf ≤ m ∧ m < pf + rows * width then
        data[pf + (m - pf) / width * width + (width - 1 - (m - pf) % width)]?
      else data[m]? := by
  induction rows generalizing data pf with
  | zero => rw [mirrorRows, if_neg (by omega)]
  | succ rows ih =>
    have hmul : (rows + 1) * width = width + rows * width := by ring
    have hpf : pf + width / 2 + (width - width / 2) = pf + width := by omega
    have hpb : pf + width - 1 - width / 2 + (width + width / 2) = pf + width + width - 1 := by omega
    rw [mirrorRows, hpf, hpb, ih (by rw [Raster.length_swaps]; omega)]
    -- a pixel is in this row, in a later one, or in none
    rcases Nat.lt_or_ge m (pf + width) with hlt | hge
    · rw [if_neg (by omega), Raster.getElem?_swaps_half (by omega)]
      by_cases hm : pf ≤ m
      · have hquot : (m - pf) / width = 0 := Nat.div_eq_of_lt (by omega)
        have hrem : (m - pf) % width = m - pf := Nat.mod_eq_of_lt (by omega)
        rw [if_pos ⟨hm, hlt⟩, if_pos ⟨hm, by omega⟩, hquot, hrem, Nat.zero_mul, Nat.add_zero]
        congr 1
        omega
      · rw [if_neg (by omega), if_neg (by omega)]
    · by_cases hm : m < pf + width + rows * width
      · have hsub : m - pf = m - (pf + width) + width := by omega
        rw [if_pos ⟨hge, hm⟩, if_pos ⟨by omega, by omega⟩,
          Raster.getElem?_swaps_half (by omega), if_neg (by omega), hsub,
          Nat.add_div_right _ hwidth, Nat.add_mod_right]
        congr 1
        rw [Nat.succ_mul]
        omega
      · rw [if_neg (by omega), if_neg (by omega), Raster.getElem?_swaps_half (by omega),
          if_neg (by omega)]

/-! ### Pixels -/

/-- `operator()(x,y,z,c)`. -/
def pixel [Inhabited T] (img : CImg T) (x y z c : ℕ) : T :=
  img.data.getD (img.offset x y z c) default

/-- The pixel is in the image. -/
structure Inside (img : CImg T) (x y z c : ℕ) : Prop where
  x : x < img.width
  y : y < img.height
  z : z < img.depth
  c : c < img.spectrum

/-- The row of a pixel, counted from the beginning. -/
def row (img : CImg T) (y z c : ℕ) : ℕ := y + (z + c * img.depth) * img.height

variable {img : CImg T} {x y z c : ℕ}

theorem offset_eq (img : CImg T) (x y z c : ℕ) :
    img.offset x y z c = x + img.row y z c * img.width := by
  rw [offset, row]
  ring

theorem Inside.row_lt (h : img.Inside x y z c) :
    img.row y z c < img.height * img.depth * img.spectrum := by
  have hplane : z + c * img.depth < img.depth * img.spectrum :=
    calc z + c * img.depth < img.depth + c * img.depth := Nat.add_lt_add_right h.z _
      _ = img.depth * (c + 1) := by ring
      _ ≤ img.depth * img.spectrum := Nat.mul_le_mul_left _ h.c
  calc img.row y z c < img.height + (z + c * img.depth) * img.height :=
        Nat.add_lt_add_right h.y _
    _ = img.height * (z + c * img.depth + 1) := by ring
    _ ≤ img.height * (img.depth * img.spectrum) := Nat.mul_le_mul_left _ hplane
    _ = img.height * img.depth * img.spectrum := by ring

theorem Inside.offset_lt (h : img.Inside x y z c) : img.offset x y z c < img.data.length := by
  rw [img.length_data, offset_eq]
  calc x + img.row y z c * img.width < img.width + img.row y z c * img.width :=
        Nat.add_lt_add_right h.x _
    _ = img.width * (img.row y z c + 1) := by ring
    _ ≤ img.width * (img.height * img.depth * img.spectrum) := Nat.mul_le_mul_left _ h.row_lt
    _ = img.width * img.height * img.depth * img.spectrum := by ring

theorem Inside.not_isEmpty (h : img.Inside x y z c) : img.isEmpty = false := by
  have := h.x
  have := h.y
  have := h.z
  have := h.c
  rw [isEmpty, decide_eq_false_iff_not]
  omega

/-- Every element of the data is a pixel. -/
theorem exists_inside {i : ℕ} (h : i < img.data.length) :
    ∃ x y z c, img.Inside x y z c ∧ img.offset x y z c = i := by
  rw [img.length_data] at h
  have hwidth : 0 < img.width := Nat.pos_of_ne_zero fun h0 => by simp [h0] at h
  have hheight : 0 < img.height := Nat.pos_of_ne_zero fun h0 => by simp [h0] at h
  have hdepth : 0 < img.depth := Nat.pos_of_ne_zero fun h0 => by simp [h0] at h
  have hchannel : i / img.width / img.height / img.depth < img.spectrum := by
    refine Nat.div_lt_of_lt_mul (Nat.div_lt_of_lt_mul (Nat.div_lt_of_lt_mul (h.trans_eq ?_)))
    ring
  refine ⟨i % img.width, i / img.width % img.height, i / img.width / img.height % img.depth,
    i / img.width / img.height / img.depth,
    ⟨Nat.mod_lt _ hwidth, Nat.mod_lt _ hheight, Nat.mod_lt _ hdepth, hchannel⟩, ?_⟩
  rw [offset_eq, row, Nat.mod_add_div', Nat.mod_add_div', Nat.mod_add_div']

/-- Images with the same pixels are the same. -/
theorem ext_pixel [Inhabited T] {a b : CImg T} (hwidth : a.width = b.width)
    (hheight : a.height = b.height) (hdepth : a.depth = b.depth)
    (hspectrum : a.spectrum = b.spectrum)
    (hpixel : ∀ x y z c, a.Inside x y z c → a.pixel x y z c = b.pixel x y z c) : a = b := by
  obtain ⟨w, h, d, s, data, hdata, hfits⟩ := a
  obtain ⟨w', h', d', s', data', hdata', hfits'⟩ := b
  obtain rfl : w = w' := hwidth
  obtain rfl : h = h' := hheight
  obtain rfl : d = d' := hdepth
  obtain rfl : s = s' := hspectrum
  obtain rfl : data = data' := by
    refine List.ext_getElem (hdata.trans hdata'.symm) fun i hi hi' => ?_
    obtain ⟨x, y, z, c, hinside, rfl⟩ :=
      exists_inside (show i < (CImg.mk w h d s data hdata hfits).data.length from hi)
    exact (List.getD_eq_getElem _ _ hi).symm.trans
      ((hpixel x y z c hinside).trans (List.getD_eq_getElem _ _ hi'))
  rfl

@[simp] theorem width_mirror (img : CImg T) : img.mirror.width = img.width := by
  rw [mirror]
  split <;> rfl

@[simp] theorem height_mirror (img : CImg T) : img.mirror.height = img.height := by
  rw [mirror]
  split <;> rfl

@[simp] theorem depth_mirror (img : CImg T) : img.mirror.depth = img.depth := by
  rw [mirror]
  split <;> rfl

@[simp] theorem spectrum_mirror (img : CImg T) : img.mirror.spectrum = img.spectrum := by
  rw [mirror]
  split <;> rfl

/-- **The loop of `mirror` reflects every row** of every plane and channel. -/
theorem pixel_mirror [Inhabited T] (img : CImg T) (x y z c : ℕ) (h : img.Inside x y z c) :
    img.mirror.pixel x y z c = img.pixel (img.width - 1 - x) y z c := by
  have hwidth : 0 < img.width := Nat.zero_lt_of_lt h.x
  have hrows : img.height * img.depth * img.spectrum % 2 ^ 32 =
      img.height * img.depth * img.spectrum := Nat.mod_eq_of_lt img.fits.rows_lt
  have hlength : 0 + img.height * img.depth * img.spectrum * img.width ≤ img.data.length := by
    rw [img.length_data]
    exact Nat.le_of_eq (by ring)
  have hoffset : img.mirror.offset x y z c = img.offset x y z c := by
    simp only [offset, width_mirror, height_mirror, depth_mirror]
  have hmirror : img.mirror.data = mirrorRows img.width (img.height * img.depth * img.spectrum)
      img.data 0 (0 + img.width - 1) := by
    rw [mirror, h.not_isEmpty, if_neg Bool.false_ne_true, Nat.zero_add]
    exact congrArg (mirrorRows img.width · img.data 0 (img.width - 1)) hrows
  have hquot : (x + img.row y z c * img.width) / img.width = img.row y z c := by
    rw [Nat.add_mul_div_right _ _ hwidth, Nat.div_eq_of_lt h.x, Nat.zero_add]
  have hrem : (x + img.row y z c * img.width) % img.width = x := by
    rw [Nat.add_mul_mod_self_right, Nat.mod_eq_of_lt h.x]
  have hbound : x + img.row y z c * img.width <
      0 + img.height * img.depth * img.spectrum * img.width := by
    have hlt := h.offset_lt
    rw [offset_eq, img.length_data] at hlt
    calc _ < _ := hlt
      _ = _ := by ring
  rw [pixel, pixel, hoffset, hmirror, List.getD_eq_getElem?_getD, List.getD_eq_getElem?_getD,
    offset_eq, offset_eq, getElem?_mirrorRows hwidth hlength,
    if_pos ⟨Nat.zero_le _, hbound⟩, Nat.sub_zero, hquot, hrem, Nat.zero_add, Nat.add_comm]

/-! ### `rotate` -/

section Rotate

/-- The pixels that are written by a loop over all coordinates, which `x` runs through fastest. -/
def raster (width height depth spectrum : ℕ) (f : ℕ → ℕ → ℕ → ℕ → T) : List T :=
  (List.range spectrum).flatMap fun c => (List.range depth).flatMap fun z =>
    (List.range height).flatMap fun y => (List.range width).map fun x => f x y z c

section Raster

variable {w h d s : ℕ} {f : ℕ → ℕ → ℕ → ℕ → T}

theorem length_rows (z c : ℕ) :
    ((List.range h).flatMap fun y => (List.range w).map fun x => f x y z c).length = h * w :=
  Raster.length_flatMap_range fun y _ => by rw [List.length_map, List.length_range]

theorem length_planes (c : ℕ) : ((List.range d).flatMap fun z => (List.range h).flatMap fun y =>
    (List.range w).map fun x => f x y z c).length = d * (h * w) :=
  Raster.length_flatMap_range fun z _ => length_rows z c

theorem length_raster : (raster w h d s f).length = w * h * d * s := by
  rw [raster, Raster.length_flatMap_range fun c _ => length_planes c]
  ring

theorem getElem?_raster {x y z c : ℕ} (hx : x < w) (hy : y < h) (hz : z < d) (hc : c < s) :
    (raster w h d s f)[x + y * w + z * w * h + c * w * h * d]? = some (f x y z c) := by
  have hrow : x + y * w < h * w :=
    calc x + y * w < w + y * w := Nat.add_lt_add_right hx _
      _ = (y + 1) * w := by ring
      _ ≤ h * w := Nat.mul_le_mul_right _ hy
  have hplane : x + y * w + z * (h * w) < d * (h * w) :=
    calc x + y * w + z * (h * w) < h * w + z * (h * w) := Nat.add_lt_add_right hrow _
      _ = (z + 1) * (h * w) := by ring
      _ ≤ d * (h * w) := Nat.mul_le_mul_right _ hz
  have hoffset : x + y * w + z * w * h + c * w * h * d =
      x + y * w + z * (h * w) + c * (d * (h * w)) := by ring
  rw [hoffset, raster, Raster.getElem?_flatMap_range (fun c _ => length_planes c) hc hplane,
    Raster.getElem?_flatMap_range (fun z _ => length_rows z c) hz hrow,
    Raster.getElem?_flatMap_range (fun y _ => by rw [List.length_map, List.length_range]) hy hx,
    List.getElem?_map, List.getElem?_range hx, Option.map_some]

end Raster

/-- `res.assign(width,height,depth,spectrum)`, and a loop that writes all its pixels. -/
def ofPixels {width height depth spectrum : ℕ} (fits : Fits width height depth spectrum)
    (f : ℕ → ℕ → ℕ → ℕ → T) : CImg T where
  width := width
  height := height
  depth := depth
  spectrum := spectrum
  data := raster width height depth spectrum f
  length_data := length_raster
  fits := fits

variable [Inhabited T]

/-- 90 degrees. -/
def turn90 (img : CImg T) : CImg T :=
  ofPixels img.fits.swap fun x y z c => img.pixel y (img.height - 1 - x) z c

/-- 180 degrees. -/
def turn180 (img : CImg T) : CImg T :=
  ofPixels img.fits fun x y z c => img.pixel (img.width - 1 - x) (img.height - 1 - y) z c

/-- 270 degrees. -/
def turn270 (img : CImg T) : CImg T :=
  ofPixels img.fits.swap fun x y z c => img.pixel (img.width - 1 - y) x z c

/-- `rotate`, by an angle that is a whole number. What it makes of an image if the angle is not a
multiple of 90 degrees is a parameter. -/
def rotate (generic : ℤ → CImg T → CImg T) (angle : ℤ) (img : CImg T) : CImg T :=
  if img.isEmpty then img
  else
    let nangle := angle % 360
    if nangle % 90 = 0 then
      match nangle / 90 with
      | 1 => img.turn90
      | 2 => img.turn180
      | 3 => img.turn270
      | _ => img
    else generic nangle img

theorem pixel_ofPixels {w h d s : ℕ} (fits : Fits w h d s) (f : ℕ → ℕ → ℕ → ℕ → T) {x y z c : ℕ}
    (hinside : (ofPixels fits f).Inside x y z c) : (ofPixels fits f).pixel x y z c = f x y z c := by
  have hget : (ofPixels fits f).data[(ofPixels fits f).offset x y z c]? = some (f x y z c) :=
    getElem?_raster hinside.x hinside.y hinside.z hinside.c
  rw [pixel, List.getD_eq_getElem?_getD, hget, Option.getD_some]

variable {img : CImg T} {x y z c : ℕ}

theorem pixel_turn90 (h : img.turn90.Inside x y z c) :
    img.turn90.pixel x y z c = img.pixel y (img.height - 1 - x) z c :=
  pixel_ofPixels _ _ h

theorem pixel_turn180 (h : img.turn180.Inside x y z c) :
    img.turn180.pixel x y z c = img.pixel (img.width - 1 - x) (img.height - 1 - y) z c :=
  pixel_ofPixels _ _ h

theorem pixel_turn270 (h : img.turn270.Inside x y z c) :
    img.turn270.pixel x y z c = img.pixel (img.width - 1 - y) x z c :=
  pixel_ofPixels _ _ h

/-! ### In the plane -/

theorem turn90_turn90 (img : CImg T) : img.turn90.turn90 = img.turn180 := by
  refine ext_pixel rfl rfl rfl rfl fun x y z c h => ?_
  have hx : x < img.width := h.x
  have hinner : img.turn90.Inside y (img.width - 1 - x) z c :=
    ⟨h.y, show img.width - 1 - x < img.width by omega, h.z, h.c⟩
  calc img.turn90.turn90.pixel x y z c
      = img.turn90.pixel y (img.width - 1 - x) z c := pixel_turn90 h
    _ = img.pixel (img.width - 1 - x) (img.height - 1 - y) z c := pixel_turn90 hinner
    _ = img.turn180.pixel x y z c := (pixel_turn180 ⟨hx, h.y, h.z, h.c⟩).symm

theorem turn90_turn180 (img : CImg T) : img.turn180.turn90 = img.turn270 := by
  refine ext_pixel rfl rfl rfl rfl fun x y z c h => ?_
  have hx : x < img.height := h.x
  have hback : img.height - 1 - (img.height - 1 - x) = x := by omega
  have hinner : img.turn180.Inside y (img.height - 1 - x) z c :=
    ⟨h.y, show img.height - 1 - x < img.height by omega, h.z, h.c⟩
  calc img.turn180.turn90.pixel x y z c
      = img.turn180.pixel y (img.height - 1 - x) z c := pixel_turn90 h
    _ = img.pixel (img.width - 1 - y) (img.height - 1 - (img.height - 1 - x)) z c :=
        pixel_turn180 hinner
    _ = img.pixel (img.width - 1 - y) x z c := by rw [hback]
    _ = img.turn270.pixel x y z c := (pixel_turn270 ⟨hx, h.y, h.z, h.c⟩).symm

theorem turn90_turn270 (img : CImg T) : img.turn270.turn90 = img := by
  refine ext_pixel rfl rfl rfl rfl fun x y z c h => ?_
  have hx : x < img.width := h.x
  have hback : img.width - 1 - (img.width - 1 - x) = x := by omega
  have hinner : img.turn270.Inside y (img.width - 1 - x) z c :=
    ⟨h.y, show img.width - 1 - x < img.width by omega, h.z, h.c⟩
  calc img.turn270.turn90.pixel x y z c
      = img.turn270.pixel y (img.width - 1 - x) z c := pixel_turn90 h
    _ = img.pixel (img.width - 1 - (img.width - 1 - x)) y z c := pixel_turn270 hinner
    _ = img.pixel x y z c := by rw [hback]

theorem mirror_turn90 (img : CImg T) : img.turn90.mirror = img.mirror.turn270 := by
  refine ext_pixel ?_ ?_ ?_ ?_ fun x y z c h => ?_
  · exact img.turn90.width_mirror.trans img.height_mirror.symm
  · exact img.turn90.height_mirror.trans img.width_mirror.symm
  · exact img.turn90.depth_mirror.trans img.depth_mirror.symm
  · exact img.turn90.spectrum_mirror.trans img.spectrum_mirror.symm
  have hx : x < img.height := h.x.trans_eq img.turn90.width_mirror
  have hy : y < img.width := h.y.trans_eq img.turn90.height_mirror
  have hz : z < img.depth := h.z.trans_eq img.turn90.depth_mirror
  have hc : c < img.spectrum := h.c.trans_eq img.turn90.spectrum_mirror
  have hback : img.height - 1 - (img.height - 1 - x) = x := by omega
  have hback' : img.width - 1 - (img.width - 1 - y) = y := by omega
  have hturned : img.turn90.Inside (img.height - 1 - x) y z c :=
    ⟨show img.height - 1 - x < img.height by omega, hy, hz, hc⟩
  have hmirrored : img.mirror.turn270.Inside x y z c :=
    ⟨hx.trans_eq img.height_mirror.symm, hy.trans_eq img.width_mirror.symm,
      hz.trans_eq img.depth_mirror.symm, hc.trans_eq img.spectrum_mirror.symm⟩
  calc img.turn90.mirror.pixel x y z c
      = img.turn90.pixel (img.height - 1 - x) y z c := pixel_mirror _ _ _ _ _ ⟨hx, hy, hz, hc⟩
    _ = img.pixel y (img.height - 1 - (img.height - 1 - x)) z c := pixel_turn90 hturned
    _ = img.pixel y x z c := by rw [hback]
    _ = img.pixel (img.width - 1 - (img.width - 1 - y)) x z c := by rw [hback']
    _ = img.mirror.pixel (img.width - 1 - y) x z c :=
        (pixel_mirror _ _ _ _ _ ⟨by omega, hx, hz, hc⟩).symm
    _ = img.mirror.pixel (img.mirror.width - 1 - y) x z c := by rw [width_mirror]
    _ = img.mirror.turn270.pixel x y z c := (pixel_turn270 hmirrored).symm

/-- Two rows of three pixels. -/
example : (CImg.mk 3 2 1 1 [1, 2, 3, 4, 5, 6] rfl (by constructor <;> decide)).mirror.data =
    [3, 2, 1, 6, 5, 4] := by decide

theorem mirror_mirror (img : CImg T) : img.mirror.mirror = img := by
  refine ext_pixel ?_ ?_ ?_ ?_ fun x y z c h => ?_
  · rw [width_mirror, width_mirror]
  · rw [height_mirror, height_mirror]
  · rw [depth_mirror, depth_mirror]
  · rw [spectrum_mirror, spectrum_mirror]
  have hmirror : img.mirror.Inside x y z c :=
    ⟨img.mirror.width_mirror ▸ h.x, img.mirror.height_mirror ▸ h.y, img.mirror.depth_mirror ▸ h.z,
      img.mirror.spectrum_mirror ▸ h.c⟩
  have hinside : img.Inside x y z c :=
    ⟨img.width_mirror ▸ hmirror.x, img.height_mirror ▸ hmirror.y, img.depth_mirror ▸ hmirror.z,
      img.spectrum_mirror ▸ hmirror.c⟩
  have hx := hinside.x
  have hback : img.width - 1 - (img.width - 1 - x) = x := by omega
  calc img.mirror.mirror.pixel x y z c
      = img.mirror.pixel (img.width - 1 - x) y z c := by
        rw [pixel_mirror _ _ _ _ _ hmirror, width_mirror]
    _ = img.pixel (img.width - 1 - (img.width - 1 - x)) y z c :=
        pixel_mirror _ _ _ _ _ ⟨by omega, hinside.y, hinside.z, hinside.c⟩
    _ = img.pixel x y z c := by rw [hback]

/-- Four quarter turns lead back. -/
theorem isPeriodicPt_turn90 (img : CImg T) : Function.IsPeriodicPt turn90 4 img := by
  show img.turn90.turn90.turn90.turn90 = img
  rw [turn90_turn90 img, turn90_turn180, turn90_turn270]

theorem isEmpty_iterate_turn90 (n : ℕ) (img : CImg T) :
    (turn90^[n] img).isEmpty = img.isEmpty := by
  induction n generalizing img with
  | zero => rfl
  | succ n ih =>
    rw [Function.iterate_succ_apply, ih]
    show decide (img.height = 0 ∨ img.width = 0 ∨ _) = decide (img.width = 0 ∨ img.height = 0 ∨ _)
    exact decide_eq_decide.mpr or_left_comm

variable {generic : ℤ → CImg T → CImg T}

theorem rotate_of_isEmpty {img : CImg T} (h : img.isEmpty = true) (angle : ℤ) :
    rotate generic angle img = img := by
  rw [rotate, if_pos h]

/-- A multiple of 90 degrees is a number of quarter turns. -/
theorem rotate_mul {img : CImg T} (h : img.isEmpty = false) (k : ℤ) :
    rotate generic (90 * k) img = turn90^[(k % 4).toNat] img := by
  have hmod : 90 * k % 360 = 90 * (k % 4) := Int.mul_emod_mul_of_pos k 4 (by decide)
  have hzero : 90 * (k % 4) % 90 = 0 := Int.mul_emod_right 90 _
  have hquot : 90 * (k % 4) / 90 = k % 4 := Int.mul_ediv_cancel_left _ (by decide)
  rw [rotate, h, if_neg Bool.false_ne_true]
  dsimp only
  rw [hmod, if_pos hzero, hquot]
  have hcases : k % 4 = 0 ∨ k % 4 = 1 ∨ k % 4 = 2 ∨ k % 4 = 3 := by omega
  rcases hcases with hk | hk | hk | hk <;> rw [hk]
  · rfl
  · rfl
  · exact (turn90_turn90 img).symm
  · exact ((congrArg turn90 (turn90_turn90 img)).trans (turn90_turn180 img)).symm

theorem mirror_iterate_turn90 (n : ℕ) (img : CImg T) :
    (turn90^[n] img).mirror = turn90^[3 * n] img.mirror := by
  induction n generalizing img with
  | zero => rfl
  | succ n ih =>
    have hthree : turn90^[3] img.mirror = img.mirror.turn270 :=
      (congrArg turn90 (turn90_turn90 img.mirror)).trans (turn90_turn180 img.mirror)
    rw [Function.iterate_succ_apply, ih, mirror_turn90, Nat.mul_succ, Function.iterate_add_apply,
      hthree]

/-- **Turning and mirroring compose as in the plane**: the loop of `mirror` reflects every row, and
a turn by 90 degrees takes rows to columns; mirroring twice gives the image back, turns by multiples
of 90 degrees add up, and an image turned and then mirrored is the mirrored one turned the other
way. -/
theorem dihedral (generic : ℤ → CImg T → CImg T) (img : CImg T) :
    (∀ x y z c, img.Inside x y z c →
        img.mirror.pixel x y z c = img.pixel (img.width - 1 - x) y z c) ∧
      (∀ x y z c, (rotate generic 90 img).Inside x y z c →
        (rotate generic 90 img).pixel x y z c = img.pixel y (img.height - 1 - x) z c) ∧
      img.mirror.mirror = img ∧
      (∀ j k : ℤ, rotate generic (90 * j) (rotate generic (90 * k) img) =
        rotate generic (90 * (j + k)) img) ∧
      ∀ k : ℤ, (rotate generic (90 * k) img).mirror = rotate generic (90 * -k) img.mirror := by
  have hmirror : img.mirror.isEmpty = img.isEmpty := by
    rw [isEmpty, isEmpty, width_mirror, height_mirror, depth_mirror, spectrum_mirror]
  cases hempty : img.isEmpty with
  | true =>
    have hsame : ∀ angle, rotate generic angle img = img := rotate_of_isEmpty hempty
    refine ⟨pixel_mirror img, fun x y z c h => ?_, mirror_mirror img, fun j k => ?_, fun k => ?_⟩
    · rw [hsame] at h
      cases hempty.symm.trans h.not_isEmpty
    · rw [hsame, hsame, hsame]
    · rw [hsame, rotate_of_isEmpty (hmirror.trans hempty)]
  | false =>
    refine ⟨pixel_mirror img, fun x y z c h => ?_, mirror_mirror img, fun j k => ?_, fun k => ?_⟩
    · have hturn : rotate generic 90 img = img.turn90 := rotate_mul hempty 1
      rw [hturn] at h ⊢
      exact pixel_turn90 h
    · have hsum : ((j + k) % 4).toNat = ((j % 4).toNat + (k % 4).toNat) % 4 := by omega
      rw [rotate_mul hempty, rotate_mul ((isEmpty_iterate_turn90 _ img).trans hempty),
        rotate_mul hempty, ← Function.iterate_add_apply, hsum,
        (isPeriodicPt_turn90 img).iterate_mod_apply]
    · have hsum : (-k % 4).toNat = 3 * (k % 4).toNat % 4 := by omega
      rw [rotate_mul hempty, rotate_mul (hmirror.trans hempty), mirror_iterate_turn90, hsum,
        (isPeriodicPt_turn90 img.mirror).iterate_mod_apply]

end Rotate

end CImg

end Ssoa
