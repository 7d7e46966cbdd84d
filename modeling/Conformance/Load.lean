import Conformance.CopyWithStride

/-!
# `RGBAImage::Load`: the decoder's buffer as pixels

`RGBAImage::Load(path)` (lines 138–181) asks `stbi_load` for four components per
pixel, throws `std::runtime_error("Unable to load file " + path)` when it returns
`nullptr`, and otherwise constructs `RGBAImage image(width, height)` and
`memcpy`s the whole buffer, `width * height * 4` bytes, over `image.pixels.data()`.

The decoder is not modelled: its result is an `Option Decoded`, where `Decoded`
carries what `stbi_load` promises of a buffer it returns.  The `memcpy` writes
the byte view of the pixels (`RGBAImage.bytes`), so the model runs `memcpy` on
that view and reads the pixels back from the bytes through the `RGBA8Color`
union (`RGBAImage.setBytes`).  The two views are inverse (`setBytes_bytes`,
`bytes_setBytes`), a loaded image's bytes are the decoder's buffer (`load_ok`),
and copying a loaded image out with `CopyWithStride` at a pitch of one row gives
that buffer back, whatever the destination held
(`load_copyWithStride_round_trip`).

## What is not modelled

The Android asset path, `stbi_image_free` and the `isSrgb` flag.  The
`std::length_error` that `RGBAImage(width, height)` throws for a negative size
cannot happen for a decoded image; the model names it by its type, since its
text is up to the standard library.
-/

namespace Conformance

/-- What `stbi_load(path, &width, &height, nullptr, 4)` promises of a buffer it
returns: positive `int` dimensions, a byte count `width * height * 4` that is
itself an `int`, and that many bytes, four per pixel in row-major order. -/
structure Decoded where
  width : Int
  height : Int
  data : Array UInt8
  width_pos : 0 < width
  height_pos : 0 < height
  width_isInt : IsInt width
  height_isInt : IsInt height
  size_isInt : IsInt (width * height * 4)
  data_size : (data.size : Int) = width * height * 4

/-- The decoder's buffer holds `height` rows of `4 * width` bytes. -/
theorem Decoded.size_toNat (d : Decoded) :
    d.data.size = d.height.toNat * (4 * d.width.toNat) := by
  have h := d.data_size
  zify
  rw [h, Int.toNat_of_nonneg d.width_pos.le, Int.toNat_of_nonneg d.height_pos.le]
  ring

/-- A row, `4 * width` bytes, is below `2 ^ 31`: it is part of the whole count. -/
theorem Decoded.row_lt (d : Decoded) : 4 * d.width < 2 ^ 31 := by
  have h := Int.mul_le_mul_of_nonneg_left (show 1 ≤ d.height by have := d.height_pos; omega)
    (show 0 ≤ 4 * d.width by have := d.width_pos; omega)
  linarith [d.size_isInt.2]

/-- The pixel count `width * height` is an `int`: it is at most the byte count. -/
theorem Decoded.area_isInt (d : Decoded) : IsInt (d.width * d.height) := by
  have h := d.size_isInt
  have := mul_pos d.width_pos d.height_pos
  unfold IsInt at h ⊢
  omega

/-- A pixel read through the `RGBA8Color` union from four consecutive bytes. -/
def RGBA8Color.ofBytes (f : Nat → UInt8) : RGBA8Color := ⟨f 0, f 1, f 2, f 3⟩

/-- Byte `k` of a pixel read from four bytes is the `k`-th of them. -/
theorem RGBA8Color.byte_ofBytes (f : Nat → UInt8) {k : Nat} (hk : k < 4) :
    (RGBA8Color.ofBytes f).byte k = f k := by
  obtain rfl | rfl | rfl | rfl : k = 0 ∨ k = 1 ∨ k = 2 ∨ k = 3 := by omega
  all_goals rfl

/-- A pixel is read back from its own four bytes. -/
theorem RGBA8Color.ofBytes_byte (c : RGBA8Color) : RGBA8Color.ofBytes c.byte = c := rfl

/-- Only the first four bytes matter. -/
theorem RGBA8Color.ofBytes_congr {f g : Nat → UInt8} (h : ∀ k < 4, f k = g k) :
    RGBA8Color.ofBytes f = RGBA8Color.ofBytes g := by
  simp only [RGBA8Color.ofBytes, h 0 (by omega), h 1 (by omega), h 2 (by omega), h 3 (by omega)]

/-- `image.pixels.data()` overwritten by `bytes`: pixel `i` reads bytes `4 * i` to
`4 * i + 3`.  The image keeps its size. -/
def RGBAImage.setBytes (img : RGBAImage) (bytes : Array UInt8) : RGBAImage where
  width := img.width
  height := img.height
  pixels := Array.ofFn fun i : Fin img.pixels.size ↦
    RGBA8Color.ofBytes fun k ↦ bytes.getD (4 * i.val + k) 0
  width_isInt := img.width_isInt
  height_isInt := img.height_isInt
  area_isInt := img.area_isInt
  size_eq := (congrArg (Nat.cast : Nat → Int) (Array.size_ofFn _)).trans img.size_eq

/-- `RGBAImage::Load(path)` once the decoder has run: `nullptr` throws, and a
decoded buffer is copied over the pixels of `RGBAImage(width, height)`. -/
def RGBAImage.load (path : String) : Option Decoded → Except Fault RGBAImage
  | none => .error (.runtimeError ("Unable to load file " ++ path))
  | some d =>
    match RGBAImage.new d.width d.height d.width_isInt d.height_isInt d.area_isInt with
    | none => .error (.logicError "std::length_error")
    | some image =>
      match memcpy 0 d.data 0 (d.width * d.height * 4).toNat image.bytes with
      | .ok () bytes => .ok (image.setBytes bytes)
      | .error e _ => .error e

/-- Two images with the same dimensions and pixels are equal. -/
theorem RGBAImage.eq_of_pixels {a b : RGBAImage} (hw : a.width = b.width)
    (hh : a.height = b.height) (hp : a.pixels = b.pixels) : a = b := by
  cases a; cases b; cases hw; cases hh; cases hp; rfl

/-- Arrays that agree at every index are equal. -/
theorem array_eq_of_getElem? {α : Type} {a b : Array α} (h : ∀ j : Nat, a[j]? = b[j]?) :
    a = b :=
  Array.ext' (List.ext_getElem? fun j ↦ by simpa using h j)

/-- In range, `getD` reads the element. -/
theorem some_getD_of_lt {a : Array UInt8} {i : Nat} (h : i < a.size) :
    some (a.getD i 0) = a[i]? := by
  simp only [Array.getD, dif_pos h, Array.getElem?_lt _ h, Array.get_eq_getElem]

/-- Pixel `i` after `setBytes`: bytes `4 * i` to `4 * i + 3`, inside the image. -/
theorem RGBAImage.setBytes_getElem? (img : RGBAImage) (bytes : Array UInt8) (i : Nat) :
    (img.setBytes bytes).pixels[i]? = if i < img.pixels.size then
      some (RGBA8Color.ofBytes fun k ↦ bytes.getD (4 * i + k) 0) else none := by
  rw [RGBAImage.setBytes, Array.getElem?_ofFn]
  split <;> rfl

/-- Reading an image's own bytes back through the union gives the image. -/
theorem RGBAImage.setBytes_bytes (img : RGBAImage) : img.setBytes img.bytes = img := by
  refine RGBAImage.eq_of_pixels rfl rfl (array_eq_of_getElem? fun i ↦ ?_)
  rw [RGBAImage.setBytes_getElem?]
  split
  · next hi =>
    rw [Array.getElem?_lt _ hi, ← RGBA8Color.ofBytes_byte img.pixels[i]]
    refine congrArg some (RGBA8Color.ofBytes_congr fun k hk ↦ Option.some_injective _ ?_)
    rw [some_getD_of_lt (by rw [img.bytes_size]; omega), img.bytes_getElem? i hk,
      Array.getElem?_lt _ hi, Option.map_some']
  · next hi => rw [Array.getElem?_len_le _ (Nat.le_of_not_lt hi)]

/-- Writing bytes of the right length through the union and reading the byte view
gives the bytes. -/
theorem RGBAImage.bytes_setBytes (img : RGBAImage) {bytes : Array UInt8}
    (h : bytes.size = 4 * img.pixels.size) : (img.setBytes bytes).bytes = bytes := by
  have hq : ∀ q k, k < 4 → (img.setBytes bytes).bytes[4 * q + k]? = bytes[4 * q + k]? := by
    intro q k hk
    rw [RGBAImage.bytes_getElem? _ _ hk, setBytes_getElem?]
    split
    · next hi =>
      rw [Option.map_some', RGBA8Color.byte_ofBytes _ hk, some_getD_of_lt (by omega)]
    · next hi => rw [Option.map_none', Array.getElem?_len_le _ (by omega)]
  refine array_eq_of_getElem? fun j ↦ ?_
  rw [← Nat.div_add_mod j 4]
  exact hq _ _ (Nat.mod_lt j (by omega))

/-- A decoded buffer always loads: the image has the decoder's dimensions and its
bytes are the decoder's buffer. -/
theorem load_ok (path : String) (d : Decoded) :
    ∃ img, RGBAImage.load path (some d) = .ok img ∧ img.width = d.width ∧
      img.height = d.height ∧ img.bytes = d.data := by
  have hwh : 0 ≤ d.width * d.height := (mul_pos d.width_pos d.height_pos).le
  have := d.data_size
  have hsize : d.data.size = (d.width * d.height * 4).toNat := by omega
  set image : RGBAImage :=
    ⟨d.width, d.height, mkArray (d.width * d.height).toNat default, d.width_isInt,
      d.height_isInt, d.area_isInt, by rw [Array.size_mkArray, Int.toNat_of_nonneg hwh]⟩
  have hnew : RGBAImage.new d.width d.height d.width_isInt d.height_isInt d.area_isInt =
      some image :=
    dif_pos hwh
  have himage : image.bytes.size = d.data.size := by
    rw [image.bytes_size, hsize, Array.size_mkArray]
    omega
  obtain ⟨bytes, hok, hbsize, hget⟩ :=
    @memcpy_ok 0 0 (d.width * d.height * 4).toNat d.data image.bytes (by omega) (by omega)
  have hbytes : bytes = d.data := array_eq_of_getElem? fun j ↦ by
    rw [hget]
    split
    · simp
    · rw [Array.getElem?_len_le _ (by omega), Array.getElem?_len_le _ (by omega)]
  refine ⟨image.setBytes bytes, ?_, rfl, rfl, ?_⟩
  · simp only [RGBAImage.load, hnew, hok]
  · rw [RGBAImage.bytes_setBytes _ (by rw [hbytes, ← himage, image.bytes_size]), hbytes]

/-- At a pitch of exactly one row and offset `0`, copying all the rows of a source
of `rows` rows into a buffer of the same length reproduces the source. -/
theorem RowsCopied.eq_source {source data data' : Array UInt8} {n rows : Nat} (hn : 0 < n)
    (h : RowsCopied source 0 n n rows data data') (hdata : data.size = rows * n)
    (hsource : source.size = rows * n) : data' = source := by
  obtain ⟨hsize, hrows, -⟩ := h
  refine array_eq_of_getElem? fun j ↦ ?_
  by_cases hj : j < rows * n
  · have hr : j / n < rows := (Nat.div_lt_iff_lt_mul hn).mpr hj
    have := hrows _ hr _ (Nat.mod_lt j hn)
    rwa [Nat.zero_add, Nat.div_add_mod'] at this
  · rw [Array.getElem?_len_le _ (by omega), Array.getElem?_len_le _ (by omega)]

/-- Loading a decoded buffer and copying the image out with `CopyWithStride`, at a
pitch of one row and offset `0`, into any buffer of the same length writes the
decoder's buffer back byte for byte. -/
theorem load_copyWithStride_round_trip (path : String) (d : Decoded) (data : Array UInt8)
    (hdata : data.size = d.data.size) :
    ∃ img, RGBAImage.load path (some d) = .ok img ∧ img.width = d.width ∧
      img.height = d.height ∧
      img.copyWithStride (UInt32.ofNat (4 * d.width.toNat)) 0 data = .ok () d.data := by
  obtain ⟨img, hload, hw, hh, hbytes⟩ := load_ok path d
  refine ⟨img, hload, hw, hh, ?_⟩
  have hrow := d.row_lt
  have hsize := d.size_toNat
  have hpos := d.width_pos
  -- The `uint32_t` conversions of the call are exact.
  have hpitch : (UInt32.ofNat (4 * d.width.toNat)).toNat = 4 * d.width.toNat :=
    UInt32.toNat_ofNat_of_lt (by unfold UInt32.size; omega)
  have hrowSize : toUInt32 (img.width * 4) = 4 * d.width.toNat := by
    rw [hw, toUInt32_of_mem (by omega) (by omega)]
    omega
  have hrows : toUInt32 img.height = d.height.toNat := by
    rw [hh, toUInt32_of_mem d.height_pos.le (by have := d.height_isInt.2; omega)]
  obtain ⟨data', hok, hcopied⟩ :=
    @copyWithStride_rows d.data 0 (4 * d.width.toNat) (4 * d.width.toNat) d.height.toNat data le_rfl
      (fun r hr ↦ by
        have := Nat.mul_le_mul_right (4 * d.width.toNat) (Nat.succ_le_of_lt hr)
        rw [Nat.succ_mul] at this
        omega)
      hsize.ge
  rw [RGBAImage.copyWithStride, hpitch, hrowSize, hrows, hbytes, UInt32.toNat_zero, hok,
    hcopied.eq_source (by omega) (hdata.trans hsize) hsize]

/-- A decoded 2×2 image, pixels `(1, 2, 3, 4)` to `(13, 14, 15, 16)`. -/
def twoByTwo : Decoded :=
  ⟨2, 2, #[1, 2, 3, 4, 5, 6, 7, 8, 9, 10, 11, 12, 13, 14, 15, 16], by decide, by decide, by decide,
    by decide, by decide, by decide⟩

/-- The 2×2 image, copied over sixteen zero bytes, writes its bytes back, one row
per iteration. -/
theorem load_copyWithStride_round_trip_two_rows :
    (mkArray 16 0 : Array UInt8).size = twoByTwo.data.size ∧
      ∃ img, RGBAImage.load "grid.png" (some twoByTwo) = .ok img ∧ img.width = twoByTwo.width ∧
        img.height = twoByTwo.height ∧
        img.copyWithStride (UInt32.ofNat (4 * twoByTwo.width.toNat)) 0 (mkArray 16 0) =
          .ok () twoByTwo.data :=
  have hdata : (mkArray 16 0 : Array UInt8).size = twoByTwo.data.size := rfl
  ⟨hdata, load_copyWithStride_round_trip "grid.png" twoByTwo _ hdata⟩

end Conformance
