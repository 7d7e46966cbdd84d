import Conformance.Image

/-!
# `CopyWithStride`: the pixels into a pitched buffer

`RGBAImage::CopyWithStride(data, rowPitch, offset)` (lines 330–334) hands the
pixel bytes to `Conformance::CopyWithStride` (lines 367–373), which `memcpy`s
row `row`, `rowSize` bytes long, from `source + row * rowSize` to
`dest + row * rowPitch`.  The buffer `data` is the state, an `Array UInt8`;
a `memcpy` that leaves the buffer or the source faults.

`rowSize` is `width * sizeof(RGBA8Color)` and `rows` is `height`, both
converted to `uint32_t` on the call.  For an image of non-negative size,
`copyWithStride_spec` says the buffer ends up with each pixel's four bytes at
`offset + r * rowPitch + 4 * c` and every other byte as it was.  An image may
also have negative width and height (`RGBAImage(-1, -1)` holds one pixel):
then the conversions wrap, to rows of `2 ^ 32 - 4` bytes, and the first
`memcpy` runs off any buffer (`copyWithStride_negative_overruns`).

The per-row `memcpy` is specified pointwise (`memcpy_ok`); the loop keeps
`RowsCopied`, the rows written so far, one row per iteration
(`RowsCopied.memcpy`), and `copyWithStride_rows` is the whole loop.

## What is not modelled

`data` is the buffer itself, from its first byte: a pointer into the middle
of a larger allocation is that allocation with a larger `offset`.  `row * rowPitch`
is a `size_t` product of two values below `2 ^ 32` and does not wrap.
-/

namespace Conformance

/-- `memcpy(dest + d, src + s, n)` on the buffer `dest`: bytes `d` to `d + n` of
`dest` become bytes `s` to `s + n` of `src`. -/
def memcpy (d : Nat) (src : Array UInt8) (s n : Nat) : EStateM Fault (Array UInt8) Unit :=
  fun dest ↦
    if h : d + n ≤ dest.size ∧ s + n ≤ src.size then
      .ok () (Array.ofFn fun j : Fin dest.size ↦
        if hj : d ≤ j.val ∧ j.val < d + n then src.get ⟨s + (j.val - d), by omega⟩
        else dest.get j)
    else .error (.outOfBounds (d + n)) dest

/-- A `memcpy` inside both buffers overwrites exactly its destination range. -/
theorem memcpy_ok {d s n : Nat} {src dest : Array UInt8} (hd : d + n ≤ dest.size)
    (hs : s + n ≤ src.size) :
    ∃ dest', memcpy d src s n dest = .ok () dest' ∧ dest'.size = dest.size ∧
      ∀ j, dest'[j]? = if d ≤ j ∧ j < d + n then src[s + (j - d)]? else dest[j]? := by
  refine ⟨_, dif_pos ⟨hd, hs⟩, Array.size_ofFn _, fun j ↦ ?_⟩
  rw [Array.getElem?_ofFn]
  by_cases hj : j < dest.size
  · by_cases hr : d ≤ j ∧ j < d + n
    · simp only [hj, hr, dif_pos, if_pos, and_self, Array.get_eq_getElem,
        Array.getElem?_lt _ (show s + (j - d) < src.size by omega)]
    · simp only [hj, hr, dif_pos, dif_neg, if_neg, not_false_eq_true, Array.get_eq_getElem,
        Array.getElem?_lt _ hj]
  · simp only [hj, dif_neg, not_false_eq_true, Array.getElem?_len_le _ (Nat.le_of_not_lt hj)]
    rw [if_neg (by omega)]

/-- `Conformance::CopyWithStride(source, dest, rowSize, rows, rowPitch)`, with
`dest` at byte `destOffset` of the buffer. -/
def copyWithStride (source : Array UInt8) (destOffset rowSize rows rowPitch : Nat) :
    EStateM Fault (Array UInt8) Unit :=
  forRange 0 rows fun row ↦
    memcpy (destOffset + row.toNat * rowPitch) source (row.toNat * rowSize) rowSize

section Rows

variable (source : Array UInt8) (destOffset rowSize rowPitch : Nat)

/-- After `k` iterations: rows `r < k` of `source` are at `destOffset + r * rowPitch`,
and every byte outside them is as in `data`. -/
def RowsCopied (k : Nat) (data data' : Array UInt8) : Prop :=
  data'.size = data.size ∧
    (∀ r < k, ∀ m < rowSize, data'[destOffset + r * rowPitch + m]? = source[r * rowSize + m]?) ∧
    ∀ j, (∀ r < k, ∀ m < rowSize, j ≠ destOffset + r * rowPitch + m) → data'[j]? = data[j]?

/-- An earlier row ends before a later one starts when rows are no longer than the pitch. -/
theorem row_end_le {r k m : Nat} (hr : r < k) (hm : m < rowSize) (hP : rowSize ≤ rowPitch) :
    r * rowPitch + m < k * rowPitch :=
  calc r * rowPitch + m < (r + 1) * rowPitch := by rw [Nat.succ_mul]; omega
    _ ≤ k * rowPitch := Nat.mul_le_mul_right _ hr

variable {source destOffset rowSize rowPitch}

/-- One iteration: copying row `k` extends the rows copied by one. -/
theorem RowsCopied.memcpy {k : Nat} {data s : Array UInt8}
    (h : RowsCopied source destOffset rowSize rowPitch k data s) (hP : rowSize ≤ rowPitch)
    (hd : destOffset + k * rowPitch + rowSize ≤ data.size)
    (hs : k * rowSize + rowSize ≤ source.size) :
    ∃ s', Conformance.memcpy (destOffset + k * rowPitch) source (k * rowSize) rowSize s = .ok () s' ∧
      RowsCopied source destOffset rowSize rowPitch (k + 1) data s' := by
  obtain ⟨hsize, hrows, hframe⟩ := h
  obtain ⟨s', hok, hsize', hget⟩ :=
    memcpy_ok (show destOffset + k * rowPitch + rowSize ≤ s.size by omega) hs
  refine ⟨s', hok, hsize'.trans hsize, fun r hr m hm ↦ ?_, fun j hj ↦ ?_⟩
  · rw [hget]
    rcases Nat.lt_succ_iff_lt_or_eq.mp hr with hr | rfl
    · have := row_end_le rowSize rowPitch hr hm hP
      rw [if_neg (by omega), hrows r hr m hm]
    · rw [if_pos (by omega), Nat.add_sub_cancel_left]
  · have hk : ¬(destOffset + k * rowPitch ≤ j ∧ j < destOffset + k * rowPitch + rowSize) :=
      fun ⟨h₀, h₁⟩ ↦ hj k (Nat.lt_succ_self k) (j - (destOffset + k * rowPitch)) (by omega)
        (by omega)
    rw [hget, if_neg hk, hframe j fun r hr ↦ hj r (Nat.lt_succ_of_lt hr)]

/-- The whole loop: with rows no longer than the pitch and both buffers large enough,
`CopyWithStride` copies all `rows` rows and touches nothing else. -/
theorem copyWithStride_rows {rows : Nat} {data : Array UInt8} (hP : rowSize ≤ rowPitch)
    (hd : ∀ r < rows, destOffset + r * rowPitch + rowSize ≤ data.size)
    (hs : rows * rowSize ≤ source.size) :
    ∃ data', copyWithStride source destOffset rowSize rows rowPitch data = .ok () data' ∧
      RowsCopied source destOffset rowSize rowPitch rows data data' := by
  have hbody : ∀ (i : Int) s, 0 ≤ i → i < rows →
      RowsCopied source destOffset rowSize rowPitch i.toNat data s →
      ∃ s', Conformance.memcpy (destOffset + i.toNat * rowPitch) source (i.toNat * rowSize)
        rowSize s = .ok () s' ∧ RowsCopied source destOffset rowSize rowPitch (i + 1).toNat data s' :=
    fun i s h₀ h₁ hI ↦ by
      have hsrc : i.toNat * rowSize + rowSize ≤ source.size :=
        calc i.toNat * rowSize + rowSize = (i.toNat + 1) * rowSize := (Nat.succ_mul _ _).symm
          _ ≤ rows * rowSize := Nat.mul_le_mul_right _ (by omega)
          _ ≤ source.size := hs
      rw [show (i + 1).toNat = i.toNat + 1 by omega]
      exact hI.memcpy hP (hd _ (by omega)) hsrc
  have := forRange_ok (I := fun i s ↦ RowsCopied source destOffset rowSize rowPitch i.toNat data s)
    hbody (s := data) ⟨rfl, fun _ h ↦ absurd h (Nat.not_lt_zero _), fun _ _ ↦ rfl⟩
  simpa only [copyWithStride, show (max 0 (rows : Int)).toNat = rows by omega] using this

end Rows

/-- `reinterpret_cast<const uint8_t*>(pixels.data())`: byte `b` of the pixels is
byte `b % 4` of pixel `b / 4`. -/
def RGBAImage.bytes (img : RGBAImage) : Array UInt8 :=
  Array.ofFn fun b : Fin (4 * img.pixels.size) ↦
    (img.pixels.get ⟨b.val / 4, by omega⟩).byte (b.val % 4)

theorem RGBAImage.bytes_size (img : RGBAImage) : img.bytes.size = 4 * img.pixels.size :=
  Array.size_ofFn _

theorem RGBAImage.bytes_getElem? (img : RGBAImage) (i : Nat) {k : Nat} (hk : k < 4) :
    img.bytes[4 * i + k]? = img.pixels[i]?.map fun p ↦ p.byte k := by
  rw [RGBAImage.bytes, Array.getElem?_ofFn]
  by_cases hi : i < img.pixels.size
  · rw [dif_pos (by omega), Array.getElem?_lt _ hi]
    simp only [Array.get_eq_getElem, Option.map_some', show (4 * i + k) / 4 = i by omega,
      show (4 * i + k) % 4 = k by omega]
  · rw [dif_neg (by omega), Array.getElem?_len_le _ (Nat.le_of_not_lt hi), Option.map_none']

/-- `RGBAImage::CopyWithStride(data, rowPitch, offset)`: `width * sizeof(RGBA8Color)`
and `height` become the `uint32_t` parameters `rowSize` and `rows`. -/
def RGBAImage.copyWithStride (img : RGBAImage) (rowPitch offset : UInt32) :
    EStateM Fault (Array UInt8) Unit :=
  Conformance.copyWithStride img.bytes offset.toNat (toUInt32 (img.width * 4))
    (toUInt32 img.height) rowPitch.toNat

/-- The buffer `data'` holds byte `k` of pixel `r * width + c` at
`offset + r * rowPitch + 4 * c + k`, and every other byte of `data`. -/
def CopiedWithStride (img : RGBAImage) (rowPitch offset : Nat) (data data' : Array UInt8) :
    Prop :=
  (∀ r c k : Nat, (r : Int) < img.height → (c : Int) < img.width → k < 4 →
    ∃ p, img.pixels[r * img.width.toNat + c]? = some p ∧
      data'[offset + r * rowPitch + 4 * c + k]? = some (p.byte k)) ∧
  ∀ j : Nat, (∀ r c k : Nat, (r : Int) < img.height → (c : Int) < img.width → k < 4 →
    j ≠ offset + r * rowPitch + 4 * c + k) → data'[j]? = data[j]?

/-- An image of width and height `-1`, holding `(-1) * (-1) = 1` pixel. -/
def negativeImage : RGBAImage := ⟨-1, -1, #[default], by decide, by decide, by decide, by decide⟩

/-- With width and height `-1`, `rowPitch = 0`, `offset = 0` and an empty buffer, the
size conditions hold, yet the first row's `memcpy` is `2 ^ 32 - 4` bytes long and
leaves the buffer. -/
theorem copyWithStride_negative_overruns :
    4 * negativeImage.width ≤ (0 : UInt32).toNat ∧
      ((0 : UInt32).toNat : Int) + (negativeImage.height - 1) * (0 : UInt32).toNat +
        4 * negativeImage.width ≤ (#[] : Array UInt8).size ∧
      negativeImage.copyWithStride 0 0 #[] = .error (.outOfBounds (2 ^ 32 - 4)) #[] := by
  refine ⟨by decide, by decide, ?_⟩
  have hrows : toUInt32 negativeImage.height = 4294967294 + 1 := by decide
  rw [RGBAImage.copyWithStride, copyWithStride, forRange, hrows,
    show ((4294967294 + 1 : Nat) - 0 : Int).toNat = 4294967294 + 1 by omega]
  exact bind_error (dif_neg (by decide))

theorem RGBAImage.size_toNat {img : RGBAImage} (hw : 0 ≤ img.width) (hh : 0 ≤ img.height) :
    img.pixels.size = img.height.toNat * img.width.toNat := by
  have := img.size_eq
  rw [← Int.toNat_of_nonneg hw, ← Int.toNat_of_nonneg hh, mul_comm] at this
  exact_mod_cast this

/-- All rows of `4 * width` bytes copied from the pixel bytes put each pixel's
bytes at its place, and nothing else. -/
theorem RowsCopied.copiedWithStride {img : RGBAImage} {rowPitch offset : Nat}
    {data data' : Array UInt8} (hw : 0 ≤ img.width) (hh : 0 ≤ img.height)
    (h : RowsCopied img.bytes offset (4 * img.width.toNat) rowPitch img.height.toNat data data') :
    CopiedWithStride img rowPitch offset data data' := by
  obtain ⟨-, hrow, hframe⟩ := h
  refine ⟨fun r c k hr hc hk ↦ ?_, fun j hj ↦ hframe j fun r hr m hm ↦ ?_⟩
  · have hpix : r * img.width.toNat + c < img.pixels.size := by
      rw [RGBAImage.size_toNat hw hh]
      calc r * img.width.toNat + c < (r + 1) * img.width.toNat := by rw [Nat.succ_mul]; omega
        _ ≤ img.height.toNat * img.width.toNat := Nat.mul_le_mul_right _ (by omega)
    refine ⟨_, Array.getElem?_lt _ hpix, ?_⟩
    have := hrow r (by omega) (4 * c + k) (by omega)
    rw [← Nat.add_assoc] at this
    rw [this, show r * (4 * img.width.toNat) + (4 * c + k) =
      4 * (r * img.width.toNat + c) + k by ring, RGBAImage.bytes_getElem? _ _ hk,
      Array.getElem?_lt _ hpix, Option.map_some']
  · have := hj r (m / 4) (m % 4) (by omega) (by omega) (Nat.mod_lt _ (by norm_num))
    omega

/-- For an image of non-negative width and height, a pitch of at least one row of
pixels and a buffer reaching the last row, `CopyWithStride` writes every pixel's
bytes at its place and leaves every other byte, padding included, unchanged. -/
theorem copyWithStride_spec (img : RGBAImage) (rowPitch offset : UInt32) (data : Array UInt8)
    (hw : 0 ≤ img.width) (hh : 0 ≤ img.height) (hpitch : 4 * img.width ≤ rowPitch.toNat)
    (hsize : (offset.toNat : Int) + (img.height - 1) * rowPitch.toNat + 4 * img.width ≤
      data.size) :
    ∃ data', img.copyWithStride rowPitch offset data = .ok () data' ∧
      CopiedWithStride img rowPitch.toNat offset.toNat data data' := by
  have hP : rowPitch.toNat < 2 ^ 32 := rowPitch.toNat_lt_size
  have hrowSize : toUInt32 (img.width * 4) = 4 * img.width.toNat :=
    (toUInt32_of_mem (by omega) (by omega)).trans (by omega)
  have hrows : toUInt32 img.height = img.height.toNat :=
    toUInt32_of_mem hh (by have := img.height_isInt.2; omega)
  have hdest : ∀ r < img.height.toNat,
      offset.toNat + r * rowPitch.toNat + 4 * img.width.toNat ≤ data.size := fun r hr ↦ by
    have : (r : Int) * rowPitch.toNat ≤ (img.height - 1) * rowPitch.toNat :=
      Int.mul_le_mul_of_nonneg_right (by omega) (Int.ofNat_nonneg _)
    push_cast at this
    omega
  have hsrc : img.height.toNat * (4 * img.width.toNat) ≤ img.bytes.size := by
    rw [RGBAImage.bytes_size, RGBAImage.size_toNat hw hh]
    exact Nat.le_of_eq (by ring)
  obtain ⟨data', hok, hcopied⟩ := copyWithStride_rows (by omega) hdest hsrc
  exact ⟨data', by rw [RGBAImage.copyWithStride, hrowSize, hrows]; exact hok,
    hcopied.copiedWithStride hw hh⟩

/-- The blank 2×2 image into a 20-byte buffer with a pitch of 12 bytes, 4 of them
padding, meets the hypotheses of `copyWithStride_spec`. -/
theorem copyWithStride_spec_two_by_two :
    0 ≤ blank2x2.width ∧ 0 ≤ blank2x2.height ∧ 4 * blank2x2.width ≤ (12 : UInt32).toNat ∧
      ((0 : UInt32).toNat : Int) + (blank2x2.height - 1) * (12 : UInt32).toNat +
        4 * blank2x2.width ≤ (mkArray 20 (0 : UInt8)).size ∧
      ∃ data', blank2x2.copyWithStride 12 0 (mkArray 20 0) = .ok () data' ∧
        CopiedWithStride blank2x2 (12 : UInt32).toNat (0 : UInt32).toNat (mkArray 20 0) data' :=
  ⟨by decide, by decide, by decide, by decide,
    copyWithStride_spec blank2x2 12 0 (mkArray 20 0) (by decide) (by decide) (by decide)
      (by decide)⟩

end Conformance
