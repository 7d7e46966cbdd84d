import Conformance.Float

/-!
# `RGBAImage`: the pixel buffer

An `RGBAImage` is a row-major vector of `RGBA8Color` with its `int` width and
height.  The constructor `RGBAImage(width, height)` (line 133) resizes the
vector to the `int` product `width * height`, and nothing in `RGBAImage.cpp`
resizes it again, so the structure carries `pixels.size() == width * height`
as a field, along with the range of the two `int` members and of their
product (`IsInt`): an image whose product overflows `int` was not sized to
`width * height` by its constructor.

Pixel indices are `int`s computed by pointer arithmetic, so the model reads
and writes through `Int` indices (`pixel?`, `readPixel`, `writePixel`) and
faults outside the vector.  What a drawing operation does to the buffer is
described by `Painted P c`: the pixels whose index satisfies `P` become `c`,
all others keep their value.  `writePixel_painted` is a single write in this
form, and `Painted.trans` composes writes of one colour, so every fill below
reduces to the set of indices it writes.
-/

namespace Conformance

/-- `RGBA8Color`: four 8-bit channels, R, G, B, A in memory order. -/
structure RGBA8Color where
  R : UInt8
  G : UInt8
  B : UInt8
  A : UInt8
deriving DecidableEq, Repr, Inhabited

/-- Byte `k` of a pixel as it lies in memory, for `k < 4`. -/
def RGBA8Color.byte (c : RGBA8Color) : Nat → UInt8
  | 0 => c.R
  | 1 => c.G
  | 2 => c.B
  | _ => c.A

/-- `XrColor4f`: a colour with one float per channel, nominally in `[0, 1]`. -/
structure XrColor4f where
  r : ℚ
  g : ℚ
  b : ℚ
  a : ℚ
deriving DecidableEq, Repr

/-- `AsRGBA` (line 38): each channel is `(uint8_t)(255 * c)`, a `float` product. -/
def asRGBA (r g b a : ℚ) : RGBA8Color :=
  ⟨castUInt8 (FloatFormat.binary32.round (255 * r)), castUInt8 (FloatFormat.binary32.round (255 * g)),
    castUInt8 (FloatFormat.binary32.round (255 * b)), castUInt8 (FloatFormat.binary32.round (255 * a))⟩

/-- `XrOffset2Di`. -/
structure XrOffset2Di where
  x : Int
  y : Int
deriving DecidableEq, Repr

/-- `XrExtent2Di`. -/
structure XrExtent2Di where
  width : Int
  height : Int
deriving DecidableEq, Repr

/-- `XrRect2Di`. -/
structure XrRect2Di where
  offset : XrOffset2Di
  extent : XrExtent2Di
deriving DecidableEq, Repr

/-- `RGBAImage`: its `int` members, and the invariant its constructor establishes. -/
structure RGBAImage where
  width : Int
  height : Int
  pixels : Array RGBA8Color
  width_isInt : IsInt width
  height_isInt : IsInt height
  area_isInt : IsInt (width * height)
  size_eq : (pixels.size : Int) = width * height

/-- `RGBAImage(width, height)`, for dimensions whose product is an `int`:
`pixels.resize(width * height)` value-initialises every pixel, and throws
`std::length_error` for a negative size, which the model reports as `none`. -/
def RGBAImage.new (width height : Int) (hw : IsInt width) (hh : IsInt height)
    (hwh : IsInt (width * height)) : Option RGBAImage :=
  if h : 0 ≤ width * height then
    some ⟨width, height, mkArray (width * height).toNat default, hw, hh, hwh, by simpa using h⟩
  else none

/-- A 2×2 image, every pixel zero. -/
def blank2x2 : RGBAImage := ⟨2, 2, mkArray 4 default, by decide, by decide, by decide, rfl⟩

namespace RGBAImage

variable {img img' img'' : RGBAImage}

/-- The pixel at `int` index `i` of the vector, if there is one. -/
def pixel? (img : RGBAImage) (i : Int) : Option RGBA8Color :=
  if 0 ≤ i then img.pixels[i.toNat]? else none

theorem pixel?_isSome_iff (img : RGBAImage) (i : Int) :
    (img.pixel? i).isSome ↔ 0 ≤ i ∧ i < img.width * img.height := by
  have := img.size_eq
  by_cases h0 : 0 ≤ i
  · by_cases hlt : i.toNat < img.pixels.size
    · simp [pixel?, h0, Array.getElem?_lt _ hlt]; omega
    · simp [pixel?, h0, Array.getElem?_len_le _ (not_lt.mp hlt)]; omega
  · simp [pixel?, h0]

/-- Two images with the same dimensions and the same pixel at every index are equal. -/
theorem ext {a b : RGBAImage} (hw : a.width = b.width) (hh : a.height = b.height)
    (hp : ∀ i, a.pixel? i = b.pixel? i) : a = b := by
  obtain ⟨w, h, p, _, _, _, hs⟩ := a
  obtain ⟨w', h', p', _, _, _, hs'⟩ := b
  simp only at hw hh
  subst hw hh
  have hsz : p.size = p'.size := by omega
  have hget : ∀ j : Nat, p[j]? = p'[j]? := fun j ↦ by
    simpa [pixel?] using hp j
  simp only [mk.injEq, true_and]
  exact Array.ext _ _ hsz fun j h₁ h₂ ↦ by
    simpa [Array.getElem?_lt, h₁, h₂] using hget j

/-- `img'` is `img` with every pixel whose index satisfies `P` set to `c`. -/
def Painted (P : Int → Prop) (c : RGBA8Color) (img img' : RGBAImage) : Prop :=
  img'.width = img.width ∧ img'.height = img.height ∧
    ∀ i, (P i → img'.pixel? i = (img.pixel? i).map fun _ ↦ c) ∧
      (¬ P i → img'.pixel? i = img.pixel? i)

theorem Painted.width_eq {P c} (h : Painted P c img img') : img'.width = img.width := h.1

theorem Painted.height_eq {P c} (h : Painted P c img img') : img'.height = img.height := h.2.1

theorem Painted.of_mem {P c i} (h : Painted P c img img') (hi : P i) :
    img'.pixel? i = (img.pixel? i).map fun _ ↦ c := (h.2.2 i).1 hi

theorem Painted.of_not_mem {P c i} (h : Painted P c img img') (hi : ¬ P i) :
    img'.pixel? i = img.pixel? i := (h.2.2 i).2 hi

theorem painted_empty {c} (img : RGBAImage) : Painted (fun _ ↦ False) c img img :=
  ⟨rfl, rfl, fun _ ↦ ⟨False.elim, fun _ ↦ rfl⟩⟩

theorem Painted.congr {P Q : Int → Prop} {c} (h : Painted P c img img') (hPQ : ∀ i, P i ↔ Q i) :
    Painted Q c img img' :=
  ⟨h.1, h.2.1, fun i ↦ ⟨fun hq ↦ h.of_mem ((hPQ i).2 hq), fun hq ↦ h.of_not_mem (mt (hPQ i).1 hq)⟩⟩

/-- Painting `P` and then `Q` in one colour paints `P ∨ Q`. -/
theorem Painted.trans {P Q : Int → Prop} {c} (h₁ : Painted P c img img')
    (h₂ : Painted Q c img' img'') : Painted (fun i ↦ P i ∨ Q i) c img img'' := by
  refine ⟨h₂.1.trans h₁.1, h₂.2.1.trans h₁.2.1, fun i ↦ ⟨fun hi ↦ ?_, fun hi ↦ ?_⟩⟩
  · by_cases hq : Q i
    · rw [h₂.of_mem hq]
      by_cases hp : P i
      · rw [h₁.of_mem hp]; cases img.pixel? i <;> rfl
      · rw [h₁.of_not_mem hp]
    · rw [h₂.of_not_mem hq, h₁.of_mem (hi.resolve_right hq)]
  · rw [h₂.of_not_mem (fun hq ↦ hi (.inr hq)), h₁.of_not_mem (fun hp ↦ hi (.inl hp))]

/-- A painted pixel of the vector holds the paint. -/
theorem Painted.pixel?_of_mem {P : Int → Prop} {c i} (h : Painted P c img img') (hP : P i)
    (hi : 0 ≤ i ∧ i < img.width * img.height) : img'.pixel? i = some c := by
  obtain ⟨v, hv⟩ := Option.isSome_iff_exists.mp ((pixel?_isSome_iff img i).mpr hi)
  rw [h.of_mem hP, hv, Option.map_some']

/-- `img` with `f i` applied to the pixel at each index `i`. -/
def mapPixels (img : RGBAImage) (f : Int → RGBA8Color → RGBA8Color) : RGBAImage :=
  { img with
    pixels := Array.ofFn fun k : Fin img.pixels.size ↦ f k (img.pixels.get k)
    size_eq := by rw [Array.size_ofFn]; exact img.size_eq }

theorem pixel?_mapPixels (img : RGBAImage) (f : Int → RGBA8Color → RGBA8Color) (i : Int) :
    (img.mapPixels f).pixel? i = (img.pixel? i).map (f i) := by
  unfold pixel? mapPixels
  split
  · next h =>
    by_cases hlt : i.toNat < img.pixels.size
    · rw [Array.getElem?_lt _ (by simpa using hlt), Array.getElem?_lt _ hlt, Array.getElem_ofFn,
        Option.map_some']
      simp [Int.toNat_of_nonneg h]
    · rw [Array.getElem?_len_le _ (by simpa using not_lt.mp hlt),
        Array.getElem?_len_le _ (not_lt.mp hlt)]
      rfl
  · rfl

/-- One colour channel of `ConvertToSRGB` (lines 324–326),
`(uint8_t)(ColorUtils::ToSRGB((double)c / 255.0) * 255.0)`, in the `double`
arithmetic `dfmt`.  `ColorUtils::ToSRGB` is not in this file; `toSRGB` is the
`double` it returns for the `double` it is passed. -/
def convertChannel (dfmt : FloatFormat) (toSRGB : ℚ → ℚ) (c : UInt8) : UInt8 :=
  castUInt8 (dfmt.round (toSRGB (dfmt.round (c.toNat / 255)) * 255))

/-- The body of the loop of `ConvertToSRGB`: the colour channels converted, alpha kept. -/
def convertPixel (dfmt : FloatFormat) (toSRGB : ℚ → ℚ) (p : RGBA8Color) : RGBA8Color :=
  ⟨convertChannel dfmt toSRGB p.R, convertChannel dfmt toSRGB p.G, convertChannel dfmt toSRGB p.B,
    p.A⟩

/-- `RGBAImage::ConvertToSRGB()` (lines 321–328): the loop over every pixel. -/
def convertToSRGB (dfmt : FloatFormat) (toSRGB : ℚ → ℚ) (img : RGBAImage) : RGBAImage :=
  img.mapPixels fun _ ↦ convertPixel dfmt toSRGB

/-- `pixels.data()[i] = c` at an index known to be in the vector. -/
def setPixel (img : RGBAImage) (i : Fin img.pixels.size) (c : RGBA8Color) : RGBAImage :=
  { img with pixels := img.pixels.set i c, size_eq := by rw [Array.size_set]; exact img.size_eq }

end RGBAImage

open RGBAImage

/-- Reading `pixels.data()[i]`, faulting outside the vector. -/
def readPixel (i : Int) : EStateM Fault RGBAImage RGBA8Color := fun img ↦
  match img.pixel? i with
  | some c => .ok c img
  | none => .error (.outOfBounds i) img

/-- Writing `pixels.data()[i] = c`, faulting outside the vector. -/
def writePixel (i : Int) (c : RGBA8Color) : EStateM Fault RGBAImage Unit := fun img ↦
  if h : 0 ≤ i ∧ i.toNat < img.pixels.size then .ok () (img.setPixel ⟨i.toNat, h.2⟩ c)
  else .error (.outOfBounds i) img

theorem readPixel_ok {img : RGBAImage} {i : Int} {c : RGBA8Color} (h : img.pixel? i = some c) :
    readPixel i img = .ok c img := by
  simp [readPixel, h]

/-- A write inside the vector paints exactly its own index. -/
theorem writePixel_painted {img : RGBAImage} {i : Int} (c : RGBA8Color)
    (hi : 0 ≤ i ∧ i < img.width * img.height) :
    ∃ img', writePixel i c img = .ok () img' ∧ Painted (· = i) c img img' := by
  have hlt : i.toNat < img.pixels.size := by have := img.size_eq; omega
  refine ⟨img.setPixel ⟨i.toNat, hlt⟩ c, dif_pos ⟨hi.1, hlt⟩, rfl, rfl, fun j ↦ ⟨?_, fun hj ↦ ?_⟩⟩
  · rintro rfl
    simp only [pixel?, if_pos hi.1, setPixel, Array.get?_set, ite_true, Array.getElem?_lt _ hlt,
      Option.map_some']
  · unfold pixel?
    split
    · simp only [setPixel, Array.get?_set]
      rw [if_neg (by omega)]
    · rfl

end Conformance
