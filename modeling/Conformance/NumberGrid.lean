import Conformance.TextFrame
import Conformance.DrawRect

/-!
# The number grid

`test_LayerComposition.cpp` draws each slice of its number grid (lines 273–298)
by filling the image red, the colour that must never be seen, and then drawing
one number cell per column.  A cell is three calls on its rectangle: `DrawRect`
in transparent, `PutText` of the number, and `DrawRectBorder` of thickness `4`
in the number's colour (`numberCell`).  The slice ends with `ConvertToSRGB`.
Each quad layer then shows exactly one `numberRect` of the image.

`numberGrid_spec` gives every pixel of a finished slice, for any font whose
boxes lie in its atlas and any numbers and colours: red outside the cells, and
in each cell the number's colour on the border ring and, inside it, the glyphs
of the number blended over transparent exactly as `PutText` blends them
(`gridPixel`), each pixel then converted to sRGB.  It is the loop of the columns
over `numberCell_spec`, which says the same of one cell anywhere in any image,
and that the cell changes no pixel outside it.  The text part is
`putText_updates`; that `PutText` leaves the pixels off the cell alone is
`placementsUpdate_of_not_passesClip`.

`blendChannel_exact` is the arithmetic of one blended channel: it never wraps,
and the `float` product it truncates is within one of the exact product's floor.
-/

namespace Conformance

open RGBAImage

/-! ## Blending -/

/-- With a colour channel in `[0, 1]`, the channel blend of lines 265–268 never
wraps in `uint8_t`: the stored byte is the exact sum of `(uint8_t)(src * c)` and
`dst * (255 - src) / 255`.  The `float` product `src * c` truncates to the floor
of the exact product or, when it rounds up across an integer, to one more.  At
full coverage the blend is `(uint8_t)(255 * c)`, the channel `AsRGBA` gives. -/
theorem blendChannel_exact (fmt : FloatFormat) (src dst : UInt8) {c : ℚ} (h₀ : 0 ≤ c)
    (h₁ : c ≤ 1) :
    (blendChannel fmt src c dst).toNat =
      ⌊fmt.round (src.toNat * c)⌋.toNat + dst.toNat * (255 - src.toNat) / 255 ∧
    ⌊(src.toNat : ℚ) * c⌋ ≤ ⌊fmt.round (src.toNat * c)⌋ ∧
    ⌊fmt.round (src.toNat * c)⌋ ≤ ⌊(src.toNat : ℚ) * c⌋ + 1 ∧
    (src = 255 → blendChannel fmt src c dst = castUInt8 (fmt.round (255 * c))) := by
  have hsrc : src.toNat < 256 := src.toNat_lt_size
  have hdst : dst.toNat < 256 := dst.toNat_lt_size
  have hq₀ : 0 ≤ (src.toNat : ℚ) * c := mul_nonneg (Nat.cast_nonneg _) h₀
  have hq₁ : (src.toNat : ℚ) * c ≤ src.toNat := mul_le_of_le_one_right (Nat.cast_nonneg _) h₁
  have hfl₀ : 0 ≤ ⌊(src.toNat : ℚ) * c⌋ := Int.floor_nonneg.mpr hq₀
  have hfl₁ : ⌊(src.toNat : ℚ) * c⌋ ≤ src.toNat := by simpa using Int.floor_le_floor hq₁
  -- the rounded product lies between the floats `⌊src * c⌋`, `⌊src * c⌋ + 1` and `src`
  have hr₀ : ((⌊(src.toNat : ℚ) * c⌋ : Int) : ℚ) ≤ fmt.round (src.toNat * c) :=
    fmt.le_round (isBinary32_intCast (by rw [abs_lt]; omega)) (Int.floor_le _)
  have hr₁ : fmt.round (src.toNat * c) ≤ ((⌊(src.toNat : ℚ) * c⌋ + 1 : Int) : ℚ) :=
    fmt.round_le (isBinary32_intCast (by rw [abs_lt]; omega))
      (by push_cast; exact (Int.lt_floor_add_one _).le)
  have hr₂ : fmt.round (src.toNat * c) ≤ ((src.toNat : Int) : ℚ) :=
    fmt.round_le (isBinary32_intCast (by rw [abs_lt]; omega)) (by exact_mod_cast hq₁)
  have hlo : ⌊(src.toNat : ℚ) * c⌋ ≤ ⌊fmt.round (src.toNat * c)⌋ := Int.le_floor.mpr hr₀
  have hhi : ⌊fmt.round (src.toNat * c)⌋ ≤ ⌊(src.toNat : ℚ) * c⌋ + 1 := Int.floor_le_floor hr₁ |>.trans
    (by rw [Int.floor_intCast])
  have hsrc' : ⌊fmt.round (src.toNat * c)⌋ ≤ src.toNat :=
    (Int.floor_le_floor hr₂).trans (by rw [Int.floor_intCast])
  have hdiv : dst.toNat * (255 - src.toNat) / 255 ≤ 255 - src.toNat :=
    Nat.div_le_of_le_mul (Nat.mul_le_mul_right _ (by omega))
  have hcast : (castUInt8 (fmt.round (src.toNat * c))).toNat = ⌊fmt.round (src.toNat * c)⌋.toNat := by
    rw [castUInt8, truncToInt, if_pos (hr₀.trans' (by exact_mod_cast hfl₀)),
      Int.emod_eq_of_lt (by omega) (by omega)]
    exact UInt8.toNat_ofNat_of_lt (by unfold UInt8.size; omega)
  refine ⟨?_, hlo, hhi, fun h ↦ ?_⟩
  · rw [blendChannel, UInt8.toNat_ofNat_of_lt (by unfold UInt8.size; omega), hcast]
  · subst h
    have h255 : ((255 : UInt8).toNat : ℚ) = 255 := by
      rw [show (255 : UInt8).toNat = 255 from rfl, Nat.cast_ofNat]
    have hzero : dst.toNat * (255 - (255 : UInt8).toNat) / 255 = 0 := by
      rw [show (255 : UInt8).toNat = 255 from rfl, Nat.sub_self, Nat.mul_zero, Nat.zero_div]
    rw [blendChannel, hzero, Nat.add_zero, h255]
    exact UInt8.toNat.inj (UInt8.toNat_ofNat_of_lt (UInt8.toNat_lt_size _))

/-- Coverage 200 of the channel `8472494 * 2 ^ -24` over black, in `float`: the
exact product `100.99999…` rounds to `101`. -/
theorem blendChannel_exact_round_up :
    (0 : ℚ) ≤ 8472494 / 16777216 ∧ (8472494 / 16777216 : ℚ) ≤ 1 ∧
    ((blendChannel .binary32 200 (8472494 / 16777216) 0).toNat =
      ⌊FloatFormat.binary32.round ((200 : UInt8).toNat * (8472494 / 16777216))⌋.toNat +
        (0 : UInt8).toNat * (255 - (200 : UInt8).toNat) / 255 ∧
    ⌊((200 : UInt8).toNat : ℚ) * (8472494 / 16777216)⌋ ≤
      ⌊FloatFormat.binary32.round ((200 : UInt8).toNat * (8472494 / 16777216))⌋ ∧
    ⌊FloatFormat.binary32.round ((200 : UInt8).toNat * (8472494 / 16777216))⌋ ≤
      ⌊((200 : UInt8).toNat : ℚ) * (8472494 / 16777216)⌋ + 1 ∧
    ((200 : UInt8) = 255 → blendChannel .binary32 200 (8472494 / 16777216) 0 =
      castUInt8 (FloatFormat.binary32.round (255 * (8472494 / 16777216))))) :=
  have h₀ : (0 : ℚ) ≤ 8472494 / 16777216 := by norm_num
  have h₁ : (8472494 / 16777216 : ℚ) ≤ 1 := by norm_num
  ⟨h₀, h₁, blendChannel_exact .binary32 200 0 h₀ h₁⟩

/-! ## The cell -/

/-- Pixel `(px, py)` lies in `rect`. -/
def InRect (rect : XrRect2Di) (px py : Int) : Prop :=
  rect.offset.x ≤ px ∧ px < rect.offset.x + rect.extent.width ∧
    rect.offset.y ≤ py ∧ py < rect.offset.y + rect.extent.height

instance (rect : XrRect2Di) (px py : Int) : Decidable (InRect rect px py) :=
  inferInstanceAs (Decidable (_ ∧ _))

section Cell

variable (fmt : FloatFormat) (font : BakedFont) (rect : XrRect2Di) (charIsSigned : Bool)

/-- The glyphs of a text leave every pixel that fails the clip tests alone. -/
theorem placementsUpdate_of_not_passesClip (color : XrColor4f) {width height i : Int}
    (hi : ¬PassesClip rect width height (i % width) (i / width)) :
    ∀ placements : List Placement,
      placementsUpdate fmt font rect charIsSigned placements color width height i = id
  | [] => rfl
  | g :: gs => funext fun p ↦ by
    have hg : glyphUpdate fmt font rect (font.getBakedChar (charValue charIsSigned g.char)) g.pen
        color width height i p = p := by
      rw [glyphUpdate, glyphCoverage, if_neg hi]
    rw [placementsUpdate, List.foldl_cons, hg, ← placementsUpdate,
      placementsUpdate_of_not_passesClip color hi gs, id]

variable (text : CString) (pixelHeight : Int) (wordWrap : WordWrap) (background color : XrColor4f)

/-- Lines 282–286 of `test_LayerComposition.cpp`: the cell `rect` is cleared to
`background`, the number `text` is written in `color`, and a border of
thickness `4` is drawn around the cell in `color`. -/
def numberCell : EStateM Fault RGBAImage Unit := do
  drawRect rect.offset.x rect.offset.y rect.extent.width rect.extent.height background
  let _ ← putText fmt font rect pixelHeight wordWrap charIsSigned text color
  drawRectBorder rect.offset.x rect.offset.y rect.extent.width rect.extent.height 4 color

/-- What a number cell holds at cell coordinates `(c, r)` in an image `width`
wide: `color` on the border ring of thickness `4`, and inside it the glyphs of
`text` blended over `background`. -/
def cellPixel (width height c r : Int) : RGBA8Color :=
  if min r (rect.extent.height - 1 - r) < 4 ∨ min c (rect.extent.width - 1 - c) < 4 then
    asRGBA color.r color.g color.b color.a
  else
    placementsUpdate fmt font rect charIsSigned
      (layout fmt font rect pixelHeight wordWrap charIsSigned text) color width height
      ((rect.offset.y + r) * width + (rect.offset.x + c))
      (asRGBA background.r background.g background.b background.a)

/-- For a cell inside the image and a font whose boxes lie in its atlas, the
three calls of a number-grid cell return, leave each pixel of the cell as
`cellPixel` says, and change no pixel off the cell. -/
theorem numberCell_spec (img : RGBAImage) (hfont : font.BoxesInAtlas) (hx : 0 ≤ rect.offset.x)
    (hy : 0 ≤ rect.offset.y) (hw : 0 ≤ rect.extent.width) (hh : 0 ≤ rect.extent.height)
    (hxw : rect.offset.x + rect.extent.width ≤ img.width)
    (hyh : rect.offset.y + rect.extent.height ≤ img.height) :
    ∃ img', numberCell fmt font rect charIsSigned text pixelHeight wordWrap background color img =
        .ok () img' ∧ img'.width = img.width ∧ img'.height = img.height ∧
      (∀ c r, 0 ≤ c → c < rect.extent.width → 0 ≤ r → r < rect.extent.height →
        img'.pixel? ((rect.offset.y + r) * img.width + (rect.offset.x + c)) =
          some (cellPixel fmt font rect charIsSigned text pixelHeight wordWrap background color
            img.width img.height c r)) ∧
      (∀ px py, 0 ≤ px → px < img.width → ¬InRect rect px py →
        img'.pixel? (py * img.width + px) = img.pixel? (py * img.width + px)) := by
  have hW := img.width_isInt
  have hH := img.height_isInt
  unfold IsInt at hW hH
  -- `DrawRect` clears the cell.
  obtain ⟨img₁, hrun₁, hp₁⟩ := drawRect_inside img _ _ _ _ background hx hy hw hh hxw hyh
  -- `PutText` blends the glyphs of its layout.
  obtain ⟨img₂, hrun₂, hW₂, hH₂, hp₂⟩ :=
    @putText_updates fmt font rect hfont pixelHeight wordWrap charIsSigned text color img₁
  simp only [hp₁.width_eq, hp₁.height_eq] at hp₂ hW₂ hH₂
  -- `DrawRectBorder` paints the ring.
  obtain ⟨img₃, hrun₃, hp₃⟩ := drawRectBorder_painted img₂ rect.offset.x rect.offset.y
    rect.extent.width rect.extent.height 4 color
    (by rw [hW₂, hH₂]; omega) ⟨by omega, by omega⟩ ⟨by omega, by omega⟩
  rw [hW₂] at hp₃
  refine ⟨img₃, ?_, hp₃.width_eq.trans hW₂, hp₃.height_eq.trans hH₂,
    fun c r hc₀ hc₁ hr₀ hr₁ ↦ ?_, fun px py h₀ h₁ hout ↦ ?_⟩
  · simp only [numberCell, bind_ok hrun₁, bind_ok hrun₂, hrun₃]
  · have hmem : 0 ≤ (rect.offset.y + r) * img.width + (rect.offset.x + c) ∧
        (rect.offset.y + r) * img.width + (rect.offset.x + c) < img.width * img.height :=
      rowMajor_mem (by omega) (by omega) (by omega) (by omega)
    unfold cellPixel
    split
    · next hring =>
      exact hp₃.pixel?_of_mem ((borderIndex_iff hx hy (hW₂ ▸ hxw) (hH₂ ▸ hyh) hc₀ hc₁ hr₀ hr₁).mpr
        hring) (by rw [hW₂, hH₂]; exact hmem)
    · next hring =>
      rw [hp₃.of_not_mem (mt (borderIndex_iff hx hy (hW₂ ▸ hxw) (hH₂ ▸ hyh) hc₀ hc₁ hr₀ hr₁).mp
          hring), hp₂, hp₁.pixel?_of_mem ((rectIndex_iff hx hy hxw hyh (by omega) (by omega)).mpr
          ⟨by omega, by omega, by omega, by omega⟩) hmem]
      rfl
  · obtain ⟨hmod, hdiv⟩ := @rowMajor_emod_ediv _ _ py h₀ h₁
    have hclip : ¬PassesClip rect img.width img.height ((py * img.width + px) % img.width)
        ((py * img.width + px) / img.width) := fun hclip ↦ by
      rw [hmod, hdiv, passesClip_iff ⟨by omega, by omega⟩ ⟨by omega, by omega⟩] at hclip
      exact hout hclip.2.2.2.2
    rw [hp₃.of_not_mem (not_borderIndex_of_not_mem hx hy (hW₂ ▸ hxw) (hH₂ ▸ hyh) h₀
        (hW₂ ▸ h₁) hout), hp₂, placementsUpdate_of_not_passesClip fmt font rect charIsSigned color
        hclip, hp₁.of_not_mem (mt (rectIndex_iff hx hy hxw hyh h₀ h₁).mp hout)]
    cases img.pixel? (py * img.width + px) <;> rfl

end Cell

/-! ## The grid -/

/-- `ImageColCount` (line 253). -/
def imageColCount : Int := 4

/-- `ImageWidth` (line 255). -/
def imageWidth : Int := 1024

/-- `ImageHeight` (line 256). -/
def imageHeight : Int := imageWidth / imageColCount

/-- `RedZoneBorderSize` (line 257). -/
def redZoneBorderSize : Int := 16

/-- `CellWidth` (line 258). -/
def cellWidth : Int := imageWidth / imageColCount

/-- `CellHeight` (line 259). -/
def cellHeight : Int := cellWidth

/-- `numberRect` of column `x` (lines 280–281). -/
def numberRect (x : Int) : XrRect2Di :=
  ⟨⟨x * cellWidth + redZoneBorderSize, redZoneBorderSize⟩,
    ⟨cellWidth - redZoneBorderSize * 2, cellHeight - redZoneBorderSize * 2⟩⟩

theorem numberRect_eq (x : Int) : numberRect x = ⟨⟨x * 256 + 16, 16⟩, ⟨224, 224⟩⟩ := rfl

section Grid

variable (fmt dfmt : FloatFormat) (toSRGB : ℚ → ℚ) (font : BakedFont) (number : Int → CString)
  (color : Int → XrColor4f) (wordWrap : WordWrap) (charIsSigned : Bool)
  (red transparent : XrColor4f)

/-- One slice of the number grid (lines 273–299): the image is filled `red`,
column `x` gets the number cell of `numberRect x`, writing `number x` in
`color x` over `transparent`, and the image is converted to sRGB. -/
def numberGrid : EStateM Fault RGBAImage Unit := do
  let numberGridImage ← get
  drawRect 0 0 numberGridImage.width numberGridImage.height red
  forRange 0 imageColCount fun x ↦
    numberCell fmt font (numberRect x) charIsSigned (number x) cellHeight wordWrap transparent
      (color x)
  modify (convertToSRGB dfmt toSRGB)

/-- What the slice holds at pixel `(px, py)` before the conversion to sRGB, in
column `px / CellWidth`: inside that column's number cell what `cellPixel` says,
and `red` everywhere else. -/
def gridPixel (px py : Int) : RGBA8Color :=
  if InRect (numberRect (px / cellWidth)) px py then
    cellPixel fmt font (numberRect (px / cellWidth)) charIsSigned (number (px / cellWidth))
      cellHeight wordWrap transparent (color (px / cellWidth)) imageWidth imageHeight
      (px - (numberRect (px / cellWidth)).offset.x) (py - (numberRect (px / cellWidth)).offset.y)
  else asRGBA red.r red.g red.b red.a

/-- The slice after the columns `x < i`: those columns as designed, the others red. -/
def GridAfter (i : Int) (img : RGBAImage) : Prop :=
  img.width = imageWidth ∧ img.height = imageHeight ∧
    ∀ px py, 0 ≤ px → px < imageWidth → 0 ≤ py → py < imageHeight →
      img.pixel? (py * imageWidth + px) =
        some (if px / cellWidth < i then
          gridPixel fmt font number color wordWrap charIsSigned red transparent px py
        else asRGBA red.r red.g red.b red.a)

/-- A number cell lies in its own column. -/
theorem column_of_inRect {x px py : Int} (h : InRect (numberRect x) px py) : px / cellWidth = x := by
  rw [numberRect_eq] at h
  simp only [InRect] at h
  rw [show cellWidth = 256 from rfl]
  omega

variable {fmt font number color wordWrap charIsSigned red transparent} in
/-- Drawing the cell of column `i` extends the designed columns by one. -/
theorem GridAfter.numberCell (hfont : font.BoxesInAtlas) {i : Int} {s : RGBAImage} (h₀ : 0 ≤ i)
    (h₁ : i < imageColCount)
    (hs : GridAfter fmt font number color wordWrap charIsSigned red transparent i s) :
    ∃ s', Conformance.numberCell fmt font (numberRect i) charIsSigned (number i) cellHeight wordWrap
        transparent (color i) s = .ok () s' ∧
      GridAfter fmt font number color wordWrap charIsSigned red transparent (i + 1) s' := by
  obtain ⟨hW, hH, hpix⟩ := hs
  have hWv : imageWidth = 1024 := rfl
  have hHv : imageHeight = 256 := rfl
  obtain ⟨hx, hy, hw, hh⟩ : (numberRect i).offset.x = i * 256 + 16 ∧ (numberRect i).offset.y = 16 ∧
      (numberRect i).extent.width = 224 ∧ (numberRect i).extent.height = 224 := ⟨rfl, rfl, rfl, rfl⟩
  unfold imageColCount at h₁
  obtain ⟨s', hrun, hW', hH', hcell, hout⟩ := numberCell_spec fmt font (numberRect i) charIsSigned
    (number i) cellHeight wordWrap transparent (color i) s hfont (by omega) (by omega) (by omega)
    (by omega) (by omega) (by omega)
  refine ⟨s', hrun, hW'.trans hW, hH'.trans hH, fun px py h₀ h₁ h₂ h₃ ↦ ?_⟩
  by_cases hin : InRect (numberRect i) px py
  · have hcol := column_of_inRect hin
    have hidx : py * imageWidth + px = ((numberRect i).offset.y + (py - (numberRect i).offset.y)) *
        s.width + ((numberRect i).offset.x + (px - (numberRect i).offset.x)) := by
      rw [hW]; ring
    have hin' := hin
    unfold InRect at hin'
    rw [hidx, hcell _ _ (by omega) (by omega) (by omega) (by omega), if_pos (by omega), gridPixel,
      hcol, if_pos hin, hW, hH]
  · have hsame := hout px py h₀ (by rw [hW]; exact h₁) hin
    rw [hW] at hsame
    rw [hsame, hpix px py h₀ h₁ h₂ h₃]
    congr 1
    by_cases hlt : px / cellWidth < i
    · rw [if_pos hlt, if_pos (by omega)]
    · rw [if_neg hlt]
      split
      · next hlt' =>
        rw [gridPixel, show px / cellWidth = i by omega, if_neg hin]
      · rfl

/-- One slice of the number grid, drawn on any image of the test's size with a
font whose glyph boxes lie in its atlas, returns and ends exactly as designed:
each pixel is `gridPixel` converted to sRGB, that is `red` outside the four
number cells, and in the cell of each column the number's colour on a border
ring of thickness 4 and, inside the ring, the glyphs of the number blended over
transparent as `PutText` blends them. -/
theorem numberGrid_spec (img : RGBAImage) (hfont : font.BoxesInAtlas)
    (hw : img.width = imageWidth) (hh : img.height = imageHeight) :
    ∃ img', numberGrid fmt dfmt toSRGB font number color wordWrap charIsSigned red transparent img =
        .ok () img' ∧ img'.width = img.width ∧ img'.height = img.height ∧
      ∀ px py, 0 ≤ px → px < imageWidth → 0 ≤ py → py < imageHeight →
        img'.pixel? (py * imageWidth + px) = some (convertPixel dfmt toSRGB
          (gridPixel fmt font number color wordWrap charIsSigned red transparent px py)) := by
  have hWv : imageWidth = 1024 := rfl
  have hHv : imageHeight = 256 := rfl
  have hC : cellWidth = 256 := rfl
  -- `DrawRect` fills the whole image red.
  obtain ⟨img₀, hrun₀, hp₀⟩ := drawRect_inside img 0 0 img.width img.height red le_rfl le_rfl
    (by omega) (by omega) (by omega) (by omega)
  have hstart : GridAfter fmt font number color wordWrap charIsSigned red transparent 0 img₀ := by
    refine ⟨hp₀.width_eq.trans hw, hp₀.height_eq.trans hh, fun px py h₀ h₁ h₂ h₃ ↦ ?_⟩
    rw [← hw] at h₁ ⊢
    rw [← hh] at h₃
    rw [hp₀.pixel?_of_mem ((rectIndex_iff le_rfl le_rfl (by omega) (by omega) h₀ h₁).mpr
      ⟨by omega, by omega, by omega, by omega⟩) (rowMajor_mem h₀ h₁ h₂ h₃), if_neg (by rw [hC]; omega)]
  -- Each column's cell extends the designed part by one column.
  obtain ⟨img₁, hrun₁, hW₁, hH₁, hpix⟩ :=
    forRange_ok (I := GridAfter fmt font number color wordWrap charIsSigned red transparent)
      (fun i s h₀ h₁ hs ↦ hs.numberCell hfont h₀ h₁) hstart
  -- `ConvertToSRGB` converts every pixel.
  refine ⟨convertToSRGB dfmt toSRGB img₁, ?_, hW₁.trans hw.symm, hH₁.trans hh.symm,
    fun px py h₀ h₁ h₂ h₃ ↦ ?_⟩
  · simp only [numberGrid, bind_ok (get_apply img), bind_ok hrun₀, bind_ok hrun₁, modify_apply]
  · rw [convertToSRGB, pixel?_mapPixels, hpix px py h₀ h₁ h₂ h₃,
      if_pos (show px / cellWidth < max 0 imageColCount by
        rw [hC, show max 0 imageColCount = 4 from rfl]; omega)]
    rfl

end Grid

/-- The test's image size. -/
def gridImage : RGBAImage :=
  ⟨imageWidth, imageHeight, mkArray (imageWidth * imageHeight).toNat default, by decide, by decide,
    by decide, by rw [Array.size_mkArray]; decide⟩

/-- A slice drawn on a blank image of the test's size, with `inkFont`, whose
glyphs have nonzero coverage. -/
theorem numberGrid_spec_blank :
    inkFont.BoxesInAtlas ∧ gridImage.width = imageWidth ∧ gridImage.height = imageHeight ∧
    ∃ img', numberGrid .binary32 .exact id inkFont (fun _ ↦ textA) (fun _ ↦ ⟨0, 0, 1, 1⟩)
        .enabled false ⟨1, 0, 0, 1⟩ ⟨0, 0, 0, 0⟩ gridImage = .ok () img' ∧
      img'.width = gridImage.width ∧ img'.height = gridImage.height ∧
      ∀ px py, 0 ≤ px → px < imageWidth → 0 ≤ py → py < imageHeight →
        img'.pixel? (py * imageWidth + px) = some (convertPixel .exact id
          (gridPixel .binary32 inkFont (fun _ ↦ textA) (fun _ ↦ ⟨0, 0, 1, 1⟩) .enabled false
            ⟨1, 0, 0, 1⟩ ⟨0, 0, 0, 0⟩ px py)) :=
  have hw : gridImage.width = imageWidth := rfl
  have hh : gridImage.height = imageHeight := rfl
  ⟨inkFont_boxesInAtlas, hw, hh, numberGrid_spec .binary32 .exact id inkFont (fun _ ↦ textA)
    (fun _ ↦ ⟨0, 0, 1, 1⟩) .enabled false ⟨1, 0, 0, 1⟩ ⟨0, 0, 0, 0⟩ gridImage inkFont_boxesInAtlas
    hw hh⟩

end Conformance
