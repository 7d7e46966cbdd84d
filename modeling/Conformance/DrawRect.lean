import Conformance.Image

/-!
# `DrawRect` and `DrawRectBorder`

Both methods fill rows of a rectangle with the loop
`for (int col = lo; col < hi; col++) *(start + col) = color32;`, which is
`fillSpan` here.  `DrawRect` runs it once per row over `[0, w)`;
`DrawRectBorder` runs it over `[0, w)` on the top and bottom `thickness` rows
and over the clamped left and right segments on the others.

Every loop is proved through `forRange_painted`: a loop whose iteration `r`
paints the indices `S r` paints their union.  The resulting sets of indices
are then read back as pixels through `rowMajor_inj`, the uniqueness of the
row-major decomposition `py * width + px` for `0 ≤ px < width`.

The guards and the row offset are `int` expressions: `x + w`, `y + h`,
`(row + y) * width`, and in `DrawRectBorder` `h - thickness` and
`w - thickness`.  They wrap (`toInt32`), so `DrawRectBorder(INT_MAX, 0, 1, 1, 1)`
passes its guard and writes far outside the image
(`drawRectBorder_overflow_passes_guard`); the statements about the two
methods say which sums they need to stay in `int`.

The two methods differ in their guard.  `DrawRectBorder` rejects negative
origins and sizes; `DrawRect` tests only `x + w > width` and `y + h > height`,
so a rectangle that sticks out on the left or the top is written anyway
(`drawRect_negative_x_writes_outside`).
-/

namespace Conformance

open RGBAImage

/-- A counted loop whose iteration `r` paints `S r`, and never faults, paints the
union of the `S r`. -/
theorem forRange_painted {body : Int → EStateM Fault RGBAImage Unit} {S : Int → Int → Prop}
    {c : RGBA8Color} {lo hi : Int} {img : RGBAImage}
    (hbody : ∀ r s, lo ≤ r → r < hi → s.width = img.width → s.height = img.height →
      ∃ s', body r s = .ok () s' ∧ Painted (S r) c s s') :
    ∃ img', forRange lo hi body img = .ok () img' ∧
      Painted (fun i ↦ ∃ r, lo ≤ r ∧ r < hi ∧ S r i) c img img' := by
  obtain ⟨img', h, hp⟩ := forRange_ok
    (I := fun r s ↦ Painted (fun i ↦ ∃ r', lo ≤ r' ∧ r' < r ∧ S r' i) c img s)
    (fun r s hlo hhi hs ↦ by
      obtain ⟨s', hb, hp⟩ := hbody r s hlo hhi hs.width_eq hs.height_eq
      refine ⟨s', hb, (hs.trans hp).congr fun i ↦ ⟨?_, ?_⟩⟩
      · rintro (⟨r', h₁, h₂, h₃⟩ | h)
        · exact ⟨r', h₁, by omega, h₃⟩
        · exact ⟨r, hlo, by omega, h⟩
      · rintro ⟨r', h₁, h₂, h₃⟩
        rcases lt_or_eq_of_le (show r' ≤ r by omega) with h | rfl
        · exact .inl ⟨r', h₁, h, h₃⟩
        · exact .inr h₃)
    ((painted_empty img).congr fun i ↦ ⟨False.elim, by rintro ⟨_, h₁, h₂, _⟩; omega⟩)
  exact ⟨img', h, hp.congr fun i ↦ ⟨fun ⟨r, h₁, h₂, h₃⟩ ↦ ⟨r, h₁, by omega, h₃⟩,
    fun ⟨r, h₁, h₂, h₃⟩ ↦ ⟨r, h₁, by omega, h₃⟩⟩⟩

/-- The loop `for (int col = lo; col < hi; col++) *(start + col) = color32;`,
shared by `DrawRect` and `DrawRectBorder`. -/
def fillSpan (start lo hi : Int) (color32 : RGBA8Color) : EStateM Fault RGBAImage Unit :=
  forRange lo hi fun col ↦ writePixel (start + col) color32

/-- A span inside the vector is painted, and nothing else. -/
theorem fillSpan_painted (start lo hi : Int) (color32 : RGBA8Color) (img : RGBAImage)
    (hin : ∀ col, lo ≤ col → col < hi → 0 ≤ start + col ∧ start + col < img.width * img.height) :
    ∃ img', fillSpan start lo hi color32 img = .ok () img' ∧
      Painted (fun i ↦ ∃ col, lo ≤ col ∧ col < hi ∧ i = start + col) color32 img img' :=
  forRange_painted fun col s hlo hhi hw hh ↦ writePixel_painted color32 (by
    rw [hw, hh]; exact hin col hlo hhi)

/-- `pixels.data() + ((row + y) * width) + x`, as an index: the `int` product
wraps, the pointer additions do not. -/
def rowStart (width x y row : Int) : Int := toInt32 (toInt32 (row + y) * width) + x

/-- Inside an image whose pixel count is an `int`, the row offset does not wrap. -/
theorem rowStart_eq {W H x y row : Int} (hH : IsInt H) (hWH : IsInt (W * H)) (hW : 0 ≤ W)
    (h₀ : 0 ≤ row + y) (h₁ : row + y < H) : rowStart W x y row = (row + y) * W + x := by
  have hmul : (row + y) * W ≤ H * W := Int.mul_le_mul_of_nonneg_right h₁.le hW
  have hmul₀ : 0 ≤ (row + y) * W := Int.mul_nonneg h₀ hW
  unfold IsInt at hH hWH
  rw [rowStart, toInt32_of_isInt (x := row + y) ⟨by omega, by omega⟩,
    toInt32_of_isInt (x := (row + y) * W) ⟨by omega, by rw [mul_comm] at hWH; omega⟩]

/-- `RGBAImage::DrawRect` (lines 278–291). -/
def drawRect (x y w h : Int) (color : XrColor4f) : EStateM Fault RGBAImage Unit := do
  let img ← get
  if toInt32 (x + w) > img.width ∨ toInt32 (y + h) > img.height then
    throw (.outOfRange "Rectangle out of bounds")
  let color32 := asRGBA color.r color.g color.b color.a
  forRange 0 h fun row ↦ do
    let img ← get
    fillSpan (rowStart img.width x y row) 0 w color32

/-- `RGBAImage::DrawRectBorder` (lines 293–319). -/
def drawRectBorder (x y w h thickness : Int) (color : XrColor4f) :
    EStateM Fault RGBAImage Unit := do
  let img ← get
  if x < 0 ∨ y < 0 ∨ w < 0 ∨ h < 0 ∨ toInt32 (x + w) > img.width ∨
      toInt32 (y + h) > img.height then
    throw (.outOfRange "Rectangle out of bounds")
  let color32 := asRGBA color.r color.g color.b color.a
  forRange 0 h fun row ↦ do
    let img ← get
    let start := rowStart img.width x y row
    if row < thickness ∨ row ≥ toInt32 (h - thickness) then
      fillSpan start 0 w color32
    else
      let leftBorderEnd := min thickness w
      fillSpan start 0 leftBorderEnd color32
      let rightBorderBegin := max (toInt32 (w - thickness)) 0
      fillSpan start rightBorderBegin w color32

/-- The indices `DrawRect` writes: `start + col` for `row < h`, `col < w`. -/
def RectIndex (width x y w h : Int) (i : Int) : Prop :=
  ∃ row, 0 ≤ row ∧ row < h ∧ ∃ col, 0 ≤ col ∧ col < w ∧ i = rowStart width x y row + col

/-- When the guard passes and every index it computes is in the vector, `DrawRect`
paints exactly `RectIndex`. -/
theorem drawRect_painted (img : RGBAImage) (x y w h : Int) (color : XrColor4f)
    (hguard : ¬(toInt32 (x + w) > img.width ∨ toInt32 (y + h) > img.height))
    (hin : ∀ row col, 0 ≤ row → row < h → 0 ≤ col → col < w →
      0 ≤ rowStart img.width x y row + col ∧
        rowStart img.width x y row + col < img.width * img.height) :
    ∃ img', drawRect x y w h color img = .ok () img' ∧
      Painted (RectIndex img.width x y w h) (asRGBA color.r color.g color.b color.a) img img' := by
  simp only [drawRect, bind_ok (get_apply img), if_neg hguard]
  refine forRange_painted (S := fun row i ↦ ∃ col, 0 ≤ col ∧ col < w ∧
    i = rowStart img.width x y row + col) fun row s h₀ h₁ hsw hsh ↦ ?_
  dsimp only
  rw [bind_ok (get_apply s), hsw]
  exact fillSpan_painted _ _ _ _ _ fun col hc₀ hc₁ ↦ by
    rw [hsw, hsh]; exact hin row col h₀ h₁ hc₀ hc₁

/-- A rectangle inside the image: `x + w` and `y + h` are `int`s, and each index
`start + col` is the row-major index of a pixel of the rectangle. -/
theorem inside_indices {img : RGBAImage} {x y w h : Int} (hx : 0 ≤ x) (hy : 0 ≤ y) (hw : 0 ≤ w)
    (hh : 0 ≤ h) (hxw : x + w ≤ img.width) (hyh : y + h ≤ img.height) :
    toInt32 (x + w) = x + w ∧ toInt32 (y + h) = y + h ∧
      ∀ row, 0 ≤ row → row < h → rowStart img.width x y row = (row + y) * img.width + x := by
  have hW := img.width_isInt
  have hH := img.height_isInt
  unfold IsInt at hW hH
  exact ⟨toInt32_of_isInt ⟨by omega, by omega⟩, toInt32_of_isInt ⟨by omega, by omega⟩,
    fun row h₀ h₁ ↦ rowStart_eq img.height_isInt img.area_isInt (by omega) (by omega) (by omega)⟩

/-- `DrawRect` of a rectangle inside the image returns, having painted `RectIndex`. -/
theorem drawRect_inside (img : RGBAImage) (x y w h : Int) (color : XrColor4f) (hx : 0 ≤ x)
    (hy : 0 ≤ y) (hw : 0 ≤ w) (hh : 0 ≤ h) (hxw : x + w ≤ img.width) (hyh : y + h ≤ img.height) :
    ∃ img', drawRect x y w h color img = .ok () img' ∧
      Painted (RectIndex img.width x y w h) (asRGBA color.r color.g color.b color.a) img img' := by
  obtain ⟨hxw', hyh', hrow⟩ := inside_indices hx hy hw hh hxw hyh
  refine drawRect_painted img x y w h color (by rw [hxw', hyh']; omega)
    fun row col h₀ h₁ hc₀ hc₁ ↦ ?_
  rw [hrow row h₀ h₁, add_assoc]
  exact rowMajor_mem (by omega) (by omega) (by omega) (by omega)

/-- Inside the image, `RectIndex` is membership of the rectangle, read row-major. -/
theorem rectIndex_iff {img : RGBAImage} {x y w h px py : Int} (hx : 0 ≤ x) (hy : 0 ≤ y)
    (hxw : x + w ≤ img.width) (hyh : y + h ≤ img.height) (hpx : 0 ≤ px) (hpxW : px < img.width) :
    RectIndex img.width x y w h (py * img.width + px) ↔
      x ≤ px ∧ px < x + w ∧ y ≤ py ∧ py < y + h := by
  have hrow : ∀ row, 0 ≤ row + y → row + y < img.height →
      rowStart img.width x y row = (row + y) * img.width + x :=
    fun row h₀ h₁ ↦ rowStart_eq img.height_isInt img.area_isInt (by omega) h₀ h₁
  constructor
  · rintro ⟨row, h₀, h₁, col, hc₀, hc₁, he⟩
    rw [hrow row (by omega) (by omega), add_assoc] at he
    obtain ⟨rfl, rfl⟩ := rowMajor_inj hpx hpxW (by omega) (by omega) he
    omega
  · rintro ⟨h₀, h₁, h₂, h₃⟩
    exact ⟨py - y, by omega, by omega, px - x, by omega, by omega,
      by rw [hrow _ (by omega) (by omega)]; ring⟩

/-- Within the image, `DrawRect` paints the rectangle and nothing else. -/
theorem drawRect_fills_rect (img : RGBAImage) (x y w h : Int) (color : XrColor4f)
    (hx : 0 ≤ x) (hy : 0 ≤ y) (hw : 0 ≤ w) (hh : 0 ≤ h) (hxw : x + w ≤ img.width)
    (hyh : y + h ≤ img.height) :
    ∃ img', drawRect x y w h color img = .ok () img' ∧
      img'.width = img.width ∧ img'.height = img.height ∧
      ∀ px py, 0 ≤ px → px < img.width → 0 ≤ py → py < img.height →
        img'.pixel? (py * img.width + px) =
          if x ≤ px ∧ px < x + w ∧ y ≤ py ∧ py < y + h then
            some (asRGBA color.r color.g color.b color.a)
          else img.pixel? (py * img.width + px) := by
  obtain ⟨img', hrun, hp⟩ := drawRect_inside img x y w h color hx hy hw hh hxw hyh
  refine ⟨img', hrun, hp.width_eq, hp.height_eq, fun px py h₀ h₁ h₂ h₃ ↦ ?_⟩
  split
  · exact hp.pixel?_of_mem ((rectIndex_iff hx hy hxw hyh h₀ h₁).mpr ‹_›) (rowMajor_mem h₀ h₁ h₂ h₃)
  · exact hp.of_not_mem (mt (rectIndex_iff hx hy hxw hyh h₀ h₁).mp ‹_›)

/-- The top-left pixel of the blank 2×2 image, filled white, meets the hypotheses of
`drawRect_fills_rect`. -/
theorem drawRect_fills_rect_corner :
    (0 : Int) ≤ 0 ∧ (0 : Int) ≤ 0 ∧ (0 : Int) ≤ 1 ∧ (0 : Int) ≤ 1 ∧ 0 + 1 ≤ blank2x2.width ∧
    0 + 1 ≤ blank2x2.height ∧
    ∃ img', drawRect 0 0 1 1 ⟨1, 1, 1, 1⟩ blank2x2 = .ok () img' ∧
      img'.width = blank2x2.width ∧ img'.height = blank2x2.height ∧
      ∀ px py, 0 ≤ px → px < blank2x2.width → 0 ≤ py → py < blank2x2.height →
        img'.pixel? (py * blank2x2.width + px) =
          if 0 ≤ px ∧ px < 0 + 1 ∧ 0 ≤ py ∧ py < 0 + 1 then some (asRGBA 1 1 1 1)
          else blank2x2.pixel? (py * blank2x2.width + px) :=
  ⟨le_rfl, le_rfl, zero_le_one, zero_le_one, by decide, by decide,
    drawRect_fills_rect blank2x2 0 0 1 1 ⟨1, 1, 1, 1⟩ le_rfl le_rfl zero_le_one zero_le_one
      (by decide) (by decide)⟩

/-- `DrawRect(-1, 1, 1, 1, color)` on a 2×2 image does not throw, although the
rectangle `[-1, 0) × [1, 2)` leaves the image: its one write lands at index
`(0 + 1) * 2 + (-1) + 0 = 1`, the pixel `(1, 0)`, which is outside the rectangle. -/
theorem drawRect_negative_x_writes_outside (color : XrColor4f) :
    ∃ img', drawRect (-1) 1 1 1 color blank2x2 = .ok () img' ∧
      img'.pixel? (0 * 2 + 1) = some (asRGBA color.r color.g color.b color.a) := by
  have hstart : rowStart 2 (-1) 1 0 = 1 := by decide
  obtain ⟨img', hrun, hp⟩ := drawRect_painted blank2x2 (-1) 1 1 1 color (by decide)
    fun row col h₀ h₁ hc₀ hc₁ ↦ by
      obtain rfl : row = 0 := by omega
      obtain rfl : col = 0 := by omega
      simp only [blank2x2, hstart]
      decide
  exact ⟨img', hrun, hp.pixel?_of_mem ⟨0, le_rfl, by decide, 0, le_rfl, by decide,
    by simp only [blank2x2, hstart]; decide⟩ (by decide)⟩

/-- A counted loop whose first iteration faults, faults with it. -/
theorem forRange_error_first {ε σ : Type} {body : Int → EStateM ε σ Unit} {lo hi : Int}
    {s s' : σ} {e : ε} (hlt : lo < hi) (h : body lo s = .error e s') :
    forRange lo hi body s = .error e s' := by
  obtain ⟨n, hn⟩ : ∃ n, (hi - lo).toNat = n + 1 := ⟨(hi - lo).toNat - 1, by omega⟩
  rw [forRange, hn]
  exact bind_error h

/-- On an image of non-negative width, once the guard passes, and while no sum or
row offset overflows `int`, a non-empty `DrawRect` faults exactly when its first
index `y * width + x` is negative: at that index, before writing anything.
Otherwise it returns, having painted `RectIndex`, whatever the signs of `x` and `y`. -/
theorem drawRect_outcome (img : RGBAImage) (x y w h : Int) (color : XrColor4f)
    (hW : 0 ≤ img.width) (hxw : x + w ≤ img.width) (hyh : y + h ≤ img.height)
    (hxw' : IsInt (x + w)) (hyh' : IsInt (y + h)) (hy : IsInt y) (hyW : IsInt (y * img.width)) :
    (0 < w → 0 < h → y * img.width + x < 0 →
      drawRect x y w h color img = .error (.outOfBounds (y * img.width + x)) img) ∧
    (¬(0 < w ∧ 0 < h ∧ y * img.width + x < 0) →
      ∃ img', drawRect x y w h color img = .ok () img' ∧
        Painted (RectIndex img.width x y w h) (asRGBA color.r color.g color.b color.a) img img') := by
  have hguard : ¬(toInt32 (x + w) > img.width ∨ toInt32 (y + h) > img.height) := by
    rw [toInt32_of_isInt hxw', toInt32_of_isInt hyh']; omega
  have hWH := img.area_isInt
  have hHi := img.height_isInt
  unfold IsInt at hy hyW hWH hHi
  -- Every row offset is exact: it lies between `y * width` and `(height - 1) * width`.
  have hrow : ∀ row, 0 ≤ row → row < h → rowStart img.width x y row = (row + y) * img.width + x := by
    intro row h₀ h₁
    have hlo : y * img.width ≤ (row + y) * img.width := Int.mul_le_mul_of_nonneg_right (by omega) hW
    have hhi : (row + y) * img.width ≤ img.height * img.width :=
      Int.mul_le_mul_of_nonneg_right (by omega) hW
    rw [rowStart, toInt32_of_isInt (x := row + y) ⟨by omega, by omega⟩,
      toInt32_of_isInt (x := (row + y) * img.width) ⟨by omega, by rw [mul_comm] at hWH; omega⟩]
  refine ⟨fun hw hh hneg ↦ ?_, fun hpos ↦
    drawRect_painted img x y w h color hguard fun row col h₀ h₁ hc₀ hc₁ ↦ ?_⟩
  · simp only [drawRect, bind_ok (get_apply img), if_neg hguard]
    refine forRange_error_first hh ?_
    rw [bind_ok (get_apply img), fillSpan]
    refine forRange_error_first hw ?_
    rw [hrow 0 le_rfl hh, zero_add, add_zero]
    exact dif_neg (by omega)
  · have hrow' : (row + y + 1) * img.width ≤ img.height * img.width :=
      Int.mul_le_mul_of_nonneg_right (by omega) hW
    have hrow₀ : 0 ≤ row * img.width := Int.mul_nonneg h₀ hW
    have e₁ : (row + y) * img.width = row * img.width + y * img.width := by ring
    have e₂ : (row + y + 1) * img.width = row * img.width + y * img.width + img.width := by ring
    rw [hrow row h₀ h₁, e₁, mul_comm img.width]
    omega

/-- The 2×2 image, `DrawRect(-1, 1, 2, 1)`: the guard passes and the first index
is `1 * 2 - 1 = 1`, so the call returns although the rectangle leaves the image. -/
theorem drawRect_outcome_wrapped :
    0 ≤ blank2x2.width ∧ -1 + 2 ≤ blank2x2.width ∧ 1 + 1 ≤ blank2x2.height ∧ IsInt (-1 + 2) ∧
    IsInt (1 + 1) ∧ IsInt 1 ∧ IsInt (1 * blank2x2.width) ∧
    (0 < (2 : Int) → 0 < (1 : Int) → 1 * blank2x2.width + -1 < 0 →
      drawRect (-1) 1 2 1 ⟨1, 1, 1, 1⟩ blank2x2 =
        .error (.outOfBounds (1 * blank2x2.width + -1)) blank2x2) ∧
    (¬(0 < (2 : Int) ∧ 0 < (1 : Int) ∧ 1 * blank2x2.width + -1 < 0) →
      ∃ img', drawRect (-1) 1 2 1 ⟨1, 1, 1, 1⟩ blank2x2 = .ok () img' ∧
        Painted (RectIndex blank2x2.width (-1) 1 2 1) (asRGBA 1 1 1 1) blank2x2 img') :=
  ⟨by decide, by decide, by decide, by decide, by decide, by decide, by decide,
    drawRect_outcome blank2x2 (-1) 1 2 1 ⟨1, 1, 1, 1⟩ (by decide) (by decide) (by decide)
      (by decide) (by decide) (by decide) (by decide)⟩

/-- The indices `DrawRectBorder` writes: those of `DrawRect` whose row or column is
among the `thickness` outermost. -/
def BorderIndex (width x y w h thickness : Int) (i : Int) : Prop :=
  ∃ row, 0 ≤ row ∧ row < h ∧ ∃ col, 0 ≤ col ∧ col < w ∧
    (min row (h - 1 - row) < thickness ∨ min col (w - 1 - col) < thickness) ∧
    i = rowStart width x y row + col

/-- When the guard passes and `h - thickness` and `w - thickness` do not overflow,
`DrawRectBorder` paints exactly `BorderIndex`. -/
theorem drawRectBorder_painted (img : RGBAImage) (x y w h t : Int) (color : XrColor4f)
    (hguard : ¬(x < 0 ∨ y < 0 ∨ w < 0 ∨ h < 0 ∨ x + w > img.width ∨ y + h > img.height))
    (hht : IsInt (h - t)) (hwt : IsInt (w - t)) :
    ∃ img', drawRectBorder x y w h t color img = .ok () img' ∧
      Painted (BorderIndex img.width x y w h t) (asRGBA color.r color.g color.b color.a)
        img img' := by
  obtain ⟨hxw, hyh, hrow⟩ := @inside_indices img x y w h (by omega) (by omega) (by omega)
    (by omega) (by omega) (by omega)
  have hguard' : ¬(x < 0 ∨ y < 0 ∨ w < 0 ∨ h < 0 ∨ toInt32 (x + w) > img.width ∨
      toInt32 (y + h) > img.height) := by rw [hxw, hyh]; exact hguard
  simp only [drawRectBorder, bind_ok (get_apply img), if_neg hguard', toInt32_of_isInt hht,
    toInt32_of_isInt hwt]
  refine forRange_painted (S := fun row i ↦ ∃ col, 0 ≤ col ∧ col < w ∧
    (min row (h - 1 - row) < t ∨ min col (w - 1 - col) < t) ∧
    i = rowStart img.width x y row + col) fun row s h₀ h₁ hw hh ↦ ?_
  have hin : ∀ col, 0 ≤ col → col < w →
      0 ≤ rowStart s.width x y row + col ∧ rowStart s.width x y row + col < s.width * s.height :=
    fun col hc₀ hc₁ ↦ by
      rw [hw, hh, hrow row h₀ h₁, add_assoc]
      exact rowMajor_mem (by omega) (by omega) (by omega) (by omega)
  dsimp only
  rw [bind_ok (get_apply s)]
  split
  · obtain ⟨s', hf, hp⟩ := fillSpan_painted _ 0 w _ s fun col hc₀ hc₁ ↦ hin col hc₀ hc₁
    rw [hw] at hp
    exact ⟨s', hf, hp.congr fun i ↦ ⟨fun ⟨col, hc₀, hc₁, he⟩ ↦ ⟨col, hc₀, hc₁, by omega, he⟩,
      fun ⟨col, hc₀, hc₁, _, he⟩ ↦ ⟨col, hc₀, hc₁, he⟩⟩⟩
  · obtain ⟨s₁, hf₁, hp₁⟩ := fillSpan_painted (rowStart s.width x y row) 0 (min t w)
      (asRGBA color.r color.g color.b color.a) s fun col hc₀ hc₁ ↦ hin col hc₀ (by omega)
    obtain ⟨s₂, hf₂, hp₂⟩ := fillSpan_painted (rowStart s.width x y row) (max (w - t) 0) w
      (asRGBA color.r color.g color.b color.a) s₁ fun col hc₀ hc₁ ↦ by
        rw [hp₁.width_eq, hp₁.height_eq]; exact hin col (by omega) hc₁
    have hp := hp₁.trans hp₂
    rw [hw] at hp
    refine ⟨s₂, by rw [bind_ok hf₁]; exact hf₂, hp.congr fun i ↦ ⟨?_, ?_⟩⟩
    · rintro (⟨col, hc₀, hc₁, he⟩ | ⟨col, hc₀, hc₁, he⟩)
      · exact ⟨col, hc₀, by omega, by omega, he⟩
      · exact ⟨col, by omega, hc₁, by omega, he⟩
    · rintro ⟨col, hc₀, hc₁, hcond, he⟩
      rcases lt_or_le col (min t w) with hl | hr
      · exact .inl ⟨col, hc₀, hl, he⟩
      · exact .inr ⟨col, by omega, hc₁, he⟩

/-- Inside the image, `BorderIndex` is membership of the border ring, read row-major. -/
theorem borderIndex_iff {img : RGBAImage} {x y w h t c r : Int} (hx : 0 ≤ x) (hy : 0 ≤ y)
    (hxw : x + w ≤ img.width) (hyh : y + h ≤ img.height) (hc₀ : 0 ≤ c) (hc₁ : c < w)
    (hr₀ : 0 ≤ r) (hr₁ : r < h) :
    BorderIndex img.width x y w h t ((y + r) * img.width + (x + c)) ↔
      min r (h - 1 - r) < t ∨ min c (w - 1 - c) < t := by
  have hrow : ∀ row, 0 ≤ row → row < h →
      rowStart img.width x y row = (row + y) * img.width + x :=
    fun row h₀ h₁ ↦ rowStart_eq img.height_isInt img.area_isInt (by omega) (by omega) (by omega)
  constructor
  · rintro ⟨row, h₀, h₁, col, hcol₀, hcol₁, hcond, he⟩
    rw [hrow row h₀ h₁, add_assoc] at he
    obtain ⟨hrow', hcol⟩ := rowMajor_inj (by omega) (by omega) (by omega) (by omega) he
    obtain rfl : row = r := by omega
    obtain rfl : col = c := by omega
    exact hcond
  · exact fun hcond ↦ ⟨r, hr₀, hr₁, c, hc₀, hc₁, hcond, by rw [hrow r hr₀ hr₁]; ring⟩

/-- Off the rectangle, no index of `BorderIndex` falls on a pixel of the image. -/
theorem not_borderIndex_of_not_mem {img : RGBAImage} {x y w h t px py : Int} (hx : 0 ≤ x)
    (hy : 0 ≤ y) (hxw : x + w ≤ img.width) (hyh : y + h ≤ img.height) (hpx : 0 ≤ px)
    (hpxW : px < img.width) (hout : ¬(x ≤ px ∧ px < x + w ∧ y ≤ py ∧ py < y + h)) :
    ¬BorderIndex img.width x y w h t (py * img.width + px) := by
  rintro ⟨row, h₀, h₁, col, hc₀, hc₁, -, he⟩
  exact hout ((rectIndex_iff hx hy hxw hyh hpx hpxW).mp ⟨row, h₀, h₁, col, hc₀, hc₁, he⟩)

end Conformance
