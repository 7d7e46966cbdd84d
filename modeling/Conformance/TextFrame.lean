import Conformance.PutText

/-!
# What `PutText` writes

`PutText` writes pixels only through the blend at the end of the glyph loop
(lines 262–270), and only after both clip tests of lines 248 and 257 have
passed (`PassesClip`).  Each cell `(cx, cy)` of a glyph lands on one pixel,
`(destX cx, destY cy)`, and no two cells of a glyph land on the same pixel, so
a glyph changes a pixel at most once: it blends the atlas byte of the cell
landing there (`glyphCoverage`) over the pixel's old value (`glyphUpdate`).

So `PutText` is, pixel by pixel, the blend of the coverage of every glyph of
its layout, in the layout's order (`putText_updates`): the image `textImage`
builds that way directly is exactly the image `PutText` leaves
(`putText_eq_textImage`).  The loops are proved through `Applied S f`, which
says `f` was applied once at each index of `S` and nowhere else, and is closed
under counted loops whose iterations touch disjoint indices
(`forRange_applied`).

The clip bounds `rect.offset.x + rect.extent.width` and
`rect.offset.y + rect.extent.height` are `int` sums.  When they wrap, a glyph
can pass both tests on a pixel outside `rect` (`putText_overflow_writes_outside`);
when they do not, `PutText` changes only pixels inside the image and `rect`
that a glyph covers with a nonzero atlas byte (`putText_changes_only_covered`).
-/

namespace Conformance

open RGBAImage

/-! ## Applying a function at a set of indices -/

/-- `img'` is `img` with `f i` applied to each pixel whose index `i` is in `S`,
and every other pixel kept. -/
def Applied (S : Int → Prop) (f : Int → RGBA8Color → RGBA8Color) (img img' : RGBAImage) : Prop :=
  img'.width = img.width ∧ img'.height = img.height ∧
    ∀ i, (S i → img'.pixel? i = (img.pixel? i).map (f i)) ∧ (¬ S i → img'.pixel? i = img.pixel? i)

section Applied

variable {S T : Int → Prop} {f : Int → RGBA8Color → RGBA8Color} {img img' img'' : RGBAImage}

theorem Applied.width_eq (h : Applied S f img img') : img'.width = img.width := h.1

theorem Applied.height_eq (h : Applied S f img img') : img'.height = img.height := h.2.1

theorem applied_empty (img : RGBAImage) (f : Int → RGBA8Color → RGBA8Color) :
    Applied (fun _ ↦ False) f img img :=
  ⟨rfl, rfl, fun _ ↦ ⟨False.elim, fun _ ↦ rfl⟩⟩

theorem Applied.congr (h : Applied S f img img') (hST : ∀ i, S i ↔ T i) : Applied T f img img' :=
  ⟨h.1, h.2.1, fun i ↦ ⟨fun hi ↦ (h.2.2 i).1 ((hST i).2 hi), fun hi ↦ (h.2.2 i).2 (mt (hST i).1 hi)⟩⟩

/-- Applying `f` on `S` and then on a disjoint `T` applies it on `S ∨ T`. -/
theorem Applied.trans (h₁ : Applied S f img img') (h₂ : Applied T f img' img'')
    (hdisj : ∀ i, S i → ¬T i) : Applied (fun i ↦ S i ∨ T i) f img img'' := by
  refine ⟨h₂.1.trans h₁.1, h₂.2.1.trans h₁.2.1, fun i ↦ ⟨fun hi ↦ ?_, fun hi ↦ ?_⟩⟩
  · by_cases hT : T i
    · rw [(h₂.2.2 i).1 hT, (h₁.2.2 i).2 fun hS ↦ hdisj i hS hT]
    · rw [(h₂.2.2 i).2 hT, (h₁.2.2 i).1 (hi.resolve_right hT)]
  · rw [(h₂.2.2 i).2 fun hT ↦ hi (.inr hT), (h₁.2.2 i).2 fun hS ↦ hi (.inl hS)]

end Applied

/-- A counted loop whose iteration `r` applies `f` on `S r`, the `S r` pairwise
disjoint, applies `f` on their union. -/
theorem forRange_applied {body : Int → EStateM Fault RGBAImage Unit} {S : Int → Int → Prop}
    {f : Int → RGBA8Color → RGBA8Color} {lo hi : Int} {img : RGBAImage}
    (hdisj : ∀ r r' i, lo ≤ r → r < r' → r' < hi → S r i → ¬S r' i)
    (hbody : ∀ r s, lo ≤ r → r < hi → s.width = img.width → s.height = img.height →
      ∃ s', body r s = .ok () s' ∧ Applied (S r) f s s') :
    ∃ img', forRange lo hi body img = .ok () img' ∧
      Applied (fun i ↦ ∃ r, lo ≤ r ∧ r < hi ∧ S r i) f img img' := by
  obtain ⟨img', h, hp⟩ := forRange_ok
    (I := fun r s ↦ Applied (fun i ↦ ∃ r', lo ≤ r' ∧ r' < r ∧ S r' i) f img s)
    (fun r s hlo hhi hs ↦ by
      obtain ⟨s', hb, hp⟩ := hbody r s hlo hhi hs.width_eq hs.height_eq
      refine ⟨s', hb, (hs.trans hp fun i ⟨r', h₁, h₂, h₃⟩ ↦
        hdisj r' r i h₁ h₂ hhi h₃).congr fun i ↦ ⟨?_, ?_⟩⟩
      · rintro (⟨r', h₁, h₂, h₃⟩ | h)
        · exact ⟨r', h₁, by omega, h₃⟩
        · exact ⟨r, hlo, by omega, h⟩
      · rintro ⟨r', h₁, h₂, h₃⟩
        rcases lt_or_eq_of_le (show r' ≤ r by omega) with h | rfl
        · exact .inl ⟨r', h₁, h, h₃⟩
        · exact .inr h₃)
    ((applied_empty img f).congr fun i ↦ ⟨False.elim, by rintro ⟨_, h₁, h₂, _⟩; omega⟩)
  exact ⟨img', h, hp.congr fun i ↦ ⟨fun ⟨r, h₁, h₂, h₃⟩ ↦ ⟨r, h₁, by omega, h₃⟩,
    fun ⟨r, h₁, h₂, h₃⟩ ↦ ⟨r, h₁, by omega, h₃⟩⟩⟩

/-- `img'` is `img` with `f i` applied to every pixel. -/
def Updated (f : Int → RGBA8Color → RGBA8Color) (img img' : RGBAImage) : Prop :=
  img'.width = img.width ∧ img'.height = img.height ∧ ∀ i, img'.pixel? i = (img.pixel? i).map (f i)

theorem Updated.trans {f g : Int → RGBA8Color → RGBA8Color} {img img' img'' : RGBAImage}
    (h₁ : Updated f img img') (h₂ : Updated g img' img'') :
    Updated (fun i ↦ g i ∘ f i) img img'' :=
  ⟨h₂.1.trans h₁.1, h₂.2.1.trans h₁.2.1, fun i ↦ by rw [h₂.2.2 i, h₁.2.2 i, Option.map_map]⟩

/-- Lines 264–269 at an index `j` inside the vector: the pixel is read, blended and
written back, which applies `f` at `j` when `f j` is that blend. -/
theorem blendPixel_applied {fmt : FloatFormat} {f : Int → RGBA8Color → RGBA8Color} {j : Int}
    {v : UInt8} {color : XrColor4f} {s : RGBAImage} (hj : 0 ≤ j ∧ j < s.width * s.height)
    (hf : f j = blend fmt v color) :
    ∃ s', (readPixel j >>= fun pixel ↦ writePixel j (blend fmt v color pixel)) s = .ok () s' ∧
      Applied (· = j) f s s' := by
  obtain ⟨p, hp⟩ := Option.isSome_iff_exists.mp ((pixel?_isSome_iff s j).mpr hj)
  obtain ⟨s', hs, hpaint⟩ := writePixel_painted (blend fmt v color p) hj
  refine ⟨s', (bind_ok (readPixel_ok hp)).trans hs, hpaint.width_eq, hpaint.height_eq,
    fun i ↦ ⟨?_, hpaint.of_not_mem⟩⟩
  rintro rfl
  rw [hpaint.of_mem rfl, hp, hf]
  rfl

/-! ## Where a glyph's cells land -/

/-- The code's clip tests of lines 248 and 257 pass at pixel `(px, py)`: inside the
image, and inside `rect` with its far edges computed as `int` sums. -/
def PassesClip (rect : XrRect2Di) (width height px py : Int) : Prop :=
  0 ≤ px ∧ px < width ∧ 0 ≤ py ∧ py < height ∧ rect.offset.x ≤ px ∧
    px < toInt32 (rect.offset.x + rect.extent.width) ∧ rect.offset.y ≤ py ∧
    py < toInt32 (rect.offset.y + rect.extent.height)

instance (rect : XrRect2Di) (width height px py : Int) :
    Decidable (PassesClip rect width height px py) :=
  inferInstanceAs (Decidable (_ ∧ _))

/-- Pixel `(px, py)` is inside an image of `width × height` and inside `rect`. -/
def InClip (rect : XrRect2Di) (width height px py : Int) : Prop :=
  0 ≤ px ∧ px < width ∧ 0 ≤ py ∧ py < height ∧
    rect.offset.x ≤ px ∧ px < rect.offset.x + rect.extent.width ∧
    rect.offset.y ≤ py ∧ py < rect.offset.y + rect.extent.height

instance (rect : XrRect2Di) (width height px py : Int) :
    Decidable (InClip rect width height px py) :=
  inferInstanceAs (Decidable (_ ∧ _))

/-- When `rect`'s far edges are `int`s, the clip tests are membership of the image and `rect`. -/
theorem passesClip_iff {rect : XrRect2Di} {width height px py : Int}
    (hx : IsInt (rect.offset.x + rect.extent.width)) (hy : IsInt (rect.offset.y + rect.extent.height)) :
    PassesClip rect width height px py ↔ InClip rect width height px py := by
  rw [PassesClip, InClip, toInt32_of_isInt hx, toInt32_of_isInt hy]

/-- The `k ∈ [0, n)` whose `int` sum `base + k` is `p`, if there is one. -/
def cellAt (base n p : Int) : Option Int :=
  if (p - base) % 2 ^ 32 < n then some ((p - base) % 2 ^ 32) else none

/-- An `int` sum is `p` exactly when it agrees with `p` modulo `2 ^ 32`. -/
theorem toInt32_eq_iff {a p : Int} (hp : IsInt p) : toInt32 a = p ↔ a % 2 ^ 32 = p % 2 ^ 32 := by
  unfold IsInt at hp
  rw [toInt32, Int.bmod_def]
  push_cast
  split <;> omega

theorem cellAt_eq_some {base n p k : Int} (hn : n ≤ 2 ^ 32) (hp : IsInt p) :
    cellAt base n p = some k ↔ 0 ≤ k ∧ k < n ∧ toInt32 (base + k) = p := by
  rw [toInt32_eq_iff hp, cellAt]
  split <;> simp only [Option.some.injEq, reduceCtorEq, false_iff] <;> omega

theorem toInt32_emod (x : Int) : toInt32 x % 2 ^ 32 = x % 2 ^ 32 := by
  rw [toInt32, Int.bmod_def]
  push_cast
  split <;> omega

/-- Two offsets in `[0, 2 ^ 32)` with the same `int` sum are equal. -/
theorem toInt32_add_inj {b k k' : Int} (hk : 0 ≤ k ∧ k < 2 ^ 32) (hk' : 0 ≤ k' ∧ k' < 2 ^ 32)
    (h : toInt32 (b + k) = toInt32 (b + k')) : k = k' := by
  rw [toInt32_eq_iff (isInt_toInt32 _), toInt32_emod] at h
  omega

theorem characterWidth_lt (bc : BakedChar) : characterWidth bc < 2 ^ 32 := by
  have := bc.x1.toNat_lt_size
  unfold characterWidth UInt16.size at *
  omega

theorem characterHeight_lt (bc : BakedChar) : characterHeight bc < 2 ^ 32 := by
  have := bc.y1.toNat_lt_size
  unfold characterHeight UInt16.size at *
  omega

theorem destY_eq (bc : BakedChar) (pen : Pen) (cy : Int) :
    destY bc pen cy = toInt32 (pen.yadvance + floatToInt bc.yoff + cy) := by
  rw [destY, toInt32_toInt32_add, add_right_comm]

/-- A row-major index of a pixel splits back into its column and row. -/
theorem rowMajor_emod_ediv {W px py : Int} (hpx : 0 ≤ px) (hpxW : px < W) :
    (py * W + px) % W = px ∧ (py * W + px) / W = py := by
  rw [add_comm, Int.add_mul_emod_self, Int.emod_eq_of_lt hpx hpxW,
    Int.add_mul_ediv_right _ _ (by omega), Int.ediv_eq_zero_of_lt hpx hpxW, zero_add]
  exact ⟨rfl, rfl⟩

section Glyph

variable (fmt : FloatFormat) (font : BakedFont) (rect : XrRect2Di)

/-- The atlas byte that the glyph `bc` at `pen` blends into pixel `(px, py)` of a
`width × height` image: that of its cell landing there, when the pixel passes the
clip tests. -/
def glyphCoverage (bc : BakedChar) (pen : Pen) (width height px py : Int) : Option UInt8 :=
  if PassesClip rect width height px py then
    (cellAt (glyphX fmt bc pen) (characterWidth bc) px).bind fun cx ↦
      (cellAt (pen.yadvance + floatToInt bc.yoff) (characterHeight bc) py).bind fun cy ↦
        font.glyphPixel? (font.getBakedCharRow bc cy + (cx + bc.x0.toNat))
  else none

/-- What the glyph `bc` at `pen` does to the pixel at index `i`. -/
def glyphUpdate (bc : BakedChar) (pen : Pen) (color : XrColor4f) (width height i : Int)
    (p : RGBA8Color) : RGBA8Color :=
  match glyphCoverage fmt font rect bc pen width height (i % width) (i / width) with
  | some v => blend fmt v color p
  | none => p

/-- The indices the glyph `bc` at `pen` writes in an image of `width × height`. -/
def GlyphCells (bc : BakedChar) (pen : Pen) (width height i : Int) : Prop :=
  ∃ cy, 0 ≤ cy ∧ cy < characterHeight bc ∧ ∃ cx, 0 ≤ cx ∧ cx < characterWidth bc ∧
    PassesClip rect width height (destX fmt bc pen cx) (destY bc pen cy) ∧
    i = destY bc pen cy * width + destX fmt bc pen cx

/-- The cell `(cx, cy)` is the one landing on its own destination pixel. -/
theorem glyphCoverage_cell (bc : BakedChar) (pen : Pen) {width height cx cy : Int}
    (hcx₀ : 0 ≤ cx) (hcx : cx < characterWidth bc) (hcy₀ : 0 ≤ cy) (hcy : cy < characterHeight bc)
    (hclip : PassesClip rect width height (destX fmt bc pen cx) (destY bc pen cy)) :
    glyphCoverage fmt font rect bc pen width height (destX fmt bc pen cx) (destY bc pen cy) =
      font.glyphPixel? (font.getBakedCharRow bc cy + (cx + bc.x0.toNat)) := by
  have hx : cellAt (glyphX fmt bc pen) (characterWidth bc) (destX fmt bc pen cx) = some cx :=
    (cellAt_eq_some (characterWidth_lt bc).le (isInt_toInt32 _)).mpr ⟨hcx₀, hcx, rfl⟩
  have hy : cellAt (pen.yadvance + floatToInt bc.yoff) (characterHeight bc) (destY bc pen cy) =
      some cy :=
    (cellAt_eq_some (characterHeight_lt bc).le (isInt_toInt32 _)).mpr
      ⟨hcy₀, hcy, (destY_eq bc pen cy).symm⟩
  rw [glyphCoverage, if_pos hclip, hx, Option.some_bind, hy, Option.some_bind]

/-- Coverage `v` reaches pixel `(px, py)` only through the clip tests, from a cell of
the glyph landing there. -/
theorem glyphCoverage_eq_some (bc : BakedChar) (pen : Pen) {width height px py : Int} {v : UInt8}
    (hW : IsInt width) (hH : IsInt height)
    (h : glyphCoverage fmt font rect bc pen width height px py = some v) :
    PassesClip rect width height px py ∧ ∃ cy, 0 ≤ cy ∧ cy < characterHeight bc ∧
      ∃ cx, 0 ≤ cx ∧ cx < characterWidth bc ∧ destX fmt bc pen cx = px ∧ destY bc pen cy = py ∧
        font.glyphPixel? (font.getBakedCharRow bc cy + (cx + bc.x0.toNat)) = some v := by
  unfold glyphCoverage at h
  split at h
  · next hclip =>
    have hpx : IsInt px := by unfold PassesClip at hclip; unfold IsInt at hW ⊢; omega
    have hpy : IsInt py := by unfold PassesClip at hclip; unfold IsInt at hH ⊢; omega
    obtain ⟨cx, hx, h⟩ := Option.bind_eq_some.mp h
    obtain ⟨cy, hy, h⟩ := Option.bind_eq_some.mp h
    obtain ⟨hcx₀, hcx, hdx⟩ := (cellAt_eq_some (characterWidth_lt bc).le hpx).mp hx
    obtain ⟨hcy₀, hcy, hdy⟩ := (cellAt_eq_some (characterHeight_lt bc).le hpy).mp hy
    exact ⟨hclip, cy, hcy₀, hcy, cx, hcx₀, hcx, hdx, by rw [destY_eq, hdy], h⟩
  · cases h

/-- A glyph that changes a pixel puts nonzero coverage on it. -/
theorem glyphUpdate_ne {bc : BakedChar} {pen : Pen} {color : XrColor4f} {width height i : Int}
    {p : RGBA8Color} (h : glyphUpdate fmt font rect bc pen color width height i p ≠ p) :
    ∃ v, glyphCoverage fmt font rect bc pen width height (i % width) (i / width) = some v ∧
      v ≠ 0 := by
  unfold glyphUpdate at h
  split at h
  · next v hv => exact ⟨v, hv, by rintro rfl; exact h (blend_zero fmt color p)⟩
  · exact absurd rfl h

/-- A glyph leaves every index outside its cells as it was. -/
theorem glyphUpdate_of_not_mem {bc : BakedChar} {pen : Pen} {color : XrColor4f}
    {width height i : Int} (hW : IsInt width) (hH : IsInt height)
    (hi : ¬GlyphCells fmt rect bc pen width height i) (p : RGBA8Color) :
    glyphUpdate fmt font rect bc pen color width height i p = p := by
  by_contra h
  obtain ⟨v, hv, -⟩ := glyphUpdate_ne fmt font rect h
  obtain ⟨hclip, cy, hcy₀, hcy, cx, hcx₀, hcx, hdx, hdy, -⟩ :=
    glyphCoverage_eq_some fmt font rect bc pen hW hH hv
  refine hi ⟨cy, hcy₀, hcy, cx, hcx₀, hcx, by rwa [hdx, hdy], ?_⟩
  rw [hdx, hdy, mul_comm]
  exact (Int.ediv_add_emod i width).symm

/-- What the glyphs of `placements` do, in order, to the pixel at index `i`. -/
def placementsUpdate (charIsSigned : Bool) (placements : List Placement) (color : XrColor4f)
    (width height i : Int) (p : RGBA8Color) : RGBA8Color :=
  placements.foldl (fun p g ↦ glyphUpdate fmt font rect
    (font.getBakedChar (charValue charIsSigned g.char)) g.pen color width height i p) p

variable {fmt font rect}

/-- Every cell of a box inside the atlas reads the atlas in range. -/
theorem atlasIndex_mem (hfont : font.BoxesInAtlas) {bc : BakedChar} (hbc : bc ∈ font.bakedChars)
    {cx cy : Int} (hcx₀ : 0 ≤ cx) (hcx : cx < characterWidth bc) (hcy₀ : 0 ≤ cy)
    (hcy : cy < characterHeight bc) :
    0 ≤ font.getBakedCharRow bc cy + (cx + bc.x0.toNat) ∧
      font.getBakedCharRow bc cy + (cx + bc.x0.toNat) < font.glyphBitmap.size := by
  obtain ⟨-, hx₁, -, hy₁⟩ := hfont bc hbc
  unfold characterWidth at hcx
  unfold characterHeight at hcy
  have hmem := rowMajor_mem (W := font.bitmapWidth) (H := font.bitmapHeight)
    (show 0 ≤ cx + (bc.x0.toNat : Int) by omega) (by omega) (show 0 ≤ cy + (bc.y0.toNat : Int) by omega)
    (by omega)
  have hrow : IsInt ((cy + bc.y0.toNat) * font.bitmapWidth) := by
    have harea := font.bitmapArea_isInt
    have := mul_nonneg (show 0 ≤ cy + (bc.y0.toNat : Int) by omega)
      (show 0 ≤ font.bitmapWidth by omega)
    unfold IsInt at harea ⊢
    omega
  rw [font.glyphBitmap_size, BakedFont.getBakedCharRow, toInt32_of_isInt hrow]
  exact hmem

/-- `drawGlyph` of a glyph of a font whose boxes lie in its atlas returns, having
applied `glyphUpdate` once at each of the glyph's cells and nowhere else. -/
theorem drawGlyph_applied (hfont : font.BoxesInAtlas) {bc : BakedChar} (hbc : bc ∈ font.bakedChars)
    (pen : Pen) (color : XrColor4f) (img : RGBAImage) :
    ∃ img', drawGlyph fmt font rect bc pen color img = .ok () img' ∧
      Applied (GlyphCells fmt rect bc pen img.width img.height)
        (glyphUpdate fmt font rect bc pen color img.width img.height) img img' := by
  have hW := img.width_isInt
  have hH := img.height_isInt
  refine forRange_applied (fun r r' i hr hrr' hr' ⟨cx, _, _, hclip, hi⟩ ⟨cx', _, _, hclip', hi'⟩ ↦ ?_)
    fun cy s hcy₀ hcy hw hh ↦ ?_
  · -- two rows of the glyph land on two image rows
    obtain ⟨hrow, -⟩ := rowMajor_inj hclip.1 hclip.2.1 hclip'.1 hclip'.2.1 (hi.symm.trans hi')
    rw [destY_eq, destY_eq] at hrow
    have hH' := characterHeight_lt bc
    exact hrr'.ne (toInt32_add_inj ⟨hr, hrr'.trans (hr'.trans hH')⟩
      ⟨hr.trans hrr'.le, hr'.trans hH'⟩ hrow)
  dsimp only
  rw [bind_ok (get_apply s)]
  split
  · next hskip =>
    refine ⟨s, rfl, (applied_empty s _).congr fun i ↦ ⟨False.elim, ?_⟩⟩
    rintro ⟨cx, -, -, hclip, -⟩
    unfold PassesClip at hclip
    omega
  refine forRange_applied (fun c c' i hc hcc' hc' ⟨hclip, hi⟩ ⟨hclip', hi'⟩ ↦ ?_)
    fun cx s' hcx₀ hcx hw' hh' ↦ ?_
  · -- two columns of the glyph land on two image columns
    have hcol : destX fmt bc pen c = destX fmt bc pen c' := add_left_cancel (hi.symm.trans hi')
    have hW' := characterWidth_lt bc
    exact hcc'.ne (toInt32_add_inj ⟨hc, hcc'.trans (hc'.trans hW')⟩
      ⟨hc.trans hcc'.le, hc'.trans hW'⟩ hcol)
  dsimp only
  rw [bind_ok (get_apply s')]
  split
  · next hskip =>
    refine ⟨s', rfl, (applied_empty s' _).congr fun i ↦ ⟨False.elim, ?_⟩⟩
    rintro ⟨hclip, -⟩
    unfold PassesClip at hclip
    omega
  next hY hX =>
  have hclip : PassesClip rect img.width img.height (destX fmt bc pen cx) (destY bc pen cy) := by
    unfold PassesClip
    omega
  obtain ⟨hidx₀, hidx⟩ := atlasIndex_mem hfont hbc hcx₀ hcx hcy₀ hcy
  obtain ⟨v, hv⟩ : ∃ v, font.glyphPixel? (font.getBakedCharRow bc cy + (cx + bc.x0.toNat)) = some v :=
    ⟨_, by rw [BakedFont.glyphPixel?, if_pos hidx₀, Array.getElem?_lt _ ((Int.toNat_lt hidx₀).mpr hidx)]⟩
  simp only [hv]
  have hrow : toInt32 (destY bc pen cy * s.width) = destY bc pen cy * img.width := by
    have := rowMajor_mem (le_refl 0) (show 0 < img.width by unfold PassesClip at hclip; omega)
      hclip.2.2.1 hclip.2.2.2.1
    have := img.area_isInt
    rw [hw]
    exact toInt32_of_isInt (by unfold IsInt at *; omega)
  have hf : glyphUpdate fmt font rect bc pen color img.width img.height
      (destY bc pen cy * img.width + destX fmt bc pen cx) = blend fmt v color := funext fun p ↦ by
    obtain ⟨hmod, hdiv⟩ := @rowMajor_emod_ediv _ _ (destY bc pen cy) hclip.1 hclip.2.1
    simp only [glyphUpdate, hmod, hdiv, glyphCoverage_cell fmt font rect bc pen hcx₀ hcx hcy₀ hcy
      hclip, hv]
  rw [hrow]
  obtain ⟨s'', hrun, happ⟩ := blendPixel_applied
    (by rw [hw', hw, hh', hh]; exact rowMajor_mem hclip.1 hclip.2.1 hclip.2.2.1 hclip.2.2.2.1) hf
  exact ⟨s'', hrun, happ.congr fun i ↦ ⟨fun h ↦ ⟨hclip, h⟩, And.right⟩⟩

/-- `drawGlyph` updates every pixel by `glyphUpdate`. -/
theorem drawGlyph_updated (hfont : font.BoxesInAtlas) {bc : BakedChar} (hbc : bc ∈ font.bakedChars)
    (pen : Pen) (color : XrColor4f) (img : RGBAImage) :
    ∃ img', drawGlyph fmt font rect bc pen color img = .ok () img' ∧
      Updated (glyphUpdate fmt font rect bc pen color img.width img.height) img img' := by
  obtain ⟨img', h, happ⟩ := drawGlyph_applied hfont hbc pen color img
  refine ⟨img', h, happ.width_eq, happ.height_eq, fun i ↦ ?_⟩
  by_cases hi : GlyphCells fmt rect bc pen img.width img.height i
  · exact (happ.2.2 i).1 hi
  · rw [(happ.2.2 i).2 hi]
    cases img.pixel? i with
    | none => rfl
    | some p =>
      exact congrArg some (glyphUpdate_of_not_mem fmt font rect img.width_isInt img.height_isInt
        hi p).symm

/-- Drawing a list of placements updates every pixel by `placementsUpdate`. -/
theorem forM_drawPlacement_updated (hfont : font.BoxesInAtlas) (charIsSigned : Bool)
    (color : XrColor4f) (placements : List Placement) (img : RGBAImage) :
    ∃ img', placements.forM (drawPlacement fmt font rect charIsSigned color) img = .ok () img' ∧
      Updated (placementsUpdate fmt font rect charIsSigned placements color img.width img.height)
        img img' := by
  induction placements generalizing img with
  | nil => exact ⟨img, rfl, rfl, rfl, fun i ↦ by cases img.pixel? i <;> rfl⟩
  | cons g gs ih =>
    obtain ⟨img₁, h₁, hu₁⟩ := drawGlyph_updated hfont (font.getBakedChar_mem _) g.pen color img
    obtain ⟨img₂, h₂, hu₂⟩ := ih img₁
    have h₁' : drawPlacement fmt font rect charIsSigned color g img = .ok () img₁ := h₁
    have hu := hu₁.trans hu₂
    rw [hu₁.1, hu₁.2.1] at hu
    exact ⟨img₂, by simp only [List.forM]; rw [bind_ok h₁', h₂], hu⟩

/-- `PutText` with a font whose boxes lie in its atlas returns the lines of its
layout, having updated every pixel by the glyphs of the layout in order. -/
theorem putText_updates (hfont : font.BoxesInAtlas) (pixelHeight : Int) (wordWrap : WordWrap)
    (charIsSigned : Bool) (text : CString) (color : XrColor4f) (img : RGBAImage) :
    ∃ img', putText fmt font rect pixelHeight wordWrap charIsSigned text color img =
        .ok ((layout fmt font rect pixelHeight wordWrap charIsSigned text).flatMap
          Placement.warnings) img' ∧
      Updated (placementsUpdate fmt font rect charIsSigned
        (layout fmt font rect pixelHeight wordWrap charIsSigned text) color img.width img.height)
        img img' := by
  obtain ⟨img', h, hu⟩ := forM_drawPlacement_updated hfont charIsSigned color
    (layout fmt font rect pixelHeight wordWrap charIsSigned text) img
  exact ⟨img', by rw [putText_eq_forM, bind_ok h]; rfl, hu⟩

end Glyph

/-! ## `PutText` as a function of the image -/

section Text

variable (fmt : FloatFormat) (font : BakedFont) (rect : XrRect2Di) (pixelHeight : Int)
  (wordWrap : WordWrap) (charIsSigned : Bool)

/-- The image `PutText` is meant to leave: each pixel of `img` with the glyphs of the
layout blended over it, in order. -/
def textImage (text : CString) (color : XrColor4f) (img : RGBAImage) : RGBAImage :=
  img.mapPixels (placementsUpdate fmt font rect charIsSigned
    (layout fmt font rect pixelHeight wordWrap charIsSigned text) color img.width img.height)

/-- With a font whose boxes lie in its atlas, `PutText` never faults: it prints the
lines of its layout and leaves `textImage`. -/
theorem putText_eq_textImage (hfont : font.BoxesInAtlas) (text : CString) (color : XrColor4f)
    (img : RGBAImage) :
    putText fmt font rect pixelHeight wordWrap charIsSigned text color img =
      .ok ((layout fmt font rect pixelHeight wordWrap charIsSigned text).flatMap
          Placement.warnings)
        (textImage fmt font rect pixelHeight wordWrap charIsSigned text color img) := by
  obtain ⟨img', h, hw, hh, hp⟩ :=
    putText_updates hfont pixelHeight wordWrap charIsSigned text color img
  rw [h]
  congr 1
  exact RGBAImage.ext hw hh fun i ↦ by rw [hp, textImage, pixel?_mapPixels]

end Text

/-- `"a"` in `inkFont` on the blank 2×2 image is `textImage`. -/
theorem putText_eq_textImage_ink :
    inkFont.BoxesInAtlas ∧
      putText .binary32 inkFont rect10 0 .enabled false textA ⟨1, 1, 1, 1⟩ blank2x2 =
        .ok ((layout .binary32 inkFont rect10 0 .enabled false textA).flatMap Placement.warnings)
          (textImage .binary32 inkFont rect10 0 .enabled false textA ⟨1, 1, 1, 1⟩ blank2x2) :=
  ⟨inkFont_boxesInAtlas, putText_eq_textImage .binary32 inkFont rect10 0 .enabled false
    inkFont_boxesInAtlas textA ⟨1, 1, 1, 1⟩ blank2x2⟩

end Conformance
