import Conformance.Image
import Conformance.BakedFont

/-!
# `PutText`: pen layout and glyph blitting

`RGBAImage::PutText` (lines 183–276) walks the text with a pen
(`xadvance`, a float, and `yadvance`, an `int`).  For each character it

1. on `'\n'`, moves the pen to the start of the next line;
2. looks ahead over the rest of the word and, if the word does not fit, wraps
   to a new line or, with `WordWrap::Disabled`, prints a warning
   (`wordOverflows`, lines 204–225);
3. does the same if the glyph's box does not fit (`charOverflows`, lines 227–241);
4. blends the glyph's coverage into the image, clipped to the image and to
   `rect` (`drawGlyph`, lines 243–272);
5. advances the pen by the glyph's `xadvance` (line 274).

`putTextFrom` is that loop; it returns the lines `ReportConsoleOnlyF` prints.
Nothing in steps 1–3 and 5 reads the pixels, so the pen part of the loop is a
function of its own, `layoutFrom`, listing each drawn character with the pen it
is drawn at and the warnings printed before it, and `putTextFrom_eq_forM` shows
the loop is exactly `drawGlyph` run over that list.  The pen laws are proved
about `layoutFrom`, the effect on the pixels about `drawGlyph`.

The float arithmetic is that of a `FloatFormat` `fmt`; the code's is
`FloatFormat.binary32`.  The conversions to `float` of `int`s that are always
exact (bytes and glyph box sizes, below `2 ^ 17`) are not written out.  Every
`int` sum that can overflow is wrapped by `toInt32`.

A `const char*` text is the list of its bytes before the terminating NUL
(`CString`).  `font` is the font `BakedFont::GetOrCreate(pixelHeight)`
returned, and `charIsSigned` the implementation's signedness of `char`.
-/

namespace Conformance

/-- `WordWrap`. -/
inductive WordWrap where
  | disabled
  | enabled
deriving DecidableEq, Repr

/-- A NUL-terminated `const char*` text: its bytes before the terminator. -/
structure CString where
  bytes : List UInt8
  nonzero : ∀ b ∈ bytes, b ≠ 0

/-- The characters `%s` prints for a text: its bytes. -/
def CString.toString (text : CString) : String :=
  String.mk (text.bytes.map fun b ↦ Char.ofNat b.toNat)

/-- The line `ReportConsoleOnlyF` prints at lines 220 and 239. -/
def wrapWarning (fullText : CString) : String :=
  "CTS dev warning: Would have wrapped this text but told to disable word wrap! Text: " ++
    fullText.toString

/-- The pen of `PutText`. -/
structure Pen where
  xadvance : ℚ
  yadvance : Int
deriving DecidableEq, Repr

/-- A character `PutText` draws: its index in the text, the character, the pen it
is drawn at, and the lines printed while placing it. -/
structure Placement where
  index : Nat
  char : UInt8
  pen : Pen
  warnings : List String
deriving DecidableEq, Repr

section Pen

variable (fmt : FloatFormat)

/-- `(int)(pixelHeight * 0.8f)` (line 191). -/
def baselineDrop (pixelHeight : Int) : Int :=
  floatToInt (fmt.round (fmt.round pixelHeight * fmt.round (4 / 5)))

/-- In `float`, `pixelHeight * 0.8f` truncates to `⌊4 * pixelHeight / 5⌋` for every
pixel height in `[0, 2 ^ 20]`: `0.8f` is `4 / 5` plus `2 ^ -24 / 5`, an excess too
small to carry the product past the next integer. -/
theorem baselineDrop_binary32 {pixelHeight : Int} (h₀ : 0 ≤ pixelHeight)
    (h₁ : pixelHeight ≤ 2 ^ 20) : baselineDrop .binary32 pixelHeight = pixelHeight * 4 / 5 := by
  set n := pixelHeight * 4 / 5
  have hn : 5 * n ≤ 4 * pixelHeight ∧ 4 * pixelHeight ≤ 5 * n + 4 := by omega
  have hn₁ : (5 * n : ℚ) ≤ 4 * pixelHeight := by exact_mod_cast hn.1
  have hn₂ : (4 * pixelHeight : ℚ) ≤ 5 * n + 4 := by exact_mod_cast hn.2
  have hph₀ : (0 : ℚ) ≤ pixelHeight := by exact_mod_cast h₀
  have hn₀ : (0 : ℚ) ≤ n := by exact_mod_cast (show 0 ≤ n by omega)
  have hph₁ : (pixelHeight : ℚ) ≤ 2 ^ 20 := by exact_mod_cast h₁
  have hlo : (n : ℚ) ≤ FloatFormat.binary32.round (pixelHeight * (13421773 / 16777216)) :=
    FloatFormat.binary32.le_round (isBinary32_intCast (by rw [abs_lt]; omega)) (by linarith)
  have hhi : FloatFormat.binary32.round (pixelHeight * (13421773 / 16777216)) ≤ n + 7 / 8 :=
    FloatFormat.binary32.round_le ⟨8 * n + 7, -3, by rw [abs_lt]; omega, by norm_num,
      by push_cast; ring⟩ (by linarith)
  have hph : FloatFormat.binary32.round pixelHeight = pixelHeight :=
    FloatFormat.binary32.round_intCast (by rw [abs_lt]; omega)
  rw [baselineDrop, hph, show FloatFormat.binary32.round (4 / 5) = 13421773 / 16777216 from
    roundBinary32_four_fifths, floatToInt, truncToInt, if_pos (by linarith),
    Int.floor_eq_iff.mpr ⟨hlo, by linarith⟩, toInt32_of_isInt ⟨by omega, by omega⟩]

example : baselineDrop .binary32 10 = 8 := baselineDrop_binary32 (by norm_num) (by norm_num)

/-- Lines 189–191: the pen before the first character. -/
def startPen (rect : XrRect2Di) (pixelHeight : Int) : Pen :=
  ⟨fmt.round rect.offset.x, toInt32 (rect.offset.y + baselineDrop fmt pixelHeight)⟩

/-- `xadvance = (float)rect.offset.x; yadvance += pixelHeight;` -/
def Pen.newLine (rect : XrRect2Di) (pixelHeight : Int) (pen : Pen) : Pen :=
  ⟨fmt.round rect.offset.x, toInt32 (pen.yadvance + pixelHeight)⟩

/-- `xadvance += bakedChar.xadvance;` (line 274). -/
def Pen.advance (bc : BakedChar) (pen : Pen) : Pen :=
  ⟨fmt.round (pen.xadvance + bc.xadvance), pen.yadvance⟩

/-- The word-width lookahead of lines 205–209, a float sum.  `w` walks over the
rest of the word, while each step adds the advance of `*text`, the current
character. -/
def remainingWordWidth (font : BakedFont) (charIsSigned : Bool) (cur : UInt8) :
    List UInt8 → ℚ → ℚ
  | [], acc => acc
  | w :: ws, acc =>
    if charValue charIsSigned w > 32 then
      remainingWordWidth font charIsSigned cur ws
        (fmt.round (acc + (font.getBakedChar (charValue charIsSigned cur)).xadvance))
    else acc

end Pen

/-- Reading `glyphBitmap.data()[i]`, faulting outside the bitmap. -/
def BakedFont.glyphPixel? (font : BakedFont) (i : Int) : Option UInt8 :=
  if 0 ≤ i then font.glyphBitmap[i.toNat]? else none

/-- One channel of the blend of lines 265–268:
`(uint8_t)(srcGlyphPixel * c) + (dst * (255 - srcGlyphPixel) / 255)`, a float
product cast to `uint8_t`, plus an `int` quotient, stored back into a `uint8_t`. -/
def blendChannel (fmt : FloatFormat) (src : UInt8) (c : ℚ) (dst : UInt8) : UInt8 :=
  UInt8.ofNat ((castUInt8 (fmt.round (src.toNat * c))).toNat + dst.toNat * (255 - src.toNat) / 255)

/-- Lines 265–268: blend glyph coverage `src` of `color` over `pixel`. -/
def blend (fmt : FloatFormat) (src : UInt8) (color : XrColor4f) (pixel : RGBA8Color) :
    RGBA8Color :=
  ⟨blendChannel fmt src color.r pixel.R, blendChannel fmt src color.g pixel.G,
    blendChannel fmt src color.b pixel.B, blendChannel fmt src color.a pixel.A⟩

theorem blendChannel_zero (fmt : FloatFormat) (c : ℚ) (dst : UInt8) :
    blendChannel fmt 0 c dst = dst := by
  have h : (0 : UInt8).toNat = 0 := rfl
  simp only [blendChannel, h, Nat.cast_zero, zero_mul, fmt.round_zero, castUInt8_zero,
    Nat.sub_zero, Nat.mul_div_cancel _ (by norm_num : 0 < 255), zero_add]
  exact UInt8.toNat.inj (UInt8.toNat_ofNat_of_lt dst.toNat_lt_size)

/-- A glyph pixel of zero coverage leaves the destination pixel as it was. -/
@[simp] theorem blend_zero (fmt : FloatFormat) (color : XrColor4f) (pixel : RGBA8Color) :
    blend fmt 0 color pixel = pixel := by
  simp [blend, blendChannel_zero]

section PutText

variable (fmt : FloatFormat) (font : BakedFont) (rect : XrRect2Di) (pixelHeight : Int)
  (wordWrap : WordWrap) (charIsSigned : Bool)

/-- Lines 211–214: the rest of the word overflows the line, but is no wider than
`rect.extent.width - rect.offset.x`. -/
def wordOverflows (text : List UInt8) (c : UInt8) (pen : Pen) : Bool :=
  let remaining := remainingWordWidth fmt font charIsSigned c text 0
  decide (fmt.round (pen.xadvance + remaining) >
      fmt.round (toInt32 (rect.offset.x + rect.extent.width)) ∧
    remaining ≤ fmt.round (toInt32 (rect.extent.width - rect.offset.x)))

/-- Line 231: the glyph's box overflows the line. -/
def charOverflows (bc : BakedChar) (pen : Pen) : Bool :=
  decide (fmt.round (pen.xadvance + characterWidth bc) >
    fmt.round (toInt32 (rect.offset.x + rect.extent.width)))

/-- Lines 216–223 and 233–240: what a wrap test that fires does, a new line, or
with wrapping disabled a warning naming the whole text. -/
def wrapOrWarn (fullText : CString) (fire : Bool) (pen : Pen) : Pen × List String :=
  if fire then
    match wordWrap with
    | .enabled => (pen.newLine fmt rect pixelHeight, [])
    | .disabled => (pen, [wrapWarning fullText])
  else (pen, [])

/-- The pen at which the character `c`, followed in the text by `rest`, is drawn,
and the lines printed on the way. -/
def glyphPen (fullText : CString) (c : UInt8) (rest : List UInt8) (pen : Pen) :
    Pen × List String :=
  let word := wrapOrWarn fmt rect pixelHeight wordWrap fullText
    (wordOverflows fmt font rect charIsSigned (c :: rest) c pen) pen
  let glyph := wrapOrWarn fmt rect pixelHeight wordWrap fullText
    (charOverflows fmt rect (font.getBakedChar (charValue charIsSigned c)) word.1) word.1
  (glyph.1, word.2 ++ glyph.2)

/-- `(int)std::lround(bakedChar.xoff + xadvance)`: the column of the glyph's left edge. -/
def glyphX (bc : BakedChar) (pen : Pen) : Int := toInt32 (lround (fmt.round (bc.xoff + pen.xadvance)))

/-- `destX` of line 256, for column `cx` of the glyph. -/
def destX (bc : BakedChar) (pen : Pen) (cx : Int) : Int := toInt32 (glyphX fmt bc pen + cx)

/-- `destY` of line 247, for row `cy` of the glyph. -/
def destY (bc : BakedChar) (pen : Pen) (cy : Int) : Int :=
  toInt32 (toInt32 (pen.yadvance + cy) + floatToInt bc.yoff)

/-- Lines 243–272: blend the glyph `bc` at `pen` into the image, skipping pixels
outside the image or `rect`. -/
def drawGlyph (bc : BakedChar) (pen : Pen) (color : XrColor4f) : EStateM Fault RGBAImage Unit :=
  forRange 0 (characterHeight bc) fun cy ↦ do
    let img ← get
    if destY bc pen cy < 0 ∨ destY bc pen cy ≥ img.height ∨ destY bc pen cy < rect.offset.y ∨
        destY bc pen cy ≥ toInt32 (rect.offset.y + rect.extent.height) then
      pure ()
    else
      let srcGlyphRow := font.getBakedCharRow bc cy
      let destImageRow := toInt32 (destY bc pen cy * img.width)
      forRange 0 (characterWidth bc) fun cx ↦ do
        let img ← get
        if destX fmt bc pen cx < 0 ∨ destX fmt bc pen cx ≥ img.width ∨
            destX fmt bc pen cx < rect.offset.x ∨
            destX fmt bc pen cx ≥ toInt32 (rect.offset.x + rect.extent.width) then
          pure ()
        else
          match font.glyphPixel? (srcGlyphRow + (cx + bc.x0.toNat)) with
          | none => throw (.outOfBounds (srcGlyphRow + (cx + bc.x0.toNat)))
          | some srcGlyphPixel => do
            let pixel ← readPixel (destImageRow + destX fmt bc pen cx)
            writePixel (destImageRow + destX fmt bc pen cx) (blend fmt srcGlyphPixel color pixel)

/-- Lines 196–275: the loop over the characters, from `pen` on; it returns the
lines printed. -/
def putTextFrom (fullText : CString) (color : XrColor4f) :
    List UInt8 → Pen → EStateM Fault RGBAImage (List String)
  | [], _ => pure []
  | c :: rest, pen =>
    if charValue charIsSigned c = 10 then
      putTextFrom fullText color rest (pen.newLine fmt rect pixelHeight)
    else do
      let bakedChar := font.getBakedChar (charValue charIsSigned c)
      let placed := glyphPen fmt font rect pixelHeight wordWrap charIsSigned fullText c rest pen
      drawGlyph fmt font rect bakedChar placed.1 color
      let printed ← putTextFrom fullText color rest (placed.1.advance fmt bakedChar)
      pure (placed.2 ++ printed)

/-- `RGBAImage::PutText(rect, text, pixelHeight, color, wordWrap)`: its effect on
the image, and the lines it prints to the console. -/
def putText (text : CString) (color : XrColor4f) : EStateM Fault RGBAImage (List String) :=
  putTextFrom fmt font rect pixelHeight wordWrap charIsSigned text color text.bytes
    (startPen fmt rect pixelHeight)

/-- The pen part of `putTextFrom`: each character drawn, with its index, pen and
the lines printed while placing it. -/
def layoutFrom (fullText : CString) : Nat → List UInt8 → Pen → List Placement
  | _, [], _ => []
  | i, c :: rest, pen =>
    if charValue charIsSigned c = 10 then
      layoutFrom fullText (i + 1) rest (pen.newLine fmt rect pixelHeight)
    else
      let placed := glyphPen fmt font rect pixelHeight wordWrap charIsSigned fullText c rest pen
      ⟨i, c, placed.1, placed.2⟩ :: layoutFrom fullText (i + 1) rest
        (placed.1.advance fmt (font.getBakedChar (charValue charIsSigned c)))

/-- Where `PutText` draws each character of `text`. -/
def layout (text : CString) : List Placement :=
  layoutFrom fmt font rect pixelHeight wordWrap charIsSigned text 0 text.bytes
    (startPen fmt rect pixelHeight)

/-- `drawGlyph` of a placement's character at its pen. -/
def drawPlacement (color : XrColor4f) (g : Placement) : EStateM Fault RGBAImage Unit :=
  drawGlyph fmt font rect (font.getBakedChar (charValue charIsSigned g.char)) g.pen color

/-- The loop of `PutText` is `drawGlyph` run over its layout, followed by the
warnings of the layout. -/
theorem putTextFrom_eq_forM (fullText : CString) (color : XrColor4f) (i : Nat)
    (text : List UInt8) (pen : Pen) :
    putTextFrom fmt font rect pixelHeight wordWrap charIsSigned fullText color text pen =
      (do (layoutFrom fmt font rect pixelHeight wordWrap charIsSigned fullText i text pen).forM
            (drawPlacement fmt font rect charIsSigned color)
          pure ((layoutFrom fmt font rect pixelHeight wordWrap charIsSigned fullText i text
            pen).flatMap Placement.warnings)) := by
  induction text generalizing i pen with
  | nil => rfl
  | cons c rest ih =>
    simp only [putTextFrom, layoutFrom]
    split
    · exact ih (i + 1) _
    · simp only [ih (i + 1), List.forM, List.flatMap_cons, bind_assoc, pure_bind]
      rfl

theorem putText_eq_forM (text : CString) (color : XrColor4f) :
    putText fmt font rect pixelHeight wordWrap charIsSigned text color =
      (do (layout fmt font rect pixelHeight wordWrap charIsSigned text).forM
            (drawPlacement fmt font rect charIsSigned color)
          pure ((layout fmt font rect pixelHeight wordWrap charIsSigned text).flatMap
            Placement.warnings)) :=
  putTextFrom_eq_forM fmt font rect pixelHeight wordWrap charIsSigned text color 0 _ _

end PutText

/-- The text `"a"`. -/
def textA : CString := ⟨[97], by decide⟩

/-- The rectangle `[0, 10) × [0, 10)`. -/
def rect10 : XrRect2Di := ⟨⟨0, 0⟩, ⟨10, 10⟩⟩

/-- A font whose every glyph is a `2 × 2` box at the atlas origin, with coverage
`255, 128` over `64, 0`, no bearing and advance 2. -/
def inkFont : BakedFont where
  glyphBitmap := #[255, 128, 64, 0]
  bakedChars := mkArray 95 ⟨0, 0, 2, 2, 0, 0, 2⟩
  bitmapWidth := 2
  bitmapHeight := 2
  bakedChars_size := rfl
  bitmapArea_isInt := by decide
  glyphBitmap_size := rfl

theorem inkFont_boxesInAtlas : inkFont.BoxesInAtlas := fun bc hbc ↦ by
  rw [show bc = ⟨0, 0, 2, 2, 0, 0, 2⟩ from List.eq_of_mem_replicate (Array.mem_def.mp hbc)]
  decide

end Conformance
