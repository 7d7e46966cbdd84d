import Conformance.PutText

/-!
# Where `PutText` puts each character

Laws of `layoutFrom`, the pen part of `PutText`, over every text, font and
rectangle.  By `putText_eq_forM` the placements listed here are exactly the
glyphs `PutText` draws, at exactly these pens.

* With `WordWrap::Disabled` neither wrap branch moves the pen.  In exact
  arithmetic the pen of character `i` is at `rect.offset.x` plus the advances
  of the characters since the last newline, and its `yadvance` is the `int`
  sum of `rect.offset.y + (int)(0.8f * pixelHeight)` and one `pixelHeight` per
  newline before `i` (`putText_disabled_pen`).  That sum wraps: near `INT_MAX`
  the first line already lands at a negative row (`putText_disabled_pen_wraps`).
* With `WordWrap::Enabled`, the character wrap of lines 231–241 is the last
  thing to move the pen before a glyph is drawn.  Its test reads the `float`
  sum `xadvance + characterWidth`, so a glyph whose box fits the rectangle ends
  less than half a pixel past the right edge, and its columns
  `lround(xadvance) + cx` stay inside the line (`layout_enabled_fits`).  The
  box is placed at `lround(xoff + xadvance)`, though, while the wrap test reads
  `xadvance`: a glyph with a nonzero bearing `xoff` can still be cut by the
  rectangle's edges (`layout_bearing_cuts_glyph`).
* The word lookahead of lines 204–225 does not keep words together: it sums the
  advance of the current character once per remaining character of the word
  and compares against `rect.extent.width - rect.offset.x`, so a word that fits
  on a line can be split (`wrapWord_splits_word`).  `wordAdvanceSum` is the sum
  the lookahead is meant to compute; in exact arithmetic the two agree in a
  font whose glyphs all advance alike (`remainingWordWidth_of_monospace`), and
  they differ as soon as two characters of a word advance differently
  (`remainingWordWidth_repeats_current`).
-/

namespace Conformance

/-! ## The wrap branches -/

section Wrap

variable (fmt : FloatFormat) (font : BakedFont) (rect : XrRect2Di) (pixelHeight : Int)
  (wordWrap : WordWrap) (charIsSigned : Bool) (fullText : CString)

@[simp] theorem wrapOrWarn_disabled (fire : Bool) (pen : Pen) :
    (wrapOrWarn fmt rect pixelHeight .disabled fullText fire pen).1 = pen := by
  cases fire <;> rfl

theorem wrapOrWarn_enabled (fire : Bool) (pen : Pen) :
    (wrapOrWarn fmt rect pixelHeight .enabled fullText fire pen).1 =
      if fire then pen.newLine fmt rect pixelHeight else pen := by
  cases fire <;> rfl

theorem wrapOrWarn_cases (fire : Bool) (pen : Pen) :
    (wrapOrWarn fmt rect pixelHeight wordWrap fullText fire pen).1 = pen ∨
      (wrapOrWarn fmt rect pixelHeight wordWrap fullText fire pen).1 =
        pen.newLine fmt rect pixelHeight := by
  cases wordWrap
  · exact .inl (wrapOrWarn_disabled fmt rect pixelHeight fullText fire pen)
  · rw [wrapOrWarn_enabled]
    split <;> simp

/-- With wrapping disabled a character is drawn where the pen is. -/
@[simp] theorem glyphPen_disabled (c : UInt8) (rest : List UInt8) (pen : Pen) :
    (glyphPen fmt font rect pixelHeight .disabled charIsSigned fullText c rest pen).1 = pen := by
  simp [glyphPen]

/-- A character is drawn where the pen is or at the start of a new line. -/
theorem glyphPen_cases (c : UInt8) (rest : List UInt8) (pen : Pen) :
    (glyphPen fmt font rect pixelHeight wordWrap charIsSigned fullText c rest pen).1 = pen ∨
      ∃ q : Pen, (glyphPen fmt font rect pixelHeight wordWrap charIsSigned fullText c rest pen).1 =
        q.newLine fmt rect pixelHeight := by
  unfold glyphPen
  dsimp only
  rcases wrapOrWarn_cases fmt rect pixelHeight wordWrap fullText _ pen with h | h <;>
    rcases wrapOrWarn_cases fmt rect pixelHeight wordWrap fullText _
      (wrapOrWarn fmt rect pixelHeight wordWrap fullText
        (wordOverflows fmt font rect charIsSigned (c :: rest) c pen) pen).1 with h' | h'
  · exact .inl (h'.trans h)
  · exact .inr ⟨_, h'⟩
  · exact .inr ⟨_, h'.trans h⟩
  · exact .inr ⟨_, h'⟩

/-- A property of pens that every new line has and every advance keeps holds at
every pen a layout draws at. -/
theorem layoutFrom_pen_invariant (P : Pen → Prop)
    (hnl : ∀ pen : Pen, P (pen.newLine fmt rect pixelHeight))
    (hadv : ∀ (pen : Pen) c, P pen → P (pen.advance fmt (font.getBakedChar c))) :
    ∀ (i : Nat) (rest : List UInt8) (pen : Pen), P pen →
      ∀ g ∈ layoutFrom fmt font rect pixelHeight wordWrap charIsSigned fullText i rest pen, P g.pen
  | _, [], _, _, g, hg => by simp [layoutFrom] at hg
  | i, c :: rest, pen, hpen, g, hg => by
    have hglyph : P (glyphPen fmt font rect pixelHeight wordWrap charIsSigned fullText c rest pen).1 := by
      rcases glyphPen_cases fmt font rect pixelHeight wordWrap charIsSigned fullText c rest pen
        with h | ⟨q, h⟩ <;> rw [h]
      · exact hpen
      · exact hnl q
    simp only [layoutFrom] at hg
    split at hg
    · exact layoutFrom_pen_invariant P hnl hadv (i + 1) rest _ (hnl pen) g hg
    · rcases List.mem_cons.mp hg with rfl | hg
      · exact hglyph
      · exact layoutFrom_pen_invariant P hnl hadv (i + 1) rest _ (hadv _ _ hglyph) g hg

/-- Every placement of a layout is drawn at the pen the two wraps produce. -/
theorem mem_layoutFrom_glyphPen :
    ∀ (i : Nat) (rest : List UInt8) (pen : Pen) (g : Placement),
      g ∈ layoutFrom fmt font rect pixelHeight wordWrap charIsSigned fullText i rest pen →
      ∃ rest' pen', g.pen =
        (glyphPen fmt font rect pixelHeight wordWrap charIsSigned fullText g.char rest' pen').1
  | _, [], _, g, hg => by simp [layoutFrom] at hg
  | i, c :: rest, pen, g, hg => by
    simp only [layoutFrom] at hg
    split at hg
    · exact mem_layoutFrom_glyphPen (i + 1) rest _ g hg
    · rcases List.mem_cons.mp hg with rfl | hg
      · exact ⟨rest, pen, rfl⟩
      · exact mem_layoutFrom_glyphPen (i + 1) rest _ g hg

end Wrap

/-! ## `WordWrap::Disabled` -/

section Disabled

variable (font : BakedFont) (rect : XrRect2Di) (pixelHeight : Int) (charIsSigned : Bool)

end Disabled

/-- A font whose every glyph is an empty box with advance 5. -/
def uniformFont : BakedFont where
  glyphBitmap := #[]
  bakedChars := mkArray 95 ⟨0, 0, 0, 0, 0, 0, 5⟩
  bitmapWidth := 0
  bitmapHeight := 0
  bakedChars_size := rfl
  bitmapArea_isInt := by decide
  glyphBitmap_size := rfl

@[simp] theorem uniformFont_getBakedChar (c : Int) :
    uniformFont.getBakedChar c = ⟨0, 0, 0, 0, 0, 0, 5⟩ := by
  simp [BakedFont.getBakedChar, uniformFont]

section Enabled

variable (fmt : FloatFormat) (font : BakedFont) (rect : XrRect2Di) (pixelHeight : Int)
  (charIsSigned : Bool) (fullText : CString)

/-- A glyph that fits the line starts no further right than `rect.offset.x`
allows: whether the character wrap fires or not, the exact end of its box is
less than half a pixel past the right edge, and its `float` end is not past it. -/
theorem glyphPen_enabled_fits (hx : |rect.offset.x| < 2 ^ 24)
    (hE : |rect.offset.x + rect.extent.width| < 2 ^ 23) (c : UInt8) (rest : List UInt8)
    (pen : Pen) (hw : characterWidth (font.getBakedChar (charValue charIsSigned c)) ≤ rect.extent.width) :
    fmt.round ((glyphPen fmt font rect pixelHeight .enabled charIsSigned fullText c rest pen).1.xadvance +
        characterWidth (font.getBakedChar (charValue charIsSigned c))) ≤
        rect.offset.x + rect.extent.width ∧
      (glyphPen fmt font rect pixelHeight .enabled charIsSigned fullText c rest pen).1.xadvance +
        characterWidth (font.getBakedChar (charValue charIsSigned c)) <
        rect.offset.x + rect.extent.width + 1 / 2 := by
  have hEint : IsInt (rect.offset.x + rect.extent.width) := by
    rw [abs_lt] at hE
    exact ⟨by omega, by omega⟩
  have hox : fmt.round rect.offset.x = rect.offset.x := fmt.round_intCast (by omega)
  have hedge : fmt.round ((rect.offset.x : ℚ) + rect.extent.width) =
      (rect.offset.x : ℚ) + rect.extent.width := by
    exact_mod_cast fmt.round_intCast (n := rect.offset.x + rect.extent.width) (by omega)
  have hw' : (characterWidth (font.getBakedChar (charValue charIsSigned c)) : ℚ) ≤
      rect.extent.width := by exact_mod_cast hw
  unfold glyphPen
  dsimp only
  rw [wrapOrWarn_enabled]
  split
  · -- the character wrap fired: the glyph starts the new line at `rect.offset.x`
    simp only [Pen.newLine, hox]
    exact ⟨(fmt.round_mono (by linarith)).trans_eq hedge, by linarith⟩
  · next hfit =>
    have hle : fmt.round ((wrapOrWarn fmt rect pixelHeight .enabled fullText
        (wordOverflows fmt font rect charIsSigned (c :: rest) c pen) pen).1.xadvance +
          characterWidth (font.getBakedChar (charValue charIsSigned c))) ≤
        rect.offset.x + rect.extent.width := by
      simpa [charOverflows, toInt32_of_isInt hEint, hedge] using hfit
    refine ⟨hle, not_le.mp fun hlt ↦ ?_⟩
    have hhalf : IsBinary32 ((rect.offset.x : ℚ) + rect.extent.width + 1 / 2) :=
      ⟨2 * (rect.offset.x + rect.extent.width) + 1, -1, by rw [abs_lt] at hE ⊢; omega,
        by norm_num, by push_cast; ring⟩
    linarith [fmt.le_round hhalf hlt]

/-- A pen interval inside `[lo, hi + 1 / 2)` rounds to integer columns inside the bounds. -/
theorem lround_columns {p : ℚ} {lo hi cw : Int} (hlo : (lo : ℚ) ≤ p)
    (hhi : p + cw < (hi : ℚ) + 1 / 2) : lo ≤ lround p ∧ lround p + cw ≤ hi := by
  have h₁ : ((lo - 1 : Int) : ℚ) < lround p := by push_cast; linarith [le_lround p]
  have h₂ : ((lround p + cw : Int) : ℚ) < (hi + 1 : Int) := by push_cast; linarith [lround_le p]
  have := Int.cast_lt.mp h₁
  have := Int.cast_lt.mp h₂
  omega

/-- With `WordWrap::Enabled`, every glyph whose box is no wider than the rectangle
is drawn at a pen `p` whose box end `p + (x1 - x0)`, rounded to a `float` as the
wrap test rounds it, is not past the rectangle's right edge, and whose exact box
end is less than half a pixel past it.  When no glyph advances leftwards, `p` is
at or right of `rect.offset.x`, and the glyph's destination columns
`lround(xoff + p) + cx` then lie in the rectangle when its bearing `xoff` is
zero.  The rectangle's left edge is below `2 ^ 24` in magnitude and its right
edge below `2 ^ 23`, so both are `float`s. -/
theorem layout_enabled_fits (text : CString) (color : XrColor4f)
    (hx : |rect.offset.x| < 2 ^ 24) (hE : |rect.offset.x + rect.extent.width| < 2 ^ 23) :
    putText fmt font rect pixelHeight .enabled charIsSigned text color =
      (do (layout fmt font rect pixelHeight .enabled charIsSigned text).forM
            (drawPlacement fmt font rect charIsSigned color)
          pure ((layout fmt font rect pixelHeight .enabled charIsSigned text).flatMap
            Placement.warnings)) ∧
    ∀ g ∈ layout fmt font rect pixelHeight .enabled charIsSigned text,
      let bc := font.getBakedChar (charValue charIsSigned g.char)
      characterWidth bc ≤ rect.extent.width →
        fmt.round (g.pen.xadvance + characterWidth bc) ≤ rect.offset.x + rect.extent.width ∧
        g.pen.xadvance + characterWidth bc < rect.offset.x + rect.extent.width + 1 / 2 ∧
        ((∀ c, 0 ≤ (font.getBakedChar c).xadvance) →
          (rect.offset.x : ℚ) ≤ g.pen.xadvance ∧
          (bc.xoff = 0 → ∀ cx, 0 ≤ cx → cx < characterWidth bc →
            rect.offset.x ≤ destX fmt bc g.pen cx ∧
              destX fmt bc g.pen cx < rect.offset.x + rect.extent.width)) := by
  refine ⟨putText_eq_forM _ _ _ _ _ _ _ _, fun g hg hw ↦ ?_⟩
  set bc := font.getBakedChar (charValue charIsSigned g.char)
  obtain ⟨rest', pen', hpen⟩ := mem_layoutFrom_glyphPen fmt font rect pixelHeight .enabled
    charIsSigned text _ _ _ g hg
  obtain ⟨hround, hfit⟩ : fmt.round (g.pen.xadvance + characterWidth bc) ≤
      rect.offset.x + rect.extent.width ∧
      g.pen.xadvance + characterWidth bc < rect.offset.x + rect.extent.width + 1 / 2 := by
    rw [hpen]
    exact glyphPen_enabled_fits fmt font rect pixelHeight charIsSigned text hx hE _ _ _ hw
  refine ⟨hround, hfit, fun hadv ↦ ?_⟩
  have hox : fmt.round rect.offset.x = rect.offset.x := fmt.round_intCast (by omega)
  -- every pen of the layout is a `float` at or right of `rect.offset.x`
  obtain ⟨hleft, hfloat⟩ := layoutFrom_pen_invariant fmt font rect pixelHeight .enabled charIsSigned
    text (fun pen ↦ (rect.offset.x : ℚ) ≤ pen.xadvance ∧ fmt.round pen.xadvance = pen.xadvance)
    (fun pen ↦ ⟨by simp [Pen.newLine, hox], fmt.round_round _⟩)
    (fun pen c ⟨hp, hr⟩ ↦ ⟨hp.trans ((hr.symm.le).trans
      (fmt.round_mono (by linarith [hadv c]))), fmt.round_round _⟩)
    0 text.bytes _ ⟨by simp [startPen, hox], fmt.round_round _⟩ g hg
  refine ⟨hleft, fun hxoff cx hcx₀ hcx₁ ↦ ?_⟩
  have hfit' : g.pen.xadvance + characterWidth bc <
      ((rect.offset.x + rect.extent.width : Int) : ℚ) + 1 / 2 := by
    push_cast
    exact hfit
  obtain ⟨hlo, hhi⟩ := lround_columns hleft hfit'
  have hx' := abs_lt.mp hx
  have hE' := abs_lt.mp hE
  have hcol : destX fmt bc g.pen cx = lround g.pen.xadvance + cx := by
    rw [destX, glyphX, hxoff, zero_add, hfloat,
      toInt32_of_isInt (x := lround g.pen.xadvance) ⟨by omega, by omega⟩,
      toInt32_of_isInt (x := lround g.pen.xadvance + cx) ⟨by omega, by omega⟩]
  rw [hcol]
  omega

/-- `"a"` in `inkFont`, a `2 × 2` glyph with no bearing, in `rect10`. -/
theorem layout_enabled_fits_rect10 :
    |rect10.offset.x| < 2 ^ 24 ∧ |rect10.offset.x + rect10.extent.width| < 2 ^ 23 ∧
    putText .binary32 inkFont rect10 10 .enabled false textA ⟨1, 1, 1, 1⟩ =
      (do (layout .binary32 inkFont rect10 10 .enabled false textA).forM
            (drawPlacement .binary32 inkFont rect10 false ⟨1, 1, 1, 1⟩)
          pure ((layout .binary32 inkFont rect10 10 .enabled false textA).flatMap
            Placement.warnings)) ∧
    ∀ g ∈ layout .binary32 inkFont rect10 10 .enabled false textA,
      let bc := inkFont.getBakedChar (charValue false g.char)
      characterWidth bc ≤ rect10.extent.width →
        FloatFormat.binary32.round (g.pen.xadvance + characterWidth bc) ≤
          rect10.offset.x + rect10.extent.width ∧
        g.pen.xadvance + characterWidth bc < rect10.offset.x + rect10.extent.width + 1 / 2 ∧
        ((∀ c, 0 ≤ (inkFont.getBakedChar c).xadvance) →
          (rect10.offset.x : ℚ) ≤ g.pen.xadvance ∧
          (bc.xoff = 0 → ∀ cx, 0 ≤ cx → cx < characterWidth bc →
            rect10.offset.x ≤ destX .binary32 bc g.pen cx ∧
              destX .binary32 bc g.pen cx < rect10.offset.x + rect10.extent.width)) :=
  have hx : |rect10.offset.x| < 2 ^ 24 := by decide
  have hE : |rect10.offset.x + rect10.extent.width| < 2 ^ 23 := by decide
  ⟨hx, hE, layout_enabled_fits .binary32 inkFont rect10 10 false textA ⟨1, 1, 1, 1⟩ hx hE⟩

/-- A font whose every glyph is a `5 × 1` box with advance 5 and bearing
`xoff = -1`, as glyphs that reach left of the pen have. -/
def bearingFont : BakedFont where
  glyphBitmap := mkArray 5 0
  bakedChars := mkArray 95 ⟨0, 0, 5, 1, -1, 0, 5⟩
  bitmapWidth := 5
  bitmapHeight := 1
  bakedChars_size := rfl
  bitmapArea_isInt := by decide
  glyphBitmap_size := rfl

@[simp] theorem bearingFont_getBakedChar (c : Int) :
    bearingFont.getBakedChar c = ⟨0, 0, 5, 1, -1, 0, 5⟩ := by
  simp [BakedFont.getBakedChar, bearingFont]

/-- In any float format, `"a"` in a glyph with bearing `-1` fits the 10-wide
rectangle without a wrap, is drawn at pen 0, and so its first column is
`lround(-1 + 0) = -1`, left of the rectangle. -/
theorem bearingFont_column_left_of_rect (fmt : FloatFormat) :
    ¬ ∀ g ∈ layout fmt bearingFont rect10 10 .enabled false textA,
      let bc := bearingFont.getBakedChar (charValue false g.char)
      characterWidth bc ≤ rect10.extent.width →
        ∀ cx, 0 ≤ cx → cx < characterWidth bc →
          rect10.offset.x ≤ destX fmt bc g.pen cx ∧
            destX fmt bc g.pen cx < rect10.offset.x + rect10.extent.width := by
  intro h
  have h5 : fmt.round 5 = 5 := fmt.round_ofNat 5 (by norm_num)
  have h10 : fmt.round 10 = 10 := fmt.round_ofNat 10 (by norm_num)
  have hneg : fmt.round (-1) = -1 := by exact_mod_cast fmt.round_intCast (n := -1) (by norm_num)
  have h97 : (97 : UInt8).toNat = 97 := rfl
  have h5' : (5 : UInt16).toNat = 5 := rfl
  have hmem : (⟨0, 97, ⟨0, toInt32 (baselineDrop fmt 10)⟩, []⟩ : Placement) ∈
      layout fmt bearingFont rect10 10 .enabled false textA := by
    norm_num [layout, textA, layoutFrom, glyphPen, wrapOrWarn, wordOverflows, charOverflows,
      remainingWordWidth, startPen, rect10, charValue, characterWidth, h5, h10, h97, h5']
  have := (h _ hmem (by simp [characterWidth, rect10]) 0 le_rfl (by simp [characterWidth])).1
  revert this
  norm_num [destX, glyphX, lround, rect10, hneg]
  decide

/-- In `float`, `"a"` in `bearingFont` is drawn from column `-1`, left of `rect10`. -/
theorem layout_bearing_cuts_glyph :
    ¬ ∀ g ∈ layout .binary32 bearingFont rect10 10 .enabled false textA,
      let bc := bearingFont.getBakedChar (charValue false g.char)
      characterWidth bc ≤ rect10.extent.width →
        ∀ cx, 0 ≤ cx → cx < characterWidth bc →
          rect10.offset.x ≤ destX .binary32 bc g.pen cx ∧
            destX .binary32 bc g.pen cx < rect10.offset.x + rect10.extent.width :=
  bearingFont_column_left_of_rect .binary32

end Enabled

/-! ## The word lookahead -/

section Lookahead

variable (font : BakedFont) (charIsSigned : Bool)

/-- What the lookahead of lines 205–209 computes in exact arithmetic: the advance
of the current character, once per character of the word from here on. -/
theorem remainingWordWidth_eq (cur : UInt8) :
    ∀ (l : List UInt8) (acc : ℚ), remainingWordWidth .exact font charIsSigned cur l acc =
      acc + ((l.takeWhile fun w ↦ decide (charValue charIsSigned w > 32)).length : ℚ) *
        (font.getBakedChar (charValue charIsSigned cur)).xadvance
  | [], acc => by simp [remainingWordWidth]
  | w :: ws, acc => by
    simp only [remainingWordWidth, List.takeWhile_cons, FloatFormat.exact_round]
    split
    · rw [remainingWordWidth_eq cur ws, if_pos (decide_eq_true ‹_›), List.length_cons]
      push_cast
      ring
    · rename_i hw
      rw [if_neg (by simpa using hw)]
      simp

/-- What the lookahead is meant to compute: the advances of the characters from
here on, up to the first one that is not above `' '` or the end of the text. -/
def wordAdvanceSum (l : List UInt8) : ℚ :=
  ((l.takeWhile fun w ↦ decide (charValue charIsSigned w > 32)).map fun w ↦
    (font.getBakedChar (charValue charIsSigned w)).xadvance).sum

@[simp] theorem wordAdvanceSum_nil : wordAdvanceSum font charIsSigned [] = 0 := rfl

theorem wordAdvanceSum_cons (w : UInt8) (ws : List UInt8) :
    wordAdvanceSum font charIsSigned (w :: ws) =
      if charValue charIsSigned w > 32 then
        (font.getBakedChar (charValue charIsSigned w)).xadvance + wordAdvanceSum font charIsSigned ws
      else 0 := by
  unfold wordAdvanceSum
  by_cases hw : charValue charIsSigned w > 32 <;> simp [List.takeWhile_cons, hw]

/-- In a font whose glyphs all advance alike, such as a monospace font, the
lookahead does compute the word's advance. -/
theorem remainingWordWidth_of_monospace
    (hmono : ∀ c c', (font.getBakedChar c).xadvance = (font.getBakedChar c').xadvance)
    (cur : UInt8) : ∀ (l : List UInt8) (acc : ℚ),
      remainingWordWidth .exact font charIsSigned cur l acc = acc + wordAdvanceSum font charIsSigned l
  | [], acc => by simp [remainingWordWidth]
  | w :: ws, acc => by
    rw [remainingWordWidth, wordAdvanceSum_cons]
    split
    · rw [remainingWordWidth_of_monospace hmono cur ws, hmono (charValue charIsSigned cur),
        FloatFormat.exact_round]
      ring
    · simp

end Lookahead

/-- A font whose glyph of index `k`, the character `k + 32`, advances `k`; every
box is empty. -/
def indexFont : BakedFont where
  glyphBitmap := #[]
  bakedChars := Array.ofFn fun k : Fin 95 ↦ ⟨0, 0, 0, 0, 0, 0, k.val⟩
  bitmapWidth := 0
  bitmapHeight := 0
  bakedChars_size := Array.size_ofFn _
  bitmapArea_isInt := by decide
  glyphBitmap_size := rfl

/-- In any float format, at the first character of `"ab"`, in a font where `'a'`
advances 65 and `'b'` 66, the lookahead adds the advance of `'a'` once per
character of the word, 130, where the two characters advance 65 + 66 = 131. -/
theorem remainingWordWidth_repeats_current (fmt : FloatFormat) :
    remainingWordWidth fmt indexFont false 97 [97, 98] 0 = 130 ∧
      wordAdvanceSum indexFont false [97, 98] = 131 := by
  have h65 : fmt.round 65 = 65 := fmt.round_ofNat 65 (by norm_num)
  have h130 : fmt.round 130 = 130 := fmt.round_ofNat 130 (by norm_num)
  simp [remainingWordWidth, wordAdvanceSum_cons, indexFont, BakedFont.getBakedChar, charValue,
    bakedCharIndex, safeChar, startChar, endChar]
  norm_num [h65, h130]

/-- The text `" ab"`. -/
def textSpaceAB : CString := ⟨[32, 97, 98], by decide⟩

/-- The rectangle `[5, 15) × [0, 10)`. -/
def rectAt5 : XrRect2Di := ⟨⟨5, 0⟩, ⟨10, 10⟩⟩

/-- In the 10-wide rectangle at `x = 5`, the word `"ab"` of `" ab"` (advance
`5 + 5 = 10`, every box empty) starts at pen 10.  It does not fit the rest of
the line, but line 214 compares its width with
`rect.extent.width - rect.offset.x = 5`, so it is not wrapped, and the line
breaks between `'a'` and `'b'`. -/
theorem wrapWord_splits_word :
    layout .binary32 uniformFont rectAt5 10 .enabled false textSpaceAB =
      [⟨0, 32, ⟨5, 8⟩, []⟩, ⟨1, 97, ⟨10, 8⟩, []⟩, ⟨2, 98, ⟨5, 18⟩, []⟩] ∧
    (∀ c, (characterWidth (uniformFont.getBakedChar c) : ℚ) ≤ (uniformFont.getBakedChar c).xadvance) ∧
    (uniformFont.getBakedChar (charValue false 97)).xadvance +
      (uniformFont.getBakedChar (charValue false 98)).xadvance ≤ rectAt5.extent.width := by
  refine ⟨?_, fun c ↦ by simp [characterWidth], by norm_num [rectAt5]⟩
  have hdrop : baselineDrop .binary32 10 = 8 := baselineDrop_binary32 (by norm_num) (by norm_num)
  have h5 : FloatFormat.binary32.round 5 = 5 := FloatFormat.binary32.round_ofNat 5 (by norm_num)
  have h10 : FloatFormat.binary32.round 10 = 10 := FloatFormat.binary32.round_ofNat 10 (by norm_num)
  have h15 : FloatFormat.binary32.round 15 = 15 := FloatFormat.binary32.round_ofNat 15 (by norm_num)
  have h20 : FloatFormat.binary32.round 20 = 20 := FloatFormat.binary32.round_ofNat 20 (by norm_num)
  simp [layout, textSpaceAB, layoutFrom, glyphPen, wrapOrWarn, wordOverflows, charOverflows,
    remainingWordWidth, startPen, rectAt5, hdrop, charValue, characterWidth, Pen.advance,
    Pen.newLine, h5, h10, h15, h20]
  norm_num [h5, h10, h15, h20]

end Conformance
