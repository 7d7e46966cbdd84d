import Conformance.Layout

/-!
# `PutText` and the signedness of `char`

Whether `char` is signed is the implementation's choice.  `GetBakedChar` sends
every negative `char` and every byte above `'~'` to the same `'_'`
(`getBakedChar_charValue`), and `'\n'` is the same byte either way; only the
lookahead `*w > ' '` of lines 205–209 tells a byte above `127` from its
negative signed value.

* On an ASCII text the signedness changes nothing `PutText` does, neither the
  image nor the lines it prints; with `WordWrap::Disabled` it does not change
  the image on any text (`putText_signedness_independent`).
* It can change the lines printed with `WordWrap::Disabled`: the lookahead still
  decides whether the warning of line 220 prints, and the two conventions
  measure different words when a byte is above `127`
  (`layout_disabled_warnings_signedness`).
-/

namespace Conformance

/-! ## Glyph lookup does not see the signedness of `char` -/

/-- A byte and its signed value fall on the same side of `StartChar..EndChar`. -/
theorem safeChar_charValue (charIsSigned charIsSigned' : Bool) (b : UInt8) :
    safeChar (charValue charIsSigned b) = safeChar (charValue charIsSigned' b) := by
  have : b.toNat < 256 := b.toNat_lt_size
  unfold safeChar charValue startChar endChar
  split_ifs <;> omega

/-- `GetBakedChar` gives one glyph for a byte, signed or not. -/
theorem getBakedChar_charValue (font : BakedFont) (charIsSigned charIsSigned' : Bool)
    (b : UInt8) :
    font.getBakedChar (charValue charIsSigned b) = font.getBakedChar (charValue charIsSigned' b) := by
  simp only [BakedFont.getBakedChar, bakedCharIndex, safeChar_charValue charIsSigned charIsSigned' b]

/-- Below `128` a byte is its own `char` value, signed or not. -/
theorem charValue_of_lt (charIsSigned charIsSigned' : Bool) {b : UInt8} (hb : b.toNat < 128) :
    charValue charIsSigned b = charValue charIsSigned' b := by
  unfold charValue
  split_ifs <;> omega

section Signedness

variable (fmt : FloatFormat) (font : BakedFont) (rect : XrRect2Di) (pixelHeight : Int)
  (wordWrap : WordWrap) (fullText : CString)

/-- The lookahead agrees under two signedness conventions that agree on the word. -/
theorem remainingWordWidth_congr {s s' : Bool} {cur : UInt8}
    (hcur : charValue s cur = charValue s' cur) :
    ∀ {ws : List UInt8} (acc : ℚ), (∀ b ∈ ws, charValue s b = charValue s' b) →
      remainingWordWidth fmt font s cur ws acc = remainingWordWidth fmt font s' cur ws acc
  | [], _, _ => rfl
  | w :: ws, acc, h => by
    simp only [remainingWordWidth, h w (List.mem_cons_self w ws), hcur,
      remainingWordWidth_congr hcur _ fun b hb ↦ h b (List.mem_cons_of_mem w hb)]

/-- On a text whose bytes have the same value under both conventions, the layout,
printed lines included, does not depend on the signedness of `char`. -/
theorem layoutFrom_congr {s s' : Bool} :
    ∀ (i : Nat) {text : List UInt8} (pen : Pen), (∀ b ∈ text, charValue s b = charValue s' b) →
      layoutFrom fmt font rect pixelHeight wordWrap s fullText i text pen =
        layoutFrom fmt font rect pixelHeight wordWrap s' fullText i text pen
  | _, [], _, _ => rfl
  | i, c :: rest, pen, h => by
    have hglyph : glyphPen fmt font rect pixelHeight wordWrap s fullText c rest pen =
        glyphPen fmt font rect pixelHeight wordWrap s' fullText c rest pen := by
      unfold glyphPen wordOverflows
      rw [getBakedChar_charValue font s s' c,
        remainingWordWidth_congr fmt font (h c (List.mem_cons_self c rest)) 0 h]
    simp only [layoutFrom, charValue_eq_ten_iff, hglyph, getBakedChar_charValue font s s' c,
      layoutFrom_congr (i + 1) _ fun b hb ↦ h b (List.mem_cons_of_mem c hb)]

theorem drawPlacement_congr (s s' : Bool) (color : XrColor4f) :
    drawPlacement fmt font rect s color = drawPlacement fmt font rect s' color :=
  funext fun g ↦ by simp only [drawPlacement, getBakedChar_charValue font s s' g.char]

/-- With wrapping disabled the glyphs drawn, and so the pixels written, do not
depend on the signedness of `char`. -/
theorem forM_layoutFrom_disabled_congr (s s' : Bool) (color : XrColor4f) (i : Nat)
    (text : List UInt8) (pen : Pen) :
    (layoutFrom fmt font rect pixelHeight .disabled s fullText i text pen).forM
        (drawPlacement fmt font rect s color) =
      (layoutFrom fmt font rect pixelHeight .disabled s' fullText i text pen).forM
        (drawPlacement fmt font rect s' color) := by
  induction text generalizing i pen with
  | nil => simp only [layoutFrom, List.forM]
  | cons c rest ih =>
    by_cases hc : c = 10
    · simp only [layoutFrom, charValue_eq_ten_iff, hc, if_true, ih]
    · simp only [layoutFrom, charValue_eq_ten_iff, hc, if_false, List.forM, drawPlacement,
        glyphPen_disabled, getBakedChar_charValue font s s' c, ih]

/-- Whether `char` is signed changes nothing `PutText` does when every byte of the
text is ASCII, and, with word wrap disabled, nothing it does to the image. -/
theorem putText_signedness_independent (text : CString) (color : XrColor4f) :
    ((∀ b ∈ text.bytes, b.toNat < 128) →
      putText fmt font rect pixelHeight wordWrap true text color =
        putText fmt font rect pixelHeight wordWrap false text color) ∧
    (wordWrap = .disabled →
      (putText fmt font rect pixelHeight wordWrap true text color >>= fun _ ↦ pure ()) =
        (putText fmt font rect pixelHeight wordWrap false text color >>= fun _ ↦ pure ())) := by
  refine ⟨fun h ↦ ?_, fun h ↦ ?_⟩
  · rw [putText_eq_forM, putText_eq_forM, layout, layout,
      layoutFrom_congr fmt font rect pixelHeight wordWrap text 0 _
        fun b hb ↦ charValue_of_lt true false (h b hb), drawPlacement_congr fmt font rect true false]
  · subst h
    simp only [putText_eq_forM, bind_assoc, pure_bind, layout,
      forM_layoutFrom_disabled_congr fmt font rect pixelHeight text true false color 0]

end Signedness

/-- A two-byte text whose first byte is above `127`. -/
def textHighA : CString := ⟨[200, 97], by decide⟩

/-- `textHighA` in `uniformFont`, without wrapping: the image is the same either way. -/
theorem putText_signedness_independent_disabled :
    (putText .binary32 uniformFont rect10 10 .disabled true textHighA ⟨1, 1, 1, 1⟩ >>=
        fun _ ↦ pure ()) =
      (putText .binary32 uniformFont rect10 10 .disabled false textHighA ⟨1, 1, 1, 1⟩ >>=
        fun _ ↦ pure ()) :=
  (putText_signedness_independent .binary32 uniformFont rect10 10 .disabled textHighA
    ⟨1, 1, 1, 1⟩).2 rfl

/-- The rectangle `[-5, 3) × [0, 10)`. -/
def rectLeft : XrRect2Di := ⟨⟨-5, 0⟩, ⟨8, 10⟩⟩

/-- In any float format, with wrapping disabled, the lookahead at the byte `200`
of `textHighA` measures the word `200 a` (advance 10) when `char` is unsigned,
which overflows the line at `x = -5` and prints the warning, and measures nothing
when `char` is signed, where `200` is `-56`. -/
theorem layout_disabled_warnings_signedness (fmt : FloatFormat) :
    (layout fmt uniformFont rectLeft 10 .disabled false textHighA).flatMap Placement.warnings =
        [wrapWarning textHighA, wrapWarning textHighA] ∧
      (layout fmt uniformFont rectLeft 10 .disabled true textHighA).flatMap Placement.warnings =
        [wrapWarning textHighA] := by
  have h3 : fmt.round 3 = 3 := fmt.round_ofNat 3 (by norm_num)
  have h5 : fmt.round 5 = 5 := fmt.round_ofNat 5 (by norm_num)
  have h10 : fmt.round 10 = 10 := fmt.round_ofNat 10 (by norm_num)
  have h13 : fmt.round 13 = 13 := fmt.round_ofNat 13 (by norm_num)
  have hm5 : fmt.round (-5) = -5 := by exact_mod_cast fmt.round_intCast (n := -5) (by norm_num)
  have h97 : (97 : UInt8).toNat = 97 := rfl
  have h200 : (200 : UInt8).toNat = 200 := rfl
  have hE : toInt32 (-5 + 8) = 3 := by decide
  have hW : toInt32 (8 - -5) = 13 := by decide
  norm_num [layout, layoutFrom, textHighA, glyphPen, wrapOrWarn, wordOverflows, charOverflows,
    remainingWordWidth, startPen, rectLeft, charValue, characterWidth, Pen.advance, hE, hW, h3, h5,
    h10, h13, hm5, h97, h200]

end Conformance
