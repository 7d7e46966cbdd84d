import Conformance.Basic

/-!
# `BakedFont`: the glyph atlas and its cache

A `BakedFont` (lines 44–128) is a single-channel glyph bitmap baked by
`stbtt_BakeFontBitmap`, with one `stbtt_bakedchar` box per character of
`' '`..`'~'`.  The structure carries the facts its constructor establishes:
`m_bakedChars` is a `std::array` of `EndChar - StartChar + 1` entries, and
`glyphBitmap` is resized to the `int` product `m_bitmapWidth * m_bitmapHeight`.

`GetBakedChar` maps every `char` into the array (`bakedCharIndex_mem`), so it
is total here; `GetBakedCharRow` is the offset of a glyph row in the bitmap.

`GetOrCreate` (lines 96–107) is meant to cache one font per pixel height, but
`s_bakedFonts` is a local variable, not a `static` one: every call starts from
an empty map, misses, and bakes a new font (`getOrCreateAll_bakes_every_call`).

## What is not modelled

The constructor's file read and its retry loop around `stbtt_BakeFontBitmap`
run outside the repository's code; the model takes a baked font as given and
counts constructions.
-/

namespace Conformance

/-- `stbtt_bakedchar`: the glyph's box in the atlas, its offset from the pen, and
the pen advance. -/
structure BakedChar where
  x0 : UInt16
  y0 : UInt16
  x1 : UInt16
  y1 : UInt16
  xoff : ℚ
  yoff : ℚ
  xadvance : ℚ
deriving DecidableEq, Repr

/-- `StartChar`. -/
def startChar : Int := 32

/-- `EndChar`. -/
def endChar : Int := 126

/-- The baked glyph atlas of one pixel height. -/
structure BakedFont where
  glyphBitmap : Array UInt8
  bakedChars : Array BakedChar
  bitmapWidth : Int
  bitmapHeight : Int
  bakedChars_size : bakedChars.size = (endChar - startChar + 1).toNat
  bitmapArea_isInt : IsInt (bitmapWidth * bitmapHeight)
  glyphBitmap_size : (glyphBitmap.size : Int) = bitmapWidth * bitmapHeight

/-- `(c < StartChar || c > EndChar) ? '_' : c`. -/
def safeChar (c : Int) : Int := if c < startChar ∨ c > endChar then 95 else c

/-- The index `safeChar - StartChar` that `GetBakedChar` reads. -/
def bakedCharIndex (c : Int) : Int := safeChar c - startChar

/-- Every `char` value indexes `m_bakedChars` in range. -/
theorem bakedCharIndex_mem (c : Int) :
    0 ≤ bakedCharIndex c ∧ bakedCharIndex c < endChar - startChar + 1 := by
  unfold bakedCharIndex safeChar startChar endChar
  split <;> omega

namespace BakedFont

/-- `GetBakedChar(c)`. -/
def getBakedChar (font : BakedFont) (c : Int) : BakedChar :=
  font.bakedChars.get ⟨(bakedCharIndex c).toNat, by
    have := bakedCharIndex_mem c
    rw [font.bakedChars_size]
    omega⟩

/-- `GetBakedCharRow(bc, charY)`, as an offset into `glyphBitmap`: the `int`
product `(charY + bc.y0) * m_bitmapWidth`. -/
def getBakedCharRow (font : BakedFont) (bc : BakedChar) (charY : Int) : Int :=
  toInt32 ((charY + bc.y0.toNat) * font.bitmapWidth)

/-- Every box of the font lies inside its atlas. -/
def BoxesInAtlas (font : BakedFont) : Prop :=
  ∀ bc ∈ font.bakedChars, bc.x0 ≤ bc.x1 ∧ (bc.x1.toNat : Int) ≤ font.bitmapWidth ∧
    bc.y0 ≤ bc.y1 ∧ (bc.y1.toNat : Int) ≤ font.bitmapHeight

theorem getBakedChar_mem (font : BakedFont) (c : Int) : font.getBakedChar c ∈ font.bakedChars :=
  Array.getElem_mem _

end BakedFont

/-- `(int)(bakedChar.x1 - bakedChar.x0)`: the `unsigned short` fields are promoted
to `int` before the subtraction. -/
def characterWidth (bc : BakedChar) : Int := (bc.x1.toNat : Int) - bc.x0.toNat

/-- `(int)(bakedChar.y1 - bakedChar.y0)`. -/
def characterHeight (bc : BakedChar) : Int := (bc.y1.toNat : Int) - bc.y0.toNat

/-! ## `GetOrCreate` -/

/-- The fonts constructed so far, in order, by the pixel height each was baked
at; a `std::shared_ptr<BakedFont>` is named by its position in this list. -/
structure FontHeap where
  baked : List Int
deriving DecidableEq, Repr

/-- `BakedFont::GetOrCreate(pixelHeight)`.  The map is declared inside the
function without `static`, so it is empty on entry and destroyed on return. -/
def getOrCreate (pixelHeight : Int) (heap : FontHeap) : Nat × FontHeap :=
  let sBakedFonts : List (Int × Nat) := []
  match sBakedFonts.lookup pixelHeight with
  | some font => (font, heap)
  | none => (heap.baked.length, ⟨heap.baked ++ [pixelHeight]⟩)

/-- Successive calls `GetOrCreate(h₁), …, GetOrCreate(hₙ)`, as made by successive
`PutText` calls: the fonts returned, and the heap after them. -/
def getOrCreateAll : List Int → FontHeap → List Nat × FontHeap
  | [], heap => ([], heap)
  | h :: hs, heap =>
    let r := getOrCreate h heap
    let rs := getOrCreateAll hs r.2
    (r.1 :: rs.1, rs.2)

/-- Every call bakes a new font, whatever heights came before: the heap grows by
one font per call, and the calls return pairwise distinct fonts. -/
theorem getOrCreateAll_bakes_every_call (hs : List Int) (heap : FontHeap) :
    (getOrCreateAll hs heap).2.baked = heap.baked ++ hs ∧
      (getOrCreateAll hs heap).1 = List.range' heap.baked.length hs.length := by
  induction hs generalizing heap with
  | nil => simp [getOrCreateAll]
  | cons h hs ih =>
    obtain ⟨ih₁, ih₂⟩ := ih ⟨heap.baked ++ [h]⟩
    simp only [getOrCreateAll, getOrCreate, List.lookup_nil] at ih₁ ih₂ ⊢
    simp [ih₁, ih₂, List.range'_succ]

/-- Two `PutText` calls with pixel height 16 bake the font twice and hold two
different fonts. -/
theorem getOrCreate_twice_bakes_twice :
    getOrCreateAll [16, 16] ⟨[]⟩ = ([0, 1], ⟨[16, 16]⟩) := by
  decide

end Conformance
