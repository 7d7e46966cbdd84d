import Conformance.CopyWithStride

/-!
# `CopyWithStride` at any pitch

`Conformance::CopyWithStride` (lines 367–373) never compares `rowPitch` with
`rowSize`.  With a pitch shorter than a row, including `0`, consecutive rows
overlap in the destination and each `memcpy` overwrites the tail of the row
before.  `copyWithStride_any_pitch` describes the loop for every pitch: when
every row fits in both buffers the copy returns, and each byte of the buffer
holds the byte of the last row written over it (`lastRow`), or its old value
if no row covers it.  With a pitch of at least a row no two rows overlap and
the last row over a byte is the only one.
-/

namespace Conformance

section Pitch

variable (destOffset rowSize rowPitch : Nat)

/-- The last of the first `k` rows whose destination range covers byte `j`. -/
def lastRow : Nat → Nat → Option Nat
  | 0, _ => none
  | k + 1, j =>
    if destOffset + k * rowPitch ≤ j ∧ j < destOffset + k * rowPitch + rowSize then some k
    else lastRow k j

/-- Byte `j` of the buffer after the first `k` rows: from the last row over it,
or from `data`. -/
def afterRows (source data : Array UInt8) (k j : Nat) : Option UInt8 :=
  match lastRow destOffset rowSize rowPitch k j with
  | some r => source[r * rowSize + (j - (destOffset + r * rowPitch))]?
  | none => data[j]?

/-- One more row: the bytes it covers come from it, the others are as before. -/
theorem afterRows_succ (source data : Array UInt8) (k j : Nat) :
    afterRows destOffset rowSize rowPitch source data (k + 1) j =
      if destOffset + k * rowPitch ≤ j ∧ j < destOffset + k * rowPitch + rowSize then
        source[k * rowSize + (j - (destOffset + k * rowPitch))]?
      else afterRows destOffset rowSize rowPitch source data k j := by
  by_cases h : destOffset + k * rowPitch ≤ j ∧ j < destOffset + k * rowPitch + rowSize
  · simp only [afterRows, lastRow, if_pos h]
  · simp only [afterRows, lastRow, if_neg h]

/-- For every pitch, when each row fits in the buffer and the source, the copy
returns, keeps the buffer's size, and leaves in each byte the byte of the last
row written over it, or its old value. -/
theorem copyWithStride_any_pitch (source data : Array UInt8) (rows : Nat)
    (hd : ∀ r < rows, destOffset + r * rowPitch + rowSize ≤ data.size)
    (hs : rows * rowSize ≤ source.size) :
    ∃ data', copyWithStride source destOffset rowSize rows rowPitch data = .ok () data' ∧
      data'.size = data.size ∧
      ∀ j, data'[j]? = afterRows destOffset rowSize rowPitch source data rows j := by
  have hbody : ∀ (i : Int) s, 0 ≤ i → i < rows →
      (s.size = data.size ∧ ∀ j, s[j]? = afterRows destOffset rowSize rowPitch source data i.toNat j) →
      ∃ s', memcpy (destOffset + i.toNat * rowPitch) source (i.toNat * rowSize) rowSize s = .ok () s' ∧
        s'.size = data.size ∧
        ∀ j, s'[j]? = afterRows destOffset rowSize rowPitch source data (i + 1).toNat j :=
    fun i s h₀ h₁ ⟨hsize, hget⟩ ↦ by
      have hsrc : i.toNat * rowSize + rowSize ≤ source.size :=
        calc i.toNat * rowSize + rowSize = (i.toNat + 1) * rowSize := (Nat.succ_mul _ _).symm
          _ ≤ rows * rowSize := Nat.mul_le_mul_right _ (by omega)
          _ ≤ source.size := hs
      obtain ⟨s', hok, hsize', hget'⟩ :=
        memcpy_ok (show destOffset + i.toNat * rowPitch + rowSize ≤ s.size by
          rw [hsize]; exact hd _ (by omega)) hsrc
      refine ⟨s', hok, hsize'.trans hsize, fun j ↦ ?_⟩
      rw [hget', show (i + 1).toNat = i.toNat + 1 by omega, afterRows_succ, hget,
        Nat.add_comm (i.toNat * rowSize)]
  obtain ⟨data', hok, hsize, hget⟩ := forRange_ok
    (I := fun i s ↦ s.size = data.size ∧ ∀ j, s[j]? = afterRows destOffset rowSize rowPitch source data i.toNat j)
    hbody (s := data) ⟨rfl, fun _ ↦ rfl⟩
  rw [show (max 0 (rows : Int)).toNat = rows by omega] at hget
  exact ⟨data', hok, hsize, hget⟩

end Pitch

/-- Two 2-byte rows at pitch `1` into a 3-byte buffer: the second row overwrites
the second byte of the first. -/
theorem copyWithStride_any_pitch_overlap :
    (∀ r < 2, 0 + r * 1 + 2 ≤ (#[0, 0, 0] : Array UInt8).size) ∧
      2 * 2 ≤ (#[1, 2, 3, 4] : Array UInt8).size ∧
    ∃ data', copyWithStride #[1, 2, 3, 4] 0 2 2 1 #[0, 0, 0] = .ok () data' ∧
      data'.size = (#[0, 0, 0] : Array UInt8).size ∧
      ∀ j, data'[j]? = afterRows 0 2 1 #[1, 2, 3, 4] #[0, 0, 0] 2 j :=
  have hd : ∀ r < 2, 0 + r * 1 + 2 ≤ (#[0, 0, 0] : Array UInt8).size := by decide
  have hs : 2 * 2 ≤ (#[1, 2, 3, 4] : Array UInt8).size := by decide
  ⟨hd, hs, copyWithStride_any_pitch 0 2 1 #[1, 2, 3, 4] #[0, 0, 0] 2 hd hs⟩

example : (List.range 3).map (afterRows 0 2 1 #[1, 2, 3, 4] #[0, 0, 0] 2) =
    [some 1, some 3, some 4] := by decide

end Conformance
