import Mathlib.Data.Int.Log
import Conformance.Basic

/-!
# `float` arithmetic

Every float operation of `RGBAImage.cpp` computes the exact result of its
operands and rounds it to a `float`.  The model keeps that split: a
`FloatFormat` is the rounding, and the functions of the model apply
`fmt.round` wherever the code computes in `float`, including the conversions
`(float)i` of its `int`s.

* `FloatFormat.binary32` is the code's: IEEE 754 binary32, to nearest with
  ties to even (`roundBinary32`).  A positive value is rounded to a multiple of
  `2 ^ quantumExp a`, the weight of the last of its 24 significand bits, or of
  the subnormals' `2 ^ -149`.
* `FloatFormat.exact` is exact rational arithmetic, for statements that are
  asked of it.

A statement about every `FloatFormat` uses only the three fields of the
structure: rounding is monotone, returns a `float` value (`IsBinary32`)
unchanged, and returns its own results unchanged.  `binary32` has them by
`roundBinary32_mono`, `roundBinary32_of_isBinary32` and
`isBinary32_roundBinary32`; the bounds behind them are the two of
`quantumExp`: `a / 2 ^ quantumExp a < 2 ^ 24`, and `2 ^ 23 ≤ a / 2 ^ quantumExp a`
outside the subnormals.

## Overflow to infinity

The exponent is unbounded above: a result of magnitude `2 ^ 128` or more,
which overflows to infinity in `float`, is rounded to 24 significant bits here.
-/

namespace Conformance

/-! ## `float` values -/

/-- `q` is a value of binary32's grid: `m * 2 ^ e` with a 24-bit significand and
an exponent no smaller than that of the least subnormal. -/
def IsBinary32 (q : ℚ) : Prop := ∃ m e : Int, |m| < 2 ^ 24 ∧ -149 ≤ e ∧ q = m * 2 ^ e

theorem isBinary32_intCast {n : Int} (h : |n| < 2 ^ 24) : IsBinary32 n :=
  ⟨n, 0, h, by norm_num, by simp⟩

theorem IsBinary32.neg {q : ℚ} (h : IsBinary32 q) : IsBinary32 (-q) := by
  obtain ⟨m, e, hm, he, rfl⟩ := h
  exact ⟨-m, e, by rwa [abs_neg], he, by push_cast; ring⟩

/-- The float arithmetic a model runs with: each float operation computes the
exact result and rounds it with `round`. -/
structure FloatFormat where
  round : ℚ → ℚ
  round_mono : Monotone round
  round_of_isBinary32 : ∀ q, IsBinary32 q → round q = q
  round_round : ∀ q, round (round q) = round q

/-! ## Rounding to nearest, ties to even -/

/-- The integer nearest to `x`, the even one of two at a tie. -/
def roundHalfEven (x : ℚ) : Int :=
  if x - ⌊x⌋ < 1 / 2 then ⌊x⌋
  else if 1 / 2 < x - ⌊x⌋ then ⌊x⌋ + 1
  else if ⌊x⌋ % 2 = 0 then ⌊x⌋ else ⌊x⌋ + 1

theorem floor_le_roundHalfEven (x : ℚ) : ⌊x⌋ ≤ roundHalfEven x := by
  unfold roundHalfEven
  split_ifs <;> omega

theorem roundHalfEven_le_floor_add_one (x : ℚ) : roundHalfEven x ≤ ⌊x⌋ + 1 := by
  unfold roundHalfEven
  split_ifs <;> omega

@[simp] theorem roundHalfEven_intCast (n : Int) : roundHalfEven n = n := by
  simp [roundHalfEven]

theorem roundHalfEven_mono : Monotone roundHalfEven := by
  intro x y hxy
  rcases (Int.floor_le_floor hxy).lt_or_eq with hlt | heq
  · calc roundHalfEven x ≤ ⌊x⌋ + 1 := roundHalfEven_le_floor_add_one x
      _ ≤ ⌊y⌋ := hlt
      _ ≤ roundHalfEven y := floor_le_roundHalfEven y
  · unfold roundHalfEven
    rw [heq]
    split_ifs <;> first | omega | (exfalso; linarith)

/-! ## Binary32 -/

/-- The exponent of the last significand bit of the `float`s around `a > 0`. -/
def quantumExp (a : ℚ) : Int := max (Int.log 2 a - 23) (-149)

theorem quantumExp_mono {a b : ℚ} (ha : 0 < a) (hab : a ≤ b) : quantumExp a ≤ quantumExp b := by
  have := Int.log_mono_right (b := 2) ha hab
  unfold quantumExp
  omega

theorem two_zpow_pos (e : Int) : (0 : ℚ) < 2 ^ e := zpow_pos two_pos e

/-- `a` has at most 24 bits above `2 ^ quantumExp a`. -/
theorem div_quantum_lt (a : ℚ) : a / 2 ^ quantumExp a < 2 ^ 24 := by
  rw [div_lt_iff₀ (two_zpow_pos _)]
  calc a < 2 ^ (Int.log 2 a + 1) := by simpa using Int.lt_zpow_succ_log_self (b := 2) (by norm_num) a
    _ ≤ 2 ^ (quantumExp a + 24) := zpow_le_zpow_right₀ (by norm_num) (by unfold quantumExp; omega)
    _ = 2 ^ 24 * 2 ^ quantumExp a := by rw [add_comm, zpow_add₀ two_ne_zero]; norm_num

/-- Outside the subnormals, `a` has 24 bits above `2 ^ quantumExp a`. -/
theorem le_div_quantum {a : ℚ} (ha : 0 < a) (h : -149 < quantumExp a) :
    2 ^ 23 ≤ a / 2 ^ quantumExp a := by
  rw [le_div_iff₀ (two_zpow_pos _)]
  have he : quantumExp a + 23 = Int.log 2 a := by unfold quantumExp at h ⊢; omega
  calc (2 : ℚ) ^ 23 * 2 ^ quantumExp a = 2 ^ (quantumExp a + 23) := by
        rw [add_comm, zpow_add₀ two_ne_zero]; norm_num
    _ ≤ a := by rw [he]; simpa using Int.zpow_log_le_self (b := 2) (by norm_num) ha

/-- The binade of `a` fixes its quantum exponent. -/
theorem quantumExp_eq {a : ℚ} {e : Int} (h₁ : 2 ^ (e + 23) ≤ a) (h₂ : a < 2 ^ (e + 24))
    (he : -149 ≤ e) : quantumExp a = e := by
  have ha : 0 < a := (two_zpow_pos _).trans_le h₁
  have hl₁ : e + 23 ≤ Int.log 2 a :=
    (Int.zpow_le_iff_le_log (b := 2) (by norm_num) ha).mp (by exact_mod_cast h₁)
  have hl₂ : Int.log 2 a < e + 24 :=
    (Int.lt_zpow_iff_log_lt (b := 2) (by norm_num) ha).mp (by exact_mod_cast h₂)
  unfold quantumExp
  omega

/-- Rounding of `a ≥ 0` to the nearest multiple of `2 ^ quantumExp a`. -/
def roundBinary32Mag (a : ℚ) : ℚ := roundHalfEven (a / 2 ^ quantumExp a) * 2 ^ quantumExp a

/-- IEEE 754 binary32 rounding, to nearest with ties to even, of an exact result `q`:
magnitude and sign are rounded separately, as the standard's symmetric rounding does. -/
def roundBinary32 (q : ℚ) : ℚ := if q < 0 then -roundBinary32Mag (-q) else roundBinary32Mag q

@[simp] theorem roundHalfEven_zero : roundHalfEven 0 = 0 := by simp [roundHalfEven]

@[simp] theorem roundBinary32Mag_zero : roundBinary32Mag 0 = 0 := by simp [roundBinary32Mag]

theorem roundHalfEven_nonneg {x : ℚ} (hx : 0 ≤ x) : 0 ≤ roundHalfEven x := by
  have := roundHalfEven_mono (show ((0 : Int) : ℚ) ≤ x by exact_mod_cast hx)
  rwa [roundHalfEven_intCast] at this

theorem roundBinary32Mag_nonneg {a : ℚ} (ha : 0 ≤ a) : 0 ≤ roundBinary32Mag a :=
  mul_nonneg (by exact_mod_cast roundHalfEven_nonneg (div_nonneg ha (two_zpow_pos _).le))
    (two_zpow_pos _).le

theorem roundHalfEven_div_quantum_le (a : ℚ) :
    roundHalfEven (a / 2 ^ quantumExp a) ≤ 2 ^ 24 := by
  have := roundHalfEven_mono (show a / 2 ^ quantumExp a ≤ ((2 ^ 24 : Int) : ℚ) by
    push_cast; exact (div_quantum_lt a).le)
  rwa [roundHalfEven_intCast] at this

theorem le_roundHalfEven_div_quantum {a : ℚ} (ha : 0 < a) (h : -149 < quantumExp a) :
    2 ^ 23 ≤ roundHalfEven (a / 2 ^ quantumExp a) := by
  have := roundHalfEven_mono (show ((2 ^ 23 : Int) : ℚ) ≤ a / 2 ^ quantumExp a by
    push_cast; exact le_div_quantum ha h)
  rwa [roundHalfEven_intCast] at this

/-- Rounding magnitudes is monotone: within a binade because `roundHalfEven` is, and
across binades because the lower one rounds to at most `2 ^ 24` of its last bit,
which is at most `2 ^ 23` of the higher one's. -/
theorem roundBinary32Mag_mono {a b : ℚ} (ha : 0 ≤ a) (hab : a ≤ b) :
    roundBinary32Mag a ≤ roundBinary32Mag b := by
  rcases ha.eq_or_lt with rfl | ha
  · rw [roundBinary32Mag_zero]; exact roundBinary32Mag_nonneg hab
  have hb : 0 < b := ha.trans_le hab
  rcases (quantumExp_mono ha hab).lt_or_eq with hlt | heq
  · have hlow : -149 < quantumExp b := by have : -149 ≤ quantumExp a := le_max_right _ _; omega
    calc roundBinary32Mag a ≤ 2 ^ 24 * 2 ^ quantumExp a :=
          mul_le_mul_of_nonneg_right (by exact_mod_cast roundHalfEven_div_quantum_le a)
            (two_zpow_pos _).le
      _ = 2 ^ (quantumExp a + 24) := by rw [add_comm, zpow_add₀ two_ne_zero]; norm_num
      _ ≤ 2 ^ (quantumExp b + 23) := zpow_le_zpow_right₀ (by norm_num) (by omega)
      _ = 2 ^ 23 * 2 ^ quantumExp b := by rw [add_comm, zpow_add₀ two_ne_zero]; norm_num
      _ ≤ roundBinary32Mag b :=
          mul_le_mul_of_nonneg_right (by exact_mod_cast le_roundHalfEven_div_quantum hb hlow)
            (two_zpow_pos _).le
  · have := roundHalfEven_mono (div_le_div_of_nonneg_right hab (two_zpow_pos (quantumExp b)).le)
    unfold roundBinary32Mag
    rw [heq]
    exact mul_le_mul_of_nonneg_right (by exact_mod_cast this) (two_zpow_pos _).le

/-- A positive `float` value is its own rounding: its last bit is at or above
`2 ^ quantumExp`, so it is an integer multiple of it. -/
theorem roundBinary32Mag_of {m e : Int} (hm : 0 < m) (hm' : m < 2 ^ 24) (he : -149 ≤ e) :
    roundBinary32Mag (m * 2 ^ e) = m * 2 ^ e := by
  have hq : (0 : ℚ) < m * 2 ^ e := mul_pos (by exact_mod_cast hm) (two_zpow_pos e)
  have hlog : Int.log 2 ((m : ℚ) * 2 ^ e) < e + 24 := by
    refine (Int.lt_zpow_iff_log_lt (b := 2) (by norm_num) hq).mp ?_
    push_cast
    rw [zpow_add₀ two_ne_zero, mul_comm]
    exact mul_lt_mul_of_pos_left (by exact_mod_cast hm') (two_zpow_pos e)
  have hle : quantumExp (m * 2 ^ e) ≤ e := by unfold quantumExp; omega
  have hint : (m : ℚ) * 2 ^ e / 2 ^ quantumExp (m * 2 ^ e) =
      ((m * 2 ^ (e - quantumExp (m * 2 ^ e)).toNat : Int) : ℚ) := by
    push_cast
    rw [← zpow_natCast, Int.toNat_of_nonneg (by omega), mul_div_assoc, ← zpow_sub₀ two_ne_zero]
  unfold roundBinary32Mag
  rw [hint, roundHalfEven_intCast, ← hint, div_mul_cancel₀ _ (two_zpow_pos _).ne']

theorem isBinary32_roundBinary32Mag {a : ℚ} (ha : 0 ≤ a) : IsBinary32 (roundBinary32Mag a) := by
  rcases ha.eq_or_lt with rfl | ha
  · exact ⟨0, 0, by norm_num, by norm_num, by simp⟩
  have hr₀ := roundHalfEven_nonneg (div_nonneg ha.le (two_zpow_pos (quantumExp a)).le)
  have he : -149 ≤ quantumExp a := le_max_right _ _
  rcases (roundHalfEven_div_quantum_le a).lt_or_eq with hlt | heq
  · exact ⟨_, _, by rwa [abs_of_nonneg hr₀], he, rfl⟩
  · refine ⟨2 ^ 23, quantumExp a + 1, by norm_num, by omega, ?_⟩
    rw [roundBinary32Mag, heq, zpow_add₀ two_ne_zero]
    push_cast
    ring

theorem roundBinary32_mono : Monotone roundBinary32 := by
  intro q r h
  unfold roundBinary32
  split_ifs with hq hr hr
  · exact neg_le_neg (roundBinary32Mag_mono (by linarith) (by linarith))
  · exact (neg_nonpos.mpr (roundBinary32Mag_nonneg (by linarith))).trans
      (roundBinary32Mag_nonneg (not_lt.mp hr))
  · exact absurd (h.trans_lt hr) hq
  · exact roundBinary32Mag_mono (not_lt.mp hq) h

theorem roundBinary32_of_isBinary32 {q : ℚ} (h : IsBinary32 q) : roundBinary32 q = q := by
  obtain ⟨m, e, hm, he, rfl⟩ := h
  obtain ⟨hm₁, hm₂⟩ := abs_lt.mp hm
  rcases lt_trichotomy m 0 with hneg | rfl | hpos
  · have hq : (m : ℚ) * 2 ^ e < 0 :=
      mul_neg_of_neg_of_pos (by exact_mod_cast hneg) (two_zpow_pos e)
    have hm' : -(m : ℚ) * 2 ^ e = ((-m : Int) : ℚ) * 2 ^ e := by push_cast; ring
    rw [roundBinary32, if_pos hq, ← neg_mul, hm', roundBinary32Mag_of (by omega) (by omega) he]
    push_cast
    ring
  · simp [roundBinary32]
  · rw [roundBinary32, if_neg (not_lt.mpr (mul_pos (by exact_mod_cast hpos) (two_zpow_pos e)).le),
      roundBinary32Mag_of hpos hm₂ he]

theorem isBinary32_roundBinary32 (q : ℚ) : IsBinary32 (roundBinary32 q) := by
  unfold roundBinary32
  split
  · exact (isBinary32_roundBinary32Mag (by linarith)).neg
  · exact isBinary32_roundBinary32Mag (not_lt.mp ‹_›)

/-- `0.8f`: `4 / 5` rounds up to `13421773 * 2 ^ -24`. -/
theorem roundBinary32_four_fifths : roundBinary32 (4 / 5) = 13421773 / 16777216 := by
  rw [roundBinary32, if_neg (by norm_num), roundBinary32Mag,
    quantumExp_eq (e := -24) (by norm_num) (by norm_num) (by norm_num)]
  norm_num [roundHalfEven]

namespace FloatFormat

/-- IEEE 754 binary32, the C++ `float`. -/
def binary32 : FloatFormat where
  round := roundBinary32
  round_mono := roundBinary32_mono
  round_of_isBinary32 _ := roundBinary32_of_isBinary32
  round_round q := roundBinary32_of_isBinary32 (isBinary32_roundBinary32 q)

/-- Exact rational arithmetic. -/
def exact : FloatFormat where
  round := id
  round_mono := monotone_id
  round_of_isBinary32 _ _ := rfl
  round_round _ := rfl

@[simp] theorem exact_round (q : ℚ) : exact.round q = q := rfl

variable (fmt : FloatFormat)

/-- An integer of at most 24 bits is a `float`. -/
theorem round_intCast {n : Int} (h : |n| < 2 ^ 24) : fmt.round n = n :=
  fmt.round_of_isBinary32 _ (isBinary32_intCast h)

theorem round_natCast {n : Nat} (h : n < 2 ^ 24) : fmt.round n = n := by
  have := fmt.round_intCast (n := n) (by rw [Nat.abs_cast]; exact_mod_cast h)
  exact_mod_cast this

@[simp] theorem round_zero : fmt.round 0 = 0 := by simpa using fmt.round_natCast (n := 0) (by norm_num)

theorem round_ofNat (n : Nat) [n.AtLeastTwo] (h : n < 2 ^ 24) :
    fmt.round (OfNat.ofNat n) = OfNat.ofNat n := by
  simpa using fmt.round_natCast h

/-- A `float` below the exact result is below the rounded one. -/
theorem le_round {b q : ℚ} (hb : IsBinary32 b) (h : b ≤ q) : b ≤ fmt.round q :=
  fmt.round_of_isBinary32 b hb ▸ fmt.round_mono h

/-- A `float` above the exact result is above the rounded one. -/
theorem round_le {b q : ℚ} (hb : IsBinary32 b) (h : q ≤ b) : fmt.round q ≤ b :=
  fmt.round_of_isBinary32 b hb ▸ fmt.round_mono h

end FloatFormat

end Conformance
