import Mathlib.Data.Rat.Floor
import Mathlib.Tactic.Linarith

/-!
# The C++ machine underneath `RGBAImage.cpp`

Everything the image model needs from C++ itself, and nothing from the image:

* `Fault`: the exceptions the modelled code throws (`std::out_of_range`,
  `std::logic_error`, `std::runtime_error`), and the one fault it does not raise
  but commits, an access outside the buffer it indexes.  A function that would
  read or write out of bounds ends in `Fault.outOfBounds` instead of doing so;
  proving that a run ends in `.ok` is proving every index it used was in range.
* Methods that mutate `*this` run in `EStateM Fault σ`, whose `error` result
  keeps the state: a C++ exception leaves the object as the throw found it,
  and "throws, leaving the pixels unchanged" is a statement about that state.
* `loop`/`forRange`: the counted `for` loops of the source, with the one
  invariant rule every loop proof below goes through (`loop_ok`).
* `int` arithmetic is `Int` reduced by `toInt32` after every operation that can
  leave the `int` range, `(int)f` is `floatToInt`, `std::lround` is `lround`,
  `(uint8_t)f` is `castUInt8`, and a `char` is a byte whose value depends on
  whether the implementation makes `char` signed (`charValue`).  Float
  arithmetic is in `Conformance.Float`.

## Undefined behaviour

Signed overflow and out-of-range conversions to `int` or `uint8_t` are
undefined in C++.  The model gives them the two's complement wrap-around that
the compilers the suite is built with produce (`toInt32`, `floatToInt`,
`castUInt8`); a statement that needs no overflow says so by a hypothesis.
Pointer arithmetic (`pixels.data() + i`) is exact.
-/

namespace Conformance

/-- The ways a modelled call can end other than by returning. -/
inductive Fault where
  /-- `std::out_of_range(what)`. -/
  | outOfRange (what : String)
  /-- `std::logic_error(what)`. -/
  | logicError (what : String)
  /-- `std::runtime_error(what)`. -/
  | runtimeError (what : String)
  /-- A read or write at `index`, outside the buffer: undefined behaviour in C++. -/
  | outOfBounds (index : Int)
deriving DecidableEq, Repr

section EStateM

variable {ε σ α β : Type}

theorem bind_ok {x : EStateM ε σ α} {f : α → EStateM ε σ β} {s s' : σ} {a : α}
    (h : x s = .ok a s') : (x >>= f) s = f a s' := by
  show EStateM.bind x f s = _
  simp only [EStateM.bind, h]

theorem bind_error {x : EStateM ε σ α} {f : α → EStateM ε σ β} {s s' : σ} {e : ε}
    (h : x s = .error e s') : (x >>= f) s = .error e s' := by
  show EStateM.bind x f s = _
  simp only [EStateM.bind, h]

@[simp] theorem get_apply (s : σ) : (get : EStateM ε σ σ) s = .ok s s := rfl

@[simp] theorem pure_apply (a : α) (s : σ) : (pure a : EStateM ε σ α) s = .ok a s := rfl

@[simp] theorem set_apply (s s' : σ) : (set s' : EStateM ε σ PUnit) s = .ok ⟨⟩ s' := rfl

@[simp] theorem modify_apply (f : σ → σ) (s : σ) : (modify f : EStateM ε σ PUnit) s = .ok ⟨⟩ (f s) :=
  rfl

/-- `n` iterations of a counted loop whose counter starts at `start`. -/
def loop (body : Int → EStateM ε σ Unit) (start : Int) : Nat → EStateM ε σ Unit
  | 0 => pure ()
  | n + 1 => do body start; loop body (start + 1) n

/-- `for (int i = lo; i < hi; i++) body(i);` -/
def forRange (lo hi : Int) (body : Int → EStateM ε σ Unit) : EStateM ε σ Unit :=
  loop body lo (hi - lo).toNat

theorem loop_succ_ok {body : Int → EStateM ε σ Unit} {start : Int} {n : Nat} {s s' : σ}
    (h : body start s = .ok () s') : loop body start (n + 1) s = loop body (start + 1) n s' :=
  bind_ok h

/-- The invariant rule for counted loops: if the body keeps `I k` to `I (k + 1)`
without faulting at each of the `n` counter values, the loop ends without
faulting in a state satisfying `I n`. -/
theorem loop_ok {body : Int → EStateM ε σ Unit} {I : Nat → σ → Prop} :
    ∀ (start : Int) (n : Nat),
      (∀ k s, k < n → I k s → ∃ s', body (start + k) s = .ok () s' ∧ I (k + 1) s') →
      ∀ s, I 0 s → ∃ s', loop body start n s = .ok () s' ∧ I n s'
  | _, 0, _, s, hs => ⟨s, rfl, hs⟩
  | start, n + 1, hbody, s, hs => by
    obtain ⟨s₁, h₁, hs₁⟩ := hbody 0 s (Nat.succ_pos n) hs
    rw [Int.ofNat_zero, Int.add_zero] at h₁
    rw [loop_succ_ok h₁]
    refine loop_ok (I := fun k ↦ I (k + 1)) (start + 1) n (fun k s hk hI ↦ ?_) s₁ hs₁
    obtain ⟨s', h, hs'⟩ := hbody (k + 1) s (Nat.succ_lt_succ hk) hI
    exact ⟨s', by rw [← h]; congr 1; push_cast; ring, hs'⟩

/-- The invariant rule for `forRange`, with the invariant indexed by the counter. -/
theorem forRange_ok {body : Int → EStateM ε σ Unit} {I : Int → σ → Prop} {lo hi : Int}
    (hbody : ∀ i s, lo ≤ i → i < hi → I i s → ∃ s', body i s = .ok () s' ∧ I (i + 1) s')
    {s : σ} (hs : I lo s) : ∃ s', forRange lo hi body s = .ok () s' ∧ I (max lo hi) s' := by
  have step : ∀ k s, k < (hi - lo).toNat → I (lo + k) s →
      ∃ s', body (lo + k) s = .ok () s' ∧ I (lo + (k + 1 : Nat)) s' := fun k s hk hI ↦ by
    simpa only [Nat.cast_succ, ← add_assoc] using hbody (lo + k) s (by omega) (by omega) hI
  obtain ⟨s', h, hs'⟩ := loop_ok (I := fun k ↦ I (lo + k)) lo _ step s (by simpa using hs)
  exact ⟨s', h, by rwa [show lo + ((hi - lo).toNat : Int) = max lo hi by omega] at hs'⟩

end EStateM

/-! ## Scalars -/

/-- `x` is a value of the C++ type `int`. -/
def IsInt (x : Int) : Prop := -2 ^ 31 ≤ x ∧ x < 2 ^ 31

instance (x : Int) : Decidable (IsInt x) := inferInstanceAs (Decidable (_ ∧ _))

/-- The `int` an operation on `int`s stores when its exact result is `x`: the two's
complement reduction of `x` into `[-2 ^ 31, 2 ^ 31)`. -/
def toInt32 (x : Int) : Int := x.bmod (2 ^ 32)

/-- Without overflow an `int` operation is exact. -/
theorem toInt32_of_isInt {x : Int} (h : IsInt x) : toInt32 x = x := by
  unfold IsInt at h
  rw [toInt32, Int.bmod_def]
  push_cast
  split <;> omega

theorem isInt_toInt32 (x : Int) : IsInt (toInt32 x) := by
  have h₁ := Int.le_bmod (x := x) (m := 2 ^ 32) (by norm_num)
  have h₂ := Int.bmod_lt (x := x) (m := 2 ^ 32) (by norm_num)
  unfold IsInt toInt32
  push_cast at h₁ h₂ ⊢
  omega

@[simp] theorem toInt32_toInt32 (x : Int) : toInt32 (toInt32 x) = toInt32 x :=
  toInt32_of_isInt (isInt_toInt32 x)

@[simp] theorem toInt32_zero : toInt32 0 = 0 := rfl

@[simp] theorem toInt32_ofNat (n : Nat) (h : n < 2 ^ 31) :
    toInt32 (no_index (OfNat.ofNat n)) = OfNat.ofNat n :=
  toInt32_of_isInt (show IsInt (n : Int) from ⟨by omega, by exact_mod_cast h⟩)

/-- A wrapped intermediate sum wraps to the same `int` as the exact one. -/
theorem toInt32_toInt32_add (x y : Int) : toInt32 (toInt32 x + y) = toInt32 (x + y) := by
  rw [toInt32, toInt32, add_comm, Int.add_bmod_bmod, add_comm, toInt32]

/-- Conversion of an integer to `uint32_t`: reduction modulo `2 ^ 32`. -/
def toUInt32 (x : Int) : Nat := (x % 2 ^ 32).toNat

theorem toUInt32_of_mem {x : Int} (h₀ : 0 ≤ x) (h₁ : x < 2 ^ 32) : toUInt32 x = x.toNat := by
  unfold toUInt32
  rw [Int.emod_eq_of_lt h₀ h₁]

/-- `(int)f`: conversion of a float to `int` truncates towards zero. -/
def truncToInt (q : ℚ) : Int := if 0 ≤ q then ⌊q⌋ else ⌈q⌉

/-- `(int)f`: truncation towards zero, wrapped into `int` where C++ leaves the
conversion undefined. -/
def floatToInt (q : ℚ) : Int := toInt32 (truncToInt q)

/-- `std::lround`: the nearest integer, halfway cases rounded away from zero. -/
def lround (q : ℚ) : Int := if 0 ≤ q then ⌊q + 1 / 2⌋ else -⌊-q + 1 / 2⌋

theorem lround_le (q : ℚ) : (lround q : ℚ) ≤ q + 1 / 2 := by
  unfold lround
  split
  · exact Int.floor_le _
  · have := Int.lt_floor_add_one (-q + 1 / 2)
    push_cast
    linarith

theorem le_lround (q : ℚ) : q - 1 / 2 ≤ lround q := by
  unfold lround
  split
  · have := Int.lt_floor_add_one (q + 1 / 2)
    linarith
  · have := Int.floor_le (-q + 1 / 2)
    push_cast
    linarith

/-- A row-major index `py * W + px` of a cell of a `W × H` grid lies in `[0, W * H)`. -/
theorem rowMajor_mem {W H px py : Int} (hpx : 0 ≤ px) (hpxW : px < W) (hpy : 0 ≤ py)
    (hpyH : py < H) : 0 ≤ py * W + px ∧ py * W + px < W * H := by
  constructor <;> nlinarith

/-- `py * W + px` determines `(px, py)` when `0 ≤ px < W`. -/
theorem rowMajor_inj {W px py qx qy : Int} (hpx : 0 ≤ px) (hpxW : px < W) (hqx : 0 ≤ qx)
    (hqxW : qx < W) (h : py * W + px = qy * W + qx) : py = qy ∧ px = qx := by
  have hy : py = qy := by
    rcases lt_trichotomy py qy with hlt | heq | hgt
    · nlinarith
    · exact heq
    · nlinarith
  subst hy
  exact ⟨rfl, by omega⟩

/-- `(uint8_t)f`: truncation, then reduction modulo `256`.  C++ leaves a float
outside `[0, 256)` undefined here; the model takes the common wrap-around. -/
def castUInt8 (q : ℚ) : UInt8 := UInt8.ofNat (truncToInt q % 256).toNat

@[simp] theorem castUInt8_zero : castUInt8 0 = 0 := by decide

/-- The value of a `char` holding the byte `b`.  Whether `char` is signed is the
implementation's choice, and every character comparison in `PutText` reads it. -/
def charValue (charIsSigned : Bool) (b : UInt8) : Int :=
  if charIsSigned ∧ 128 ≤ b.toNat then b.toNat - 256 else b.toNat

/-- A newline is `'\n'` whatever the signedness of `char`. -/
@[simp] theorem charValue_eq_ten_iff (charIsSigned : Bool) (b : UInt8) :
    charValue charIsSigned b = 10 ↔ b = 10 := by
  have : b.toNat < 256 := b.toNat_lt_size
  constructor
  · intro h
    apply UInt8.toNat.inj
    unfold charValue at h
    split at h <;> rw [show (10 : UInt8).toNat = 10 from rfl] <;> omega
  · rintro rfl
    cases charIsSigned <;> decide

end Conformance
