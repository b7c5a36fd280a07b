import Mathlib.Algebra.Order.Floor.Ring
import Mathlib.Algebra.Order.Round
import Mathlib.Data.Int.Log
import Mathlib.Data.Rat.Floor
import Mathlib.Tactic.FieldSimp
import Mathlib.Tactic.Linarith
import Mathlib.Tactic.NormNum
import Mathlib.Tactic.Ring

set_option autoImplicit false

namespace FandheBackend.FloatRounding

section Integers

/-- The nearest integer, and of two the even one. -/
def roundEven (x : ℚ) : ℤ :=
  if x - ⌊x⌋ < 1 / 2 then ⌊x⌋
  else if 1 / 2 < x - ⌊x⌋ then ⌊x⌋ + 1
  else if ⌊x⌋ % 2 = 0 then ⌊x⌋
  else ⌊x⌋ + 1

theorem roundEven_le_iff {n : ℤ} (hn : n % 2 = 0) (x : ℚ) : roundEven x ≤ n ↔ x ≤ n + 1 / 2 := by
  have hfloor := Int.floor_le x
  have hnext := Int.lt_floor_add_one x
  unfold roundEven
  generalize ⌊x⌋ = f at hfloor hnext
  split_ifs with hlow hhigh heven
  · constructor
    · intro h
      have h : (f : ℚ) ≤ n := by exact_mod_cast h
      linarith
    · intro h
      have h : (f : ℚ) < (n + 1 : ℤ) := by push_cast; linarith
      have h : f < n + 1 := by exact_mod_cast h
      omega
  · constructor
    · intro h
      have h : ((f + 1 : ℤ) : ℚ) ≤ n := by exact_mod_cast h
      push_cast at h
      linarith
    · intro h
      have h : (f : ℚ) < n := by linarith
      have h : f < n := by exact_mod_cast h
      omega
  · have htie : x = f + 1 / 2 := by linarith
    rw [htie, add_le_add_iff_right, Int.cast_le]
  · have htie : x = f + 1 / 2 := by linarith
    rw [htie, add_le_add_iff_right, Int.cast_le]
    omega

theorem le_roundEven_iff {n : ℤ} (hn : n % 2 = 0) (x : ℚ) : n ≤ roundEven x ↔ n - 1 / 2 ≤ x := by
  have hfloor := Int.floor_le x
  have hnext := Int.lt_floor_add_one x
  unfold roundEven
  generalize ⌊x⌋ = f at hfloor hnext
  split_ifs with hlow hhigh heven
  · constructor
    · intro h
      have h : (n : ℚ) ≤ f := by exact_mod_cast h
      linarith
    · intro h
      have h : (n : ℚ) < (f + 1 : ℤ) := by push_cast; linarith
      have h : n < f + 1 := by exact_mod_cast h
      omega
  · constructor
    · intro h
      have h : (n : ℚ) ≤ (f + 1 : ℤ) := by exact_mod_cast h
      push_cast at h
      linarith
    · intro h
      have h : (n : ℚ) < (f + 2 : ℤ) := by push_cast; linarith
      have h : n < f + 2 := by exact_mod_cast h
      omega
  · have htie : x = f + 1 / 2 := by linarith
    have hcast : (n : ℚ) - 1 / 2 ≤ x ↔ n ≤ f + 1 := by
      rw [htie, ← Int.cast_le (R := ℚ)]
      push_cast
      constructor <;> intro h <;> linarith
    rw [hcast]
    omega
  · have htie : x = f + 1 / 2 := by linarith
    have hcast : (n : ℚ) - 1 / 2 ≤ x ↔ n ≤ f + 1 := by
      rw [htie, ← Int.cast_le (R := ℚ)]
      push_cast
      constructor <;> intro h <;> linarith
    rw [hcast]

end Integers

section Formats

structure BinaryFormat where
  precision : ℕ
  minExponent : ℤ
  maxExponent : ℤ

variable (F : BinaryFormat)

def BinaryFormat.exponent (x : ℚ) : ℤ := max F.minExponent (Int.log 2 |x| - F.precision + 1)

def BinaryFormat.spacing (x : ℚ) : ℚ := 2 ^ F.exponent x

def BinaryFormat.nearest (x : ℚ) : ℚ := roundEven (x / F.spacing x) * F.spacing x

inductive Rounded where
  | finite (value : ℚ)
  | infinite (negative : Bool)
  deriving DecidableEq

def BinaryFormat.round (x : ℚ) : Rounded :=
  if |F.nearest x| < 2 ^ F.maxExponent then .finite (F.nearest x) else .infinite (x < 0)

theorem two_zpow_pos (k : ℤ) : (0 : ℚ) < 2 ^ k := zpow_pos (by norm_num) k

theorem two_zpow_le {j k : ℤ} (h : j ≤ k) : (2 : ℚ) ^ j ≤ 2 ^ k :=
  zpow_le_zpow_right₀ (by norm_num) h

theorem two_zpow_lt {j k : ℤ} (h : j < k) : (2 : ℚ) ^ j < 2 ^ k :=
  zpow_lt_zpow_right₀ (by norm_num) h

theorem two_zpow_half (k : ℤ) : (2 : ℚ) ^ k / 2 = 2 ^ (k - 1) := by
  rw [zpow_sub_one₀ (by norm_num), div_eq_mul_inv]

theorem half_spacing_lt_iff (hprecision : 0 < F.precision) {x : ℚ} (hx : x ≠ 0) :
    F.spacing x / 2 < |x| ↔ (2 : ℚ) ^ (F.minExponent - 1) < |x| := by
  have hlog : (2 : ℚ) ^ Int.log 2 |x| ≤ |x| := by
    exact_mod_cast Int.zpow_log_le_self (b := 2) (by norm_num) (abs_pos.mpr hx)
  rw [BinaryFormat.spacing, two_zpow_half, BinaryFormat.exponent]
  rcases le_total (Int.log 2 |x| - F.precision + 1) F.minExponent with hle | hle
  · rw [max_eq_left hle]
  · rw [max_eq_right hle]
    have hhalf : (2 : ℚ) ^ (Int.log 2 |x| - F.precision + 1 - 1) < |x| :=
      (two_zpow_lt (by omega)).trans_le hlog
    have hmin : (2 : ℚ) ^ (F.minExponent - 1) ≤ 2 ^ (Int.log 2 |x| - F.precision + 1 - 1) :=
      two_zpow_le (by omega)
    exact ⟨fun _ => hmin.trans_lt hhalf, fun _ => hhalf⟩

theorem nearest_pos_iff (hprecision : 0 < F.precision) (x : ℚ) :
    0 < F.nearest x ↔ (2 : ℚ) ^ (F.minExponent - 1) < x := by
  have hspacing : 0 < F.spacing x := two_zpow_pos _
  have hround : 0 < F.nearest x ↔ F.spacing x / 2 < x := by
    rw [BinaryFormat.nearest, mul_pos_iff_of_pos_right hspacing, Int.cast_pos, ← not_le,
      roundEven_le_iff (by norm_num), not_le, Int.cast_zero, zero_add, lt_div_iff₀ hspacing]
    constructor <;> intro h <;> linarith
  rw [hround]
  rcases le_or_gt x 0 with hneg | hpos
  · have hmin := two_zpow_pos (F.minExponent - 1)
    constructor <;> intro h <;> linarith
  · have hhalf := half_spacing_lt_iff F hprecision hpos.ne'
    rwa [abs_of_pos hpos] at hhalf

theorem nearest_nonneg_iff (hprecision : 0 < F.precision) (x : ℚ) :
    0 ≤ F.nearest x ↔ -(2 : ℚ) ^ (F.minExponent - 1) ≤ x := by
  have hspacing : 0 < F.spacing x := two_zpow_pos _
  have hround : 0 ≤ F.nearest x ↔ -(F.spacing x / 2) ≤ x := by
    rw [BinaryFormat.nearest, mul_nonneg_iff_of_pos_right hspacing, ← Int.cast_zero, Int.cast_le,
      le_roundEven_iff (by norm_num), Int.cast_zero, le_div_iff₀ hspacing]
    constructor <;> intro h <;> linarith
  rw [hround]
  rcases le_or_gt 0 x with hpos | hneg
  · have hmin := two_zpow_pos (F.minExponent - 1)
    constructor <;> intro _ <;> linarith
  · have hhalf := half_spacing_lt_iff F hprecision hneg.ne
    rw [abs_of_neg hneg] at hhalf
    have hflip : ∀ a : ℚ, -a ≤ x ↔ ¬ a < -x := by
      intro a
      rw [not_lt, neg_le]
    rw [hflip, hflip, hhalf]

section Scaled

theorem two_pow_mul (n : ℕ) (e : ℤ) : ((2 ^ n : ℤ) : ℚ) * 2 ^ e = 2 ^ (n + e) := by
  rw [zpow_add₀ (by norm_num), zpow_natCast]
  push_cast
  rfl

theorem two_pow_even {n : ℕ} (hn : 0 < n) : (2 ^ n : ℤ) % 2 = 0 := by
  obtain ⟨m, rfl⟩ := Nat.exists_eq_succ_of_ne_zero hn.ne'
  rw [pow_succ, Int.mul_emod_left]

theorem roundEven_mul_le {n : ℕ} (hn : 0 < n) (e : ℤ) (x : ℚ) :
    (roundEven (x / 2 ^ e) : ℚ) * 2 ^ e ≤ 2 ^ (n + e) ↔ x ≤ 2 ^ (n + e) + 2 ^ (e - 1) := by
  have hpos := two_zpow_pos e
  rw [← two_pow_mul, mul_le_mul_iff_left₀ hpos, Int.cast_le, roundEven_le_iff (two_pow_even hn),
    div_le_iff₀ hpos, add_mul, ← two_zpow_half]
  constructor <;> intro h <;> linarith

theorem le_roundEven_mul {n : ℕ} (hn : 0 < n) (e : ℤ) (x : ℚ) :
    2 ^ (n + e) ≤ (roundEven (x / 2 ^ e) : ℚ) * 2 ^ e ↔ 2 ^ (n + e) - 2 ^ (e - 1) ≤ x := by
  have hpos := two_zpow_pos e
  rw [← two_pow_mul, mul_le_mul_iff_left₀ hpos, Int.cast_le, le_roundEven_iff (two_pow_even hn),
    le_div_iff₀ hpos, sub_mul, ← two_zpow_half]
  constructor <;> intro h <;> linarith

end Scaled

theorem nearest_nonpos {x : ℚ} (hx : x ≤ 0) : F.nearest x ≤ 0 := by
  have hspacing : 0 < F.spacing x := two_zpow_pos _
  have hround : roundEven (x / F.spacing x) ≤ 0 := by
    rw [roundEven_le_iff (by norm_num), div_le_iff₀ hspacing]
    push_cast
    linarith
  exact mul_nonpos_of_nonpos_of_nonneg (by exact_mod_cast hround) hspacing.le

/-- What rounds to a power of two at most: the even value takes the number half way above. -/
theorem nearest_le_zpow_iff {k : ℤ} (hprecision : 1 < F.precision)
    (hmin : F.minExponent ≤ k - F.precision) (x : ℚ) :
    F.nearest x ≤ 2 ^ k ↔ x ≤ 2 ^ k + 2 ^ (k - F.precision) := by
  have hk := two_zpow_pos k
  have hkp := two_zpow_pos (k - F.precision)
  rcases le_or_gt x 0 with hneg | hpos
  · have hnearest := nearest_nonpos F hneg
    constructor <;> intro _ <;> linarith
  have habs : |x| = x := abs_of_pos hpos
  have hlog : (2 : ℚ) ^ Int.log 2 x ≤ x := by
    exact_mod_cast Int.zpow_log_le_self (b := 2) (by norm_num) hpos
  rw [BinaryFormat.nearest, BinaryFormat.spacing, BinaryFormat.exponent, habs]
  obtain ⟨n, hn⟩ : ∃ n : ℕ, n + 1 = F.precision := ⟨F.precision - 1, by omega⟩
  have hlower : ∀ j : ℤ, x < 2 ^ j ↔ Int.log 2 x < j := by
    intro j
    have hlt := Int.lt_zpow_iff_log_lt (b := 2) (by norm_num) (x := j) hpos
    push_cast at hlt
    exact hlt
  rcases lt_or_ge x (2 ^ k) with hbelow | habove
  · -- the values around `x` are multiples of a power of two that divides the bound
    have hlt := (hlower k).mp hbelow
    have hexponent : max F.minExponent (Int.log 2 x - F.precision + 1) ≤ k - F.precision :=
      max_le hmin (by omega)
    generalize max F.minExponent (Int.log 2 x - F.precision + 1) = e at hexponent
    obtain ⟨m, hm⟩ := Int.eq_ofNat_of_zero_le (show 0 ≤ k - e by omega)
    have hmul := roundEven_mul_le (n := m) (by omega) e x
    rw [show (m : ℤ) + e = k by omega] at hmul
    have he := two_zpow_pos (e - 1)
    rw [hmul]
    constructor <;> intro _ <;> linarith
  rcases lt_or_ge x (2 ^ (k + 1)) with hnext | hfar
  · have hlog : Int.log 2 x = k := by
      have h₁ := (hlower (k + 1)).mp hnext
      have h₂ := mt (hlower k).mpr (not_lt.mpr habove)
      omega
    have hexponent : max F.minExponent (Int.log 2 x - F.precision + 1) = k - F.precision + 1 := by
      rw [hlog]
      exact max_eq_right (by omega)
    have hmul := roundEven_mul_le (n := n) (by omega) (k - F.precision + 1) x
    rw [show (n : ℤ) + (k - F.precision + 1) = k by omega,
      show k - F.precision + 1 - 1 = k - F.precision by omega] at hmul
    rw [hexponent, hmul]
  · have hlarge : k + 1 ≤ Int.log 2 x := by
      have := mt (hlower (k + 1)).mpr (not_lt.mpr hfar)
      omega
    have hexponent : max F.minExponent (Int.log 2 x - F.precision + 1) =
        Int.log 2 x - F.precision + 1 := max_eq_right (by omega)
    have hmul := (le_roundEven_mul (n := n) (by omega) (Int.log 2 x - F.precision + 1) x).mpr
    rw [show (n : ℤ) + (Int.log 2 x - F.precision + 1) = Int.log 2 x by omega] at hmul
    have hhalf := two_zpow_pos (Int.log 2 x - F.precision + 1 - 1)
    have hround := hmul (by linarith)
    have hkl : (2 : ℚ) ^ k < 2 ^ Int.log 2 x := two_zpow_lt (by omega)
    have hkk : (2 : ℚ) ^ (k - F.precision) < 2 ^ k := two_zpow_lt (by omega)
    have hdouble : (2 : ℚ) ^ (k + 1) = 2 ^ k * 2 := zpow_add_one₀ (by norm_num) k
    rw [hexponent]
    constructor <;> intro _ <;> linarith

theorem round_unit {x y : ℚ} (hprecision : 1 < F.precision)
    (hmin : F.minExponent ≤ -F.precision) (hmax : 0 < F.maxExponent) :
    ((∃ y, F.round x = .finite y ∧ 0 ≤ y ∧ y ≤ 1) ↔
      -(2 : ℚ) ^ (F.minExponent - 1) ≤ x ∧ x ≤ 1 + 2 ^ (-(F.precision : ℤ))) ∧
    (F.round x = .finite y → (0 < y ↔ (2 : ℚ) ^ (F.minExponent - 1) < x)) := by
  have hle := nearest_le_zpow_iff F hprecision (k := 0) (by omega) x
  rw [zpow_zero, zero_sub] at hle
  have hnonneg := nearest_nonneg_iff F (by omega) x
  have hone : (1 : ℚ) < 2 ^ F.maxExponent := by
    have hlt := two_zpow_lt hmax
    rwa [zpow_zero] at hlt
  constructor
  · rw [← hnonneg, ← hle]
    unfold BinaryFormat.round
    constructor
    · rintro ⟨y, hround, hy⟩
      split_ifs at hround
      cases hround
      exact hy
    · rintro ⟨hlow, hhigh⟩
      rw [if_pos]
      · exact ⟨_, rfl, hlow, hhigh⟩
      · rw [abs_of_nonneg hlow]
        exact hhigh.trans_lt hone
  · intro hround
    rw [← nearest_pos_iff F (by omega)]
    unfold BinaryFormat.round at hround
    split_ifs at hround
    cases hround
    exact Iff.rfl

end Formats

end FandheBackend.FloatRounding
