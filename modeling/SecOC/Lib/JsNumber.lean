import Mathlib.Algebra.Order.Field.Power
import Mathlib.Data.Int.Log
import Mathlib.Data.Rat.Floor
import Mathlib.Tactic.Linarith
import Mathlib.Tactic.Positivity

/-! The numbers of a script language: doubles, here the finite ones as rationals. Arithmetic
rounds to 53 significant bits, ties to even; the bitwise operators work on 32 bits. Neither
overflow nor the loss of precision near zero is modelled. -/

namespace Js

abbrev Number := ℚ

def ulp (x : Number) : ℚ := 2 ^ (Int.log 2 |x| - 52)

def roundEven (y : ℚ) : ℤ :=
  if y - ⌊y⌋ < 1 / 2 then ⌊y⌋
  else if 1 / 2 < y - ⌊y⌋ then ⌊y⌋ + 1
  else if ⌊y⌋ % 2 = 0 then ⌊y⌋ else ⌊y⌋ + 1

def round (x : ℚ) : Number := roundEven (x / ulp x) * ulp x

def add (x y : Number) : Number := round (x + y)
def sub (x y : Number) : Number := round (x - y)
def mul (x y : Number) : Number := round (x * y)
def div (x y : Number) : Number := round (x / y)
def floor (x : Number) : Number := ⌊x⌋

def toInt32 (x : Number) : BitVec 32 := BitVec.ofInt 32 (if 0 ≤ x then ⌊x⌋ else ⌈x⌉)

def shiftLeft (x : Number) (n : Nat) : Number := ((toInt32 x <<< n).toInt : ℤ)
def shiftRight (x : Number) (n : Nat) : Number := (((toInt32 x).sshiftRight n).toInt : ℤ)
def and (x y : Number) : Number := ((toInt32 x &&& toInt32 y).toInt : ℤ)
def or (x y : Number) : Number := ((toInt32 x ||| toInt32 y).toInt : ℤ)

theorem roundEven_intCast (n : ℤ) : roundEven n = n := by
  rw [roundEven, Int.floor_intCast, sub_self, if_pos (by norm_num)]

theorem ulp_pos (x : Number) : 0 < ulp x := by
  unfold ulp
  positivity

theorem exists_ulps {m k : ℤ} (hm : |m| ≤ 2 ^ 53) :
    ∃ n : ℤ, (m * 2 ^ k : ℚ) = n * ulp (m * 2 ^ k) := by
  -- a number with at most 53 significant bits is a whole number of its own ulps
  rcases eq_or_ne m 0 with rfl | hne
  · exact ⟨0, by simp⟩
  have hpos : (0 : ℚ) < |(m * 2 ^ k : ℚ)| := by
    rw [abs_pos]
    have : (m : ℚ) ≠ 0 := by exact_mod_cast hne
    positivity
  have habs : |(m * 2 ^ k : ℚ)| = |m| * 2 ^ k := by
    rw [abs_mul, abs_of_pos (by positivity : (0 : ℚ) < 2 ^ k), Int.cast_abs]
  have hle : ((2 : ℕ) : ℚ) ^ Int.log 2 |(m * 2 ^ k : ℚ)| ≤ |m| * 2 ^ k := by
    rw [← habs]
    exact Int.zpow_log_le_self one_lt_two hpos
  have hm' : ((|m| : ℤ) : ℚ) ≤ 2 ^ (53 : ℤ) := by exact_mod_cast hm
  generalize he : Int.log 2 |(m * 2 ^ k : ℚ)| = e at hle
  rw [Nat.cast_ofNat] at hle
  have hulp : ulp (m * 2 ^ k) = 2 ^ (e - 52) := by rw [ulp, he]
  rw [hulp]
  have hek : e ≤ 53 + k := by
    have h : (2 : ℚ) ^ e ≤ 2 ^ (53 + k) := by
      calc (2 : ℚ) ^ e ≤ |m| * 2 ^ k := by exact_mod_cast hle
        _ ≤ 2 ^ (53 : ℤ) * 2 ^ k := by gcongr
        _ = 2 ^ (53 + k) := (zpow_add₀ two_ne_zero _ _).symm
    exact (zpow_le_zpow_iff_right₀ one_lt_two).mp h
  rcases lt_or_eq_of_le hek with hlt | heq
  · -- the ulp divides the unit in which `m` counts
    obtain ⟨j, hj⟩ := Int.eq_ofNat_of_zero_le (show 0 ≤ k - (e - 52) by omega)
    refine ⟨m * 2 ^ j, ?_⟩
    have hk : k = j + (e - 52) := by omega
    rw [hk, zpow_add₀ two_ne_zero, zpow_natCast]
    push_cast
    ring
  · -- only the power of two itself reaches the next magnitude
    have hmax : (2 : ℚ) ^ (53 : ℤ) ≤ ((|m| : ℤ) : ℚ) := by
      rw [heq, zpow_add₀ two_ne_zero] at hle
      exact le_of_mul_le_mul_right (by exact_mod_cast hle) (by positivity : (0 : ℚ) < 2 ^ k)
    have hmabs : |m| = 2 ^ 53 := by
      have h : ((|m| : ℤ) : ℚ) = 2 ^ (53 : ℤ) := le_antisymm hm' hmax
      exact_mod_cast h
    have hhalf : ∃ h : ℤ, m = h * 2 := by
      rcases abs_eq (by norm_num : (0 : ℤ) ≤ 2 ^ 53) |>.mp hmabs with h | h
      · exact ⟨2 ^ 52, by rw [h]; norm_num⟩
      · exact ⟨-2 ^ 52, by rw [h]; norm_num⟩
    obtain ⟨h, rfl⟩ := hhalf
    refine ⟨h, ?_⟩
    have he' : e - 52 = 1 + k := by omega
    rw [he', zpow_add₀ two_ne_zero, zpow_one]
    push_cast
    ring

theorem round_dyadic {m k : ℤ} (hm : |m| ≤ 2 ^ 53) : round (m * 2 ^ k) = m * 2 ^ k := by
  obtain ⟨n, hn⟩ := exists_ulps (k := k) hm
  have hdiv : (m * 2 ^ k : ℚ) / ulp (m * 2 ^ k) = n := by
    rw [div_eq_iff (ulp_pos _).ne']
    exact hn
  rw [round, hdiv, roundEven_intCast]
  exact hn.symm

theorem round_intCast {m : ℤ} (hm : |m| ≤ 2 ^ 53) : round m = m := by
  have h := round_dyadic (k := 0) hm
  simpa using h

theorem abs_roundEven_sub_le (y : ℚ) : |(roundEven y : ℚ) - y| ≤ 1 / 2 := by
  have h0 := Int.floor_le y
  have h1 := Int.lt_floor_add_one y
  rw [abs_le]
  unfold roundEven
  split_ifs <;> push_cast <;> constructor <;> linarith

theorem round_near {n : ℤ} (h : 2 ^ 53 ≤ n) (h' : n < 2 ^ 54) :
    ∃ r : ℤ, round n = r ∧ n - 1 ≤ r ∧ r ≤ n + 1 := by
  -- between 2^53 and 2^54 the doubles are the even integers
  have hn : (2 : ℚ) ^ (53 : ℤ) ≤ n := by exact_mod_cast h
  have hn' : (n : ℚ) < 2 ^ (54 : ℤ) := by exact_mod_cast h'
  have hpos : (0 : ℚ) < n := lt_of_lt_of_le (by positivity) hn
  have hlog : Int.log 2 (n : ℚ) = 53 := by
    have hle : 53 ≤ Int.log 2 (n : ℚ) := by
      rw [← Int.zpow_le_iff_le_log one_lt_two hpos, Nat.cast_ofNat]
      exact hn
    have hlt : Int.log 2 (n : ℚ) < 54 := by
      rw [← Int.lt_zpow_iff_log_lt one_lt_two hpos, Nat.cast_ofNat]
      exact hn'
    omega
  have hulp : ulp n = 2 := by
    rw [ulp, abs_of_pos hpos, hlog]
    norm_num
  have hr := abs_le.mp (abs_roundEven_sub_le ((n : ℚ) / 2))
  refine ⟨roundEven ((n : ℚ) / 2) * 2, ?_, ?_, ?_⟩
  · rw [round, hulp]
    push_cast
    rfl
  · have : ((n - 1 : ℤ) : ℚ) ≤ ((roundEven ((n : ℚ) / 2) * 2 : ℤ) : ℚ) := by
      push_cast
      linarith [hr.1]
    exact_mod_cast this
  · have : ((roundEven ((n : ℚ) / 2) * 2 : ℤ) : ℚ) ≤ ((n + 1 : ℤ) : ℚ) := by
      push_cast
      linarith [hr.2]
    exact_mod_cast this

variable {a b : ℤ}

theorem add_intCast (h : |a + b| ≤ 2 ^ 53) : add a b = ((a + b : ℤ) : ℚ) := by
  rw [add, ← Int.cast_add, round_intCast h]

theorem sub_intCast (h : |a - b| ≤ 2 ^ 53) : sub a b = ((a - b : ℤ) : ℚ) := by
  rw [sub, ← Int.cast_sub, round_intCast h]

theorem mul_intCast (h : |a * b| ≤ 2 ^ 53) : mul a b = ((a * b : ℤ) : ℚ) := by
  rw [mul, ← Int.cast_mul, round_intCast h]

theorem floor_div_two_pow (h : |a| ≤ 2 ^ 53) (n : ℕ) :
    floor (div a ((2 ^ n : ℕ) : ℚ)) = ((a / (2 ^ n : ℕ) : ℤ) : ℚ) := by
  have hq : (a : ℚ) / ((2 ^ n : ℕ) : ℚ) = a * 2 ^ (-(n : ℤ)) := by
    rw [zpow_neg, zpow_natCast, div_eq_mul_inv]
    push_cast
    rfl
  rw [floor, div, hq, round_dyadic h, ← hq, Rat.floor_intCast_div_natCast]

/-! The 32-bit operators on integers. -/

theorem toInt32_intCast (n : ℤ) : toInt32 n = BitVec.ofInt 32 n := by
  rw [toInt32, Int.floor_intCast, Int.ceil_intCast, ite_self]

theorem toNat_ofInt32 (n : ℤ) : ((BitVec.ofInt 32 n).toNat : ℤ) = n % 2 ^ 32 := by
  rw [BitVec.toNat_ofInt]
  omega

theorem toInt_of_lt {x : BitVec 32} (h : x.toNat < 2 ^ 31) : x.toInt = x.toNat := by
  rw [BitVec.toInt_eq_toNat_cond, if_pos (by omega)]

theorem toInt32_mask : toInt32 255 = 255#32 := toInt32_intCast 255

theorem and_byte (n : ℤ) : and n 255 = ((n % 256 : ℤ) : ℚ) := by
  have hb : (BitVec.ofInt 32 n &&& 255#32).toNat = (BitVec.ofInt 32 n).toNat % 256 := by
    rw [BitVec.toNat_and]
    exact Nat.and_two_pow_sub_one_eq_mod _ 8
  have hn := toNat_ofInt32 n
  rw [and, toInt32_intCast, toInt32_mask, toInt_of_lt (by omega), hb]
  congr 1
  push_cast
  omega

theorem sshiftRight_and_mask (x : BitVec 32) : x.sshiftRight 8 &&& 255#32 = x >>> 8 &&& 255#32 := by
  -- an arithmetic shift drags the sign in above the byte it brings down
  apply BitVec.eq_of_getLsbD_eq
  intro j hj
  have hmask : (255#32).getLsbD j = decide (j < 8) := by
    rw [BitVec.getLsbD_ofNat, Nat.testBit_two_pow_sub_one 8 j]
    simp [hj]
  rw [BitVec.getLsbD_and, BitVec.getLsbD_and, hmask, BitVec.getLsbD_sshiftRight,
    BitVec.getLsbD_ushiftRight]
  by_cases hj8 : j < 8
  · simp [hj8, show 8 + j < 32 by omega, hj]
  · simp [hj8]

theorem shiftRight_and_byte (n : ℤ) : and (shiftRight n 8) 255 = ((n / 256 % 256 : ℤ) : ℚ) := by
  have hb : (BitVec.ofInt 32 n >>> 8 &&& 255#32).toNat = (BitVec.ofInt 32 n).toNat / 256 % 256 := by
    rw [BitVec.toNat_and, BitVec.toNat_ushiftRight, Nat.shiftRight_eq_div_pow]
    exact Nat.and_two_pow_sub_one_eq_mod _ 8
  have hn := toNat_ofInt32 n
  rw [and, shiftRight, toInt32_intCast, toInt32_intCast, BitVec.ofInt_toInt, toInt32_mask,
    sshiftRight_and_mask, toInt_of_lt (by omega), hb]
  congr 1
  push_cast
  omega

theorem shiftLeft_or {a b : ℕ} (ha : a < 256) (hb : b < 256) :
    or (shiftLeft ((a : ℤ) : ℚ) 8) ((b : ℤ) : ℚ) = ((a * 256 + b : ℤ) : ℚ) := by
  have hshift : (BitVec.ofInt 32 a <<< 8).toNat = a <<< 8 := by
    rw [BitVec.toNat_shiftLeft, BitVec.ofInt_natCast, BitVec.toNat_ofNat,
      Nat.mod_eq_of_lt (by omega), Nat.mod_eq_of_lt (by omega)]
  have hor : (BitVec.ofInt 32 a <<< 8 ||| BitVec.ofInt 32 b).toNat = a * 256 + b := by
    rw [BitVec.toNat_or, hshift, BitVec.ofInt_natCast, BitVec.toNat_ofNat,
      Nat.mod_eq_of_lt (by omega), ← Nat.shiftLeft_add_eq_or_of_lt (by omega), Nat.shiftLeft_eq]
  rw [or, shiftLeft, toInt32_intCast, toInt32_intCast, toInt32_intCast, BitVec.ofInt_toInt,
    toInt_of_lt (by omega), hor]
  push_cast
  rfl

end Js
