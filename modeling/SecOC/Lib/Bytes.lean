import Mathlib.Data.List.Induction
import Mathlib.Data.Nat.ModEq
import Mathlib.Tactic.IntervalCases
import Mathlib.Tactic.Ring

/-! Byte strings: slices with negative indices, big-endian integers and the hex text form. -/

namespace Py

abbrev Bytes := List UInt8

/-- A slice index counts from the end when negative and is clamped to the string. -/
def sliceBound (n : Nat) (i : Int) : Nat := if i < 0 then (n + i).toNat else min i.toNat n

def slice {α : Type*} (xs : List α) (start stop : Option Int) : List α :=
  (xs.take (stop.elim xs.length (sliceBound xs.length))).drop
    (start.elim 0 (sliceBound xs.length))

section Slice
variable {α : Type*}

theorem slice_take (xs : List α) (m : Nat) : slice xs none (some m) = xs.take m := by
  have hm : sliceBound xs.length (m : Int) = min m xs.length := by
    rw [sliceBound, if_neg (by omega), Int.toNat_natCast]
  rw [slice, Option.elim_some, Option.elim_none, hm, List.drop_zero, ← List.take_eq_take_min]

theorem slice_dropLast (xs ys : List α) (h : ys ≠ []) :
    slice (xs ++ ys) none (some (-(ys.length : Int))) = xs := by
  have hpos := List.length_pos_iff.mpr h
  have hb : sliceBound (xs ++ ys).length (-(ys.length : Int)) = xs.length := by
    rw [sliceBound, if_pos (by omega), List.length_append]
    omega
  rw [slice, Option.elim_some, Option.elim_none, hb, List.drop_zero, List.take_left]

theorem slice_takeLast (xs ys : List α) (h : ys ≠ []) :
    slice (xs ++ ys) (some (-(ys.length : Int))) none = ys := by
  have hpos := List.length_pos_iff.mpr h
  have hb : sliceBound (xs ++ ys).length (-(ys.length : Int)) = xs.length := by
    rw [sliceBound, if_pos (by omega), List.length_append]
    omega
  rw [slice, Option.elim_some, Option.elim_none, hb, List.take_length, List.drop_left]

theorem slice_middle (xs ys zs : List α) (h : ys ++ zs ≠ []) :
    slice (xs ++ ys ++ zs) (some (-((ys ++ zs).length : Int)))
      (some ((xs ++ ys ++ zs).length - zs.length : Int)) = ys := by
  -- the middle of three parts, its start counted from the end and its stop from the front
  have hpos := List.length_pos_iff.mpr h
  have hs : sliceBound (xs ++ ys ++ zs).length (-((ys ++ zs).length : Int)) = xs.length := by
    rw [sliceBound, if_pos (by omega)]
    simp only [List.length_append]
    omega
  have ht : sliceBound (xs ++ ys ++ zs).length
      ((xs ++ ys ++ zs).length - zs.length : Int) = (xs ++ ys).length := by
    simp only [List.length_append]
    rw [sliceBound, if_neg (by omega)]
    omega
  rw [slice, Option.elim_some, Option.elim_some, hs, ht, List.take_left, List.drop_left]

theorem slice_length (xs : List α) (i j : Int) : (slice xs (some i) (some j)).length =
    min (sliceBound xs.length j) xs.length - sliceBound xs.length i := by
  rw [slice, Option.elim_some, Option.elim_some, List.length_drop, List.length_take]

end Slice

/-! Big-endian integers. -/

def toBytesBE : Nat → Nat → Bytes
  | 0, _ => []
  | n + 1, v => toBytesBE n (v / 256) ++ [UInt8.ofNat (v % 256)]

def fromBytesBE (bs : Bytes) : Nat := bs.foldl (fun acc b => acc * 256 + b.toNat) 0

@[simp] theorem toBytesBE_length (n v : Nat) : (toBytesBE n v).length = n := by
  induction n generalizing v with
  | zero => rfl
  | succ n ih => simp [toBytesBE, ih]

@[simp] theorem fromBytesBE_nil : fromBytesBE [] = 0 := rfl

theorem fromBytesBE_snoc (bs : Bytes) (b : UInt8) :
    fromBytesBE (bs ++ [b]) = fromBytesBE bs * 256 + b.toNat := by
  simp [fromBytesBE]

theorem fromBytesBE_toBytesBE (n v : Nat) : fromBytesBE (toBytesBE n v) = v % 256 ^ n := by
  induction n generalizing v with
  | zero => simp [toBytesBE, Nat.mod_one]
  | succ n ih =>
    have hb : (UInt8.ofNat (v % 256)).toNat = v % 256 := by simp
    rw [toBytesBE, fromBytesBE_snoc, ih, hb, pow_succ, mul_comm (256 ^ n) 256, Nat.mod_mul]
    ring

theorem fromBytesBE_lt (bs : Bytes) : fromBytesBE bs < 256 ^ bs.length := by
  induction bs using List.reverseRecOn with
  | nil => simp
  | append_singleton bs b ih =>
    have hb : b.toNat < 256 := b.toNat_lt
    rw [fromBytesBE_snoc, List.length_append, List.length_singleton, pow_succ]
    calc fromBytesBE bs * 256 + b.toNat < (fromBytesBE bs + 1) * 256 := by omega
      _ ≤ 256 ^ bs.length * 256 := Nat.mul_le_mul_right _ ih

theorem toBytesBE_fromBytesBE (bs : Bytes) : toBytesBE bs.length (fromBytesBE bs) = bs := by
  induction bs using List.reverseRecOn with
  | nil => rfl
  | append_singleton bs b ih =>
    have hb : b.toNat < 256 := b.toNat_lt
    have hdiv : (fromBytesBE bs * 256 + b.toNat) / 256 = fromBytesBE bs := by omega
    have hmod : (fromBytesBE bs * 256 + b.toNat) % 256 = b.toNat := by omega
    rw [List.length_append, List.length_singleton, toBytesBE, fromBytesBE_snoc, hdiv, hmod, ih,
      UInt8.ofNat_toNat]

theorem fromBytesBE_eq_zero_iff (bs : Bytes) : fromBytesBE bs = 0 ↔ ∀ b ∈ bs, b = 0 := by
  induction bs using List.reverseRecOn with
  | nil => simp
  | append_singleton bs b ih =>
    have hb : b.toNat = 0 ↔ b = 0 := ⟨fun h => UInt8.toNat_inj.mp h, fun h => congrArg _ h⟩
    rw [fromBytesBE_snoc, Nat.add_eq_zero_iff, Nat.mul_eq_zero, ih, hb]
    simp [or_imp, forall_and]

theorem two_pow_eight_mul (n : Nat) : 2 ^ (n * 8) = 256 ^ n := by
  rw [mul_comm, pow_mul]
  norm_num

/-! The hex text form. -/

def hexDigit (n : Nat) : Char := if n < 10 then Char.ofNat (48 + n) else Char.ofNat (87 + n)

def hexChars : Bytes → List Char
  | [] => []
  | b :: bs => hexDigit (b.toNat / 16) :: hexDigit (b.toNat % 16) :: hexChars bs

def toHex (bs : Bytes) : String := String.ofList (hexChars bs)

def hexValue (c : Char) : Option Nat :=
  let n := c.toNat
  if 48 ≤ n ∧ n ≤ 57 then some (n - 48)
  else if 97 ≤ n ∧ n ≤ 102 then some (n - 87)
  else if 65 ≤ n ∧ n ≤ 70 then some (n - 55)
  else none

def isAsciiSpace (c : Char) : Bool := c.toNat = 32 ∨ (9 ≤ c.toNat ∧ c.toNat ≤ 13)

/-- ASCII whitespace is allowed between bytes, not inside one. -/
def fromHexChars : List Char → Option Bytes
  | [] => some []
  | [c] => if isAsciiSpace c then some [] else none
  | c :: d :: cs =>
    if isAsciiSpace c then fromHexChars (d :: cs)
    else match hexValue c, hexValue d, fromHexChars cs with
      | some h, some l, some bs => some (UInt8.ofNat (h * 16 + l) :: bs)
      | _, _, _ => none

def fromHex (s : String) : Option Bytes := fromHexChars s.toList

theorem hexValue_hexDigit (n : Nat) (h : n < 16) : hexValue (hexDigit n) = some n := by
  interval_cases n <;> decide

theorem isAsciiSpace_hexDigit (n : Nat) (h : n < 16) : isAsciiSpace (hexDigit n) = false := by
  interval_cases n <;> decide

theorem fromHexChars_hexChars (bs : Bytes) : fromHexChars (hexChars bs) = some bs := by
  induction bs with
  | nil => rfl
  | cons b bs ih =>
    have hb : b.toNat < 256 := b.toNat_lt
    have hh : b.toNat / 16 < 16 := by omega
    have hl : b.toNat % 16 < 16 := by omega
    have hv : b.toNat / 16 * 16 + b.toNat % 16 = b.toNat := by omega
    simp only [hexChars, fromHexChars, isAsciiSpace_hexDigit _ hh, hexValue_hexDigit _ hh,
      hexValue_hexDigit _ hl, ih, hv, UInt8.ofNat_toNat, Bool.false_eq_true, if_false]

theorem fromHex_toHex (bs : Bytes) : fromHex (toHex bs) = some bs := by
  simp [fromHex, toHex, fromHexChars_hexChars]

theorem toHex_injective : Function.Injective toHex := by
  intro bs bs' h
  have := congrArg fromHex h
  rwa [fromHex_toHex, fromHex_toHex, Option.some.injEq] at this

end Py
