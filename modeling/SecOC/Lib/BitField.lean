import SecOC.Lib.Bytes

/-! Bit fields in byte strings: bits are numbered from the most significant one of the first
byte, and a field is read most significant bit first. -/

namespace Py

/-- Bit `k` of a byte string; past its end the bits are zero. -/
def bitAt (buf : Bytes) (k : Nat) : Bool := (buf.getD (k / 8) 0).toNat.testBit (7 - k % 8)

def field (b : Nat → Bool) : (offset width : Nat) → Nat
  | _, 0 => 0
  | offset, width + 1 => (b offset).toNat * 2 ^ width + field b (offset + 1) width

theorem field_eq_mod {b : Nat → Bool} {offset width raw : Nat}
    (h : ∀ k, offset ≤ k → k < offset + width → b k = raw.testBit (offset + width - 1 - k)) :
    field b offset width = raw % 2 ^ width := by
  induction width generalizing offset with
  | zero => rw [field, pow_zero, Nat.mod_one]
  | succ width ih =>
    have htop : offset + (width + 1) - 1 - offset = width := by omega
    have hrest : field b (offset + 1) width = raw % 2 ^ width := by
      apply ih
      intro k hk hk'
      rw [h k (by omega) (by omega)]
      congr 1
      omega
    rw [field, h offset (by omega) (by omega), htop, hrest, Nat.toNat_testBit, Nat.mod_pow_succ]
    ring

section Byte
variable {i j : Nat}

theorem testBit_or_mask (b : UInt8) (hi : i < 8) :
    (b ||| 1 <<< UInt8.ofNat i).toNat.testBit j = if j = i then true else b.toNat.testBit j := by
  have hmask : ∀ i < 8, ((1 : UInt8) <<< UInt8.ofNat i).toNat = 2 ^ i := by decide
  rw [UInt8.toNat_or, Nat.testBit_or, hmask i hi, Nat.testBit_two_pow]
  by_cases hj : j = i
  · simp [hj]
  · simp [hj, Ne.symm hj]

theorem testBit_and_not_mask (b : UInt8) (hi : i < 8) (hj : j < 8) :
    (b &&& ~~~(1 <<< UInt8.ofNat i)).toNat.testBit j =
      if j = i then false else b.toNat.testBit j := by
  have hmask : ∀ i < 8, ∀ j < 8,
      (~~~((1 : UInt8) <<< UInt8.ofNat i)).toNat.testBit j = decide (j ≠ i) := by decide
  rw [UInt8.toNat_and, Nat.testBit_and, hmask i hi j hj]
  by_cases hji : j = i
  · simp [hji]
  · simp [hji]

theorem byte_ext {a b : UInt8} (h : ∀ i < 8, a.toNat.testBit i = b.toNat.testBit i) : a = b := by
  apply UInt8.toNat_inj.mp
  apply Nat.eq_of_testBit_eq
  intro i
  by_cases hi : i < 8
  · exact h i hi
  · have hpow : 2 ^ 8 ≤ 2 ^ i := Nat.pow_le_pow_right (by decide) (by omega)
    rw [Nat.testBit_lt_two_pow (Nat.lt_of_lt_of_le a.toNat_lt hpow),
      Nat.testBit_lt_two_pow (Nat.lt_of_lt_of_le b.toNat_lt hpow)]

end Byte

@[simp] theorem bitAt_replicate (n k : Nat) : bitAt (List.replicate n 0) k = false := by
  have hzero : (List.replicate n (0 : UInt8)).getD (k / 8) 0 = 0 := by
    rw [List.getD_eq_getElem?_getD, List.getElem?_replicate]
    split <;> rfl
  rw [bitAt, hzero]
  exact Nat.zero_testBit _

theorem bitAt_of_le {buf : Bytes} {k : Nat} (h : 8 * buf.length ≤ k) : bitAt buf k = false := by
  have hout : buf.length ≤ k / 8 := by omega
  rw [bitAt, List.getD_eq_getElem?_getD, List.getElem?_eq_none hout, Option.getD_none]
  exact Nat.zero_testBit _

theorem bytes_ext {buf buf' : Bytes} (hlen : buf.length = buf'.length)
    (h : ∀ k, bitAt buf k = bitAt buf' k) : buf = buf' := by
  apply List.ext_getElem hlen
  intro n hn hn'
  apply byte_ext
  intro i hi
  have hdiv : (8 * n + (7 - i)) / 8 = n := by omega
  have hmod : 7 - (8 * n + (7 - i)) % 8 = i := by omega
  have hbit := h (8 * n + (7 - i))
  simpa only [bitAt, hdiv, hmod, List.getD_eq_getElem?_getD, List.getElem?_eq_getElem hn,
    List.getElem?_eq_getElem hn', Option.getD_some] using hbit

theorem bitAt_modify {buf : Bytes} {k : Nat} {v : Bool} {f : UInt8 → UInt8}
    (hk : k < 8 * buf.length)
    (hf : ∀ b, ∀ i < 8, (f b).toNat.testBit i = if i = 7 - k % 8 then v else b.toNat.testBit i)
    (j : Nat) : bitAt (buf.modify (k / 8) f) j = if j = k then v else bitAt buf j := by
  have hget : (buf.modify (k / 8) f).getD (j / 8) 0 =
      if k / 8 = j / 8 then f (buf.getD (j / 8) 0) else buf.getD (j / 8) 0 := by
    rw [List.getD_eq_getElem?_getD, List.getD_eq_getElem?_getD, List.getElem?_modify]
    by_cases hj : j / 8 < buf.length
    · rw [List.getElem?_eq_getElem hj]
      split <;> rfl
    · rw [if_neg (by omega), List.getElem?_eq_none (by omega)]
      rfl
  rw [bitAt, hget]
  by_cases hbyte : k / 8 = j / 8
  · have hbit : 7 - j % 8 = 7 - k % 8 ↔ j = k := by omega
    rw [if_pos hbyte, hf _ _ (by omega), bitAt]
    simp only [hbit]
  · rw [if_neg hbyte, if_neg (by rintro rfl; exact hbyte rfl), bitAt]

theorem bytes_eq_iff {buf buf' : Bytes} (hlen : buf'.length = buf.length) :
    buf' = buf ↔ ∀ k < 8 * buf.length, bitAt buf' k = bitAt buf k := by
  constructor
  · rintro rfl k -
    rfl
  · intro h
    apply bytes_ext hlen
    intro k
    by_cases hk : k < 8 * buf.length
    · exact h k hk
    · rw [bitAt_of_le (by omega), bitAt_of_le (by omega)]

end Py
