import Mathlib.Data.Int.ModEq
import Mathlib.Order.Bounds.Basic
import Mathlib.Tactic.Linarith

/-! Recovering a counter from its residue: the first member of a residue class above a bound. -/

namespace Residue

/-- The first value above `L` that is `t` modulo `M`, for a residue `t`. -/
def next (L t M : Int) : Int :=
  if L / M * M + t ≤ L then L / M * M + t + M else L / M * M + t

variable {L t M N : Int}

theorem base_le (L : Int) (hM : 0 < M) : L / M * M ≤ L := Int.ediv_mul_le L hM.ne'

theorem lt_base_add (L : Int) (hM : 0 < M) : L < L / M * M + M := by
  have h := Int.lt_ediv_add_one_mul_self L hM
  linarith [add_mul (L / M) 1 M]

theorem lt_next (hM : 0 < M) (ht : 0 ≤ t) : L < next L t M := by
  have hb := lt_base_add L hM
  unfold next
  split <;> linarith

theorem next_le_add (hM : 0 < M) (ht : t < M) : next L t M ≤ L + M := by
  have hb := base_le L hM
  unfold next
  split <;> linarith

theorem next_modEq (L t M : Int) : next L t M ≡ t [ZMOD M] := by
  have h : L / M * M + t ≡ t [ZMOD M] := by
    have := (Int.modEq_zero_iff_dvd.mpr (dvd_mul_left M (L / M))).add_right t
    rwa [zero_add] at this
  unfold next
  split
  · exact Int.ModEq.trans (by simp [Int.ModEq]) h
  · exact h

theorem add_le_of_modEq {v w : Int} (h : v ≡ w [ZMOD M]) (hlt : v < w) : v + M ≤ w := by
  have := Int.le_of_dvd (by linarith) h.dvd
  linarith

theorem eq_of_modEq {v w : Int} (h : v ≡ w [ZMOD M]) (hv : L < v) (hv' : v ≤ L + M)
    (hw : L < w) (hw' : w ≤ L + M) : v = w := by
  rcases lt_trichotomy v w with hlt | heq | hgt
  · linarith [add_le_of_modEq h hlt]
  · exact heq
  · linarith [add_le_of_modEq h.symm hgt]

theorem next_isLeast (L : Int) (hM : 0 < M) (h0 : 0 ≤ t) (ht : t < M) :
    IsLeast {v | L < v ∧ v ≡ t [ZMOD M]} (next L t M) := by
  refine ⟨⟨lt_next hM h0, next_modEq L t M⟩, fun v ⟨hv, hm⟩ => ?_⟩
  by_contra hlt
  have hle := next_le_add (L := L) hM ht
  have := add_le_of_modEq (hm.trans (next_modEq L t M).symm) (not_le.mp hlt)
  linarith

/-- A value within one modulus above the bound is recovered from its residue. -/
theorem next_eq {v : Int} (hM : 0 < M) (hv : L < v) (hv' : v ≤ L + M) : next L (v % M) M = v :=
  eq_of_modEq ((next_modEq L (v % M) M).trans (Int.mod_modEq v M))
    (lt_next hM (Int.emod_nonneg v hM.ne')) (next_le_add hM (Int.emod_lt_of_pos v hM)) hv hv'

theorem next_self (L : Int) (hM : 0 < M) : next L (L % M) M = L + M := by
  have h := next_eq (L := L) (v := L + M) hM (by linarith) le_rfl
  rwa [Int.add_emod_right] at h

theorem next_succ_narrow (hN : 0 < N) (hM : 0 < M) (hd : N ∣ M) (L : Int) :
    next L ((L + 1) % N) M = L + 1 ↔ (L + 1) % M < N := by
  have hNM := Int.le_of_dvd hM hd
  have h0 := Int.emod_nonneg (L + 1) hN.ne'
  have hlt := Int.emod_lt_of_pos (L + 1) hN
  constructor
  · intro h
    have hm := next_modEq L ((L + 1) % N) M
    rw [h] at hm
    -- the field value is already reduced, so it is the whole residue
    rw [hm.eq, Int.emod_eq_of_lt h0 (by linarith)]
    exact hlt
  · intro h
    have hm : (L + 1) % N = (L + 1) % M := by
      rw [← Int.emod_emod_of_dvd (L + 1) hd,
        Int.emod_eq_of_lt (Int.emod_nonneg (L + 1) hM.ne') h]
    rw [hm]
    exact next_eq hM (by linarith) (by linarith)

theorem next_succ_wide (hM : 0 < M) (hN : 0 < N) (hd : M ∣ N) (L : Int) :
    next L ((L + 1) % N) M = L + 1 ↔ (L + 1) % N ≤ M := by
  have hb := base_le L hM
  have hb' := lt_base_add L hM
  have h0 := Int.emod_nonneg (L + 1) hN.ne'
  constructor
  · intro h
    unfold next at h
    split at h <;> linarith
  · intro h
    have hm : (L + 1) % N ≡ L + 1 [ZMOD M] := (Int.mod_modEq (L + 1) N).of_dvd hd
    -- a field value up to the modulus stays within one modulus of the bound
    have hle : next L ((L + 1) % N) M ≤ L + M := by
      unfold next
      split <;> linarith
    exact eq_of_modEq ((next_modEq L _ M).trans hm) (lt_next hM h0) hle
      (by linarith) (by linarith)

end Residue
