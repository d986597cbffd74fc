import SecOC.Sim.FreshnessManager

/-! Truncated counters are reconstructed exactly, wherever the last valid counter stands. -/

namespace SecOC.FreshnessManager

structure Reconstructs (f : FreshnessManager) (nvm : NvM) (pduId : String) (L : Int) : Prop where
  validates : ∀ t : Nat, (t : Int) < f.modulus → ∀ v, IsLeast {w | L < w ∧ w % f.modulus = t} v →
    f.validateFreshness nvm pduId t =
      .ok (if v ≤ L + f.windowSize then (true, v) else (false, 0))
  least : ∀ t : Nat, (t : Int) < f.modulus → ∃ v, IsLeast {w | L < w ∧ w % f.modulus = t} v
  accepts : f.windowSize ≤ f.modulus → ∀ c, L < c → c ≤ L + f.windowSize →
    f.validateFreshness nvm pduId (c % f.modulus).toNat = .ok (true, c)
  produces : ∀ t : Nat, (t : Int) < f.modulus → ∀ v,
    f.validateFreshness nvm pduId t = .ok (true, v) →
      L < v ∧ v ≤ L + f.windowSize ∧ v % f.modulus = t

theorem next_isLeast_mod (f : FreshnessManager) (L : Int) {t : Nat} (ht : (t : Int) < f.modulus) :
    IsLeast {w | L < w ∧ w % f.modulus = t} (Residue.next L t f.modulus) := by
  have hleast := Residue.next_isLeast L f.modulus_pos (Int.natCast_nonneg t) ht
  have ht' : (t : Int) % f.modulus = t := Int.emod_eq_of_lt (Int.natCast_nonneg t) ht
  simpa only [Int.ModEq, ht'] using hleast

theorem reconstructs (f : FreshnessManager) {nvm : NvM} {pduId : String} {L : Int}
    (hL : lastValid nvm pduId = .ok L) : Reconstructs f nvm pduId L where
  validates t ht v hv := by
    rw [f.validateFreshness_eq nvm pduId t hL, hv.unique (next_isLeast_mod f L ht)]
    split <;> rfl
  least t ht := ⟨_, next_isLeast_mod f L ht⟩
  accepts hw c hc hc' := by
    have hres : ((c % f.modulus).toNat : Int) = c % f.modulus :=
      Int.toNat_of_nonneg (Int.emod_nonneg c f.modulus_pos.ne')
    rw [f.validateFreshness_eq nvm pduId _ hL, hres,
      Residue.next_eq f.modulus_pos hc (by linarith), if_pos hc']
  produces t ht v hv := by
    obtain ⟨L', hL', rfl, hlt, hle⟩ := validateFreshness_ok hv
    obtain rfl := lastValid_inj hL hL'
    exact ⟨hlt, hle, (next_isLeast_mod f L ht).1.2⟩

/-- **Exact reconstruction**, over whatever counter is stored, and right after a commit or a
resynchronisation has set it. -/
theorem reconstruction_exact (f : FreshnessManager) (pduId : String) (L : Int) :
    (∀ nvm, lastValid nvm pduId = .ok L → Reconstructs f nvm pduId L) ∧
      (∀ nvm, Reconstructs f (commitFreshness nvm pduId L).2 pduId L) ∧
      ∀ nvm, Reconstructs f (reinitializeWindow nvm pduId L).2 pduId L :=
  ⟨fun _ hL => reconstructs f hL, fun nvm => reconstructs f (lastValid_commitFreshness nvm pduId L),
    fun nvm => reconstructs f (lastValid_commitFreshness nvm pduId L)⟩

end SecOC.FreshnessManager
