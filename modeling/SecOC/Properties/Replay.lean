import SecOC.Properties.Delivery

/-! Replay. Counters only grow and a frame fixes its counter's residue, so a frame accepted
twice is accepted a whole modulus of counters later. There, when the MAC's residue is back as
well, it is accepted again. -/

namespace SecOC
open Py FreshnessManager

namespace Stack
variable {D : Digests} {s s' : Stack} {p : String} {t : Transport} {frame : Bytes}

theorem Acceptance.counter_add_le (A : Acceptance D s p frame t) (B : Acceptance D s' p frame t)
    (hx : Extends (s.receiveSecured D p frame t).2 s') :
    A.counter ≡ B.counter [ZMOD s.freshnessManager.modulus] ∧
      A.counter + s.freshnessManager.modulus ≤ B.counter := by
  have hx₀ := receiveSecured_extends (D := D) (s := s) p frame t
  have hf := hx.freshnessManager.trans hx₀.freshnessManager
  obtain ⟨-, hwire, -, -⟩ := A.parts_eq B (hx.profiles.trans hx₀.profiles)
  obtain ⟨L, -, hA, -, -⟩ := A.counter_gt
  obtain ⟨L', hL', hB, hlt, -⟩ := B.counter_gt
  have hcong : A.counter ≡ B.counter [ZMOD s.freshnessManager.modulus] := by
    rw [hA, hB, hf, hwire]
    exact (Residue.next_modEq L _ _).trans (Residue.next_modEq L' _ _).symm
  obtain ⟨L₂, hL₂, hle⟩ := hx.counters p A.counter A.lastValid_after
  have hLL : L' = L₂ := lastValid_inj hL' hL₂
  exact ⟨hcong, Residue.add_le_of_modEq hcong (by linarith)⟩

/-- If a run accepts the same frame of a PDU on the same transport twice, the second acceptance
commits a counter a multiple of the modulus later: in between the counter came to within the
window of a whole modulus. -/
theorem frame_accepted_again (D : Digests) (s₀ : Stack) (calls calls' : List Call)
    {p : String} {t : Transport} {frame a a' : Bytes}
    (h : ((s₀.run D calls).receiveSecured D p frame t).1 = .ok (some a))
    (h' : ((s₀.run D (calls ++ .receive p frame t :: calls')).receiveSecured D p frame t).1 =
      .ok (some a')) :
    ∃ c c' L', lastValid ((s₀.run D calls).receiveSecured D p frame t).2.nvm p = .ok c ∧
      lastValid (s₀.run D (calls ++ .receive p frame t :: calls')).nvm p = .ok L' ∧
      lastValid ((s₀.run D (calls ++ .receive p frame t :: calls')).receiveSecured D p frame t).2.nvm
        p = .ok c' ∧
      c ≡ c' [ZMOD s₀.freshnessManager.modulus] ∧
      c + s₀.freshnessManager.modulus ≤ c' ∧ c' ≤ L' + s₀.freshnessManager.windowSize := by
  have hx := run_extends (D := D) s₀ calls
  have hx' := run_extends (D := D) s₀ (calls ++ .receive p frame t :: calls')
  obtain ⟨A, -⟩ := Acceptance.of_receiveSecured h
  obtain ⟨B, -⟩ := Acceptance.of_receiveSecured h'
  have hlater : Extends ((s₀.run D calls).receiveSecured D p frame t).2
      (s₀.run D (calls ++ .receive p frame t :: calls')) := by
    rw [run_append]
    exact run_extends (D := D) _ calls'
  obtain ⟨hcong, hle⟩ := A.counter_add_le B hlater
  obtain ⟨L', hL', -, -, hwin⟩ := B.counter_gt
  rw [hx.freshnessManager] at hcong hle
  rw [hx'.freshnessManager] at hwin
  exact ⟨A.counter, B.counter, L', A.lastValid_after, hL', B.lastValid_after, hcong, hle, hwin⟩

theorem Transmission.accepted_after_modulus {a : Bytes} (T : Transmission s p a t)
    (hm : 0 < T.macLen) (hm' : T.macLen ≤ 32) (hw : 1 ≤ s.freshnessManager.windowSize)
    (hn : T.freshLen = s.freshnessManager.freshnessLength) (hx : Extends T.after s')
    (hd : s'.nvm.diskFault = false)
    (hL : FreshnessManager.lastValid s'.nvm p = .ok (T.lastValid + s.freshnessManager.modulus)) :
    (s'.receiveSecured D p (T.frame D) t).1 = .ok (some (padded t a)) := by
  -- where the MAC covers no more of the counter than the modulus, a frame whose counter is the next
  -- one is accepted again when the counter has moved on by the modulus
  have hpos := s.freshnessManager.modulus_pos
  have hf : s'.freshnessManager = s.freshnessManager :=
    hx.freshnessManager.trans T.freshnessManager_after
  have hmod : (2 : Int) ^ (T.freshLen * 8) = s.freshnessManager.modulus := by
    rw [hn]
    rfl
  have hres : (T.lastValid + s.freshnessManager.modulus + 1) % s.freshnessManager.modulus =
      (T.lastValid + 1) % s.freshnessManager.modulus := by
    rw [add_right_comm, Int.add_emod_right]
  have hnext : Residue.next (T.lastValid + s.freshnessManager.modulus) T.wire
      s'.freshnessManager.modulus = T.lastValid + s.freshnessManager.modulus + 1 := by
    rw [hf, T.wire_cast, hmod, ← hres]
    exact Residue.next_eq hpos (by linarith) (by linarith)
  have hwindow : T.lastValid + s.freshnessManager.modulus + 1 ≤
      T.lastValid + s.freshnessManager.modulus + s'.freshnessManager.windowSize := by
    rw [hf]
    linarith
  have hcovered : (T.lastValid + s.freshnessManager.modulus + 1) % 2 ^ (T.freshLen * 8) =
      (T.lastValid + 1) % 2 ^ (T.freshLen * 8) := by
    rw [hmod, hres]
  rw [(T.acceptance hx hm hm' hL hnext hwindow hcovered).accepted hd]
  rfl

theorem Transmission.accepted_twice {a : Bytes} (T : Transmission s p a t)
    (hm : 0 < T.macLen) (hm' : T.macLen ≤ 32) (hw : 1 ≤ s.freshnessManager.windowSize)
    (hn : T.freshLen = s.freshnessManager.freshnessLength) (hd : s.nvm.diskFault = false) {k : Nat}
    (hk : (k : Int) + 1 = s.freshnessManager.modulus) :
    let s₂ := (T.after.receiveSecured D p (T.frame D) t).2
    (T.after.receiveSecured D p (T.frame D) t).1 = .ok (some (padded t a)) ∧
      ((s₂.run D (rounds D p a t k s₂)).receiveSecured D p (T.frame D) t).1 =
        .ok (some (padded t a)) := by
  intro s₂
  have hfits : s.freshnessManager.CounterFits T.freshLen (T.lastValid + 1) := by
    rw [hn]
    exact counterFits_self _ _
  obtain ⟨L, hL, hok, hL'⟩ := (T.delivered_iff (D := D) hm hm' hw hd).mpr hfits
  have hLT : T.lastValid = L := lastValid_inj T.counted_after hL
  have hx₂ : Extends T.after s₂ := receiveSecured_extends p (T.frame D) t
  have hx := T.extends_after.trans hx₂
  obtain ⟨T₂, hT₂, -, hn₂, hm₂, -⟩ := T.exists_transfer hx hL'
  have hlen : T₂.freshLen = s₂.freshnessManager.freshnessLength := by
    rw [hn₂, hn, hx.freshnessManager]
  have hlast := run_rounds (D := D) T₂ (hm₂ ▸ hm) (hm₂ ▸ hm') (hx.freshnessManager.symm ▸ hw)
    (hx.diskFault.trans hd) hlen k
  have hrun := run_extends (D := D) s₂ (rounds D p a t k s₂)
  refine ⟨hok, T.accepted_after_modulus hm hm' hw hn (hx₂.trans hrun)
    ((hx.trans hrun).diskFault.trans hd) ?_⟩
  rw [hlast, hT₂, ← hLT, ← hk]
  ring_nf

theorem frame_accepted_twice :
    ∃ frame s₁, (shipped (toBytesBE 32)).transmitSecured .standard "PDU_0x100" [7] .canFd =
        (.ok frame, s₁) ∧
      let s₂ := (s₁.receiveSecured .standard "PDU_0x100" frame .canFd).2
      (s₁.receiveSecured .standard "PDU_0x100" frame .canFd).1 = .ok (some [7]) ∧
      ((s₂.run .standard (rounds .standard "PDU_0x100" [7] .canFd 65535 s₂)).receiveSecured
        .standard "PDU_0x100" frame .canFd).1 = .ok (some [7]) :=
  ⟨_, _, (shippedTransmission (toBytesBE 32) [7] .canFd (by decide)).transmitSecured_eq,
    Transmission.accepted_twice _ (by decide) (by decide) (by decide) rfl rfl rfl⟩

theorem frame_accepted_again_shipped :
    ∃ frame calls' c c', lastValid ((shipped (toBytesBE 32)).run .standard
        [.transmit "PDU_0x100" [7] .canFd, .receive "PDU_0x100" frame .canFd]).nvm "PDU_0x100" =
          .ok c ∧
      lastValid (((shipped (toBytesBE 32)).run .standard ([.transmit "PDU_0x100" [7] .canFd] ++
        .receive "PDU_0x100" frame .canFd :: calls')).receiveSecured .standard "PDU_0x100" frame
          .canFd).2.nvm "PDU_0x100" = .ok c' ∧ c + 65536 ≤ c' := by
  have hM : (shipped (toBytesBE 32)).freshnessManager.modulus = 65536 := rfl
  obtain ⟨T, hT⟩ : ∃ T : Transmission (shipped (toBytesBE 32)) "PDU_0x100" [7] .canFd,
      T = shippedTransmission (toBytesBE 32) [7] .canFd (by decide) := ⟨_, rfl⟩
  have hsent : (shipped (toBytesBE 32)).run .standard [.transmit "PDU_0x100" [7] .canFd] =
      T.after := congrArg Prod.snd (T.transmitSecured_eq (D := .standard))
  have hm : 0 < T.macLen := by
    rw [hT]
    decide
  have hm' : T.macLen ≤ 32 := by
    rw [hT]
    decide
  have hn : T.freshLen = (shipped (toBytesBE 32)).freshnessManager.freshnessLength := by
    rw [hT]
    rfl
  obtain ⟨h, h'⟩ := T.accepted_twice (D := .standard) (k := 65535) hm hm' (by decide) hn rfl rfl
  generalize rounds _ _ _ _ _ _ = calls' at h'
  have hlater : (shipped (toBytesBE 32)).run .standard ([.transmit "PDU_0x100" [7] .canFd] ++
      .receive "PDU_0x100" (T.frame .standard) .canFd :: calls') =
        (T.after.receiveSecured .standard "PDU_0x100" (T.frame .standard) .canFd).2.run .standard
          calls' := by
    rw [run_append, hsent]
    rfl
  rw [← hsent] at h
  rw [← hlater] at h'
  obtain ⟨c, c', -, hc, -, hc', -, hle, -⟩ := frame_accepted_again .standard _ _ _ h h'
  rw [hM] at hle
  exact ⟨_, _, c, c', hc, hc', hle⟩

end Stack
end SecOC
