import SecOC.Properties.Authenticity
import SecOC.Properties.WireFormat
import SecOC.Sim.Attacks

/-! Tampering. An accepted frame is the bytes its MAC covers, then the MAC. As long as no other
bytes share the truncated MAC of those sent, a frame that keeps the MAC or keeps all the rest is
the frame that was sent. -/

namespace SecOC
open Py FreshnessManager

namespace Stack
variable {D : Digests} {s s' : Stack} {p : String} {a : Bytes} {t : Transport} {frame : Bytes}

theorem MacReady.key_unique (R R' : MacReady s p t) : R.key = R'.key := by
  have h := R.stored
  rw [R.keyId_eq R', R'.stored] at h
  exact (KeyMaterial.symmetric.inj h).symm

/-- Another byte string that ends with the last `m` bytes of the frame, or has the frame's length
and agrees with it before those. -/
def Tampered (m : Int) (frame tampered : Bytes) : Prop :=
  tampered ≠ frame ∧ (frame.drop (frame.length - m.toNat) <:+ tampered ∨
    tampered.length = frame.length ∧
      tampered.take (frame.length - m.toNat) = frame.take (frame.length - m.toNat))

theorem Tampered.parts {data data' mac mac' : Bytes} {m : Nat}
    (h : Tampered m (data ++ mac) (data' ++ mac')) (hmac : mac.length = m)
    (hmac' : mac'.length = m) : mac' = mac ∧ data' ≠ data ∨ data' = data ∧ mac' ≠ mac := by
  obtain ⟨hne, hkept⟩ := h
  have hcut : (data ++ mac).length - m = data.length := by
    rw [List.length_append, hmac, Nat.add_sub_cancel]
  rw [Int.toNat_natCast, hcut, List.drop_left, List.take_left] at hkept
  rcases hkept with hsuffix | ⟨hlength, hprefix⟩
  · left
    have hsame : mac.length = mac'.length := hmac.trans hmac'.symm
    have hle := List.suffix_of_suffix_length_le hsuffix (List.suffix_append data' mac') hsame.le
    have heq : mac' = mac := (hle.eq_of_length hsame).symm
    exact ⟨heq, fun hdata => hne (by rw [heq, hdata])⟩
  · right
    have hsame : data'.length = data.length := by
      rw [List.length_append, List.length_append, hmac, hmac'] at hlength
      exact Nat.add_right_cancel hlength
    have heq : data' = data := by
      rwa [← hsame, List.take_left] at hprefix
    exact ⟨heq, fun htag => hne (by rw [heq, htag])⟩

theorem tampered_interceptWith (m : Int) {mask : UInt8} (hmask : mask ≠ 0) (hframe : frame ≠ []) :
    Tampered m frame (MitmAttack.interceptWith mask frame) := by
  refine ⟨MitmAttack.interceptWith_ne hmask hframe, ?_⟩
  rcases Nat.eq_zero_or_pos (frame.length - m.toNat) with hzero | hpos
  · -- The authenticator is the whole frame, and the flipped byte lies in it.
    right
    rw [hzero]
    exact ⟨MitmAttack.interceptWith_length mask frame, rfl⟩
  · left
    rw [← MitmAttack.drop_interceptWith mask frame hpos]
    exact List.drop_suffix _ _

def Rejects (D : Digests) (s : Stack) (p : String) (frame : Bytes) (t : Transport) : Prop :=
  (s.receiveSecured D p frame t).1 = .ok none ∧ (s.receiveSecured D p frame t).2.nvm = s.nvm

theorem MacReady.rejects (R : MacReady s p t) (hm : 0 ≤ R.macLen) {L : Int}
    (hL : lastValid s.nvm p = .ok L) (h : IsEmpty (Acceptance D s p frame t)) :
    Rejects D s p frame t := by
  obtain ⟨m, hm⟩ := Int.eq_ofNat_of_zero_le hm
  have hl : R.profile.truncationLengths t = .ok ((R.freshLen : Int), (m : Int)) := hm ▸ R.lengths
  unfold Rejects receiveSecured
  rw [getProfile_eq_ok.mpr R.found]
  by_cases hs : FrameSized t R.freshLen m frame
  · obtain ⟨b, fb, mac, rfl, hfb, hmac, hb⟩ := hs.exists_parts
    have hparse := parse_of_sized hl hfb hmac hb
    generalize (if 0 < R.freshLen + m then fromBytesBE fb else fromBytesBE b) = wire at hparse
    simp only [hparse, validateFreshness_eq _ _ _ _ hL]
    split_ifs with hw
    · simp only [R.verifyMac_eq]
      cases hv : R.tag D b (Residue.next L wire s.freshnessManager.modulus) == mac with
      | false => exact ⟨rfl, rfl⟩
      | true =>
        refine (h.false ⟨R, b, wire, mac, _, hparse, ?_, beq_iff_eq.mp hv⟩).elim
        rw [validateFreshness_eq _ _ _ _ hL, if_pos hw]
    · exact ⟨rfl, rfl⟩
  · obtain ⟨text, herror⟩ := parse_unsized hl hs
    simp only [herror]
    exact ⟨rfl, rfl⟩

theorem Acceptance.frame_eq (A : Acceptance D s p frame t)
    (hn : A.freshLen ≤ s.freshnessManager.freshnessLength) {m : Nat} (hm : A.macLen = m)
    (hpos : 0 < m) :
    frame = SecOC.region A.payload A.counter A.freshLen ++ A.mac ∧ A.mac.length = m := by
  have hl : A.profile.truncationLengths t = .ok ((A.freshLen : Int), (m : Int)) := hm ▸ A.lengths
  obtain ⟨fb, hframe, hfb, hmac, hwire⟩ :=
    parts_of_parse hl (Nat.add_pos_right _ hpos) A.parsed
  have hne : A.mac ≠ [] := List.ne_nil_of_length_pos (by rwa [hmac])
  have hcount := A.counter_emod hn (by omega) hne
  refine ⟨?_, hmac⟩
  rw [SecOC.region, hcount, Int.toNat_natCast, hwire, ← hfb, toBytesBE_fromBytesBE]
  exact hframe

namespace Transmission
variable (T : Transmission s p a t)

/-- No other bytes have the truncated MAC of the protected bytes sent. -/
def MacInjective (D : Digests) : Prop :=
  ∀ data, slice (D.hmacSha256 T.key data) none (some T.macLen) =
    slice (D.hmacSha256 T.key T.region) none (some T.macLen) → data = T.region

theorem tampered_refused {s' : Stack} (hprof : s'.profiles = s.profiles)
    (hfresh : s'.freshnessManager = s.freshnessManager)
    (hkey : ∀ R : MacReady s' p t, R.key = T.key) (hm : 1 ≤ T.macLen)
    (hn : T.freshLen ≤ s.freshnessManager.freshnessLength) (hinj : T.MacInjective D)
    {tampered : Bytes} (ht : Tampered T.macLen (T.frame D) tampered) :
    IsEmpty (Acceptance D s' p tampered t) := by
  refine ⟨fun A => ?_⟩
  obtain ⟨m, hTm⟩ := Int.eq_ofNat_of_zero_le (by omega : 0 ≤ T.macLen)
  obtain ⟨hlen, hmac⟩ := A.lengths_of (hprof ▸ T.found) T.lengths
  obtain ⟨hsplit, hAm⟩ := A.frame_eq (by rw [hlen, hfresh]; exact hn) (hmac.trans hTm) (by omega)
  -- The MAC verified is the truncation of the digest of the bytes before it.
  have hverified : (D.hmacSha256 T.key (SecOC.region A.payload A.counter A.freshLen)).take m =
      A.mac := by
    have h := A.verified
    rwa [A.toMacReady.tag_eq_take (hmac.trans hTm), hkey A.toMacReady] at h
  have hm' : m ≤ 32 := by
    have h := congrArg List.length hverified
    rw [List.length_take, D.hmacSha256_length, hAm] at h
    omega
  have htag : T.tag D (padded t a) (T.lastValid + 1) = (D.hmacSha256 T.key T.region).take m :=
    T.tag_eq_take hTm _ _
  have hlength : (T.tag D (padded t a) (T.lastValid + 1)).length = m := by
    rw [T.tag_length_min hTm, min_eq_left hm']
  rw [hTm, frame, hsplit] at ht
  rcases ht.parts hlength hAm with ⟨hsame, hdata⟩ | ⟨hdata, hdiff⟩
  · apply hdata
    apply hinj
    rw [hTm, slice_take, slice_take, hverified, hsame, htag]
  · apply hdiff
    rw [← hverified, hdata, htag]

theorem frame_ne_nil (hm : 1 ≤ T.macLen) : T.frame D ≠ [] := by
  obtain ⟨m, hTm⟩ := Int.eq_ofNat_of_zero_le (by omega : 0 ≤ T.macLen)
  have hlen := T.tag_length_min (D := D) hTm (padded t a) (T.lastValid + 1)
  apply List.ne_nil_of_length_pos
  rw [frame, List.length_append, hlen]
  omega

theorem rejects_tampered {s' : Stack} (hs : s' = s ∨ s' = T.after) (hm : 1 ≤ T.macLen)
    (hn : T.freshLen ≤ s.freshnessManager.freshnessLength) (hinj : T.MacInjective D)
    {tampered : Bytes} (ht : Tampered T.macLen (T.frame D) tampered) :
    Rejects D s' p tampered t := by
  -- the stack before sending and the one after it have the sender's profile, counter and key
  rcases hs with rfl | rfl
  · have hkey : ∀ R : MacReady s' p t, R.key = T.key := fun R => R.key_unique T.toMacReady
    exact T.rejects (by omega) T.counted (T.tampered_refused rfl rfl hkey hm hn hinj ht)
  · have hkey : ∀ R : MacReady T.after p t, R.key = T.key := fun R => T.key_after R
    exact (T.readyLater (.refl _)).rejects (L := T.lastValid) (by omega : 0 ≤ T.macLen)
      T.counted_after (T.tampered_refused T.extends_after.profiles T.freshnessManager_after hkey hm
        hn hinj ht)

end Transmission

/-- **Tampering is detected**, in the state before sending and in the one after it, and the frames
of the man in the middle are among the tampered ones. -/
theorem tampering_detected {s₁ : Stack} (hsent : s.transmitSecured D p a t = (.ok frame, s₁))
    {profile : SecurityProfileEntry} (hp : s.profiles.get? p = some profile) {n m : Int}
    (hl : profile.truncationLengths t = .ok (n, m)) (hm : 1 ≤ m)
    (hn : n ≤ s.freshnessManager.freshnessLength)
    (hinj : ∀ T : Transmission s p a t, T.MacInjective D) :
    ∀ s' ∈ [s, s₁], (∀ tampered, Tampered m frame tampered → Rejects D s' p tampered t) ∧
      ∀ mask, mask ≠ 0 → Rejects D s' p (MitmAttack.interceptWith mask frame) t := by
  obtain ⟨T, rfl, rfl⟩ := Transmission.of_transmitSecured hsent
  have hlengths := T.lengths
  rw [T.profile_of hp, hl] at hlengths
  obtain ⟨rfl, rfl⟩ := Prod.mk.inj (Except.ok.inj hlengths)
  intro s' hs'
  have hs : s' = s ∨ s' = T.after := by simpa using hs'
  have hdetected : ∀ tampered, Tampered T.macLen (T.frame D) tampered →
      Rejects D s' p tampered t := by
    intro tampered ht
    exact T.rejects_tampered hs hm (by exact_mod_cast hn) (hinj T) ht
  exact ⟨hdetected, fun mask hmask =>
    hdetected _ (tampered_interceptWith _ hmask (T.frame_ne_nil hm))⟩

/-- HMAC-SHA256, but that no other bytes get the truncated tag of `data`. -/
def separating (data : Bytes) (m : Nat) : Digests where
  hmacSha256 key other :=
    if other ≠ data ∧ (Sha256.hmac key other).take m = (Sha256.hmac key data).take m then
      MitmAttack.interceptWith 1 (Sha256.hmac key other)
    else Sha256.hmac key other
  sha256 := Sha256.hash
  hmacSha256_length key other := by
    split_ifs
    · rw [MitmAttack.interceptWith_length, Sha256.hmac_length]
    · exact Sha256.hmac_length key other

theorem separating_injective (data key other : Bytes) {m : Nat} (hm : 0 < m)
    (h : ((separating data m).hmacSha256 key other).take m =
      ((separating data m).hmacSha256 key data).take m) : other = data := by
  by_contra hne
  have hdata : (separating data m).hmacSha256 key data = Sha256.hmac key data :=
    if_neg fun hself => hself.1 rfl
  rw [hdata] at h
  by_cases hsame : (Sha256.hmac key other).take m = (Sha256.hmac key data).take m
  · have hother : (separating data m).hmacSha256 key other =
        MitmAttack.interceptWith 1 (Sha256.hmac key other) := if_pos ⟨hne, hsame⟩
    have hnil : (Sha256.hmac key other).take m ≠ [] := by
      apply List.ne_nil_of_length_pos
      rw [List.length_take, Sha256.hmac_length]
      omega
    rw [hother, MitmAttack.take_interceptWith 1 _ hm, ← hsame] at h
    exact MitmAttack.interceptWith_ne (by decide) hnil h
  · have hother : (separating data m).hmacSha256 key other = Sha256.hmac key other :=
      if_neg fun hboth => hsame hboth.2
    rw [hother] at h
    exact hsame h

theorem tampering_detected_shipped :
    ∃ frame s₁, (shipped (toBytesBE 32)).transmitSecured (separating [7, 0, 1] 8) "PDU_0x100" [7]
        .canFd = (.ok frame, s₁) ∧
      Rejects (separating [7, 0, 1] 8) s₁ "PDU_0x100" (MitmAttack.intercept frame) .canFd := by
  obtain ⟨T, hT⟩ : ∃ T : Transmission (shipped (toBytesBE 32)) "PDU_0x100" [7] .canFd,
      T = shippedTransmission (toBytesBE 32) [7] .canFd (by decide) := ⟨_, rfl⟩
  have hinj : ∀ T : Transmission (shipped (toBytesBE 32)) "PDU_0x100" [7] .canFd,
      T.MacInjective (separating [7, 0, 1] 8) := by
    intro T' data hdata
    obtain ⟨hn', hm'⟩ := T'.lengths_of (shipped_profile _) rfl
    have hL : T'.lastValid = 0 := lastValid_inj T'.counted (shipped_counted _)
    have hregion : T'.region = [7, 0, 1] := by
      rw [Transmission.region, hL, hn']
      rfl
    have hm : T'.macLen = ((8 : ℕ) : Int) := hm'
    rw [hm, hregion, slice_take, slice_take] at hdata
    rw [hregion]
    exact separating_injective [7, 0, 1] T'.key data (by decide) hdata
  refine ⟨_, _, T.transmitSecured_eq, ?_⟩
  rw [MitmAttack.intercept_eq]
  exact (tampering_detected T.transmitSecured_eq (shipped_profile _) rfl (by decide) (by decide)
    hinj T.after (by simp)).2 MitmAttack.bitFlipMask (by decide)

end Stack
end SecOC
