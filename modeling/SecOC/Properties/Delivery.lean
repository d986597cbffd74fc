import SecOC.Sim.StackRun

/-! Delivery of a transmitted frame. The sender reduces the counter to the profile's length on
the transport; the receiver completes it with the one modulus its freshness manager was built
with. The two agree exactly when the counter fits. -/

namespace SecOC
open Py FreshnessManager

structure SecurityProfileEntry.Positive (e : SecurityProfileEntry) : Prop where
  freshness : 0 < e.freshnessLength
  authenticator : 0 < e.authenticatorLength
  authenticator_le : e.authenticatorLength ≤ 32
  classic : ∃ tfv tmac, e.tfvLength = some tfv ∧ e.tmacLength = some tmac ∧
    0 < tfv ∧ 0 < tmac ∧ tfv + tmac = 4

theorem SecurityProfileEntry.Positive.macLen {e : SecurityProfileEntry} (h : e.Positive)
    {t : Transport} {n m : Int} (hl : e.truncationLengths t = .ok (n, m)) : 0 < m ∧ m ≤ 32 := by
  cases t with
  | canFd =>
    cases hl
    exact ⟨h.authenticator, h.authenticator_le⟩
  | classicCan =>
    obtain ⟨tfv, tmac, hv, hm, hv0, hm0, hs⟩ := h.classic
    simp only [truncationLengths, hv, hm] at hl
    cases hl
    exact ⟨hm0, by linarith⟩

/-- What `n` bytes of the counter `v` must satisfy for the receiver to recover `v`. -/
def FreshnessManager.CounterFits (f : FreshnessManager) (n : Nat) (v : Int) : Prop :=
  if n < f.freshnessLength then v % f.modulus < 2 ^ (n * 8) else v % 2 ^ (n * 8) ≤ f.modulus

instance (f : FreshnessManager) (n : Nat) (v : Int) : Decidable (f.CounterFits n v) :=
  inferInstanceAs (Decidable
    (if n < f.freshnessLength then v % f.modulus < 2 ^ (n * 8) else v % 2 ^ (n * 8) ≤ f.modulus))

theorem FreshnessManager.next_succ_iff (f : FreshnessManager) (n : Nat) (L : Int) :
    Residue.next L ((L + 1) % 2 ^ (n * 8)) f.modulus = L + 1 ↔ f.CounterFits n (L + 1) := by
  have hn : (0 : Int) < 2 ^ (n * 8) := by positivity
  unfold CounterFits
  split_ifs with h
  · exact Residue.next_succ_narrow hn f.modulus_pos (pow_dvd_pow 2 (by omega)) L
  · exact Residue.next_succ_wide f.modulus_pos hn (pow_dvd_pow 2 (by omega)) L

theorem FreshnessManager.counterFits_self (f : FreshnessManager) (v : Int) :
    f.CounterFits f.freshnessLength v := by
  rw [CounterFits, if_neg (lt_irrefl _)]
  exact (Int.emod_lt_of_pos v f.modulus_pos).le

namespace Stack
variable {D : Digests} {s : Stack} {p : String} {a : Bytes} {t : Transport}

theorem padded_length (ha : t = .classicCan → a.length ≤ classicCanPayloadBytes) :
    t = .classicCan → (padded t a).length = 4 := by
  intro ht
  have h := ha ht
  subst ht
  simp only [padded, ljust, classicCanPayloadBytes, List.length_append,
    List.length_replicate] at h ⊢
  omega

namespace MacReady
variable (R : MacReady s p t)

theorem tag_length (hm : 0 ≤ R.macLen) (hm' : R.macLen ≤ 32) (b : Bytes) (v : Int) :
    ((R.tag D b v).length : Int) = R.macLen := by
  obtain ⟨m, hm⟩ := Int.eq_ofNat_of_zero_le hm
  rw [R.tag_length_min hm, hm]
  omega

theorem tag_ne_nil (hm : 0 < R.macLen) (hm' : R.macLen ≤ 32) (b : Bytes) (v : Int) :
    R.tag D b v ≠ [] := by
  intro h
  have hlen := R.tag_length (D := D) hm.le hm' b v
  rw [h, List.length_nil] at hlen
  omega

end MacReady

/-- The received frame is answered with the payload, and the counter moves by exactly one. -/
def Delivered (D : Digests) (s : Stack) (p : String) (frame : Bytes) (t : Transport)
    (payload : Bytes) : Prop :=
  ∃ L, lastValid s.nvm p = .ok L ∧ (s.receiveSecured D p frame t).1 = .ok (some payload) ∧
    lastValid (s.receiveSecured D p frame t).2.nvm p = .ok (L + 1)

def NextFits (s : Stack) (p : String) (n : Nat) : Prop :=
  ∃ L, lastValid s.nvm p = .ok L ∧ s.freshnessManager.CounterFits n (L + 1)

namespace Transmission
variable (T : Transmission s p a t)

theorem counted_after : FreshnessManager.lastValid T.after.nvm p = .ok T.lastValid := by
  rw [T.after_fields.2.1]
  exact T.counted

theorem freshnessManager_after : T.after.freshnessManager = s.freshnessManager :=
  T.extends_after.freshnessManager

theorem stored_later {s' : Stack} (hx : Extends T.after s') :
    s'.csm.hsm.keyStore.get? T.keyId = some (.symmetric T.key) := by
  obtain ⟨-, -, -, hcsm, -, -⟩ := T.after_fields
  apply hx.key_persists
  rw [hcsm]
  exact T.stored_after

def readyLater {s' : Stack} (hx : Extends T.after s') : MacReady s' p t :=
  T.toMacReady.transferStored (T.extends_after.trans hx) T.key (T.stored_later hx)

def wire : Nat := ((T.lastValid + 1) % 2 ^ (T.freshLen * 8)).toNat

theorem wire_cast : (T.wire : Int) = (T.lastValid + 1) % 2 ^ (T.freshLen * 8) :=
  Int.toNat_of_nonneg (Int.emod_nonneg _ (by positivity))

theorem parse_frame_of_trailer (hm : 0 ≤ T.macLen) (hm' : T.macLen ≤ 32)
    (htrailer : 0 < T.freshLen ∨ 0 < T.macLen) :
    PduManager.parseSecuredPdu (T.frame D) T.profile t =
      .ok (padded t a, T.wire, T.tag D (padded t a) (T.lastValid + 1)) := by
  have htag := T.tag_length (D := D) hm hm' (padded t a) (T.lastValid + 1)
  have hwire : fromBytesBE (toBytesBE T.freshLen T.wire) = T.wire := by
    have h := fromBytesBE_freshnessBytes (freshnessBytes_eq (T.lastValid + 1) T.freshLen)
    rw [← T.wire_cast] at h
    exact_mod_cast h
  have hlen : T.profile.truncationLengths t = .ok (((toBytesBE T.freshLen T.wire).length : Int),
      ((T.tag D (padded t a) (T.lastValid + 1)).length : Int)) := by
    rw [htag, toBytesBE_length]
    exact T.lengths
  have hne : toBytesBE T.freshLen T.wire ++ T.tag D (padded t a) (T.lastValid + 1) ≠ [] := by
    rw [← List.length_pos_iff, List.length_append, toBytesBE_length]
    omega
  have h := PduManager.parseSecuredPdu_append hlen hne (padded_length T.admissible)
  rw [hwire] at h
  exact h

theorem parse_frame (hm : 0 < T.macLen) (hm' : T.macLen ≤ 32) :
    PduManager.parseSecuredPdu (T.frame D) T.profile t =
      .ok (padded t a, T.wire, T.tag D (padded t a) (T.lastValid + 1)) :=
  T.parse_frame_of_trailer hm.le hm' (Or.inr hm)

def acceptance {s' : Stack} (hx : Extends T.after s') (hm : 0 < T.macLen) (hm' : T.macLen ≤ 32)
    {L v : Int} (hL : FreshnessManager.lastValid s'.nvm p = .ok L)
    (hnext : Residue.next L T.wire s'.freshnessManager.modulus = v)
    (hv : v ≤ L + s'.freshnessManager.windowSize)
    (hres : v % 2 ^ (T.freshLen * 8) = (T.lastValid + 1) % 2 ^ (T.freshLen * 8)) :
    Acceptance D s' p (T.frame D) t where
  toMacReady := T.readyLater hx
  payload := padded t a
  wire := T.wire
  mac := T.tag D (padded t a) (T.lastValid + 1)
  counter := v
  parsed := T.parse_frame hm hm'
  fresh := by
    rw [validateFreshness_eq _ _ _ _ hL, hnext, if_pos hv]
  verified := by
    have hlen : (T.readyLater hx).freshLen = T.freshLen := rfl
    simp only [MacReady.tag, SecOC.region]
    rw [hlen, hres]
    rfl

theorem exists_acceptance {s' : Stack} (hx : Extends T.after s')
    (hparse : PduManager.parseSecuredPdu (T.frame D) T.profile t =
      .ok (padded t a, T.wire, T.tag D (padded t a) (T.lastValid + 1)))
    (hL : FreshnessManager.lastValid s'.nvm p = .ok T.lastValid)
    (hnext : Residue.next T.lastValid T.wire s'.freshnessManager.modulus = T.lastValid + 1)
    (hw : 1 ≤ s'.freshnessManager.windowSize) :
    ∃ A : Acceptance D s' p (T.frame D) t,
      A.payload = padded t a ∧ A.counter = T.lastValid + 1 := by
  have hfresh : s'.freshnessManager.validateFreshness s'.nvm p T.wire =
      .ok (true, T.lastValid + 1) := by
    rw [validateFreshness_eq _ _ _ _ hL, hnext, if_pos (by linarith)]
  exact ⟨⟨T.readyLater hx, padded t a, T.wire, _, T.lastValid + 1, hparse, hfresh, rfl⟩, rfl, rfl⟩

theorem stale_rejected {s' : Stack} (hx : Extends T.after s')
    (hparse : PduManager.parseSecuredPdu (T.frame D) T.profile t =
      .ok (padded t a, T.wire, T.tag D (padded t a) (T.lastValid + 1)))
    (hn : T.freshLen = s.freshnessManager.freshnessLength)
    (hw : s.freshnessManager.windowSize < s.freshnessManager.modulus)
    (hL : FreshnessManager.lastValid s'.nvm p = .ok (T.lastValid + 1)) :
    s'.receiveSecured D p (T.frame D) t = s'.reject p .freshnessOutOfWindow := by
  -- in a stack whose counter has moved on to the frame's own, the frame is stale
  have hf : s'.freshnessManager = s.freshnessManager :=
    hx.freshnessManager.trans T.freshnessManager_after
  have hnext : Residue.next (T.lastValid + 1) T.wire s'.freshnessManager.modulus =
      T.lastValid + 1 + s'.freshnessManager.modulus := by
    rw [hf, T.wire_cast, hn]
    exact Residue.next_self _ s.freshnessManager.modulus_pos
  have hfound : s'.profiles.get? p = some T.profile := (T.readyLater hx).found
  have houtside : ¬T.lastValid + 1 + s'.freshnessManager.modulus ≤
      T.lastValid + 1 + s'.freshnessManager.windowSize := by
    rw [hf]
    linarith
  simp only [receiveSecured, getProfile_eq_ok.mpr hfound, hparse,
    validateFreshness_eq _ _ _ _ hL, hnext, if_neg houtside]

theorem delivered_iff (hm : 0 < T.macLen) (hm' : T.macLen ≤ 32)
    (hw : 1 ≤ s.freshnessManager.windowSize) (hd : s.nvm.diskFault = false) :
    Delivered D T.after p (T.frame D) t (padded t a) ↔
      s.freshnessManager.CounterFits T.freshLen (T.lastValid + 1) := by
  have hdisk : T.after.nvm.diskFault = false := T.extends_after.diskFault.trans hd
  rw [← next_succ_iff, ← T.wire_cast]
  constructor
  · -- The committed counter is the completed one, and moving by one pins it down.
    rintro ⟨L, hL, hok, hcommit⟩
    have hLT : T.lastValid = L := lastValid_inj T.counted_after hL
    obtain ⟨A, -⟩ := Acceptance.of_receiveSecured hok
    obtain ⟨L', hL', hnext, -, -⟩ := A.counter_gt
    have hLL : L = L' := lastValid_inj hL hL'
    have hfound : T.after.profiles.get? p = some T.profile := (T.readyLater (.refl _)).found
    have hwire : T.wire = A.wire := by
      have hp := A.parsed
      rw [A.profile_of hfound, T.parse_frame hm hm'] at hp
      exact (Prod.mk.inj (Prod.mk.inj (Except.ok.inj hp)).2).1
    have hc : A.counter = L + 1 := lastValid_inj A.lastValid_after hcommit
    rw [T.freshnessManager_after] at hnext
    rw [hwire, hLT, ← hc, hLL, hnext]
  · intro hnext
    have hnext' : Residue.next T.lastValid T.wire T.after.freshnessManager.modulus =
        T.lastValid + 1 := by
      rw [T.freshnessManager_after, hnext]
    have hwindow : T.lastValid + 1 ≤ T.lastValid + T.after.freshnessManager.windowSize := by
      rw [T.freshnessManager_after]
      linarith
    have hA := (T.acceptance (D := D) (.refl _) hm hm' T.counted_after hnext' hwindow
      rfl).accepted hdisk
    refine ⟨T.lastValid, T.counted_after, ?_, ?_⟩
    · rw [hA]
      rfl
    · rw [hA]
      exact lastValid_commitFreshness _ _ _

end Transmission

def rounds (D : Digests) (p : String) (a : Bytes) (t : Transport) : Nat → Stack → List Call
  | 0, _ => []
  | k + 1, s => match s.transmitSecured D p a t with
    | (.ok frame, s') => .transmit p a t :: .receive p frame t ::
        rounds D p a t k (s'.receiveSecured D p frame t).2
    | (.error _, _) => []

theorem run_rounds (T : Transmission s p a t) (hm : 0 < T.macLen) (hm' : T.macLen ≤ 32)
    (hw : 1 ≤ s.freshnessManager.windowSize) (hd : s.nvm.diskFault = false)
    (hn : T.freshLen = s.freshnessManager.freshnessLength) (k : Nat) :
    lastValid (s.run D (rounds D p a t k s)).nvm p = .ok (T.lastValid + k) := by
  induction k generalizing s with
  | zero =>
    rw [Nat.cast_zero, add_zero]
    exact T.counted
  | succ k ih =>
    have hfits : s.freshnessManager.CounterFits T.freshLen (T.lastValid + 1) := by
      rw [hn]
      exact counterFits_self _ _
    obtain ⟨L, hL, -, hL'⟩ := (T.delivered_iff (D := D) hm hm' hw hd).mpr hfits
    have hLT : T.lastValid = L := lastValid_inj T.counted_after hL
    have hx : Extends s (T.after.receiveSecured D p (T.frame D) t).2 :=
      T.extends_after.trans (receiveSecured_extends p (T.frame D) t)
    -- The PDU can be sent again from the stack the round leaves.
    obtain ⟨T', hT', -, hn', hm'', -⟩ := T.exists_transfer hx hL'
    have hlen : T'.freshLen =
        (T.after.receiveSecured D p (T.frame D) t).2.freshnessManager.freshnessLength := by
      rw [hn', hn, hx.freshnessManager]
    have hrest := ih T' (hm''.symm ▸ hm) (hm''.symm ▸ hm') (hx.freshnessManager.symm ▸ hw)
      (hx.diskFault.trans hd) hlen
    rw [hT', ← hLT] at hrest
    have hstep : s.run D (rounds D p a t (k + 1) s) =
        (T.after.receiveSecured D p (T.frame D) t).2.run D
          (rounds D p a t k (T.after.receiveSecured D p (T.frame D) t).2) := by
      simp only [rounds, T.transmitSecured_eq, run, Mealy.exec_cons, machine, call]
    rw [hstep, hrest]
    push_cast
    ring_nf

/-- In every state a run reaches from a stack wired as `AppState` does, a frame just built is
delivered if and only if the next counter fits the wire. -/
theorem transmitted_delivered_iff (s₀ : Stack) {s₁ : Stack}
    (hf : s₀.freshnessManager = { windowSize := 16, freshnessLength := 2 })
    (hd : s₀.nvm.diskFault = false) {profile : SecurityProfileEntry}
    (hp : s₀.profiles.get? p = some profile) (hpos : profile.Positive) (calls : List Call)
    {n : Nat} {m : Int} (hl : profile.truncationLengths t = .ok ((n : Int), m)) {frame : Bytes}
    (hs : (s₀.run D calls).transmitSecured D p a t = (.ok frame, s₁)) :
    Delivered D s₁ p frame t (padded t a) ↔ (s₀.run D calls).NextFits p n := by
  obtain ⟨T, rfl, rfl⟩ := Transmission.of_transmitSecured hs
  have hx := run_extends (D := D) s₀ calls
  obtain ⟨hn, hm⟩ := T.lengths_of (hx.profiles.symm ▸ hp) hl
  obtain ⟨hm0, hm32⟩ := hpos.macLen hl
  have hw : 1 ≤ (s₀.run D calls).freshnessManager.windowSize := by
    rw [hx.freshnessManager, hf]
    norm_num
  rw [T.delivered_iff (hm.symm ▸ hm0) (hm.symm ▸ hm32) hw (hx.diskFault.trans hd), ← hn]
  constructor
  · intro h
    exact ⟨T.lastValid, T.counted, h⟩
  · rintro ⟨L, hL, h⟩
    rwa [lastValid_inj T.counted hL]

theorem shippedProfile_positive (pduId : String) : (shippedProfile pduId).Positive where
  freshness := show (0 : Int) < 2 by decide
  authenticator := show (0 : Int) < 8 by decide
  authenticator_le := show (8 : Int) ≤ 32 by decide
  classic := ⟨1, 3, rfl, rfl, by decide, by decide, by decide⟩

theorem transmitted_delivered_iff_first :
    Delivered .standard (shippedTransmission (toBytesBE 32) [7] .classicCan (by decide)).after
      "PDU_0x100" ((shippedTransmission (toBytesBE 32) [7] .classicCan (by decide)).frame .standard)
      .classicCan [7, 0, 0, 0] ↔ (shipped (toBytesBE 32)).NextFits "PDU_0x100" 1 :=
  transmitted_delivered_iff (shipped (toBytesBE 32)) rfl rfl rfl
    (shippedProfile_positive "PDU_0x100") [] rfl (Transmission.transmitSecured_eq _)

theorem shipped_classicCan_not_delivered {urandom : Nat → Bytes} {calls : List Call} {L : Int}
    (hL : lastValid ((shipped urandom).run D calls).nvm "PDU_0x100" = .ok L)
    (h256 : 256 ≤ (L + 1) % 65536) (ha : a.length ≤ classicCanPayloadBytes) :
    ∃ frame s₁, ((shipped urandom).run D calls).transmitSecured D "PDU_0x100" a .classicCan =
        (.ok frame, s₁) ∧
      ¬ Delivered D s₁ "PDU_0x100" frame .classicCan (padded .classicCan a) := by
  have hx := run_extends (D := D) (shipped urandom) calls
  obtain ⟨T, rfl, -, hn, hm, -⟩ :=
    (shippedTransmission urandom a .classicCan fun _ => ha).exists_transfer hx hL
  have hm3 : T.macLen = 3 := hm
  have hn1 : T.freshLen = 1 := hn
  have hf : ((shipped urandom).run D calls).freshnessManager =
      { windowSize := 16, freshnessLength := 2 } := hx.freshnessManager
  have hm0 : 0 < T.macLen := by
    rw [hm3]
    decide
  have hm32 : T.macLen ≤ 32 := by
    rw [hm3]
    decide
  have hw : 1 ≤ ((shipped urandom).run D calls).freshnessManager.windowSize := by
    rw [hf]
    decide
  refine ⟨_, _, T.transmitSecured_eq, fun hdel => ?_⟩
  have hfits := (T.delivered_iff hm0 hm32 hw hx.diskFault).mp hdel
  rw [hf, hn1, CounterFits, if_pos (by decide)] at hfits
  exact absurd hfits (not_lt.mpr h256)

theorem classicCan_frame_256_not_delivered :
    ∃ frame s₁,
      ((shipped (toBytesBE 32)).run .standard (rounds .standard "PDU_0x100" [1, 2, 3, 4] .canFd 255
        (shipped (toBytesBE 32)))).transmitSecured .standard "PDU_0x100" [1, 2, 3, 4] .classicCan =
          (.ok frame, s₁) ∧
      ¬ Delivered .standard s₁ "PDU_0x100" frame .classicCan [1, 2, 3, 4] :=
  shipped_classicCan_not_delivered
    (run_rounds (shippedTransmission (toBytesBE 32) [1, 2, 3, 4] .canFd (by decide))
      (by decide) (by decide) (by decide) rfl rfl 255) (by decide) (by decide)

end Stack
end SecOC
