import SecOC.Properties.Delivery

/-! Which accepted profiles work. The loader checks of the lengths only that the two of classic CAN
add up; a frame comes through exactly when there is a counter byte and a MAC of up to 32. -/

namespace SecOC
open Py FreshnessManager

def SecurityProfileEntry.Budgeted (e : SecurityProfileEntry) : Prop :=
  ∀ tfv tmac, e.tfvLength = some tfv → e.tmacLength = some tmac →
    tfv + tmac = classicCanTruncBudgetBytes

theorem reload_budgeted {raw : Dict String RawEntry} {profiles : Profiles}
    (h : reload raw = .ok profiles) {p : String} {e : SecurityProfileEntry}
    (hp : profiles.get? p = some e) : e.Budgeted := by
  obtain ⟨entry, hentry⟩ := reload_loads h hp
  exact hentry.budget

def frameLength (e : SecurityProfileEntry) (payload : Bytes) : Transport → Int
  | .canFd => payload.length + e.freshnessLength + e.authenticatorLength
  | .classicCan => 8

namespace Stack
variable {D : Digests} {s : Stack} {p : String} {t : Transport} {e : SecurityProfileEntry}

/-- Every admissible payload of the PDU goes out in a frame of the right length and comes back. -/
def Usable (D : Digests) (s : Stack) (p : String) (e : SecurityProfileEntry) (t : Transport) :
    Prop :=
  ∀ payload, (t = .classicCan → payload.length ≤ classicCanPayloadBytes) → ∃ frame s',
    s.transmitSecured D p payload t = (.ok frame, s') ∧
    (frame.length : Int) = frameLength e payload t ∧
    (s'.receiveSecured D p frame t).1 = .ok (some (padded t payload))

structure Unused (s : Stack) (p : String) (e : SecurityProfileEntry) : Prop where
  found : s.profiles.get? p = some e
  key : ∃ keyId key, s.resolveKeyId p e = .ok keyId ∧ s.csm.hsm.macKey keyId = .symmetric key
  alive : s.csm.hsm.failMode = false
  disk : s.nvm.diskFault = false
  counter : lastValid s.nvm p = .ok 0
  window_pos : 1 ≤ s.freshnessManager.windowSize
  window_lt : s.freshnessManager.windowSize < s.freshnessManager.modulus

theorem frameLength_eq (hb : e.Budgeted) {f m : Int} (hl : e.truncationLengths t = .ok (f, m))
    (payload : Bytes) (ha : t = .classicCan → payload.length ≤ classicCanPayloadBytes) :
    frameLength e payload t = (padded t payload).length + f + m := by
  cases t with
  | canFd =>
    cases hl
    rfl
  | classicCan =>
    have hfour := padded_length ha rfl
    rw [SecurityProfileEntry.truncationLengths] at hl
    split at hl
    · next tfv tmac hf hm =>
      have hsum := hb tfv tmac hf hm
      rw [classicCanTruncBudgetBytes] at hsum
      cases hl
      rw [frameLength, hfour, Nat.cast_ofNat]
      omega
    · cases hl

theorem Unused.transmission (h : Unused s p e) {f : Nat} {m : Int}
    (hl : e.truncationLengths t = .ok ((f : Int), m)) {payload : Bytes}
    (ha : t = .classicCan → payload.length ≤ classicCanPayloadBytes) :
    ∃ T : Transmission s p payload t, T.freshLen = f ∧ T.macLen = m ∧ T.lastValid = 0 ∧
      T.profile = e := by
  obtain ⟨keyId, key, hr, hk⟩ := h.key
  exact ⟨⟨⟨e, keyId, key, f, m, h.found, hl, hr, h.alive, hk⟩, ha, 0, h.counter⟩, rfl, rfl, rfl,
    rfl⟩

theorem Transmission.frame_length {payload : Bytes} (T : Transmission s p payload t) :
    (T.frame D).length = (padded t payload).length + T.freshLen +
      (T.tag D (padded t payload) (T.lastValid + 1)).length := by
  rw [frame, region, List.length_append, region_length]

theorem MacReady.tag_length_iff (R : MacReady s p t) (b : Bytes) (v : Int) :
    ((R.tag D b v).length : Int) = R.macLen ↔ 0 ≤ R.macLen ∧ R.macLen ≤ 32 := by
  constructor
  · intro h
    have hd := D.hmacSha256_length R.key (SecOC.region b v R.freshLen)
    have hle : (R.tag D b v).length ≤ 32 := by
      rw [tag, slice, List.length_drop, List.length_take, hd]
      omega
    omega
  · rintro ⟨h0, h1⟩
    exact R.tag_length h0 h1 b v

theorem next_zero_one {M : Int} : Residue.next 0 1 M = 1 := by
  rw [Residue.next, Int.zero_ediv, zero_mul, zero_add, if_neg (by norm_num)]

theorem next_zero_zero {M : Int} : Residue.next 0 0 M = M := by
  rw [Residue.next, Int.zero_ediv, zero_mul, zero_add, if_pos le_rfl, zero_add]

theorem Unused.usable (h : Unused s p e) (hb : e.Budgeted) {f m : Int}
    (hl : e.truncationLengths t = .ok (f, m)) (hf : 1 ≤ f) (hm : 0 ≤ m) (hm' : m ≤ 32) :
    Usable D s p e t := by
  intro payload ha
  lift f to Nat using (by omega)
  obtain ⟨T, rfl, rfl, hT, -⟩ := h.transmission hl ha
  have hparse := T.parse_frame_of_trailer (D := D) hm hm' (Or.inl (by omega))
  have hone : (1 : Int) < 2 ^ (T.freshLen * 8) := one_lt_pow₀ (by norm_num) (by omega)
  have hnext : Residue.next T.lastValid T.wire T.after.freshnessManager.modulus =
      T.lastValid + 1 := by
    rw [T.wire_cast, hT, zero_add, Int.emod_eq_of_lt (by norm_num) hone, next_zero_one]
  obtain ⟨A, hpay, -⟩ := T.exists_acceptance (.refl T.after) hparse T.counted_after hnext
    (T.freshnessManager_after.symm ▸ h.window_pos)
  refine ⟨T.frame D, T.after, T.transmitSecured_eq, ?_, ?_⟩
  · have htag := T.tag_length (D := D) hm hm' (padded t payload) (T.lastValid + 1)
    rw [T.frame_length, frameLength_eq hb hl payload ha]
    push_cast
    rw [htag]
  · rw [A.accepted (T.extends_after.diskFault.trans h.disk), hpay]

theorem Usable.transmission (hu : Usable D s p e t) (h : Unused s p e) (hb : e.Budgeted) {f m : Int}
    (hl : e.truncationLengths t = .ok (f, m)) : ∃ T : Transmission s p [] t,
      (T.freshLen : Int) = f ∧ T.macLen = m ∧ 0 ≤ m ∧ m ≤ 32 ∧
      (T.after.receiveSecured D p (T.frame D) t).1 = .ok (some (padded t [])) := by
  -- the empty payload already shows what lengths do not work
  have ha : t = .classicCan → ([] : Bytes).length ≤ classicCanPayloadBytes := fun _ => by decide
  obtain ⟨frame, s', hsent, hlen, hrec⟩ := hu [] ha
  obtain ⟨T, rfl, rfl⟩ := Transmission.of_transmitSecured hsent
  have hlengths := T.lengths
  rw [T.profile_of h.found, hl] at hlengths
  obtain ⟨hf, hm⟩ := Prod.mk.inj (Except.ok.inj hlengths)
  rw [frameLength_eq hb hl [] ha, T.frame_length] at hlen
  push_cast at hlen
  have htag := (T.tag_length_iff (D := D) (padded t []) (T.lastValid + 1)).mp (by linarith)
  exact ⟨T, hf.symm, hm.symm, hm ▸ htag.1, hm ▸ htag.2, hrec⟩

theorem Usable.freshness_pos (hu : Usable D s p e t) (h : Unused s p e) (hb : e.Budgeted)
    {f m : Int} (hl : e.truncationLengths t = .ok (f, m)) : 1 ≤ f := by
  -- without a freshness byte the counter received is zero, which the window refuses
  obtain ⟨T, rfl, rfl, hm, hm', hrec⟩ := hu.transmission h hb hl
  by_contra hf
  have hn : T.freshLen = 0 := by omega
  obtain ⟨A, -⟩ := Acceptance.of_receiveSecured hrec
  obtain ⟨hAn, hAm⟩ := A.lengths_of (T.readyLater (.refl T.after)).found T.lengths
  obtain ⟨-, -, hwire, -⟩ := PduManager.parseSecuredPdu_eq_ok A.lengths A.parsed
  have hlen := T.frame_length (D := D)
  have htag := T.tag_length (D := D) hm hm' (padded t []) (T.lastValid + 1)
  rw [hAn, hAm, hn] at hwire
  have hempty : slice (T.frame D) (some (-(((0 : ℕ) : ℤ) + T.macLen)))
      (some ((T.frame D).length - T.macLen)) = [] := by
    rw [← List.length_eq_zero_iff, slice_length]
    rcases hm.lt_or_eq with hpos | hzero
    · rw [sliceBound, sliceBound, if_neg (by omega), if_pos (by omega)]
      omega
    · -- with no trailer at all the field would be the whole frame, which here is empty
      have hfd : padded t [] = [] := by
        cases t with
        | canFd => rfl
        | classicCan =>
          have hsum := frameLength_eq hb hl [] fun _ => by decide
          rw [padded_length (fun _ => by decide) rfl, frameLength] at hsum
          omega
      rw [hfd] at hlen htag
      rw [List.length_nil] at hlen
      omega
  rw [hempty, fromBytesBE_nil] at hwire
  obtain ⟨L, hL, hnext, -, hle⟩ := A.counter_gt
  have hL0 : L = 0 := by
    rw [T.after_fields.2.1] at hL
    exact lastValid_inj hL h.counter
  rw [hwire, hL0, Nat.cast_zero, next_zero_zero, T.freshnessManager_after] at hnext
  rw [hL0, T.freshnessManager_after] at hle
  linarith [h.window_lt]

/-- A PDU of an accepted configuration works on a transport exactly when it has a freshness byte
there and its MAC length is one a digest has. -/
theorem usable_iff (D : Digests) {raw : Dict String RawEntry} {s : Stack} {p : String}
    {e : SecurityProfileEntry} {t : Transport} (h : reload raw = .ok s.profiles)
    (hs : Unused s p e) {f m : Int} (hl : e.truncationLengths t = .ok (f, m)) :
    Usable D s p e t ↔ 1 ≤ f ∧ 0 ≤ m ∧ m ≤ 32 := by
  have hb : e.Budgeted := reload_budgeted h hs.found
  constructor
  · intro hu
    obtain ⟨-, -, -, hm, hm', -⟩ := hu.transmission hs hb hl
    exact ⟨hu.freshness_pos hs hb hl, hm, hm'⟩
  · rintro ⟨hf, hm, hm'⟩
    exact hs.usable hb hl hf hm hm'

theorem shipped_unused (urandom : Nat → Bytes) :
    Unused (shipped urandom) "PDU_0x100" (shippedProfile "PDU_0x100") where
  found := rfl
  key := ⟨"secoc_mac_key_PDU_0x100", urandom 1, rfl, rfl⟩
  alive := rfl
  disk := rfl
  counter := rfl
  window_pos := show (1 : Int) ≤ 16 by decide
  window_lt := show (16 : Int) < 2 ^ (2 * 8) by decide

theorem usable_iff_shipped :
    Usable .standard (shipped (toBytesBE 32)) "PDU_0x100" (shippedProfile "PDU_0x100")
      .classicCan ↔ (1 : Int) ≤ 1 ∧ (0 : Int) ≤ 3 ∧ (3 : Int) ≤ 32 := by
  have hload : reload shippedConfig = .ok (shipped (toBytesBE 32)).profiles := rfl
  exact usable_iff .standard hload (shipped_unused (toBytesBE 32)) rfl

def degenerateConfig : Dict String RawEntry := Dict.ofItems [("PDU_0x100",
  { shippedEntry "PDU_0x100" with tfvLength := some (some 0), tmacLength := some (some 4) })]

def degenerateProfile : SecurityProfileEntry :=
  { shippedProfile "PDU_0x100" with tfvLength := some 0, tmacLength := some 4 }

theorem degenerate_unused (urandom : Nat → Bytes) :
    Unused (configured degenerateConfig urandom) "PDU_0x100" degenerateProfile where
  found := rfl
  key := ⟨"secoc_mac_key_PDU_0x100", urandom 0, rfl, rfl⟩
  alive := rfl
  disk := rfl
  counter := rfl
  window_pos := show (1 : Int) ≤ 16 by decide
  window_lt := show (16 : Int) < 2 ^ (2 * 8) by decide

theorem degenerate_not_usable :
    reload degenerateConfig = .ok (configured degenerateConfig (toBytesBE 32)).profiles ∧
      Unused (configured degenerateConfig (toBytesBE 32)) "PDU_0x100" degenerateProfile ∧
      degenerateProfile.truncationLengths .classicCan = .ok (0, 4) ∧
      ¬Usable .standard (configured degenerateConfig (toBytesBE 32)) "PDU_0x100"
        degenerateProfile .classicCan := by
  have hload : reload degenerateConfig =
      .ok (configured degenerateConfig (toBytesBE 32)).profiles := rfl
  have hunused := degenerate_unused (toBytesBE 32)
  have hl : degenerateProfile.truncationLengths .classicCan = .ok (0, 4) := rfl
  refine ⟨hload, hunused, hl, fun hu => ?_⟩
  exact absurd (hu.freshness_pos hunused (reload_budgeted hload hunused.found) hl) (by decide)

end Stack
end SecOC
