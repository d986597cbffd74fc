import SecOC.Properties.Delivery

/-! Authenticity. A MAC covers the payload and the reduced counter, and nothing of the PDU, the
transport or the field lengths. What an accepted frame proves is that the sender of the PDU's
key once covered the same bytes. -/

namespace SecOC
open Py FreshnessManager

theorem region_inj {a b : Bytes} {v w : Int} {n : Nat} (h : region a v n = region b w n) :
    a = b ∧ v % 2 ^ (n * 8) = w % 2 ^ (n * 8) := by
  have hlen : a.length = b.length := by
    have h' := congrArg List.length h
    rw [region_length, region_length] at h'
    exact Nat.add_right_cancel h'
  obtain ⟨hab, hc⟩ := List.append_inj h hlen
  refine ⟨hab, ?_⟩
  rw [← fromBytesBE_freshnessBytes (freshnessBytes_eq v n),
    ← fromBytesBE_freshnessBytes (freshnessBytes_eq w n), hc]

theorem region_recut (a : Bytes) (v : Int) (n : Nat) :
    region a v (n + 1) =
      region (a ++ toBytesBE n ((v % 2 ^ ((n + 1) * 8)).toNat / 256)) v 1 := by
  -- the bytes a MAC covers do not say where the payload ends
  have hlow : (v % 2 ^ (1 * 8)).toNat = (v % 2 ^ ((n + 1) * 8)).toNat % 256 := by
    have hpos : (0 : Int) < 2 ^ ((n + 1) * 8) := by positivity
    have hle : 8 ≤ (n + 1) * 8 := by omega
    have hmod : v % 2 ^ ((n + 1) * 8) % 256 = v % 256 :=
      Int.emod_emod_of_dvd v (pow_dvd_pow 2 hle)
    have h0 : 0 ≤ v % 2 ^ ((n + 1) * 8) := Int.emod_nonneg v hpos.ne'
    have h1 : 0 ≤ v % 256 := Int.emod_nonneg v (by decide)
    norm_num only
    omega
  rw [region, region, hlow, toBytesBE, toBytesBE, toBytesBE, List.nil_append, Nat.mod_mod,
    List.append_assoc]

namespace Stack
variable {D : Digests} {s s' : Stack} {p : String} {t : Transport} {frame : Bytes}

def Issued (D : Digests) (s₀ : Stack) (calls : List Call) (key data tag : Bytes) : Prop :=
  ∃ pre p a t post, calls = pre ++ .transmit p a t :: post ∧
    ∃ T : Transmission (s₀.run D pre) p a t,
      T.key = key ∧ T.region = data ∧ T.tag D (padded t a) (T.lastValid + 1) = tag

/-- Nobody else makes tags: a non-empty one that verifies for a key and some bytes is a prefix
of one issued before for that key and those bytes. -/
def Unforgeable (D : Digests) (s₀ : Stack) (calls : List Call) : Prop :=
  ∀ pre p frame t post, calls = pre ++ .receive p frame t :: post →
    ∀ A : Acceptance D (s₀.run D pre) p frame t, A.mac ≠ [] →
      ∃ tag, Issued D s₀ pre A.key (SecOC.region A.payload A.counter A.freshLen) tag ∧
        A.mac <+: tag

def DistinctKeys (s : Stack) : Prop :=
  ∀ p q t t' (R : MacReady s p t) (R' : MacReady s q t'), R.key = R'.key → p = q

def Acceptance.readyLater (A : Acceptance D s p frame t)
    (hx : Extends (s.receiveSecured D p frame t).2 s') : MacReady s' p t :=
  A.toMacReady.transferStored ((receiveSecured_extends p frame t).trans hx) A.key (by
    refine hx.key_persists ?_
    obtain ⟨bus, h⟩ := A.receiveSecured_snd
    rw [h]
    exact A.stored_after)

theorem Acceptance.counter_emod (A : Acceptance D s p frame t)
    (hn : A.freshLen ≤ s.freshnessManager.freshnessLength) (hm : 0 ≤ A.macLen)
    (hmac : A.mac ≠ []) : A.counter % 2 ^ (A.freshLen * 8) = A.wire := by
  obtain ⟨L, -, hc, -, -⟩ := A.counter_gt
  have hdvd : (2 : Int) ^ (A.freshLen * 8) ∣ s.freshnessManager.modulus :=
    pow_dvd_pow 2 (Nat.mul_le_mul_right 8 hn)
  have hcong : A.counter ≡ A.wire [ZMOD 2 ^ (A.freshLen * 8)] := by
    rw [hc]
    exact (Residue.next_modEq L A.wire _).of_dvd hdvd
  have hlt : (A.wire : Int) < 2 ^ (A.freshLen * 8) := by
    have h := PduManager.parseSecuredPdu_freshness_lt A.lengths hm hmac A.parsed
    rw [← two_pow_eight_mul] at h
    exact_mod_cast h
  rw [hcong.eq, Int.emod_eq_of_lt (Int.natCast_nonneg _) hlt]

theorem sender_eq {s₀ : Stack} {before between post : List Call} {p' : String} {a' : Bytes}
    {t' : Transport} (T : Transmission (s₀.run D before) p' a' t')
    (A : Acceptance D (s₀.run D (before ++ .transmit p' a' t' :: between)) p frame t)
    (hk : DistinctKeys
      (s₀.run D (before ++ .transmit p' a' t' :: between ++ .receive p frame t :: post)))
    (hkey : T.key = A.key) : p' = p := by
  -- with a key for each PDU, a sender that used the key of an accepted frame sent for its PDU
  have hT : Extends T.after (s₀.run D (before ++ .transmit p' a' t' :: between)) := by
    rw [run_append, run_transmit T]
    exact run_extends _ between
  have hA := run_extends (D := D) ((s₀.run D
    (before ++ .transmit p' a' t' :: between)).receiveSecured D p frame t).2 post
  rw [run_append] at hk
  exact hk p' p t' t (T.readyLater ((hT.trans (receiveSecured_extends p frame t)).trans hA))
    (A.readyLater hA) hkey

/-- Without forgeries and with a key for each PDU, a frame accepted with a non-empty MAC covers
the bytes of a frame sent before for the same PDU: payload and reduced counter, run together,
are the same, and the MAC is a prefix of the one sent. On the transport of that frame the
payload is the same, and, with the field no wider than the modulus, so is the wire freshness. -/
theorem accepted_frame_was_sent (D : Digests) (s₀ : Stack) (pre post : List Call) {a : Bytes}
    (hu : Unforgeable D s₀ (pre ++ .receive p frame t :: post))
    (hk : DistinctKeys (s₀.run D (pre ++ .receive p frame t :: post)))
    {profile : SecurityProfileEntry} (hp : s₀.profiles.get? p = some profile) {n : Nat} {m : Int}
    (hl : profile.truncationLengths t = .ok ((n : Int), m)) {wire : Nat} {mac b : Bytes}
    (hparse : PduManager.parseSecuredPdu frame profile t = .ok (b, wire, mac)) (hmac : mac ≠ [])
    (h : ((s₀.run D pre).receiveSecured D p frame t).1 = .ok (some a)) :
    ∃ before a' t' between, pre = before ++ .transmit p a' t' :: between ∧
      ∃ (T : Transmission (s₀.run D before) p a' t') (c : Int),
        lastValid ((s₀.run D pre).receiveSecured D p frame t).2.nvm p = .ok c ∧
        region a c n = T.region ∧ mac <+: T.tag D (padded t' a') (T.lastValid + 1) ∧
        (t' = t → a = padded t a' ∧
          (n ≤ s₀.freshnessManager.freshnessLength → 0 ≤ m → wire = T.wire)) := by
  obtain ⟨A, rfl⟩ := Acceptance.of_receiveSecured h
  have hx := run_extends (D := D) s₀ pre
  have hfound : (s₀.run D pre).profiles.get? p = some profile := hx.profiles.symm ▸ hp
  obtain ⟨rfl, rfl⟩ := A.lengths_of hfound hl
  have hparts := A.parsed
  rw [A.profile_of hfound, hparse] at hparts
  obtain ⟨rfl, rfl⟩ := Prod.mk.inj (Prod.mk.inj (Except.ok.inj hparts)).2
  obtain ⟨tag, ⟨before, p', a', t', between, rfl, T, hkey, hdata, rfl⟩, hpre⟩ :=
    hu pre p frame t post rfl A hmac
  obtain rfl := sender_eq T A hk hkey
  refine ⟨before, a', t', between, rfl, T, A.counter, A.lastValid_after, hdata.symm, hpre, ?_⟩
  rintro rfl
  -- The same PDU on the same transport has the same field length, so the regions split alike.
  have hlen : T.freshLen = A.freshLen :=
    (T.lengths_of ((run_extends s₀ before).profiles.symm ▸ hp) hl).1
  rw [Transmission.region, hlen] at hdata
  obtain ⟨hpay, hcount⟩ := region_inj hdata
  refine ⟨hpay.symm, fun hle hm => ?_⟩
  have hwire := A.counter_emod (hx.freshnessManager ▸ hle) hm hmac
  rw [← hcount, ← hlen, ← T.wire_cast] at hwire
  exact (Int.natCast_inj.mp hwire).symm

/-! Runs of the shipped stack: one frame sent, one received. -/

theorem Transmission.key_after {s : Stack} {a : Bytes} {t' : Transport} (T : Transmission s p a t')
    (R : MacReady T.after p t) : R.key = T.key := by
  have hprof : R.profile = T.profile := by
    apply R.profile_of
    rw [T.extends_after.profiles, T.found]
  apply R.key_eq (.refl _) _ (T.stored_later (.refl _))
  rw [T.extends_after.resolveKeyId_eq, hprof, T.resolved]

theorem unforgeable_pair {a : Bytes} {t' : Transport} (T : Transmission s p a t')
    (B : Acceptance D T.after p frame t)
    (hregion : SecOC.region B.payload B.counter B.freshLen = T.region)
    (hpre : B.mac <+: T.tag D (padded t' a) (T.lastValid + 1)) :
    Unforgeable D s ([.transmit p a t'] ++ .receive p frame t :: []) := by
  intro pre p₁ frame₁ t₁ post he A
  rcases pre with _ | ⟨c, _ | ⟨c', pre⟩⟩
  · cases he
  · cases he
    -- The run before the received frame ends in the state after sending.
    have hsent : s.run D [.transmit p a t'] = T.after := run_transmit T []
    revert A
    rw [hsent]
    intro A _
    obtain ⟨hpay, -, hmac, hlen⟩ := A.parts_eq B rfl
    rw [hpay, hmac, hlen, A.counter_eq B, hregion]
    exact ⟨_, ⟨[], p, a, t', [], rfl, T, (T.key_after A.toMacReady).symm, rfl, rfl⟩, hpre⟩
  · simp at he

theorem shipped_distinctKeys {urandom : Nat → Bytes} (h01 : urandom 0 ≠ urandom 1)
    (h02 : urandom 0 ≠ urandom 2) (h12 : urandom 1 ≠ urandom 2)
    (hx : Extends (shipped urandom) s) : DistinctKeys s := by
  have key : ∀ {p t} (R : MacReady s p t), (p = "PDU_BRAKE_TORQUE" ∧ R.key = urandom 0) ∨
      (p = "PDU_0x100" ∧ R.key = urandom 1) ∨ (p = "PDU_0x200" ∧ R.key = urandom 2) := by
    intro p t R
    have hf := R.found
    rw [hx.profiles] at hf
    rcases shipped_pduId hf with rfl | rfl | rfl
    · exact Or.inl ⟨rfl, R.key_eq hx rfl rfl⟩
    · exact Or.inr (Or.inl ⟨rfl, R.key_eq hx rfl rfl⟩)
    · exact Or.inr (Or.inr ⟨rfl, R.key_eq hx rfl rfl⟩)
  intro p q t t' R R' hkey
  rcases key R with ⟨rfl, h⟩ | ⟨rfl, h⟩ | ⟨rfl, h⟩ <;>
    rcases key R' with ⟨rfl, h'⟩ | ⟨rfl, h'⟩ | ⟨rfl, h'⟩ <;> simp_all

namespace Transmission
variable {a : Bytes} (T : Transmission s p a .canFd)

def recutPayload : Bytes :=
  a ++ toBytesBE 1 (((T.lastValid + 1) % 2 ^ ((1 + 1) * 8)).toNat / 256)

theorem frame_recut (hn : T.freshLen = 2) (ha : a.length = 3) :
    (T.frame D).take 8 = T.recutPayload ++ toBytesBE 1 ((T.lastValid + 1) % 2 ^ (1 * 8)).toNat ++
      (T.tag D a (T.lastValid + 1)).take 3 := by
  have hregion : T.region = SecOC.region T.recutPayload (T.lastValid + 1) 1 := by
    rw [Transmission.region, hn]
    exact region_recut a (T.lastValid + 1) 1
  have hlen : T.region.length = 5 := by
    rw [Transmission.region, region_length, hn]
    exact congrArg (· + 2) ha
  have hall : T.region.take 8 = T.region := List.take_of_length_le (by omega)
  rw [frame, List.take_append, hlen, hall, hregion]
  rfl

theorem parse_recut (hn : T.freshLen = 2) (hm : 3 ≤ T.macLen) (hm' : T.macLen ≤ 32)
    (ha : a.length = 3) {profile : SecurityProfileEntry}
    (hl : profile.truncationLengths .classicCan = .ok (1, 3)) :
    PduManager.parseSecuredPdu ((T.frame D).take 8) profile .classicCan =
      .ok (T.recutPayload, fromBytesBE (toBytesBE 1 ((T.lastValid + 1) % 2 ^ (1 * 8)).toNat),
        (T.tag D a (T.lastValid + 1)).take 3) := by
  have htag := T.tag_length (D := D) (by omega) hm' a (T.lastValid + 1)
  have hlen : ((T.tag D a (T.lastValid + 1)).take 3).length = 3 := by
    rw [List.length_take]
    omega
  rw [T.frame_recut hn ha]
  refine PduManager.parseSecuredPdu_append ?_ (fun h => ?_) (fun _ => ?_)
  · rw [hlen, toBytesBE_length, hl]
    rfl
  · rw [(List.append_eq_nil_iff.mp h).2] at hlen
    cases hlen
  · rw [recutPayload, List.length_append, ha, toBytesBE_length]

/-- Three bytes sent on CAN FD with two counter bytes are as long as four with one: the first
eight bytes of the frame are accepted as a classic CAN frame. -/
def recut (R : MacReady s p .classicCan) (hn : T.freshLen = 2) (hm : 3 ≤ T.macLen)
    (hm' : T.macLen ≤ 32) (hRn : R.freshLen = 1) (hRm : R.macLen = 3) (ha : a.length = 3)
    (hw : 1 ≤ s.freshnessManager.windowSize)
    (hfits : s.freshnessManager.CounterFits 1 (T.lastValid + 1)) :
    Acceptance D T.after p ((T.frame D).take 8) .classicCan where
  toMacReady := R.transferStored T.extends_after T.key (by
    rw [R.keyId_eq T.toMacReady]
    exact T.stored_later (.refl _))
  payload := T.recutPayload
  wire := fromBytesBE (toBytesBE 1 ((T.lastValid + 1) % 2 ^ (1 * 8)).toNat)
  mac := (T.tag D a (T.lastValid + 1)).take 3
  counter := T.lastValid + 1
  parsed := T.parse_recut hn hm hm' ha (by
    have h := R.lengths
    rwa [hRn, hRm] at h)
  fresh := by
    have hnext := (next_succ_iff s.freshnessManager 1 T.lastValid).mpr hfits
    rw [validateFreshness_eq _ _ _ _ T.counted_after, T.freshnessManager_after,
      fromBytesBE_freshnessBytes (freshnessBytes_eq _ _), hnext, if_pos (by linarith)]
  verified := by
    have hcut : SecOC.region T.recutPayload (T.lastValid + 1) 1 =
        SecOC.region a (T.lastValid + 1) 2 := (region_recut a (T.lastValid + 1) 1).symm
    have hm0 : 0 ≤ T.macLen := by omega
    obtain ⟨m, hTm⟩ := Int.eq_ofNat_of_zero_le hm0
    have hmin : min 3 m = 3 := by omega
    change slice (D.hmacSha256 T.key (SecOC.region T.recutPayload (T.lastValid + 1) R.freshLen))
      none (some R.macLen) = (slice (D.hmacSha256 T.key (SecOC.region a (T.lastValid + 1)
        T.freshLen)) none (some T.macLen)).take 3
    rw [hRn, hRm, hn, hcut, hTm, slice_take, List.take_take, hmin]
    exact slice_take _ 3

theorem recut_accepted (R : MacReady s p .classicCan) (hn : T.freshLen = 2) (hm : 3 ≤ T.macLen)
    (hm' : T.macLen ≤ 32) (hRn : R.freshLen = 1) (hRm : R.macLen = 3) (ha : a.length = 3)
    (hw : 1 ≤ s.freshnessManager.windowSize) (hd : s.nvm.diskFault = false)
    (hfits : s.freshnessManager.CounterFits 1 (T.lastValid + 1)) :
    Unforgeable D s ([.transmit p a .canFd] ++
        .receive p ((T.frame D).take 8) .classicCan :: []) ∧
      (T.after.receiveSecured D p ((T.frame D).take 8) .classicCan).1 =
        .ok (some T.recutPayload) := by
  have hregion : SecOC.region T.recutPayload (T.lastValid + 1) 1 = T.region := by
    rw [Transmission.region, hn]
    exact (region_recut a (T.lastValid + 1) 1).symm
  refine ⟨unforgeable_pair T (T.recut R hn hm hm' hRn hRm ha hw hfits) ?_ (List.take_prefix _ _),
    ?_⟩
  · change SecOC.region T.recutPayload (T.lastValid + 1) R.freshLen = T.region
    rw [hRn, hregion]
  · rw [(T.recut R hn hm hm' hRn hRm ha hw hfits).accepted (T.extends_after.diskFault.trans hd)]
    rfl

end Transmission

theorem MacReady.accepted_of_macLen_eq_zero (R : MacReady s p t) (D : Digests) (frame : Bytes)
    (hm : R.macLen = 0) (hd : s.nvm.diskFault = false) {b : Bytes} {wire : Nat} {mac : Bytes}
    (hparse : PduManager.parseSecuredPdu frame R.profile t = .ok (b, wire, mac)) {v : Int}
    (hv : s.freshnessManager.validateFreshness s.nvm p wire = .ok (true, v)) :
    Unforgeable D s ([] ++ .receive p frame t :: []) ∧
      (s.receiveSecured D p frame t).1 = .ok (some b) := by
  -- with an empty authenticator any frame whose counter is in the window is accepted, and no tag is
  -- forged
  have hmac : mac = [] := by
    have h := (PduManager.parseSecuredPdu_eq_ok R.lengths hparse).2.2.2
    rwa [if_neg (not_not.mpr hm)] at h
  have htag : R.tag D b v = mac := by
    rw [R.tag_eq_take hm, hmac, List.take_zero]
  constructor
  · intro pre p₁ frame₁ t₁ post he A hne
    rcases pre with _ | ⟨c, pre⟩
    · cases he
      have hA : A.mac = mac := (A.parts_eq ⟨R, b, wire, mac, v, hparse, hv, htag⟩ rfl).2.2.1
      exact absurd (hA.trans hmac) hne
    · simp at he
  · rw [Acceptance.accepted ⟨R, b, wire, mac, v, hparse, hv, htag⟩ hd]

theorem shipped_later_distinctKeys (calls : List Call) :
    DistinctKeys ((shipped (toBytesBE 32)).run D calls) :=
  shipped_distinctKeys (by decide) (by decide) (by decide) (run_extends _ calls)

theorem Transmission.unforgeable_self {a : Bytes} (T : Transmission s p a t) (hm : 0 < T.macLen)
    (hm' : T.macLen ≤ 32) (hw : 1 ≤ s.freshnessManager.windowSize)
    (hfits : s.freshnessManager.CounterFits T.freshLen (T.lastValid + 1)) :
    Unforgeable D s ([.transmit p a t] ++ .receive p (T.frame D) t :: []) := by
  have hnext := (next_succ_iff s.freshnessManager T.freshLen T.lastValid).mpr hfits
  rw [← T.wire_cast, ← T.freshnessManager_after] at hnext
  have hwindow : T.lastValid + 1 ≤ T.lastValid + T.after.freshnessManager.windowSize := by
    rw [T.freshnessManager_after]
    linarith
  apply unforgeable_pair T (T.acceptance (.refl _) hm hm' T.counted_after hnext hwindow rfl)
  · rfl
  · exact List.prefix_refl _

theorem shipped_frame_was_sent :
    ∃ frame, (((shipped (toBytesBE 32)).run .standard [.transmit "PDU_0x100" [7] .canFd]
        ).receiveSecured .standard "PDU_0x100" frame .canFd).1 = .ok (some [7]) ∧
      ∃ before a' t' between, [Call.transmit "PDU_0x100" [7] .canFd] =
          before ++ .transmit "PDU_0x100" a' t' :: between ∧
        ∃ (T : Transmission ((shipped (toBytesBE 32)).run .standard before) "PDU_0x100" a' t')
          (c : Int), region [7] c 2 = T.region ∧ (t' = .canFd → [7] = padded .canFd a') := by
  obtain ⟨T, hT⟩ : ∃ T : Transmission (shipped (toBytesBE 32)) "PDU_0x100" [7] .canFd,
      T = shippedTransmission (toBytesBE 32) [7] .canFd (by decide) := ⟨_, rfl⟩
  have hm : 0 < T.macLen := by
    rw [hT]
    decide
  have hm' : T.macLen ≤ 32 := by
    rw [hT]
    decide
  have hfits : (shipped (toBytesBE 32)).freshnessManager.CounterFits T.freshLen
      (T.lastValid + 1) := by
    rw [hT]
    exact counterFits_self _ _
  have hu := T.unforgeable_self (D := .standard) hm hm' (by decide) hfits
  have hparse := T.parse_frame (D := .standard) hm hm'
  rw [T.toMacReady.profile_eq (shippedReady _ .canFd)] at hparse
  obtain ⟨L, -, hok, -⟩ := (T.delivered_iff (D := .standard) hm hm' (by decide) rfl).mpr hfits
  have hrun : (shipped (toBytesBE 32)).run .standard [.transmit "PDU_0x100" [7] .canFd] =
      T.after := run_transmit T []
  rw [← hrun] at hok
  obtain ⟨before, a', t', between, hpre, T', c, -, hregion, -, hpay⟩ :=
    accepted_frame_was_sent .standard (shipped (toBytesBE 32)) [.transmit "PDU_0x100" [7] .canFd] []
      hu (shipped_later_distinctKeys _) rfl rfl hparse (T.tag_ne_nil hm hm' _ _) hok
  exact ⟨_, hok, before, a', t', between, hpre, T', c, hregion, fun ht => (hpay ht).1⟩

def emptyMacConfig : Dict String RawEntry :=
  Dict.ofItems [("PDU_0x100", { shippedEntry "PDU_0x100" with authenticatorLength := some 0 })]

def emptyMacReady (urandom : Nat → Bytes) :
    MacReady (configured emptyMacConfig urandom) "PDU_0x100" .canFd where
  profile := { shippedProfile "PDU_0x100" with authenticatorLength := 0 }
  keyId := "secoc_mac_key_PDU_0x100"
  key := urandom 0
  freshLen := 2
  macLen := 0
  found := rfl
  lengths := rfl
  resolved := rfl
  alive := rfl
  stored := rfl

theorem emptyMac_distinctKeys {urandom : Nat → Bytes}
    (hx : Extends (configured emptyMacConfig urandom) s) : DistinctKeys s := by
  have key : ∀ {p t}, MacReady s p t → p = "PDU_0x100" := by
    intro p t R
    have hprofiles : (configured emptyMacConfig urandom).profiles = Dict.ofItems
      [("PDU_0x100", { shippedProfile "PDU_0x100" with authenticatorLength := 0 })] := rfl
    have hf := R.found
    rw [hx.profiles, hprofiles] at hf
    simp only [Dict.ofItems, List.foldl, Dict.get?_set] at hf
    split_ifs at hf with hp
    · exact hp
    · cases hf
  intro p q t t' R R' _
  rw [key R, key R']

theorem accepted_frame_not_sent :
    (∃ frame, Unforgeable .standard (shipped (toBytesBE 32))
          ([.transmit "PDU_0x100" [1, 2, 3] .canFd] ++
            .receive "PDU_0x100" frame .classicCan :: []) ∧
        DistinctKeys ((shipped (toBytesBE 32)).run .standard
          ([.transmit "PDU_0x100" [1, 2, 3] .canFd] ++
            .receive "PDU_0x100" frame .classicCan :: [])) ∧
        (((shipped (toBytesBE 32)).run .standard [.transmit "PDU_0x100" [1, 2, 3] .canFd]
          ).receiveSecured .standard "PDU_0x100" frame .classicCan).1 =
            .ok (some [1, 2, 3, 0])) ∧
      Unforgeable .standard (configured emptyMacConfig (toBytesBE 32))
          ([] ++ .receive "PDU_0x100" [9, 0, 1] .canFd :: []) ∧
        DistinctKeys ((configured emptyMacConfig (toBytesBE 32)).run .standard
          ([] ++ .receive "PDU_0x100" [9, 0, 1] .canFd :: [])) ∧
        ((configured emptyMacConfig (toBytesBE 32)).receiveSecured .standard "PDU_0x100" [9, 0, 1]
          .canFd).1 = .ok (some [9]) := by
  -- two frames accepted that no call sent on their transport, without any forgery: the start of a
  -- CAN FD frame on classic CAN, and, where authenticators are empty, any bytes at all
  constructor
  · obtain ⟨hu, hok⟩ := (shippedTransmission (toBytesBE 32) [1, 2, 3] .canFd (by decide)
      ).recut_accepted (D := .standard) (shippedReady (toBytesBE 32) .classicCan) rfl (by decide)
        (by decide) rfl rfl rfl (by decide) rfl (by decide)
    exact ⟨_, hu, shipped_later_distinctKeys _, hok⟩
  · obtain ⟨hu, hok⟩ := (emptyMacReady (toBytesBE 32)).accepted_of_macLen_eq_zero .standard
      [9, 0, 1] rfl rfl rfl rfl
    exact ⟨hu, emptyMac_distinctKeys (run_extends _ _), hok⟩

end Stack
end SecOC
