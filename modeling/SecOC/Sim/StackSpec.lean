import SecOC.Sim.Stack

/-! What one call of the stack can do. A `Transmission` or an `Acceptance` holds everything
that makes the call succeed; with one the call is computed, without one it changes next to
nothing. -/

namespace SecOC
open Py FreshnessManager

def CSM.afterMac (c : CSM) (keyId : String) : CSM :=
  { hsm := c.hsm.afterMac keyId, state := .finished }

def region (payload : Bytes) (counter : Int) (n : Nat) : Bytes :=
  payload ++ toBytesBE n (counter % 2 ^ (n * 8)).toNat

theorem region_length (payload : Bytes) (counter : Int) (n : Nat) :
    (region payload counter n).length = payload.length + n := by
  rw [region, List.length_append, toBytesBE_length]

namespace Stack
variable {D : Digests} {s : Stack} {pduId : String} {transport : Transport}

/-- A MAC can be computed for the PDU: its key is resolved and present, or drawn now. -/
structure MacReady (s : Stack) (pduId : String) (transport : Transport) where
  profile : SecurityProfileEntry
  keyId : String
  key : Bytes
  freshLen : Nat
  macLen : Int
  found : s.profiles.get? pduId = some profile
  lengths : profile.truncationLengths transport = .ok ((freshLen : Int), macLen)
  resolved : s.resolveKeyId pduId profile = .ok keyId
  alive : s.csm.hsm.failMode = false
  stored : s.csm.hsm.macKey keyId = .symmetric key

def CsmAfter (s : Stack) (pduId : String) (c : CSM) : Prop :=
  c.hsm = s.csm.hsm ∨ ∃ profile keyId, s.profiles.get? pduId = some profile ∧
    s.resolveKeyId pduId profile = .ok keyId ∧ c.hsm = s.csm.hsm.afterMac keyId

theorem CsmAfter.refl (s : Stack) (pduId : String) : s.CsmAfter pduId s.csm := Or.inl rfl

theorem macInput_of {profile : SecurityProfileEntry} (hp : s.profiles.get? pduId = some profile)
    {keyId : String} (hid : s.resolveKeyId pduId profile = .ok keyId) {n : Nat} {m : Int}
    (hl : profile.truncationLengths transport = .ok ((n : Int), m)) (payload : Bytes)
    (counter : Int) : s.macInput pduId payload counter transport =
      .ok (keyId, region payload counter n, m) := by
  simp only [macInput, getProfile_eq_ok.mpr hp, hid, hl, freshnessBytes_eq, bind, Except.bind, pure,
    Except.pure, region]

namespace MacReady
variable (R : MacReady s pduId transport)

def tag (D : Digests) (payload : Bytes) (counter : Int) : Bytes :=
  slice (D.hmacSha256 R.key (region payload counter R.freshLen)) none (some R.macLen)

theorem tag_eq_take {m : Nat} (hm : R.macLen = m) (payload : Bytes) (counter : Int) :
    R.tag D payload counter = (D.hmacSha256 R.key (region payload counter R.freshLen)).take m := by
  rw [tag, hm, slice_take]

theorem tag_length_min {m : Nat} (hm : R.macLen = m) (payload : Bytes) (counter : Int) :
    (R.tag D payload counter).length = min m 32 := by
  rw [R.tag_eq_take hm, List.length_take, D.hmacSha256_length]

theorem csmAfter : s.CsmAfter pduId (s.csm.afterMac R.keyId) :=
  Or.inr ⟨R.profile, R.keyId, R.found, R.resolved, rfl⟩

theorem profile_of {profile : SecurityProfileEntry} (hp : s.profiles.get? pduId = some profile) :
    R.profile = profile := by
  have hfound := R.found
  rw [hp] at hfound
  exact (Option.some.inj hfound).symm

theorem lengths_of {profile : SecurityProfileEntry} (hp : s.profiles.get? pduId = some profile)
    {n : Nat} {m : Int} (hl : profile.truncationLengths transport = .ok ((n : Int), m)) :
    R.freshLen = n ∧ R.macLen = m := by
  have hlen := R.lengths
  rw [R.profile_of hp, hl] at hlen
  obtain ⟨hn, hm⟩ := Prod.mk.inj (Except.ok.inj hlen)
  exact ⟨(Int.natCast_inj.mp hn).symm, hm.symm⟩

theorem stored_after :
    (s.csm.hsm.afterMac R.keyId).keyStore.get? R.keyId = some (.symmetric R.key) := by
  rw [HSM.afterMac_keyStore_self, R.stored]

theorem macInput_eq (payload : Bytes) (counter : Int) :
    s.macInput pduId payload counter transport =
      .ok (R.keyId, region payload counter R.freshLen, R.macLen) :=
  macInput_of R.found R.resolved R.lengths payload counter

theorem hmac_eq (data : Bytes) : HmacCrypto.generateMac D s.csm R.keyId data =
    (.ok (D.hmacSha256 R.key data), s.csm.afterMac R.keyId) := by
  rcases generateMac_cases D s.csm R.keyId data with ⟨hf, -⟩ | ⟨-, hk, -⟩ | ⟨key, -, hk, he⟩
  · rw [R.alive] at hf
    cases hf
  · rw [R.stored] at hk
    cases hk
  · rw [R.stored] at hk
    cases hk
    exact he

theorem generateMac_eq (payload : Bytes) (counter : Int) :
    s.generateMac D pduId payload counter transport = (.ok (R.tag D payload counter),
      { s with authenticator := { s.authenticator with opSeq := s.authenticator.opSeq + 1 }
               csm := s.csm.afterMac R.keyId }.logOverrun s.authenticator.opSeq) := by
  simp only [generateMac, R.macInput_eq, R.hmac_eq]
  rfl

theorem verifyMac_eq (payload : Bytes) (counter : Int) (mac : Bytes) :
    s.verifyMac D pduId payload counter mac transport =
      (.ok (R.tag D payload counter == mac), { s with csm := s.csm.afterMac R.keyId }) := by
  simp only [verifyMac, R.macInput_eq, R.hmac_eq]
  rfl

end MacReady

theorem macInput_eq_ok {payload : Bytes} {counter : Int} {keyId : String} {data : Bytes}
    {macLen : Int} (h : s.macInput pduId payload counter transport = .ok (keyId, data, macLen)) :
    ∃ profile freshLen, s.profiles.get? pduId = some profile ∧
      s.resolveKeyId pduId profile = .ok keyId ∧
      profile.truncationLengths transport = .ok (freshLen, macLen) ∧ 0 ≤ freshLen := by
  unfold macInput at h
  obtain ⟨profile, hp, h⟩ := bind_eq_ok.mp h
  obtain ⟨k, hk, h⟩ := bind_eq_ok.mp h
  obtain ⟨⟨n, m⟩, hl, h⟩ := bind_eq_ok.mp h
  obtain ⟨fb, hb, h⟩ := bind_eq_ok.mp h
  cases h
  exact ⟨profile, n, getProfile_eq_ok.mp hp, hk, hl, (freshnessBytes_length hb).1⟩

theorem hmac_refused (h : IsEmpty (MacReady s pduId transport)) {payload : Bytes}
    {counter : Int} {keyId : String} {data : Bytes} {macLen : Int}
    (hin : s.macInput pduId payload counter transport = .ok (keyId, data, macLen)) :
    ∃ e c, c.hsm = s.csm.hsm ∧ HmacCrypto.generateMac D s.csm keyId data = (.error e, c) := by
  rcases generateMac_cases D s.csm keyId data with ⟨-, he⟩ | ⟨-, -, he⟩ | ⟨key, hf, hk, -⟩
  · exact ⟨_, { s.csm with state := .failed }, rfl, he⟩
  · exact ⟨_, { s.csm with state := .failed }, rfl, he⟩
  · obtain ⟨profile, n, hp, hr, hl, hn⟩ := macInput_eq_ok hin
    lift n to Nat using hn
    exact (h.false ⟨profile, keyId, key, n, macLen, hp, hl, hr, hf, hk⟩).elim

theorem generateMac_refused (h : IsEmpty (MacReady s pduId transport)) (payload : Bytes)
    (counter : Int) : ∃ e c n, c.hsm = s.csm.hsm ∧
      s.generateMac D pduId payload counter transport =
        (.error e, { s with authenticator := { s.authenticator with opSeq := n }, csm := c }) := by
  unfold generateMac
  rcases hin : s.macInput pduId payload counter transport with e | ⟨keyId, data, macLen⟩
  · exact ⟨e, s.csm, s.authenticator.opSeq, rfl, rfl⟩
  · obtain ⟨e, c, hc, he⟩ := hmac_refused (D := D) h hin
    refine ⟨e, c, s.authenticator.opSeq + 1, hc, ?_⟩
    simp only [he]

theorem verifyMac_refused (h : IsEmpty (MacReady s pduId transport)) (payload : Bytes)
    (counter : Int) (mac : Bytes) : ∃ e c, c.hsm = s.csm.hsm ∧
      s.verifyMac D pduId payload counter mac transport = (.error e, { s with csm := c }) := by
  unfold verifyMac
  rcases hin : s.macInput pduId payload counter transport with e | ⟨keyId, data, macLen⟩
  · exact ⟨e, s.csm, rfl, rfl⟩
  · obtain ⟨e, c, hc, he⟩ := hmac_refused (D := D) h hin
    refine ⟨e, c, hc, ?_⟩
    simp only [he]

/-! Transmitting. -/

/-- Everything a successful `transmitSecured` rests on. -/
structure Transmission (s : Stack) (pduId : String) (payload : Bytes) (transport : Transport)
    extends MacReady s pduId transport where
  admissible : transport = .classicCan → payload.length ≤ classicCanPayloadBytes
  lastValid : Int
  counted : FreshnessManager.lastValid s.nvm pduId = .ok lastValid

namespace Transmission
variable {payload : Bytes} (T : Transmission s pduId payload transport)

def region : Bytes := SecOC.region (padded transport payload) (T.lastValid + 1) T.freshLen

def frame (D : Digests) : Bytes := T.region ++ T.tag D (padded transport payload) (T.lastValid + 1)

def after : Stack :=
  { s with authenticator := { s.authenticator with opSeq := s.authenticator.opSeq + 1 }
           csm := s.csm.afterMac T.keyId }.logOverrun s.authenticator.opSeq

theorem transmitSecured_eq :
    s.transmitSecured D pduId payload transport = (.ok (T.frame D), T.after) := by
  have hlen : ¬(transport = .classicCan ∧ classicCanPayloadBytes < payload.length) :=
    fun h => (T.admissible h.1).not_gt h.2
  have hc : (FreshnessManager.loadLastValidFreshness s.nvm pduId).asInt = .ok T.lastValid :=
    T.counted
  simp only [transmitSecured, getProfile_eq_ok.mpr T.found, hlen, if_false, hc,
    T.toMacReady.generateMac_eq, PduManager.buildSecuredPdu_ok T.lengths (freshnessBytes_eq _ _)]
  rfl

theorem after_fields : T.after.profiles = s.profiles ∧ T.after.nvm = s.nvm ∧
    T.after.freshnessManager = s.freshnessManager ∧ T.after.csm = s.csm.afterMac T.keyId ∧
    T.after.authenticator.keyManager = s.authenticator.keyManager ∧ T.after.bus = s.bus := by
  unfold after logOverrun
  split_ifs <;> exact ⟨rfl, rfl, rfl, rfl, rfl, rfl⟩

theorem after_escalation : T.after.escalation.counts = s.escalation.counts ∧
    T.after.escalation.lockedOut = s.escalation.lockedOut ∧
    T.after.escalation.ecuState = s.escalation.ecuState := by
  unfold after logOverrun
  split_ifs <;> exact ⟨rfl, rfl, rfl⟩

theorem after_dem : T.after.escalation.dem = s.escalation.dem ∨ T.after.escalation.dem =
    EventLogger.log s.escalation.dem .warning "WCET_EXCEEDED" "SW-SecOC-08" := by
  unfold after logOverrun
  split_ifs
  · exact Or.inr rfl
  · exact Or.inl rfl

end Transmission

theorem transmitSecured_refused {payload : Bytes}
    (h : IsEmpty (Transmission s pduId payload transport)) : ∃ e c n, c.hsm = s.csm.hsm ∧
      s.transmitSecured D pduId payload transport =
        (.error e, { s with authenticator := { s.authenticator with opSeq := n }, csm := c }) := by
  unfold transmitSecured
  cases hp : getProfile s.profiles pduId with
  | error e => exact ⟨e, s.csm, s.authenticator.opSeq, rfl, rfl⟩
  | ok profile =>
    simp only
    split_ifs with hlen
    · exact ⟨_, s.csm, s.authenticator.opSeq, rfl, rfl⟩
    · cases hc : (FreshnessManager.loadLastValidFreshness s.nvm pduId).asInt with
      | error e => exact ⟨e, s.csm, s.authenticator.opSeq, rfl, rfl⟩
      | ok L =>
        have hfits : transport = .classicCan → payload.length ≤ classicCanPayloadBytes := by
          intro ht
          exact not_lt.mp fun hlong => hlen ⟨ht, hlong⟩
        have hR : IsEmpty (MacReady s pduId transport) := ⟨fun R => h.false ⟨R, hfits, L, hc⟩⟩
        obtain ⟨e, c, n, hh, he⟩ :=
          generateMac_refused (D := D) hR (padded transport payload) (L + 1)
        refine ⟨e, c, n, hh, ?_⟩
        simp only [he]

/-! Receiving. -/

/-- Everything an accepting `receiveSecured` rests on, up to the commit. -/
structure Acceptance (D : Digests) (s : Stack) (pduId : String) (securedPdu : Bytes)
    (transport : Transport) extends MacReady s pduId transport where
  payload : Bytes
  wire : Nat
  mac : Bytes
  counter : Int
  parsed : PduManager.parseSecuredPdu securedPdu profile transport = .ok (payload, wire, mac)
  fresh : s.freshnessManager.validateFreshness s.nvm pduId wire = .ok (true, counter)
  verified : toMacReady.tag D payload counter = mac

def verifiedWith (s : Stack) (keyId : String) : Stack := { s with csm := s.csm.afterMac keyId }

theorem Acceptance.receiveSecured_eq {securedPdu : Bytes}
    (A : Acceptance D s pduId securedPdu transport) :
    s.receiveSecured D pduId securedPdu transport =
      match commitFreshness s.nvm pduId A.counter with
      | (.error e, nvm) => (.error e, { s.verifiedWith A.keyId with nvm := nvm })
      | (.ok _, nvm) => (.ok (some A.payload),
          { s.verifiedWith A.keyId with nvm := nvm, bus := s.bus.publish pduId securedPdu }) := by
  have hv : s.verifyMac D pduId A.payload A.counter A.mac transport =
      (.ok true, s.verifiedWith A.keyId) := by
    rw [A.toMacReady.verifyMac_eq, A.verified, beq_self_eq_true]
    rfl
  simp only [receiveSecured, getProfile_eq_ok.mpr A.found, A.parsed, A.fresh, hv]
  rfl

/-- A `receiveSecured` without an acceptance raises or rejects; the NvM and the bus stay. -/
theorem receiveSecured_refused {securedPdu : Bytes}
    (h : IsEmpty (Acceptance D s pduId securedPdu transport)) :
    (∃ e c, s.CsmAfter pduId c ∧
      s.receiveSecured D pduId securedPdu transport = (.error e, { s with csm := c })) ∨
    (∃ reason c, s.CsmAfter pduId c ∧ (s.profiles.get? pduId).isSome ∧
      s.receiveSecured D pduId securedPdu transport =
        { s with csm := c }.reject pduId reason) := by
  unfold receiveSecured
  cases hp : getProfile s.profiles pduId with
  | error e => exact Or.inl ⟨e, s.csm, .refl s pduId, rfl⟩
  | ok profile =>
    have hsome : (s.profiles.get? pduId).isSome := by
      rw [getProfile_eq_ok.mp hp]
      rfl
    simp only
    split
    · exact Or.inr ⟨_, s.csm, .refl s pduId, hsome, rfl⟩
    · exact Or.inl ⟨_, s.csm, .refl s pduId, rfl⟩
    · next payload wire mac hparse =>
      split
      · exact Or.inl ⟨_, s.csm, .refl s pduId, rfl⟩
      · exact Or.inr ⟨_, s.csm, .refl s pduId, hsome, rfl⟩
      · next counter hfresh =>
        rcases isEmpty_or_nonempty (MacReady s pduId transport) with hR | ⟨⟨R⟩⟩
        · obtain ⟨e, c, hc, he⟩ := verifyMac_refused (D := D) hR payload counter mac
          refine Or.inl ⟨e, c, Or.inl hc, ?_⟩
          simp only [he]
        · rw [R.verifyMac_eq]
          have hprof : profile = R.profile := (R.profile_of (getProfile_eq_ok.mp hp)).symm
          cases hmac : R.tag D payload counter == mac with
          | false => exact Or.inr ⟨_, _, R.csmAfter, hsome, rfl⟩
          | true =>
            have hverified : R.tag D payload counter = mac := beq_iff_eq.mp hmac
            rw [hprof] at hparse
            exact (h.false ⟨R, payload, wire, mac, counter, hparse, hfresh, hverified⟩).elim

end Stack
end SecOC
