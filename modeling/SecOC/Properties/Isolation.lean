import SecOC.Sim.StackRun

/-! Isolation of the PDUs. All state of a PDU is reached through keys made from its id, so calls
on other PDUs are invisible to it, and what its own calls do depends on that state alone. -/

namespace SecOC
open Py FreshnessManager

/-- What calls on one PDU can see of a stack. -/
structure View where
  profile : Option SecurityProfileEntry
  freshnessManager : FreshnessManager
  keyManager : Bool
  failMode : Bool
  diskFault : Bool
  key : Option KeyMaterial
  lastValid : Option Value
  window : Option Value
  metadata : Option Value
  count : Option Nat

namespace Stack

def view (q keyId : String) (s : Stack) : View where
  profile := s.profiles.get? q
  freshnessManager := s.freshnessManager
  keyManager := s.authenticator.keyManager
  failMode := s.csm.hsm.failMode
  diskFault := s.nvm.diskFault
  key := s.csm.hsm.keyStore.get? keyId
  lastValid := s.nvm.store.get? (lastValidKey q)
  window := s.nvm.store.get? (windowKey q)
  metadata := s.nvm.store.get? (KeyStorage.nvmKey q)
  count := s.escalation.counts.get? q

structure OwnsKey (q keyId : String) (s : Stack) : Prop where
  own : ∀ {profile k}, s.profiles.get? q = some profile → s.resolveKeyId q profile = .ok k →
    k = keyId
  foreign : ∀ {p profile}, p ≠ q → s.profiles.get? p = some profile →
    s.resolveKeyId p profile ≠ .ok keyId

variable {D : Digests} {q keyId : String} {s t : Stack}

theorem OwnsKey.extends (h : OwnsKey q keyId s) (hx : Extends s t) : OwnsKey q keyId t where
  own hp hr := by
    rw [hx.profiles] at hp
    rw [hx.resolveKeyId_eq] at hr
    exact h.own hp hr
  foreign hpq hp := by
    rw [hx.profiles] at hp
    rw [hx.resolveKeyId_eq]
    exact h.foreign hpq hp

/-! Calls on other PDUs. -/

theorem csmAfter_key {p : String} {c : CSM} (ho : OwnsKey q keyId s) (hpq : p ≠ q)
    (hc : s.CsmAfter p c) : c.hsm.keyStore.get? keyId = s.csm.hsm.keyStore.get? keyId := by
  rcases hc with h | ⟨profile, k, hp, hr, h⟩
  · rw [h]
  · rw [h]
    refine HSM.afterMac_keyStore_ne _ (fun hk => ?_)
    subst hk
    exact ho.foreign hpq hp hr

theorem view_eq_of_nvm_eq {p : String} (ho : OwnsKey q keyId s) (hpq : p ≠ q)
    (hc : s.CsmAfter p t.csm) (hp : t.profiles = s.profiles) (hn : t.nvm = s.nvm)
    (hf : t.freshnessManager = s.freshnessManager)
    (hk : t.authenticator.keyManager = s.authenticator.keyManager)
    (hcount : t.escalation.counts.get? q = s.escalation.counts.get? q) :
    t.view q keyId = s.view q keyId := by
  simp only [view, hp, hn, hf, hk, hcount, csmAfter_key ho hpq hc, Extends.hsm_failMode hc]

theorem view_transmitSecured {p : String} (ho : OwnsKey q keyId s) (hpq : p ≠ q)
    (payload : Bytes) (transport : Transport) :
    (s.transmitSecured D p payload transport).2.view q keyId = s.view q keyId := by
  rcases isEmpty_or_nonempty (Transmission s p payload transport) with h | ⟨⟨T⟩⟩
  · obtain ⟨e, c, n, hc, he⟩ := transmitSecured_refused (D := D) h
    rw [he]
    exact view_eq_of_nvm_eq ho hpq (Or.inl hc) rfl rfl rfl rfl rfl
  · rw [T.transmitSecured_eq]
    obtain ⟨hp, hn, hf, hc, hk, -⟩ := T.after_fields
    have hcount : T.after.escalation.counts.get? q = s.escalation.counts.get? q := by
      rw [T.after_escalation.1]
    apply view_eq_of_nvm_eq ho hpq _ hp hn hf hk hcount
    rw [hc]
    exact T.csmAfter

theorem view_receiveSecured {p : String} (ho : OwnsKey q keyId s) (hpq : p ≠ q) (frame : Bytes)
    (transport : Transport) :
    (s.receiveSecured D p frame transport).2.view q keyId = s.view q keyId := by
  rcases isEmpty_or_nonempty (Acceptance D s p frame transport) with h | ⟨⟨A⟩⟩
  · rcases receiveSecured_refused h with ⟨e, c, hc, he⟩ | ⟨reason, c, hc, -, he⟩
    · rw [he]
      exact view_eq_of_nvm_eq ho hpq hc rfl rfl rfl rfl rfl
    · rw [he]
      refine view_eq_of_nvm_eq ho hpq hc rfl rfl rfl rfl ?_
      change (s.escalation.reject p reason).counts.get? q = _
      rw [Escalation.reject_counts, Dict.get?_set_ne _ _ hpq.symm]
  · obtain ⟨bus, he⟩ := A.receiveSecured_snd
    rw [he]
    -- The records of a PDU are under keys made from its id.
    have hlast : lastValidKey q ≠ lastValidKey p := fun h => hpq (lastValidKey_inj.mp h).symm
    have hwindow : windowKey q ≠ windowKey p := fun h => hpq (windowKey_inj.mp h).symm
    have hcross := (lastValidKey_ne_windowKey p q).symm
    simp only [view, verifiedWith, commitFreshness_diskFault, get?_commitFreshness, hlast, hwindow,
      hcross, lastValidKey_ne_windowKey, nvmKey_ne_lastValidKey, nvmKey_ne_windowKey, if_false,
      false_and, csmAfter_key ho hpq A.csmAfter, Extends.hsm_failMode A.csmAfter]

/-- A call on another PDU changes nothing the PDU can see. -/
theorem view_call (ho : OwnsKey q keyId s) {c : Call} (hpq : c.pduId ≠ q) :
    (s.call D c).2.view q keyId = s.view q keyId := by
  cases c with
  | transmit p payload transport => exact view_transmitSecured ho hpq payload transport
  | receive p frame transport => exact view_receiveSecured ho hpq frame transport

/-! Calls on the PDU itself. The key is drawn when the first MAC is, so the keys two runs use
are compared through the store after the call. -/

theorem getProfile_view (hv : s.view q keyId = t.view q keyId) :
    getProfile s.profiles q = getProfile t.profiles q := by
  have h : s.profiles.get? q = t.profiles.get? q := congrArg View.profile hv
  rw [getProfile, getProfile, h]

theorem loadLastValid_view (hv : s.view q keyId = t.view q keyId) :
    loadLastValidFreshness s.nvm q = loadLastValidFreshness t.nvm q := by
  have h : s.nvm.store.get? (lastValidKey q) = t.nvm.store.get? (lastValidKey q) :=
    congrArg View.lastValid hv
  exact NvM.read_congr h _

theorem validateFreshness_view (hv : s.view q keyId = t.view q keyId) (truncated : Nat) :
    s.freshnessManager.validateFreshness s.nvm q truncated =
      t.freshnessManager.validateFreshness t.nvm q truncated := by
  have h : s.freshnessManager = t.freshnessManager := congrArg View.freshnessManager hv
  rw [validateFreshness, validateFreshness, loadLastValid_view hv, h]

theorem macInput_view (hv : s.view q keyId = t.view q keyId) (payload : Bytes) (counter : Int)
    (transport : Transport) :
    s.macInput q payload counter transport = t.macInput q payload counter transport := by
  have hk : s.authenticator.keyManager = t.authenticator.keyManager := congrArg View.keyManager hv
  have hm : s.nvm.store.get? (KeyStorage.nvmKey q) = t.nvm.store.get? (KeyStorage.nvmKey q) :=
    congrArg View.metadata hv
  have hr : ∀ profile, s.resolveKeyId q profile = t.resolveKeyId q profile := by
    intro profile
    rw [resolveKeyId, resolveKeyId, hk, KeyManager.resolveKey, KeyManager.resolveKey,
      KeyStorage.getKeyMetadata, KeyStorage.getKeyMetadata, NvM.read_congr hm]
  simp only [macInput, getProfile_view hv, hr]

theorem hmac_view {m : Option KeyMaterial} (hv : s.view q keyId = t.view q keyId) (data : Bytes)
    (hs : (HmacCrypto.generateMac D s.csm keyId data).2.hsm.keyStore.get? keyId = none ∨
      (HmacCrypto.generateMac D s.csm keyId data).2.hsm.keyStore.get? keyId = m)
    (ht : (HmacCrypto.generateMac D t.csm keyId data).2.hsm.keyStore.get? keyId = none ∨
      (HmacCrypto.generateMac D t.csm keyId data).2.hsm.keyStore.get? keyId = m) :
    (HmacCrypto.generateMac D s.csm keyId data).1 = (HmacCrypto.generateMac D t.csm keyId data).1 ∧
      (HmacCrypto.generateMac D s.csm keyId data).2.hsm.keyStore.get? keyId =
        (HmacCrypto.generateMac D t.csm keyId data).2.hsm.keyStore.get? keyId := by
  have hf : s.csm.hsm.failMode = t.csm.hsm.failMode := congrArg View.failMode hv
  have hkey : s.csm.hsm.keyStore.get? keyId = t.csm.hsm.keyStore.get? keyId :=
    congrArg View.key hv
  rw [generateMac_key] at hs ht ⊢
  rw [generateMac_key, generateMac_fst, generateMac_fst, ← hf, ← hkey]
  rw [← hf, ← hkey] at ht
  cases hfail : s.csm.hsm.failMode with
  | true => exact ⟨rfl, rfl⟩
  | false =>
    rw [hfail] at hs ht
    have hs' : some (s.csm.hsm.macKey keyId) = m := hs.resolve_left (Option.some_ne_none _)
    have ht' : some (t.csm.hsm.macKey keyId) = m := ht.resolve_left (Option.some_ne_none _)
    have hmac := Option.some.inj (hs'.trans ht'.symm)
    rw [hmac]
    exact ⟨rfl, rfl⟩

section MacInput
variable {payload data : Bytes} {counter macLen : Int} {transport : Transport} {k : String}
  (hin : s.macInput q payload counter transport = .ok (k, data, macLen))
include hin

theorem generateMac_of_macInput :
    (s.generateMac D q payload counter transport).1 =
        (HmacCrypto.generateMac D s.csm k data).1.map (slice · none (some macLen)) ∧
      (s.generateMac D q payload counter transport).2.view q keyId = { s.view q keyId with
        key := (HmacCrypto.generateMac D s.csm k data).2.hsm.keyStore.get? keyId } := by
  have hf := generateMac_failMode D s.csm k data
  simp only [generateMac, hin]
  rcases hmac : HmacCrypto.generateMac D s.csm k data with ⟨_ | _, c⟩ <;> rw [hmac] at hf
  · exact ⟨rfl, by simp only [view, ← hf]⟩
  · refine ⟨rfl, ?_⟩
    simp only [logOverrun]
    split_ifs <;> simp only [view, ← hf]

theorem verifyMac_of_macInput (mac : Bytes) :
    (s.verifyMac D q payload counter mac transport).1 =
        (HmacCrypto.generateMac D s.csm k data).1.map (slice · none (some macLen) == mac) ∧
      (s.verifyMac D q payload counter mac transport).2.view q keyId = { s.view q keyId with
        key := (HmacCrypto.generateMac D s.csm k data).2.hsm.keyStore.get? keyId } := by
  have hf := generateMac_failMode D s.csm k data
  simp only [verifyMac, hin]
  rcases hmac : HmacCrypto.generateMac D s.csm k data with ⟨_ | _, c⟩ <;> rw [hmac] at hf
  · exact ⟨rfl, by simp only [view, ← hf]⟩
  · exact ⟨rfl, by simp only [view, ← hf]⟩

end MacInput

theorem reject_view (hv : s.view q keyId = t.view q keyId) (reason : RejectionReason) :
    (s.reject q reason).2.view q keyId = (t.reject q reason).2.view q keyId := by
  have hcount : s.escalation.counts.get? q = t.escalation.counts.get? q := congrArg View.count hv
  have hview : ∀ s : Stack, (s.reject q reason).2.view q keyId =
      { s.view q keyId with count := some ((s.escalation.counts.get? q).getD 0 + 1) } := by
    intro s
    simp only [view, reject, Escalation.reject_counts, Dict.get?_set_self, Dict.getD]
  rw [hview, hview, hv, hcount]

theorem commit_view (hv : s.view q keyId = t.view q keyId) (v : Int) (b c : CanBus) :
    (commitFreshness s.nvm q v).1 = (commitFreshness t.nvm q v).1 ∧
      ({ s with nvm := (commitFreshness s.nvm q v).2, bus := b }).view q keyId =
        ({ t with nvm := (commitFreshness t.nvm q v).2, bus := c }).view q keyId := by
  have hd : s.nvm.diskFault = t.nvm.diskFault := congrArg View.diskFault hv
  have hview : ∀ (s : Stack) (b : CanBus),
      ({ s with nvm := (commitFreshness s.nvm q v).2, bus := b }).view q keyId =
        { s.view q keyId with
          lastValid := some (.int v)
          window := if s.nvm.diskFault = false then some (.list [])
            else (s.view q keyId).window } := by
    intro s b
    have hcross := (lastValidKey_ne_windowKey q q).symm
    simp only [view, commitFreshness_diskFault, get?_commitFreshness, hcross,
      nvmKey_ne_lastValidKey, nvmKey_ne_windowKey, if_true, if_false, true_and, false_and]
  rw [commitFreshness_fst, commitFreshness_fst, hview, hview, hv, hd]
  exact ⟨rfl, rfl⟩

def conclude (q : String) (frame payload : Bytes) (counter : Int) :
    Except PyError Bool × Stack → Except PyError (Option Bytes) × Stack
  | (.error e, s) => (.error e, s)
  | (.ok false, s) => s.reject q .macMismatch
  | (.ok true, s) => match commitFreshness s.nvm q counter with
    | (.error e, nvm) => (.error e, { s with nvm := nvm })
    | (.ok _, nvm) => (.ok (some payload), { s with nvm := nvm, bus := s.bus.publish q frame })

theorem receiveSecured_eq_conclude {profile : SecurityProfileEntry} {frame payload mac : Bytes}
    {wire : Nat} {counter : Int} {transport : Transport}
    (hp : getProfile s.profiles q = .ok profile)
    (hparse : PduManager.parseSecuredPdu frame profile transport = .ok (payload, wire, mac))
    (hfresh : s.freshnessManager.validateFreshness s.nvm q wire = .ok (true, counter)) :
    s.receiveSecured D q frame transport =
      conclude q frame payload counter (s.verifyMac D q payload counter mac transport) := by
  simp only [receiveSecured, hp, hparse, hfresh]
  rfl

theorem conclude_key (frame payload : Bytes) (counter : Int) (x : Except PyError Bool × Stack) :
    ((conclude q frame payload counter x).2.view q keyId).key = (x.2.view q keyId).key := by
  obtain ⟨_ | _ | _, s⟩ := x
  · rfl
  · rfl
  · simp only [conclude]
    rcases commitFreshness s.nvm q counter with ⟨_ | _, nvm⟩ <;> rfl

theorem conclude_view {x y : Except PyError Bool × Stack} (hout : x.1 = y.1)
    (hv : x.2.view q keyId = y.2.view q keyId) (frame payload : Bytes) (counter : Int) :
    (conclude q frame payload counter x).1 = (conclude q frame payload counter y).1 ∧
      (conclude q frame payload counter x).2.view q keyId =
        (conclude q frame payload counter y).2.view q keyId := by
  obtain ⟨r, s⟩ := x
  obtain ⟨r', t⟩ := y
  obtain rfl : r = r' := hout
  have hst : s.view q keyId = t.view q keyId := hv
  rcases r with e | _ | _
  · exact ⟨rfl, hst⟩
  · exact ⟨rfl, reject_view hst _⟩
  · have hcommit := commit_view hst counter (s.bus.publish q frame) (t.bus.publish q frame)
    simp only [conclude]
    rcases hs : commitFreshness s.nvm q counter with ⟨cs, ns⟩
    rcases ht : commitFreshness t.nvm q counter with ⟨ct, nt⟩
    rw [hs, ht] at hcommit
    obtain ⟨rfl, hview⟩ := hcommit
    cases cs <;> exact ⟨rfl, hview⟩

section Congruence
variable {m : Option KeyMaterial} (ho : OwnsKey q keyId s)
  (hv : s.view q keyId = t.view q keyId) (payload : Bytes) (counter : Int) (mac : Bytes)
  (transport : Transport)
include ho hv

theorem mac_view {k : String} {data : Bytes} {macLen : Int} {s' t' : Stack}
    (hin : s.macInput q payload counter transport = .ok (k, data, macLen))
    (hs' : s'.view q keyId = { s.view q keyId with
      key := (HmacCrypto.generateMac D s.csm k data).2.hsm.keyStore.get? keyId })
    (ht' : t'.view q keyId = { t.view q keyId with
      key := (HmacCrypto.generateMac D t.csm k data).2.hsm.keyStore.get? keyId })
    (hs : (s'.view q keyId).key = none ∨ (s'.view q keyId).key = m)
    (ht : (t'.view q keyId).key = none ∨ (t'.view q keyId).key = m) :
    (HmacCrypto.generateMac D s.csm k data).1 = (HmacCrypto.generateMac D t.csm k data).1 ∧
      s'.view q keyId = t'.view q keyId := by
  obtain ⟨profile, n, hp, hr, -, -⟩ := macInput_eq_ok hin
  obtain rfl := ho.own hp hr
  rw [hs'] at hs
  rw [ht'] at ht
  obtain ⟨hout, hkey⟩ := hmac_view hv data hs ht
  refine ⟨hout, ?_⟩
  rw [hs', ht', hkey, hv]

theorem generateMac_view
    (hs : ((s.generateMac D q payload counter transport).2.view q keyId).key = none ∨
      ((s.generateMac D q payload counter transport).2.view q keyId).key = m)
    (ht : ((t.generateMac D q payload counter transport).2.view q keyId).key = none ∨
      ((t.generateMac D q payload counter transport).2.view q keyId).key = m) :
    (s.generateMac D q payload counter transport).1 =
        (t.generateMac D q payload counter transport).1 ∧
      (s.generateMac D q payload counter transport).2.view q keyId =
        (t.generateMac D q payload counter transport).2.view q keyId := by
  rcases hin : s.macInput q payload counter transport with e | ⟨k, data, macLen⟩
  · have hin' := (macInput_view hv payload counter transport).symm.trans hin
    simp only [generateMac, hin, hin']
    exact ⟨trivial, hv⟩
  · have hin' := (macInput_view hv payload counter transport).symm.trans hin
    obtain ⟨ho₁, hv₁⟩ := generateMac_of_macInput (D := D) hin
    obtain ⟨ho₂, hv₂⟩ := generateMac_of_macInput (D := D) hin'
    obtain ⟨hout, hview⟩ := mac_view ho hv payload counter transport hin hv₁ hv₂ hs ht
    rw [ho₁, ho₂, hout]
    exact ⟨rfl, hview⟩

theorem verifyMac_view
    (hs : ((s.verifyMac D q payload counter mac transport).2.view q keyId).key = none ∨
      ((s.verifyMac D q payload counter mac transport).2.view q keyId).key = m)
    (ht : ((t.verifyMac D q payload counter mac transport).2.view q keyId).key = none ∨
      ((t.verifyMac D q payload counter mac transport).2.view q keyId).key = m) :
    (s.verifyMac D q payload counter mac transport).1 =
        (t.verifyMac D q payload counter mac transport).1 ∧
      (s.verifyMac D q payload counter mac transport).2.view q keyId =
        (t.verifyMac D q payload counter mac transport).2.view q keyId := by
  rcases hin : s.macInput q payload counter transport with e | ⟨k, data, macLen⟩
  · have hin' := (macInput_view hv payload counter transport).symm.trans hin
    simp only [verifyMac, hin, hin']
    exact ⟨trivial, hv⟩
  · have hin' := (macInput_view hv payload counter transport).symm.trans hin
    obtain ⟨ho₁, hv₁⟩ := verifyMac_of_macInput (D := D) hin mac
    obtain ⟨ho₂, hv₂⟩ := verifyMac_of_macInput (D := D) hin' mac
    obtain ⟨hout, hview⟩ := mac_view ho hv payload counter transport hin hv₁ hv₂ hs ht
    rw [ho₁, ho₂, hout]
    exact ⟨rfl, hview⟩

theorem transmitSecured_view
    (hs : ((s.transmitSecured D q payload transport).2.view q keyId).key = none ∨
      ((s.transmitSecured D q payload transport).2.view q keyId).key = m)
    (ht : ((t.transmitSecured D q payload transport).2.view q keyId).key = none ∨
      ((t.transmitSecured D q payload transport).2.view q keyId).key = m) :
    (s.transmitSecured D q payload transport).1 = (t.transmitSecured D q payload transport).1 ∧
      (s.transmitSecured D q payload transport).2.view q keyId =
        (t.transmitSecured D q payload transport).2.view q keyId := by
  revert hs ht
  unfold transmitSecured
  rw [← getProfile_view hv]
  cases getProfile s.profiles q with
  | error e => exact fun _ _ => ⟨rfl, hv⟩
  | ok profile =>
    simp only
    split_ifs with hlen
    · exact fun _ _ => ⟨rfl, hv⟩
    · rw [← loadLastValid_view hv]
      cases (loadLastValidFreshness s.nvm q).asInt with
      | error e => exact fun _ _ => ⟨rfl, hv⟩
      | ok L =>
        have h := generateMac_view (D := D) (m := m) ho hv (padded transport payload) (L + 1)
          transport
        revert h
        simp only
        rcases s.generateMac D q (padded transport payload) (L + 1) transport with ⟨rs, s₁⟩
        rcases t.generateMac D q (padded transport payload) (L + 1) transport with ⟨rt, t₁⟩
        intro h hs ht
        obtain ⟨hout, hview⟩ := h (by cases rs <;> exact hs) (by cases rt <;> exact ht)
        cases hout
        cases rs <;> exact ⟨rfl, hview⟩

theorem receiveSecured_view (frame : Bytes)
    (hs : ((s.receiveSecured D q frame transport).2.view q keyId).key = none ∨
      ((s.receiveSecured D q frame transport).2.view q keyId).key = m)
    (ht : ((t.receiveSecured D q frame transport).2.view q keyId).key = none ∨
      ((t.receiveSecured D q frame transport).2.view q keyId).key = m) :
    (s.receiveSecured D q frame transport).1 = (t.receiveSecured D q frame transport).1 ∧
      (s.receiveSecured D q frame transport).2.view q keyId =
        (t.receiveSecured D q frame transport).2.view q keyId := by
  rcases hp : getProfile s.profiles q with e | profile
  · have hp' := (getProfile_view hv).symm.trans hp
    simp only [receiveSecured, hp, hp']
    exact ⟨trivial, hv⟩
  have hp' := (getProfile_view hv).symm.trans hp
  rcases hparse : PduManager.parseSecuredPdu frame profile transport with e | ⟨payload, wire, mac⟩
  · simp only [receiveSecured, hp, hp', hparse]
    cases e <;> first | exact ⟨rfl, hv⟩ | exact ⟨rfl, reject_view hv _⟩
  rcases hfresh : s.freshnessManager.validateFreshness s.nvm q wire with e | ⟨_ | _, counter⟩
  · have hfresh' := (validateFreshness_view hv wire).symm.trans hfresh
    simp only [receiveSecured, hp, hp', hparse, hfresh, hfresh']
    exact ⟨trivial, hv⟩
  · have hfresh' := (validateFreshness_view hv wire).symm.trans hfresh
    simp only [receiveSecured, hp, hp', hparse, hfresh, hfresh']
    exact ⟨rfl, reject_view hv _⟩
  · have hfresh' := (validateFreshness_view hv wire).symm.trans hfresh
    rw [receiveSecured_eq_conclude hp hparse hfresh] at hs ⊢
    rw [receiveSecured_eq_conclude hp' hparse hfresh'] at ht ⊢
    rw [conclude_key] at hs ht
    obtain ⟨hout, hview⟩ := verifyMac_view ho hv payload counter mac transport hs ht
    exact conclude_view hout hview frame payload counter

end Congruence

theorem call_view {m : Option KeyMaterial} (ho : OwnsKey q keyId s)
    (hv : s.view q keyId = t.view q keyId) {c : Call} (hq : c.pduId = q)
    (hs : ((s.call D c).2.view q keyId).key = none ∨ ((s.call D c).2.view q keyId).key = m)
    (ht : ((t.call D c).2.view q keyId).key = none ∨ ((t.call D c).2.view q keyId).key = m) :
    (s.call D c).1 = (t.call D c).1 ∧
      (s.call D c).2.view q keyId = (t.call D c).2.view q keyId := by
  subst hq
  cases c with
  | transmit p payload transport =>
    obtain ⟨hout, hview⟩ := transmitSecured_view ho hv payload transport hs ht
    exact ⟨congrArg Outcome.transmitted hout, hview⟩
  | receive p frame transport =>
    obtain ⟨hout, hview⟩ := receiveSecured_view ho hv transport frame hs ht
    exact ⟨congrArg Outcome.received hout, hview⟩

/-! Runs. -/

def sees (q : String) (c : Call) : Bool := c.pduId == q

theorem unwinds (D : Digests) (q keyId : String) (m : Option KeyMaterial) :
    (machine D).Unwinds (sees q)
      (fun s => (s.view q keyId).key = none ∨ (s.view q keyId).key = m)
      (fun s t => OwnsKey q keyId s ∧ OwnsKey q keyId t ∧ s.view q keyId = t.view q keyId) where
  left := by
    rintro s t c hc ⟨hs, ht, hv⟩ -
    have hview := view_call (D := D) hs (beq_eq_false_iff_ne.mp hc)
    exact ⟨hs.extends (call_extends s c), ht, hview.trans hv⟩
  right := by
    rintro s t c hc ⟨hs, ht, hv⟩ -
    have hview := view_call (D := D) ht (beq_eq_false_iff_ne.mp hc)
    exact ⟨hs, ht.extends (call_extends t c), hv.trans hview.symm⟩
  both := by
    rintro s t c hc ⟨hs, ht, hv⟩ hGs hGt
    obtain ⟨hout, hview⟩ := call_view hs hv (beq_iff_eq.mp hc) hGs hGt
    exact ⟨hout, hs.extends (call_extends s c), ht.extends (call_extends t c), hview⟩

theorem within_key (D : Digests) (q keyId : String) (s : Stack) (calls : List Call) :
    (machine D).Within (fun s' => (s'.view q keyId).key = none ∨
      (s'.view q keyId).key = ((s.run D calls).view q keyId).key) s calls := by
  -- a key that a run ends with was there throughout, or was not there yet
  refine Mealy.within_of_rel Extends.refl Extends.trans call_extends fun s' hx => ?_
  rcases hx.keys keyId with h | ⟨h, -⟩
  · exact Or.inr h.symm
  · exact Or.inl h

def elsewhere (s : Stack) (urandom : Nat → Bytes) (overBudget : Nat → Bool) : Stack :=
  { s with csm := { s.csm with hsm := { s.csm.hsm with urandom := urandom } }
           authenticator := { s.authenticator with overBudget := overBudget } }

/-- **Isolation.** Two runs with the same calls on a PDU whose key id is its own, and which end
with the same key for it, give the same results on these calls and leave the same state of the
PDU, whatever they call on other PDUs. -/
theorem pdu_isolated (D : Digests) {s₀ : Stack} (urandom : Nat → Bytes) (overBudget : Nat → Bool)
    {q keyId : String} (ho : OwnsKey q keyId s₀) (calls calls' : List Call)
    (hcalls : calls.filter (sees q) = calls'.filter (sees q))
    (hkey : (s₀.run D calls).csm.hsm.keyStore.get? keyId =
      ((s₀.elsewhere urandom overBudget).run D calls').csm.hsm.keyStore.get? keyId) :
    let s := s₀.run D calls
    let t := (s₀.elsewhere urandom overBudget).run D calls'
    (machine D).visibleOutputs (sees q) s₀ calls =
        (machine D).visibleOutputs (sees q) (s₀.elsewhere urandom overBudget) calls' ∧
      lastValid s.nvm q = lastValid t.nvm q ∧
      s.nvm.read (windowKey q) = t.nvm.read (windowKey q) ∧
      KeyStorage.getKeyMetadata s.nvm q = KeyStorage.getKeyMetadata t.nvm q ∧
      s.escalation.counts.get? q = t.escalation.counts.get? q := by
  intro s t
  have hs := within_key D q keyId s₀ calls
  have ht := within_key D q keyId (s₀.elsewhere urandom overBudget) calls'
  have hsame : (t.view q keyId).key = (s.view q keyId).key := hkey.symm
  rw [hsame] at ht
  have ho' : OwnsKey q keyId (s₀.elsewhere urandom overBudget) := ⟨ho.own, ho.foreign⟩
  obtain ⟨hout, -, -, hv⟩ :=
    (unwinds D q keyId (s.view q keyId).key).agree ⟨ho, ho', rfl⟩ hs ht hcalls
  have hwindow : s.nvm.store.get? (windowKey q) = t.nvm.store.get? (windowKey q) :=
    congrArg View.window hv
  have hmeta : s.nvm.store.get? (KeyStorage.nvmKey q) = t.nvm.store.get? (KeyStorage.nvmKey q) :=
    congrArg View.metadata hv
  refine ⟨hout, ?_, ?_, ?_, congrArg View.count hv⟩
  · rw [lastValid, lastValid, loadLastValid_view hv]
  · exact NvM.read_congr hwindow _
  · rw [KeyStorage.getKeyMetadata, KeyStorage.getKeyMetadata, NvM.read_congr hmeta]

theorem shipped_ownsKey (urandom : Nat → Bytes) :
    OwnsKey "PDU_0x100" "secoc_mac_key_PDU_0x100" (shipped urandom) where
  own := by
    intro profile k _ hr
    exact (Except.ok.inj hr).symm
  foreign := by
    intro p profile hp hget hr
    rcases shipped_pduId hget with rfl | rfl | rfl
    · exact absurd (Except.ok.inj hr) (by decide)
    · exact hp rfl
    · exact absurd (Except.ok.inj hr) (by decide)

theorem shipped_pdu_isolated :
    let s := (shipped (toBytesBE 32)).run .standard [.receive "PDU_0x200" [1] .canFd,
      .transmit "PDU_0x100" [7] .canFd, .receive "PDU_0x100" [2] .classicCan]
    let t := ((shipped (toBytesBE 32)).elsewhere (toBytesBE 33) fun _ => true).run .standard
      [.transmit "PDU_0x100" [7] .canFd, .receive "PDU_0x100" [2] .classicCan]
    lastValid s.nvm "PDU_0x100" = lastValid t.nvm "PDU_0x100" ∧
      s.escalation.counts.get? "PDU_0x100" = t.escalation.counts.get? "PDU_0x100" := by
  intro s t
  have hs : s.csm.hsm.keyStore.get? "secoc_mac_key_PDU_0x100" =
      some (.symmetric (toBytesBE 32 1)) :=
    (run_extends (shipped (toBytesBE 32)) _).key_persists rfl
  have ht : t.csm.hsm.keyStore.get? "secoc_mac_key_PDU_0x100" =
      some (.symmetric (toBytesBE 32 1)) :=
    (run_extends ((shipped (toBytesBE 32)).elsewhere _ _) _).key_persists rfl
  obtain ⟨-, hL, -, -, hcount⟩ := pdu_isolated .standard (toBytesBE 33) (fun _ => true)
    (shipped_ownsKey (toBytesBE 32)) _ _ rfl (hs.trans ht.symm)
  exact ⟨hL, hcount⟩

end Stack
end SecOC
