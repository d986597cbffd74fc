import SecOC.Lib.Runs
import SecOC.Sim.StackSpec

/-! Runs of transmit and receive calls on one stack, and what no call changes. -/

namespace SecOC
open Py FreshnessManager

inductive Call
  | transmit (pduId : String) (payload : Bytes) (transport : Transport)
  | receive (pduId : String) (securedPdu : Bytes) (transport : Transport)
  deriving DecidableEq, Repr

def Call.pduId : Call → String
  | .transmit p _ _ => p
  | .receive p _ _ => p

inductive Outcome
  | transmitted (r : Except PyError Bytes)
  | received (r : Except PyError (Option Bytes))

namespace Stack

def call (D : Digests) (s : Stack) : Call → Outcome × Stack
  | .transmit p payload t =>
    (.transmitted (s.transmitSecured D p payload t).1, (s.transmitSecured D p payload t).2)
  | .receive p frame t =>
    (.received (s.receiveSecured D p frame t).1, (s.receiveSecured D p frame t).2)

def machine (D : Digests) : Mealy Stack Call Outcome := { step := fun s c => s.call D c }

abbrev run (D : Digests) (s : Stack) (calls : List Call) : Stack := (machine D).exec s calls

theorem run_cons (D : Digests) (s : Stack) (c : Call) (calls : List Call) :
    s.run D (c :: calls) = (s.call D c).2.run D calls := rfl

theorem run_append (D : Digests) (s : Stack) (calls calls' : List Call) :
    s.run D (calls ++ calls') = (s.run D calls).run D calls' :=
  (machine D).exec_append s calls calls'

/-- What a run keeps: profiles, wiring, faults of the environment and key metadata. Keys are
only ever added, and counters only grow. -/
structure Extends (s s' : Stack) : Prop where
  profiles : s'.profiles = s.profiles
  freshnessManager : s'.freshnessManager = s.freshnessManager
  keyManager : s'.authenticator.keyManager = s.authenticator.keyManager
  diskFault : s'.nvm.diskFault = s.nvm.diskFault
  failMode : s'.csm.hsm.failMode = s.csm.hsm.failMode
  keys : ∀ k, s'.csm.hsm.keyStore.get? k = s.csm.hsm.keyStore.get? k ∨
    (s.csm.hsm.keyStore.get? k = none ∧
      ∃ key, s'.csm.hsm.keyStore.get? k = some (.symmetric key))
  metadata : ∀ p, s'.nvm.read (KeyStorage.nvmKey p) = s.nvm.read (KeyStorage.nvmKey p)
  counters : ∀ p L, lastValid s.nvm p = .ok L → ∃ L', lastValid s'.nvm p = .ok L' ∧ L ≤ L'

namespace Extends
variable {s s' s'' : Stack}

theorem refl (s : Stack) : Extends s s where
  profiles := rfl
  freshnessManager := rfl
  keyManager := rfl
  diskFault := rfl
  failMode := rfl
  keys _ := Or.inl rfl
  metadata _ := rfl
  counters _ L h := ⟨L, h, le_rfl⟩

theorem trans (h : Extends s s') (h' : Extends s' s'') : Extends s s'' where
  profiles := h'.profiles.trans h.profiles
  freshnessManager := h'.freshnessManager.trans h.freshnessManager
  keyManager := h'.keyManager.trans h.keyManager
  diskFault := h'.diskFault.trans h.diskFault
  failMode := h'.failMode.trans h.failMode
  keys k := by
    rcases h'.keys k with h2 | ⟨h2, key, hk⟩
    · rw [h2]
      exact h.keys k
    · rcases h.keys k with h1 | ⟨h1, -⟩
      · exact Or.inr ⟨h1 ▸ h2, key, hk⟩
      · exact Or.inr ⟨h1, key, hk⟩
  metadata p := (h'.metadata p).trans (h.metadata p)
  counters p L hL := by
    obtain ⟨L', hL', hle⟩ := h.counters p L hL
    obtain ⟨L'', hL'', hle'⟩ := h'.counters p L' hL'
    exact ⟨L'', hL'', hle.trans hle'⟩

theorem key_persists (h : Extends s s') {k : String} {m : KeyMaterial}
    (hm : s.csm.hsm.keyStore.get? k = some m) : s'.csm.hsm.keyStore.get? k = some m := by
  rcases h.keys k with hk | ⟨hk, -⟩
  · rw [hk, hm]
  · rw [hm] at hk
    cases hk

theorem resolveKeyId_eq (h : Extends s s') (pduId : String) (profile : SecurityProfileEntry) :
    s'.resolveKeyId pduId profile = s.resolveKeyId pduId profile := by
  unfold resolveKeyId KeyManager.resolveKey KeyStorage.getKeyMetadata
  rw [h.keyManager, h.metadata]

theorem macKey_symmetric (h : Extends s s') {keyId : String} {key : Bytes}
    (hk : s.csm.hsm.macKey keyId = .symmetric key) :
    ∃ key', s'.csm.hsm.macKey keyId = .symmetric key' ∧
      (s.csm.hsm.keyStore.get? keyId ≠ none → key' = key) := by
  unfold HSM.macKey at *
  rcases h.keys keyId with he | ⟨hn, key', hk'⟩
  · rw [he]
    cases hs : s.csm.hsm.keyStore.get? keyId with
    | none => exact ⟨_, rfl, fun hne => absurd rfl hne⟩
    | some m =>
      rw [hs, Option.getD_some] at hk
      exact ⟨key, hk, fun _ => rfl⟩
  · refine ⟨key', ?_, fun hne => absurd hn hne⟩
    rw [hk', Option.getD_some]

theorem hsm_keys {s : Stack} {pduId : String} {c : CSM} (h : s.CsmAfter pduId c) (k : String) :
    c.hsm.keyStore.get? k = s.csm.hsm.keyStore.get? k ∨ (s.csm.hsm.keyStore.get? k = none ∧
      ∃ key, c.hsm.keyStore.get? k = some (.symmetric key)) := by
  rcases h with h | ⟨_, keyId, -, -, h⟩
  · rw [h]
    exact Or.inl rfl
  · rw [h, HSM.afterMac]
    split
    · next hn =>
      by_cases hk : k = keyId
      · subst hk
        exact Or.inr ⟨hn, _, Dict.get?_set_self _ _ _⟩
      · exact Or.inl (Dict.get?_set_ne _ _ hk)
    · exact Or.inl rfl

theorem hsm_failMode {s : Stack} {pduId : String} {c : CSM} (h : s.CsmAfter pduId c) :
    c.hsm.failMode = s.csm.hsm.failMode := by
  rcases h with h | ⟨_, keyId, -, -, h⟩
  · rw [h]
  · rw [h, HSM.afterMac_failMode]

end Extends

namespace MacReady
variable {s s' : Stack} {pduId : String} {transport : Transport}

def transfer (R : MacReady s pduId transport) (h : Extends s s') {key : Bytes}
    (hk : s'.csm.hsm.macKey R.keyId = .symmetric key) : MacReady s' pduId transport where
  profile := R.profile
  keyId := R.keyId
  key := key
  freshLen := R.freshLen
  macLen := R.macLen
  found := by rw [h.profiles, R.found]
  lengths := R.lengths
  resolved := by rw [h.resolveKeyId_eq, R.resolved]
  alive := by rw [h.failMode, R.alive]
  stored := hk

def transferStored (R : MacReady s pduId transport) (h : Extends s s') (key : Bytes)
    (hk : s'.csm.hsm.keyStore.get? R.keyId = some (.symmetric key)) :
    MacReady s' pduId transport :=
  R.transfer h (by rw [HSM.macKey, hk, Option.getD_some])

theorem exists_transfer (R : MacReady s pduId transport) (h : Extends s s') :
    ∃ R' : MacReady s' pduId transport, R'.profile = R.profile ∧ R'.keyId = R.keyId ∧
      R'.freshLen = R.freshLen ∧ R'.macLen = R.macLen ∧
      (s.csm.hsm.keyStore.get? R.keyId ≠ none → R'.key = R.key) := by
  obtain ⟨key, hk, hkey⟩ := h.macKey_symmetric R.stored
  exact ⟨R.transfer h hk, rfl, rfl, rfl, rfl, hkey⟩

theorem key_eq (R : MacReady s' pduId transport) (h : Extends s s') {keyId : String} {key : Bytes}
    (hr : s.resolveKeyId pduId R.profile = .ok keyId)
    (hk : s.csm.hsm.keyStore.get? keyId = some (.symmetric key)) : R.key = key := by
  have hid : keyId = R.keyId := by
    have hr' := R.resolved
    rw [h.resolveKeyId_eq, hr] at hr'
    exact Except.ok.inj hr'
  have hstored := R.stored
  rw [HSM.macKey, ← hid, h.key_persists hk, Option.getD_some] at hstored
  exact (KeyMaterial.symmetric.inj hstored).symm

theorem profile_eq {transport' : Transport} (R : MacReady s pduId transport)
    (R' : MacReady s pduId transport') : R.profile = R'.profile := R.profile_of R'.found

theorem keyId_eq {transport' : Transport} (R : MacReady s pduId transport)
    (R' : MacReady s pduId transport') : R.keyId = R'.keyId := by
  have h := R.resolved
  rw [R.profile_eq R', R'.resolved] at h
  exact (Except.ok.inj h).symm

end MacReady

theorem nvmKey_ne_lastValidKey (p q : String) : KeyStorage.nvmKey p ≠ lastValidKey q := by
  intro h
  have hh := congrArg (fun s => s.toList.head?) h
  simp [KeyStorage.nvmKey, lastValidKey] at hh

theorem nvmKey_ne_windowKey (p q : String) : KeyStorage.nvmKey p ≠ windowKey q := by
  intro h
  have hh := congrArg (fun s => s.toList.head?) h
  simp [KeyStorage.nvmKey, windowKey] at hh

variable {D : Digests} {s : Stack}

theorem extends_of_nvm_eq {s' : Stack} (pduId : String) (hc : s.CsmAfter pduId s'.csm)
    (hp : s'.profiles = s.profiles) (hn : s'.nvm = s.nvm)
    (hf : s'.freshnessManager = s.freshnessManager)
    (hk : s'.authenticator.keyManager = s.authenticator.keyManager) : Extends s s' where
  profiles := hp
  freshnessManager := hf
  keyManager := hk
  diskFault := by rw [hn]
  failMode := Extends.hsm_failMode hc
  keys := Extends.hsm_keys hc
  metadata _ := by rw [hn]
  counters _ L h := by
    refine ⟨L, ?_, le_rfl⟩
    rw [hn, h]

theorem transmitSecured_extends (pduId : String) (payload : Bytes) (transport : Transport) :
    Extends s (s.transmitSecured D pduId payload transport).2 := by
  rcases isEmpty_or_nonempty (Transmission s pduId payload transport) with h | ⟨⟨T⟩⟩
  · obtain ⟨e, c, n, hc, he⟩ := transmitSecured_refused (D := D) h
    rw [he]
    exact extends_of_nvm_eq pduId (Or.inl hc) rfl rfl rfl rfl
  · rw [T.transmitSecured_eq]
    obtain ⟨hp, hn, hf, hc, hk, -⟩ := T.after_fields
    apply extends_of_nvm_eq pduId _ hp hn hf hk
    rw [hc]
    exact T.csmAfter

theorem Acceptance.counter_gt {pduId : String} {frame : Bytes} {transport : Transport}
    (A : Acceptance D s pduId frame transport) :
    ∃ L, lastValid s.nvm pduId = .ok L ∧
      A.counter = Residue.next L A.wire s.freshnessManager.modulus ∧
      L < A.counter ∧ A.counter ≤ L + s.freshnessManager.windowSize :=
  validateFreshness_ok A.fresh

theorem Acceptance.extends_commit {pduId : String} {frame : Bytes} {transport : Transport}
    (A : Acceptance D s pduId frame transport) {bus : CanBus} :
    Extends s { s.verifiedWith A.keyId with
      nvm := (commitFreshness s.nvm pduId A.counter).2, bus := bus } where
  profiles := rfl
  freshnessManager := rfl
  keyManager := rfl
  diskFault := commitFreshness_diskFault _ _ _
  failMode := Extends.hsm_failMode A.csmAfter
  keys := Extends.hsm_keys A.csmAfter
  metadata p := read_commitFreshness _ _ _ _ (nvmKey_ne_lastValidKey p pduId)
    (nvmKey_ne_windowKey p pduId)
  counters p L hL := by
    by_cases hp : p = pduId
    · subst hp
      obtain ⟨L', hL', -, hlt, -⟩ := A.counter_gt
      rw [hL] at hL'
      cases hL'
      exact ⟨A.counter, lastValid_commitFreshness _ _ _, hlt.le⟩
    · exact ⟨L, (lastValid_commitFreshness_ne _ _ hp).trans hL, le_rfl⟩

theorem Acceptance.receiveSecured_snd {pduId : String} {frame : Bytes} {transport : Transport}
    (A : Acceptance D s pduId frame transport) :
    ∃ bus, (s.receiveSecured D pduId frame transport).2 = { s.verifiedWith A.keyId with
      nvm := (commitFreshness s.nvm pduId A.counter).2, bus := bus } := by
  rw [A.receiveSecured_eq]
  split
  · next he =>
    refine ⟨s.bus, ?_⟩
    rw [he]
    rfl
  · next he =>
    refine ⟨s.bus.publish pduId frame, ?_⟩
    rw [he]

theorem Acceptance.lastValid_after {pduId : String} {frame : Bytes} {transport : Transport}
    (A : Acceptance D s pduId frame transport) :
    lastValid (s.receiveSecured D pduId frame transport).2.nvm pduId = .ok A.counter := by
  obtain ⟨bus, h⟩ := A.receiveSecured_snd
  rw [h]
  exact lastValid_commitFreshness _ _ _

theorem Acceptance.parts_eq {s' : Stack} {p : String} {frame : Bytes} {t : Transport}
    (A : Acceptance D s p frame t) (B : Acceptance D s' p frame t)
    (h : s'.profiles = s.profiles) :
    A.payload = B.payload ∧ A.wire = B.wire ∧ A.mac = B.mac ∧ A.freshLen = B.freshLen := by
  have hfound : s'.profiles.get? p = some A.profile := by rw [h, A.found]
  have hp := B.parsed
  rw [B.profile_of hfound, A.parsed] at hp
  obtain ⟨h1, h2⟩ := Prod.mk.inj (Except.ok.inj hp)
  obtain ⟨h3, h4⟩ := Prod.mk.inj h2
  exact ⟨h1, h3, h4, (B.lengths_of hfound A.lengths).1.symm⟩

theorem Acceptance.counter_eq {p : String} {frame : Bytes} {t : Transport}
    (A B : Acceptance D s p frame t) : A.counter = B.counter := by
  obtain ⟨L, hL, hA, -, -⟩ := A.counter_gt
  obtain ⟨L', hL', hB, -, -⟩ := B.counter_gt
  rw [hA, hB, (A.parts_eq B rfl).2.1, lastValid_inj hL hL']

theorem Acceptance.accepted {pduId : String} {frame : Bytes} {transport : Transport}
    (A : Acceptance D s pduId frame transport) (hd : s.nvm.diskFault = false) :
    s.receiveSecured D pduId frame transport = (.ok (some A.payload),
      { s.verifiedWith A.keyId with nvm := (commitFreshness s.nvm pduId A.counter).2
                                    bus := s.bus.publish pduId frame }) := by
  have hok := commitFreshness_ok hd pduId A.counter
  rw [A.receiveSecured_eq]
  split
  · next he =>
    rw [he] at hok
    cases hok
  · next he => rw [he]

theorem Acceptance.of_receiveSecured {pduId : String} {frame payload : Bytes}
    {transport : Transport}
    (h : (s.receiveSecured D pduId frame transport).1 = .ok (some payload)) :
    ∃ A : Acceptance D s pduId frame transport, A.payload = payload := by
  rcases isEmpty_or_nonempty (Acceptance D s pduId frame transport) with hA | ⟨⟨A⟩⟩
  · rcases receiveSecured_refused hA with ⟨e, c, -, he⟩ | ⟨reason, c, -, -, he⟩
    · rw [he] at h
      cases h
    · rw [he] at h
      cases h
  · refine ⟨A, ?_⟩
    rw [A.receiveSecured_eq] at h
    split at h
    · cases h
    · cases h
      rfl

theorem Transmission.of_transmitSecured {pduId : String} {payload frame : Bytes}
    {transport : Transport} {s' : Stack}
    (h : s.transmitSecured D pduId payload transport = (.ok frame, s')) :
    ∃ T : Transmission s pduId payload transport, T.frame D = frame ∧ T.after = s' := by
  rcases isEmpty_or_nonempty (Transmission s pduId payload transport) with hT | ⟨⟨T⟩⟩
  · obtain ⟨e, c, n, -, he⟩ := transmitSecured_refused (D := D) hT
    rw [he] at h
    cases h
  · rw [T.transmitSecured_eq] at h
    cases h
    exact ⟨T, rfl, rfl⟩

theorem Transmission.extends_after {pduId : String} {payload : Bytes} {transport : Transport}
    (T : Transmission s pduId payload transport) : Extends s T.after := by
  have h := transmitSecured_extends (D := .standard) (s := s) pduId payload transport
  rwa [T.transmitSecured_eq] at h

theorem receiveSecured_extends (pduId : String) (frame : Bytes) (transport : Transport) :
    Extends s (s.receiveSecured D pduId frame transport).2 := by
  rcases isEmpty_or_nonempty (Acceptance D s pduId frame transport) with h | ⟨⟨A⟩⟩
  · rcases receiveSecured_refused h with ⟨e, c, hc, he⟩ | ⟨reason, c, hc, -, he⟩
    · rw [he]
      exact extends_of_nvm_eq pduId hc rfl rfl rfl rfl
    · rw [he]
      exact extends_of_nvm_eq pduId hc rfl rfl rfl rfl
  · obtain ⟨bus, he⟩ := A.receiveSecured_snd
    rw [he]
    exact A.extends_commit

theorem call_extends (s : Stack) (c : Call) : Extends s (s.call D c).2 := by
  cases c with
  | transmit p payload t => exact transmitSecured_extends p payload t
  | receive p frame t => exact receiveSecured_extends p frame t

theorem run_extends (s : Stack) (calls : List Call) : Extends s (s.run D calls) :=
  Mealy.exec_rel Extends.refl Extends.trans call_extends s calls

theorem run_transmit {pduId : String} {payload : Bytes} {transport : Transport}
    (T : Transmission s pduId payload transport) (calls : List Call) :
    s.run D (.transmit pduId payload transport :: calls) = T.after.run D calls := by
  rw [run_cons, call, T.transmitSecured_eq]

theorem Transmission.exists_transfer {s' : Stack} {p : String} {a : Bytes} {t : Transport}
    (T : Transmission s p a t) (h : Extends s s') {L : Int}
    (hL : FreshnessManager.lastValid s'.nvm p = .ok L) :
    ∃ T' : Transmission s' p a t, T'.lastValid = L ∧ T'.keyId = T.keyId ∧
      T'.freshLen = T.freshLen ∧ T'.macLen = T.macLen ∧
      (s.csm.hsm.keyStore.get? T.keyId ≠ none → T'.key = T.key) := by
  obtain ⟨R, -, hk, hn, hm, hkey⟩ := T.toMacReady.exists_transfer h
  exact ⟨⟨R, T.admissible, L, hL⟩, rfl, hk, hn, hm, hkey⟩

/-! The shipped stack can compute MACs on both transports. -/

theorem shipped_pduId {urandom : Nat → Bytes} {p : String} {profile : SecurityProfileEntry}
    (h : (shipped urandom).profiles.get? p = some profile) :
    p = "PDU_BRAKE_TORQUE" ∨ p = "PDU_0x100" ∨ p = "PDU_0x200" := by
  have hprofiles : (shipped urandom).profiles = Dict.ofItems
      (["PDU_BRAKE_TORQUE", "PDU_0x100", "PDU_0x200"].map fun p => (p, shippedProfile p)) := rfl
  rw [hprofiles] at h
  simp only [Dict.ofItems, List.map, List.foldl, Dict.get?_set] at h
  split_ifs at h with h2 h1 h0
  · exact Or.inr (Or.inr h2)
  · exact Or.inr (Or.inl h1)
  · exact Or.inl h0
  · cases h

theorem shipped_profile (urandom : Nat → Bytes) :
    (shipped urandom).profiles.get? "PDU_0x100" = some (shippedProfile "PDU_0x100") := rfl

theorem shipped_counted (urandom : Nat → Bytes) :
    lastValid (shipped urandom).nvm "PDU_0x100" = .ok 0 := rfl

def shippedReady (urandom : Nat → Bytes) (t : Transport) :
    MacReady (shipped urandom) "PDU_0x100" t where
  profile := shippedProfile "PDU_0x100"
  keyId := "secoc_mac_key_PDU_0x100"
  key := urandom 1
  freshLen := match t with
    | .classicCan => 1
    | .canFd => 2
  macLen := match t with
    | .classicCan => 3
    | .canFd => 8
  found := shipped_profile urandom
  lengths := by cases t <;> rfl
  resolved := rfl
  alive := rfl
  stored := rfl

def shippedTransmission (urandom : Nat → Bytes) (a : Bytes) (t : Transport)
    (ha : t = .classicCan → a.length ≤ classicCanPayloadBytes) :
    Transmission (shipped urandom) "PDU_0x100" a t where
  toMacReady := shippedReady urandom t
  admissible := ha
  lastValid := 0
  counted := shipped_counted urandom

end Stack
end SecOC
