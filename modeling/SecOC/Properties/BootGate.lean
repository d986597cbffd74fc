import SecOC.Properties.SafeState

/-! The verdict of the boot check. It is logged and shown in the status, and nothing else reads
it: no transition leads to the blocked state, and communication goes on. -/

namespace SecOC
open Py

namespace Stack

theorem Op.not_bootBlocked {D : Digests} {s s' : Stack} (h : Op D s s')
    (hs : s.escalation.ecuState ≠ .bootBlocked) : s'.escalation.ecuState ≠ .bootBlocked := by
  cases h with
  | bus bus => exact hs
  | version p version hp => exact hs
  | keys hsm hnvm => exact hs
  | log severity eventId swrRef => exact hs
  | resetEcu => exact fun h => by cases h
  | transmit p b t =>
    rcases isEmpty_or_nonempty (Transmission s p b t) with hT | ⟨⟨T⟩⟩
    · obtain ⟨e, c, n, -, he⟩ := transmitSecured_refused (D := D) hT
      rw [he]
      exact hs
    · rw [T.transmitSecured_eq, T.after_escalation.2.2]
      exact hs
  | receive p b t =>
    rcases isEmpty_or_nonempty (Acceptance D s p b t) with hA | ⟨⟨A⟩⟩
    · rcases receiveSecured_refused hA with ⟨e, c, -, he⟩ | ⟨reason, c, -, -, he⟩
      · rw [he]
        exact hs
      · rw [he]
        have hstate := (s.escalation.reject_log p reason).2
        simp only [reject]
        rw [hstate]
        split_ifs
        · decide
        · exact hs
    · obtain ⟨bus, he⟩ := A.receiveSecured_snd
      rw [he]
      exact hs

end Stack

namespace AppState
open Stack

/-- A blocked boot along a run: the ECU is in the blocked state, and no answer on the way has
accepted or issued a Secured I-PDU. -/
structure Blocked (D : Digests) (a₀ : AppState) (requests : List Request) : Prop where
  state : (a₀.run D requests).stack.escalation.ecuState = .bootBlocked
  refused : ∀ answer ∈ (machine D).outputs a₀ requests, ∀ o ∈ answer.calls, o.Refused

theorem init_normalOperation {D : Digests} {env : Environment} {a₀ : AppState}
    (h : init D env = .ok a₀) : a₀.stack.escalation.ecuState = .normalOperation := by
  obtain ⟨_, _, _, _, _, -, -, -, hstack⟩ := init_eq_ok h
  rw [hstack]
  rfl

/-- With a wrong golden hash in the NvM the check fails, and yet no run of requests finds the
boot blocked, and after every run a request that can be honoured is. -/
theorem boot_failure_not_blocked {D : Digests} {env : Environment} {a₀ : AppState}
    (h : init D env = .ok a₀) (hgolden : WrongGolden D env) (requests : List Request) :
    a₀.boot.bootIntegrityOk = some false ∧ ¬Blocked D a₀ requests ∧
      ∀ r, Honourable D (a₀.run D requests) r → ¬Enforced D (a₀.run D requests) r := by
  have hstate : (a₀.run D requests).stack.escalation.ecuState ≠ .bootBlocked := by
    apply Ops.preserves Op.not_bootBlocked (a₀.run_ops requests)
    rw [init_normalOperation h]
    decide
  refine ⟨(init_boot_failed_iff h).mpr hgolden, fun hblocked => hstate hblocked.state, ?_⟩
  intro r hr henforced
  exact (enforced_iff _ r).mp henforced hr

def tamperedEnvironment (urandom : Nat → Bytes) : Environment :=
  { shippedEnvironment urandom with
    nvmFile := some (Dict.ofItems [("boot_golden_hash_code", .bytes [0])]) }

theorem tampered_wrongGolden (urandom : Nat → Bytes) :
    WrongGolden .standard (tamperedEnvironment urandom) := by
  refine ⟨"boot_golden_hash_code", by decide, ?_, ?_⟩
  · exact fun h => by cases h
  · intro h
    have hlen : (Sha256.hash SecureBoot.currentSnapshot).length = 32 := Sha256.hash_length _
    have hone : [0] = Sha256.hash SecureBoot.currentSnapshot := Value.bytes.inj h
    rw [← hone] at hlen
    cases hlen

theorem init_tampered (D : Digests) (urandom : Nat → Bytes) : ∃ a₀,
    init D (tamperedEnvironment urandom) = .ok a₀ ∧
    Nonempty (Transmission a₀.stack "PDU_0x100" [1, 2, 3, 4] .canFd) := by
  let keys := (Stack.shipped urandom).profiles.items.map fun e => (e.1, e.2.keyId)
  let nvm₀ := NvM.load (tamperedEnvironment urandom).nvmFile
  let provisioned := KeyManager.provisionKeys keys (HSM.new urandom) nvm₀
  let golden := SecureBoot.provisionGoldenHashes (D.sha256 SecureBoot.currentSnapshot)
    (SecureBoot.components.map Prod.snd) provisioned.2.2
  have hkeys : KeyManager.provisionKeys keys (HSM.new urandom) nvm₀ =
      (.ok (), provisioned.2.1, provisioned.2.2) := rfl
  have hgolden : SecureBoot.provisionGoldenHashes (D.sha256 SecureBoot.currentSnapshot)
      (SecureBoot.components.map Prod.snd) provisioned.2.2 = (.ok (), golden.2) := rfl
  have halive : provisioned.2.1.failMode = false := rfl
  obtain ⟨failure, hfailure, -⟩ :=
    SecureBoot.firstFailure_total D golden.2 halive SecureBoot.components
  have hboot : ∃ verdict, SecureBoot.verifyBootIntegrity D provisioned.2.1 golden.2 .empty =
      .ok verdict := by
    unfold SecureBoot.verifyBootIntegrity
    rw [hfailure]
    cases failure <;> exact ⟨_, rfl⟩
  obtain ⟨⟨boot, dem⟩, hboot⟩ := hboot
  have hresolved : KeyManager.resolveKey golden.2 "PDU_0x100" = .ok "secoc_mac_key_PDU_0x100" := by
    have hframe : golden.2.read (KeyStorage.nvmKey "PDU_0x100") =
        provisioned.2.2.read (KeyStorage.nvmKey "PDU_0x100") :=
      SecureBoot.provisionGoldenHashes_read _ _ fun h =>
        absurd rfl (goldenKey_ne_nvmKey h "PDU_0x100")
    rw [KeyManager.resolveKey, KeyStorage.getKeyMetadata, hframe]
    rfl
  have hcounted : FreshnessManager.lastValid golden.2 "PDU_0x100" = .ok 0 := by
    have hkey : FreshnessManager.lastValidKey "PDU_0x100" ∉ SecureBoot.components.map Prod.snd := by
      decide
    have hframe : golden.2.read (FreshnessManager.lastValidKey "PDU_0x100") (.int 0) =
        provisioned.2.2.read (FreshnessManager.lastValidKey "PDU_0x100") (.int 0) :=
      SecureBoot.provisionGoldenHashes_read _ _ fun h => absurd h hkey
    have hframe' : provisioned.2.2.read (FreshnessManager.lastValidKey "PDU_0x100") (.int 0) =
        nvm₀.read (FreshnessManager.lastValidKey "PDU_0x100") (.int 0) :=
      (KeyManager.provisionKeys_frame keys _ _).2 _ _ fun p => (nvmKey_ne_lastValidKey p _).symm
    rw [FreshnessManager.lastValid, FreshnessManager.loadLastValidFreshness, hframe, hframe']
    rfl
  have hstored : provisioned.2.1.macKey "secoc_mac_key_PDU_0x100" = .symmetric (urandom 1) := rfl
  clear_value golden provisioned
  refine ⟨_, init_of rfl hkeys hgolden hboot, ⟨?_⟩⟩
  exact {
    profile := shippedProfile "PDU_0x100"
    keyId := "secoc_mac_key_PDU_0x100"
    key := urandom 1
    freshLen := 2
    macLen := 8
    found := rfl
    lengths := rfl
    resolved := hresolved
    alive := halive
    stored := hstored
    admissible := by decide
    lastValid := 0
    counted := hcounted }

theorem boot_failure_not_blocked_tampered : ∃ a₀ : AppState,
    a₀.boot.bootIntegrityOk = some false ∧
      ¬Blocked .standard a₀ [.transmitSecured "PDU_0x100" "01020304" "CAN_FD",
        .forgeInject "PDU_0x100" "INVALID_MAC", .resetEcu] := by
  obtain ⟨a₀, h, -⟩ := init_tampered .standard (toBytesBE 32)
  obtain ⟨hfailed, hblocked, -⟩ := boot_failure_not_blocked h (tampered_wrongGolden _)
    [.transmitSecured "PDU_0x100" "01020304" "CAN_FD", .forgeInject "PDU_0x100" "INVALID_MAC",
      .resetEcu]
  exact ⟨a₀, hfailed, hblocked⟩

theorem tampered_boot_transmits : ∃ a₀ : AppState,
    init .standard (tamperedEnvironment (toBytesBE 32)) = .ok a₀ ∧
    a₀.boot.bootIntegrityOk = some false ∧
    a₀.stack.escalation.ecuState = .normalOperation ∧
    ¬Enforced .standard a₀ (.transmitSecured "PDU_0x100" "01020304" "CAN_FD") := by
  -- the check fails, the ECU operates normally, and a payload is sent
  obtain ⟨a₀, h, hT⟩ := init_tampered .standard (toBytesBE 32)
  refine ⟨a₀, h, (init_boot_failed_iff h).mpr (tampered_wrongGolden _), init_normalOperation h, ?_⟩
  rw [enforced_iff, not_not]
  exact Or.inl ⟨"PDU_0x100", [1, 2, 3, 4], .canFd, rfl, hT⟩

end AppState
end SecOC
