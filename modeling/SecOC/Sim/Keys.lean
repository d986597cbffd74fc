import SecOC.Sim.Crypto
import SecOC.Sim.NvM

/-! Key metadata in the NvM, and provisioning, resolution and rotation of logical keys. -/

namespace SecOC
open Py

inductive KeyLifecycleState
  | active
  | retired
  deriving DecidableEq, Repr

namespace KeyLifecycleState

def value : KeyLifecycleState → String
  | .active => "ACTIVE"
  | .retired => "RETIRED"

def ofValue (s : String) : Except PyError KeyLifecycleState :=
  if s = "ACTIVE" then .ok .active
  else if s = "RETIRED" then .ok .retired
  else .error (.valueError s!"'{s}' is not a valid KeyLifecycleState")

theorem ofValue_value (l : KeyLifecycleState) : ofValue l.value = .ok l := by
  cases l <;> rfl

end KeyLifecycleState

structure KeyMetadata where
  pduId : String
  keyId : String
  version : Int
  lifecycleState : KeyLifecycleState
  deriving DecidableEq, Repr

namespace KeyStorage

def nvmKey (pduId : String) : String := "key_meta_" ++ pduId

def record (m : KeyMetadata) : Value :=
  .dict [("pdu_id", .str m.pduId), ("key_id", .str m.keyId), ("version", .int m.version),
    ("lifecycle_state", .str m.lifecycleState.value)]

def saveKeyMetadata (nvm : NvM) (m : KeyMetadata) : Except PyError Unit × NvM :=
  nvm.write (nvmKey m.pduId) (record m)

def ofRecord (r : Value) : Except PyError KeyMetadata := do
  let pduId ← (← r.field "pdu_id").asStr
  let keyId ← (← r.field "key_id").asStr
  let version ← (← r.field "version").asInt
  let lifecycleState ← KeyLifecycleState.ofValue (← (← r.field "lifecycle_state").asStr)
  return { pduId, keyId, version, lifecycleState }

def getKeyMetadata (nvm : NvM) (pduId : String) : Except PyError (Option KeyMetadata) :=
  match nvm.read (nvmKey pduId) with
  | .none => .ok none
  | r => (ofRecord r).map some

theorem ofRecord_record (m : KeyMetadata) : ofRecord (record m) = .ok m := by
  have hpdu : (record m).field "pdu_id" = .ok (.str m.pduId) := rfl
  have hkey : (record m).field "key_id" = .ok (.str m.keyId) := rfl
  have hversion : (record m).field "version" = .ok (.int m.version) := rfl
  have hstate : (record m).field "lifecycle_state" = .ok (.str m.lifecycleState.value) := rfl
  simp only [ofRecord, hpdu, hkey, hversion, hstate, Value.asStr, Value.asInt, bind, Except.bind,
    pure, Except.pure, KeyLifecycleState.ofValue_value]

theorem getKeyMetadata_save (nvm : NvM) (m : KeyMetadata) :
    getKeyMetadata (saveKeyMetadata nvm m).2 m.pduId = .ok (some m) := by
  unfold getKeyMetadata saveKeyMetadata
  rw [NvM.read_write_self]
  change (ofRecord (record m)).map some = _
  rw [ofRecord_record]
  rfl

theorem nvmKey_inj {p q : String} : nvmKey p = nvmKey q ↔ p = q := by
  simp [nvmKey, String.ext_iff]

theorem getKeyMetadata_save_ne (nvm : NvM) (m : KeyMetadata) {pduId : String}
    (h : pduId ≠ m.pduId) :
    getKeyMetadata (saveKeyMetadata nvm m).2 pduId = getKeyMetadata nvm pduId := by
  unfold getKeyMetadata saveKeyMetadata
  rw [NvM.read_write_ne nvm _ _ _ fun he => h (nvmKey_inj.mp he)]

end KeyStorage

namespace KeyManager

def provisionKey (hsm : HSM) (nvm : NvM) (pduId keyId : String) :
    Except PyError KeyMetadata × HSM × NvM :=
  match hsm.generateSymmetricKey keyId with
  | (.error e, hsm) => (.error e, hsm, nvm)
  | (.ok _, hsm) =>
    -- a key provisioned before is replaced, and its version with it
    let metadata := { pduId, keyId, version := 1, lifecycleState := .active }
    match KeyStorage.saveKeyMetadata nvm metadata with
    | (.error e, nvm) => (.error e, hsm, nvm)
    | (.ok _, nvm) => (.ok metadata, hsm, nvm)

def unprovisioned (pduId : String) : PyError :=
  .keyError s!"no key provisioned for pdu_id '{pduId}'"

def resolveKey (nvm : NvM) (pduId : String) : Except PyError String :=
  match KeyStorage.getKeyMetadata nvm pduId with
  | .error e => .error e
  | .ok none => .error (unprovisioned pduId)
  | .ok (some m) => .ok m.keyId

def rotateKey (hsm : HSM) (nvm : NvM) (pduId newKeyId : String) :
    Except PyError KeyMetadata × HSM × NvM :=
  match KeyStorage.getKeyMetadata nvm pduId with
  | .error e => (.error e, hsm, nvm)
  | .ok none => (.error (unprovisioned pduId), hsm, nvm)
  | .ok (some current) => match hsm.generateSymmetricKey newKeyId with
    | (.error e, hsm) => (.error e, hsm, nvm)
    | (.ok _, hsm) =>
      let metadata :=
        { pduId, keyId := newKeyId, version := current.version + 1, lifecycleState := .active }
      match KeyStorage.saveKeyMetadata nvm metadata with
      | (.error e, nvm) => (.error e, hsm, nvm)
      | (.ok _, nvm) => (.ok metadata, hsm, nvm)

theorem saveKeyMetadata_eq (nvm : NvM) (m : KeyMetadata) :
    KeyStorage.saveKeyMetadata nvm m = (if nvm.diskFault then .error .osError else .ok (),
      (KeyStorage.saveKeyMetadata nvm m).2) :=
  Prod.ext (NvM.write_fst _ _ _) rfl

theorem provisionKey_of_available {hsm : HSM} (hf : hsm.failMode = false) (nvm : NvM)
    (pduId keyId : String) :
    provisionKey hsm nvm pduId keyId =
      (if nvm.diskFault then .error .osError
        else .ok { pduId, keyId, version := 1, lifecycleState := .active },
      hsm.storeRandomKey keyId, (KeyStorage.saveKeyMetadata nvm
        { pduId, keyId, version := 1, lifecycleState := .active }).2) := by
  -- a key operation that reaches the NvM: its key is drawn and its record is in memory, also when
  -- the flush fails
  unfold provisionKey
  simp only [HSM.generateSymmetricKey_eq_ite, hf, Bool.false_eq_true, if_false]
  rw [saveKeyMetadata_eq]
  cases nvm.diskFault <;> rfl

theorem rotateKey_of_available {hsm : HSM} (hf : hsm.failMode = false) {nvm : NvM}
    {pduId : String} {current : KeyMetadata}
    (hm : KeyStorage.getKeyMetadata nvm pduId = .ok (some current)) (newKeyId : String) :
    rotateKey hsm nvm pduId newKeyId =
      (if nvm.diskFault then .error .osError
        else .ok { pduId, keyId := newKeyId, version := current.version + 1
                   lifecycleState := .active },
      hsm.storeRandomKey newKeyId, (KeyStorage.saveKeyMetadata nvm
        { pduId, keyId := newKeyId, version := current.version + 1
          lifecycleState := .active }).2) := by
  unfold rotateKey
  simp only [hm, HSM.generateSymmetricKey_eq_ite, hf, Bool.false_eq_true, if_false]
  rw [saveKeyMetadata_eq]
  cases nvm.diskFault <;> rfl

theorem provisionKey_nvm (hsm : HSM) (nvm : NvM) (pduId keyId : String) :
    (provisionKey hsm nvm pduId keyId).2.2 = nvm ∨ ∃ m : KeyMetadata, m.pduId = pduId ∧
      (provisionKey hsm nvm pduId keyId).2.2 = (KeyStorage.saveKeyMetadata nvm m).2 := by
  unfold provisionKey
  split
  · exact Or.inl rfl
  · refine Or.inr ⟨{ pduId, keyId, version := 1, lifecycleState := .active }, rfl, ?_⟩
    simp only
    split <;> next he => rw [he]

theorem rotateKey_nvm (hsm : HSM) (nvm : NvM) (pduId newKeyId : String) :
    (rotateKey hsm nvm pduId newKeyId).2.2 = nvm ∨ ∃ m : KeyMetadata, m.pduId = pduId ∧
      (rotateKey hsm nvm pduId newKeyId).2.2 = (KeyStorage.saveKeyMetadata nvm m).2 := by
  unfold rotateKey
  split
  · exact Or.inl rfl
  · exact Or.inl rfl
  · next current _ =>
    split
    · exact Or.inl rfl
    · refine Or.inr ⟨{ pduId, keyId := newKeyId, version := current.version + 1
                       lifecycleState := .active }, rfl, ?_⟩
      simp only
      split <;> next he => rw [he]

/-- The loop of `AppState._provision_keys` over the PDUs and their key ids: a PDU without key
metadata gets its key, any other error of the lookup ends the loop. -/
def provisionKeys : List (String × String) → HSM → NvM → Except PyError Unit × HSM × NvM
  | [], hsm, nvm => (.ok (), hsm, nvm)
  | (pduId, keyId) :: rest, hsm, nvm =>
    match resolveKey nvm pduId with
    | .ok _ => provisionKeys rest hsm nvm
    | .error (.keyError _) => match provisionKey hsm nvm pduId keyId with
      | (.error e, hsm, nvm) => (.error e, hsm, nvm)
      | (.ok _, hsm, nvm) => provisionKeys rest hsm nvm
    | .error e => (.error e, hsm, nvm)

theorem provisionKey_failMode (hsm : HSM) (nvm : NvM) (pduId keyId : String) :
    (provisionKey hsm nvm pduId keyId).2.1.failMode = hsm.failMode := by
  unfold provisionKey
  rw [HSM.generateSymmetricKey_eq_ite]
  split_ifs
  · rfl
  · simp only
    split <;> rfl

theorem provisionKeys_frame (keys : List (String × String)) (hsm : HSM) (nvm : NvM) :
    (provisionKeys keys hsm nvm).2.1.failMode = hsm.failMode ∧
    ∀ k d, (∀ p, k ≠ KeyStorage.nvmKey p) →
      (provisionKeys keys hsm nvm).2.2.read k d = nvm.read k d := by
  have hread : ∀ (hsm : HSM) (nvm : NvM) (p keyId k : String) (d : Value),
      (∀ p, k ≠ KeyStorage.nvmKey p) →
      (provisionKey hsm nvm p keyId).2.2.read k d = nvm.read k d := by
    intro hsm nvm p keyId k d hk
    rcases provisionKey_nvm hsm nvm p keyId with h | ⟨m, -, h⟩
    · rw [h]
    · rw [h]
      exact NvM.read_write_ne _ _ _ _ (hk m.pduId)
  induction keys generalizing hsm nvm with
  | nil => exact ⟨rfl, fun _ _ _ => rfl⟩
  | cons e rest ih =>
    obtain ⟨p, keyId⟩ := e
    have hmode := provisionKey_failMode hsm nvm p keyId
    have hstep := hread hsm nvm p keyId
    unfold provisionKeys
    split
    · exact ih hsm nvm
    · split
      · next he =>
        rw [he] at hmode hstep
        exact ⟨hmode, hstep⟩
      · next he =>
        rw [he] at hmode hstep
        obtain ⟨hmode', hread'⟩ := ih _ _
        exact ⟨hmode'.trans hmode, fun k d hk => (hread' k d hk).trans (hstep k d hk)⟩
    · exact ⟨rfl, fun _ _ _ => rfl⟩

end KeyManager
end SecOC
