import SecOC.Sim.Crypto
import SecOC.Sim.Escalation
import SecOC.Sim.NvM

/-! The boot-time integrity check against golden hashes kept in the NvM. -/

namespace SecOC
open Py

namespace SecureBoot

def currentSnapshot : Bytes :=
  ("SECOC_FIRMWARE_SNAPSHOT_V1::code+config+keymeta".toList).map fun c => UInt8.ofNat c.toNat

def components : List (String × String) :=
  [("code", "boot_golden_hash_code"), ("config", "boot_golden_hash_config"),
    ("keys", "boot_golden_hash_keys")]

structure Status where
  bootIntegrityOk : Option Bool
  failedComponent : Option String
  deriving DecidableEq, Repr

/-- A stored value of another type than bytes equals no hash. -/
def verifyComponent (D : Digests) (hsm : HSM) (nvm : NvM) (goldenHashKey : String) :
    Except PyError Bool := do
  let hash ← hsm.sha256 D currentSnapshot
  match nvm.read goldenHashKey with
  | .bytes golden => return hash == golden
  | _ => return false

/-- The loop of `verify_boot_integrity`: the first component that fails ends it. -/
def firstFailure (D : Digests) (hsm : HSM) (nvm : NvM) :
    List (String × String) → Except PyError (Option String)
  | [] => .ok none
  | (component, goldenHashKey) :: rest => do
    if ← verifyComponent D hsm nvm goldenHashKey then firstFailure D hsm nvm rest
    else return some component

def verifyBootIntegrity (D : Digests) (hsm : HSM) (nvm : NvM) (dem : DEM) :
    Except PyError (Status × DEM) := do
  match ← firstFailure D hsm nvm components with
  | some component => return ({ bootIntegrityOk := some false, failedComponent := some component },
      EventLogger.log dem .critical "BOOT_INTEGRITY_FAIL" "SR-19")
  | none => return ({ bootIntegrityOk := some true, failedComponent := none }, dem)

def provisionGoldenHashes (goldenHash : Bytes) : List String → NvM → Except PyError Unit × NvM
  | [], nvm => (.ok (), nvm)
  | key :: rest, nvm => match nvm.read key with
    | .none => match nvm.write key (.bytes goldenHash) with
      | (.error e, nvm) => (.error e, nvm)
      | (.ok _, nvm) => provisionGoldenHashes goldenHash rest nvm
    | _ => provisionGoldenHashes goldenHash rest nvm

variable (D : Digests) {hsm : HSM} (nvm : NvM)

theorem verifyComponent_total (h : hsm.failMode = false) (key : String) :
    ∃ ok, verifyComponent D hsm nvm key = .ok ok ∧
      (ok = true ↔ nvm.read key = .bytes (D.sha256 currentSnapshot)) := by
  unfold verifyComponent
  rw [HSM.sha256_eq D h]
  cases hr : nvm.read key with
  | bytes golden =>
    refine ⟨_, rfl, ?_⟩
    rw [beq_iff_eq, Value.bytes.injEq, eq_comm]
  | _ => exact ⟨false, rfl, by simp⟩

theorem firstFailure_total (h : hsm.failMode = false) (components : List (String × String)) :
    ∃ failure, firstFailure D hsm nvm components = .ok failure ∧
      (failure = none ↔ ∀ c ∈ components, nvm.read c.2 = .bytes (D.sha256 currentSnapshot)) := by
  induction components with
  | nil => exact ⟨none, rfl, by simp⟩
  | cons c rest ih =>
    obtain ⟨component, key⟩ := c
    obtain ⟨failure, hfailure, hiff⟩ := ih
    obtain ⟨ok, hok, hread⟩ := verifyComponent_total D nvm h key
    unfold firstFailure
    rw [hok]
    cases ok with
    | true =>
      refine ⟨failure, hfailure, ?_⟩
      rw [hiff, List.forall_mem_cons]
      exact (and_iff_right (hread.mp rfl)).symm
    | false =>
      have hwrong : nvm.read key ≠ .bytes (D.sha256 currentSnapshot) :=
        fun h => Bool.false_ne_true (hread.mpr h)
      refine ⟨some component, rfl, ?_⟩
      rw [List.forall_mem_cons]
      exact iff_of_false (Option.some_ne_none _) fun hall => hwrong hall.1

theorem verifyBootIntegrity_failed_iff {D nvm} (h : hsm.failMode = false) {dem dem' : DEM}
    {status : Status} (hv : verifyBootIntegrity D hsm nvm dem = .ok (status, dem')) :
    status.bootIntegrityOk = some false ↔
      ∃ c ∈ components, nvm.read c.2 ≠ .bytes (D.sha256 currentSnapshot) := by
  obtain ⟨failure, hfailure, hiff⟩ := firstFailure_total D nvm h components
  unfold verifyBootIntegrity at hv
  rw [hfailure] at hv
  have hex : (∃ c ∈ components, nvm.read c.2 ≠ .bytes (D.sha256 currentSnapshot)) ↔
      failure ≠ none := by
    rw [ne_eq, hiff, not_forall]
    simp only [not_forall, exists_prop, ne_eq]
  rw [hex]
  cases failure with
  | none =>
    cases hv
    simp
  | some component =>
    cases hv
    simp

theorem provisionGoldenHashes_read (goldenHash : Bytes) {keys : List String} {nvm : NvM}
    {key : String} (d : Value) (hkey : key ∈ keys → nvm.read key ≠ .none) :
    (provisionGoldenHashes goldenHash keys nvm).2.read key d = nvm.read key d := by
  induction keys generalizing nvm with
  | nil => rfl
  | cons k rest ih =>
    have hrest : key ∈ rest → nvm.read key ≠ .none :=
      fun h => hkey (List.mem_cons_of_mem k h)
    unfold provisionGoldenHashes
    split
    · next hk =>
      have hne : key ≠ k := by
        rintro rfl
        exact hkey List.mem_cons_self hk
      have hwrite := fun d => NvM.read_write_ne nvm k (.bytes goldenHash) d hne
      split
      · next he =>
        rw [he] at hwrite
        exact hwrite d
      · next nvm' he =>
        rw [he] at hwrite
        rw [ih fun h => (hwrite .none).symm ▸ hrest h]
        exact hwrite d
    · exact ih hrest

theorem provisionGoldenHashes_fill {goldenHash : Bytes} {keys : List String} {nvm : NvM}
    (h : (provisionGoldenHashes goldenHash keys nvm).1 = .ok ()) {key : String}
    (hkey : key ∈ keys) (hnone : nvm.read key = .none) :
    (provisionGoldenHashes goldenHash keys nvm).2.read key = .bytes goldenHash := by
  induction keys generalizing nvm with
  | nil => cases hkey
  | cons k rest ih =>
    unfold provisionGoldenHashes at h ⊢
    split
    · next hk =>
      rw [hk] at h
      simp only at h
      have hself := nvm.read_write_self k (.bytes goldenHash) .none
      have hother := fun hne => NvM.read_write_ne nvm k (.bytes goldenHash) .none (k := key) hne
      split
      · next he =>
        rw [he] at h
        cases h
      · next he =>
        rw [he] at h hself hother
        by_cases hkk : key = k
        · subst hkk
          rw [← hself]
          apply provisionGoldenHashes_read
          intro _ h0
          rw [hself] at h0
          cases h0
        · exact ih h ((List.mem_cons.mp hkey).resolve_left hkk) ((hother hkk).trans hnone)
    · next hk =>
      have hkk : key ≠ k := by
        rintro rfl
        exact hk hnone
      split at h
      · next hk' => exact absurd hk' hk
      · exact ih h ((List.mem_cons.mp hkey).resolve_left hkk) hnone

end SecureBoot
end SecOC
