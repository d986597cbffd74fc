import SecOC.Sim.Attacks
import SecOC.Sim.SecureBoot
import SecOC.Sim.Stack

/-! The long-lived state behind the HTTP interface: one stack, what its attack simulators have
captured, the configuration file, and the verdict of the boot check. -/

namespace SecOC
open Py

structure AppState where
  stack : Stack
  captured : Captured
  configFile : ConfigFile
  boot : SecureBoot.Status

/-- What the application finds when it starts: the NvM file, the configuration file, the random
source, and the environment's choices of which flushes and MAC computations go wrong. -/
structure Environment where
  nvmFile : Option (Dict String Value)
  diskFault : Bool
  configFile : ConfigFile
  urandom : Nat → Bytes
  overBudget : Nat → Bool

namespace ConfigFile

def load (f : ConfigFile) : Except PyError Profiles :=
  match f.content with
  | .missing => .error .osError
  | .malformed => .error (.valueError "malformed JSON")
  | .json raw => reload raw

end ConfigFile

namespace AppState

/-- `AppState.__init__`; an error on the way leaves no application. -/
def init (D : Digests) (env : Environment) : Except PyError AppState := do
  let nvm := { NvM.load env.nvmFile with diskFault := env.diskFault }
  let profiles ← env.configFile.load
  let keys := profiles.items.map fun e => (e.1, e.2.keyId)
  let (provisioned, hsm, nvm) := KeyManager.provisionKeys keys (HSM.new env.urandom) nvm
  provisioned
  let goldenHash ← hsm.sha256 D SecureBoot.currentSnapshot
  let (provisioned, nvm) :=
    SecureBoot.provisionGoldenHashes goldenHash (SecureBoot.components.map Prod.snd) nvm
  provisioned
  -- the verdict goes into the status and nowhere else
  let (boot, dem) ← SecureBoot.verifyBootIntegrity D hsm nvm .empty
  let stack := Stack.wired profiles hsm nvm env.overBudget
  return { stack := { stack with escalation := .initial dem }
           captured := Dict.empty
           configFile := env.configFile
           boot := boot }

def resetEcu (a : AppState) : AppState :=
  { a with stack := { a.stack with escalation := a.stack.escalation.resetEcu } }

structure Status where
  ecuState : String
  lockedOut : Bool
  bootStatus : SecureBoot.Status
  deriving DecidableEq, Repr

def getStatus (a : AppState) : Status :=
  { ecuState := a.stack.escalation.ecuState.value, lockedOut := a.stack.escalation.lockedOut
    bootStatus := a.boot }

variable {D : Digests} {env : Environment} {a : AppState}

theorem init_eq_ok (h : init D env = .ok a) : ∃ profiles hsm nvm nvm' dem,
    KeyManager.provisionKeys (profiles.items.map fun e => (e.1, e.2.keyId)) (HSM.new env.urandom)
      { NvM.load env.nvmFile with diskFault := env.diskFault } = (.ok (), hsm, nvm) ∧
    SecureBoot.provisionGoldenHashes (D.sha256 SecureBoot.currentSnapshot)
      (SecureBoot.components.map Prod.snd) nvm = (.ok (), nvm') ∧
    SecureBoot.verifyBootIntegrity D hsm nvm' .empty = .ok (a.boot, dem) ∧
    a.stack = { Stack.wired profiles hsm nvm' env.overBudget with escalation := .initial dem } := by
  unfold init at h
  obtain ⟨profiles, -, h⟩ := bind_eq_ok.mp h
  simp only at h
  have hmode := (KeyManager.provisionKeys_frame (profiles.items.map fun e => (e.1, e.2.keyId))
    (HSM.new env.urandom) { NvM.load env.nvmFile with diskFault := env.diskFault }).1
  rcases hk : KeyManager.provisionKeys (profiles.items.map fun e => (e.1, e.2.keyId))
    (HSM.new env.urandom) { NvM.load env.nvmFile with diskFault := env.diskFault }
    with ⟨r, hsm, nvm⟩
  rw [hk] at h hmode
  obtain ⟨⟨⟩, rfl, h⟩ := bind_eq_ok.mp h
  have halive : hsm.failMode = false := hmode
  rw [HSM.sha256_eq D halive] at h
  simp only [bind, Except.bind] at h
  rcases hg : SecureBoot.provisionGoldenHashes (D.sha256 SecureBoot.currentSnapshot)
    (SecureBoot.components.map Prod.snd) nvm with ⟨_ | ⟨⟨⟩⟩, nvm'⟩
  · rw [hg] at h
    cases h
  · rw [hg] at h
    simp only at h
    rcases hb : SecureBoot.verifyBootIntegrity D hsm nvm' .empty with _ | ⟨boot, dem⟩
    · rw [hb] at h
      cases h
    · rw [hb] at h
      cases h
      exact ⟨profiles, hsm, nvm, nvm', dem, hk, hg, hb, rfl⟩

theorem init_of {profiles : Profiles} {hsm : HSM} {nvm nvm' : NvM} {boot : SecureBoot.Status}
    {dem : DEM} (hload : env.configFile.load = .ok profiles)
    (hk : KeyManager.provisionKeys (profiles.items.map fun e => (e.1, e.2.keyId))
      (HSM.new env.urandom) { NvM.load env.nvmFile with diskFault := env.diskFault } =
        (.ok (), hsm, nvm))
    (hg : SecureBoot.provisionGoldenHashes (D.sha256 SecureBoot.currentSnapshot)
      (SecureBoot.components.map Prod.snd) nvm = (.ok (), nvm'))
    (hb : SecureBoot.verifyBootIntegrity D hsm nvm' .empty = .ok (boot, dem)) :
    init D env = .ok {
      stack := { Stack.wired profiles hsm nvm' env.overBudget with escalation := .initial dem }
      captured := Dict.empty
      configFile := env.configFile
      boot := boot } := by
  have hmode := (KeyManager.provisionKeys_frame (profiles.items.map fun e => (e.1, e.2.keyId))
    (HSM.new env.urandom) { NvM.load env.nvmFile with diskFault := env.diskFault }).1
  rw [hk] at hmode
  have halive : hsm.failMode = false := hmode
  have hhash := HSM.sha256_eq D halive SecureBoot.currentSnapshot
  simp only [init, hload, hk, hhash, hg, hb, bind, Except.bind, pure, Except.pure]

theorem goldenKey_ne_nvmKey {key : String} (h : key ∈ SecureBoot.components.map Prod.snd)
    (p : String) : key ≠ KeyStorage.nvmKey p := by
  rintro rfl
  have hh : ∀ k ∈ SecureBoot.components.map Prod.snd, k.toList.head? = some 'b' := by decide
  have hp := hh _ h
  simp [KeyStorage.nvmKey] at hp

/-- The NvM file holds a golden hash that is not the hash of the snapshot. -/
def WrongGolden (D : Digests) (env : Environment) : Prop :=
  ∃ key ∈ SecureBoot.components.map Prod.snd, (NvM.load env.nvmFile).read key ≠ .none ∧
    (NvM.load env.nvmFile).read key ≠ .bytes (D.sha256 SecureBoot.currentSnapshot)

theorem init_boot_failed_iff (h : init D env = .ok a) :
    a.boot.bootIntegrityOk = some false ↔ WrongGolden D env := by
  obtain ⟨profiles, hsm, nvm, nvm', dem, hk, hg, hb, -⟩ := init_eq_ok h
  obtain ⟨hmode, hread⟩ := KeyManager.provisionKeys_frame
    (profiles.items.map fun e => (e.1, e.2.keyId)) (HSM.new env.urandom)
    { NvM.load env.nvmFile with diskFault := env.diskFault }
  rw [hk] at hmode hread
  have hafter : ∀ key ∈ SecureBoot.components.map Prod.snd,
      (nvm'.read key ≠ .bytes (D.sha256 SecureBoot.currentSnapshot) ↔
        (NvM.load env.nvmFile).read key ≠ .none ∧
        (NvM.load env.nvmFile).read key ≠ .bytes (D.sha256 SecureBoot.currentSnapshot)) := by
    intro key hkey
    have hsame : nvm.read key = (NvM.load env.nvmFile).read key :=
      hread key .none (goldenKey_ne_nvmKey hkey)
    have hok : (SecureBoot.provisionGoldenHashes (D.sha256 SecureBoot.currentSnapshot)
      (SecureBoot.components.map Prod.snd) nvm).1 = .ok () := by rw [hg]
    rw [← hsame]
    by_cases hnone : nvm.read key = .none
    · have hfill := SecureBoot.provisionGoldenHashes_fill hok hkey hnone
      rw [hg] at hfill
      exact iff_of_false (not_not.mpr hfill) fun hne => hne.1 hnone
    · have hkeep : (SecureBoot.provisionGoldenHashes (D.sha256 SecureBoot.currentSnapshot)
          (SecureBoot.components.map Prod.snd) nvm).2.read key = nvm.read key :=
        SecureBoot.provisionGoldenHashes_read _ _ fun _ => hnone
      rw [hg] at hkeep
      rw [hkeep]
      exact (and_iff_right hnone).symm
  rw [SecureBoot.verifyBootIntegrity_failed_iff hmode hb]
  constructor
  · rintro ⟨c, hc, hne⟩
    have hkey := List.mem_map_of_mem (f := Prod.snd) hc
    exact ⟨c.2, hkey, (hafter c.2 hkey).mp hne⟩
  · rintro ⟨key, hkey, hne⟩
    obtain ⟨c, hc, rfl⟩ := List.mem_map.mp hkey
    exact ⟨c, hc, (hafter c.2 hkey).mpr hne⟩

def shippedEnvironment (urandom : Nat → Bytes) : Environment where
  nvmFile := none
  diskFault := false
  configFile := { content := .json shippedConfig, writeFault := false }
  urandom := urandom
  overBudget := fun _ => false

def shippedApp (D : Digests) (urandom : Nat → Bytes) : AppState where
  stack := { Stack.shipped urandom with
    nvm := (SecureBoot.provisionGoldenHashes (D.sha256 SecureBoot.currentSnapshot)
      (SecureBoot.components.map Prod.snd) (Stack.shipped urandom).nvm).2 }
  captured := Dict.empty
  configFile := { content := .json shippedConfig, writeFault := false }
  boot := { bootIntegrityOk := some true, failedComponent := none }

theorem shippedApp_golden (D : Digests) (urandom : Nat → Bytes) {key : String}
    (h : key ∈ SecureBoot.components.map Prod.snd) :
    (shippedApp D urandom).stack.nvm.read key = .bytes (D.sha256 SecureBoot.currentSnapshot) := by
  simp only [SecureBoot.components, List.map_cons, List.map_nil, List.mem_cons, List.not_mem_nil,
    or_false] at h
  rcases h with rfl | rfl | rfl <;> rfl

theorem init_shipped (D : Digests) (urandom : Nat → Bytes) :
    init D (shippedEnvironment urandom) = .ok (shippedApp D urandom) := by
  have hboot : SecureBoot.verifyBootIntegrity D (Stack.shipped urandom).csm.hsm
      (shippedApp D urandom).stack.nvm .empty =
        .ok ({ bootIntegrityOk := some true, failedComponent := none }, .empty) := by
    have halive : (Stack.shipped urandom).csm.hsm.failMode = false := rfl
    obtain ⟨failure, hfailure, hiff⟩ := SecureBoot.firstFailure_total D
      (shippedApp D urandom).stack.nvm halive SecureBoot.components
    rw [hiff.mpr fun c hc => shippedApp_golden D urandom (List.mem_map_of_mem hc)] at hfailure
    simp only [SecureBoot.verifyBootIntegrity, hfailure, bind, Except.bind, pure, Except.pure]
  exact init_of rfl rfl rfl hboot

end AppState
end SecOC
