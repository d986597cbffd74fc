import SecOC.Api.Effects

/-! The machine the application runs on. It may be restarted at any time; what the application then
finds are the NvM file and the configuration file as they were left. -/

namespace SecOC
open Py

structure Disk where
  nvmFile : Option (Dict String Value)
  nvmFault : Bool
  configFile : ConfigFile

def Disk.shipped : Disk where
  nvmFile := none
  nvmFault := true
  configFile := { content := .json shippedConfig, writeFault := false }

inductive Device
  | running (app : AppState)
  | off (disk : Disk)

inductive DeviceOp
  | request (r : Request)
  | restart (urandom : Nat → Bytes) (overBudget : Nat → Bool)
  /-- The NvM file can no longer be written, or can again. -/
  | nvmFault (fault : Bool)
  /-- Somebody replaces the configuration file. -/
  | configure (configFile : ConfigFile)

inductive DeviceEvent
  | answered (answer : Answer)
  | unanswered
  | restarted (returned : Except PyError Unit)
  | changed

namespace AppState
variable (D : Digests) (env : Environment)

/-- The NvM when `AppState.__init__` has come to its end, or raised on the way. -/
def initNvm : NvM :=
  let nvm := { NvM.load env.nvmFile with diskFault := env.diskFault }
  match env.configFile.load with
  | .error _ => nvm
  | .ok profiles =>
    let keys := profiles.items.map fun e => (e.1, e.2.keyId)
    match KeyManager.provisionKeys keys (HSM.new env.urandom) nvm with
    | (.error _, _, nvm) => nvm
    | (.ok _, hsm, nvm) => match hsm.sha256 D SecureBoot.currentSnapshot with
      | .error _ => nvm
      | .ok goldenHash => (SecureBoot.provisionGoldenHashes goldenHash
          (SecureBoot.components.map Prod.snd) nvm).2

variable {D env}

theorem init_files {a : AppState} (h : init D env = .ok a) : a.stack.nvm = initNvm D env ∧
    a.configFile = env.configFile ∧ env.configFile.load = .ok a.stack.profiles := by
  unfold init at h
  unfold initNvm
  obtain ⟨profiles, hload, h⟩ := bind_eq_ok.mp h
  simp only at h
  rcases hk : KeyManager.provisionKeys (profiles.items.map fun e => (e.1, e.2.keyId))
    (HSM.new env.urandom) { NvM.load env.nvmFile with diskFault := env.diskFault }
    with ⟨r, hsm, nvm⟩
  rw [hk] at h
  obtain ⟨⟨⟩, rfl, h⟩ := bind_eq_ok.mp h
  obtain ⟨goldenHash, hhash, h⟩ := bind_eq_ok.mp h
  simp only [hload, hk, hhash]
  rcases hg : SecureBoot.provisionGoldenHashes goldenHash
    (SecureBoot.components.map Prod.snd) nvm with ⟨r, nvm'⟩
  rw [hg] at h
  obtain ⟨⟨⟩, rfl, h⟩ := bind_eq_ok.mp h
  obtain ⟨⟨boot, dem⟩, -, h⟩ := bind_eq_ok.mp h
  cases h
  exact ⟨rfl, rfl, rfl⟩

end AppState

namespace Device

def disk : Device → Disk
  | running app => { nvmFile := app.stack.nvm.file, nvmFault := app.stack.nvm.diskFault
                     configFile := app.configFile }
  | off disk => disk

def environment (d : Device) (urandom : Nat → Bytes) (overBudget : Nat → Bool) : Environment where
  nvmFile := d.disk.nvmFile
  diskFault := d.disk.nvmFault
  configFile := d.disk.configFile
  urandom := urandom
  overBudget := overBudget

variable (D : Digests) (d : Device)

def restart (urandom : Nat → Bytes) (overBudget : Nat → Bool) : DeviceEvent × Device :=
  let env := d.environment urandom overBudget
  match AppState.init D env with
  | .ok app => (.restarted (.ok ()), running app)
  | .error e => (.restarted (.error e),
      off { d.disk with nvmFile := (AppState.initNvm D env).file })

def request (r : Request) : DeviceEvent × Device :=
  match d with
  | running app => (.answered (app.request D r).1, running (app.request D r).2)
  | off disk => (.unanswered, off disk)

def setNvmFault (fault : Bool) : Device :=
  match d with
  | running app => running { app with
      stack := { app.stack with nvm := { app.stack.nvm with diskFault := fault } } }
  | off disk => off { disk with nvmFault := fault }

def configure (configFile : ConfigFile) : Device :=
  match d with
  | running app => running { app with configFile := configFile }
  | off disk => off { disk with configFile := configFile }

def step : DeviceOp → DeviceEvent × Device
  | .request r => d.request D r
  | .restart urandom overBudget => d.restart D urandom overBudget
  | .nvmFault fault => (.changed, d.setNvmFault fault)
  | .configure configFile => (.changed, d.configure configFile)

def machine : Mealy Device DeviceOp DeviceEvent := { step := fun d op => d.step D op }

end Device

end SecOC
