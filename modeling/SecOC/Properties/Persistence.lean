import SecOC.Api.Device
import SecOC.Properties.Sending

/-! What the NvM holds, in memory and in its file. A property that no write of the application can
end is one of every state the device gets to, restarts and failing flushes included. -/

namespace SecOC
open Py

namespace NvM

structure Holds (P : Dict String Value → Prop) (m : NvM) : Prop where
  store : P m.store
  file : P (m.file.getD Dict.empty)

variable {P : Dict String Value → Prop} {m : NvM} {key : String} {value : Value}

theorem Holds.write (h : m.Holds P) (hset : P (m.store.set key value)) :
    (m.write key value).2.Holds P := by
  unfold NvM.write flush
  split_ifs
  · exact ⟨hset, h.file⟩
  · exact ⟨hset, hset⟩

theorem holds_load {file : Option (Dict String Value)} (h : P (file.getD Dict.empty))
    (fault : Bool) : { NvM.load file with diskFault := fault }.Holds P := ⟨h, h⟩

end NvM

theorem goldenKey_ne_lastValidKey {key : String} (h : key ∈ SecureBoot.components.map Prod.snd)
    (p : String) : key ≠ FreshnessManager.lastValidKey p := by
  rintro rfl
  have hh : ∀ k ∈ SecureBoot.components.map Prod.snd, k.toList.head? = some 'b' := by decide
  have hp := hh _ h
  simp [FreshnessManager.lastValidKey] at hp

structure Storable (P : Dict String Value → Prop) : Prop where
  metadata : ∀ {d} (m : KeyMetadata), P d →
    P (d.set (KeyStorage.nvmKey m.pduId) (KeyStorage.record m))
  golden : ∀ {d key} (hash : Bytes), key ∈ SecureBoot.components.map Prod.snd → P d →
    P (d.set key (.bytes hash))
  counter : ∀ {d p L v}, (d.getD (FreshnessManager.lastValidKey p) (.int 0)).asInt = .ok L →
    L < v → P d → P (d.set (FreshnessManager.lastValidKey p) (.int v))
  window : ∀ {d} p, P d → P (d.set (FreshnessManager.windowKey p) (.list []))

namespace Storable
variable {P : Dict String Value → Prop} (hP : Storable P) {nvm : NvM}
include hP

theorem saved (h : nvm.Holds P) {nvm' : NvM} {p : String}
    (hsave : nvm' = nvm ∨ ∃ m : KeyMetadata, m.pduId = p ∧
      nvm' = (KeyStorage.saveKeyMetadata nvm m).2) : nvm'.Holds P := by
  rcases hsave with rfl | ⟨m, -, rfl⟩
  · exact h
  · exact h.write (hP.metadata m h.store)

theorem provisionKeys (keys : List (String × String)) (hsm : HSM) (h : nvm.Holds P) :
    (KeyManager.provisionKeys keys hsm nvm).2.2.Holds P := by
  induction keys generalizing hsm nvm with
  | nil => exact h
  | cons e rest ih =>
    obtain ⟨p, keyId⟩ := e
    have hstep := hP.saved h (KeyManager.provisionKey_nvm hsm nvm p keyId)
    unfold KeyManager.provisionKeys
    split
    · exact ih hsm h
    · split
      · next he =>
        rw [he] at hstep
        exact hstep
      · next he =>
        rw [he] at hstep
        exact ih _ hstep
    · exact h

theorem provisionGoldenHashes (hash : Bytes) {keys : List String}
    (hkeys : keys ⊆ SecureBoot.components.map Prod.snd) (h : nvm.Holds P) :
    (SecureBoot.provisionGoldenHashes hash keys nvm).2.Holds P := by
  induction keys generalizing nvm with
  | nil => exact h
  | cons key rest ih =>
    obtain ⟨hkey, hrest⟩ := List.cons_subset.mp hkeys
    have hwrite := h.write (hP.golden hash hkey h.store)
    unfold SecureBoot.provisionGoldenHashes
    split
    · split
      · next he =>
        rw [he] at hwrite
        exact hwrite
      · next he =>
        rw [he] at hwrite
        exact ih hrest hwrite
    · exact ih hrest h

theorem initNvm {env : Environment} (D : Digests) (h : P (env.nvmFile.getD Dict.empty)) :
    (AppState.initNvm D env).Holds P := by
  have hload := NvM.holds_load h env.diskFault
  unfold AppState.initNvm
  dsimp only
  split
  · exact hload
  · next profiles _ =>
    have hkeys := hP.provisionKeys (profiles.items.map fun e => (e.1, e.2.keyId))
      (HSM.new env.urandom) hload
    split
    · next he =>
      rw [he] at hkeys
      exact hkeys
    · next he =>
      rw [he] at hkeys
      split
      · exact hkeys
      · exact hP.provisionGoldenHashes _ (List.Subset.refl _) hkeys

theorem commitFreshness (h : nvm.Holds P) {p : String} {L v : Int}
    (hL : FreshnessManager.lastValid nvm p = .ok L) (hlt : L < v) :
    (FreshnessManager.commitFreshness nvm p v).2.Holds P := by
  have hwrite := h.write (hP.counter hL hlt h.store)
  unfold FreshnessManager.commitFreshness
  split
  · next he =>
    rw [he] at hwrite
    exact hwrite
  · next he =>
    rw [he] at hwrite
    exact hwrite.write (hP.window p hwrite.store)

theorem op {D : Digests} {s s' : Stack} (hop : Stack.Op D s s') (h : s.nvm.Holds P) :
    s'.nvm.Holds P := by
  cases hop with
  | bus bus => exact h
  | version p version hp => exact h
  | log severity eventId swrRef => exact h
  | resetEcu => exact h
  | keys hsm hsave => exact hP.saved h hsave
  | transmit p b t =>
    rw [(Stack.transmitSecured_kept D s p b t).1.nvm]
    exact h
  | receive p b t =>
    rcases isEmpty_or_nonempty (Stack.Acceptance D s p b t) with hA | ⟨⟨A⟩⟩
    · rcases Stack.receiveSecured_refused hA with ⟨e, c, -, he⟩ | ⟨reason, c, -, -, he⟩
      · rw [he]
        exact h
      · rw [he]
        exact h
    · obtain ⟨L, hL, -, hlt, -⟩ := A.counter_gt
      obtain ⟨bus, he⟩ := A.receiveSecured_snd
      rw [he]
      exact hP.commitFreshness h hL hlt

end Storable

namespace Device

def Holds (P : Dict String Value → Prop) : Device → Prop
  | running app => app.stack.nvm.Holds P
  | off disk => P (disk.nvmFile.getD Dict.empty)

variable {P : Dict String Value → Prop} {D : Digests} {d : Device}

theorem Holds.disk (h : d.Holds P) : P (d.disk.nvmFile.getD Dict.empty) := by
  cases d with
  | running app => exact NvM.Holds.file h
  | off disk => exact h

theorem Holds.restart (hP : Storable P) (h : d.Holds P) (urandom : Nat → Bytes)
    (overBudget : Nat → Bool) : (d.restart D urandom overBudget).2.Holds P := by
  have hinit : (AppState.initNvm D (d.environment urandom overBudget)).Holds P :=
    hP.initNvm D h.disk
  unfold Device.restart
  dsimp only
  split
  · next app happ =>
    rw [← (AppState.init_files happ).1] at hinit
    exact hinit
  · exact hinit.file

theorem Holds.step (hP : Storable P) (h : d.Holds P) (op : DeviceOp) :
    (d.step D op).2.Holds P := by
  cases op with
  | restart urandom overBudget => exact h.restart hP urandom overBudget
  | request r =>
    cases d with
    | running app => exact Stack.Ops.preserves (hP.op (D := D)) (app.request_ops r) h
    | off disk => exact h
  | nvmFault fault =>
    cases d with
    | running app => exact ⟨h.store, h.file⟩
    | off disk => exact h
  | configure configFile =>
    cases d with
    | running app => exact h
    | off disk => exact h

theorem Holds.run (hP : Storable P) (h : d.Holds P) (ops : List DeviceOp) :
    ((machine D).exec d ops).Holds P :=
  Mealy.exec_preserves (fun _ op h => h.step hP op) h ops

end Device
end SecOC
