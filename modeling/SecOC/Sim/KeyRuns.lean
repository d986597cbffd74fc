import SecOC.Lib.Runs
import SecOC.Sim.Keys

/-! Runs of a key manager: calls of `provision_key` and `rotate_key` in any order, with the HSM
failing and recovering in between. -/

namespace SecOC
open Py

structure KeyManager where
  hsm : HSM
  nvm : NvM

inductive KeyOp
  | provisionKey (pduId keyId : String)
  | rotateKey (pduId newKeyId : String)
  | simulateFailure (fail : Bool)
  deriving DecidableEq, Repr

def KeyOp.pduId : KeyOp → Option String
  | .provisionKey pduId _ => some pduId
  | .rotateKey pduId _ => some pduId
  | .simulateFailure _ => none

def KeyOp.keyId : KeyOp → Option String
  | .provisionKey _ keyId => some keyId
  | .rotateKey _ newKeyId => some newKeyId
  | .simulateFailure _ => none

namespace KeyManager

def new (urandom : Nat → Bytes) (nvm : NvM) : KeyManager := { hsm := HSM.new urandom, nvm := nvm }

def metadata (s : KeyManager) (pduId : String) : Option KeyMetadata :=
  (KeyStorage.getKeyMetadata s.nvm pduId).toOption.join

def resolve (s : KeyManager) (pduId : String) : Except PyError String := resolveKey s.nvm pduId

/-- The key bytes `resolve_key` denotes. -/
def material (s : KeyManager) (pduId : String) : Option KeyMaterial :=
  (s.resolve pduId).toOption.bind s.hsm.keyStore.get?

def mac (D : Digests) (s : KeyManager) (pduId : String) (data : Bytes) : Except PyError Bytes :=
  s.resolve pduId >>= fun keyId => (s.hsm.hmacSha256 D keyId data).1

def machine : Mealy KeyManager KeyOp (Except PyError (Option KeyMetadata)) where
  step s op := match op with
    | .provisionKey pduId keyId => match provisionKey s.hsm s.nvm pduId keyId with
      | (result, hsm, nvm) => (result.map some, { hsm, nvm })
    | .rotateKey pduId newKeyId => match rotateKey s.hsm s.nvm pduId newKeyId with
      | (result, hsm, nvm) => (result.map some, { hsm, nvm })
    | .simulateFailure fail => (.ok none, { s with hsm := { s.hsm with failMode := fail } })

def Unprovisioned (nvm : NvM) : Prop := ∀ pduId, KeyStorage.getKeyMetadata nvm pduId = .ok none

/-- A call gets as far as storing a key: the HSM answers, and a rotation finds a key to rotate. -/
def Stores (s : KeyManager) : KeyOp → Prop
  | .provisionKey _ _ => s.hsm.failMode = false
  | .rotateKey pduId _ => s.hsm.failMode = false ∧ ∃ m, s.metadata pduId = some m
  | .simulateFailure _ => False

def record (s : KeyManager) : KeyOp → Option KeyMetadata
  | .provisionKey pduId keyId =>
    some { pduId, keyId, version := 1, lifecycleState := .active }
  | .rotateKey pduId newKeyId => (s.metadata pduId).map fun current =>
    { pduId, keyId := newKeyId, version := current.version + 1, lifecycleState := .active }
  | .simulateFailure _ => none

def save (s : KeyManager) (m : KeyMetadata) : KeyManager :=
  { hsm := s.hsm.storeRandomKey m.keyId, nvm := (KeyStorage.saveKeyMetadata s.nvm m).2 }

def Readable (s : KeyManager) : Prop :=
  ∀ pduId, KeyStorage.getKeyMetadata s.nvm pduId = .ok (s.metadata pduId)

theorem resolve_eq {s : KeyManager} (hs : s.Readable) (pduId : String) :
    s.resolve pduId = match s.metadata pduId with
      | none => .error (unprovisioned pduId)
      | some m => .ok m.keyId := by
  unfold resolve resolveKey
  rw [hs pduId]
  cases s.metadata pduId <;> rfl

theorem resolve_eq_ok {s : KeyManager} (hs : s.Readable) {pduId keyId : String} :
    s.resolve pduId = .ok keyId ↔ ∃ m, s.metadata pduId = some m ∧ m.keyId = keyId := by
  rw [resolve_eq hs]
  cases s.metadata pduId with
  | none => simp
  | some m => simp

theorem metadata_save (s : KeyManager) (m : KeyMetadata) (pduId : String) :
    (s.save m).metadata pduId = if pduId = m.pduId then some m else s.metadata pduId := by
  unfold metadata save
  split
  · next h =>
    subst h
    rw [KeyStorage.getKeyMetadata_save]
    rfl
  · next h => rw [KeyStorage.getKeyMetadata_save_ne _ _ h]

theorem readable_save {s : KeyManager} (hs : s.Readable) (m : KeyMetadata) :
    (s.save m).Readable := by
  intro pduId
  rw [metadata_save]
  split
  · next h =>
    subst h
    exact KeyStorage.getKeyMetadata_save s.nvm m
  · next h => exact (KeyStorage.getKeyMetadata_save_ne s.nvm m h).trans (hs pduId)

theorem resolve_save {s : KeyManager} (hs : s.Readable) (m : KeyMetadata) (pduId : String) :
    (s.save m).resolve pduId = if pduId = m.pduId then .ok m.keyId else s.resolve pduId := by
  rw [resolve_eq (readable_save hs m), resolve_eq hs, metadata_save]
  by_cases h : pduId = m.pduId
  · rw [if_pos h, if_pos h]
  · rw [if_neg h, if_neg h]

theorem readable_new {nvm : NvM} (hnvm : Unprovisioned nvm) (urandom : Nat → Bytes) :
    (new urandom nvm).Readable := by
  intro pduId
  unfold metadata new
  rw [hnvm pduId]
  rfl

theorem metadata_new {nvm : NvM} (hnvm : Unprovisioned nvm) (urandom : Nat → Bytes)
    (pduId : String) : (new urandom nvm).metadata pduId = none := by
  unfold metadata new
  rw [hnvm pduId]
  rfl


theorem resolve_new_ne_ok {nvm : NvM} (hnvm : Unprovisioned nvm) (urandom : Nat → Bytes)
    (pduId keyId : String) : (new urandom nvm).resolve pduId ≠ .ok keyId := by
  rw [resolve_eq (readable_new hnvm urandom), metadata_new hnvm]
  exact nofun

/-- All a call does: it lets the HSM fail or recover, raises and changes nothing, or stores a
fresh key and saves its record. -/
theorem step_cases {s : KeyManager} (hs : s.Readable) (op : KeyOp) :
    (op.pduId = none ∧ ∃ fail,
      machine.step s op = (.ok none, { s with hsm := { s.hsm with failMode := fail } })) ∨
    (¬s.Stores op ∧ ∃ e, machine.step s op = (.error e, s)) ∨
    (s.Stores op ∧ ∃ m, s.record op = some m ∧ op.pduId = some m.pduId ∧
      op.keyId = some m.keyId ∧ machine.step s op =
        (if s.nvm.diskFault then .error .osError else .ok (some m), s.save m)) := by
  cases op with
  | simulateFailure fail => exact Or.inl ⟨rfl, fail, rfl⟩
  | provisionKey pduId keyId =>
    refine Or.inr ?_
    cases hf : s.hsm.failMode with
    | true =>
      refine Or.inl ⟨by simp [Stores, hf], .hsmError "unavailable", ?_⟩
      simp only [machine, provisionKey, HSM.generateSymmetricKey_eq_ite, hf, if_true]
      rfl
    | false =>
      refine Or.inr ⟨hf, _, rfl, rfl, rfl, ?_⟩
      simp only [machine, provisionKey_of_available hf]
      cases s.nvm.diskFault <;> rfl
  | rotateKey pduId newKeyId =>
    refine Or.inr ?_
    cases hm : s.metadata pduId with
    | none =>
      refine Or.inl ⟨by simp [Stores, hm], unprovisioned pduId, ?_⟩
      simp only [machine, rotateKey, hs pduId, hm]
      rfl
    | some current =>
      cases hf : s.hsm.failMode with
      | true =>
        refine Or.inl ⟨by simp [Stores, hf], .hsmError "unavailable", ?_⟩
        simp only [machine, rotateKey, hs pduId, hm, HSM.generateSymmetricKey_eq_ite, hf, if_true]
        rfl
      | false =>
        refine Or.inr ⟨⟨hf, current, hm⟩, { pduId, keyId := newKeyId, version := current.version + 1
                                            lifecycleState := .active }, ?_, rfl, rfl, ?_⟩
        · simp only [record, hm, Option.map_some]
        · simp only [machine, rotateKey_of_available hf ((hs pduId).trans (congrArg _ hm))]
          cases s.nvm.diskFault <;> rfl

theorem readable_step {s : KeyManager} (hs : s.Readable) (op : KeyOp) :
    (machine.step s op).2.Readable := by
  rcases step_cases hs op with ⟨-, fail, he⟩ | ⟨-, e, he⟩ | ⟨-, m, -, -, -, he⟩
  · rw [he]
    exact hs
  · rw [he]
    exact hs
  · rw [he]
    exact readable_save hs m

end KeyManager
end SecOC
