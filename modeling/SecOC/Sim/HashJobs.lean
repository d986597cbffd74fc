import SecOC.Lib.Runs
import SecOC.Sim.Crypto

/-! The hash jobs of the CSM: a hash of given data, and contexts that collect chunks until they
are finished. -/

namespace SecOC
open Py

def HSM.simulateFailure (h : HSM) (fail : Bool) : HSM := { h with failMode := fail }

def CSM.computeHash (D : Digests) (c : CSM) (data : Bytes) : Except PyError Bytes × CSM :=
  match c.hsm.sha256 D data with
  | .ok result => (.ok result, { c with state := .finished })
  | .error _ => (.error (.csmError "job_failed"), { c with state := .failed })

theorem CSM.computeHash_fst (D : Digests) (c : CSM) (data : Bytes) :
    (c.computeHash D data).1 =
      if c.hsm.failMode then .error (.csmError "job_failed") else .ok (D.sha256 data) := by
  rw [computeHash, HSM.sha256_eq_ite]
  cases c.hsm.failMode <;> rfl

/-- The CSM with its hash contexts, the chunks of each in the order they came. -/
structure HashingCSM extends CSM where
  hashContexts : Dict String (List Bytes)

inductive HashCall
  | hashUpdate (ctxId : String) (chunk : Bytes)
  | hashFinish (ctxId : String)
  | computeHash (data : Bytes)
  | computeMac (keyId : String) (data : Bytes)
  | simulateFailure (fail : Bool)

def HashCall.ctxId : HashCall → Option String
  | .hashUpdate ctxId _ => some ctxId
  | .hashFinish ctxId => some ctxId
  | _ => none

namespace HashingCSM

def new (hsm : HSM) : HashingCSM := { hsm, state := .idle, hashContexts := Dict.empty }

def hashUpdate (c : HashingCSM) (ctxId : String) (chunk : Bytes) : HashingCSM :=
  { c with
    hashContexts := c.hashContexts.set ctxId (c.hashContexts.getD ctxId [] ++ [chunk]) }

/-- The context is taken out before its chunks are hashed, and no job state is set. -/
def hashFinish (D : Digests) (c : HashingCSM) (ctxId : String) :
    Except PyError Bytes × HashingCSM :=
  match c.hashContexts.get? ctxId with
  | none => (.error (.csmError "no_context"), c)
  | some chunks =>
    (c.hsm.sha256 D chunks.flatten, { c with hashContexts := c.hashContexts.erase ctxId })

def step (D : Digests) (c : HashingCSM) : HashCall → Except PyError (Option Bytes) × HashingCSM
  | .hashUpdate ctxId chunk => (.ok none, c.hashUpdate ctxId chunk)
  | .hashFinish ctxId => ((c.hashFinish D ctxId).1.map some, (c.hashFinish D ctxId).2)
  | .computeHash data =>
    let (result, csm) := c.toCSM.computeHash D data
    (result.map some, { c with toCSM := csm })
  | .computeMac keyId data =>
    let (result, csm) := c.toCSM.computeMac D keyId data
    (result.map some, { c with toCSM := csm })
  | .simulateFailure fail => (.ok none, { c with hsm := c.hsm.simulateFailure fail })

def machine (D : Digests) : Mealy HashingCSM HashCall (Except PyError (Option Bytes)) := ⟨step D⟩

variable (D : Digests) {c : HashingCSM} {ctxId : String}

theorem hashFinish_of_none (h : c.hashContexts.get? ctxId = none) :
    c.hashFinish D ctxId = (.error (.csmError "no_context"), c) := by
  simp only [hashFinish, h]

theorem hashFinish_of_some {chunks : List Bytes} (h : c.hashContexts.get? ctxId = some chunks) :
    c.hashFinish D ctxId =
      (if c.hsm.failMode then .error (.hsmError "unavailable")
        else .ok (D.sha256 chunks.flatten),
      { c with hashContexts := c.hashContexts.erase ctxId }) := by
  simp only [hashFinish, h, HSM.sha256_eq_ite]

end HashingCSM
end SecOC
