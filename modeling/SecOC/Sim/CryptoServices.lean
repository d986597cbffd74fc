import SecOC.Sim.CryptoDriver

/-! The CSM in full, over the HSM in full. `CryIf` only passes calls on. -/

namespace SecOC
open Py

/-- The exceptions a caller of the CSM sees: its own, or those of the HSM where it lets them pass. -/
inductive ServiceError
  | csmError (text : String)
  | driver (e : DriverError)
  deriving DecidableEq

structure CryptoServices (PrivateKey : Type) where
  driver : CryptoDriver PrivateKey
  state : CSMState
  hashContexts : Dict String (List Bytes)

inductive ServiceCall
  | verifySignature (data signature : Bytes) (keyId : String)
  | computeHash (data : Bytes)
  | hashUpdate (ctxId : String) (chunk : Bytes)
  | hashFinish (ctxId : String)
  | computeMac (keyId : String) (data : Bytes)
  | wrapKey (keyId : String) (plaintext : Bytes)
  | driver (call : DriverCall)
  deriving DecidableEq

def ServiceCall.isJob : ServiceCall → Bool
  | .verifySignature .. | .computeHash .. | .computeMac .. | .wrapKey .. => true
  | _ => false

def CSMState.verdict {ε α : Type} : Except ε α → CSMState
  | .ok _ => .finished
  | .error _ => .failed

namespace CryptoServices
variable {PrivateKey : Type}

def new (driver : CryptoDriver PrivateKey) : CryptoServices PrivateKey :=
  { driver, state := .idle, hashContexts := Dict.empty }

/-- What the four jobs have in common. The state `ACTIVE` lasts as long as the call. -/
def job {α : Type} (c : CryptoServices PrivateKey)
    (run : CryptoDriver PrivateKey → Except DriverError α × CryptoDriver PrivateKey) :
    Except ServiceError α × CryptoServices PrivateKey :=
  match run c.driver with
  | (.ok result, driver) => (.ok result, { c with driver, state := .finished })
  | (.error _, driver) => (.error (.csmError "job_failed"), { c with driver, state := .failed })

def verifySignature (C : Ciphers PrivateKey) (c : CryptoServices PrivateKey)
    (data signature : Bytes) (keyId : String) :
    Except ServiceError Bool × CryptoServices PrivateKey :=
  c.job fun h => (h.verify C keyId data signature, h)

def computeHash (D : Digests) (c : CryptoServices PrivateKey) (data : Bytes) :
    Except ServiceError Bytes × CryptoServices PrivateKey :=
  c.job fun h => (h.sha256 D data, h)

def hashUpdate (c : CryptoServices PrivateKey) (ctxId : String) (chunk : Bytes) :
    CryptoServices PrivateKey :=
  { c with hashContexts := c.hashContexts.set ctxId (c.hashContexts.getD ctxId [] ++ [chunk]) }

/-- No job: the context is gone and the exception of the HSM passes. -/
def hashFinish (D : Digests) (c : CryptoServices PrivateKey) (ctxId : String) :
    Except ServiceError Bytes × CryptoServices PrivateKey :=
  match c.hashContexts.get? ctxId with
  | none => (.error (.csmError "no_context"), c)
  | some chunks =>
    ((c.driver.sha256 D chunks.flatten).mapError .driver,
      { c with hashContexts := c.hashContexts.erase ctxId })

def computeMac (D : Digests) (c : CryptoServices PrivateKey) (keyId : String) (data : Bytes) :
    Except ServiceError Bytes × CryptoServices PrivateKey :=
  c.job fun h => h.hmacSha256 D keyId data

def wrapKey (C : Ciphers PrivateKey) (c : CryptoServices PrivateKey) (keyId : String)
    (plaintext : Bytes) : Except ServiceError Bytes × CryptoServices PrivateKey :=
  (c.job fun h => h.aesGcmEncrypt C keyId plaintext).map
    (·.map fun (ct, nonce, tag) => ct ++ nonce ++ tag) id

def step (D : Digests) (C : Ciphers PrivateKey) (c : CryptoServices PrivateKey) :
    ServiceCall → Except ServiceError DriverValue × CryptoServices PrivateKey
  | .verifySignature data signature keyId =>
    (c.verifySignature C data signature keyId).map (·.map .bool) id
  | .computeHash data => (c.computeHash D data).map (·.map .bytes) id
  | .hashUpdate ctxId chunk => (.ok .none, c.hashUpdate ctxId chunk)
  | .hashFinish ctxId => (c.hashFinish D ctxId).map (·.map .bytes) id
  | .computeMac keyId data => (c.computeMac D keyId data).map (·.map .bytes) id
  | .wrapKey keyId plaintext => (c.wrapKey C keyId plaintext).map (·.map .bytes) id
  | .driver call =>
    ((c.driver.step D C call).1.mapError .driver, { c with driver := (c.driver.step D C call).2 })

def machine (D : Digests) (C : Ciphers PrivateKey) :
    Mealy (CryptoServices PrivateKey) ServiceCall (Except ServiceError DriverValue) := ⟨step D C⟩

def request (c : CryptoServices PrivateKey) : ServiceCall → Option DriverCall
  | .verifySignature data signature keyId => some (.verify keyId data signature)
  | .computeHash data => some (.sha256 data)
  | .hashUpdate _ _ => none
  | .hashFinish ctxId => (c.hashContexts.get? ctxId).map fun chunks => .sha256 chunks.flatten
  | .computeMac keyId data => some (.hmacSha256 keyId data)
  | .wrapKey keyId plaintext => some (.aesGcmEncrypt keyId plaintext)
  | .driver call => some call

def present : ServiceCall → DriverValue → DriverValue
  | .wrapKey _ _, .sealed ct nonce tag => .bytes (ct ++ nonce ++ tag)
  | _, value => value

theorem job_eq {α : Type} (c : CryptoServices PrivateKey)
    (run : CryptoDriver PrivateKey → Except DriverError α × CryptoDriver PrivateKey) :
    c.job run = ((run c.driver).1.mapError fun _ => .csmError "job_failed",
      { c with driver := (run c.driver).2, state := .verdict (run c.driver).1 }) := by
  unfold job
  rcases run c.driver with ⟨_ | _, driver⟩ <;> rfl

theorem step_of_isJob (D : Digests) (C : Ciphers PrivateKey) (c : CryptoServices PrivateKey)
    {call : ServiceCall} (h : call.isJob) : ∃ r, c.request call = some r ∧
      step D C c call =
        (((c.driver.step D C r).1.map (present call)).mapError fun _ => .csmError "job_failed",
          { c with driver := (c.driver.step D C r).2
                   state := .verdict (c.driver.step D C r).1 }) := by
  cases call with
  | verifySignature data signature keyId =>
    refine ⟨_, rfl, ?_⟩
    simp only [step, verifySignature, job_eq, CryptoDriver.step]
    cases c.driver.verify C keyId data signature <;> rfl
  | computeHash data =>
    refine ⟨_, rfl, ?_⟩
    simp only [step, computeHash, job_eq, CryptoDriver.step]
    cases c.driver.sha256 D data <;> rfl
  | computeMac keyId data =>
    refine ⟨_, rfl, ?_⟩
    simp only [step, computeMac, job_eq, CryptoDriver.step]
    rcases c.driver.hmacSha256 D keyId data with ⟨_ | _, driver⟩ <;> rfl
  | wrapKey keyId plaintext =>
    refine ⟨_, rfl, ?_⟩
    simp only [step, wrapKey, job_eq, CryptoDriver.step]
    rcases c.driver.aesGcmEncrypt C keyId plaintext with ⟨_ | _, driver⟩ <;> rfl
  | hashUpdate ctxId chunk => cases h
  | hashFinish ctxId => cases h
  | driver call => cases h

theorem step_driver (D : Digests) (C : Ciphers PrivateKey) (c : CryptoServices PrivateKey)
    (call : ServiceCall) :
    (step D C c call).2.driver =
      (c.request call).elim c.driver fun r => (c.driver.step D C r).2 := by
  -- each call asks the HSM at most once, and does nothing else to it
  cases hjob : call.isJob with
  | true =>
    obtain ⟨r, hr, he⟩ := step_of_isJob D C c hjob
    rw [he, hr]
    rfl
  | false =>
    cases call with
    | hashFinish ctxId =>
      simp only [step, hashFinish, request]
      cases c.hashContexts.get? ctxId <;> rfl
    | hashUpdate ctxId chunk => rfl
    | driver call => rfl
    | _ => cases hjob

end CryptoServices

/-! The HSM and CSM of `Crypto` and `HashJobs` are these without the private keys. -/

def StoredKey.material {PrivateKey : Type} : StoredKey PrivateKey → KeyMaterial
  | .symmetric key => .symmetric key
  | .ellipticCurve _ => .ellipticCurve

def CryptoDriver.toHSM {PrivateKey : Type} (h : CryptoDriver PrivateKey) : HSM :=
  { keyStore := h.keyStore.mapValues StoredKey.material
    failMode := h.failMode
    urandom := h.keys.draw
    draws := h.keys.draws }

def CryptoServices.toHashing {PrivateKey : Type} (c : CryptoServices PrivateKey) : HashingCSM :=
  { hsm := c.driver.toHSM, state := c.state, hashContexts := c.hashContexts }

def HashCall.full : HashCall → ServiceCall
  | .hashUpdate ctxId chunk => .hashUpdate ctxId chunk
  | .hashFinish ctxId => .hashFinish ctxId
  | .computeHash data => .computeHash data
  | .computeMac keyId data => .computeMac keyId data
  | .simulateFailure fail => .driver (.simulateFailure fail)

def DriverError.toPyError : DriverError → PyError
  | .hsmError text => .hsmError text
  -- none of those calls asks a symmetric key for an attribute
  | .attributeError _ => .typeError

def ServiceError.toPyError : ServiceError → PyError
  | .csmError text => .csmError text
  | .driver e => e.toPyError

def DriverValue.toBytes : DriverValue → Option Bytes
  | .bytes b => some b
  | _ => Option.none

namespace CryptoDriver
variable {PrivateKey : Type}

theorem toHSM_storeKey (h : CryptoDriver PrivateKey) (keyId : String) :
    (h.storeKey keyId).toHSM = h.toHSM.storeRandomKey keyId := by
  simp only [toHSM, storeKey, HSM.storeRandomKey, Dict.mapValues_set]
  rfl

theorem toHSM_keyStore (h : CryptoDriver PrivateKey) (keyId : String) :
    h.toHSM.keyStore.get? keyId = (h.keyStore.get? keyId).map StoredKey.material :=
  Dict.get?_mapValues _ _ keyId

theorem toHSM_checkFail (h : CryptoDriver PrivateKey) :
    h.toHSM.checkFail = h.checkFail.mapError DriverError.toPyError := by
  unfold HSM.checkFail checkFail toHSM
  cases h.failMode <;> rfl

theorem toHSM_sha256 (D : Digests) (h : CryptoDriver PrivateKey) (data : Bytes) :
    h.toHSM.sha256 D data = (h.sha256 D data).mapError DriverError.toPyError := by
  unfold HSM.sha256 sha256
  rw [toHSM_checkFail]
  rcases h.checkFail with _ | _ <;> rfl

theorem toHSM_generateSymmetricKey (h : CryptoDriver PrivateKey) (keyId : String) :
    h.toHSM.generateSymmetricKey keyId =
      (h.generateSymmetricKey keyId).map (·.mapError DriverError.toPyError) toHSM := by
  unfold HSM.generateSymmetricKey generateSymmetricKey
  rw [toHSM_checkFail, ← toHSM_storeKey]
  rcases h.checkFail with _ | _ <;> rfl

theorem toHSM_hmacSha256 (D : Digests) (h : CryptoDriver PrivateKey) (keyId : String)
    (data : Bytes) : h.toHSM.hmacSha256 D keyId data =
      (h.hmacSha256 D keyId data).map (·.mapError DriverError.toPyError) toHSM := by
  unfold HSM.hmacSha256 hmacSha256
  rw [toHSM_checkFail, toHSM_keyStore, ← toHSM_storeKey]
  rcases h.checkFail with _ | _
  · rfl
  · rcases h.keyStore.get? keyId with _ | ⟨key⟩ | ⟨key⟩ <;> rfl

end CryptoDriver

/-- On the calls it knows, the smaller CSM does what this one does. -/
theorem CryptoServices.toHashing_step {PrivateKey : Type} (D : Digests) (C : Ciphers PrivateKey)
    (c : CryptoServices PrivateKey) (call : HashCall) :
    c.toHashing.step D call =
      ((c.step D C call.full).1.map DriverValue.toBytes |>.mapError ServiceError.toPyError,
        (c.step D C call.full).2.toHashing) := by
  cases call with
  | hashUpdate ctxId chunk => rfl
  | simulateFailure fail => rfl
  | hashFinish ctxId =>
    simp only [HashingCSM.step, HashCall.full, step, HashingCSM.hashFinish, hashFinish]
    rw [show c.toHashing.hashContexts = c.hashContexts from rfl]
    cases c.hashContexts.get? ctxId with
    | none => rfl
    | some chunks =>
      simp only [show c.toHashing.hsm = c.driver.toHSM from rfl, CryptoDriver.toHSM_sha256]
      cases c.driver.sha256 D chunks.flatten <;> rfl
  | computeHash data =>
    simp only [HashingCSM.step, HashCall.full, step, CSM.computeHash, computeHash, job_eq,
      show c.toHashing.hsm = c.driver.toHSM from rfl, CryptoDriver.toHSM_sha256]
    cases c.driver.sha256 D data <;> rfl
  | computeMac keyId data =>
    simp only [HashingCSM.step, HashCall.full, step, CSM.computeMac, computeMac, job_eq,
      show c.toHashing.hsm = c.driver.toHSM from rfl, CryptoDriver.toHSM_hmacSha256]
    rcases c.driver.hmacSha256 D keyId data with ⟨_ | _, driver⟩ <;> rfl

end SecOC
