import SecOC.Lib.Runs
import SecOC.Sim.HashJobs

/-! The HSM in full: key pairs and signatures, AES-GCM, nonces. `HSM` is what is left of it when
the private keys are forgotten. -/

namespace SecOC
open Py

/-- The ciphers and signatures of the `cryptography` package. A decryption that raises gives
`none`, a verification that raises `false`. -/
structure Ciphers (PrivateKey : Type) where
  publicKeyPem : PrivateKey → Bytes
  sign : PrivateKey → Bytes → Bytes → Bytes
  verify : PrivateKey → Bytes → Bytes → Bool
  encrypt : Bytes → Bytes → Bytes → Bytes
  decrypt : Bytes → Bytes → Bytes → Option Bytes

inductive StoredKey (PrivateKey : Type)
  | symmetric (key : Bytes)
  | ellipticCurve (key : PrivateKey)
  deriving DecidableEq

/-- What the `n`-th draw from a random source gives, and how many were made. -/
structure RandomSource (α : Type) where
  draw : Nat → α
  draws : Nat

namespace RandomSource
variable {α : Type}

def new (draw : Nat → α) : RandomSource α := ⟨draw, 0⟩

def value (r : RandomSource α) : α := r.draw r.draws

def advance (r : RandomSource α) : RandomSource α := { r with draws := r.draws + 1 }

end RandomSource

/-- The exceptions of the HSM: its own, and the one of a symmetric key that is asked for what only
a key pair has. -/
inductive DriverError
  | hsmError (text : String)
  | attributeError (text : String)
  deriving DecidableEq

def DriverError.unavailable : DriverError := .hsmError "unavailable"
def DriverError.unknownKey : DriverError := .hsmError "unknown_key"
def DriverError.wrongKeyType : DriverError := .hsmError "wrong_key_type"
def DriverError.noAttribute (name : String) : DriverError :=
  .attributeError s!"'bytes' object has no attribute '{name}'"

/-- Each use of the random number generator draws from a source of its own. -/
structure CryptoDriver (PrivateKey : Type) where
  keyStore : Dict String (StoredKey PrivateKey)
  failMode : Bool
  keys : RandomSource Bytes
  privateKeys : RandomSource PrivateKey
  ivs : RandomSource Bytes
  nonces : RandomSource Bytes
  signing : RandomSource Bytes

namespace CryptoDriver
variable {PrivateKey : Type}

def checkFail (h : CryptoDriver PrivateKey) : Except DriverError Unit :=
  if h.failMode then .error .unavailable else .ok ()

def storeKey (h : CryptoDriver PrivateKey) (keyId : String) : CryptoDriver PrivateKey :=
  { h with keyStore := h.keyStore.set keyId (.symmetric h.keys.value), keys := h.keys.advance }

def generateKeyPair (h : CryptoDriver PrivateKey) (keyId : String) :
    Except DriverError String × CryptoDriver PrivateKey :=
  match h.checkFail with
  | .error e => (.error e, h)
  | .ok _ => (.ok keyId,
      { h with
        keyStore := h.keyStore.set keyId (.ellipticCurve h.privateKeys.value)
        privateKeys := h.privateKeys.advance })

def getPublicKeyPem (C : Ciphers PrivateKey) (h : CryptoDriver PrivateKey) (keyId : String) :
    Except DriverError Bytes := do
  h.checkFail
  match h.keyStore.get? keyId with
  | none => .error .unknownKey
  | some (.symmetric _) => .error (.noAttribute "public_key")
  | some (.ellipticCurve key) => .ok (C.publicKeyPem key)

def sign (C : Ciphers PrivateKey) (h : CryptoDriver PrivateKey) (keyId : String) (data : Bytes) :
    Except DriverError Bytes × CryptoDriver PrivateKey :=
  match h.checkFail with
  | .error e => (.error e, h)
  | .ok _ => match h.keyStore.get? keyId with
    | none => (.error .unknownKey, h)
    | some (.symmetric _) => (.error (.noAttribute "sign"), h)
    | some (.ellipticCurve key) =>
      (.ok (C.sign key h.signing.value data), { h with signing := h.signing.advance })

/-- A symmetric key has no public key, which raises inside the `try` and so is a `False`. -/
def verify (C : Ciphers PrivateKey) (h : CryptoDriver PrivateKey) (keyId : String)
    (data signature : Bytes) : Except DriverError Bool := do
  h.checkFail
  match h.keyStore.get? keyId with
  | none => .error .unknownKey
  | some (.symmetric _) => .ok false
  | some (.ellipticCurve key) => .ok (C.verify key signature data)

def sha256 (D : Digests) (h : CryptoDriver PrivateKey) (data : Bytes) :
    Except DriverError Bytes := do
  h.checkFail
  return D.sha256 data

/-- The last 16 bytes the cipher gives are the tag. -/
def encryptWith (C : Ciphers PrivateKey) (h : CryptoDriver PrivateKey) (key plaintext : Bytes) :
    (Bytes × Bytes × Bytes) × CryptoDriver PrivateKey :=
  let nonce := h.ivs.value
  let ct := C.encrypt key nonce plaintext
  ((slice ct none (some (-16)), nonce, slice ct (some (-16)) none), { h with ivs := h.ivs.advance })

/-- A key that is not in the store yet is generated on first use. -/
def aesGcmEncrypt (C : Ciphers PrivateKey) (h : CryptoDriver PrivateKey) (keyId : String)
    (plaintext : Bytes) : Except DriverError (Bytes × Bytes × Bytes) × CryptoDriver PrivateKey :=
  match h.checkFail with
  | .error e => (.error e, h)
  | .ok _ => match h.keyStore.get? keyId with
    | none =>
      let (sealed, h') := (h.storeKey keyId).encryptWith C h.keys.value plaintext
      (.ok sealed, h')
    | some (.ellipticCurve _) => (.error .wrongKeyType, h)
    | some (.symmetric key) =>
      let (sealed, h') := h.encryptWith C key plaintext
      (.ok sealed, h')

def aesGcmDecrypt (C : Ciphers PrivateKey) (h : CryptoDriver PrivateKey) (keyId : String)
    (ciphertext nonce tag : Bytes) : Except DriverError Bytes := do
  h.checkFail
  match h.keyStore.get? keyId with
  | none => .error .unknownKey
  | some (.ellipticCurve _) => .error .unknownKey
  | some (.symmetric key) => match C.decrypt key nonce (ciphertext ++ tag) with
    | none => .error (.hsmError "decrypt_failed")
    | some plaintext => .ok plaintext

def generateNonce (h : CryptoDriver PrivateKey) :
    Except DriverError Bytes × CryptoDriver PrivateKey :=
  match h.checkFail with
  | .error e => (.error e, h)
  | .ok _ => (.ok h.nonces.value, { h with nonces := h.nonces.advance })

def generateSymmetricKey (h : CryptoDriver PrivateKey) (keyId : String) :
    Except DriverError String × CryptoDriver PrivateKey :=
  match h.checkFail with
  | .error e => (.error e, h)
  | .ok _ => (.ok keyId, h.storeKey keyId)

def hmacSha256 (D : Digests) (h : CryptoDriver PrivateKey) (keyId : String) (data : Bytes) :
    Except DriverError Bytes × CryptoDriver PrivateKey :=
  match h.checkFail with
  | .error e => (.error e, h)
  | .ok _ => match h.keyStore.get? keyId with
    | none => (.ok (D.hmacSha256 h.keys.value data), h.storeKey keyId)
    | some (.ellipticCurve _) => (.error .wrongKeyType, h)
    | some (.symmetric key) => (.ok (D.hmacSha256 key data), h)

def simulateFailure (h : CryptoDriver PrivateKey) (fail : Bool) : CryptoDriver PrivateKey :=
  { h with failMode := fail }

end CryptoDriver

inductive DriverCall
  | generateKeyPair (keyId : String)
  | getPublicKeyPem (keyId : String)
  | sign (keyId : String) (data : Bytes)
  | verify (keyId : String) (data signature : Bytes)
  | sha256 (data : Bytes)
  | aesGcmEncrypt (keyId : String) (plaintext : Bytes)
  | aesGcmDecrypt (keyId : String) (ciphertext nonce tag : Bytes)
  | generateNonce
  | generateSymmetricKey (keyId : String)
  | hmacSha256 (keyId : String) (data : Bytes)
  | simulateFailure (fail : Bool)
  deriving DecidableEq

inductive DriverValue
  | none
  | keyId (keyId : String)
  | bytes (bytes : Bytes)
  | bool (valid : Bool)
  | sealed (ciphertext nonce tag : Bytes)
  deriving DecidableEq

namespace CryptoDriver
variable {PrivateKey : Type}

def step (D : Digests) (C : Ciphers PrivateKey) (h : CryptoDriver PrivateKey) :
    DriverCall → Except DriverError DriverValue × CryptoDriver PrivateKey
  | .generateKeyPair keyId => (h.generateKeyPair keyId).map (·.map .keyId) id
  | .getPublicKeyPem keyId => ((h.getPublicKeyPem C keyId).map .bytes, h)
  | .sign keyId data => (h.sign C keyId data).map (·.map .bytes) id
  | .verify keyId data signature => ((h.verify C keyId data signature).map .bool, h)
  | .sha256 data => ((h.sha256 D data).map .bytes, h)
  | .aesGcmEncrypt keyId plaintext =>
    (h.aesGcmEncrypt C keyId plaintext).map (·.map fun (ct, nonce, tag) => .sealed ct nonce tag) id
  | .aesGcmDecrypt keyId ciphertext nonce tag =>
    ((h.aesGcmDecrypt C keyId ciphertext nonce tag).map .bytes, h)
  | .generateNonce => h.generateNonce.map (·.map .bytes) id
  | .generateSymmetricKey keyId => (h.generateSymmetricKey keyId).map (·.map .keyId) id
  | .hmacSha256 keyId data => (h.hmacSha256 D keyId data).map (·.map .bytes) id
  | .simulateFailure fail => (.ok .none, h.simulateFailure fail)

def machine (D : Digests) (C : Ciphers PrivateKey) :
    Mealy (CryptoDriver PrivateKey) DriverCall (Except DriverError DriverValue) := ⟨step D C⟩

def stores (h : CryptoDriver PrivateKey) : DriverCall → Option (String × StoredKey PrivateKey)
  | .generateKeyPair keyId =>
    if h.failMode then none else some (keyId, .ellipticCurve h.privateKeys.value)
  | .generateSymmetricKey keyId =>
    if h.failMode then none else some (keyId, .symmetric h.keys.value)
  | .aesGcmEncrypt keyId _ | .hmacSha256 keyId _ =>
    if h.failMode ∨ (h.keyStore.get? keyId).isSome then none
    else some (keyId, .symmetric h.keys.value)
  | _ => none

/-- All a call does to keys: it leaves the store and the two sources of keys alone, or stores the
next key of one of them. -/
theorem step_cases (D : Digests) (C : Ciphers PrivateKey) (h : CryptoDriver PrivateKey)
    (call : DriverCall) : let h' := (step D C h call).2
    (h.stores call = none ∧ h'.keyStore = h.keyStore ∧ h'.keys = h.keys ∧
      h'.privateKeys = h.privateKeys) ∨
    (∃ keyId, h.failMode = false ∧ h.stores call = some (keyId, .symmetric h.keys.value) ∧
      h'.keyStore = h.keyStore.set keyId (.symmetric h.keys.value) ∧
      h'.keys = h.keys.advance ∧ h'.privateKeys = h.privateKeys) ∨
    (∃ keyId, h.failMode = false ∧
      h.stores call = some (keyId, .ellipticCurve h.privateKeys.value) ∧
      h'.keyStore = h.keyStore.set keyId (.ellipticCurve h.privateKeys.value) ∧
      h'.keys = h.keys ∧ h'.privateKeys = h.privateKeys.advance) := by
  cases hf : h.failMode with
  | true =>
    refine Or.inl ?_
    cases call <;> simp [step, stores, generateKeyPair, sign, aesGcmEncrypt, generateNonce,
      generateSymmetricKey, hmacSha256, checkFail, simulateFailure, hf]
  | false =>
    cases call with
    | generateKeyPair keyId =>
      refine Or.inr (Or.inr ⟨keyId, rfl, ?_⟩)
      simp [step, stores, generateKeyPair, checkFail, hf]
    | generateSymmetricKey keyId =>
      refine Or.inr (Or.inl ⟨keyId, rfl, ?_⟩)
      simp [step, stores, generateSymmetricKey, storeKey, checkFail, hf]
    | sign keyId data =>
      refine Or.inl ?_
      rcases hk : h.keyStore.get? keyId with _ | ⟨key⟩ | ⟨key⟩ <;>
        simp [step, stores, sign, checkFail, hf, hk]
    | aesGcmEncrypt keyId plaintext =>
      rcases hk : h.keyStore.get? keyId with _ | ⟨key⟩ | ⟨key⟩
      · refine Or.inr (Or.inl ⟨keyId, rfl, ?_⟩)
        simp [step, stores, aesGcmEncrypt, encryptWith, storeKey, checkFail, hf, hk]
      all_goals
        refine Or.inl ?_
        simp [step, stores, aesGcmEncrypt, encryptWith, checkFail, hf, hk]
    | hmacSha256 keyId data =>
      rcases hk : h.keyStore.get? keyId with _ | ⟨key⟩ | ⟨key⟩
      · refine Or.inr (Or.inl ⟨keyId, rfl, ?_⟩)
        simp [step, stores, hmacSha256, storeKey, checkFail, hf, hk]
      all_goals
        refine Or.inl ?_
        simp [step, stores, hmacSha256, checkFail, hf, hk]
    | generateNonce =>
      refine Or.inl ?_
      simp [step, stores, generateNonce, checkFail, hf]
    | getPublicKeyPem keyId => exact Or.inl ⟨rfl, rfl, rfl, rfl⟩
    | verify keyId data signature => exact Or.inl ⟨rfl, rfl, rfl, rfl⟩
    | sha256 data => exact Or.inl ⟨rfl, rfl, rfl, rfl⟩
    | aesGcmDecrypt keyId ciphertext nonce tag => exact Or.inl ⟨rfl, rfl, rfl, rfl⟩
    | simulateFailure fail => exact Or.inl ⟨rfl, rfl, rfl, rfl⟩

end CryptoDriver
end SecOC
