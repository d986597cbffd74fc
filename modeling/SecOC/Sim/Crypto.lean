import SecOC.Lib.Sha256
import SecOC.Sim.Base

/-! The crypto stack: the HSM with its key store, the CSM job states above it, and the
HMAC-SHA256 interface on top. `CryIf` only passes calls on. -/

namespace SecOC
open Py

/-- The hash functions the HSM calls. What they compute never matters here, only the length of
an HMAC; `Digests.standard` are the real ones. -/
structure Digests where
  hmacSha256 : Bytes → Bytes → Bytes
  sha256 : Bytes → Bytes
  hmacSha256_length : ∀ key data, (hmacSha256 key data).length = 32

def Digests.standard : Digests := ⟨Sha256.hmac, Sha256.hash, Sha256.hmac_length⟩

inductive KeyMaterial
  | symmetric (key : Bytes)
  | ellipticCurve
  deriving DecidableEq, Repr

/-- `urandom n` is what the `n`-th draw from the system's random source gives. -/
structure HSM where
  keyStore : Dict String KeyMaterial
  failMode : Bool
  urandom : Nat → Bytes
  draws : Nat

namespace HSM

def new (urandom : Nat → Bytes) : HSM :=
  { keyStore := Dict.empty, failMode := false, urandom := urandom, draws := 0 }

def checkFail (h : HSM) : Except PyError Unit :=
  if h.failMode then .error (.hsmError "unavailable") else .ok ()

def storeRandomKey (h : HSM) (keyId : String) : HSM :=
  { h with keyStore := h.keyStore.set keyId (.symmetric (h.urandom h.draws))
           draws := h.draws + 1 }

def generateSymmetricKey (h : HSM) (keyId : String) : Except PyError String × HSM :=
  match h.checkFail with
  | .error e => (.error e, h)
  | .ok _ => (.ok keyId, h.storeRandomKey keyId)

theorem generateSymmetricKey_eq_ite (h : HSM) (keyId : String) :
    h.generateSymmetricKey keyId =
      if h.failMode then (.error (.hsmError "unavailable"), h)
      else (.ok keyId, h.storeRandomKey keyId) := by
  unfold generateSymmetricKey checkFail
  cases h.failMode <;> rfl

/-- A key that is not in the store yet is generated on first use. -/
def hmacSha256 (D : Digests) (h : HSM) (keyId : String) (data : Bytes) :
    Except PyError Bytes × HSM :=
  match h.checkFail with
  | .error e => (.error e, h)
  | .ok _ => match h.keyStore.get? keyId with
    | none => (.ok (D.hmacSha256 (h.urandom h.draws) data), h.storeRandomKey keyId)
    | some .ellipticCurve => (.error (.hsmError "wrong_key_type"), h)
    | some (.symmetric key) => (.ok (D.hmacSha256 key data), h)

def sha256 (D : Digests) (h : HSM) (data : Bytes) : Except PyError Bytes :=
  match h.checkFail with
  | .error e => .error e
  | .ok _ => .ok (D.sha256 data)

theorem sha256_eq_ite (D : Digests) (h : HSM) (data : Bytes) :
    h.sha256 D data =
      if h.failMode then .error (.hsmError "unavailable") else .ok (D.sha256 data) := by
  unfold sha256 checkFail
  cases h.failMode <;> rfl

theorem sha256_eq (D : Digests) {h : HSM} (hf : h.failMode = false) (data : Bytes) :
    h.sha256 D data = .ok (D.sha256 data) := by
  rw [sha256_eq_ite, hf]
  rfl

end HSM

inductive CSMState
  | idle
  | active
  | finished
  | failed
  deriving DecidableEq, Repr

structure CSM where
  hsm : HSM
  state : CSMState

namespace CSM

def computeMac (D : Digests) (c : CSM) (keyId : String) (data : Bytes) :
    Except PyError Bytes × CSM :=
  match c.hsm.hmacSha256 D keyId data with
  | (.ok result, hsm) => (.ok result, { hsm := hsm, state := .finished })
  | (.error _, hsm) => (.error (.csmError "job_failed"), { hsm := hsm, state := .failed })

end CSM

def HmacCrypto.generateMac (D : Digests) (c : CSM) (keyId : String) (data : Bytes) :
    Except PyError Bytes × CSM := c.computeMac D keyId data

/-- The MAC may be a truncated one: as much is compared as was given. -/
def HmacCrypto.verifyMac (D : Digests) (c : CSM) (keyId : String) (data mac : Bytes) :
    Except PyError Bool × CSM :=
  match HmacCrypto.generateMac D c keyId data with
  | (.error e, c) => (.error e, c)
  | (.ok expected, c) => (.ok (slice expected none (some mac.length) == mac), c)

namespace HSM

/-- The key a MAC under `keyId` uses: the stored one, or the one about to be drawn. -/
def macKey (h : HSM) (keyId : String) : KeyMaterial :=
  (h.keyStore.get? keyId).getD (.symmetric (h.urandom h.draws))

def afterMac (h : HSM) (keyId : String) : HSM :=
  match h.keyStore.get? keyId with
  | none => h.storeRandomKey keyId
  | some _ => h

@[simp] theorem afterMac_failMode (h : HSM) (keyId : String) :
    (h.afterMac keyId).failMode = h.failMode := by
  unfold afterMac
  split <;> rfl

theorem afterMac_keyStore_self (h : HSM) (keyId : String) :
    (h.afterMac keyId).keyStore.get? keyId = some (h.macKey keyId) := by
  unfold afterMac macKey
  split
  · next hk => simp [storeRandomKey, hk]
  · next k hk => simp [hk]

theorem afterMac_keyStore_ne (h : HSM) {keyId k : String} (hk : k ≠ keyId) :
    (h.afterMac keyId).keyStore.get? k = h.keyStore.get? k := by
  unfold afterMac
  split
  · exact Dict.get?_set_ne _ _ hk
  · rfl

end HSM

theorem generateMac_cases (D : Digests) (c : CSM) (keyId : String) (data : Bytes) :
    (c.hsm.failMode = true ∧ HmacCrypto.generateMac D c keyId data =
      (.error (.csmError "job_failed"), { c with state := .failed })) ∨
    (c.hsm.failMode = false ∧ c.hsm.macKey keyId = .ellipticCurve ∧
      HmacCrypto.generateMac D c keyId data =
        (.error (.csmError "job_failed"), { c with state := .failed })) ∨
    (∃ key, c.hsm.failMode = false ∧ c.hsm.macKey keyId = .symmetric key ∧
      HmacCrypto.generateMac D c keyId data =
        (.ok (D.hmacSha256 key data), { hsm := c.hsm.afterMac keyId, state := .finished })) := by
  unfold HmacCrypto.generateMac CSM.computeMac HSM.hmacSha256 HSM.checkFail HSM.macKey HSM.afterMac
  cases hf : c.hsm.failMode with
  | true => exact Or.inl ⟨rfl, rfl⟩
  | false =>
    refine Or.inr ?_
    rcases hk : c.hsm.keyStore.get? keyId with _ | ⟨key⟩ | _
    · exact Or.inr ⟨_, rfl, rfl, rfl⟩
    · exact Or.inr ⟨key, rfl, rfl, rfl⟩
    · exact Or.inl ⟨rfl, rfl, rfl⟩

theorem generateMac_fst (D : Digests) (c : CSM) (keyId : String) (data : Bytes) :
    (HmacCrypto.generateMac D c keyId data).1 =
      if c.hsm.failMode then .error (.csmError "job_failed")
      else match c.hsm.macKey keyId with
        | .symmetric key => .ok (D.hmacSha256 key data)
        | .ellipticCurve => .error (.csmError "job_failed") := by
  rcases generateMac_cases D c keyId data with ⟨hf, he⟩ | ⟨hf, hk, he⟩ | ⟨key, hf, hk, he⟩
  · rw [he, hf]
    rfl
  · rw [he, hf, hk]
    rfl
  · rw [he, hf, hk]
    rfl

theorem generateMac_failMode (D : Digests) (c : CSM) (keyId : String) (data : Bytes) :
    (HmacCrypto.generateMac D c keyId data).2.hsm.failMode = c.hsm.failMode := by
  rcases generateMac_cases D c keyId data with ⟨-, he⟩ | ⟨-, -, he⟩ | ⟨key, -, -, he⟩
  · rw [he]
  · rw [he]
  · rw [he]
    exact c.hsm.afterMac_failMode keyId

theorem generateMac_key (D : Digests) (c : CSM) (keyId : String) (data : Bytes) :
    (HmacCrypto.generateMac D c keyId data).2.hsm.keyStore.get? keyId =
      if c.hsm.failMode then c.hsm.keyStore.get? keyId else some (c.hsm.macKey keyId) := by
  rcases generateMac_cases D c keyId data with ⟨hf, he⟩ | ⟨hf, hk, he⟩ | ⟨key, hf, -, he⟩
  · rw [he, hf]
    rfl
  · rw [he, hf, hk]
    cases hs : c.hsm.keyStore.get? keyId with
    | none =>
      rw [HSM.macKey, hs, Option.getD_none] at hk
      cases hk
    | some m =>
      rw [HSM.macKey, hs, Option.getD_some] at hk
      rw [if_neg Bool.false_ne_true]
      exact congrArg some hk
  · rw [he, hf]
    exact c.hsm.afterMac_keyStore_self keyId

end SecOC
