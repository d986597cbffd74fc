import SecOC.Properties.KeyLifetime

/-! What leaves the crypto stack depends on a key only through what the primitives make of it, and
what a job leaves behind depends only on whether it succeeded. -/

namespace SecOC
open Py

/-- No primitive tells one key from the other. -/
structure StoredKey.SameSymmetric {PrivateKey : Type} (D : Digests) (C : Ciphers PrivateKey)
    (key key' : Bytes) : Prop where
  hmac : ∀ data, D.hmacSha256 key data = D.hmacSha256 key' data
  encrypt : ∀ nonce data, C.encrypt key nonce data = C.encrypt key' nonce data
  decrypt : ∀ nonce data, C.decrypt key nonce data = C.decrypt key' nonce data

structure StoredKey.SamePair {PrivateKey : Type} (C : Ciphers PrivateKey)
    (key key' : PrivateKey) : Prop where
  publicKeyPem : C.publicKeyPem key = C.publicKeyPem key'
  sign : ∀ draw data, C.sign key draw data = C.sign key' draw data
  verify : ∀ signature data, C.verify key signature data = C.verify key' signature data

inductive StoredKey.Same {PrivateKey : Type} (D : Digests) (C : Ciphers PrivateKey) :
    StoredKey PrivateKey → StoredKey PrivateKey → Prop
  | symmetric {key key' : Bytes} (h : SameSymmetric D C key key') :
    Same D C (.symmetric key) (.symmetric key')
  | ellipticCurve {key key' : PrivateKey} (h : SamePair C key key') :
    Same D C (.ellipticCurve key) (.ellipticCurve key')

namespace CryptoDriver
variable {PrivateKey : Type} {D : Digests} {C : Ciphers PrivateKey}

/-- Two drivers that differ in their keys only, those still to be drawn included, and whose keys
no primitive tells apart. -/
structure Alike (D : Digests) (C : Ciphers PrivateKey) (h h' : CryptoDriver PrivateKey) :
    Prop where
  keyStore : ∀ keyId, Option.Rel (StoredKey.Same D C) (h.keyStore.get? keyId)
    (h'.keyStore.get? keyId)
  failMode : h.failMode = h'.failMode
  keys : ∀ n, StoredKey.SameSymmetric D C (h.keys.draw (h.keys.draws + n))
    (h'.keys.draw (h'.keys.draws + n))
  privateKeys : ∀ n, StoredKey.SamePair C (h.privateKeys.draw (h.privateKeys.draws + n))
    (h'.privateKeys.draw (h'.privateKeys.draws + n))
  ivs : h.ivs = h'.ivs
  nonces : h.nonces = h'.nonces
  signing : h.signing = h'.signing

variable {h h' : CryptoDriver PrivateKey}

theorem Alike.checkFail (a : Alike D C h h') : h.checkFail = h'.checkFail := by
  unfold CryptoDriver.checkFail
  rw [a.failMode]

theorem Alike.key (a : Alike D C h h') (keyId : String) :
    (h.keyStore.get? keyId = none ∧ h'.keyStore.get? keyId = none) ∨
      (∃ key key', StoredKey.SameSymmetric D C key key' ∧
        h.keyStore.get? keyId = some (.symmetric key) ∧
        h'.keyStore.get? keyId = some (.symmetric key')) ∨
      ∃ key key', StoredKey.SamePair C key key' ∧
        h.keyStore.get? keyId = some (.ellipticCurve key) ∧
        h'.keyStore.get? keyId = some (.ellipticCurve key') := by
  have hrel := a.keyStore keyId
  rcases hk : h.keyStore.get? keyId with _ | x <;> rcases hk' : h'.keyStore.get? keyId with _ | y
  · exact Or.inl ⟨rfl, rfl⟩
  · rw [hk, hk'] at hrel
    cases hrel
  · rw [hk, hk'] at hrel
    cases hrel
  · rw [hk, hk'] at hrel
    obtain ⟨hsame⟩ := hrel
    cases hsame with
    | symmetric hs => exact Or.inr (Or.inl ⟨_, _, hs, rfl, rfl⟩)
    | ellipticCurve hp => exact Or.inr (Or.inr ⟨_, _, hp, rfl, rfl⟩)

theorem Alike.set (a : Alike D C h h') {x y : StoredKey PrivateKey} (hxy : StoredKey.Same D C x y)
    (keyId : String) (k : String) : Option.Rel (StoredKey.Same D C)
      ((h.keyStore.set keyId x).get? k) ((h'.keyStore.set keyId y).get? k) := by
  rw [Dict.get?_set, Dict.get?_set]
  split
  · exact Option.Rel.some hxy
  · exact a.keyStore k

theorem Alike.keys_succ (a : Alike D C h h') (n : Nat) :
    StoredKey.SameSymmetric D C (h.keys.advance.draw (h.keys.advance.draws + n))
      (h'.keys.advance.draw (h'.keys.advance.draws + n)) := by
  have hn := a.keys (1 + n)
  rwa [← Nat.add_assoc, ← Nat.add_assoc] at hn

theorem Alike.privateKeys_succ (a : Alike D C h h') (n : Nat) :
    StoredKey.SamePair C (h.privateKeys.advance.draw (h.privateKeys.advance.draws + n))
      (h'.privateKeys.advance.draw (h'.privateKeys.advance.draws + n)) := by
  have hn := a.privateKeys (1 + n)
  rwa [← Nat.add_assoc, ← Nat.add_assoc] at hn

theorem Alike.storeKey (a : Alike D C h h') (keyId : String) :
    Alike D C (h.storeKey keyId) (h'.storeKey keyId) where
  keyStore := a.set (.symmetric (a.keys 0)) keyId
  failMode := a.failMode
  keys := a.keys_succ
  privateKeys := a.privateKeys
  ivs := a.ivs
  nonces := a.nonces
  signing := a.signing

theorem Alike.encryptWith (a : Alike D C h h') {key key' : Bytes}
    (hs : StoredKey.SameSymmetric D C key key') (plaintext : Bytes) :
    (h.encryptWith C key plaintext).1 = (h'.encryptWith C key' plaintext).1 ∧
      Alike D C (h.encryptWith C key plaintext).2 (h'.encryptWith C key' plaintext).2 := by
  refine ⟨?_, { a with ivs := congrArg RandomSource.advance a.ivs }⟩
  simp only [CryptoDriver.encryptWith, a.ivs, hs.encrypt]

theorem Alike.step (a : Alike D C h h') (call : DriverCall) :
    (CryptoDriver.step D C h call).1 = (CryptoDriver.step D C h' call).1 ∧
      Alike D C (CryptoDriver.step D C h call).2 (CryptoDriver.step D C h' call).2 := by
  have hfail := a.checkFail
  let encrypted (o : Bytes × Bytes × Bytes) : Except DriverError DriverValue :=
    .ok (.sealed o.1 o.2.1 o.2.2)
  cases call with
  | simulateFailure fail => exact ⟨rfl, { a with failMode := rfl }⟩
  | sha256 data =>
    refine ⟨?_, a⟩
    simp only [CryptoDriver.step, CryptoDriver.sha256, hfail]
  | generateNonce =>
    simp only [CryptoDriver.step, generateNonce, hfail, a.nonces]
    rcases h'.checkFail with _ | _
    · exact ⟨rfl, a⟩
    · exact ⟨rfl, { a with nonces := rfl }⟩
  | generateKeyPair keyId =>
    simp only [CryptoDriver.step, generateKeyPair, hfail]
    rcases h'.checkFail with _ | _
    · exact ⟨rfl, a⟩
    · exact ⟨rfl, { a with keyStore := a.set (.ellipticCurve (a.privateKeys 0)) keyId
                           privateKeys := a.privateKeys_succ }⟩
  | generateSymmetricKey keyId =>
    simp only [CryptoDriver.step, generateSymmetricKey, hfail]
    rcases h'.checkFail with _ | _
    · exact ⟨rfl, a⟩
    · exact ⟨rfl, a.storeKey keyId⟩
  | getPublicKeyPem keyId =>
    refine ⟨?_, a⟩
    simp only [CryptoDriver.step, getPublicKeyPem, hfail]
    rcases a.key keyId with ⟨hk, hk'⟩ | ⟨key, key', -, hk, hk'⟩ | ⟨key, key', hp, hk, hk'⟩
    · rw [hk, hk']
    · rw [hk, hk']
    · rw [hk, hk']
      simp only [hp.publicKeyPem]
  | sign keyId data =>
    simp only [CryptoDriver.step, CryptoDriver.sign, hfail, a.signing]
    rcases h'.checkFail with _ | _
    · exact ⟨rfl, a⟩
    · rcases a.key keyId with ⟨hk, hk'⟩ | ⟨key, key', -, hk, hk'⟩ | ⟨key, key', hp, hk, hk'⟩
      · rw [hk, hk']
        exact ⟨rfl, a⟩
      · rw [hk, hk']
        exact ⟨rfl, a⟩
      · rw [hk, hk']
        simp only [hp.sign]
        exact ⟨rfl, { a with signing := rfl }⟩
  | verify keyId data signature =>
    refine ⟨?_, a⟩
    simp only [CryptoDriver.step, CryptoDriver.verify, hfail]
    rcases a.key keyId with ⟨hk, hk'⟩ | ⟨key, key', -, hk, hk'⟩ | ⟨key, key', hp, hk, hk'⟩
    · rw [hk, hk']
    · rw [hk, hk']
    · rw [hk, hk']
      simp only [hp.verify]
  | aesGcmEncrypt keyId plaintext =>
    simp only [CryptoDriver.step, aesGcmEncrypt, hfail]
    rcases h'.checkFail with _ | _
    · exact ⟨rfl, a⟩
    · rcases a.key keyId with ⟨hk, hk'⟩ | ⟨key, key', hs, hk, hk'⟩ | ⟨key, key', -, hk, hk'⟩
      · rw [hk, hk']
        obtain ⟨hout, hnext⟩ := (a.storeKey keyId).encryptWith (a.keys 0) plaintext
        exact ⟨congrArg encrypted hout, hnext⟩
      · rw [hk, hk']
        obtain ⟨hout, hnext⟩ := a.encryptWith hs plaintext
        exact ⟨congrArg encrypted hout, hnext⟩
      · rw [hk, hk']
        exact ⟨rfl, a⟩
  | aesGcmDecrypt keyId ciphertext nonce tag =>
    refine ⟨?_, a⟩
    simp only [CryptoDriver.step, aesGcmDecrypt, hfail]
    rcases a.key keyId with ⟨hk, hk'⟩ | ⟨key, key', hs, hk, hk'⟩ | ⟨key, key', -, hk, hk'⟩
    · rw [hk, hk']
    · rw [hk, hk']
      simp only [hs.decrypt]
    · rw [hk, hk']
  | hmacSha256 keyId data =>
    simp only [CryptoDriver.step, hmacSha256, hfail]
    rcases h'.checkFail with _ | _
    · exact ⟨rfl, a⟩
    · rcases a.key keyId with ⟨hk, hk'⟩ | ⟨key, key', hs, hk, hk'⟩ | ⟨key, key', -, hk, hk'⟩
      · rw [hk, hk']
        exact ⟨congrArg (fun b => Except.ok (DriverValue.bytes b)) ((a.keys 0).hmac data),
          a.storeKey keyId⟩
      · rw [hk, hk']
        exact ⟨congrArg (fun b => Except.ok (DriverValue.bytes b)) (hs.hmac data), a⟩
      · rw [hk, hk']
        exact ⟨rfl, a⟩

theorem step_of_raised {call : DriverCall} {e : DriverError}
    (he : (CryptoDriver.step D C h call).1 = .error e) : (CryptoDriver.step D C h call).2 = h := by
  cases call with
  | generateKeyPair keyId =>
    simp only [CryptoDriver.step, generateKeyPair] at he ⊢
    rcases hf : h.checkFail with _ | _
    · rfl
    · rw [hf] at he
      cases he
  | sign keyId data =>
    simp only [CryptoDriver.step, CryptoDriver.sign] at he ⊢
    rcases hf : h.checkFail with _ | _
    · rfl
    · rw [hf] at he
      rcases hk : h.keyStore.get? keyId with _ | ⟨key⟩ | ⟨key⟩
      · rfl
      · rfl
      · rw [hk] at he
        cases he
  | aesGcmEncrypt keyId plaintext =>
    simp only [CryptoDriver.step, aesGcmEncrypt] at he ⊢
    rcases hf : h.checkFail with _ | _
    · rfl
    · rw [hf] at he
      rcases hk : h.keyStore.get? keyId with _ | ⟨key⟩ | ⟨key⟩
      · rw [hk] at he
        cases he
      · rw [hk] at he
        cases he
      · rfl
  | generateNonce =>
    simp only [CryptoDriver.step, generateNonce] at he ⊢
    rcases hf : h.checkFail with _ | _
    · rfl
    · rw [hf] at he
      cases he
  | generateSymmetricKey keyId =>
    simp only [CryptoDriver.step, generateSymmetricKey] at he ⊢
    rcases hf : h.checkFail with _ | _
    · rfl
    · rw [hf] at he
      cases he
  | hmacSha256 keyId data =>
    simp only [CryptoDriver.step, hmacSha256] at he ⊢
    rcases hf : h.checkFail with _ | _
    · rfl
    · rw [hf] at he
      rcases hk : h.keyStore.get? keyId with _ | ⟨key⟩ | ⟨key⟩
      · rw [hk] at he
        cases he
      · rw [hk] at he
        cases he
      · rfl
  | getPublicKeyPem keyId => rfl
  | verify keyId data signature => rfl
  | sha256 data => rfl
  | aesGcmDecrypt keyId ciphertext nonce tag => rfl
  | simulateFailure fail => cases he

end CryptoDriver

namespace CryptoServices
variable {PrivateKey : Type} {D : Digests} {C : Ciphers PrivateKey}
  {c c' : CryptoServices PrivateKey}

/-- Two crypto stacks that differ in their keys only. -/
structure Alike (D : Digests) (C : Ciphers PrivateKey) (c c' : CryptoServices PrivateKey) :
    Prop where
  driver : CryptoDriver.Alike D C c.driver c'.driver
  state : c.state = c'.state
  hashContexts : c.hashContexts = c'.hashContexts

theorem Alike.request (a : Alike D C c c') (call : ServiceCall) :
    c.request call = c'.request call := by
  cases call with
  | hashFinish ctxId => simp only [CryptoServices.request, a.hashContexts]
  | _ => rfl

theorem Alike.step (a : Alike D C c c') (call : ServiceCall) :
    (CryptoServices.step D C c call).1 = (CryptoServices.step D C c' call).1 ∧
      Alike D C (CryptoServices.step D C c call).2 (CryptoServices.step D C c' call).2 := by
  cases hjob : call.isJob with
  | true =>
    obtain ⟨r, hr, he⟩ := step_of_isJob D C c hjob
    obtain ⟨r', hr', he'⟩ := step_of_isJob D C c' hjob
    rw [a.request, hr'] at hr
    cases hr
    obtain ⟨hout, hnext⟩ := a.driver.step r
    rw [he, he', hout]
    exact ⟨rfl, hnext, rfl, a.hashContexts⟩
  | false =>
    cases call with
    | hashUpdate ctxId chunk =>
      refine ⟨rfl, a.driver, a.state, ?_⟩
      simp only [CryptoServices.step, hashUpdate, a.hashContexts]
    | hashFinish ctxId =>
      simp only [CryptoServices.step, hashFinish, a.hashContexts]
      cases c'.hashContexts.get? ctxId with
      | none => exact ⟨rfl, a⟩
      | some chunks =>
        simp only [CryptoDriver.sha256, a.driver.checkFail]
        exact ⟨rfl, a.driver, a.state, rfl⟩
    | driver call =>
      obtain ⟨hout, hnext⟩ := a.driver.step call
      exact ⟨congrArg (Except.mapError ServiceError.driver) hout, hnext, a.state, a.hashContexts⟩
    | _ => cases hjob

/-- **Keys do not leave the crypto stack.** No run of calls tells apart two stacks that hold, and
will draw, keys that each primitive by itself cannot tell apart. -/
theorem keys_confined (a : Alike D C c c') (calls : List ServiceCall) :
    (machine D C).outputs c calls = (machine D C).outputs c' calls :=
  Mealy.outputs_congr (fun call a => a.step call) a calls

/-! Jobs and what they leave behind. -/

def lastVerdict (entries : List (ServiceCall × Except ServiceError DriverValue)) :
    Option CSMState :=
  (entries.filter fun e => e.1.isJob).getLast?.map fun e => .verdict e.2

theorem lastVerdict_cons (e : ServiceCall × Except ServiceError DriverValue)
    (entries : List (ServiceCall × Except ServiceError DriverValue)) (s : CSMState) :
    (lastVerdict (e :: entries)).getD s =
      (lastVerdict entries).getD (if e.1.isJob then .verdict e.2 else s) := by
  unfold lastVerdict
  rw [List.filter_cons]
  split
  · rw [List.getLast?_cons, Option.map_some, Option.getD_some]
    cases (entries.filter fun e => e.1.isJob).getLast? <;> rfl
  · rfl

theorem step_state (D : Digests) (C : Ciphers PrivateKey) (c : CryptoServices PrivateKey)
    (call : ServiceCall) : (CryptoServices.step D C c call).2.state =
      if call.isJob then .verdict (CryptoServices.step D C c call).1 else c.state := by
  cases hjob : call.isJob with
  | true =>
    obtain ⟨r, -, he⟩ := step_of_isJob D C c hjob
    rw [he, if_pos rfl]
    cases (c.driver.step D C r).1 <;> rfl
  | false =>
    rw [if_neg Bool.false_ne_true]
    cases call with
    | hashFinish ctxId =>
      simp only [CryptoServices.step, hashFinish]
      cases c.hashContexts.get? ctxId <;> rfl
    | hashUpdate ctxId chunk => rfl
    | driver call => rfl
    | _ => cases hjob

/-- The job state is `IDLE` until a job has run, and then says how the last one ended: it is never
left `ACTIVE`, and neither streaming hashes nor other users of the HSM move it. -/
theorem job_state (D : Digests) (C : Ciphers PrivateKey) (c : CryptoServices PrivateKey)
    (calls : List ServiceCall) : ((machine D C).exec c calls).state =
      (lastVerdict (calls.zip ((machine D C).outputs c calls))).getD c.state := by
  induction calls generalizing c with
  | nil => rfl
  | cons call calls ih =>
    rw [Mealy.exec_cons, ih, Mealy.outputs, List.zip_cons_cons, lastVerdict_cons]
    exact congrArg _ (step_state D C c call)

/-- A finish takes its context out even when the hash is refused. -/
def leavesTrace (call : ServiceCall) (answer : Except ServiceError DriverValue) : Bool :=
  answer.isOk || match call with
    | .hashFinish _ => true
    | _ => false

theorem step_of_traceless {call : ServiceCall}
    (h : ¬leavesTrace call (CryptoServices.step D C c call).1) :
    (CryptoServices.step D C c call).2.driver = c.driver ∧
      (CryptoServices.step D C c call).2.hashContexts = c.hashContexts := by
  have hraised : ∀ {r}, (CryptoDriver.step D C c.driver r).1.isOk = false →
      (CryptoDriver.step D C c.driver r).2 = c.driver := by
    intro r hr
    cases he : (CryptoDriver.step D C c.driver r).1 with
    | ok value =>
      rw [he] at hr
      cases hr
    | error e => exact CryptoDriver.step_of_raised he
  cases hjob : call.isJob with
  | true =>
    obtain ⟨r, -, he⟩ := step_of_isJob D C c hjob
    rw [he] at h ⊢
    refine ⟨hraised ?_, rfl⟩
    cases hr : (CryptoDriver.step D C c.driver r).1 with
    | ok value =>
      rw [hr] at h
      exact absurd rfl h
    | error e => rfl
  | false =>
    cases call with
    | hashUpdate ctxId chunk => exact absurd rfl h
    | hashFinish ctxId => exact absurd (Bool.or_true _) h
    | driver call =>
      refine ⟨hraised ?_, rfl⟩
      cases hr : (CryptoDriver.step D C c.driver call).1 with
      | ok value =>
        simp only [CryptoServices.step, hr] at h
        exact absurd rfl h
      | error e => rfl
    | _ => cases hjob

theorem step_congr (hd : c'.driver = c.driver) (hc : c'.hashContexts = c.hashContexts)
    (call : ServiceCall) :
    (CryptoServices.step D C c' call).1 = (CryptoServices.step D C c call).1 ∧
      (CryptoServices.step D C c' call).2.driver = (CryptoServices.step D C c call).2.driver ∧
      (CryptoServices.step D C c' call).2.hashContexts =
        (CryptoServices.step D C c call).2.hashContexts := by
  -- the job state plays no part in what a call answers and does to the rest
  obtain ⟨driver, state, hashContexts⟩ := c
  obtain ⟨driver', state', hashContexts'⟩ := c'
  cases hd
  cases hc
  cases hjob : call.isJob with
  | true =>
    obtain ⟨r, hr, he⟩ := step_of_isJob D C ⟨driver, state, hashContexts⟩ hjob
    obtain ⟨r', hr', he'⟩ := step_of_isJob D C ⟨driver, state', hashContexts⟩ hjob
    obtain rfl : r = r' := by
      cases call <;> exact Option.some.inj (hr.symm.trans hr')
    rw [he, he']
    exact ⟨rfl, rfl, rfl⟩
  | false =>
    cases call with
    | hashFinish ctxId =>
      simp only [CryptoServices.step, hashFinish]
      cases hashContexts.get? ctxId <;> exact ⟨rfl, rfl, rfl⟩
    | hashUpdate ctxId chunk => exact ⟨rfl, rfl, rfl⟩
    | driver call => exact ⟨rfl, rfl, rfl⟩
    | _ => cases hjob

/-- **Calls that raise can be left out of a run**: what the other calls answer and the keys, random
sources and hash contexts in the end are the same without them. Only a refused finish counts. -/
theorem failed_calls_inert (D : Digests) (C : Ciphers PrivateKey)
    (c : CryptoServices PrivateKey) (calls : List ServiceCall) :
    let kept := (machine D C).kept leavesTrace c calls
    (machine D C).outputs c kept =
        ((calls.zip ((machine D C).outputs c calls)).filter fun e => leavesTrace e.1 e.2).map
          Prod.snd ∧
      ((machine D C).exec c kept).driver = ((machine D C).exec c calls).driver ∧
      ((machine D C).exec c kept).hashContexts = ((machine D C).exec c calls).hashContexts := by
  let R : CryptoServices PrivateKey → CryptoServices PrivateKey → Prop := fun s t =>
    t.driver = s.driver ∧ t.hashContexts = s.hashContexts
  apply Mealy.outputs_kept (M := machine D C) (R := R) _ _ ⟨rfl, rfl⟩
  · rintro s t call ⟨hd, hc⟩ -
    exact step_congr hd hc call
  · rintro s t call ⟨hd, hc⟩ hraised
    obtain ⟨hd', hc'⟩ := step_of_traceless hraised
    exact ⟨hd.trans hd'.symm, hc.trans hc'.symm⟩

theorem same_padded : StoredKey.SameSymmetric .standard recordedCiphers [1, 2, 3] [1, 2, 3, 0] where
  hmac data := by
  -- HMAC fills a short key up with zero bytes, so it does not see one more of them
    have hblock : Sha256.blockKey [1, 2, 3] = Sha256.blockKey [1, 2, 3, 0] := rfl
    change Sha256.hmac _ data = Sha256.hmac _ data
    rw [Sha256.hmac, Sha256.hmac, hblock]
  encrypt nonce data := by
    have hk : ([1, 2, 3] : Bytes) ≠ zeros 32 := by decide
    have hk' : ([1, 2, 3, 0] : Bytes) ≠ zeros 32 := by decide
    simp only [recordedCiphers, hk, hk', false_and, if_false]
  decrypt nonce data := by
    have hk : ([1, 2, 3] : Bytes) ≠ zeros 32 := by decide
    have hk' : ([1, 2, 3, 0] : Bytes) ≠ zeros 32 := by decide
    simp only [recordedCiphers, hk, hk', false_and, if_false]

def holding (key : Bytes) : CryptoServices Bytes :=
  { recordedServices with
    driver := { recordedServices.driver with
      keyStore := Dict.empty.set "mac" (.symmetric key) } }

theorem keys_confined_padded :
    (machine .standard recordedCiphers).outputs (holding [1, 2, 3])
        (.computeMac "mac" [7] :: busyCalls) =
      (machine .standard recordedCiphers).outputs (holding [1, 2, 3, 0])
        (.computeMac "mac" [7] :: busyCalls) := by
  have halike : CryptoDriver.Alike .standard recordedCiphers (holding [1, 2, 3]).driver
      (holding [1, 2, 3, 0]).driver :=
    { keyStore := fun keyId => by
        rw [holding, holding, Dict.get?_set, Dict.get?_set]
        split
        · exact Option.Rel.some (.symmetric same_padded)
        · exact Option.Rel.none
      failMode := rfl
      keys := fun n => ⟨fun _ => rfl, fun _ _ => rfl, fun _ _ => rfl⟩
      privateKeys := fun n => ⟨rfl, fun _ _ => rfl, fun _ _ => rfl⟩
      ivs := rfl
      nonces := rfl
      signing := rfl }
  exact keys_confined ⟨halike, rfl, rfl⟩ _

end CryptoServices
end SecOC
