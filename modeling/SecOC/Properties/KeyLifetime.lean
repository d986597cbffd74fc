import SecOC.Sim.CryptoServices

/-! How long a key of the HSM lives: until a key is generated under its id. What was wrapped or
signed under it opens or verifies for just as long, whatever else is asked of the crypto stack. -/

namespace SecOC
open Py

/-- What is documented of the ciphers: a decryption inverts the encryption, which appends a tag
of 16 bytes, and a signature verifies under its own key. -/
structure Ciphers.Lawful {PrivateKey : Type} (C : Ciphers PrivateKey) : Prop where
  encrypt_length : ∀ key nonce data, (C.encrypt key nonce data).length = data.length + 16
  decrypt_encrypt : ∀ key nonce data, C.decrypt key nonce (C.encrypt key nonce data) = some data
  verify_sign : ∀ key draw data, C.verify key (C.sign key draw data) data = true

namespace CryptoDriver
variable {PrivateKey : Type}

structure Later (h h' : CryptoDriver PrivateKey) : Prop where
  keys : h'.keys.draw = h.keys.draw
  keys_le : h.keys.draws ≤ h'.keys.draws
  privateKeys : h'.privateKeys.draw = h.privateKeys.draw
  privateKeys_le : h.privateKeys.draws ≤ h'.privateKeys.draws

theorem Later.refl (h : CryptoDriver PrivateKey) : Later h h := ⟨rfl, le_rfl, rfl, le_rfl⟩

theorem Later.trans {h h' h'' : CryptoDriver PrivateKey} (l : Later h h') (l' : Later h' h'') :
    Later h h'' where
  keys := l'.keys.trans l.keys
  keys_le := l.keys_le.trans l'.keys_le
  privateKeys := l'.privateKeys.trans l.privateKeys
  privateKeys_le := l.privateKeys_le.trans l'.privateKeys_le

def DrawnBetween (h h' : CryptoDriver PrivateKey) : StoredKey PrivateKey → Prop
  | .symmetric key => ∃ i, h.keys.draws ≤ i ∧ i < h'.keys.draws ∧ key = h.keys.draw i
  | .ellipticCurve key =>
    ∃ i, h.privateKeys.draws ≤ i ∧ i < h'.privateKeys.draws ∧ key = h.privateKeys.draw i

theorem DrawnBetween.later {h h' h'' : CryptoDriver PrivateKey} {y : StoredKey PrivateKey}
    (d : DrawnBetween h h' y) (l : Later h' h'') : DrawnBetween h h'' y := by
  cases y with
  | symmetric key =>
    obtain ⟨i, hle, hlt, hkey⟩ := d
    exact ⟨i, hle, hlt.trans_le l.keys_le, hkey⟩
  | ellipticCurve key =>
    obtain ⟨i, hle, hlt, hkey⟩ := d
    exact ⟨i, hle, hlt.trans_le l.privateKeys_le, hkey⟩

theorem DrawnBetween.earlier {h h' h'' : CryptoDriver PrivateKey} {y : StoredKey PrivateKey}
    (l : Later h h') (d : DrawnBetween h' h'' y) : DrawnBetween h h'' y := by
  cases y with
  | symmetric key =>
    obtain ⟨i, hle, hlt, hkey⟩ := d
    exact ⟨i, l.keys_le.trans hle, hlt, hkey.trans (congrFun l.keys i)⟩
  | ellipticCurve key =>
    obtain ⟨i, hle, hlt, hkey⟩ := d
    exact ⟨i, l.privateKeys_le.trans hle, hlt, hkey.trans (congrFun l.privateKeys i)⟩

def Regenerates (keyId : String) (h : CryptoDriver PrivateKey) (call : DriverCall) : Prop :=
  h.failMode = false ∧ (call = .generateKeyPair keyId ∨ call = .generateSymmetricKey keyId)

theorem stores_self {h : CryptoDriver PrivateKey} {keyId : String} {call : DriverCall}
    (hk : (h.keyStore.get? keyId).isSome) {y : StoredKey PrivateKey}
    (hs : h.stores call = some (keyId, y)) : Regenerates keyId h call := by
  have hlazy : ∀ k, (if h.failMode ∨ (h.keyStore.get? k).isSome then none
      else some (k, StoredKey.symmetric h.keys.value)) ≠ some (keyId, y) := by
    intro k he
    split at he
    · cases he
    · next hno =>
      cases he
      exact hno (Or.inr hk)
  have hup : ∀ k (x : StoredKey PrivateKey), (if h.failMode then none else some (k, x)) =
      some (keyId, y) → h.failMode = false ∧ k = keyId := by
    intro k x he
    split at he
    · cases he
    · next hf =>
      cases he
      exact ⟨Bool.eq_false_iff.mpr hf, rfl⟩
  cases call with
  | generateKeyPair k =>
    obtain ⟨hf, rfl⟩ := hup k _ hs
    exact ⟨hf, Or.inl rfl⟩
  | generateSymmetricKey k =>
    obtain ⟨hf, rfl⟩ := hup k _ hs
    exact ⟨hf, Or.inr rfl⟩
  | aesGcmEncrypt k plaintext => exact absurd hs (hlazy k)
  | hmacSha256 k data => exact absurd hs (hlazy k)
  | _ => cases hs

theorem stores_of_regenerates {h : CryptoDriver PrivateKey} {keyId : String} {call : DriverCall}
    (hr : Regenerates keyId h call) : ∃ y, h.stores call = some (keyId, y) := by
  obtain ⟨hf, rfl | rfl⟩ := hr
  · exact ⟨_, if_neg (Bool.eq_false_iff.mp hf)⟩
  · exact ⟨_, if_neg (Bool.eq_false_iff.mp hf)⟩

theorem step_key (D : Digests) (C : Ciphers PrivateKey) {h : CryptoDriver PrivateKey}
    {keyId : String} {x : StoredKey PrivateKey} (hk : h.keyStore.get? keyId = some x)
    (call : DriverCall) : let h' := (step D C h call).2
    Later h h' ∧
      ((¬Regenerates keyId h call ∧ h'.keyStore.get? keyId = some x) ∨
        (Regenerates keyId h call ∧
          ∃ y, h'.keyStore.get? keyId = some y ∧ DrawnBetween h h' y)) := by
  have hsome : (h.keyStore.get? keyId).isSome := by rw [hk]; rfl
  have hset : ∀ {k y}, h.stores call = some (k, y) →
      (step D C h call).2.keyStore = h.keyStore.set k y →
      DrawnBetween h (step D C h call).2 y →
      (¬Regenerates keyId h call ∧ (step D C h call).2.keyStore.get? keyId = some x) ∨
        (Regenerates keyId h call ∧ ∃ y, (step D C h call).2.keyStore.get? keyId = some y ∧
          DrawnBetween h (step D C h call).2 y) := by
    intro k y hs hstore hdrawn
    rw [hstore]
    by_cases hne : keyId = k
    · subst hne
      exact Or.inr ⟨stores_self hsome hs, y, Dict.get?_set_self _ _ _, hdrawn⟩
    · refine Or.inl ⟨fun hr => ?_, (Dict.get?_set_ne _ _ hne).trans hk⟩
      obtain ⟨z, hz⟩ := stores_of_regenerates hr
      rw [hs] at hz
      exact hne (congrArg Prod.fst (Option.some.inj hz)).symm
  rcases step_cases D C h call with ⟨hs, hstore, hkeys, hpairs⟩ |
    ⟨k, -, hs, hstore, hkeys, hpairs⟩ | ⟨k, -, hs, hstore, hkeys, hpairs⟩
  · refine ⟨⟨by rw [hkeys], by rw [hkeys], by rw [hpairs], by rw [hpairs]⟩, Or.inl ⟨?_, ?_⟩⟩
    · intro hr
      obtain ⟨y, hy⟩ := stores_of_regenerates hr
      rw [hs] at hy
      cases hy
    · rw [hstore, hk]
  · have hlt : h.keys.draws < (step D C h call).2.keys.draws := by
      rw [hkeys]
      exact Nat.lt_succ_self _
    exact ⟨⟨by rw [hkeys]; rfl, hlt.le, by rw [hpairs], by rw [hpairs]⟩,
      hset hs hstore ⟨h.keys.draws, le_rfl, hlt, rfl⟩⟩
  · have hlt : h.privateKeys.draws < (step D C h call).2.privateKeys.draws := by
      rw [hpairs]
      exact Nat.lt_succ_self _
    exact ⟨⟨by rw [hkeys], by rw [hkeys], by rw [hpairs]; rfl, hlt.le⟩,
      hset hs hstore ⟨h.privateKeys.draws, le_rfl, hlt, rfl⟩⟩

theorem aesGcmEncrypt_ok {C : Ciphers PrivateKey} (hC : C.Lawful) {h h' : CryptoDriver PrivateKey}
    {keyId : String} {plaintext ct nonce tag : Bytes}
    (he : h.aesGcmEncrypt C keyId plaintext = (.ok (ct, nonce, tag), h')) :
    nonce = h.ivs.value ∧ tag.length = 16 ∧ ∃ key,
      h'.keyStore.get? keyId = some (.symmetric key) ∧
        ct ++ tag = C.encrypt key nonce plaintext := by
  have hparts : ∀ key, tag = slice (C.encrypt key nonce plaintext) (some (-16)) none →
      ct = slice (C.encrypt key nonce plaintext) none (some (-16)) →
      tag.length = 16 ∧ ct ++ tag = C.encrypt key nonce plaintext := by
    intro key htag hct
    have hlen : (C.encrypt key nonce plaintext).length = plaintext.length + 16 :=
      hC.encrypt_length key nonce plaintext
    obtain ⟨body, rest, hsplit, hrest⟩ : ∃ body rest,
        C.encrypt key nonce plaintext = body ++ rest ∧ rest.length = 16 :=
      ⟨_, _, (List.take_append_drop plaintext.length _).symm, by rw [List.length_drop, hlen]; omega⟩
    have hne : rest ≠ [] := List.ne_nil_of_length_pos (hrest ▸ Nat.succ_pos 15)
    have hpos : (-16 : Int) = -(rest.length : Int) := by rw [hrest]; rfl
    rw [hsplit, hpos] at htag hct
    rw [slice_takeLast _ _ hne] at htag
    rw [slice_dropLast _ _ hne] at hct
    exact ⟨htag ▸ hrest, by rw [hsplit, hct, htag]⟩
  unfold aesGcmEncrypt checkFail at he
  cases hf : h.failMode with
  | true =>
    rw [hf] at he
    cases he
  | false =>
    rw [hf] at he
    rcases hk : h.keyStore.get? keyId with _ | ⟨key⟩ | ⟨key⟩
    · rw [hk] at he
      cases he
      obtain ⟨htag, hsealed⟩ := hparts h.keys.value rfl rfl
      exact ⟨rfl, htag, h.keys.value, Dict.get?_set_self _ _ _, hsealed⟩
    · rw [hk] at he
      cases he
      obtain ⟨htag, hsealed⟩ := hparts key rfl rfl
      exact ⟨rfl, htag, key, hk, hsealed⟩
    · rw [hk] at he
      cases he

theorem sign_ok {C : Ciphers PrivateKey} {h h' : CryptoDriver PrivateKey} {keyId : String}
    {data signature : Bytes} (hs : h.sign C keyId data = (.ok signature, h')) :
    ∃ key, h'.keyStore.get? keyId = some (.ellipticCurve key) ∧
      signature = C.sign key h.signing.value data := by
  unfold sign checkFail at hs
  cases hf : h.failMode with
  | true =>
    rw [hf] at hs
    cases hs
  | false =>
    rw [hf] at hs
    rcases hk : h.keyStore.get? keyId with _ | ⟨key⟩ | ⟨key⟩
    · rw [hk] at hs
      cases hs
    · rw [hk] at hs
      cases hs
    · rw [hk] at hs
      cases hs
      exact ⟨key, hk, rfl⟩

end CryptoDriver

namespace CryptoServices
open CryptoDriver
variable {PrivateKey : Type}

def Regenerates (keyId : String) (c : CryptoServices PrivateKey) (call : ServiceCall) : Prop :=
  c.driver.failMode = false ∧ (call = .driver (.generateKeyPair keyId) ∨
    call = .driver (.generateSymmetricKey keyId))

instance (keyId : String) (c : CryptoServices PrivateKey) (call : ServiceCall) :
    Decidable (Regenerates keyId c call) :=
  inferInstanceAs (Decidable (_ ∧ (_ ∨ _)))

theorem regenerates_iff (keyId : String) (c : CryptoServices PrivateKey) (call : ServiceCall) :
    Regenerates keyId c call ↔
      ∃ r, c.request call = some r ∧ CryptoDriver.Regenerates keyId c.driver r := by
  constructor
  · rintro ⟨hf, rfl | rfl⟩
    · exact ⟨_, rfl, hf, Or.inl rfl⟩
    · exact ⟨_, rfl, hf, Or.inr rfl⟩
  · rintro ⟨r, hr, hf, hcall⟩
    refine ⟨hf, ?_⟩
    cases call with
    | driver call =>
      cases hr
      exact hcall.imp (congrArg _) (congrArg _)
    | hashFinish ctxId =>
      obtain ⟨chunks, -, rfl⟩ := Option.map_eq_some_iff.mp hr
      rcases hcall with hcall | hcall <;> cases hcall
    | _ => cases hr <;> rcases hcall with hcall | hcall <;> cases hcall

theorem step_key (D : Digests) (C : Ciphers PrivateKey) {c : CryptoServices PrivateKey}
    {keyId : String} {x : StoredKey PrivateKey} (hk : c.driver.keyStore.get? keyId = some x)
    (call : ServiceCall) : let c' := (step D C c call).2
    Later c.driver c'.driver ∧
      ((¬Regenerates keyId c call ∧ c'.driver.keyStore.get? keyId = some x) ∨
        (Regenerates keyId c call ∧
          ∃ y, c'.driver.keyStore.get? keyId = some y ∧ DrawnBetween c.driver c'.driver y)) := by
  simp only [regenerates_iff, step_driver]
  cases c.request call with
  | none =>
    refine ⟨Later.refl _, Or.inl ⟨?_, hk⟩⟩
    rintro ⟨r, hr, -⟩
    cases hr
  | some r =>
    obtain ⟨hlater, hkey⟩ := CryptoDriver.step_key D C hk r
    simpa only [Option.some.injEq, exists_eq_left', Option.elim_some] using And.intro hlater hkey

theorem key_run (D : Digests) (C : Ciphers PrivateKey) {c : CryptoServices PrivateKey}
    {keyId : String} {x : StoredKey PrivateKey} (hk : c.driver.keyStore.get? keyId = some x)
    (calls : List ServiceCall) : let c' := (machine D C).exec c calls
    Later c.driver c'.driver ∧
      (((machine D C).Meets (fun s call => ¬Regenerates keyId s call) c calls ∧
          c'.driver.keyStore.get? keyId = some x) ∨
        (¬(machine D C).Meets (fun s call => ¬Regenerates keyId s call) c calls ∧
          ∃ y, c'.driver.keyStore.get? keyId = some y ∧ DrawnBetween c.driver c'.driver y)) := by
  induction calls generalizing c x with
  | nil => exact ⟨Later.refl _, Or.inl ⟨trivial, hk⟩⟩
  | cons call calls ih =>
    obtain ⟨hlater, ⟨hkept, hk'⟩ | ⟨hrenewed, y, hk', hy⟩⟩ := step_key D C hk call
    · obtain ⟨hlater', ⟨hrest, hend⟩ | ⟨hrest, z, hend, hz⟩⟩ := ih hk'
      · exact ⟨hlater.trans hlater', Or.inl ⟨⟨hkept, hrest⟩, hend⟩⟩
      · exact ⟨hlater.trans hlater',
          Or.inr ⟨fun h => hrest h.2, z, hend, hz.earlier hlater⟩⟩
    · obtain ⟨hlater', ⟨-, hend⟩ | ⟨-, z, hend, hz⟩⟩ := ih hk'
      · exact ⟨hlater.trans hlater',
          Or.inr ⟨fun h => h.1 hrenewed, y, hend, hy.later hlater'⟩⟩
      · exact ⟨hlater.trans hlater',
          Or.inr ⟨fun h => h.1 hrenewed, z, hend, hz.earlier hlater⟩⟩

theorem wrapKey_ok {C : Ciphers PrivateKey} (hC : C.Lawful) {c c₀ : CryptoServices PrivateKey}
    {keyId : String} {plaintext blob ct nonce tag : Bytes}
    (hwrap : c.wrapKey C keyId plaintext = (.ok blob, c₀))
    (hiv : c.driver.ivs.value.length = 12) (hblob : blob = ct ++ nonce ++ tag)
    (hnonce : nonce.length = 12) (htag : tag.length = 16) :
    ∃ key, c₀.driver.keyStore.get? keyId = some (.symmetric key) ∧
      ct ++ tag = C.encrypt key nonce plaintext := by
  rcases he : c.driver.aesGcmEncrypt C keyId plaintext with ⟨_ | ⟨ct', nonce', tag'⟩, h'⟩
  · simp only [wrapKey, job, he] at hwrap
    cases hwrap
  · simp only [wrapKey, job, he] at hwrap
    cases hwrap
    obtain ⟨rfl, htag', key, hk, hsealed⟩ := aesGcmEncrypt_ok hC he
    obtain ⟨hfront, rfl⟩ := List.append_inj' hblob (htag'.trans htag.symm)
    obtain ⟨rfl, rfl⟩ := List.append_inj' hfront (hiv.trans hnonce.symm)
    exact ⟨key, hk, hsealed⟩

/-- **What was wrapped opens again just as long as no key is generated under the wrapping key's
id.** The blob is split where its nonce and its tag begin. -/
theorem wrapped_opens_iff (D : Digests) {C : Ciphers PrivateKey} (hC : C.Lawful)
    {c c₀ : CryptoServices PrivateKey} {keyId : String} {plaintext blob : Bytes}
    (hwrap : c.wrapKey C keyId plaintext = (.ok blob, c₀))
    (hiv : c.driver.ivs.value.length = 12) {ct nonce tag : Bytes}
    (hblob : blob = ct ++ nonce ++ tag) (hnonce : nonce.length = 12) (htag : tag.length = 16)
    (calls : List ServiceCall)
    (hother : ∀ key, DrawnBetween c₀.driver ((machine D C).exec c₀ calls).driver
      (.symmetric key) → C.decrypt key nonce (ct ++ tag) ≠ some plaintext) :
    ((machine D C).exec c₀ calls).driver.aesGcmDecrypt C keyId ct nonce tag = .ok plaintext ↔
      ((machine D C).exec c₀ calls).driver.failMode = false ∧
        (machine D C).Meets (fun s call => ¬Regenerates keyId s call) c₀ calls := by
  obtain ⟨key, hk, hsealed⟩ := wrapKey_ok hC hwrap hiv hblob hnonce htag
  obtain ⟨-, hkey⟩ := key_run D C hk calls
  generalize hend : (machine D C).exec c₀ calls = e at hother hkey
  unfold aesGcmDecrypt checkFail
  cases hf : e.driver.failMode with
  | true =>
    refine iff_of_false ?_ fun h => Bool.noConfusion h.1
    intro he
    cases he
  | false =>
    rcases hkey with ⟨hkept, hk'⟩ | ⟨hrenewed, y, hk', hy⟩
    · refine iff_of_true ?_ ⟨rfl, hkept⟩
      rw [hk', hsealed]
      simp only [hC.decrypt_encrypt]
      rfl
    · refine iff_of_false ?_ fun h => hrenewed h.2
      rw [hk']
      cases y with
      | ellipticCurve key' =>
        intro hopen
        cases hopen
      | symmetric key' =>
        have hne := hother key' hy
        intro hopen
        cases hdec : C.decrypt key' nonce (ct ++ tag) with
        | none =>
          simp only [hdec] at hopen
          cases hopen
        | some p =>
          simp only [hdec] at hopen
          cases hopen
          exact hne hdec

/-- **A signature verifies just as long as no key is generated under the signing key's id.** -/
theorem signature_verifies_iff (D : Digests) {C : Ciphers PrivateKey} (hC : C.Lawful)
    {c : CryptoServices PrivateKey} {h₀ : CryptoDriver PrivateKey} {keyId : String}
    {data signature : Bytes} (hsign : c.driver.sign C keyId data = (.ok signature, h₀))
    (calls : List ServiceCall)
    (hother : ∀ key, DrawnBetween h₀ ((machine D C).exec { c with driver := h₀ } calls).driver
      (.ellipticCurve key) → C.verify key signature data = false) :
    (((machine D C).exec { c with driver := h₀ } calls).verifySignature C data signature keyId).1 =
        .ok true ↔
      ((machine D C).exec { c with driver := h₀ } calls).driver.failMode = false ∧
        (machine D C).Meets (fun s call => ¬Regenerates keyId s call)
          { c with driver := h₀ } calls := by
  obtain ⟨key, hk, rfl⟩ := sign_ok hsign
  obtain ⟨-, hkey⟩ := key_run D C (c := { c with driver := h₀ }) hk calls
  generalize hend : (machine D C).exec { c with driver := h₀ } calls = e at hother hkey
  rw [verifySignature, job_eq]
  unfold verify checkFail
  cases hf : e.driver.failMode with
  | true =>
    refine iff_of_false ?_ fun h => Bool.noConfusion h.1
    intro he
    cases he
  | false =>
    rcases hkey with ⟨hkept, hk'⟩ | ⟨hrenewed, y, hk', hy⟩
    · refine iff_of_true ?_ ⟨rfl, hkept⟩
      rw [hk']
      simp only [hC.verify_sign]
      rfl
    · refine iff_of_false ?_ fun h => hrenewed h.2
      rw [hk']
      cases y with
      | symmetric key' =>
        intro he
        cases he
      | ellipticCurve key' =>
        simp only [hother key' hy]
        intro he
        cases he

/-! The runs below use one encryption and one signature as the ciphers really give them: sixteen
zero bytes under the zero key and nonce, and the word `sample` under the key and the draw of a
published example of P-256. On everything else the ciphers stand in for real ones. -/

def zeros (n : Nat) : Bytes := List.replicate n 0

def recordedSealed : Bytes :=
  [206, 167, 64, 61, 77, 96, 107, 110, 7, 78, 197, 211, 186, 243, 157, 24, 208, 209, 200, 167,
   153, 153, 107, 240, 38, 91, 152, 181, 212, 138, 185, 25]

def recordedPad : Bytes := List.replicate 16 255

def samplePrivateKey : Bytes :=
  [201, 175, 169, 216, 69, 186, 117, 22, 107, 92, 33, 87, 103, 177, 214, 147, 78, 80, 195, 219,
   54, 232, 155, 18, 123, 138, 98, 43, 18, 15, 103, 33]

def sampleDraw : Bytes :=
  [166, 227, 197, 125, 208, 26, 190, 144, 8, 101, 56, 57, 131, 85, 221, 76, 59, 23, 170, 135, 51,
   130, 176, 242, 77, 97, 41, 73, 61, 138, 173, 96]

def sampleData : Bytes := [115, 97, 109, 112, 108, 101]

def sampleSignature : Bytes :=
  [48, 70, 2, 33, 0, 239, 212, 139, 42, 172, 182, 168, 253, 17, 64, 221, 156, 212, 94, 129, 214,
   157, 44, 135, 123, 86, 170, 249, 145, 195, 77, 14, 168, 78, 175, 55, 22, 2, 33, 0, 247, 203,
   28, 148, 45, 101, 124, 65, 212, 54, 199, 161, 182, 226, 159, 101, 243, 233, 0, 219, 185, 175,
   244, 6, 77, 196, 171, 47, 132, 58, 205, 168]

def recordedCiphers : Ciphers Bytes where
  publicKeyPem _ := []
  sign key draw data :=
    if key = samplePrivateKey ∧ draw = sampleDraw ∧ data = sampleData then sampleSignature else []
  verify key signature data :=
    signature = [] ∨ key = samplePrivateKey ∧ data = sampleData ∧ signature = sampleSignature
  encrypt key nonce data :=
    if key = zeros 32 ∧ nonce = zeros 12 ∧ data = zeros 16 then recordedSealed
    else data ++ recordedPad
  decrypt key nonce data :=
    if key = zeros 32 ∧ nonce = zeros 12 ∧ data = recordedSealed then
      some (zeros 16)
    else if data.drop (data.length - 16) = recordedPad then some (data.take (data.length - 16))
    else none

theorem recordedCiphers_lawful : recordedCiphers.Lawful where
  encrypt_length key nonce data := by
    simp only [recordedCiphers]
    split
    · next h =>
      rw [h.2.2]
      rfl
    · rw [List.length_append]
      rfl
  decrypt_encrypt key nonce data := by
    simp only [recordedCiphers]
    split
    · next h => rw [if_pos ⟨h.1, h.2.1, rfl⟩, h.2.2]
    · have hlen : (data ++ recordedPad).length - 16 = data.length := by
        rw [List.length_append]
        rfl
      have hne : data ++ recordedPad ≠ recordedSealed := by
        intro h
        have htail := (List.append_inj' (h.trans (List.take_append_drop 16 _).symm) rfl).2
        revert htail
        decide
      rw [if_neg fun h => hne h.2.2, hlen, List.drop_left, if_pos rfl, List.take_left]
  verify_sign key draw data := by
    simp only [recordedCiphers, decide_eq_true_eq]
    split
    · next h => exact Or.inr ⟨h.1, h.2.2, rfl⟩
    · exact Or.inl rfl

def recordedServices : CryptoServices Bytes :=
  new
    { keyStore := Dict.empty
      failMode := false
      keys := .new fun n => List.replicate 32 (UInt8.ofNat n)
      privateKeys := .new fun n =>
        if n = 0 then samplePrivateKey else List.replicate 32 (UInt8.ofNat n)
      ivs := .new fun n => List.replicate 12 (UInt8.ofNat n)
      nonces := .new fun n => List.replicate 32 (UInt8.ofNat n)
      signing := .new fun n => if n = 0 then sampleDraw else List.replicate 32 (UInt8.ofNat n) }

def busyCalls : List ServiceCall :=
  [.driver (.generateSymmetricKey "other"), .driver (.simulateFailure true),
    .driver (.generateSymmetricKey "kek"), .driver (.simulateFailure false),
    .wrapKey "kek" [1, 2, 3], .driver (.generateKeyPair "boot")]

theorem wrapped_opens_recorded :
    ((machine .standard recordedCiphers).exec
      (recordedServices.wrapKey recordedCiphers "kek" (zeros 16)).2
      busyCalls).driver.aesGcmDecrypt recordedCiphers "kek" (recordedSealed.take 16)
        (zeros 12) (recordedSealed.drop 16) = .ok (zeros 16) := by
  have hwrap : recordedServices.wrapKey recordedCiphers "kek" (zeros 16) =
      (.ok (recordedSealed.take 16 ++ zeros 12 ++ recordedSealed.drop 16),
        (recordedServices.wrapKey recordedCiphers "kek" (zeros 16)).2) := rfl
  refine (wrapped_opens_iff .standard recordedCiphers_lawful hwrap rfl rfl
    rfl rfl busyCalls ?_).mpr ⟨rfl, by decide⟩
  rintro key ⟨i, hlo, hhi, rfl⟩
  change 1 ≤ i at hlo
  change i < 2 at hhi
  obtain rfl : i = 1 := by omega
  decide

theorem signature_verifies_recorded :
    let s := recordedServices.driver.generateKeyPair "boot"
    let signed := s.2.sign recordedCiphers "boot" sampleData
    (((machine .standard recordedCiphers).exec { recordedServices with driver := signed.2 }
      (busyCalls.take 5)).verifySignature recordedCiphers sampleData sampleSignature "boot").1 =
        .ok true := by
  intro s signed
  have hsign : s.2.sign recordedCiphers "boot" sampleData = (.ok sampleSignature, signed.2) := rfl
  refine (signature_verifies_iff .standard recordedCiphers_lawful
    (c := { recordedServices with driver := s.2 }) hsign (busyCalls.take 5) ?_).mpr
    ⟨rfl, by decide⟩
  rintro key ⟨i, hlo, hhi, rfl⟩
  exact absurd hhi (Nat.not_lt.mpr hlo)

end CryptoServices
end SecOC
