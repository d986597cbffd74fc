import SecOC.Properties.Delivery

/-! Algorithm agility. The loader takes two algorithms and every layer below computes one of them.
A profile gets the MAC it names when that one is HMAC-SHA256, and switching the name changes no
MAC. -/

namespace SecOC
open Py FreshnessManager

/-- The two functions a profile can name. -/
structure Algorithms extends Digests where
  hmacSha512 : Bytes → Bytes → Bytes
  hmacSha512_length : ∀ key data, (hmacSha512 key data).length = 64

def digestSize (algorithm : String) : Nat := if algorithm = "HMAC-SHA512" then 64 else 32

namespace Algorithms
variable (A : Algorithms)

def named (algorithm : String) : Bytes → Bytes → Bytes :=
  if algorithm = "HMAC-SHA512" then A.hmacSha512 else A.hmacSha256

theorem named_length (algorithm : String) (key data : Bytes) :
    (A.named algorithm key data).length = digestSize algorithm := by
  unfold named digestSize
  split_ifs
  · exact A.hmacSha512_length key data
  · exact A.hmacSha256_length key data

theorem take_named_iff {algorithm : String} (h : algorithm ∈ Config.supportedAlgorithms)
    (key data : Bytes) (m : Nat) :
    (A.hmacSha256 key data).take m = (A.named algorithm key data).take m ↔
      algorithm = "HMAC-SHA256" ∨
        (A.hmacSha256 key data).take m = (A.hmacSha512 key data).take m := by
  simp only [Config.supportedAlgorithms, List.mem_cons, List.not_mem_nil, or_false] at h
  rcases h with rfl | rfl
  · exact iff_of_true rfl (Or.inl rfl)
  · rw [named, if_pos rfl, or_iff_right (by decide)]

end Algorithms

namespace Stack
variable {D : Digests} {s : Stack} {p : String} {t : Transport} {e : SecurityProfileEntry}

def UsesKey (s : Stack) (p : String) (e : SecurityProfileEntry) (key : Bytes) : Prop :=
  ∃ keyId, s.resolveKeyId p e = .ok keyId ∧ s.csm.hsm.failMode = false ∧
    s.csm.hsm.macKey keyId = .symmetric key

/-- `generate_mac` answers with as many bytes as the transport's authenticator has, the first ones
of the profile's own algorithm over payload and reduced counter. -/
def OwnMac (A : Algorithms) (s : Stack) (p : String) (e : SecurityProfileEntry) (t : Transport)
    (a : Bytes) (v : Int) : Prop :=
  ∃ mac key n m, (s.generateMac A.toDigests p a v t).1 = .ok mac ∧ s.UsesKey p e key ∧
    e.truncationLengths t = .ok ((n : ℕ), (m : ℕ)) ∧ mac.length = m ∧
    mac <+: A.named e.algorithm key (region a v n)

theorem MacReady.usesKey (R : MacReady s p t) (he : s.profiles.get? p = some e) :
    s.UsesKey p e R.key := by
  rw [← R.profile_of he]
  exact ⟨R.keyId, R.resolved, R.alive, R.stored⟩

theorem UsesKey.unique {key key' : Bytes} (h : s.UsesKey p e key) (h' : s.UsesKey p e key') :
    key = key' := by
  obtain ⟨keyId, hid, -, hkey⟩ := h
  obtain ⟨keyId', hid', -, hkey'⟩ := h'
  rw [hid] at hid'
  cases hid'
  rw [hkey] at hkey'
  exact KeyMaterial.symmetric.inj hkey'

theorem MacReady.of_generateMac {a mac : Bytes} {v : Int}
    (h : (s.generateMac D p a v t).1 = .ok mac) : Nonempty (MacReady s p t) := by
  by_contra hnone
  obtain ⟨error, c, n, -, he⟩ := generateMac_refused (D := D) (not_nonempty_iff.mp hnone) a v
  rw [he] at h
  cases h

theorem ownMac_iff (A : Algorithms) (he : s.profiles.get? p = some e)
    (hname : e.algorithm ∈ Config.supportedAlgorithms) {n m : Int}
    (hl : e.truncationLengths t = .ok (n, m)) (hsize : m ≤ digestSize e.algorithm) (a : Bytes)
    (v : Int) : OwnMac A s p e t a v ↔ 0 ≤ n ∧ 0 ≤ m ∧ ∃ key, s.UsesKey p e key ∧
      (e.algorithm = "HMAC-SHA256" ∨ (A.hmacSha256 key (region a v n.toNat)).take m.toNat =
        (A.hmacSha512 key (region a v n.toNat)).take m.toNat) := by
  simp only [← A.take_named_iff hname]
  constructor
  · rintro ⟨mac, key, n', m', hmac, hkey, hl', hlen, hprefix⟩
    obtain ⟨R⟩ := MacReady.of_generateMac hmac
    obtain ⟨hn, hm⟩ := R.lengths_of he hl'
    rw [hl] at hl'
    obtain ⟨rfl, rfl⟩ := Prod.mk.inj (Except.ok.inj hl')
    refine ⟨Int.natCast_nonneg _, Int.natCast_nonneg _, key, hkey, ?_⟩
    rw [R.generateMac_eq] at hmac
    have hcut : (A.hmacSha256 key (region a v n')).take m' = mac := by
      have h := Except.ok.inj hmac
      rwa [R.tag_eq_take hm, hn, (R.usesKey he).unique hkey] at h
    rw [Int.toNat_natCast, Int.toNat_natCast, hcut, ← hlen]
    exact List.prefix_iff_eq_take.mp hprefix
  · rintro ⟨hn, hm, key, hkey, hcut⟩
    obtain ⟨keyId, hid, halive, hstored⟩ := hkey
    lift n to Nat using hn
    lift m to Nat using hm
    rw [Int.toNat_natCast, Int.toNat_natCast] at hcut
    let R : MacReady s p t := ⟨e, keyId, key, n, m, he, hl, hid, halive, hstored⟩
    have htag : R.tag A.toDigests a v = (A.named e.algorithm key (region a v n)).take m :=
      (R.tag_eq_take rfl a v).trans hcut
    refine ⟨_, key, n, m, congrArg Prod.fst (R.generateMac_eq a v), ⟨keyId, hid, halive, hstored⟩,
      hl, ?_, ?_⟩
    · rw [htag, List.length_take, A.named_length]
      omega
    · rw [htag]
      exact List.take_prefix _ _

theorem MacReady.extends_generateMac (R : MacReady s p t) (a : Bytes) (v : Int) :
    Extends s (s.generateMac D p a v t).2 := by
  rw [R.generateMac_eq]
  unfold logOverrun
  split_ifs <;> exact extends_of_nvm_eq p R.csmAfter rfl rfl rfl rfl

theorem MacReady.stored_generateMac (R : MacReady s p t) (a : Bytes) (v : Int) :
    (s.generateMac D p a v t).2.csm.hsm.keyStore.get? R.keyId = some (.symmetric R.key) := by
  rw [R.generateMac_eq]
  unfold logOverrun
  split_ifs <;> exact R.stored_after

def reloaded (s : Stack) (profiles : Profiles) : Stack := { s with profiles := profiles }

def MacReady.reloaded (R : MacReady s p t) {profiles : Profiles} {algorithm : String}
    (hp : profiles.get? p = some { R.profile with algorithm := algorithm }) :
    MacReady (s.reloaded profiles) p t where
  profile := { R.profile with algorithm := algorithm }
  keyId := R.keyId
  key := R.key
  freshLen := R.freshLen
  macLen := R.macLen
  found := hp
  lengths := by
    have hl := R.lengths
    cases t <;> exact hl
  resolved := R.resolved
  alive := R.alive
  stored := R.stored

theorem MacReady.verifies_reloaded (R : MacReady s p t) (a : Bytes) (v : Int)
    (calls calls' : List Call) {profiles : Profiles} {algorithm : String}
    (hp : profiles.get? p = some { R.profile with algorithm := algorithm }) :
    ((((s.generateMac D p a v t).2.run D calls).reloaded profiles).run D calls'
      |>.verifyMac D p a v (R.tag D a v) t).1 = .ok true := by
  have hbefore := (R.extends_generateMac (D := D) a v).trans
    (run_extends (D := D) (s.generateMac D p a v t).2 calls)
  have hstored : ((s.generateMac D p a v t).2.run D calls).csm.hsm.keyStore.get? R.keyId =
      some (.symmetric R.key) :=
    (run_extends (D := D) _ calls).key_persists (R.stored_generateMac a v)
  have hafter := run_extends (D := D)
    (((s.generateMac D p a v t).2.run D calls).reloaded profiles) calls'
  obtain ⟨R', -, -, hn, hm, hkey⟩ :=
    ((R.transferStored hbefore R.key hstored).reloaded hp).exists_transfer hafter
  have hsame : R'.tag D a v = R.tag D a v := by
    have hkeys : R'.key = R.key := hkey (by
      change ((s.generateMac D p a v t).2.run D calls).csm.hsm.keyStore.get? R.keyId ≠ none
      rw [hstored]
      exact Option.some_ne_none _)
    have hfresh : R'.freshLen = R.freshLen := hn
    have hmac : R'.macLen = R.macLen := hm
    rw [MacReady.tag, MacReady.tag, hkeys, hfresh, hmac]
  rw [R'.verifyMac_eq, hsame, beq_self_eq_true]

/-- **The configured algorithm decides the MAC** where it is HMAC-SHA256, or where the bytes asked
for happen to be the same, and nowhere else. A MAC generated before the algorithm is switched
always verifies after it. -/
theorem configured_algorithm_iff (A : Algorithms) {raw : Dict String RawEntry}
    (hload : reload raw = .ok s.profiles) (he : s.profiles.get? p = some e) {n m : Int}
    (hl : e.truncationLengths t = .ok (n, m)) (hsize : m ≤ digestSize e.algorithm) (a : Bytes)
    (v : Int) :
    (OwnMac A s p e t a v ↔ 0 ≤ n ∧ 0 ≤ m ∧ ∃ key, s.UsesKey p e key ∧
      (e.algorithm = "HMAC-SHA256" ∨ (A.hmacSha256 key (region a v n.toNat)).take m.toNat =
        (A.hmacSha512 key (region a v n.toNat)).take m.toNat)) ∧
    ∀ mac s₁, s.generateMac A.toDigests p a v t = (.ok mac, s₁) →
      ∀ (calls calls' : List Call) (raw' : Dict String RawEntry) (profiles : Profiles)
        (algorithm : String), reload raw' = .ok profiles →
        profiles.get? p = some { e with algorithm := algorithm } →
        ((((s₁.run A.toDigests calls).reloaded profiles).run A.toDigests calls').verifyMac
          A.toDigests p a v mac t).1 = .ok true := by
  obtain ⟨entry, hentry⟩ := reload_loads hload he
  refine ⟨ownMac_iff A he hentry.supported hl hsize a v, ?_⟩
  intro mac s₁ hmac calls calls' raw' profiles algorithm _ hp
  obtain ⟨R⟩ := MacReady.of_generateMac (congrArg Prod.fst hmac)
  rw [← R.profile_of he] at hp
  have htag : R.tag A.toDigests a v = mac := by
    have h := congrArg Prod.fst hmac
    rw [R.generateMac_eq] at h
    exact Except.ok.inj h
  have hstack : (s.generateMac A.toDigests p a v t).2 = s₁ := congrArg Prod.snd hmac
  rw [← htag, ← hstack]
  exact R.verifies_reloaded a v calls calls' hp

theorem configured_algorithm_shipped :
    reload shippedConfig = .ok (shipped (toBytesBE 32)).profiles ∧
      ∀ A : Algorithms, OwnMac A (shipped (toBytesBE 32)) "PDU_0x100" (shippedProfile "PDU_0x100")
        .canFd [7] 1 := by
  have hload : reload shippedConfig = .ok (shipped (toBytesBE 32)).profiles := rfl
  refine ⟨hload, fun A => ?_⟩
  exact (configured_algorithm_iff A hload (shipped_profile _) rfl (by decide) [7] 1).1.mpr
    ⟨by decide, by decide, _, (shippedReady _ .canFd).usesKey (shipped_profile _), Or.inl rfl⟩

def sha512Entry : RawEntry :=
  { shippedEntry "PDU_0x100" with
      algorithm := some "HMAC-SHA512"
      authenticatorLength := some 64 }

def sha512Profile : SecurityProfileEntry :=
  { shippedProfile "PDU_0x100" with algorithm := "HMAC-SHA512", authenticatorLength := 64 }

def switchedConfig : Dict String RawEntry :=
  Dict.ofItems [("PDU_0x100", { shippedEntry "PDU_0x100" with algorithm := some "HMAC-SHA512" })]

def switchedProfiles : Profiles :=
  Dict.ofItems [("PDU_0x100", { shippedProfile "PDU_0x100" with algorithm := "HMAC-SHA512" })]

theorem sha512_not_decided :
    (reload (Dict.ofItems [("PDU_0x100", sha512Entry)]) =
        .ok (configured (Dict.ofItems [("PDU_0x100", sha512Entry)]) (toBytesBE 32)).profiles ∧
      64 ≤ digestSize "HMAC-SHA512" ∧
      ¬∃ A : Algorithms, OwnMac A (configured (Dict.ofItems [("PDU_0x100", sha512Entry)])
        (toBytesBE 32)) "PDU_0x100" sha512Profile .canFd [7] 1) ∧
    reload switchedConfig = .ok switchedProfiles ∧
      ∃ mac s₁, (shipped (toBytesBE 32)).generateMac .standard "PDU_0x100" [7] 1 .canFd =
          (.ok mac, s₁) ∧
        ((s₁.reloaded switchedProfiles).verifyMac .standard "PDU_0x100" [7] 1 mac .canFd).1 =
          .ok true := by
  -- a profile of HMAC-SHA512 with all its 64 bytes gets no MAC of its own, and a MAC made before
  -- the shipped profile is switched to HMAC-SHA512 still verifies
  refine ⟨⟨rfl, by decide, ?_⟩, rfl, ?_⟩
  · rintro ⟨A, hown⟩
    have hl : sha512Profile.truncationLengths .canFd = .ok (2, 64) := rfl
    obtain ⟨-, -, key, -, hname | hcut⟩ :=
      (ownMac_iff A rfl (by decide) hl (by decide) [7] 1).mp hown
    · exact absurd hname (by decide)
    · have h := congrArg List.length hcut
      rw [List.length_take, List.length_take, A.hmacSha256_length, A.hmacSha512_length] at h
      cases h
  · have R := shippedReady (toBytesBE 32) .canFd
    have hp : switchedProfiles.get? "PDU_0x100" =
        some { R.profile with algorithm := "HMAC-SHA512" } := by
      rw [R.profile_of (shipped_profile _)]
      rfl
    refine ⟨R.tag .standard [7] 1, ((shipped (toBytesBE 32)).generateMac .standard "PDU_0x100" [7] 1
      .canFd).2, ?_, R.verifies_reloaded [7] 1 [] [] hp⟩
    rw [R.generateMac_eq]

end Stack
end SecOC
