import SecOC.Properties.Agility

/-! The two MAC verifiers. The authenticator wants as many bytes as the profile configures; the
crypto interface compares as many as it is given. They part on the proper prefixes of the MAC. -/

namespace SecOC
open Py FreshnessManager

namespace Stack
variable {D : Digests} {s : Stack} {p : String} {t : Transport} {e : SecurityProfileEntry}

/-- The start of the MAC the PDU's key gives, shorter than the authenticator. -/
def ShortPrefix (D : Digests) (s : Stack) (p : String) (e : SecurityProfileEntry) (data : Bytes)
    (n : Nat) (mac : Bytes) : Prop :=
  ∃ key, s.UsesKey p e key ∧ mac.length < n ∧ mac <+: D.hmacSha256 key data

theorem beq_take_iff (xs ys : Bytes) : (xs.take ys.length == ys) = true ↔ ys <+: xs := by
  rw [beq_iff_eq, List.prefix_iff_eq_take, eq_comm]

theorem verifiers_cases (D : Digests) (he : s.profiles.get? p = some e) {f n : Nat}
    (hl : e.truncationLengths t = .ok ((f : Int), (n : Int))) {keyId : String}
    (hid : s.resolveKeyId p e = .ok keyId) (a mac : Bytes) (v : Int) :
    ((s.verifyMac D p a v mac t).1 = .error (.csmError "job_failed") ∧
      (HmacCrypto.verifyMac D s.csm keyId (region a v f) mac).1 = .error (.csmError "job_failed") ∧
      ∀ key, ¬s.UsesKey p e key) ∨
    ∃ key, s.UsesKey p e key ∧
      (s.verifyMac D p a v mac t).1 =
        .ok ((D.hmacSha256 key (region a v f)).take n == mac) ∧
      (HmacCrypto.verifyMac D s.csm keyId (region a v f) mac).1 =
        .ok ((D.hmacSha256 key (region a v f)).take mac.length == mac) := by
  have hin := macInput_of he hid hl a v
  have hid_unique : ∀ {key}, s.UsesKey p e key → s.csm.hsm.failMode = false ∧
      s.csm.hsm.macKey keyId = .symmetric key := by
    rintro key ⟨keyId', hid', halive, hkey⟩
    rw [hid] at hid'
    cases hid'
    exact ⟨halive, hkey⟩
  rcases generateMac_cases D s.csm keyId (region a v f) with
    ⟨hf, hmac⟩ | ⟨-, hk, hmac⟩ | ⟨key, hf, hk, hmac⟩
  · left
    simp only [verifyMac, HmacCrypto.verifyMac, hin, hmac, true_and]
    intro key hkey
    rw [(hid_unique hkey).1] at hf
    cases hf
  · left
    simp only [verifyMac, HmacCrypto.verifyMac, hin, hmac, true_and]
    intro key hkey
    rw [(hid_unique hkey).2] at hk
    cases hk
  · right
    refine ⟨key, ⟨keyId, hid, hf, hk⟩, ?_, ?_⟩
    · simp only [verifyMac, hin, hmac, slice_take]
    · simp only [HmacCrypto.verifyMac, hmac, slice_take]

/-- **The verifiers agree** on every candidate no longer than the authenticator, but for the proper
prefixes of the MAC: those the crypto interface takes and the authenticator refuses. -/
theorem verifiers_agree_iff (D : Digests) (he : s.profiles.get? p = some e) {f n : Nat}
    (hl : e.truncationLengths t = .ok ((f : Int), (n : Int))) (hn : n ≤ 32) {keyId : String}
    (hid : s.resolveKeyId p e = .ok keyId) (a : Bytes) (v : Int) {mac : Bytes}
    (hmac : mac.length ≤ n) :
    ((s.verifyMac D p a v mac t).1 = (HmacCrypto.verifyMac D s.csm keyId (region a v f) mac).1 ↔
      ¬s.ShortPrefix D p e (region a v f) n mac) ∧
    (s.ShortPrefix D p e (region a v f) n mac → (s.verifyMac D p a v mac t).1 = .ok false ∧
      (HmacCrypto.verifyMac D s.csm keyId (region a v f) mac).1 = .ok true) ∧
    ((s.verifyMac D p a v mac t).1 = .ok true → mac.length = n) := by
  rcases verifiers_cases D he hl hid a mac v with ⟨hown, hraw, hnone⟩ | ⟨key, hkey, hown, hraw⟩
  · have hshort : ¬s.ShortPrefix D p e (region a v f) n mac := fun ⟨key, hkey, _⟩ => hnone key hkey
    rw [hown, hraw]
    exact ⟨iff_of_true rfl hshort, fun h => absurd h hshort, nofun⟩
  · have hlength : ((D.hmacSha256 key (region a v f)).take n).length = n := by
      rw [List.length_take, D.hmacSha256_length]
      omega
    have hshort : s.ShortPrefix D p e (region a v f) n mac ↔
        mac.length < n ∧ mac <+: D.hmacSha256 key (region a v f) := by
      constructor
      · rintro ⟨key', hkey', h⟩
        rwa [hkey'.unique hkey] at h
      · exact fun h => ⟨key, hkey, h⟩
    rw [hown, hraw, hshort]
    rcases hmac.lt_or_eq with hlt | rfl
    · -- A shorter MAC never equals the truncated one.
      have hfalse : ((D.hmacSha256 key (region a v f)).take n == mac) = false := by
        refine beq_eq_false_iff_ne.mpr fun h => ?_
        rw [← h, hlength] at hlt
        exact lt_irrefl n hlt
      rw [hfalse, ← beq_take_iff]
      cases h : (D.hmacSha256 key (region a v f)).take mac.length == mac <;> simp [hlt]
    · simp

theorem verifiers_agree_shipped :
    ((shipped (toBytesBE 32)).verifyMac .standard "PDU_0x100" [7] 1 (List.replicate 8 0) .canFd).1 =
      (HmacCrypto.verifyMac .standard (shipped (toBytesBE 32)).csm "secoc_mac_key_PDU_0x100"
        (region [7] 1 2) (List.replicate 8 0)).1 :=
  (verifiers_agree_iff .standard (shipped_profile _) rfl (by decide) rfl [7] 1 (by decide)).1.mpr
    fun ⟨_, _, hshort, _⟩ => absurd hshort (by decide)

theorem empty_mac_not_agreed :
    (shippedProfile "PDU_0x100").truncationLengths .canFd = .ok (2, 8) ∧
      (shipped (toBytesBE 32)).resolveKeyId "PDU_0x100" (shippedProfile "PDU_0x100") =
        .ok "secoc_mac_key_PDU_0x100" ∧
      ((shipped (toBytesBE 32)).verifyMac .standard "PDU_0x100" [7] 1 [] .canFd).1 = .ok false ∧
      (HmacCrypto.verifyMac .standard (shipped (toBytesBE 32)).csm "secoc_mac_key_PDU_0x100"
        (region [7] 1 2) []).1 = .ok true := by
  -- the empty MAC, which the crypto interface accepts
  have R := shippedReady (toBytesBE 32) .canFd
  obtain ⟨hn, hm⟩ := R.lengths_of (shipped_profile _) rfl
  refine ⟨rfl, rfl, ?_, ?_⟩
  · have hne := R.tag_ne_nil (D := .standard) (by rw [hm]; decide) (by rw [hm]; decide) [7] 1
    rw [R.verifyMac_eq]
    exact congrArg Except.ok (beq_eq_false_iff_ne.mpr hne)
  · have hid : R.keyId = "secoc_mac_key_PDU_0x100" := by
      have h := R.resolved
      rw [R.profile_of (shipped_profile _)] at h
      exact (Except.ok.inj h).symm
    rw [← hid]
    simp only [HmacCrypto.verifyMac, R.hmac_eq, slice_take]
    rfl

end Stack
end SecOC
