import SecOC.Sim.KeyRuns

/-! Key material is kept per key id and key metadata per PDU, so the keys of two PDUs are
independent exactly as long as no call takes the key id another PDU uses. -/

namespace SecOC.KeyManager
open Py

/-- A call on one PDU changes nothing for another: not the key id, not the key, no MAC. -/
def KeepsOthers (D : Digests) (s : KeyManager) (op : KeyOp) : Prop :=
  ∀ p, op.pduId = some p → ∀ q, q ≠ p →
    (machine.step s op).2.resolve q = s.resolve q ∧
    (machine.step s op).2.material q = s.material q ∧
    ∀ data, (machine.step s op).2.mac D q data = s.mac D q data

def Provisioned (s : KeyManager) (pduId : String) : Prop := ∃ keyId, s.resolve pduId = .ok keyId

def DistinctKeys (s : KeyManager) : Prop :=
  ∀ p q, p ≠ q → s.Provisioned p → s.Provisioned q → s.material p ≠ s.material q

def Isolated (D : Digests) (s : KeyManager) (op : KeyOp) : Prop :=
  KeepsOthers D s op ∧ (machine.step s op).2.DistinctKeys

/-- A call that stores a key does so under a key id no other PDU uses. -/
def OwnKeyId (s : KeyManager) (op : KeyOp) : Prop :=
  s.Stores op → ∀ p k, op.pduId = some p → op.keyId = some k → ∀ q, q ≠ p → s.resolve q ≠ .ok k

/-- What holds in every run: the keys in the store are draws made so far, each of them under
one key id, and the key of every provisioned PDU is in the store. -/
structure Drawn (s : KeyManager) (urandom : Nat → Bytes) : Prop where
  readable : s.Readable
  source : s.hsm.urandom = urandom
  draw : ∀ {k x}, s.hsm.keyStore.get? k = some x →
    ∃ i < s.hsm.draws, x = .symmetric (urandom i)
  key_inj : ∀ {k k' x}, s.hsm.keyStore.get? k = some x → s.hsm.keyStore.get? k' = some x → k = k'
  stored : ∀ {p m}, s.metadata p = some m → ∃ x, s.hsm.keyStore.get? m.keyId = some x

theorem Drawn.new {nvm : NvM} (hnvm : Unprovisioned nvm) (urandom : Nat → Bytes) :
    (new urandom nvm).Drawn urandom where
  readable := readable_new hnvm urandom
  source := rfl
  draw h := nomatch h
  key_inj h := nomatch h
  stored h := by
    rw [metadata_new hnvm] at h
    cases h

/-- The next `n` draws differ from each other and from those made so far. -/
def FreshDraws (urandom : Nat → Bytes) (n : Nat) : Prop :=
  ∀ i < n, ∀ j < n, urandom i = urandom j → i = j

variable {s : KeyManager} {urandom : Nat → Bytes}

theorem keyStore_save (s : KeyManager) (m : KeyMetadata) (k : String) :
    (s.save m).hsm.keyStore.get? k = if k = m.keyId
      then some (.symmetric (s.hsm.urandom s.hsm.draws)) else s.hsm.keyStore.get? k :=
  Dict.get?_set _ _ _ _

theorem Drawn.draw_unused (hs : s.Drawn urandom) (hfresh : FreshDraws urandom (s.hsm.draws + 1))
    {k : String} {x : KeyMaterial} (hx : s.hsm.keyStore.get? k = some x) :
    x ≠ .symmetric (urandom s.hsm.draws) := by
  -- the key just drawn is not in the store yet
  obtain ⟨i, hi, rfl⟩ := hs.draw hx
  intro he
  have hsame : i = s.hsm.draws :=
    hfresh i (Nat.lt_succ_of_lt hi) _ (Nat.lt_succ_self _) (KeyMaterial.symmetric.inj he)
  exact Nat.ne_of_lt hi hsame

theorem Drawn.save (hs : s.Drawn urandom) (hfresh : FreshDraws urandom (s.hsm.draws + 1))
    (m : KeyMetadata) : (s.save m).Drawn urandom where
  readable := readable_save hs.readable m
  source := hs.source
  draw {k x} h := by
    rw [keyStore_save, hs.source] at h
    split at h
    · exact ⟨s.hsm.draws, Nat.lt_succ_self _, (Option.some.inj h).symm⟩
    · obtain ⟨i, hi, hx⟩ := hs.draw h
      exact ⟨i, Nat.lt_succ_of_lt hi, hx⟩
  key_inj {k k' x} h h' := by
    rw [keyStore_save, hs.source] at h h'
    split at h <;> split at h'
    · next hk hk' => exact hk.trans hk'.symm
    · exact absurd (Option.some.inj h).symm (hs.draw_unused hfresh h')
    · exact absurd (Option.some.inj h').symm (hs.draw_unused hfresh h)
    · exact hs.key_inj h h'
  stored {p m'} h := by
    rw [metadata_save] at h
    simp only [keyStore_save]
    split
    · exact ⟨_, rfl⟩
    · split at h
      · next hne _ => exact absurd (congrArg _ (Option.some.inj h).symm) hne
      · exact hs.stored h

theorem Drawn.step (hs : s.Drawn urandom) (hfresh : FreshDraws urandom (s.hsm.draws + 1))
    (op : KeyOp) : (machine.step s op).2.Drawn urandom ∧
      (machine.step s op).2.hsm.draws ≤ s.hsm.draws + 1 := by
  rcases step_cases hs.readable op with ⟨-, fail, he⟩ | ⟨-, e, he⟩ | ⟨-, m, -, -, -, he⟩
  · rw [he]
    exact ⟨⟨hs.readable, hs.source, hs.draw, hs.key_inj, hs.stored⟩, Nat.le_succ _⟩
  · rw [he]
    exact ⟨hs, Nat.le_succ _⟩
  · rw [he]
    exact ⟨hs.save hfresh m, Nat.le_refl _⟩

theorem Drawn.material_eq (hs : s.Drawn urandom) (p : String) :
    s.material p = (s.metadata p).bind fun m => s.hsm.keyStore.get? m.keyId := by
  unfold material
  rw [resolve_eq hs.readable]
  cases s.metadata p <;> rfl

theorem hmacSha256_fst_of_stored (D : Digests) {h h' : HSM} {k : String} {x : KeyMaterial}
    (hmode : h'.failMode = h.failMode) (hx : h.keyStore.get? k = some x)
    (hx' : h'.keyStore.get? k = some x) (data : Bytes) :
    (h'.hmacSha256 D k data).1 = (h.hmacSha256 D k data).1 := by
  unfold HSM.hmacSha256 HSM.checkFail
  rw [hmode, hx, hx']
  cases h.failMode with
  | true => rfl
  | false => cases x <;> rfl

theorem Drawn.save_keeps (hs : s.Drawn urandom) {m : KeyMetadata} {q : String}
    (hq : q ≠ m.pduId) (hk : s.resolve q ≠ .ok m.keyId) (D : Digests) :
    (s.save m).resolve q = s.resolve q ∧ (s.save m).material q = s.material q ∧
      ∀ data, (s.save m).mac D q data = s.mac D q data := by
  have hres : (s.save m).resolve q = s.resolve q := by rw [resolve_save hs.readable, if_neg hq]
  have hkey : ∀ k, s.resolve q = .ok k →
      (s.save m).hsm.keyStore.get? k = s.hsm.keyStore.get? k := by
    intro k hk'
    rw [keyStore_save, if_neg]
    rintro rfl
    exact hk hk'
  refine ⟨hres, ?_, ?_⟩
  · unfold material
    rw [hres]
    cases hr : s.resolve q with
    | error e => rfl
    | ok k => exact hkey k hr
  · intro data
    unfold mac
    rw [hres]
    cases hr : s.resolve q with
    | error e => rfl
    | ok k =>
      obtain ⟨m', hm', rfl⟩ := (resolve_eq_ok hs.readable).mp hr
      obtain ⟨x, hx⟩ := hs.stored hm'
      have hx' : (s.save m).hsm.keyStore.get? m'.keyId = some x := (hkey _ hr).trans hx
      have hmode : (s.save m).hsm.failMode = s.hsm.failMode := rfl
      exact hmacSha256_fst_of_stored D hmode hx hx' data

theorem Drawn.save_overwrites (hs : s.Drawn urandom)
    (hfresh : FreshDraws urandom (s.hsm.draws + 1)) {m : KeyMetadata} {q : String}
    (hq : q ≠ m.pduId) (hk : s.resolve q = .ok m.keyId) :
    (s.save m).material q ≠ s.material q := by
  obtain ⟨m', hm', hkey⟩ := (resolve_eq_ok hs.readable).mp hk
  obtain ⟨x, hx⟩ := hs.stored hm'
  rw [(hs.save hfresh m).material_eq, hs.material_eq, metadata_save, if_neg hq, hm',
    Option.bind_some, Option.bind_some, keyStore_save, if_pos hkey, hx, hs.source]
  intro he
  exact hs.draw_unused hfresh hx (Option.some.inj he).symm

theorem Drawn.keepsOthers_iff (hs : s.Drawn urandom)
    (hfresh : FreshDraws urandom (s.hsm.draws + 1)) (D : Digests) (op : KeyOp) :
    KeepsOthers D s op ↔ OwnKeyId s op := by
  rcases step_cases hs.readable op with ⟨hp, -⟩ | ⟨hno, e, he⟩ | ⟨hstores, m, -, hp, hk, he⟩
  · constructor
    · intro _ _ p k hp'
      rw [hp] at hp'
      cases hp'
    · intro _ p hp'
      rw [hp] at hp'
      cases hp'
  · constructor
    · exact fun _ hstores => absurd hstores hno
    · intro _ p _ q _
      rw [he]
      exact ⟨rfl, rfl, fun _ => rfl⟩
  · constructor
    · rintro hkeeps - p k hp' hk' q hq hres
      rw [hp] at hp'
      rw [hk] at hk'
      cases hp'
      cases hk'
      have hsame := (hkeeps m.pduId hp q hq).2.1
      rw [he] at hsame
      exact hs.save_overwrites hfresh hq hres hsame
    · intro hown p hp' q hq
      rw [hp] at hp'
      cases hp'
      rw [he]
      exact hs.save_keeps hq (hown hstores m.pduId m.keyId hp hk q hq) D

def DistinctKeyIds (s : KeyManager) : Prop :=
  ∀ {p q k}, s.resolve p = .ok k → s.resolve q = .ok k → p = q

theorem Drawn.distinctKeys (hs : s.Drawn urandom) (hids : s.DistinctKeyIds) : s.DistinctKeys := by
  rintro p q hpq ⟨k, hk⟩ ⟨k', hk'⟩ hsame
  obtain ⟨m, hm, rfl⟩ := (resolve_eq_ok hs.readable).mp hk
  obtain ⟨m', hm', rfl⟩ := (resolve_eq_ok hs.readable).mp hk'
  obtain ⟨x, hx⟩ := hs.stored hm
  rw [hs.material_eq, hs.material_eq, hm, hm', Option.bind_some, Option.bind_some, hx] at hsame
  have hkeys : m.keyId = m'.keyId := hs.key_inj hx hsame.symm
  rw [← hkeys] at hk'
  exact hpq (hids hk hk')

theorem Drawn.distinctKeyIds_step (hs : s.Drawn urandom)
    (hids : s.DistinctKeyIds) {op : KeyOp} (hown : OwnKeyId s op) :
    (machine.step s op).2.DistinctKeyIds := by
  rcases step_cases hs.readable op with ⟨-, fail, he⟩ | ⟨-, e, he⟩ | ⟨hstores, m, -, hp, hk, he⟩
  · rw [he]
    exact hids
  · rw [he]
    exact hids
  · have hfree : ∀ q, q ≠ m.pduId → s.resolve q ≠ .ok m.keyId := hown hstores _ _ hp hk
    rw [he]
    intro p q k hpk hqk
    rw [resolve_save hs.readable] at hpk hqk
    split at hpk <;> split at hqk
    · next h h' => exact h.trans h'.symm
    · next h =>
      cases hpk
      exact absurd hqk (hfree q h)
    · next h _ =>
      cases hqk
      exact absurd hpk (hfree p h)
    · exact hids hpk hqk

/-- Every call leaves the other PDUs' keys and MACs alone, and provisioned PDUs have different
keys, in exactly those runs where no call stores a key under another PDU's key id. -/
theorem isolated_iff (D : Digests) (urandom : Nat → Bytes) (nvm : NvM)
    (hnvm : Unprovisioned nvm) (ops : List KeyOp) (hfresh : FreshDraws urandom ops.length) :
    machine.Meets (Isolated D) (new urandom nvm) ops ↔
      machine.Meets OwnKeyId (new urandom nvm) ops := by
  let I : KeyManager → List KeyOp → Prop := fun s rest =>
    s.Drawn urandom ∧ s.DistinctKeyIds ∧ FreshDraws urandom (s.hsm.draws + rest.length)
  have hstart : I (new urandom nvm) ops := by
    refine ⟨Drawn.new hnvm urandom, ?_, ?_⟩
    · intro p q k hp
      exact absurd hp (resolve_new_ne_ok hnvm urandom p k)
    · simpa [new, HSM.new] using hfresh
  apply Mealy.meets_congr (I := I) _ hstart
  rintro s op rest ⟨hs, hids, hdraws⟩
  have hnext : FreshDraws urandom (s.hsm.draws + 1) := by
    intro i hi j hj
    apply hdraws i _ j _ <;> simp only [List.length_cons] <;> omega
  obtain ⟨hs', hle⟩ := hs.step hnext op
  have hiff := hs.keepsOthers_iff hnext D op
  constructor
  · constructor
    · exact fun h => hiff.mp h.1
    · exact fun h => ⟨hiff.mpr h, hs'.distinctKeys (hs.distinctKeyIds_step hids h)⟩
  · intro h
    refine ⟨hs', hs.distinctKeyIds_step hids (hiff.mp h.1), ?_⟩
    intro i hi j hj
    apply hdraws i _ j _ <;> simp only [List.length_cons] <;> omega

theorem meets_ownKeyId (owner : String → String) (hs : s.Readable)
    (hres : ∀ q k, s.resolve q = .ok k → owner k = q) {ops : List KeyOp}
    (hops : ∀ op ∈ ops, ∀ p k, op.pduId = some p → op.keyId = some k → owner k = p) :
    machine.Meets OwnKeyId s ops := by
  induction ops generalizing s with
  | nil => trivial
  | cons op ops ih =>
    have hop := hops op (List.mem_cons_self ..)
    refine ⟨?_, ih (readable_step hs op) ?_ fun o ho => hops o (List.mem_cons_of_mem _ ho)⟩
    · intro _ p k hp hk q hq hqk
      exact hq ((hres q k hqk).symm.trans (hop p k hp hk))
    · intro q k hqk
      rcases step_cases hs op with ⟨-, fail, he⟩ | ⟨-, e, he⟩ | ⟨-, m, -, hp, hk, he⟩
      · rw [he] at hqk
        exact hres q k hqk
      · rw [he] at hqk
        exact hres q k hqk
      · rw [he, resolve_save hs] at hqk
        split at hqk
        · next hq =>
          cases hqk
          exact (hop _ _ hp hk).trans hq.symm
        · exact hres q k hqk

def countingDraws (n : Nat) : Bytes := List.replicate 32 (UInt8.ofNat n)

theorem countingDraws_fresh : FreshDraws countingDraws 256 := by
  intro i hi j hj h
  have hbyte : UInt8.ofNat i = UInt8.ofNat j := by
    simpa [countingDraws, List.replicate_inj] using h
  have hmod : i % 256 = j % 256 := by simpa using congrArg UInt8.toNat hbyte
  rwa [Nat.mod_eq_of_lt hi, Nat.mod_eq_of_lt hj] at hmod

theorem unprovisioned_load : Unprovisioned (NvM.load none) := fun _ => rfl

theorem FreshDraws.mono {n m : Nat} (h : FreshDraws urandom m) (hle : n ≤ m) :
    FreshDraws urandom n :=
  fun i hi j hj => h i (hi.trans_le hle) j (hj.trans_le hle)

theorem isolated_rotation :
    machine.Meets (Isolated Digests.standard) (new countingDraws (NvM.load none))
      [.provisionKey "PDU_0x100" "secoc_mac_key_PDU_0x100",
        .provisionKey "PDU_0x200" "secoc_mac_key_PDU_0x200",
        .rotateKey "PDU_0x100" "secoc_mac_key_PDU_0x100_v2"] := by
  -- a rotation to a new key id under the keys of two PDUs
  apply (isolated_iff Digests.standard countingDraws (NvM.load none) unprovisioned_load _
    (countingDraws_fresh.mono (by decide))).mpr
  let owner : String → String := fun k =>
    if k = "secoc_mac_key_PDU_0x200" then "PDU_0x200" else "PDU_0x100"
  apply meets_ownKeyId owner (readable_new unprovisioned_load countingDraws)
  · intro q k hq
    exact absurd hq (resolve_new_ne_ok unprovisioned_load countingDraws q k)
  · intro op hop p k hp hk
    simp only [List.mem_cons, List.not_mem_nil, or_false] at hop
    rcases hop with rfl | rfl | rfl
    all_goals
      cases hp
      cases hk
      rfl

theorem shared_keyId_not_isolated :
    Unprovisioned (NvM.load none) ∧ FreshDraws countingDraws 2 ∧
      ¬machine.Meets (Isolated Digests.standard) (new countingDraws (NvM.load none))
        [.provisionKey "PDU_0x100" "secoc_mac_key_PDU_0x100",
          .provisionKey "PDU_0x200" "secoc_mac_key_PDU_0x100"] := by
  -- the second PDU is provisioned under the first one's key id, which draws the key anew
  refine ⟨unprovisioned_load, countingDraws_fresh.mono (by decide), ?_⟩
  rintro ⟨-, ⟨hkeeps, -⟩, -⟩
  have hmaterial := (hkeeps "PDU_0x200" rfl "PDU_0x100" (by decide)).2.1
  revert hmaterial
  decide

end SecOC.KeyManager
