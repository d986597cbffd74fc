import SecOC.Properties.Rekeying

/-! A new key for a PDU cuts the life of the process in two. What was accepted before it and what
the PDU has accepted after it are authenticated under different draws. -/

namespace SecOC
open Py Stack FreshnessManager

namespace HSM

/-- The key is in the store, and is none of the first `n` draws. -/
structure KeySince (u : Nat → Bytes) (n : Nat) (keyId : String) (h : HSM) : Prop where
  urandom : h.urandom = u
  draws : n ≤ h.draws
  stored : ∃ m, n ≤ m ∧ m < h.draws ∧ h.keyStore.get? keyId = some (.symmetric (u m))

variable {u : Nat → Bytes} {n : Nat} {h : HSM}

theorem keySince_drawn (hu : h.urandom = u) (hn : n ≤ h.draws) (keyId : String) :
    (h.storeRandomKey keyId).KeySince u n keyId where
  urandom := hu
  draws := hn.trans h.draws.le_succ
  stored := ⟨h.draws, hn, h.draws.lt_succ_self, by rw [← hu]; exact Dict.get?_set_self _ _ _⟩

theorem keptByDraws_keySince (u : Nat → Bytes) (n : Nat) (keyId : String) :
    KeptByDraws (KeySince u n keyId) := by
  -- the same key id may be drawn for another PDU. The key is a later one then
  intro h k hk
  by_cases hkey : keyId = k
  · subst hkey
    exact keySince_drawn hk.urandom hk.draws keyId
  · obtain ⟨m, hm, hdrawn, hstored⟩ := hk.stored
    have hkept : (h.storeRandomKey k).keyStore.get? keyId = some (.symmetric (u m)) :=
      (Dict.get?_set_ne _ _ hkey).trans hstored
    exact ⟨hk.urandom, hk.draws.trans h.draws.le_succ, m, hm, hdrawn.trans h.draws.lt_succ_self,
      hkept⟩

end HSM

namespace KeyManager
variable {hsm hsm' : HSM} {nvm nvm' : NvM} {p keyId : String} {r : Except PyError KeyMetadata}

def DrawsFor (p : String) (hsm : HSM) (nvm : NvM) (r : Except PyError KeyMetadata) (hsm' : HSM)
    (nvm' : NvM) : Prop :=
  ((∃ e, r = .error e) ∧ hsm' = hsm ∧ nvm' = nvm) ∨ ∃ m : KeyMetadata, m.pduId = p ∧
    hsm' = hsm.storeRandomKey m.keyId ∧ nvm' = (KeyStorage.saveKeyMetadata nvm m).2

theorem provisionKey_draws (h : provisionKey hsm nvm p keyId = (r, hsm', nvm')) :
    DrawsFor p hsm nvm r hsm' nvm' := by
  cases hf : hsm.failMode with
  | true =>
    unfold provisionKey at h
    simp only [HSM.generateSymmetricKey_eq_ite, hf, if_true] at h
    cases h
    exact Or.inl ⟨⟨_, rfl⟩, rfl, rfl⟩
  | false =>
    rw [provisionKey_of_available hf] at h
    cases h
    exact Or.inr ⟨_, rfl, rfl, rfl⟩

theorem rotateKey_draws {newKeyId : String}
    (h : rotateKey hsm nvm p newKeyId = (r, hsm', nvm')) : DrawsFor p hsm nvm r hsm' nvm' := by
  cases hf : hsm.failMode with
  | true =>
    unfold rotateKey at h
    simp only [HSM.generateSymmetricKey_eq_ite, hf, if_true] at h
    split at h <;>
    · cases h
      exact Or.inl ⟨⟨_, rfl⟩, rfl, rfl⟩
  | false =>
    rcases hm : KeyStorage.getKeyMetadata nvm p with e | _ | current
    · rw [rotateKey, hm] at h
      cases h
      exact Or.inl ⟨⟨_, rfl⟩, rfl, rfl⟩
    · rw [rotateKey, hm] at h
      cases h
      exact Or.inl ⟨⟨_, rfl⟩, rfl, rfl⟩
    · rw [rotateKey_of_available hf hm] at h
      cases h
      exact Or.inr ⟨_, rfl, rfl, rfl⟩

theorem resolveKey_saved (nvm : NvM) (m : KeyMetadata) :
    resolveKey (KeyStorage.saveKeyMetadata nvm m).2 m.pduId = .ok m.keyId := by
  rw [resolveKey, KeyStorage.getKeyMetadata_save]

theorem resolveKey_saved_ne (nvm : NvM) {m : KeyMetadata} (h : p ≠ m.pduId) :
    resolveKey (KeyStorage.saveKeyMetadata nvm m).2 p = resolveKey nvm p := by
  rw [resolveKey, KeyStorage.getKeyMetadata_save_ne nvm m h, resolveKey]

end KeyManager

structure Stack.KeySince (u : Nat → Bytes) (n : Nat) (p : String) (s : Stack) : Prop where
  keyManager : s.authenticator.keyManager = true
  key : ∃ keyId, KeyManager.resolveKey s.nvm p = .ok keyId ∧ s.csm.hsm.KeySince u n keyId

namespace Stack.KeySince
variable {D : Digests} {u : Nat → Bytes} {n : Nat} {p : String}

theorem of_extends {s s' : Stack} (h : s.KeySince u n p) (hx : Extends s s')
    (hkept : ∀ keyId, s.csm.hsm.KeySince u n keyId → s'.csm.hsm.KeySince u n keyId) :
    s'.KeySince u n p := by
  obtain ⟨keyId, hresolved, hkey⟩ := h.key
  refine ⟨hx.keyManager.trans h.keyManager, keyId, ?_, hkept keyId hkey⟩
  rw [← hresolved]
  unfold KeyManager.resolveKey KeyStorage.getKeyMetadata
  rw [hx.metadata]

theorem withKeys {a : AppState} (h : a.stack.KeySince u n p) {q : String}
    {r : Except PyError KeyMetadata} {hsm : HSM} {nvm : NvM}
    (hdraws : KeyManager.DrawsFor q a.stack.csm.hsm a.stack.nvm r hsm nvm) :
    (a.withKeys hsm nvm).stack.KeySince u n p := by
  obtain ⟨keyId, hresolved, hkey⟩ := h.key
  rcases hdraws with ⟨-, rfl, rfl⟩ | ⟨m, rfl, rfl, rfl⟩
  · exact ⟨h.keyManager, keyId, hresolved, hkey⟩
  · by_cases hp : p = m.pduId
    · subst hp
      exact ⟨h.keyManager, m.keyId, KeyManager.resolveKey_saved _ m,
        HSM.keySince_drawn hkey.urandom hkey.draws m.keyId⟩
    · exact ⟨h.keyManager, keyId, (KeyManager.resolveKey_saved_ne _ hp).trans hresolved,
        HSM.keptByDraws_keySince u n keyId _ m.keyId hkey⟩

theorem step {a a' : AppState} (hstep : AppState.Step D a a') (h : a.stack.KeySince u n p) :
    a'.stack.KeySince u n p := by
  cases hstep with
  | transmit q b t => exact h.of_extends (transmitSecured_extends q b t) fun keyId hkey =>
      (HSM.keptByDraws_keySince u n keyId).transmitSecured hkey q b t
  | receive q b t => exact h.of_extends (receiveSecured_extends q b t) fun keyId hkey =>
      (HSM.keptByDraws_keySince u n keyId).receiveSecured hkey q b t
  | provisionKey hk => exact h.withKeys (KeyManager.provisionKey_draws hk)
  | rotateKey hk => exact h.withKeys (KeyManager.rotateKey_draws hk)
  | _ => exact ⟨h.keyManager, h.key⟩

theorem of_answer {a : AppState} (hmanager : a.stack.authenticator.keyManager = true)
    (hu : a.stack.csm.hsm.urandom = u) {r : Request} {keyId : String} {m : KeyMetadata}
    (hr : r = .provisionKey p keyId ∨ r = .rotateKey p keyId)
    (hok : (a.request D r).1.response = .ok (.keyMetadata m)) :
    (a.request D r).2.stack.KeySince u a.stack.csm.hsm.draws p := by
  have drawn : ∀ {metadata hsm nvm}, KeyManager.DrawsFor p a.stack.csm.hsm a.stack.nvm
      (.ok metadata) hsm nvm →
      (a.withKeys hsm nvm).stack.KeySince u a.stack.csm.hsm.draws p := by
    rintro metadata hsm nvm (⟨⟨e, he⟩, -, -⟩ | ⟨m, rfl, rfl, rfl⟩)
    · cases he
    · exact ⟨hmanager, m.keyId, KeyManager.resolveKey_saved _ m,
        HSM.keySince_drawn hu le_rfl m.keyId⟩
  rcases hr with rfl | rfl
  · simp only [AppState.request, AppState.provisionKey] at hok ⊢
    split at hok
    · cases hok
    · next h => exact drawn (KeyManager.provisionKey_draws h)
  · simp only [AppState.request, AppState.rotateKey] at hok ⊢
    split at hok
    · cases hok
    · cases hok
    · next h =>
      have hdrawn := drawn (KeyManager.rotateKey_draws h)
      exact ⟨hdrawn.keyManager, hdrawn.key⟩

theorem reception {app : AppState} {r : Request} {x : Reception}
    (h : app.stack.KeySince u n x.pduId) (hx : app.reception D r = some x) :
    ∃ m, n ≤ m ∧ m < (app.request D r).2.stack.csm.hsm.draws ∧ x.AuthenticatedUnder D (u m) := by
  -- what is accepted of the PDU is authenticated under that key
  obtain ⟨s, hs, A, hprofile, hcounter, -, bus, hafter⟩ := AppState.reception_spec hx
  obtain ⟨keyId, hresolved, hkey⟩ := h.key
  obtain ⟨m, hm, hdrawn, hstored⟩ := (hs.keeps (HSM.keptByDraws_keySince u n keyId) hkey).stored
  have hid : A.keyId = keyId := by
    have hA := A.resolved
    rw [resolveKeyId, hs.keyManager, h.keyManager, hs.nvm] at hA
    exact Except.ok.inj (hA.symm.trans hresolved)
  have hown : A.key = u m := by
    have hA := A.stored
    rw [HSM.macKey, hid, hstored, Option.getD_some] at hA
    exact (KeyMaterial.symmetric.inj hA).symm
  refine ⟨m, hm, ?_, hown ▸ A.authenticated hprofile hcounter⟩
  rw [hafter]
  exact hdrawn.trans_le ((HSM.keptByDraws_draws s.csm.hsm.draws).afterMac le_rfl A.keyId)

end Stack.KeySince

namespace Device
variable {D : Digests} {d : Device} {u : Nat → Bytes}

def KeySince (u : Nat → Bytes) (n : Nat) (p : String) : Device → Prop
  | running app => app.stack.KeySince u n p
  | off _ => True

theorem KeySince.step {n : Nat} {p : String} (h : d.KeySince u n p) {op : DeviceOp}
    (hop : DeviceOp.Continues op) : (d.step D op).2.KeySince u n p := by
  cases op with
  | restart urandom overBudget => exact absurd rfl (hop urandom overBudget)
  | request r =>
    cases d with
    | running app =>
      refine AppState.request_keeps (I := fun a => a.stack.KeySince u n p) ?_ h r
      intro a a' hstep ha
      exact Stack.KeySince.step hstep ha
    | off disk => trivial
  | nvmFault fault =>
    cases d with
    | running app => exact ⟨h.keyManager, h.key⟩
    | off disk => trivial
  | configure configFile => cases d <;> exact h

theorem receptions_drawn_before (h : d.Drawn u) {ops : List DeviceOp}
    (hops : ∀ op ∈ ops, DeviceOp.Continues op) {app : AppState}
    (happ : (machine D).exec d ops = running app) :
    ∀ x ∈ receptions D d ops, ∃ n < app.stack.csm.hsm.draws, x.AuthenticatedUnder D (u n) := by
  induction ops generalizing d with
  | nil => exact List.forall_mem_nil _
  | cons op ops ih =>
    obtain ⟨hop, hcontinues⟩ := List.forall_mem_cons.mp hops
    have hrest := ih (h.step (HSM.keptByDraws_drawn u) hop) hcontinues happ
    rcases receptions_cons D d op ops with ⟨heq, -⟩ | ⟨app₀, r, x, rfl, rfl, hx, heq, -⟩
    · rw [heq]
      exact hrest
    · rw [heq]
      obtain ⟨n, hn, hauthenticated⟩ := reception_authenticated h hx
      have hnow : (running (app₀.request D r).2).OfHsm fun hsm => n + 1 ≤ hsm.draws := hn
      have hlater := hnow.run (D := D) (HSM.keptByDraws_draws (n + 1)) hcontinues
      have happ' : (machine D).exec (running (app₀.request D r).2) ops = running app := happ
      rw [happ'] at hlater
      exact List.forall_mem_cons.mpr ⟨⟨n, hlater, hauthenticated⟩, hrest⟩

/-- **A new key takes effect at once, and nothing authenticated crosses it.** When a request for a
new key of a PDU is answered with its metadata, every frame this process has accepted so far is
authenticated under a key drawn before, and every frame of the PDU that it accepts from then on
under one drawn since. -/
theorem accepted_under_new_key (D : Digests) (d : Device) (u : Nat → Bytes)
    (overBudget : Nat → Bool) {ops ops' : List DeviceOp}
    (hops : ∀ op ∈ ops, DeviceOp.Continues op) (hops' : ∀ op ∈ ops', DeviceOp.Continues op)
    {app : AppState} (happ : (machine D).exec (d.restart D u overBudget).2 ops = running app)
    {r : Request} {p keyId : String} {m : KeyMetadata}
    (hr : r = .provisionKey p keyId ∨ r = .rotateKey p keyId)
    (hok : (app.request D r).1.response = .ok (.keyMetadata m)) :
    (∀ x ∈ receptions D (d.restart D u overBudget).2 ops,
      ∃ n < app.stack.csm.hsm.draws, x.AuthenticatedUnder D (u n)) ∧
    ∀ e ∈ acceptances D (running (app.request D r).2) ops', e.2.pduId = p →
      ∃ n, app.stack.csm.hsm.draws ≤ n ∧ n < e.1.stack.csm.hsm.draws ∧
        e.2.AuthenticatedUnder D (u n) := by
  have hdrawn := drawn_restart D d u overBudget
  refine ⟨receptions_drawn_before hdrawn hops happ, ?_⟩
  have hwired : ((machine D).exec (d.restart D u overBudget).2 ops).Wired :=
    Mealy.exec_preserves (fun d op h => h.step op) (wired_restart D d u overBudget) ops
  have hmine := hdrawn.run (D := D) (HSM.keptByDraws_drawn u) hops
  rw [happ] at hwired hmine
  have hnew : (running (app.request D r).2).KeySince u app.stack.csm.hsm.draws p :=
    KeySince.of_answer hwired.keyManager hmine.urandom hr hok
  refine forall_acceptances (fun app' x => x.pduId = p → ∃ n, app.stack.csm.hsm.draws ≤ n ∧
    n < app'.stack.csm.hsm.draws ∧ x.AuthenticatedUnder D (u n)) (fun h hop => h.step hop) ?_ hnew
    hops'
  rintro app' r' x h hx rfl
  exact h.reception hx

def rotatedTransmission (D : Digests) (u : Nat → Bytes) (b : Bytes) :
    Transmission ((AppState.shippedApp D u).request D (.rotateKey "PDU_0x100" "rotated")).2.stack
      "PDU_0x100" b .canFd where
  profile := shippedProfile "PDU_0x100"
  keyId := "rotated"
  key := u (AppState.shippedApp D u).stack.csm.hsm.draws
  freshLen := 2
  macLen := 8
  found := rfl
  lengths := (AppState.shippedTransmission D u b).lengths
  resolved := rfl
  alive := rfl
  stored := rfl
  admissible := (AppState.shippedTransmission D u b).admissible
  lastValid := 0
  counted := rfl

theorem accepted_under_new_key_shipped :
    let app := AppState.shippedApp .standard (toBytesBE 32)
    let rotate : Request := .rotateKey "PDU_0x100" "rotated"
    let frame := (rotatedTransmission .standard (toBytesBE 32) [1, 2]).frame .standard
    let ops : List DeviceOp :=
      [.request (.transmitSecured "PDU_0x100" (toHex [1, 2]) Transport.canFd.value),
        .request (.receiveSecured "PDU_0x100" (toHex frame) Transport.canFd.value)]
    let accepted := acceptances .standard (running (app.request .standard rotate).2) ops
    accepted.length = 1 ∧ ∀ e ∈ accepted, e.2.pduId = "PDU_0x100" →
      ∃ n, app.stack.csm.hsm.draws ≤ n ∧ n < e.1.stack.csm.hsm.draws ∧
        e.2.AuthenticatedUnder .standard (toBytesBE 32 n) := by
  intro app rotate frame ops accepted
  have hnone : ∀ op ∈ ([] : List DeviceOp), DeviceOp.Continues op := List.forall_mem_nil _
  have hops : ∀ op ∈ ops, DeviceOp.Continues op := by
    rintro op hop u o rfl
    simp [ops] at hop
  have hinit : AppState.init .standard (((off .shipped).setNvmFault false).environment
      (toBytesBE 32) fun _ => false) = .ok app := AppState.init_shipped _ _
  have hrestarted : (((off .shipped).setNvmFault false).restart .standard (toBytesBE 32)
      fun _ => false).2 = running app := by
    simp only [restart, hinit]
  obtain ⟨-, hnew⟩ := accepted_under_new_key .standard _ (toBytesBE 32) (fun _ => false)
    hnone hops hrestarted (Or.inr rfl : rotate = _ ∨ rotate = _)
    (rfl : (app.request .standard rotate).1.response = .ok (.keyMetadata _))
  refine ⟨?_, hnew⟩
  have hmac : (0 : Int) < 8 := by decide
  have hmac' : (8 : Int) ≤ 32 := by decide
  have hwindow : (1 : Int) ≤ 16 := by decide
  obtain ⟨hquiet, hsome⟩ := AppState.reception_of_transmission
    (rotatedTransmission .standard (toBytesBE 32) [1, 2]) hmac hmac' hwindow rfl
    (counterFits_self _ _)
  obtain ⟨x, hx⟩ := Option.isSome_iff_exists.mp hsome
  simp only [accepted, ops, frame, acceptances, acceptance, step, request]
  rw [hquiet, hx]
  rfl

end Device

end SecOC
