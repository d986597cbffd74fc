import SecOC.Properties.Delivery
import SecOC.Properties.Lifetime

/-! The keys of one life of the process. The HSM starts empty and no file holds its keys, so what is
accepted before the next restart is authenticated under a key drawn since the last one. -/

namespace SecOC
open Py Stack FreshnessManager

namespace HSM

def KeptByDraws (I : HSM → Prop) : Prop := ∀ h keyId, I h → I (h.storeRandomKey keyId)

structure Drawn (u : Nat → Bytes) (h : HSM) : Prop where
  urandom : h.urandom = u
  keys : ∀ keyId key, h.keyStore.get? keyId = some key → ∃ n < h.draws, key = .symmetric (u n)

theorem drawn_new (u : Nat → Bytes) : (HSM.new u).Drawn u := ⟨rfl, fun _ _ h => by cases h⟩

theorem keptByDraws_drawn (u : Nat → Bytes) : KeptByDraws (Drawn u) := by
  rintro h keyId ⟨rfl, hkeys⟩
  refine ⟨rfl, fun k key hk => ?_⟩
  simp only [storeRandomKey] at hk ⊢
  rw [Dict.get?_set] at hk
  split_ifs at hk
  · exact ⟨h.draws, h.draws.lt_succ_self, (Option.some.inj hk).symm⟩
  · obtain ⟨n, hn, hkey⟩ := hkeys k key hk
    exact ⟨n, hn.trans h.draws.lt_succ_self, hkey⟩

theorem keptByDraws_draws (n : Nat) : KeptByDraws fun h => n ≤ h.draws :=
  fun h _ hn => hn.trans h.draws.le_succ

theorem Drawn.macKey {u : Nat → Bytes} {h : HSM} (hd : h.Drawn u) (keyId : String) :
    ∃ n < (h.afterMac keyId).draws, h.macKey keyId = .symmetric (u n) := by
  have hafter : (h.afterMac keyId).Drawn u := by
    unfold HSM.afterMac
    split
    · exact keptByDraws_drawn u h keyId hd
    · exact hd
  exact hafter.keys keyId (h.macKey keyId) (h.afterMac_keyStore_self keyId)

namespace KeptByDraws
variable {I : HSM → Prop} (hI : KeptByDraws I)
include hI

theorem afterMac {h : HSM} (hh : I h) (keyId : String) : I (h.afterMac keyId) := by
  unfold HSM.afterMac
  split
  · exact hI h keyId hh
  · exact hh

theorem csmAfter {s : Stack} {p : String} {c : CSM} (hs : I s.csm.hsm) (hc : s.CsmAfter p c) :
    I c.hsm := by
  rcases hc with hc | ⟨_, keyId, -, -, hc⟩
  · rw [hc]
    exact hs
  · rw [hc]
    exact hI.afterMac hs keyId

theorem generateSymmetricKey {h : HSM} (hh : I h) (keyId : String) :
    I (h.generateSymmetricKey keyId).2 := by
  rw [HSM.generateSymmetricKey_eq_ite]
  split_ifs
  · exact hh
  · exact hI h keyId hh

theorem provisionKey {h : HSM} (hh : I h) (nvm : NvM) (p keyId : String) :
    I (KeyManager.provisionKey h nvm p keyId).2.1 := by
  have hdrawn := hI.generateSymmetricKey hh keyId
  unfold KeyManager.provisionKey
  split
  · next he =>
    rw [he] at hdrawn
    exact hdrawn
  · next he =>
    rw [he] at hdrawn
    dsimp only
    split <;> exact hdrawn

theorem rotateKey {h : HSM} (hh : I h) (nvm : NvM) (p newKeyId : String) :
    I (KeyManager.rotateKey h nvm p newKeyId).2.1 := by
  have hdrawn := hI.generateSymmetricKey hh newKeyId
  unfold KeyManager.rotateKey
  split
  · exact hh
  · exact hh
  · split
    · next he =>
      rw [he] at hdrawn
      exact hdrawn
    · next he =>
      rw [he] at hdrawn
      dsimp only
      split <;> exact hdrawn

theorem provisionKeys (keys : List (String × String)) {h : HSM} (hh : I h) (nvm : NvM) :
    I (KeyManager.provisionKeys keys h nvm).2.1 := by
  induction keys generalizing h nvm with
  | nil => exact hh
  | cons e rest ih =>
    obtain ⟨p, keyId⟩ := e
    have hdrawn := hI.provisionKey hh nvm p keyId
    unfold KeyManager.provisionKeys
    split
    · exact ih hh nvm
    · split
      · next he =>
        rw [he] at hdrawn
        exact hdrawn
      · next he =>
        rw [he] at hdrawn
        exact ih hdrawn _
    · exact hh

theorem init {D : Digests} {env : Environment} {a : AppState} (h : AppState.init D env = .ok a)
    (hnew : I (HSM.new env.urandom)) : I a.stack.csm.hsm := by
  obtain ⟨profiles, hsm, nvm, nvm', dem, hk, -, -, hstack⟩ := AppState.init_eq_ok h
  have hkeys := hI.provisionKeys (profiles.items.map fun e => (e.1, e.2.keyId)) hnew
    { NvM.load env.nvmFile with diskFault := env.diskFault }
  rw [hk] at hkeys
  rw [hstack]
  exact hkeys

theorem transmitSecured {D : Digests} {s : Stack} (hs : I s.csm.hsm) (p : String) (b : Bytes)
    (t : Transport) : I (s.transmitSecured D p b t).2.csm.hsm := by
  rcases isEmpty_or_nonempty (Transmission s p b t) with hT | ⟨⟨T⟩⟩
  · obtain ⟨e, c, n, hc, he⟩ := transmitSecured_refused (D := D) hT
    rw [he]
    exact hI.csmAfter hs (p := p) (Or.inl hc)
  · obtain ⟨-, -, -, hcsm, -, -⟩ := T.after_fields
    rw [T.transmitSecured_eq, hcsm]
    exact hI.afterMac hs T.keyId

theorem receiveSecured {D : Digests} {s : Stack} (hs : I s.csm.hsm) (p : String) (b : Bytes)
    (t : Transport) : I (s.receiveSecured D p b t).2.csm.hsm := by
  rcases isEmpty_or_nonempty (Acceptance D s p b t) with hA | ⟨⟨A⟩⟩
  · rcases receiveSecured_refused hA with ⟨e, c, hc, he⟩ | ⟨reason, c, hc, -, he⟩
    · rw [he]
      exact hI.csmAfter hs hc
    · rw [he]
      exact hI.csmAfter hs hc
  · obtain ⟨bus, he⟩ := A.receiveSecured_snd
    rw [he]
    exact hI.csmAfter hs A.csmAfter

theorem request {D : Digests} {a : AppState} (ha : I a.stack.csm.hsm) (r : Request) :
    I (a.request D r).2.stack.csm.hsm := by
  -- a request does nothing to the HSM but draw keys
  refine AppState.request_keeps (I := fun a => I a.stack.csm.hsm) (fun {a _} hstep ha => ?_) ha r
  cases hstep with
  | transmit p b t => exact hI.transmitSecured ha p b t
  | receive p b t => exact hI.receiveSecured ha p b t
  | @provisionKey p keyId r hsm nvm he =>
    have hdrawn := hI.provisionKey ha a.stack.nvm p keyId
    rw [he] at hdrawn
    exact hdrawn
  | @rotateKey p newKeyId r hsm nvm he =>
    have hdrawn := hI.rotateKey ha a.stack.nvm p newKeyId
    rw [he] at hdrawn
    exact hdrawn
  | _ => exact ha

end KeptByDraws
end HSM

theorem AppState.Reaches.keeps {I : HSM → Prop} (hI : HSM.KeptByDraws I) {a : AppState} {s : Stack}
    (hs : a.Reaches s) (ha : I a.stack.csm.hsm) : I s.csm.hsm := by
  rcases hs.hsm with h | ⟨keyId, h⟩
  · rw [h]
    exact ha
  · rw [h]
    exact hI.afterMac ha keyId

/-- The frame's MAC is one of its payload and the stored counter. -/
def Reception.AuthenticatedUnder (D : Digests) (key : Bytes) (x : Reception) : Prop :=
  ∃ profile freshLen macLen payload wire mac counter,
    x.profile = .ok profile ∧
    profile.truncationLengths x.transport = .ok (((freshLen : Nat) : Int), macLen) ∧
    PduManager.parseSecuredPdu x.securedPdu profile x.transport = .ok (payload, wire, mac) ∧
    x.counter = .ok counter ∧
    mac = slice (D.hmacSha256 key (region payload counter freshLen)) none (some macLen)

theorem Stack.Acceptance.authenticated {D : Digests} {s : Stack} {x : Reception}
    (A : Acceptance D s x.pduId x.securedPdu x.transport) (hprofile : x.profile = .ok A.profile)
    (hcounter : x.counter = .ok A.counter) : x.AuthenticatedUnder D A.key := by
  have hmac : A.mac = A.tag D A.payload A.counter := A.verified.symm
  exact ⟨A.profile, A.freshLen, A.macLen, A.payload, A.wire, A.mac, A.counter, hprofile,
    A.lengths, A.parsed, hcounter, hmac⟩

namespace AppState

def shippedTransmission (D : Digests) (u : Nat → Bytes) (b : Bytes) :
    Transmission (shippedApp D u).stack "PDU_0x100" b .canFd where
  profile := shippedProfile "PDU_0x100"
  keyId := "secoc_mac_key_PDU_0x100"
  key := u 1
  freshLen := 2
  macLen := 8
  found := rfl
  lengths := rfl
  resolved := rfl
  alive := rfl
  stored := rfl
  admissible := fun h => by cases h
  lastValid := 0
  counted := rfl

theorem reception_of_transmission {a : AppState} {p : String} {b : Bytes} {t : Transport}
    (T : Transmission a.stack p b t) (hm : 0 < T.macLen) (hm' : T.macLen ≤ 32)
    (hw : 1 ≤ a.stack.freshnessManager.windowSize) (hd : a.stack.nvm.diskFault = false)
    (hfits : a.stack.freshnessManager.CounterFits T.freshLen (T.lastValid + 1)) :
    let sends : Request := .transmitSecured p (toHex b) t.value
    let receives : Request := .receiveSecured p (toHex (T.frame D)) t.value
    a.reception D sends = none ∧ ((a.request D sends).2.reception D receives).isSome := by
  intro sends receives
  have hdecode := decodePdu_toHex p (T.frame D) t
  have hsent : (a.request D sends).2 = { a with stack := T.after } := by
    rw [show (a.request D sends).2 = (a.transmitSecured D _ _ _).2 from rfl,
      (a.transmitSecured_some (decodePdu_toHex p b t)).2, T.transmitSecured_eq]
  have hcalls := (AppState.receiveSecured_some (D := D) { a with stack := T.after } hdecode).1
  have hreceives : AppState.receives D { a with stack := T.after } receives =
      some (p, T.frame D, t) := hdecode
  obtain ⟨L, -, hok, -⟩ := (T.delivered_iff (D := D) hm hm' hw hd).mpr hfits
  refine ⟨rfl, ?_⟩
  rw [hsent]
  unfold reception
  rw [hreceives, request, hcalls, hok]
  rfl

theorem reception_shipped (D : Digests) (u : Nat → Bytes) (b : Bytes) :
    let a := shippedApp D u
    let sends : Request := .transmitSecured "PDU_0x100" (toHex b) Transport.canFd.value
    a.reception D sends = none ∧ ((a.request D sends).2.reception D (.receiveSecured "PDU_0x100"
      (toHex ((shippedTransmission D u b).frame D)) Transport.canFd.value)).isSome := by
  have hmac : (0 : Int) < 8 := by decide
  have hmac' : (8 : Int) ≤ 32 := by decide
  have hwindow : (1 : Int) ≤ 16 := by decide
  exact reception_of_transmission (shippedTransmission D u b) hmac hmac' hwindow rfl
    (counterFits_self _ _)

end AppState

def DeviceOp.Continues (op : DeviceOp) : Prop :=
  ∀ urandom overBudget, op ≠ .restart urandom overBudget

namespace Device
variable {D : Digests} {d : Device} {u : Nat → Bytes}

theorem reception_authenticated {app : AppState} (h : app.stack.csm.hsm.Drawn u) {r : Request}
    {x : Reception} (hx : app.reception D r = some x) :
    ∃ n < (app.request D r).2.stack.csm.hsm.draws, x.AuthenticatedUnder D (u n) := by
  obtain ⟨s, hs, A, hprofile, hcounter, -, bus, hafter⟩ := AppState.reception_spec hx
  have hdrawn : s.csm.hsm.Drawn u := hs.keeps (HSM.keptByDraws_drawn u) h
  obtain ⟨n, hn, hkey⟩ := hdrawn.macKey A.keyId
  have hown : A.key = u n := KeyMaterial.symmetric.inj (A.stored.symm.trans hkey)
  refine ⟨n, ?_, hown ▸ A.authenticated hprofile hcounter⟩
  rw [hafter]
  exact hn

def OfHsm (I : HSM → Prop) : Device → Prop
  | running app => I app.stack.csm.hsm
  | off _ => True

abbrev Drawn (u : Nat → Bytes) : Device → Prop := OfHsm (HSM.Drawn u)

theorem ofHsm_restart {I : HSM → Prop} (hI : HSM.KeptByDraws I) (D : Digests) (d : Device)
    {u : Nat → Bytes} (overBudget : Nat → Bool) (hnew : I (HSM.new u)) :
    (d.restart D u overBudget).2.OfHsm I := by
  simp only [restart]
  split
  · next app happ => exact hI.init happ hnew
  · trivial

theorem drawn_restart (D : Digests) (d : Device) (u : Nat → Bytes) (overBudget : Nat → Bool) :
    (d.restart D u overBudget).2.Drawn u :=
  ofHsm_restart (HSM.keptByDraws_drawn u) D d overBudget (HSM.drawn_new u)

theorem OfHsm.step {I : HSM → Prop} (hI : HSM.KeptByDraws I) (h : d.OfHsm I) {op : DeviceOp}
    (hop : DeviceOp.Continues op) : (d.step D op).2.OfHsm I := by
  cases op with
  | restart urandom overBudget => exact absurd rfl (hop urandom overBudget)
  | request r =>
    cases d with
    | running app => exact hI.request h r
    | off disk => trivial
  | nvmFault fault => cases d <;> exact h
  | configure configFile => cases d <;> exact h

theorem OfHsm.run {I : HSM → Prop} (hI : HSM.KeptByDraws I) (h : d.OfHsm I) {ops : List DeviceOp}
    (hops : ∀ op ∈ ops, DeviceOp.Continues op) : ((machine D).exec d ops).OfHsm I := by
  induction ops generalizing d with
  | nil => exact h
  | cons op ops ih =>
    obtain ⟨hop, hops⟩ := List.forall_mem_cons.mp hops
    exact ih (h.step hI hop) hops

def acceptance (D : Digests) : Device → DeviceOp → Option (AppState × Reception)
  | running app, .request r => (app.reception D r).map fun x => ((app.request D r).2, x)
  | _, _ => none

/-- The frames accepted along a run, each with the application as it is right after. -/
def acceptances (D : Digests) : Device → List DeviceOp → List (AppState × Reception)
  | _, [] => []
  | d, op :: ops => (acceptance D d op).toList ++ acceptances D (d.step D op).2 ops

theorem acceptances_map_snd (D : Digests) (d : Device) (ops : List DeviceOp) :
    (acceptances D d ops).map Prod.snd = receptions D d ops := by
  induction ops generalizing d with
  | nil => rfl
  | cons op ops ih =>
    rw [acceptances, List.map_append, ih]
    cases d with
    | off disk => cases op <;> rfl
    | running app =>
      cases op with
      | request r =>
        rw [acceptance, receptions]
        cases app.reception D r <;> rfl
      | _ => rfl

theorem forall_acceptances {I : Device → Prop} (Q : AppState → Reception → Prop)
    (hstep : ∀ {d op}, I d → DeviceOp.Continues op → I (d.step D op).2)
    (hQ : ∀ {app r x}, I (running app) → app.reception D r = some x → Q (app.request D r).2 x)
    (hd : I d) {ops : List DeviceOp} (hops : ∀ op ∈ ops, DeviceOp.Continues op) :
    ∀ e ∈ acceptances D d ops, Q e.1 e.2 := by
  induction ops generalizing d with
  | nil => exact List.forall_mem_nil _
  | cons op ops ih =>
    obtain ⟨hop, hops⟩ := List.forall_mem_cons.mp hops
    refine List.forall_mem_append.mpr ⟨?_, ih (hstep hd hop) hops⟩
    intro e he
    rw [Option.mem_toList] at he
    unfold acceptance at he
    split at he
    · obtain ⟨x, hx, rfl⟩ := Option.map_eq_some_iff.mp he
      exact hQ hd hx
    · cases he

/-- **Nothing authenticated crosses a restart.** Whatever the device was before, a frame accepted
between a restart and the next one has a MAC under a key that this process has drawn by then. -/
theorem accepted_under_own_keys (D : Digests) (d : Device) (u : Nat → Bytes)
    (overBudget : Nat → Bool) (ops : List DeviceOp) (hops : ∀ op ∈ ops, DeviceOp.Continues op) :
    (acceptances D (d.restart D u overBudget).2 ops).map Prod.snd =
        receptions D (d.restart D u overBudget).2 ops ∧
      ∀ e ∈ acceptances D (d.restart D u overBudget).2 ops,
        ∃ n < e.1.stack.csm.hsm.draws, e.2.AuthenticatedUnder D (u n) :=
  ⟨acceptances_map_snd D _ ops,
    forall_acceptances (fun app x => ∃ n < app.stack.csm.hsm.draws, x.AuthenticatedUnder D (u n))
      (fun h hop => h.step (HSM.keptByDraws_drawn u) hop)
      (fun h hx => reception_authenticated h hx) (drawn_restart D d u overBudget) hops⟩

theorem accepted_under_own_keys_shipped :
    let d := (((off .shipped).setNvmFault false).restart .standard (toBytesBE 32) fun _ => false).2
    let frame := (AppState.shippedTransmission .standard (toBytesBE 32) [1, 2]).frame .standard
    let ops : List DeviceOp :=
      [.request (.transmitSecured "PDU_0x100" (toHex [1, 2]) Transport.canFd.value),
        .request (.receiveSecured "PDU_0x100" (toHex frame) Transport.canFd.value)]
    (receptions .standard d ops).length = 1 ∧
      ∀ e ∈ acceptances .standard d ops, ∃ n < e.1.stack.csm.hsm.draws,
        e.2.AuthenticatedUnder .standard (toBytesBE 32 n) := by
  intro d frame ops
  refine ⟨?_, (accepted_under_own_keys .standard _ _ _ ops fun op hop u o he => ?_).2⟩
  · have hinit : AppState.init .standard (((off .shipped).setNvmFault false).environment
        (toBytesBE 32) fun _ => false) = .ok (AppState.shippedApp .standard (toBytesBE 32)) :=
      AppState.init_shipped _ _
    have hd : d = running (AppState.shippedApp .standard (toBytesBE 32)) := by
      simp only [d, restart, hinit]
    obtain ⟨hnone, hsome⟩ := AppState.reception_shipped .standard (toBytesBE 32) [1, 2]
    obtain ⟨x, hx⟩ := Option.isSome_iff_exists.mp hsome
    rw [hd]
    simp only [ops, frame, receptions, step, request, hnone, hx]
    rfl
  · subst he
    simp [ops] at hop

end Device

end SecOC
