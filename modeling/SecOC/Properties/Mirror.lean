import SecOC.Api.State
import SecOC.Docs.Engine
import SecOC.Properties.Delivery

/-! The page's engine mirrors the core. Over the page's PDUs, with one MAC on both sides, the two
give the same answers and stay in corresponding states while the counters are exact numbers. -/

namespace SecOC
open Py FreshnessManager Page

inductive PageOp
  | build (pduId : String) (payload : Bytes)
  | receive (pduId : String) (securedBytes : Bytes)
  | reset
  deriving DecidableEq, Repr

inductive PageAnswer
  | built (bytes : Option (List Js.Number))
  | verdict (v : Option Verdict)
  | reset

inductive CoreAnswer
  | transmitted (r : Except PyError Bytes)
  | received (pduId : String) (r : Except PyError (Option Bytes)) (logged : List DemEvent)
  | reset

def Page.machine (simMac : Mac) : Mealy Sim PageOp PageAnswer where
  step sim
    | .build p payload =>
      (.built ((buildSecuredPdu simMac sim p (ofBytes payload)).map Built.bytes), sim)
    | .receive p b => match receiveSecuredPdu simMac sim p (ofBytes b) with
      | none => (.verdict none, sim)
      | some (v, sim') => (.verdict (some v), sim')
    | .reset => (.reset, resetEcu sim)

def AppState.coreMachine (D : Digests) : Mealy AppState PageOp CoreAnswer where
  step a
    | .build p payload =>
      let (r, s) := a.stack.transmitSecured D p payload .canFd
      (.transmitted r, { a with stack := s })
    | .receive p b =>
      let (r, s) := a.stack.receiveSecured D p b .canFd
      (.received p r (s.escalation.dem.events.drop a.stack.escalation.dem.events.length),
        { a with stack := s })
    | .reset => (.reset, a.resetEcu)

/-- The same frame, the same payload, or a rejection for the same reason. -/
inductive Agree : PageAnswer → CoreAnswer → Prop
  | built (b : Bytes) : Agree (.built (some (ofBytes b))) (.transmitted (.ok b))
  | accepted (p : String) (payload : Bytes) (freshness : Js.Number) (logged : List DemEvent) :
    Agree (.verdict (some (.accepted (ofBytes payload) freshness)))
      (.received p (.ok (some payload)) logged)
  | rejected (p : String) (reason : RejectionReason) (rest : List DemEvent) :
    Agree (.verdict (some (.rejected reason.value)))
      (.received p (.ok none) (EventLogger.rejection p reason :: rest))
  | reset : Agree .reset .reset

structure Mirrors (P : Set String) (sim : Sim) (s : Stack) : Prop where
  state : sim.ecuState = s.escalation.ecuState.value
  locked : sim.lockedOut = s.escalation.lockedOut
  counts : ∀ p, sim.failureCounts.getD p 0 = ((s.escalation.counts.getD p 0 : ℤ) : ℚ)
  counters : ∀ p ∈ P, ∃ L : ℤ, 0 ≤ L ∧
    lastValid s.nvm p = .ok L ∧ sim.lastValidFreshness.getD p 0 = L
  frames : ∀ p ∈ P, sim.lastFrame.get? p = (s.bus.getLast p).map ofBytes

/-- The PDU has the page's lengths and key id, and its MAC is the page's. -/
structure Shared (D : Digests) (simMac : Mac) (s : Stack) (p keyId : String) : Prop where
  listed : pdus.get? p = some keyId
  found : ∃ profile, s.profiles.get? p = some profile ∧
    profile.truncationLengths .canFd = .ok (((2 : ℕ) : ℤ), 8) ∧ s.resolveKeyId p profile = .ok keyId
  stored : ∃ key, s.csm.hsm.keyStore.get? keyId = some (.symmetric key) ∧
    ∀ data, simMac keyId (ofBytes data) = ofBytes ((D.hmacSha256 key data).take 8)

structure Wired (D : Digests) (simMac : Mac) (P : Set String) (s : Stack) : Prop where
  shared : ∀ p ∈ P, ∃ keyId, Shared D simMac s p keyId
  manager : s.freshnessManager = { windowSize := 16, freshnessLength := 2 }
  alive : s.csm.hsm.failMode = false
  disk : s.nvm.diskFault = false

variable {D : Digests} {simMac : Mac} {P : Set String} {sim : Sim} {s s' : Stack} {p : String}

theorem Wired.extends (h : Wired D simMac P s) (hx : Stack.Extends s s') :
    Wired D simMac P s' := by
  refine ⟨?_, hx.freshnessManager.trans h.manager, hx.failMode.trans h.alive,
    hx.diskFault.trans h.disk⟩
  intro p hp
  obtain ⟨keyId, hlisted, ⟨profile, hfound, hlen, hres⟩, key, hkey, hmac⟩ := h.shared p hp
  refine ⟨keyId, hlisted, ⟨profile, ?_, hlen, ?_⟩, key, hx.key_persists hkey, hmac⟩
  · rw [hx.profiles]
    exact hfound
  · rw [hx.resolveKeyId_eq]
    exact hres

theorem Wired.ready (h : Wired D simMac P s) (hp : p ∈ P) :
    ∃ keyId, ∃ R : Stack.MacReady s p .canFd, pdus.get? p = some keyId ∧
      R.freshLen = 2 ∧ R.macLen = 8 ∧
      ∀ payload v, simMac keyId (ofBytes (region payload v 2)) = ofBytes (R.tag D payload v) := by
  obtain ⟨keyId, hlisted, ⟨profile, hfound, hlen, hres⟩, key, hkey, hmac⟩ := h.shared p hp
  have hstored : s.csm.hsm.macKey keyId = .symmetric key := by
    rw [HSM.macKey, hkey, Option.getD_some]
  refine ⟨keyId, ⟨profile, keyId, key, 2, 8, hfound, hlen, hres, h.alive, hstored⟩, hlisted,
    rfl, rfl, ?_⟩
  intro payload v
  rw [hmac]
  exact congrArg ofBytes (slice_take _ 8).symm

theorem Mirrors.congr (h : Mirrors P sim s) (hx : s'.escalation.ecuState = s.escalation.ecuState)
    (hl : s'.escalation.lockedOut = s.escalation.lockedOut)
    (hc : s'.escalation.counts = s.escalation.counts) (hn : s'.nvm = s.nvm)
    (hb : s'.bus = s.bus) : Mirrors P sim s' := by
  refine ⟨?_, ?_, ?_, ?_, ?_⟩
  · rw [hx]
    exact h.state
  · rw [hl]
    exact h.locked
  · rw [hc]
    exact h.counts
  · rw [hn]
    exact h.counters
  · rw [hb]
    exact h.frames

theorem mirror_build (hw : Wired D simMac P s) (hm : Mirrors P sim s) (hp : p ∈ P)
    (payload : Bytes) {L : ℤ} (hL : lastValid s.nvm p = .ok L)
    (hx : L + 1 ≤ 2 ^ 53) : ∃ T : Stack.Transmission s p payload .canFd,
      (buildSecuredPdu simMac sim p (ofBytes payload)).map Built.bytes =
        some (ofBytes (T.frame D)) := by
  obtain ⟨keyId, R, hlisted, hn, hlen, hmac⟩ := hw.ready hp
  obtain ⟨L', h0, hL', hlast⟩ := hm.counters p hp
  obtain rfl : L = L' := lastValid_inj hL hL'
  let T : Stack.Transmission s p payload .canFd := ⟨R, nofun, L, hL⟩
  have hframe : T.frame D = region payload (L + 1) 2 ++ R.tag D payload (L + 1) := by
    rw [← hn]
    rfl
  have hfresh : Js.add ((L : ℤ) : ℚ) 1 = ((L + 1 : ℤ) : ℚ) := by
    have h := Js.add_intCast (a := L) (b := 1) (abs_le.mpr ⟨by omega, hx⟩)
    exact_mod_cast h
  refine ⟨T, ?_⟩
  simp only [buildSecuredPdu, hlast, hfresh, counterBytes_eq, hlisted, bind, Option.bind, pure,
    Option.map_some]
  have hregion : payload ++ toBytesBE 2 ((L + 1) % 2 ^ 16).toNat = region payload (L + 1) 2 := rfl
  rw [← ofBytes_append, hregion, hmac, ← ofBytes_append, hframe]

theorem Mirrors.reject (h : Mirrors P sim s) (p : String) (reason : RejectionReason)
    (hcount : s.escalation.counts.getD p 0 < 2 ^ 53) :
    (Page.reject sim p reason.value).1 = .rejected reason.value ∧
      Mirrors P (Page.reject sim p reason.value).2 (s.reject p reason).2 := by
  -- a rejection is counted and escalated alike
  have hadd : Js.add (sim.failureCounts.getD p 0) 1 =
      ((s.escalation.counts.getD p 0 + 1 : ℕ) : ℚ) := by
    have h' := Js.add_intCast (a := s.escalation.counts.getD p 0) (b := 1)
      (abs_le.mpr ⟨by omega, by omega⟩)
    rw [h.counts]
    exact_mod_cast h'
  have hmax : Page.Config.maxAuthFailures ≤ Js.add (sim.failureCounts.getD p 0) 1 ↔
      Config.maxAuthFailures ≤ s.escalation.counts.getD p 0 + 1 := by
    rw [hadd, Page.Config.maxAuthFailures, Config.maxAuthFailures]
    exact_mod_cast Iff.rfl
  obtain ⟨hcounts, hfresh, hframe⟩ := Page.reject_fields sim p reason.value
  obtain ⟨hlock, hstate⟩ := Page.reject_lockout sim p reason.value
  have hlock' := s.escalation.reject_lockedOut p reason
  have hstate' := (s.escalation.reject_log p reason).2
  simp only [hmax, h.locked] at hlock hstate
  refine ⟨rfl, ?_, hlock.trans hlock'.symm, ?_, ?_, ?_⟩
  · refine hstate.trans (Eq.trans ?_ (congrArg EcuStateValue.value hstate').symm)
    rw [hlock', apply_ite EcuStateValue.value, h.state]
    cases s.escalation.lockedOut <;> simp [EcuStateValue.value]
  · intro q
    change _ = (((s.escalation.reject p reason).counts.getD q 0 : ℤ) : ℚ)
    rw [hcounts, Escalation.reject_counts, hadd]
    by_cases hq : q = p
    · rw [hq, Dict.getD_set_self, Dict.getD_set_self]
      push_cast
      rfl
    · rw [Dict.getD_set_ne _ _ _ hq, Dict.getD_set_ne _ _ _ hq]
      exact h.counts q
  · rw [hfresh]
    exact h.counters
  · rw [hframe]
    exact h.frames

theorem receiveSecured_parts (R : Stack.MacReady s p .canFd) (hn : R.freshLen = 2)
    (hlen : R.macLen = 8) (hf : s.freshnessManager = { windowSize := 16, freshnessLength := 2 })
    (hd : s.nvm.diskFault = false) {L c : ℤ} (hL : lastValid s.nvm p = .ok L) (a fb m : Bytes)
    (hfb : fb.length = 2) (hm : m.length = 8)
    (hc : Residue.next L (fromBytesBE fb) (2 ^ 16) = c) :
    s.receiveSecured D p (a ++ fb ++ m) .canFd =
      if ¬c ≤ L + 16 then s.reject p .freshnessOutOfWindow
      else if R.tag D a c = m then
        (.ok (some a), { s.verifiedWith R.keyId with
          nvm := (commitFreshness s.nvm p c).2, bus := s.bus.publish p (a ++ fb ++ m) })
      else (s.verifiedWith R.keyId).reject p .macMismatch := by
  have hparse : PduManager.parseSecuredPdu (a ++ fb ++ m) R.profile .canFd =
      .ok (a, fromBytesBE fb, m) := by
    refine PduManager.parseSecuredPdu_append ?_ ?_ nofun
    · rw [R.lengths, hn, hlen, hfb, hm]
      rfl
    · rw [← List.length_pos_iff, List.length_append]
      omega
  have hfresh := validateFreshness_eq s.freshnessManager s.nvm p (fromBytesBE fb) hL
  have hmod : s.freshnessManager.modulus = 2 ^ 16 := by
    rw [hf]
    rfl
  have hwindow : s.freshnessManager.windowSize = 16 := by rw [hf]
  rw [hmod, hc, hwindow] at hfresh
  by_cases hin : c ≤ L + 16
  · rw [if_pos hin] at hfresh
    rw [if_neg (not_not.mpr hin)]
    by_cases hmac : R.tag D a c = m
    · let A : Stack.Acceptance D s p (a ++ fb ++ m) .canFd :=
        ⟨R, a, fromBytesBE fb, m, c, hparse, hfresh, hmac⟩
      rw [if_pos hmac]
      exact A.accepted hd
    · rw [if_neg hmac]
      simp only [Stack.receiveSecured, getProfile_eq_ok.mpr R.found, hparse, hfresh,
        R.verifyMac_eq, beq_eq_false_iff_ne.mpr hmac]
      rfl
  · rw [if_neg hin] at hfresh
    rw [if_pos hin]
    simp only [Stack.receiveSecured, getProfile_eq_ok.mpr R.found, hparse, hfresh]

theorem receiveSecured_short (R : Stack.MacReady s p .canFd) (hn : R.freshLen = 2)
    (hlen : R.macLen = 8) {b : Bytes} (hb : b.length < 10) :
    s.receiveSecured D p b .canFd = s.reject p .malformedStructure := by
  have hshort : (b.length : Int) < ((2 : ℕ) : ℤ) + 8 := by omega
  have hlengths : R.profile.truncationLengths .canFd = .ok (((2 : ℕ) : ℤ), 8) := by
    rw [R.lengths, hn, hlen]
  simp only [Stack.receiveSecured, getProfile_eq_ok.mpr R.found, PduManager.parseSecuredPdu,
    hlengths, bind, Except.bind, hshort, if_true, throw, throwThe, MonadExceptOf.throw]

/-- The operation is on a PDU in `P`, and the numbers it leads to are exact: no count and no
counter it could accept is beyond 2^53. -/
def Exact (P : Set String) (a : AppState) : PageOp → Prop
  | .build p _ => p ∈ P ∧ ∀ L, lastValid a.stack.nvm p = .ok L → L + 1 ≤ 2 ^ 53
  | .receive p b => p ∈ P ∧ a.stack.escalation.counts.getD p 0 < 2 ^ 53 ∧
      ∀ payload fb m L, b = payload ++ fb ++ m → fb.length = 2 → m.length = 8 →
        lastValid a.stack.nvm p = .ok L →
        Residue.next L (fromBytesBE fb) (2 ^ 16) ≤ 2 ^ 53 ∨
          L < 2 ^ 53 ∧ L + 17 < Residue.next L (fromBytesBE fb) (2 ^ 16)
  | .reset => True

theorem exists_parts {b : Bytes} (h : 10 ≤ b.length) :
    ∃ a f₀ f₁ m, b = a ++ [f₀, f₁] ++ m ∧ m.length = 8 := by
  obtain ⟨f₀, f₁, hf⟩ : ∃ f₀ f₁, (b.drop (b.length - 10)).take 2 = [f₀, f₁] := by
    apply List.length_eq_two.mp
    rw [List.length_take, List.length_drop]
    omega
  refine ⟨b.take (b.length - 10), f₀, f₁, (b.drop (b.length - 10)).drop 2, ?_, ?_⟩
  · rw [← hf, List.append_assoc, List.take_append_drop, List.take_append_drop]
  · simp only [List.length_drop]
    omega

theorem mirror_rejected (hm : Mirrors P sim s) (c : CSM) (reason : RejectionReason)
    (hcount : s.escalation.counts.getD p 0 < 2 ^ 53) :
    Agree (.verdict (some (Page.reject sim p reason.value).1))
        (.received p (.ok none) ((s.escalation.reject p reason).dem.events.drop
          s.escalation.dem.events.length)) ∧
      Mirrors P (Page.reject sim p reason.value).2 ({ s with csm := c }.reject p reason).2 := by
  have hc : Mirrors P sim { s with csm := c } := hm.congr rfl rfl rfl rfl rfl
  obtain ⟨hv, hmirrors⟩ := hc.reject p reason hcount
  refine ⟨?_, hmirrors⟩
  rw [hv, (s.escalation.reject_log p reason).1, List.drop_left]
  exact .rejected p reason _

theorem mirror_receive (hw : Wired D simMac P s) (hm : Mirrors P sim s) (hp : p ∈ P) (b : Bytes)
    (hcount : s.escalation.counts.getD p 0 < 2 ^ 53)
    (hx : ∀ payload fb m L, b = payload ++ fb ++ m → fb.length = 2 → m.length = 8 →
      lastValid s.nvm p = .ok L → Residue.next L (fromBytesBE fb) (2 ^ 16) ≤ 2 ^ 53 ∨
        L < 2 ^ 53 ∧ L + 17 < Residue.next L (fromBytesBE fb) (2 ^ 16)) :
    ∃ v sim', receiveSecuredPdu simMac sim p (ofBytes b) = some (v, sim') ∧
      Agree (.verdict (some v)) (.received p (s.receiveSecured D p b .canFd).1
        ((s.receiveSecured D p b .canFd).2.escalation.dem.events.drop
          s.escalation.dem.events.length)) ∧
      Mirrors P sim' (s.receiveSecured D p b .canFd).2 := by
  obtain ⟨keyId, R, hlisted, hn, hlen, hmac⟩ := hw.ready hp
  obtain ⟨L, h0, hL, hlast⟩ := hm.counters p hp
  rcases lt_or_ge b.length 10 with hb | hb
  · obtain ⟨hagree, hmirrors⟩ := mirror_rejected (p := p) hm s.csm .malformedStructure hcount
    refine ⟨_, _, receiveSecuredPdu_short simMac sim p (by rwa [ofBytes_length]), ?_⟩
    rw [receiveSecured_short R hn hlen hb]
    exact ⟨hagree, hmirrors⟩
  · obtain ⟨a, f₀, f₁, m, rfl, hmlen⟩ := exists_parts hb
    have hexact := hx a [f₀, f₁] m L rfl rfl hmlen hL
    have hcore := receiveSecured_parts (D := D) R hn hlen hw.manager hw.disk hL a [f₀, f₁] m rfl
      hmlen rfl
    have hpage : receiveSecuredPdu simMac sim p (ofBytes (a ++ [f₀, f₁] ++ m)) = _ :=
      receiveSecuredPdu_append hlisted hlast h0 a m f₀ f₁ hmlen rfl hexact
    have htag : simMac keyId (ofBytes (a ++ toBytesBE 2
        (Residue.next L (fromBytesBE [f₀, f₁]) (2 ^ 16) % 2 ^ 16).toNat)) = ofBytes m ↔
        R.tag D a (Residue.next L (fromBytesBE [f₀, f₁]) (2 ^ 16)) = m := by
      rw [← ofBytes_inj, ← hmac]
      rfl
    have hlt := Residue.lt_next (L := L) (M := 2 ^ 16) (by norm_num)
      (Int.natCast_nonneg (fromBytesBE [f₀, f₁]))
    generalize Residue.next L (fromBytesBE [f₀, f₁]) (2 ^ 16) = c at *
    by_cases hin : c ≤ L + 16
    · rw [if_neg (not_not.mpr hin)] at hpage hcore
      by_cases hverified : R.tag D a c = m
      · rw [if_pos (htag.mpr hverified)] at hpage
        rw [if_pos hverified] at hcore
        refine ⟨_, _, hpage, ?_⟩
        rw [hcore]
        refine ⟨.accepted p a _ _, hm.state, hm.locked, hm.counts, ?_, ?_⟩
        · intro q hq
          by_cases hqp : q = p
          · subst hqp
            exact ⟨c, by omega, lastValid_commitFreshness _ _ _, Dict.getD_set_self _ _ _ _⟩
          · obtain ⟨L', h0', hL', hlast'⟩ := hm.counters q hq
            exact ⟨L', h0', (lastValid_commitFreshness_ne _ _ hqp).trans hL',
              (Dict.getD_set_ne _ _ _ hqp).trans hlast'⟩
        · intro q hq
          change (sim.lastFrame.set p _).get? q = ((s.bus.publish p _).getLast q).map ofBytes
          rw [Dict.get?_set, CanBus.getLast_publish]
          split_ifs
          · rfl
          · exact hm.frames q hq
      · rw [if_neg fun h => hverified (htag.mp h)] at hpage
        rw [if_neg hverified] at hcore
        refine ⟨_, _, hpage, ?_⟩
        rw [hcore]
        exact mirror_rejected (p := p) hm (s.csm.afterMac R.keyId) .macMismatch hcount
    · rw [if_pos hin] at hpage hcore
      refine ⟨_, _, hpage, ?_⟩
      rw [hcore]
      exact mirror_rejected (p := p) hm s.csm .freshnessOutOfWindow hcount

theorem Mirrors.resetEcu (h : Mirrors P sim s) :
    Mirrors P (Page.resetEcu sim) { s with escalation := s.escalation.resetEcu } :=
  ⟨rfl, rfl, fun _ => rfl, h.counters, h.frames⟩

theorem mirror_step {a : AppState} {op : PageOp}
    (h : Mirrors P sim a.stack ∧ Wired D simMac P a.stack) (hx : Exact P a op) :
    Agree ((Page.machine simMac).step sim op).1 ((AppState.coreMachine D).step a op).1 ∧
      Mirrors P ((Page.machine simMac).step sim op).2 ((AppState.coreMachine D).step a op).2.stack ∧
      Wired D simMac P ((AppState.coreMachine D).step a op).2.stack := by
  obtain ⟨hm, hw⟩ := h
  cases op with
  | build p payload =>
    obtain ⟨hp, hL⟩ := hx
    obtain ⟨L, -, hlast, -⟩ := hm.counters p hp
    obtain ⟨T, hT⟩ := mirror_build hw hm hp payload hlast (hL L hlast)
    simp only [Page.machine, AppState.coreMachine, hT, T.transmitSecured_eq]
    obtain ⟨-, hnvm, -, -, -, hbus⟩ := T.after_fields
    obtain ⟨hcounts, hlock, hstate⟩ := T.after_escalation
    exact ⟨.built _, hm.congr hstate hlock hcounts hnvm hbus, hw.extends T.extends_after⟩
  | receive p b =>
    obtain ⟨hp, hcount, hparts⟩ := hx
    obtain ⟨v, sim', hpage, hagree, hmirrors⟩ := mirror_receive hw hm hp b hcount hparts
    simp only [Page.machine, AppState.coreMachine, hpage]
    exact ⟨hagree, hmirrors, hw.extends (Stack.receiveSecured_extends p b .canFd)⟩
  | reset =>
    exact ⟨.reset, hm.resetEcu,
      hw.extends (Stack.extends_of_nvm_eq "" (.refl _ "") rfl rfl rfl rfl)⟩

/-- Over every run of builds, receptions and resets the page and the core answer alike and end in
corresponding states. -/
theorem page_mirrors_core {D : Digests} {simMac : Mac} {P : Set String} {sim : Sim} {a : AppState}
    (hm : Mirrors P sim a.stack) (hw : Wired D simMac P a.stack) {ops : List PageOp}
    (hx : (AppState.coreMachine D).Meets (Exact P) a ops) :
    List.Forall₂ Agree ((Page.machine simMac).outputs sim ops)
        ((AppState.coreMachine D).outputs a ops) ∧
      Mirrors P ((Page.machine simMac).exec sim ops)
        ((AppState.coreMachine D).exec a ops).stack := by
  obtain ⟨hout, hend, -⟩ := Mealy.simulation (R := fun sim a => Mirrors P sim a.stack ∧
    Wired D simMac P a.stack) mirror_step ⟨hm, hw⟩ hx
  exact ⟨hout, hend⟩

/-! Both start empty. -/

theorem mirrors_initial {dem : DEM} (he : s.escalation = .initial dem)
    (hf : s.bus.lastFrames = Dict.empty) (hc : ∀ p ∈ P, lastValid s.nvm p = .ok 0) :
    Mirrors P Sim.initial s := by
  refine ⟨?_, ?_, ?_, ?_, ?_⟩
  · rw [he]
    rfl
  · rw [he]
    rfl
  · intro p
    rw [he]
    rfl
  · intro p hp
    exact ⟨0, le_rfl, hc p hp, rfl⟩
  · intro p _
    rw [CanBus.getLast, hf]
    rfl

/-- The MAC the core computes under a key id, as the page would call it. -/
def coreMac (D : Digests) (hsm : HSM) : Mac := fun keyId data =>
  match hsm.keyStore.get? keyId with
  | some (.symmetric key) => ofBytes ((D.hmacSha256 key (toBytes data)).take 8)
  | _ => []

theorem shared_coreMac {keyId : String} (key : Bytes) (profile : SecurityProfileEntry)
    (hlisted : pdus.get? p = some keyId) (hfound : s.profiles.get? p = some profile)
    (hlen : profile.truncationLengths .canFd = .ok (((2 : ℕ) : ℤ), 8))
    (hres : s.resolveKeyId p profile = .ok keyId)
    (hkey : s.csm.hsm.keyStore.get? keyId = some (.symmetric key)) :
    Shared D (coreMac D s.csm.hsm) s p keyId := by
  refine ⟨hlisted, ⟨profile, hfound, hlen, hres⟩, key, hkey, fun data => ?_⟩
  rw [coreMac, hkey, toBytes_ofBytes]

def pagePdus : Set String := {"PDU_BRAKE_TORQUE", "PDU_0x100", "PDU_0x200"}

theorem shippedApp_wired (D : Digests) (urandom : Nat → Bytes) :
    Wired D (coreMac D (AppState.shippedApp D urandom).stack.csm.hsm) pagePdus
      (AppState.shippedApp D urandom).stack where
  shared := by
    rintro p (rfl | rfl | rfl)
    · exact ⟨_, shared_coreMac (urandom 0) (shippedProfile "PDU_BRAKE_TORQUE") rfl rfl rfl rfl rfl⟩
    · exact ⟨_, shared_coreMac (urandom 1) (shippedProfile "PDU_0x100") rfl rfl rfl rfl rfl⟩
    · exact ⟨_, shared_coreMac (urandom 2) (shippedProfile "PDU_0x200") rfl rfl rfl rfl rfl⟩
  manager := rfl
  alive := rfl
  disk := rfl

theorem shippedApp_mirrors (D : Digests) (urandom : Nat → Bytes) :
    Mirrors pagePdus Sim.initial (AppState.shippedApp D urandom).stack := by
  refine mirrors_initial rfl rfl ?_
  rintro p (rfl | rfl | rfl) <;> rfl

theorem page_mirrors_core_forged :
    List.Forall₂ Agree
      ((Page.machine (coreMac .standard
          (AppState.shippedApp .standard (toBytesBE 32)).stack.csm.hsm)).outputs Sim.initial
        [.receive "PDU_0x100" (List.replicate 12 1), .reset])
      ((AppState.coreMachine .standard).outputs (AppState.shippedApp .standard (toBytesBE 32))
        [.receive "PDU_0x100" (List.replicate 12 1), .reset]) := by
  have hx : Exact pagePdus (AppState.shippedApp .standard (toBytesBE 32))
      (.receive "PDU_0x100" (List.replicate 12 1)) := by
    refine ⟨Or.inr (Or.inl rfl), by decide, ?_⟩
    intro payload fb m L _ hfb _ hL
    have hL0 : L = 0 := lastValid_inj hL rfl
    have hlt := fromBytesBE_lt fb
    rw [hfb] at hlt
    have hle := Residue.next_le_add (L := L) (t := fromBytesBE fb) (M := 2 ^ 16) (by norm_num)
      (by exact_mod_cast hlt)
    exact Or.inl (by omega)
  have hmeets : (AppState.coreMachine .standard).Meets (Exact pagePdus)
      (AppState.shippedApp .standard (toBytesBE 32))
      [.receive "PDU_0x100" (List.replicate 12 1), .reset] := ⟨hx, trivial, trivial⟩
  exact (page_mirrors_core (shippedApp_mirrors _ _) (shippedApp_wired _ _) hmeets).1

end SecOC
