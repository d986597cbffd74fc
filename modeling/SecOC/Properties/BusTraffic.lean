import SecOC.Properties.Delivery
import SecOC.Sim.Ecu

/-! Legitimate traffic on the bus. Accepting a frame publishes it once more, and the copy is a
replay: every round delivers its payload once, counts one failure, and the fifth locks out. -/

namespace SecOC
open Py FreshnessManager

theorem PduRouter.routeToBus_ok {r : PduRouter} {bus bus' : CanBus} {pduId : String}
    {data : Bytes} {u : Unit} (h : r.routeToBus bus pduId data = (.ok u, bus')) :
    bus' = bus.publish pduId data := by
  rcases r.routeToBus_cases bus pduId data with ⟨hroute, -⟩ | ⟨e, hroute⟩
  · rw [hroute] at h
    cases h
    rfl
  · rw [hroute] at h
    cases h

def DEM.authFails (d : DEM) : Nat := d.events.countP fun e => e.eventId = "SECOC_AUTH_FAIL"

theorem Escalation.authFails_reject (x : Escalation) (pduId : String) (reason : RejectionReason) :
    (x.reject pduId reason).dem.authFails = x.dem.authFails + 1 := by
  have hid : (EventLogger.rejection pduId reason).eventId = "SECOC_AUTH_FAIL" := by
    cases reason <;> rfl
  rw [DEM.authFails, (x.reject_log pduId reason).1, List.countP_append, List.countP_cons]
  split_ifs <;> simp_all [DEM.authFails, Escalation.safeStateEntered, EventLogger.event]

theorem Escalation.reject_open {x : Escalation} {pduId : String} {n : Nat}
    (hopen : x.lockedOut = false) (hstate : x.ecuState = .normalOperation)
    (hcount : x.counts.getD pduId 0 = n) (reason : RejectionReason) :
    (x.reject pduId reason).counts.getD pduId 0 = n + 1 ∧
    (x.reject pduId reason).lockedOut = decide (Config.maxAuthFailures ≤ n + 1) ∧
    (x.reject pduId reason).ecuState = if Config.maxAuthFailures ≤ n + 1
      then .securityViolationLockout else .normalOperation := by
  have hlock := x.reject_lockedOut pduId reason
  rw [hopen, hcount, Bool.false_or] at hlock
  refine ⟨?_, hlock, ?_⟩
  · rw [reject_counts, Dict.getD_set_self, hcount]
  · rw [(x.reject_log pduId reason).2, hopen, hlock, hstate]
    simp only [true_and, decide_eq_true_eq]

namespace Stack
variable {D : Digests} {s s' : Stack} {p : String} {a : Bytes} {t : Transport}

theorem Transmission.authFails_after (T : Transmission s p a t) :
    T.after.escalation.dem.authFails = s.escalation.dem.authFails := by
  rcases T.after_dem with h | h
  · rw [h]
  · rw [h]
    exact List.countP_append.trans (Nat.add_zero _)

theorem extends_bus (s : Stack) (bus : CanBus) : Extends s { s with bus := bus } :=
  extends_of_nvm_eq "" (.refl s "") rfl rfl rfl rfl

theorem Transmission.copy_rejected (T : Transmission s p a t) (hx : Extends T.after s')
    (hm : 0 < T.macLen) (hm' : T.macLen ≤ 32)
    (hn : T.freshLen = s.freshnessManager.freshnessLength)
    (hw : s.freshnessManager.windowSize < s.freshnessManager.modulus)
    (hL : FreshnessManager.lastValid s'.nvm p = .ok (T.lastValid + 1)) :
    s'.receiveSecured D p (T.frame D) t = s'.reject p .freshnessOutOfWindow :=
  T.stale_rejected hx (T.parse_frame hm hm') hn hw hL

theorem Transmission.accepted_then_rejected (T : Transmission s p a t) (hm : 0 < T.macLen)
    (hm' : T.macLen ≤ 32) (hn : T.freshLen = s.freshnessManager.freshnessLength)
    (hw : 1 ≤ s.freshnessManager.windowSize)
    (hw' : s.freshnessManager.windowSize < s.freshnessManager.modulus)
    (hd : s.nvm.diskFault = false) (bus : CanBus) : ∃ s₂ : Stack,
      ({ T.after with bus := bus } : Stack).receiveSecured D p (T.frame D) t =
        (.ok (some (padded t a)), s₂) ∧
      s₂.bus = bus.publish p (T.frame D) ∧ s₂.escalation = T.after.escalation ∧
      Extends T.after s₂ ∧ FreshnessManager.lastValid s₂.nvm p = .ok (T.lastValid + 1) ∧
      ∀ bus', ({ s₂ with bus := bus' } : Stack).receiveSecured D p (T.frame D) t =
        ({ s₂ with bus := bus' } : Stack).reject p .freshnessOutOfWindow := by
  -- a frame received where it was built is accepted, and the copy of it that is then on the bus is
  -- taken for a replay
  have hx : Extends T.after { T.after with bus := bus } := extends_bus T.after bus
  have hnext : Residue.next T.lastValid T.wire T.after.freshnessManager.modulus =
      T.lastValid + 1 := by
    rw [T.freshnessManager_after, T.wire_cast, hn]
    exact (next_succ_iff _ _ _).mpr (counterFits_self _ _)
  have hwindow : T.lastValid + 1 ≤ T.lastValid + T.after.freshnessManager.windowSize := by
    rw [T.freshnessManager_after]
    linarith
  let A := T.acceptance (D := D) hx hm hm' T.counted_after hnext hwindow rfl
  have hL : FreshnessManager.lastValid (commitFreshness T.after.nvm p (T.lastValid + 1)).2 p =
      .ok (T.lastValid + 1) := lastValid_commitFreshness _ _ _
  refine ⟨_, A.accepted (T.extends_after.diskFault.trans hd), rfl, rfl,
    hx.trans A.extends_commit, hL, ?_⟩
  intro bus'
  exact T.copy_rejected (hx.trans A.extends_commit) hm hm' hn hw' hL

end Stack

def ReceiverECU.deliver (r : ReceiverECU) (pduId : String) (payload : Bytes) : ReceiverECU :=
  { r with rxAcceptedCount := r.rxAcceptedCount.set pduId (r.rxAcceptedCount.getD pduId 0 + 1)
           delivered := r.delivered ++ [(pduId, payload)] }

namespace EcuPair
open Stack
variable {D : Digests} {p : String}

/-- A stack on which nothing has failed yet, for a PDU whose counter field has the freshness
manager's length; the bus is empty. -/
structure Ready (s : Stack) (p : String) where
  profile : SecurityProfileEntry
  found : s.profiles.get? p = some profile
  authenticator_pos : 0 < profile.authenticatorLength
  authenticator_le : profile.authenticatorLength ≤ 32
  freshness_eq : profile.freshnessLength = s.freshnessManager.freshnessLength
  window_pos : 1 ≤ s.freshnessManager.windowSize
  window_lt : s.freshnessManager.windowSize < s.freshnessManager.modulus
  disk : s.nvm.diskFault = false
  counter : Int
  counted : lastValid s.nvm p = .ok counter
  queue : s.bus.queue = []
  count : s.escalation.counts.getD p 0 = 0
  unlocked : s.escalation.lockedOut = false
  normal : s.escalation.ecuState = .normalOperation

theorem Ready.lengths {s s' : Stack} (R : Ready s p) (hx : Extends s s') {a : Bytes}
    (T : Transmission s' p a .canFd) :
    T.freshLen = s'.freshnessManager.freshnessLength ∧ 0 < T.macLen ∧ T.macLen ≤ 32 := by
  have hl : R.profile.truncationLengths .canFd =
      .ok ((s.freshnessManager.freshnessLength : Int), R.profile.authenticatorLength) := by
    rw [SecurityProfileEntry.truncationLengths, R.freshness_eq]
  obtain ⟨hn, hm⟩ := T.lengths_of (hx.profiles.symm ▸ R.found) hl
  rw [hx.freshnessManager, hm]
  exact ⟨hn, R.authenticator_pos, R.authenticator_le⟩

structure AfterRounds (s : Stack) (p : String) (counter : Int) (payloads : List Bytes)
    (e : EcuPair) : Prop where
  txRouter : e.txRouter = (build s p).txRouter
  rxRouter : e.rxRouter = (build s p).rxRouter
  managedTx : e.sender.managedPduIds = [p]
  managedRx : e.receiver.managedPduIds = [p]
  handlers : e.receiver.signalHandlers = [p]
  extends_stack : Extends s e.stack
  counter : lastValid e.stack.nvm p = .ok (counter + payloads.length)
  queue : e.stack.bus.queue = []
  count : e.stack.escalation.counts.getD p 0 = payloads.length
  lockedOut : e.stack.escalation.lockedOut = decide (Config.maxAuthFailures ≤ payloads.length)
  ecuState : e.state = if Config.maxAuthFailures ≤ payloads.length
    then .securityViolationLockout else .normalOperation
  delivered : e.receiver.delivered = payloads.map fun a => (p, a)
  rejected : e.receiver.rxRejectedCount.getD p 0 = payloads.length
  authFails : e.stack.escalation.dem.authFails = s.escalation.dem.authFails + payloads.length

theorem AfterRounds.managed {s : Stack} {counter : Int} {payloads : List Bytes} {e : EcuPair}
    (h : AfterRounds s p counter payloads e) : ¬p ∉ e.sender.managedPduIds := by
  rw [h.managedTx]
  exact not_not.mpr (List.mem_singleton.mpr rfl)

theorem afterRounds_build {s : Stack} (R : Ready s p) :
    AfterRounds s p R.counter [] (build s p) where
  txRouter := rfl
  rxRouter := rfl
  managedTx := rfl
  managedRx := rfl
  handlers := rfl
  extends_stack := .refl s
  counter := by
    rw [List.length_nil, Nat.cast_zero, add_zero]
    exact R.counted
  queue := R.queue
  count := R.count
  lockedOut := R.unlocked
  ecuState := R.normal
  delivered := rfl
  rejected := by
    simp [build, zeroCounts, Dict.ofItems]
  authFails := rfl

theorem sendSignal_true {e e₁ : EcuPair} {a : Bytes}
    (h : e.sendSignal D p a = (.ok true, e₁)) :
    e.state = .normalOperation ∧ ∃ T : Transmission e.stack p a .canFd, ∃ sender : SenderECU,
      sender.managedPduIds = e.sender.managedPduIds ∧
      e₁ = { e with stack := { T.after with bus := T.after.bus.publish p (T.frame D) }
                    sender := sender } := by
  unfold sendSignal at h
  by_cases hmanaged : p ∉ e.sender.managedPduIds
  · rw [if_pos hmanaged] at h
    cases h
  · by_cases hstate : e.state ≠ .normalOperation
    · rw [if_neg hmanaged, if_pos hstate] at h
      cases h
    · rw [if_neg hmanaged, if_neg hstate] at h
      refine ⟨not_not.mp hstate, ?_⟩
      split at h
      · cases h
      · next frame s₁ htx =>
        obtain ⟨T, rfl, rfl⟩ := Transmission.of_transmitSecured htx
        split at h
        · cases h
        · next u bus hroute =>
          cases h
          refine ⟨T, { e.sender with
            txCount := e.sender.txCount.set p (e.sender.txCount.getD p 0 + 1) }, rfl, ?_⟩
          rw [PduRouter.routeToBus_ok hroute]

def take (e : EcuPair) (fs : List (String × Bytes)) : EcuPair :=
  { e with stack := { e.stack with bus := { e.stack.bus with queue := fs } } }

theorem drain_step {e e' : EcuPair} {frame : Bytes} {fs : List (String × Bytes)} {ok : Bool}
    (n : Nat) (hq : e.stack.bus.queue = (p, frame) :: fs)
    (hr : e.rxRouter = (build e.stack p).rxRouter)
    (h : (e.take fs).onFrameReceived D p frame = (.ok ok, e')) :
    drain D (n + 1) e = drain D n e' := by
  have hin : ¬e.rxRouter.ecuId ∉ e.rxRouter.registeredEcus := by
    rw [hr]
    exact not_not.mpr (List.mem_singleton.mpr rfl)
  unfold take at h
  simp only [drain, CanInterface.receiveFrame, CanBus.consume, hq, routeFromBus, hin, if_false, h]

theorem drain_empty {e : EcuPair} (n : Nat) (hq : e.stack.bus.queue = []) :
    drain D (n + 1) e = some (.ok (), e) := by
  simp only [drain, CanInterface.receiveFrame, CanBus.consume, hq]

theorem onFrameReceived_accepted {e : EcuPair} {frame b : Bytes} {s' : Stack}
    (hm : p ∈ e.receiver.managedPduIds) (hn : e.state = .normalOperation)
    (hh : p ∈ e.receiver.signalHandlers)
    (hr : e.stack.receiveSecured D p frame .canFd = (.ok (some b), s')) :
    e.onFrameReceived D p frame =
      (.ok true, { e with stack := s', receiver := e.receiver.deliver p b }) := by
  rw [onFrameReceived, if_neg (not_not.mpr hm), if_neg (not_not.mpr hn), hr]
  simp only [if_pos hh, ReceiverECU.deliver]

theorem onFrameReceived_rejected {e : EcuPair} {frame : Bytes} {s' : Stack}
    (hm : p ∈ e.receiver.managedPduIds) (hn : e.state = .normalOperation)
    (hr : e.stack.receiveSecured D p frame .canFd = (.ok none, s')) :
    e.onFrameReceived D p frame =
      (.ok false, { e with stack := s', receiver := countRejected e.receiver p }) := by
  rw [onFrameReceived, if_neg (not_not.mpr hm), if_neg (not_not.mpr hn), hr]

theorem drain_copy {e : EcuPair} {frame b : Bytes} {sB sC : Stack}
    (hq : e.stack.bus.queue = (p, frame) :: []) (hr : e.rxRouter = (build e.stack p).rxRouter)
    (hm : p ∈ e.receiver.managedPduIds) (hh : p ∈ e.receiver.signalHandlers)
    (hn : e.state = .normalOperation)
    (hacc : (e.take []).stack.receiveSecured D p frame .canFd = (.ok (some b), sB))
    (hqB : sB.bus.queue = (p, frame) :: []) (hnB : sB.escalation.ecuState = .normalOperation)
    (hrej : ({ sB with bus := { sB.bus with queue := [] } } : Stack).receiveSecured D p frame
      .canFd = (.ok none, sC)) (hqC : sC.bus.queue = []) :
    drain D 3 e = some (.ok (), { e with
      stack := sC
      receiver := countRejected (e.receiver.deliver p b) p }) := by
  let eB : EcuPair := { e with stack := sB, receiver := e.receiver.deliver p b }
  have hrB : (eB.take []).onFrameReceived D p frame = _ :=
    onFrameReceived_rejected (e := eB.take []) hm hnB hrej
  calc drain D 3 e = drain D 2 eB := drain_step 2 hq hr (onFrameReceived_accepted hm hn hh hacc)
    _ = drain D 1 { eB with stack := sC, receiver := countRejected eB.receiver p } :=
      drain_step 1 hqB hr hrB
    _ = _ := drain_empty 0 hqC

theorem AfterRounds.length_lt {s : Stack} {counter : Int} {payloads : List Bytes} {e : EcuPair}
    (h : AfterRounds s p counter payloads e) (hnormal : e.state = .normalOperation) :
    payloads.length < Config.maxAuthFailures := by
  by_contra hge
  have hlocked := h.ecuState
  rw [if_pos (not_lt.mp hge), hnormal] at hlocked
  cases hlocked

theorem AfterRounds.round {s : Stack} (R : Ready s p) {payloads : List Bytes} {e e₁ : EcuPair}
    (h : AfterRounds s p R.counter payloads e) {a : Bytes}
    (hsend : e.sendSignal D p a = (.ok true, e₁)) :
    payloads.length < Config.maxAuthFailures ∧ ∃ e₂, drain D 3 e₁ = some (.ok (), e₂) ∧
      AfterRounds s p R.counter (payloads ++ [a]) e₂ := by
  -- a round of a ready pair: the frame is accepted and put on the bus again, its copy is taken for
  -- a replay, and the bus is empty after three steps
  obtain ⟨hnormal, T, sender, hsender, rfl⟩ := sendSignal_true hsend
  have hopen := h.length_lt hnormal
  refine ⟨hopen, ?_⟩
  obtain ⟨hlen, hm0, hm32⟩ := R.lengths h.extends_stack T
  have hf := h.extends_stack.freshnessManager
  have hL : T.lastValid = R.counter + payloads.length := lastValid_inj T.counted h.counter
  obtain ⟨-, -, -, -, -, hbus⟩ := T.after_fields
  obtain ⟨hcounts, hlocked, hstate⟩ := T.after_escalation
  have hdisk : e.stack.nvm.diskFault = false := h.extends_stack.diskFault.trans R.disk
  have hwindow : 1 ≤ e.stack.freshnessManager.windowSize := by
    rw [hf]
    exact R.window_pos
  have hmodulus : e.stack.freshnessManager.windowSize < e.stack.freshnessManager.modulus := by
    rw [hf]
    exact R.window_lt
  -- The frame of this round is alone on the bus, and so is its copy after it.
  let e₁ : EcuPair := { e with
    stack := { T.after with bus := T.after.bus.publish p (T.frame D) }, sender := sender }
  obtain ⟨s₂, hacc, hbus₂, hesc₂, hx₂, hL₂, hrej⟩ := T.accepted_then_rejected (D := D) hm0 hm32
    hlen hwindow hmodulus hdisk (e₁.take []).stack.bus
  have hq₁ : e₁.stack.bus.queue = (p, T.frame D) :: [] := by
    have hpublished : e₁.stack.bus.queue = T.after.bus.queue ++ [(p, T.frame D)] := rfl
    rw [hpublished, hbus, h.queue]
    rfl
  have hq₂ : s₂.bus.queue = (p, T.frame D) :: [] := by
    rw [hbus₂]
    rfl
  have hreceiver : e₁.receiver = e.receiver := rfl
  have hm₁ : p ∈ e₁.receiver.managedPduIds := by
    rw [hreceiver, h.managedRx]
    exact List.mem_singleton.mpr rfl
  have hh₁ : p ∈ e₁.receiver.signalHandlers := by
    rw [hreceiver, h.handlers]
    exact List.mem_singleton.mpr rfl
  have hn₁ : e₁.state = .normalOperation := hstate.trans hnormal
  have hn₂ : s₂.escalation.ecuState = .normalOperation := by
    rw [hesc₂]
    exact hn₁
  refine ⟨_, drain_copy hq₁ h.rxRouter hm₁ hh₁ hn₁ hacc hq₂ hn₂ (hrej _) rfl, ?_⟩
  -- The copy is the failure number `payloads.length + 1`.
  have hlength : (payloads ++ [a]).length = payloads.length + 1 := List.length_append
  have hlocked₂ : s₂.escalation.lockedOut = false := by
    rw [hesc₂, hlocked, h.lockedOut]
    exact decide_eq_false (not_le.mpr hopen)
  have hcount₂ : s₂.escalation.counts.getD p 0 = payloads.length := by
    rw [hesc₂, hcounts, h.count]
  obtain ⟨hcount₃, hlocked₃, hstate₃⟩ :=
    Escalation.reject_open hlocked₂ hn₂ hcount₂ .freshnessOutOfWindow
  rw [← hlength] at hcount₃ hlocked₃ hstate₃
  have hcounter₃ : lastValid s₂.nvm p = .ok (R.counter + (payloads ++ [a]).length) := by
    rw [hlength, Nat.cast_succ, ← add_assoc, ← hL]
    exact hL₂
  have hfails₃ : (s₂.escalation.reject p .freshnessOutOfWindow).dem.authFails =
      s.escalation.dem.authFails + (payloads ++ [a]).length := by
    rw [Escalation.authFails_reject, hesc₂, T.authFails_after, h.authFails, hlength, add_assoc]
  exact {
    txRouter := h.txRouter
    rxRouter := h.rxRouter
    managedTx := hsender.trans h.managedTx
    managedRx := h.managedRx
    handlers := h.handlers
    extends_stack := by
      apply (h.extends_stack.trans T.extends_after).trans (hx₂.trans _)
      exact extends_of_nvm_eq p (.refl _ p) rfl rfl rfl rfl
    counter := hcounter₃
    queue := rfl
    count := hcount₃
    lockedOut := hlocked₃
    ecuState := hstate₃
    delivered := by
      rw [List.map_append, ← h.delivered]
      rfl
    rejected := by
      rw [hlength, ← h.rejected]
      exact Dict.getD_set_self _ _ _ _
    authFails := hfails₃ }

theorem drain_add {n : Nat} {e : EcuPair} {r : Except PyError Unit × EcuPair}
    (h : drain D n e = some r) (k : Nat) : drain D (n + k) e = some r := by
  induction n generalizing e with
  | zero => cases h
  | succ n ih =>
    rw [Nat.succ_add]
    unfold drain at h ⊢
    split
    · next hq =>
      rw [hq] at h
      exact h
    · next hq =>
      rw [hq] at h
      simp only at h
      split
      · next he =>
        rw [he] at h
        exact h
      · next he =>
        rw [he] at h
        exact ih h

/-- Rounds: a `sendSignal` that succeeds, then a drain that ends. -/
inductive Rounds (D : Digests) (p : String) (e : EcuPair) : List Bytes → EcuPair → Prop
  | nil : Rounds D p e [] e
  | snoc {payloads : List Bytes} {a : Bytes} {e' e₁ e₂ : EcuPair} {n : Nat} :
      Rounds D p e payloads e' → e'.sendSignal D p a = (.ok true, e₁) →
      drain D n e₁ = some (.ok (), e₂) → Rounds D p e (payloads ++ [a]) e₂

theorem Rounds.afterRounds {s : Stack} (R : Ready s p) {payloads : List Bytes} {e : EcuPair}
    (h : Rounds D p (build s p) payloads e) : AfterRounds s p R.counter payloads e := by
  induction h with
  | nil => exact afterRounds_build R
  | @snoc payloads a e' e₁ e₂ n _ hsend hdrain ih =>
    obtain ⟨-, e₃, hdrain', hafter⟩ := AfterRounds.round R ih hsend
    have heq : e₂ = e₃ := by
      have h := drain_add hdrain 3
      rw [Nat.add_comm, drain_add hdrain' n] at h
      exact (congrArg Prod.snd (Option.some.inj h)).symm
    rw [heq]
    exact hafter

theorem routeToBus_build {s : Stack} {bus : CanBus} {frame : Bytes}
    (h : frame.length ≤ Config.canFdMaxPayloadBytes) :
    (build s p).txRouter.routeToBus bus p frame = (.ok (), bus.publish p frame) := by
  unfold PduRouter.routeToBus
  by_cases hsmall : frame.length ≤ Config.canMaxPayloadBytes
  · rw [if_pos hsmall]
    exact if_neg (not_lt.mpr hsmall)
  · rw [if_neg hsmall]
    exact (if_pos h).trans (if_neg (not_lt.mpr h))

theorem exists_rounds {s : Stack} (R : Ready s p) (M : MacReady s p .canFd)
    (payloads : List Bytes) (hmax : payloads.length ≤ Config.maxAuthFailures)
    (hfit : ∀ a ∈ payloads, a.length + (M.freshLen + M.macLen) ≤ Config.canFdMaxPayloadBytes) :
    ∃ e, Rounds D p (build s p) payloads e := by
  induction payloads using List.reverseRecOn with
  | nil => exact ⟨_, .nil⟩
  | append_singleton payloads a ih =>
    rw [List.length_append, List.length_singleton] at hmax
    obtain ⟨e, he⟩ := ih (by omega) fun b hb => hfit b (List.mem_append_left _ hb)
    have h := he.afterRounds R
    obtain ⟨M', -, -, hn, hm, -⟩ := M.exists_transfer h.extends_stack
    let T : Transmission e.stack p a .canFd := ⟨M', by simp, _, h.counter⟩
    have hlen : (T.frame D).length ≤ Config.canFdMaxPayloadBytes := by
      have hm' := (R.lengths h.extends_stack T).2
      have htag := T.tag_length (D := D) hm'.1.le hm'.2 (padded .canFd a) (T.lastValid + 1)
      have ha := hfit a (List.mem_append_right _ (List.mem_singleton.mpr rfl))
      have hregion : T.region.length = a.length + T.freshLen := region_length _ _ _
      have hn' : T.freshLen = M.freshLen := hn
      have hm'' : T.macLen = M.macLen := hm
      rw [Transmission.frame, List.length_append, hregion]
      omega
    have hnormal : ¬e.state ≠ .normalOperation := by
      rw [h.ecuState, if_neg (by omega)]
      exact not_not.mpr rfl
    have hsend : ∃ e₁, e.sendSignal D p a = (.ok true, e₁) := by
      rw [sendSignal, if_neg h.managed, if_neg hnormal, T.transmitSecured_eq, h.txRouter]
      simp only [routeToBus_build hlen]
      exact ⟨_, rfl⟩
    obtain ⟨e₁, hsend⟩ := hsend
    obtain ⟨-, e₂, hdrain, -⟩ := AfterRounds.round R h hsend
    exact ⟨e₂, he.snoc hsend hdrain⟩

def shippedPairReady (urandom : Nat → Bytes) : Ready (shipped urandom) "PDU_0x100" where
  profile := shippedProfile "PDU_0x100"
  found := shipped_profile urandom
  authenticator_pos := show (0 : Int) < 8 by decide
  authenticator_le := show (8 : Int) ≤ 32 by decide
  freshness_eq := rfl
  window_pos := show (1 : Int) ≤ 16 by decide
  window_lt := by
    have hM : (shipped urandom).freshnessManager.modulus = 65536 := modulus_two 16
    rw [hM]
    exact show (16 : Int) < 65536 by decide
  disk := rfl
  counter := 0
  counted := shipped_counted urandom
  queue := rfl
  count := rfl
  unlocked := rfl
  normal := rfl

/-- Traffic that counts as no attack: all of it is delivered, nothing is rejected or logged, and
the ECU is not locked out. -/
structure Unsuspected (s : Stack) (p : String) (payloads : List Bytes) (e : EcuPair) : Prop where
  delivered : e.receiver.delivered = payloads.map fun a => (p, a)
  rejected : e.receiver.rxRejectedCount.getD p 0 = 0
  authFails : e.stack.escalation.dem.authFails = s.escalation.dem.authFails
  ecuState : e.state ≠ .securityViolationLockout

theorem AfterRounds.unsuspected_iff {s : Stack} {counter : Int} {payloads : List Bytes}
    {e : EcuPair} (h : AfterRounds s p counter payloads e) :
    Unsuspected s p payloads e ↔ payloads = [] := by
  constructor
  · intro hu
    exact List.length_eq_zero_iff.mp (h.rejected.symm.trans hu.rejected)
  · rintro rfl
    refine ⟨h.delivered, h.rejected, h.authFails, ?_⟩
    rw [h.ecuState]
    decide

/-- Legitimate traffic counts as an attack as soon as there is any: each payload is delivered
exactly once, each round also counts one rejection, and with the fifth the ECU is locked out and
sends no more. -/
theorem rounds_count_as_replays {s : Stack} (R : Ready s p) {payloads : List Bytes} {e : EcuPair}
    (h : Rounds D p (build s p) payloads e) :
    (Unsuspected s p payloads e ↔ payloads = []) ∧
    e.receiver.delivered = payloads.map (fun a => (p, a)) ∧
    e.receiver.rxRejectedCount.getD p 0 = payloads.length ∧
    e.stack.escalation.dem.authFails = s.escalation.dem.authFails + payloads.length ∧
    (e.state = .securityViolationLockout ↔ Config.maxAuthFailures ≤ payloads.length) ∧
    ∀ a, (Config.maxAuthFailures ≤ payloads.length → e.sendSignal D p a = (.ok false, e)) ∧
      ∀ e₁, e.sendSignal D p a = (.ok true, e₁) → ∃ n e₂, drain D n e₁ = some (.ok (), e₂) := by
  have hafter := h.afterRounds R
  have hstate : e.state = .securityViolationLockout ↔ Config.maxAuthFailures ≤ payloads.length := by
    rw [hafter.ecuState]
    split_ifs with hfull
    · exact iff_of_true rfl hfull
    · exact iff_of_false (by decide) hfull
  refine ⟨hafter.unsuspected_iff, hafter.delivered, hafter.rejected, hafter.authFails, hstate,
    fun a => ⟨?_, ?_⟩⟩
  · intro hfull
    have hlocked : e.state ≠ .normalOperation := by
      rw [hstate.mpr hfull]
      decide
    rw [sendSignal, if_neg hafter.managed, if_pos hlocked]
  · intro e₁ hsend
    obtain ⟨-, e₂, hdrain, -⟩ := AfterRounds.round R hafter hsend
    exact ⟨3, e₂, hdrain⟩

theorem shipped_exists_rounds (n : Nat) (hn : n ≤ Config.maxAuthFailures) :
    ∃ e, Rounds .standard "PDU_0x100" (build (shipped (toBytesBE 32)) "PDU_0x100")
      (List.replicate n [1, 2, 3, 4]) e := by
  apply exists_rounds (shippedPairReady _) (shippedReady _ .canFd)
  · rw [List.length_replicate]
    exact hn
  · intro a ha
    rw [List.eq_of_mem_replicate ha]
    decide

theorem rounds_count_as_replays_shipped : ∃ e : EcuPair,
    e.receiver.delivered = [("PDU_0x100", [1, 2, 3, 4])] ∧
    e.receiver.rxRejectedCount.getD "PDU_0x100" 0 = 1 ∧
    ¬Unsuspected (shipped (toBytesBE 32)) "PDU_0x100" [[1, 2, 3, 4]] e := by
  obtain ⟨e, he⟩ := shipped_exists_rounds 1 (by decide)
  obtain ⟨hunsuspected, hdelivered, hrejected, -⟩ := rounds_count_as_replays (shippedPairReady _) he
  exact ⟨e, hdelivered, hrejected, hunsuspected.not.mpr (List.cons_ne_nil _ _)⟩

theorem five_rounds_locked_out : ∃ e : EcuPair,
    Rounds .standard "PDU_0x100" (build (shipped (toBytesBE 32)) "PDU_0x100")
      (List.replicate 5 [1, 2, 3, 4]) e ∧
    e.receiver.delivered = List.replicate 5 ("PDU_0x100", [1, 2, 3, 4]) ∧
    e.receiver.rxRejectedCount.getD "PDU_0x100" 0 = 5 ∧ e.stack.escalation.dem.authFails = 5 ∧
    e.state = .securityViolationLockout := by
  -- five rounds, an accepted frame in each, and the ECU is locked out
  obtain ⟨e, he⟩ := shipped_exists_rounds 5 (by decide)
  have h := he.afterRounds (shippedPairReady _)
  refine ⟨e, he, h.delivered, h.rejected, h.authFails, ?_⟩
  rw [h.ecuState]
  rfl

end EcuPair
end SecOC
