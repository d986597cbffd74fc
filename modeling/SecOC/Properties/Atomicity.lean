import SecOC.Properties.Delivery

/-! What a received frame leaves behind, for each of its outcomes: accepted, rejected, raised. -/

namespace SecOC
open Py FreshnessManager

namespace Stack

structure AcceptedFrame (s s' : Stack) (pduId : String) (frame : Bytes) : Prop where
  counter : ∃ L L', lastValid s.nvm pduId = .ok L ∧ lastValid s'.nvm pduId = .ok L' ∧
    L < L' ∧ L' ≤ L + s.freshnessManager.windowSize
  records : ∀ key d, key ≠ lastValidKey pduId → key ≠ windowKey pduId →
    s'.nvm.read key d = s.nvm.read key d
  queue : s'.bus.queue = s.bus.queue ++ [(pduId, frame)]
  last : ∀ q, s'.bus.getLast q = if q = pduId then some frame else s.bus.getLast q
  escalation : s'.escalation = s.escalation

structure RejectedFrame (s s' : Stack) (pduId : String) : Prop where
  nvm : s'.nvm = s.nvm
  bus : s'.bus = s.bus
  count : s'.escalation.counts.getD pduId 0 = s.escalation.counts.getD pduId 0 + 1
  others : ∀ q, q ≠ pduId → s'.escalation.counts.get? q = s.escalation.counts.get? q
  events : ∃ e : DemEvent, e.severity = .critical ∧ e.eventId = "SECOC_AUTH_FAIL" ∧
    ("pdu_id", pduId) ∈ e.data ∧
    s'.escalation.dem.events = s.escalation.dem.events ++ e ::
      if s.escalation.lockedOut = false ∧ s'.escalation.lockedOut = true
      then [Escalation.safeStateEntered] else []
  ecuState : s'.escalation.ecuState =
    if s.escalation.lockedOut = false ∧ s'.escalation.lockedOut = true
    then .securityViolationLockout else s.escalation.ecuState

structure RaisedFrame (s s' : Stack) : Prop where
  nvm : s'.nvm = s.nvm
  bus : s'.bus = s.bus
  escalation : s'.escalation = s.escalation

theorem acceptedFrame_of_acceptance {D : Digests} {s : Stack} {pduId : String} {frame : Bytes}
    {transport : Transport} (A : Acceptance D s pduId frame transport)
    (hd : s.nvm.diskFault = false) :
    AcceptedFrame s (s.receiveSecured D pduId frame transport).2 pduId frame := by
  obtain ⟨L, hL, -, hlt, hle⟩ := A.counter_gt
  have hcounter := A.lastValid_after
  rw [A.accepted hd] at hcounter ⊢
  exact {
    counter := ⟨L, A.counter, hL, hcounter, hlt, hle⟩
    records := fun key d => read_commitFreshness s.nvm pduId A.counter d
    queue := rfl
    last := CanBus.getLast_publish s.bus pduId frame
    escalation := rfl }

theorem classify_rejection (reason : RejectionReason) :
    classify reason = (.critical, "SECOC_AUTH_FAIL") := by
  cases reason <;> rfl

theorem rejectedFrame_of_reject (s : Stack) (c : CSM) (pduId : String)
    (reason : RejectionReason) :
    RejectedFrame s ({ s with csm := c }.reject pduId reason).2 pduId := by
  have hcounts := s.escalation.reject_counts pduId reason
  have hevent : (EventLogger.rejection pduId reason).severity = .critical ∧
      (EventLogger.rejection pduId reason).eventId = "SECOC_AUTH_FAIL" := by
    simp only [EventLogger.rejection, classify_rejection, and_self]
  obtain ⟨hlog, hstate⟩ := s.escalation.reject_log pduId reason
  exact {
    nvm := rfl
    bus := rfl
    count := by
      change (s.escalation.reject pduId reason).counts.getD pduId 0 = _
      rw [hcounts, Dict.getD_set_self]
    others := fun q hq => by
      change (s.escalation.reject pduId reason).counts.get? q = _
      rw [hcounts, Dict.get?_set_ne _ _ hq]
    events := ⟨_, hevent.1, hevent.2, List.mem_singleton.mpr rfl, hlog⟩
    ecuState := hstate }

/-- **All or nothing.** With working flushes, each outcome of a received frame comes with
exactly the changes that belong to it. -/
theorem receiveSecured_atomic (D : Digests) (s : Stack) (hd : s.nvm.diskFault = false)
    (pduId : String) (frame : Bytes) (transport : Transport) :
    match s.receiveSecured D pduId frame transport with
    | (.ok (some _), s') => AcceptedFrame s s' pduId frame
    | (.ok none, s') => RejectedFrame s s' pduId
    | (.error _, s') => RaisedFrame s s' := by
  rcases isEmpty_or_nonempty (Acceptance D s pduId frame transport) with h | ⟨⟨A⟩⟩
  · rcases receiveSecured_refused h with ⟨e, c, -, he⟩ | ⟨reason, c, -, -, he⟩
    · rw [he]
      exact ⟨rfl, rfl, rfl⟩
    · rw [he]
      exact rejectedFrame_of_reject s c pduId reason
  · have hA := acceptedFrame_of_acceptance A hd
    rw [A.accepted hd] at hA ⊢
    exact hA

theorem receiveSecured_atomic_shipped : ∃ (s s' : Stack) (frame : Bytes),
    s.receiveSecured .standard "PDU_0x100" frame .canFd = (.ok (some [1, 2, 3, 4]), s') ∧
      AcceptedFrame s s' "PDU_0x100" frame := by
  obtain ⟨T, hn, hm⟩ : ∃ T : Transmission (shipped (toBytesBE 32)) "PDU_0x100" [1, 2, 3, 4] .canFd,
      T.freshLen = 2 ∧ T.macLen = 8 :=
    ⟨shippedTransmission (toBytesBE 32) [1, 2, 3, 4] .canFd (by decide), rfl, rfl⟩
  have hdisk : T.after.nvm.diskFault = false := T.extends_after.diskFault
  obtain ⟨L, -, hok, -⟩ := (T.delivered_iff (D := .standard) (by rw [hm]; decide)
    (by rw [hm]; decide) (show (1 : Int) ≤ 16 by decide) rfl).mpr (hn ▸ counterFits_self _ _)
  have hatomic := receiveSecured_atomic .standard T.after hdisk "PDU_0x100" (T.frame .standard)
    .canFd
  rcases he : T.after.receiveSecured .standard "PDU_0x100" (T.frame .standard) .canFd with ⟨r, s'⟩
  rw [he] at hok hatomic
  obtain rfl : r = .ok (some [1, 2, 3, 4]) := hok
  exact ⟨T.after, s', T.frame .standard, he, hatomic⟩

end Stack
end SecOC
