import SecOC.Properties.BusTraffic

/-! Accounting. The failure counts, the event log, the policy engine's flag and the ECU state are
stored apart; over every run of the stack they tell the same story. -/

namespace SecOC
open Py FreshnessManager

inductive StackOp
  | call (c : Call)
  | reset
  deriving DecidableEq, Repr

inductive StackEvent
  | outcome (o : Outcome)
  | reset (lockedOut : Bool)

namespace StackEvent

def returnedNone : StackEvent → Bool
  | outcome (.received (.ok none)) => true
  | _ => false

def unlocked : StackEvent → Bool
  | reset lockedOut => lockedOut
  | _ => false

end StackEvent

def DEM.safeStates (d : DEM) : Nat := d.events.countP fun e => e.eventId = "SAFE_STATE_ENTERED"

theorem DEM.safeStates_log (d : DEM) (e : DemEvent) : (d.log e).safeStates =
    d.safeStates + if e.eventId = "SAFE_STATE_ENTERED" then 1 else 0 := by
  rw [safeStates, log, List.countP_append, List.countP_singleton]
  simp only [decide_eq_true_eq, safeStates]

structure Escalation.Accounts (h : List StackEvent) (x : Escalation) : Prop where
  locked : x.lockedOut = true ↔ x.ecuState = .securityViolationLockout
  failed : x.dem.authFails = h.countP StackEvent.returnedNone
  counted : h.countP StackEvent.returnedNone = x.counts.total
  entered : x.dem.safeStates =
    h.countP StackEvent.unlocked + if x.lockedOut then 1 else 0

namespace Escalation
variable {x : Escalation} {h : List StackEvent}

theorem accounts_initial : Accounts [] (initial .empty) := by
  refine ⟨iff_of_false Bool.false_ne_true ?_, rfl, rfl, rfl⟩
  intro h
  cases h

theorem Accounts.congr {x' : Escalation} (hx : Accounts h x) (hlock : x'.lockedOut = x.lockedOut)
    (hstate : x'.ecuState = x.ecuState) (hcounts : x'.counts = x.counts)
    (hfails : x'.dem.authFails = x.dem.authFails)
    (hsafe : x'.dem.safeStates = x.dem.safeStates) : Accounts h x' := by
  refine ⟨?_, ?_, ?_, ?_⟩
  · rw [hlock, hstate]
    exact hx.locked
  · rw [hfails]
    exact hx.failed
  · rw [hcounts]
    exact hx.counted
  · rw [hsafe, hlock]
    exact hx.entered

theorem Accounts.quiet (hx : Accounts h x) {e : StackEvent} (hnone : e.returnedNone = false)
    (hreset : e.unlocked = false) : Accounts (h ++ [e]) x := by
  have hn : (h ++ [e]).countP StackEvent.returnedNone = h.countP StackEvent.returnedNone := by
    rw [List.countP_append, List.countP_singleton, hnone]
    rfl
  have hu : (h ++ [e]).countP StackEvent.unlocked = h.countP StackEvent.unlocked := by
    rw [List.countP_append, List.countP_singleton, hreset]
    rfl
  exact ⟨hx.locked, hn ▸ hx.failed, hn ▸ hx.counted, hu ▸ hx.entered⟩

theorem safeStates_reject (x : Escalation) (p : String) (reason : RejectionReason) :
    (x.reject p reason).dem.safeStates = x.dem.safeStates +
      if x.lockedOut = false ∧ (x.reject p reason).lockedOut = true then 1 else 0 := by
  have hid : ¬decide ((EventLogger.rejection p reason).eventId = "SAFE_STATE_ENTERED") = true := by
    have hauth : (EventLogger.rejection p reason).eventId = "SECOC_AUTH_FAIL" := by
      cases reason <;> rfl
    rw [hauth]
    decide
  rw [DEM.safeStates, (x.reject_log p reason).1, List.countP_append, List.countP_cons,
    if_neg hid]
  split_ifs <;> rfl

theorem Accounts.reject (hx : Accounts h x) (p : String) (reason : RejectionReason) :
    Accounts (h ++ [.outcome (.received (.ok none))]) (x.reject p reason) := by
  have hn : (h ++ [StackEvent.outcome (.received (.ok none))]).countP StackEvent.returnedNone =
      h.countP StackEvent.returnedNone + 1 := List.countP_append
  have hu : (h ++ [StackEvent.outcome (.received (.ok none))]).countP StackEvent.unlocked =
      h.countP StackEvent.unlocked := List.countP_append
  refine ⟨?_, ?_, ?_, ?_⟩
  · exact (rejects_ecuState hx.locked.symm [(p, reason)]).symm
  · rw [authFails_reject, hn, hx.failed]
  · rw [hn, reject_counts, Dict.total_set_add, hx.counted]
  · -- a lockout is entered once, and no rejection ends it
    rw [safeStates_reject, hu, hx.entered, reject_lockedOut]
    cases x.lockedOut <;> simp

theorem Accounts.reset (hx : Accounts h x) : Accounts (h ++ [.reset x.lockedOut]) x.reset := by
  have hn : (h ++ [StackEvent.reset x.lockedOut]).countP StackEvent.returnedNone =
      h.countP StackEvent.returnedNone := List.countP_append
  have hu : (h ++ [StackEvent.reset x.lockedOut]).countP StackEvent.unlocked =
      h.countP StackEvent.unlocked + if x.lockedOut then 1 else 0 := by
    rw [List.countP_append, List.countP_singleton]
    rfl
  refine ⟨iff_of_false Bool.false_ne_true ?_, ?_, ?_, ?_⟩
  · intro hlock
    cases hlock
  · rw [hn]
    exact hx.failed
  · rw [hn]
    exact hx.counted
  · rw [hu]
    exact hx.entered

end Escalation

namespace Stack
open Escalation
variable {D : Digests} {s : Stack} {p : String} {t : Transport}

theorem Transmission.safeStates_after {a : Bytes} (T : Transmission s p a t) :
    T.after.escalation.dem.safeStates = s.escalation.dem.safeStates := by
  rcases T.after_dem with h | h
  · rw [h]
  · rw [h, EventLogger.log, DEM.safeStates_log]
    rfl

def operations (D : Digests) : Mealy Stack StackOp StackEvent where
  step s
    | .call c => (.outcome (s.call D c).1, (s.call D c).2)
    | .reset => (.reset s.escalation.lockedOut, s.reset)

theorem accounts_transmit {h : List StackEvent} (hs : Accounts h s.escalation)
    (p : String) (a : Bytes) (t : Transport) :
    Accounts h (s.transmitSecured D p a t).2.escalation := by
  rcases isEmpty_or_nonempty (Transmission s p a t) with hT | ⟨⟨T⟩⟩
  · obtain ⟨e, c, n, -, he⟩ := transmitSecured_refused (D := D) hT
    rw [he]
    exact hs
  · obtain ⟨hcounts, hlock, hstate⟩ := T.after_escalation
    rw [T.transmitSecured_eq]
    exact hs.congr hlock hstate hcounts T.authFails_after T.safeStates_after

theorem accounts_step {h : List StackEvent} (hs : Accounts h s.escalation) (op : StackOp) :
    Accounts (h ++ [((operations D).step s op).1]) ((operations D).step s op).2.escalation := by
  cases op with
  | reset => exact hs.reset
  | call c =>
    cases c with
    | transmit p a t => exact (accounts_transmit hs p a t).quiet rfl rfl
    | receive p frame t =>
      simp only [operations, call]
      rcases isEmpty_or_nonempty (Acceptance D s p frame t) with hA | ⟨⟨A⟩⟩
      · rcases receiveSecured_refused hA with ⟨e, c, -, he⟩ | ⟨reason, c, -, -, he⟩
        · rw [he]
          exact hs.quiet rfl rfl
        · rw [he]
          exact hs.reject p reason
      · rw [A.receiveSecured_eq]
        rcases commitFreshness s.nvm p A.counter with ⟨_ | _, nvm⟩
        · exact hs.quiet rfl rfl
        · exact hs.quiet rfl rfl

/-- Over every run from a fresh escalation, flag, ECU state, failure counts and event log agree:
each call that returned `None` is one event and one count, each lockout one event. -/
theorem security_accounting (D : Digests) {s₀ : Stack} (hfresh : s₀.escalation = .initial .empty)
    (ops : List StackOp) :
    Accounts ((operations D).outputs s₀ ops) ((operations D).exec s₀ ops).escalation := by
  induction ops using List.reverseRecOn with
  | nil =>
    rw [Mealy.exec_nil, hfresh]
    exact accounts_initial
  | append_singleton ops op ih =>
    rw [Mealy.exec_snoc, Mealy.outputs_append]
    exact accounts_step ih op

theorem security_accounting_shipped :
    Accounts ((operations .standard).outputs (shipped (toBytesBE 32))
        (List.replicate 6 (.call (.receive "PDU_0x100" [] .canFd)) ++ [.reset]))
      ((operations .standard).exec (shipped (toBytesBE 32))
        (List.replicate 6 (.call (.receive "PDU_0x100" [] .canFd)) ++ [.reset])).escalation :=
  security_accounting .standard rfl _

end Stack
end SecOC
