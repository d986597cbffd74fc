import Mathlib.Data.List.Induction
import SecOC.Sim.Base

/-! Diagnostic events, the ECU state, and the escalation of failures to a lockout. -/

namespace SecOC
open Py

inductive Severity
  | info
  | warning
  | critical
  deriving DecidableEq, Repr

/-- Events are kept without their timestamps. -/
structure DemEvent where
  eventId : String
  severity : Severity
  description : String
  swrRef : String := ""
  data : List (String × String) := []
  deriving DecidableEq, Repr

structure DEM where
  events : List DemEvent
  counter : Nat
  deriving DecidableEq, Repr

def DEM.empty : DEM := { events := [], counter := 0 }

def DEM.log (d : DEM) (e : DemEvent) : DEM :=
  { events := d.events ++ [e], counter := d.counter + 1 }

inductive RejectionReason
  | macMismatch
  | freshnessOutOfWindow
  | malformedStructure
  deriving DecidableEq, Repr

def RejectionReason.value : RejectionReason → String
  | .macMismatch => "MAC_MISMATCH"
  | .freshnessOutOfWindow => "FRESHNESS_OUT_OF_WINDOW"
  | .malformedStructure => "MALFORMED_STRUCTURE"

def classify : RejectionReason → Severity × String
  | .macMismatch => (.critical, "SECOC_AUTH_FAIL")
  | .freshnessOutOfWindow => (.critical, "SECOC_AUTH_FAIL")
  | .malformedStructure => (.critical, "SECOC_AUTH_FAIL")

namespace EventLogger

def event (severity : Severity) (eventId swrRef : String) : DemEvent :=
  { eventId, severity, description := eventId, swrRef }

def rejection (pduId : String) (reason : RejectionReason) : DemEvent :=
  { eventId := (classify reason).2, severity := (classify reason).1,
    description := s!"Rejected pdu_id={pduId}: {reason.value}", data := [("pdu_id", pduId)] }

def log (d : DEM) (severity : Severity) (eventId swrRef : String) : DEM :=
  d.log (event severity eventId swrRef)

def logRejection (d : DEM) (pduId : String) (reason : RejectionReason) : DEM :=
  d.log (rejection pduId reason)

end EventLogger

inductive EcuStateValue
  | normalOperation
  | securityViolationLockout
  | bootBlocked
  deriving DecidableEq, Repr

def EcuStateValue.value : EcuStateValue → String
  | .normalOperation => "NORMAL_OPERATION"
  | .securityViolationLockout => "SECURITY_VIOLATION_LOCKOUT"
  | .bootBlocked => "BOOT_BLOCKED"

inductive FailureCategory
  | auth
  | freshness
  | crypto
  deriving DecidableEq, Repr

/-- The objects behind a lockout: the policy engine's flag, the fault manager's counters, and
the ECU state and event log both share with the rest of the stack. -/
structure Escalation where
  ecuState : EcuStateValue
  lockedOut : Bool
  counts : Dict String Nat
  dem : DEM

namespace Escalation

def initial (dem : DEM) : Escalation :=
  { ecuState := .normalOperation, lockedOut := false, counts := Dict.empty, dem := dem }

def safeStateEntered : DemEvent := EventLogger.event .critical "SAFE_STATE_ENTERED" "SR-14"

def evaluate (x : Escalation) (failureCount : Nat) : Escalation :=
  if x.lockedOut then x
  else if Config.maxAuthFailures ≤ failureCount then
    { x with lockedOut := true, ecuState := .securityViolationLockout
             dem := x.dem.log safeStateEntered }
  else x

def recordFailure (x : Escalation) (pduId : String) (category : FailureCategory) :
    Nat × Escalation :=
  -- one counter for all categories, and only one of them has it evaluated
  let count := x.counts.getD pduId 0 + 1
  let x := { x with counts := x.counts.set pduId count }
  (count, if category = .auth then x.evaluate count else x)

def reject (x : Escalation) (pduId : String) (reason : RejectionReason) : Escalation :=
  let x := { x with dem := EventLogger.logRejection x.dem pduId reason }
  (x.recordFailure pduId .auth).2

/-- `SecurityPolicyEngine.reset`, which is all of `SecOC.reset`. -/
def reset (x : Escalation) : Escalation :=
  { x with lockedOut := false, ecuState := .normalOperation }

def resetEcu (x : Escalation) : Escalation :=
  { ecuState := .normalOperation, lockedOut := false, counts := Dict.empty
    dem := EventLogger.log x.dem .info "ECU_RESET" "SecOC-RESET" }

variable (x : Escalation) (pduId : String) (n : Nat)

@[simp] theorem evaluate_counts : (x.evaluate n).counts = x.counts := by
  unfold evaluate
  split_ifs <;> rfl

theorem evaluate_lockedOut :
    (x.evaluate n).lockedOut = (x.lockedOut || decide (Config.maxAuthFailures ≤ n)) := by
  unfold evaluate
  split_ifs with h1 h2 <;> simp [*]

theorem evaluate_cases :
    (x.evaluate n = x ∧ (x.lockedOut = true ∨ n < Config.maxAuthFailures)) ∨
    (x.lockedOut = false ∧ Config.maxAuthFailures ≤ n ∧
      x.evaluate n = { x with lockedOut := true, ecuState := .securityViolationLockout
                              dem := x.dem.log safeStateEntered }) := by
  unfold evaluate
  split_ifs with h1 h2
  · exact Or.inl ⟨rfl, Or.inl h1⟩
  · exact Or.inr ⟨by simpa using h1, h2, rfl⟩
  · exact Or.inl ⟨rfl, Or.inr (not_le.mp h2)⟩

theorem recordFailure_counts (category : FailureCategory) :
    (x.recordFailure pduId category).2.counts =
      x.counts.set pduId (x.counts.getD pduId 0 + 1) := by
  unfold recordFailure
  split_ifs
  · exact evaluate_counts _ _
  · rfl

theorem recordFailure_lockedOut (category : FailureCategory) :
    (x.recordFailure pduId category).2.lockedOut = (x.lockedOut ||
      decide (category = .auth ∧ Config.maxAuthFailures ≤ x.counts.getD pduId 0 + 1)) := by
  unfold recordFailure
  split_ifs with h
  · simp [evaluate_lockedOut, h]
  · simp [h]

theorem reject_eq (reason : RejectionReason) : x.reject pduId reason =
    { x with dem := EventLogger.logRejection x.dem pduId reason
             counts := x.counts.set pduId (x.counts.getD pduId 0 + 1) }.evaluate
      (x.counts.getD pduId 0 + 1) := rfl

theorem reject_log (reason : RejectionReason) :
    (x.reject pduId reason).dem.events = x.dem.events ++ EventLogger.rejection pduId reason ::
        (if x.lockedOut = false ∧ (x.reject pduId reason).lockedOut = true
          then [safeStateEntered] else []) ∧
      (x.reject pduId reason).ecuState =
        if x.lockedOut = false ∧ (x.reject pduId reason).lockedOut = true
        then .securityViolationLockout else x.ecuState := by
  rw [reject_eq]
  rcases evaluate_cases { x with
      dem := EventLogger.logRejection x.dem pduId reason
      counts := x.counts.set pduId (x.counts.getD pduId 0 + 1) } (x.counts.getD pduId 0 + 1)
    with ⟨he, -⟩ | ⟨hopen, -, he⟩
  · rw [he]
    have hno : ¬(x.lockedOut = false ∧ x.lockedOut = true) := by
      rintro ⟨h, h'⟩
      rw [h] at h'
      cases h'
    rw [if_neg hno, if_neg hno]
    exact ⟨rfl, rfl⟩
  · rw [he]
    rw [if_pos ⟨hopen, rfl⟩, if_pos ⟨hopen, rfl⟩]
    exact ⟨List.append_assoc _ _ _, rfl⟩

theorem reject_counts (reason : RejectionReason) :
    (x.reject pduId reason).counts = x.counts.set pduId (x.counts.getD pduId 0 + 1) :=
  recordFailure_counts _ pduId .auth

theorem reject_lockedOut (reason : RejectionReason) :
    (x.reject pduId reason).lockedOut =
      (x.lockedOut || decide (Config.maxAuthFailures ≤ x.counts.getD pduId 0 + 1)) := by
  rw [reject, recordFailure_lockedOut]
  simp only [true_and]

theorem evaluate_ecuState (h : x.ecuState = .securityViolationLockout ↔ x.lockedOut = true) :
    (x.evaluate n).ecuState = .securityViolationLockout ↔ (x.evaluate n).lockedOut = true := by
  rcases x.evaluate_cases n with ⟨he, -⟩ | ⟨-, -, he⟩
  · rw [he]
    exact h
  · rw [he]
    exact iff_of_true rfl rfl

theorem recordFailure_ecuState (category : FailureCategory)
    (h : x.ecuState = .securityViolationLockout ↔ x.lockedOut = true) :
    (x.recordFailure pduId category).2.ecuState = .securityViolationLockout ↔
      (x.recordFailure pduId category).2.lockedOut = true := by
  unfold recordFailure
  split_ifs
  · exact evaluate_ecuState _ _ h
  · exact h

/-! Rejections in a row, each of a PDU for a reason. -/

def rejects (x : Escalation) (events : List (String × RejectionReason)) : Escalation :=
  events.foldl (fun x e => x.reject e.1 e.2) x

def rejectionsOf (pduId : String) (events : List (String × RejectionReason)) : Nat :=
  events.countP fun e => e.1 = pduId

theorem rejectionsOf_append (events events' : List (String × RejectionReason)) :
    rejectionsOf pduId (events ++ events') =
      rejectionsOf pduId events + rejectionsOf pduId events' :=
  List.countP_append

theorem rejects_append (events events' : List (String × RejectionReason)) :
    x.rejects (events ++ events') = (x.rejects events).rejects events' :=
  List.foldl_append

theorem rejectionsOf_singleton (q : String) (reason : RejectionReason) :
    rejectionsOf pduId [(q, reason)] = if q = pduId then 1 else 0 := by
  rw [rejectionsOf, List.countP_singleton]
  simp only [decide_eq_true_eq]

theorem rejectionsOf_snoc (events : List (String × RejectionReason)) (q : String)
    (reason : RejectionReason) : rejectionsOf pduId (events ++ [(q, reason)]) =
      rejectionsOf pduId events + if q = pduId then 1 else 0 := by
  rw [rejectionsOf_append, rejectionsOf_singleton]

theorem rejects_snoc (events : List (String × RejectionReason)) (q : String)
    (reason : RejectionReason) :
    x.rejects (events ++ [(q, reason)]) = (x.rejects events).reject q reason :=
  rejects_append x events _

theorem rejects_counts (events : List (String × RejectionReason)) :
    (x.rejects events).counts.getD pduId 0 =
      x.counts.getD pduId 0 + rejectionsOf pduId events := by
  induction events using List.reverseRecOn with
  | nil => rfl
  | append_singleton events e ih =>
    obtain ⟨q, reason⟩ := e
    rw [rejects_snoc, reject_counts, rejectionsOf_snoc]
    by_cases hq : q = pduId
    · rw [hq, Dict.getD_set_self, ih, if_pos rfl, add_assoc]
    · rw [Dict.getD_set_ne _ _ _ (Ne.symm hq), ih, if_neg hq, add_zero]

/-- From normal operation, the ECU is locked out exactly when a PDU was rejected that has
reached the maximum, with what was counted for it before. -/
theorem rejects_lockedOut_iff {x : Escalation} (hopen : x.lockedOut = false)
    (events : List (String × RejectionReason)) :
    (x.rejects events).lockedOut = true ↔ ∃ p, 0 < rejectionsOf p events ∧
      Config.maxAuthFailures ≤ x.counts.getD p 0 + rejectionsOf p events := by
  induction events using List.reverseRecOn with
  | nil =>
    refine iff_of_false ?_ ?_
    · rw [rejects, List.foldl_nil, hopen]
      exact Bool.false_ne_true
    · rintro ⟨p, hp, -⟩
      exact absurd hp (lt_irrefl 0)
  | append_singleton events e ih =>
    obtain ⟨q, reason⟩ := e
    rw [rejects_snoc, reject_lockedOut, Bool.or_eq_true, ih, decide_eq_true_eq, rejects_counts]
    -- locked out before the last rejection, or by it
    constructor
    · rintro (⟨p, hpos, hmax⟩ | hmax)
      · refine ⟨p, ?_, ?_⟩ <;>
        · rw [rejectionsOf_snoc]
          omega
      · refine ⟨q, ?_, ?_⟩ <;>
        · rw [rejectionsOf_snoc, if_pos rfl]
          omega
    · rintro ⟨p, hpos, hmax⟩
      rw [rejectionsOf_snoc] at hpos hmax
      by_cases hq : q = p
      · subst hq
        rw [if_pos rfl] at hmax
        exact Or.inr (by omega)
      · rw [if_neg hq, add_zero] at hpos hmax
        exact Or.inl ⟨p, hpos, hmax⟩

theorem rejects_ecuState {x : Escalation} (h : x.ecuState = .securityViolationLockout ↔
      x.lockedOut = true) (events : List (String × RejectionReason)) :
    (x.rejects events).ecuState = .securityViolationLockout ↔
      (x.rejects events).lockedOut = true := by
  induction events using List.reverseRecOn with
  | nil => exact h
  | append_singleton events e ih =>
    rw [rejects_append]
    exact recordFailure_ecuState _ e.1 .auth ih

end Escalation
end SecOC
