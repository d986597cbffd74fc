import SecOC.Sim.StackRun

/-! When the lockout is entered. The documented policy counts consecutive authentication failures
of a PDU; the code counts every recorded failure of it, and an accepted frame clears nothing. -/

namespace SecOC
open Py

inductive FaultOp
  | receive (pduId : String) (securedPdu : Bytes) (transport : Transport)
  | recordFailure (pduId : String) (category : FailureCategory)
  deriving DecidableEq, Repr

inductive FaultEvent
  | accepted (pduId : String)
  | failed (pduId : String) (category : FailureCategory)
  | raised
  deriving DecidableEq, Repr

namespace Stack

def receiveEvent (pduId : String) : Except PyError (Option Bytes) → FaultEvent
  | .ok (some _) => .accepted pduId
  | .ok none => .failed pduId .auth
  | .error _ => .raised

def faultMachine (D : Digests) : Mealy Stack FaultOp FaultEvent where
  step s
    | .receive p frame t =>
      (receiveEvent p (s.receiveSecured D p frame t).1, (s.receiveSecured D p frame t).2)
    | .recordFailure p category => (.failed p category,
      { s with escalation := (s.escalation.recordFailure p category).2 })

end Stack

/-! Histories of events. -/

namespace FaultEvent

/-- The failures of a PDU since its last accepted frame that are authentication failures. -/
def streakStep (p : String) (n : Nat) : FaultEvent → Nat
  | accepted q => if q = p then 0 else n
  | failed q category => if q = p ∧ category = .auth then n + 1 else n
  | raised => n

def totalStep (p : String) (n : Nat) : FaultEvent → Nat
  | failed q _ => if q = p then n + 1 else n
  | _ => n

def streak (p : String) (h : List FaultEvent) : Nat := h.foldl (streakStep p) 0

def total (p : String) (h : List FaultEvent) : Nat := h.foldl (totalStep p) 0

/-- At some point a PDU had the maximal number of authentication failures in a row. -/
def Consecutive (h : List FaultEvent) : Prop :=
  ∃ h' p, h' <+: h ∧ Config.maxAuthFailures ≤ streak p h'

def Overcounted (h : List FaultEvent) : Prop :=
  ∃ h' p, h' ++ [failed p .auth] <+: h ∧ Config.maxAuthFailures ≤ total p h' + 1

theorem streak_snoc (p : String) (h : List FaultEvent) (e : FaultEvent) :
    streak p (h ++ [e]) = streakStep p (streak p h) e := by
  rw [streak, List.foldl_append]
  rfl

theorem total_snoc (p : String) (h : List FaultEvent) (e : FaultEvent) :
    total p (h ++ [e]) = totalStep p (total p h) e := by
  rw [total, List.foldl_append]
  rfl

theorem streak_le_total (p : String) (h : List FaultEvent) : streak p h ≤ total p h := by
  induction h using List.reverseRecOn with
  | nil => exact le_rfl
  | append_singleton h e ih =>
    rw [streak_snoc, total_snoc]
    cases e with
    | accepted q =>
      simp only [streakStep, totalStep]
      split_ifs <;> omega
    | failed q category =>
      simp only [streakStep, totalStep]
      split_ifs with h1 h2
      · omega
      · exact absurd h1.1 h2
      · omega
      · exact ih
    | raised => exact ih

def isAuth : FaultEvent → Bool
  | failed _ .auth => true
  | _ => false

theorem streak_le_countP (p : String) (h : List FaultEvent) : streak p h ≤ h.countP isAuth := by
  induction h using List.reverseRecOn with
  | nil => exact le_rfl
  | append_singleton h e ih =>
    rw [streak_snoc, List.countP_append, List.countP_singleton]
    cases e with
    | accepted q =>
      simp only [streakStep]
      split_ifs <;> omega
    | failed q category =>
      simp only [streakStep]
      split_ifs with h1 h2 h3
      · omega
      · obtain ⟨-, rfl⟩ := h1
        exact absurd rfl h2
      · omega
      · omega
    | raised => exact ih

theorem prefix_snoc {h' h : List FaultEvent} {e : FaultEvent} (hp : h' <+: h ++ [e]) :
    h' = h ++ [e] ∨ h' <+: h := by
  rcases List.prefix_concat_iff.mp (by simpa using hp) with rfl | hp
  · exact Or.inl (by simp)
  · exact Or.inr hp

theorem not_maxAuthFailures_le_zero : ¬Config.maxAuthFailures ≤ 0 := by decide

theorem Consecutive.mono {h h' : List FaultEvent} (hc : Consecutive h) (hp : h <+: h') :
    Consecutive h' := by
  obtain ⟨k, p, hk, hs⟩ := hc
  exact ⟨k, p, hk.trans hp, hs⟩

theorem Consecutive.overcounted {h : List FaultEvent} (hc : Consecutive h) : Overcounted h := by
  obtain ⟨h', p, hp, hs⟩ := hc
  -- Back to the failure that made the streak: whatever followed it did not lengthen it.
  induction h' using List.reverseRecOn with
  | nil => exact absurd hs not_maxAuthFailures_le_zero
  | append_singleton h' e ih =>
    have hp' : h' <+: h := (List.prefix_append h' [e]).trans hp
    rw [streak_snoc] at hs
    cases e with
    | accepted q =>
      simp only [streakStep] at hs
      split_ifs at hs
      · exact absurd hs not_maxAuthFailures_le_zero
      · exact ih hp' hs
    | failed q category =>
      simp only [streakStep] at hs
      split_ifs at hs with hq
      · obtain ⟨rfl, rfl⟩ := hq
        have hle := streak_le_total q h'
        exact ⟨h', q, hp, by omega⟩
      · exact ih hp' hs
    | raised => exact ih hp' hs

/-- Every authentication failure that finds four failures of its PDU counted, before the lockout
is due, finds four authentication failures since the last accepted frame. -/
def Uninterrupted (h : List FaultEvent) : Prop :=
  ∀ h' p, h' ++ [failed p .auth] <+: h → ¬ Consecutive h' →
    Config.maxAuthFailures ≤ total p h' + 1 → Config.maxAuthFailures ≤ streak p h' + 1

theorem consecutive_of_overcounted {h : List FaultEvent} (hu : Uninterrupted h)
    (ho : Overcounted h) : Consecutive h := by
  obtain ⟨h', p, hp, ht⟩ := ho
  by_cases hc : Consecutive h'
  · exact hc.mono ((List.prefix_append h' _).trans hp)
  · refine ⟨h' ++ [failed p .auth], p, hp, ?_⟩
    rw [streak_snoc, streakStep, if_pos ⟨rfl, rfl⟩]
    exact hu h' p hp hc ht

theorem agree_iff_uninterrupted (h : List FaultEvent) :
    (∀ h', h' <+: h → (Overcounted h' ↔ Consecutive h')) ↔ Uninterrupted h := by
  constructor
  · intro hagree h' p hp hc ht
    have ho : Overcounted (h' ++ [failed p .auth]) := ⟨h', p, List.prefix_rfl, ht⟩
    obtain ⟨k, q, hk, hs⟩ := (hagree _ hp).mp ho
    rcases prefix_snoc hk with rfl | hk
    · rw [streak_snoc, streakStep] at hs
      split_ifs at hs with hq
      · rw [hq.1]
        exact hs
      · exact absurd ⟨h', q, List.prefix_rfl, hs⟩ hc
    · exact absurd ⟨k, q, hk, hs⟩ hc
  · intro hu h' hp
    exact ⟨consecutive_of_overcounted fun k p hk => hu k p (hk.trans hp), Consecutive.overcounted⟩

theorem overcounted_snoc (h : List FaultEvent) (e : FaultEvent) : Overcounted (h ++ [e]) ↔
    Overcounted h ∨ ∃ p, e = failed p .auth ∧ Config.maxAuthFailures ≤ total p h + 1 := by
  constructor
  · rintro ⟨h', p, hp, ht⟩
    rcases prefix_snoc hp with heq | hp
    · obtain ⟨rfl, rfl⟩ := List.append_inj' heq rfl |>.imp id List.singleton_inj.mp
      exact Or.inr ⟨p, rfl, ht⟩
    · exact Or.inl ⟨h', p, hp, ht⟩
  · rintro (⟨h', p, hp, ht⟩ | ⟨p, rfl, ht⟩)
    · exact ⟨h', p, hp.trans (List.prefix_append h [e]), ht⟩
    · exact ⟨h, p, List.prefix_rfl, ht⟩

end FaultEvent

open FaultEvent

namespace Escalation
variable {h : List FaultEvent} {x : Escalation}

structure Records (h : List FaultEvent) (x : Escalation) : Prop where
  counts : ∀ p, x.counts.getD p 0 = total p h
  lockedOut : x.lockedOut = true ↔ Overcounted h
  ecuState : x.ecuState = .securityViolationLockout ↔ x.lockedOut = true

theorem records_initial (dem : DEM) : Records [] (initial dem) where
  counts _ := rfl
  lockedOut := by
    refine iff_of_false Bool.false_ne_true ?_
    rintro ⟨h', p, hp, -⟩
    simp at hp
  ecuState := iff_of_false (fun h => by cases h) Bool.false_ne_true

theorem Records.unfailed (hx : Records h x) {e : FaultEvent} (he : ∀ p c, e ≠ failed p c) :
    Records (h ++ [e]) x where
  counts p := by
    rw [total_snoc, hx.counts]
    cases e with
    | accepted q => rfl
    | failed q c => exact absurd rfl (he q c)
    | raised => rfl
  lockedOut := by
    rw [overcounted_snoc, hx.lockedOut]
    refine (or_iff_left ?_).symm
    rintro ⟨p, rfl, -⟩
    exact he p .auth rfl
  ecuState := hx.ecuState

theorem Records.failed (hx : Records h x) (p : String) (category : FailureCategory) :
    Records (h ++ [.failed p category]) (x.recordFailure p category).2 where
  counts q := by
    rw [recordFailure_counts, total_snoc, totalStep, hx.counts]
    by_cases hq : p = q
    · subst hq
      rw [Dict.getD_set_self, if_pos rfl]
    · rw [Dict.getD_set_ne _ _ _ (Ne.symm hq), if_neg hq, hx.counts]
  lockedOut := by
    rw [recordFailure_lockedOut, overcounted_snoc, Bool.or_eq_true, hx.lockedOut,
      decide_eq_true_iff, hx.counts]
    refine or_congr Iff.rfl ⟨?_, ?_⟩
    · rintro ⟨rfl, ht⟩
      exact ⟨p, rfl, ht⟩
    · rintro ⟨q, heq, ht⟩
      cases heq
      exact ⟨rfl, ht⟩
  ecuState := recordFailure_ecuState x p category hx.ecuState

theorem Records.reject (hx : Records h x) (p : String) (reason : RejectionReason) :
    Records (h ++ [.failed p .auth]) (x.reject p reason) :=
  Records.failed (x := { x with dem := EventLogger.logRejection x.dem p reason })
    ⟨hx.counts, hx.lockedOut, hx.ecuState⟩ p .auth

end Escalation

namespace Stack
open Escalation

theorem records_step (D : Digests) {s : Stack} {h : List FaultEvent}
    (hs : Records h s.escalation) (op : FaultOp) :
    Records (h ++ [((faultMachine D).step s op).1]) ((faultMachine D).step s op).2.escalation := by
  cases op with
  | recordFailure p category => exact hs.failed p category
  | receive p frame t =>
    simp only [faultMachine]
    rcases isEmpty_or_nonempty (Acceptance D s p frame t) with hA | ⟨⟨A⟩⟩
    · rcases receiveSecured_refused hA with ⟨e, c, -, he⟩ | ⟨reason, c, -, -, he⟩
      · rw [he]
        exact hs.unfailed fun _ _ hne => by cases hne
      · rw [he]
        exact hs.reject p reason
    · rw [A.receiveSecured_eq]
      rcases FreshnessManager.commitFreshness s.nvm p A.counter with ⟨_ | _, nvm⟩
      · exact hs.unfailed fun _ _ hne => by cases hne
      · exact hs.unfailed fun _ _ hne => by cases hne

theorem records_run (D : Digests) {s₀ : Stack} (hfresh : s₀.escalation = .initial s₀.escalation.dem)
    (ops : List FaultOp) :
    Records ((faultMachine D).outputs s₀ ops) ((faultMachine D).exec s₀ ops).escalation := by
  induction ops using List.reverseRecOn with
  | nil =>
    rw [Mealy.exec_nil, hfresh]
    exact records_initial _
  | append_singleton ops op ih =>
    rw [Mealy.exec_snoc, Mealy.outputs_append]
    exact records_step D ih op

/-- Along a run from a fresh stack the ECU is in the lockout exactly when the policy says so, at
every point of the run, if and only if the run's failures are uninterrupted. -/
theorem lockout_iff_consecutive (D : Digests) {s₀ : Stack}
    (hfresh : s₀.escalation = .initial s₀.escalation.dem) (ops : List FaultOp) :
    (∀ n, ((faultMachine D).exec s₀ (ops.take n)).escalation.ecuState = .securityViolationLockout ↔
        Consecutive ((faultMachine D).outputs s₀ (ops.take n))) ↔
      Uninterrupted ((faultMachine D).outputs s₀ ops) := by
  have hcode : ∀ n, ((faultMachine D).exec s₀ (ops.take n)).escalation.ecuState =
      .securityViolationLockout ↔ Overcounted (((faultMachine D).outputs s₀ ops).take n) := by
    intro n
    have hr := records_run D hfresh (ops.take n)
    rw [hr.ecuState, hr.lockedOut, Mealy.outputs_take]
  rw [← agree_iff_uninterrupted]
  constructor
  · intro h h' hp
    rw [List.prefix_iff_eq_take.mp hp, ← hcode, h, Mealy.outputs_take]
  · intro h n
    rw [hcode, Mealy.outputs_take]
    exact h _ (List.take_prefix _ _)

theorem lockout_iff_consecutive_short :
    (∀ n, ((faultMachine .standard).exec (shipped (toBytesBE 32)) ((List.replicate 5
        (.receive "PDU_0x100" [] .canFd)).take n)).escalation.ecuState = .securityViolationLockout ↔
          Consecutive ((faultMachine .standard).outputs (shipped (toBytesBE 32)) ((List.replicate 5
            (.receive "PDU_0x100" [] .canFd)).take n))) ↔
      Uninterrupted ((faultMachine .standard).outputs (shipped (toBytesBE 32))
        (List.replicate 5 (.receive "PDU_0x100" [] .canFd))) :=
  lockout_iff_consecutive .standard rfl _

def mixedFailures : List FaultOp :=
  List.replicate 4 (.recordFailure "PDU_0x100" .freshness) ++ [.receive "PDU_0x100" [] .canFd]

theorem mixedFailures_locked :
    ((faultMachine .standard).exec (shipped (toBytesBE 32)) mixedFailures).escalation.ecuState =
        .securityViolationLockout ∧
      ¬ Consecutive ((faultMachine .standard).outputs (shipped (toBytesBE 32)) mixedFailures) := by
  refine ⟨rfl, ?_⟩
  rintro ⟨h', p, hp, hs⟩
  have hcount := hp.sublist.countP_le (p := isAuth)
  have hone : ((faultMachine .standard).outputs (shipped (toBytesBE 32)) mixedFailures).countP
      isAuth = 1 := rfl
  have hle := streak_le_countP p h'
  rw [hone] at hcount
  exact absurd (hs.trans (hle.trans hcount)) (by decide)

end Stack
end SecOC
