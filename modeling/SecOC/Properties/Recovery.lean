import SecOC.Api.Effects

/-! The two ways out of a lockout. Both set the state and the policy engine's flag back, one of
them also the failure counts: they agree exactly where nothing is counted. -/

namespace SecOC
open Py FreshnessManager

abbrev Submission := String × Bytes × Transport

namespace Stack
variable {D : Digests} {s : Stack} {p : String} {frame : Bytes} {t : Transport}

def receives (submissions : List Submission) : List Call :=
  submissions.map fun f => .receive f.1 f.2.1 f.2.2

def withEscalation (s : Stack) (x : Escalation) : Stack := { s with escalation := x }

@[simp] theorem withEscalation_profiles (s : Stack) (x : Escalation) :
    (s.withEscalation x).profiles = s.profiles := rfl

@[simp] theorem withEscalation_nvm (s : Stack) (x : Escalation) :
    (s.withEscalation x).nvm = s.nvm := rfl

@[simp] theorem withEscalation_freshnessManager (s : Stack) (x : Escalation) :
    (s.withEscalation x).freshnessManager = s.freshnessManager := rfl

theorem verifyMac_escalation (s : Stack) (x : Escalation) (payload : Bytes) (counter : Int)
    (mac : Bytes) : (s.withEscalation x).verifyMac D p payload counter mac t =
      ((s.verifyMac D p payload counter mac t).1,
        (s.verifyMac D p payload counter mac t).2.withEscalation x) := by
  have hin : (s.withEscalation x).macInput p payload counter t =
      s.macInput p payload counter t := rfl
  have hcsm : (s.withEscalation x).csm = s.csm := rfl
  unfold verifyMac
  rw [hin, hcsm]
  rcases s.macInput p payload counter t with e | ⟨keyId, data, macLen⟩
  · rfl
  · simp only
    rcases HmacCrypto.generateMac D s.csm keyId data with ⟨_ | _, csm⟩ <;> rfl

/-- A computation over the escalation that answers alike for every escalation, and does nothing
to it but record a rejection of the PDU, if that is the answer. -/
def RejectsOnly (p : String) (f : Escalation → Except PyError (Option Bytes) × Stack) : Prop :=
  ∃ (r : Except PyError (Option Bytes)) (s₁ : Stack) (events : List (String × RejectionReason)),
    (∀ x, f x = (r, s₁.withEscalation (x.rejects events))) ∧
    ((r = .ok none ∧ ∃ reason, events = [(p, reason)]) ∨ (r ≠ .ok none ∧ events = []))

theorem RejectsOnly.same {f : Escalation → Except PyError (Option Bytes) × Stack}
    (r : Except PyError (Option Bytes)) (s₁ : Stack) (hr : r ≠ .ok none)
    (h : ∀ x, f x = (r, s₁.withEscalation x)) : RejectsOnly p f :=
  ⟨r, s₁, [], h, Or.inr ⟨hr, rfl⟩⟩

theorem RejectsOnly.reject {f : Escalation → Except PyError (Option Bytes) × Stack}
    (s₁ : Stack) (reason : RejectionReason)
    (h : ∀ x, f x = (s₁.withEscalation x).reject p reason) : RejectsOnly p f :=
  ⟨.ok none, s₁, [(p, reason)], h, Or.inl ⟨rfl, reason, rfl⟩⟩

theorem receiveSecured_rejectsOnly (D : Digests) (s : Stack) (p : String) (frame : Bytes)
    (t : Transport) :
    RejectsOnly p fun x => (s.withEscalation x).receiveSecured D p frame t := by
  unfold receiveSecured
  simp only [withEscalation_profiles, withEscalation_nvm, withEscalation_freshnessManager,
    verifyMac_escalation]
  cases getProfile s.profiles p with
  | error e => exact .same (.error e) s nofun fun x => rfl
  | ok profile =>
    simp only
    cases PduManager.parseSecuredPdu frame profile t with
    | error e =>
      cases e with
      | valueError text => exact .reject s .malformedStructure fun x => rfl
      | _ => exact .same (.error _) s nofun fun x => rfl
    | ok parts =>
      obtain ⟨payload, wire, mac⟩ := parts
      simp only
      rcases s.freshnessManager.validateFreshness s.nvm p wire with e | ⟨_ | _, counter⟩
      · exact .same (.error e) s nofun fun x => rfl
      · exact .reject s .freshnessOutOfWindow fun x => rfl
      · simp only
        rcases s.verifyMac D p payload counter mac t with ⟨e | _ | _, s'⟩
        · exact .same (.error e) s' nofun fun x => rfl
        · exact .reject s' .macMismatch fun x => rfl
        · simp only [withEscalation_nvm]
          rcases commitFreshness s'.nvm p counter with ⟨e | u, nvm⟩
          · exact .same (.error e) { s' with nvm := nvm } nofun fun x => rfl
          · exact .same (.ok (some payload))
              { s' with nvm := nvm, bus := s'.bus.publish p frame } nofun fun x => rfl

def rejections (D : Digests) (p : String) : Stack → List Submission → Nat
  | _, [] => 0
  | s, (q, frame, t) :: rest =>
    (match (s.receiveSecured D q frame t).1 with
      | .ok none => if q = p then 1 else 0
      | _ => 0) + rejections D p (s.receiveSecured D q frame t).2 rest

theorem run_receives (D : Digests) (s : Stack) (submissions : List Submission) :
    ∃ (s₁ : Stack) (events : List (String × RejectionReason)), ∀ x,
      (s.withEscalation x).run D (receives submissions) = s₁.withEscalation (x.rejects events) ∧
      ∀ p, rejections D p (s.withEscalation x) submissions =
        Escalation.rejectionsOf p events := by
  -- over a run of received frames the escalation is a fold of rejections, the same from whichever
  -- escalation it starts
  induction submissions generalizing s with
  | nil => exact ⟨s, [], fun x => ⟨rfl, fun p => rfl⟩⟩
  | cons f rest ih =>
    obtain ⟨q, frame, t⟩ := f
    obtain ⟨r, s₁, events, hstep, hevents⟩ := receiveSecured_rejectsOnly D s q frame t
    obtain ⟨s₂, events', hrest⟩ := ih s₁
    refine ⟨s₂, events ++ events', fun x => ?_⟩
    obtain ⟨hrun, hcount⟩ := hrest (x.rejects events)
    have hx := hstep x
    simp only at hx
    constructor
    · rw [receives, List.map_cons, run_cons, call, hx, Escalation.rejects_append]
      exact hrun
    · intro p
      rw [rejections, hx, hcount, Escalation.rejectionsOf_append]
      rcases hevents with ⟨rfl, reason, rfl⟩ | ⟨hr, rfl⟩
      · rw [Escalation.rejectionsOf_singleton]
      · rcases r with e | _ | b
        · rfl
        · exact absurd rfl hr
        · rfl

/-! A PDU of which something was rejected can be rejected again. -/

/-- What a rejection leaves behind: a transport on which the PDU's frames can be malformed, or a
counter to be behind of. -/
def Countable (s : Stack) (p : String) : Prop :=
  ∃ profile t n m, s.profiles.get? p = some profile ∧ profile.truncationLengths t = .ok (n, m) ∧
    (t = .classicCan ∨ 0 < n + m ∨ ∃ L, lastValid s.nvm p = .ok L)

theorem countable_of_rejected (h : (s.receiveSecured D p frame t).1 = .ok none) :
    Countable s p := by
  unfold receiveSecured at h
  cases hp : getProfile s.profiles p with
  | error e =>
    rw [hp] at h
    cases h
  | ok profile =>
    rw [hp] at h
    simp only at h
    have hfound := getProfile_eq_ok.mp hp
    split at h
    · next hparse =>
      obtain ⟨n, m, hl, hshort⟩ := PduManager.parseSecuredPdu_malformed hparse
      exact ⟨profile, t, n, m, hfound, hl, hshort.imp_right Or.inl⟩
    · cases h
    · next hparse =>
      obtain ⟨n, m, hl⟩ := PduManager.parseSecuredPdu_lengths hparse
      refine ⟨profile, t, n, m, hfound, hl, Or.inr (Or.inr ?_)⟩
      cases hL : lastValid s.nvm p with
      | ok L => exact ⟨L, rfl⟩
      | error e =>
        have hload : (loadLastValidFreshness s.nvm p).asInt = .error e := hL
        rw [FreshnessManager.validateFreshness, hload] at h
        cases h

def Rejectable (D : Digests) (s : Stack) (p : String) : Prop :=
  ∃ frame t reason, ∀ x, (s.withEscalation x).receiveSecured D p frame t =
    (s.withEscalation x).reject p reason

theorem Countable.rejectable (h : Countable s p)
    (hw : s.freshnessManager.windowSize < s.freshnessManager.modulus) : Rejectable D s p := by
  obtain ⟨profile, t, n, m, hfound, hl, hcases⟩ := h
  have hp : getProfile s.profiles p = .ok profile := getProfile_eq_ok.mpr hfound
  by_cases hmalformed : t = .classicCan ∨ 0 < n + m
  · obtain ⟨text, hparse⟩ := PduManager.parseSecuredPdu_nil hl hmalformed
    refine ⟨[], t, .malformedStructure, fun x => ?_⟩
    simp only [receiveSecured, withEscalation_profiles, hp, hparse]
  · -- no frame of this transport is malformed: one that repeats the last counter is stale
    obtain ⟨hfd, hpos⟩ := not_or.mp hmalformed
    obtain ⟨L, hL⟩ := (hcases.resolve_left hfd).resolve_left hpos
    obtain rfl : t = .canFd := by
      cases t with
      | canFd => rfl
      | classicCan => exact absurd rfl hfd
    let f := s.freshnessManager
    have hwire : (fromBytesBE (toBytesBE f.freshnessLength (L % f.modulus).toNat) : Int) =
        L % f.modulus :=
      fromBytesBE_freshnessBytes (freshnessBytes_eq L f.freshnessLength)
    obtain ⟨payload, mac, hparse⟩ := PduManager.parseSecuredPdu_anyFreshness hl (not_lt.mp hpos)
      (toBytesBE f.freshnessLength (L % f.modulus).toNat)
    generalize List.replicate _ _ ++ _ ++ List.replicate _ _ = stale at hparse
    refine ⟨stale, .canFd, .freshnessOutOfWindow, fun x => ?_⟩
    have hstale : f.validateFreshness s.nvm p
        (fromBytesBE (toBytesBE f.freshnessLength (L % f.modulus).toNat)) = .ok (false, 0) := by
      rw [validateFreshness_eq _ _ _ _ hL, hwire, Residue.next_self L f.modulus_pos,
        if_neg (by linarith)]
    simp only [receiveSecured, withEscalation_profiles, hp, hparse, withEscalation_nvm,
      withEscalation_freshnessManager, hstale, f]

theorem Rejectable.repeated (h : Rejectable D s p) (k : Nat) : ∃ submissions, ∀ x q,
    rejections D q (s.withEscalation x) submissions = if p = q then k else 0 := by
  obtain ⟨frame, t, reason, hrej⟩ := h
  refine ⟨List.replicate k (p, frame, t), fun x q => ?_⟩
  induction k generalizing x with
  | zero => exact (ite_self 0).symm
  | succ k ih =>
    have hrest : rejections D q ((s.withEscalation x).reject p reason).2
        (List.replicate k (p, frame, t)) = if p = q then k else 0 := ih (x.reject p reason)
    rw [List.replicate_succ, rejections, hrej, hrest]
    simp only [reject]
    split_ifs
    · exact Nat.add_comm 1 k
    · rfl

/-! Along a run of requests, whatever has a count is countable. -/

theorem Countable.extends_stack {s' : Stack} (h : Countable s p) (hx : Extends s s') :
    Countable s' p := by
  obtain ⟨profile, t, n, m, hfound, hl, hcases⟩ := h
  have hfound' : s'.profiles.get? p = some profile := by
    rw [hx.profiles, hfound]
  refine ⟨profile, t, n, m, hfound', hl, ?_⟩
  rcases hcases with ht | hpos | ⟨L, hL⟩
  · exact Or.inl ht
  · exact Or.inr (Or.inl hpos)
  · obtain ⟨L', hL', -⟩ := hx.counters p L hL
    exact Or.inr (Or.inr ⟨L', hL'⟩)

theorem Countable.version {q version : String} {entry : SecurityProfileEntry}
    (h : Countable s p) (hq : s.profiles.get? q = some entry) :
    Countable { s with profiles := s.profiles.set q { entry with profileVersion := version } }
      p := by
  obtain ⟨profile, t, n, m, hfound, hl, hcases⟩ := h
  by_cases hp : p = q
  · subst hp
    rw [hq] at hfound
    cases hfound
    refine ⟨_, t, n, m, Dict.get?_set_self _ _ _, ?_, hcases⟩
    rw [← hl]
    cases t <;> rfl
  · exact ⟨profile, t, n, m, (Dict.get?_set_ne _ _ hp).trans hfound, hl, hcases⟩

structure Tracked (s : Stack) : Prop where
  freshnessManager : s.freshnessManager = { windowSize := 16, freshnessLength := 2 }
  countable : ∀ p, 0 < s.escalation.counts.getD p 0 → Countable s p

theorem transmitSecured_counts (s : Stack) (p : String) (payload : Bytes) (t : Transport) :
    (s.transmitSecured D p payload t).2.escalation.counts = s.escalation.counts := by
  rcases isEmpty_or_nonempty (Transmission s p payload t) with hT | ⟨⟨T⟩⟩
  · obtain ⟨e, c, n, -, he⟩ := transmitSecured_refused (D := D) hT
    rw [he]
  · rw [T.transmitSecured_eq]
    exact T.after_escalation.1

theorem Op.tracked {s s' : Stack} (hop : Op D s s') (h : Tracked s) : Tracked s' := by
  cases hop with
  | bus bus => exact ⟨h.freshnessManager, h.countable⟩
  | log severity eventId swrRef => exact ⟨h.freshnessManager, h.countable⟩
  | resetEcu => exact ⟨h.freshnessManager, fun p hp => absurd hp (lt_irrefl 0)⟩
  | version q version hq => exact ⟨h.freshnessManager, fun p hp => (h.countable p hp).version hq⟩
  | keys hsm hnvm =>
    refine ⟨h.freshnessManager, fun p hp => ?_⟩
    obtain ⟨profile, t, n, m, hfound, hl, hcases⟩ := h.countable p hp
    refine ⟨profile, t, n, m, hfound, hl, ?_⟩
    rw [lastValid, AppState.counters_of_keys hnvm p]
    exact hcases
  | transmit q payload t =>
    have hx := transmitSecured_extends (D := D) (s := s) q payload t
    refine ⟨hx.freshnessManager.trans h.freshnessManager, fun p hp => ?_⟩
    rw [transmitSecured_counts] at hp
    exact (h.countable p hp).extends_stack hx
  | receive q frame t =>
    have hx := receiveSecured_extends (D := D) (s := s) q frame t
    refine ⟨hx.freshnessManager.trans h.freshnessManager, fun p hp => ?_⟩
    obtain ⟨r, s₁, events, hall, hevents⟩ := receiveSecured_rejectsOnly D s q frame t
    have hs : s.receiveSecured D q frame t =
        (r, s₁.withEscalation (s.escalation.rejects events)) := hall s.escalation
    have hcount : (s.receiveSecured D q frame t).2.escalation.counts.getD p 0 =
        s.escalation.counts.getD p 0 + Escalation.rejectionsOf p events := by
      rw [hs]
      exact s.escalation.rejects_counts p events
    rcases hevents with ⟨rfl, reason, rfl⟩ | ⟨-, rfl⟩
    · by_cases hpq : q = p
      · subst hpq
        have hrejected : (s.receiveSecured D q frame t).1 = .ok none := by
          rw [hs]
        exact (countable_of_rejected hrejected).extends_stack hx
      · rw [hcount, Escalation.rejectionsOf_singleton, if_neg hpq, add_zero] at hp
        exact (h.countable p hp).extends_stack hx
    · rw [hcount] at hp
      exact (h.countable p hp).extends_stack hx

theorem Tracked.rejectable (h : Tracked s) (hp : 0 < s.escalation.counts.getD p 0) :
    Rejectable D s p := by
  apply (h.countable p hp).rejectable
  rw [h.freshnessManager]
  decide

theorem locked_after_iff (s : Stack) {x : Escalation} (hopen : x.lockedOut = false)
    (hstate : x.ecuState = .normalOperation) (submissions : List Submission) :
    ((s.withEscalation x).run D (receives submissions)).escalation.ecuState =
        .securityViolationLockout ↔
      ∃ p, 0 < rejections D p (s.withEscalation x) submissions ∧
        Config.maxAuthFailures ≤
          x.counts.getD p 0 + rejections D p (s.withEscalation x) submissions := by
  obtain ⟨s₁, events, hall⟩ := run_receives D s submissions
  obtain ⟨hrun, hcount⟩ := hall x
  have hshows : x.ecuState = .securityViolationLockout ↔ x.lockedOut = true := by
    rw [hstate, hopen]
    decide
  rw [hrun]
  simp only [hcount]
  rw [← Escalation.rejects_lockedOut_iff hopen events]
  exact Escalation.rejects_ecuState hshows events

end Stack

namespace AppState
open Stack
variable {D : Digests}

def LocksAfter (D : Digests) (s : Stack) (submissions : List Submission) : Prop :=
  (s.run D (receives submissions)).escalation.ecuState = .securityViolationLockout

/-- The two recovery paths agree: whatever is received afterwards, both lock out at the same
call, and in neither before one PDU has been rejected the maximum number of times. -/
structure RecoveryAgrees (D : Digests) (a : AppState) : Prop where
  together : ∀ submissions,
    LocksAfter D a.stack.reset submissions ↔ LocksAfter D a.resetEcu.stack submissions
  reset_patient : ∀ submissions, LocksAfter D a.stack.reset submissions →
    ∃ p, Config.maxAuthFailures ≤ rejections D p a.stack.reset submissions
  resetEcu_patient : ∀ submissions, LocksAfter D a.resetEcu.stack submissions →
    ∃ p, Config.maxAuthFailures ≤ rejections D p a.resetEcu.stack submissions

theorem locksAfter_reset_iff (a : AppState) (submissions : List Submission) :
    LocksAfter D a.stack.reset submissions ↔
      ∃ p, 0 < rejections D p a.stack.reset submissions ∧ Config.maxAuthFailures ≤
        a.stack.escalation.counts.getD p 0 + rejections D p a.stack.reset submissions :=
  locked_after_iff a.stack (x := a.stack.escalation.reset) rfl rfl submissions

theorem locksAfter_resetEcu_iff (a : AppState) (submissions : List Submission) :
    LocksAfter D a.resetEcu.stack submissions ↔
      ∃ p, 0 < rejections D p a.resetEcu.stack submissions ∧
        Config.maxAuthFailures ≤ 0 + rejections D p a.resetEcu.stack submissions :=
  locked_after_iff a.stack (x := a.stack.escalation.resetEcu) rfl rfl submissions

theorem rejections_eq (a : AppState) (p : String) (submissions : List Submission) :
    rejections D p a.stack.reset submissions = rejections D p a.resetEcu.stack submissions := by
  obtain ⟨s₁, events, hall⟩ := run_receives D a.stack submissions
  exact ((hall a.stack.escalation.reset).2 p).trans ((hall a.stack.escalation.resetEcu).2 p).symm

theorem recoveryAgrees_of_tracked {a : AppState} (h : Tracked a.stack) :
    RecoveryAgrees D a ↔ ∀ p, a.stack.escalation.counts.getD p 0 = 0 := by
  constructor
  · intro hagrees p
    by_contra hp
    have hpos := Nat.pos_of_ne_zero hp
    -- as many rejections as the stale count leaves to the maximum
    obtain ⟨submissions, hcount⟩ := (h.rejectable (D := D) hpos).repeated
      (max 1 (Config.maxAuthFailures - a.stack.escalation.counts.getD p 0))
    have hreset : ∀ q, rejections D q a.stack.reset submissions = _ :=
      hcount a.stack.escalation.reset
    have hlocked : LocksAfter D a.stack.reset submissions := by
      rw [locksAfter_reset_iff]
      refine ⟨p, ?_, ?_⟩ <;>
      · rw [hreset, if_pos rfl]
        omega
    obtain ⟨q, hq⟩ := hagrees.reset_patient submissions hlocked
    rw [hreset] at hq
    split_ifs at hq
    · simp only [Config.maxAuthFailures] at hq
      omega
    · exact absurd hq (by decide)
  · intro hzero
    have hiff : ∀ submissions,
        LocksAfter D a.stack.reset submissions ↔ LocksAfter D a.resetEcu.stack submissions := by
      intro submissions
      rw [locksAfter_reset_iff, locksAfter_resetEcu_iff]
      simp only [hzero, rejections_eq]
    have hpatient : ∀ submissions, LocksAfter D a.resetEcu.stack submissions →
        ∃ p, Config.maxAuthFailures ≤ rejections D p a.resetEcu.stack submissions := by
      intro submissions hlocked
      obtain ⟨p, -, hmax⟩ := (locksAfter_resetEcu_iff a submissions).mp hlocked
      rw [zero_add] at hmax
      exact ⟨p, hmax⟩
    refine ⟨hiff, fun submissions hlocked => ?_, hpatient⟩
    obtain ⟨p, hmax⟩ := hpatient submissions ((hiff submissions).mp hlocked)
    rw [← rejections_eq] at hmax
    exact ⟨p, hmax⟩

/-- In every state a run of requests reaches, the recovery paths agree if and only if no failure
is counted there. -/
theorem recoveryAgrees_iff {env : Environment} {a₀ : AppState} (h : init D env = .ok a₀)
    (requests : List Request) :
    RecoveryAgrees D (a₀.run D requests) ↔
      ∀ p, (a₀.run D requests).stack.escalation.counts.getD p 0 = 0 := by
  apply recoveryAgrees_of_tracked
  apply Ops.preserves Op.tracked (a₀.run_ops requests)
  obtain ⟨_, _, _, _, _, -, -, -, hstack⟩ := init_eq_ok h
  rw [hstack]
  exact ⟨rfl, fun p hp => absurd hp (lt_irrefl 0)⟩

theorem recoveryAgrees_iff_shipped :
    RecoveryAgrees .standard ((shippedApp .standard (toBytesBE 32)).run .standard
      [.forgeInject "PDU_0x100" "MALFORMED_STRUCTURE", .resetEcu]) :=
  (recoveryAgrees_iff (init_shipped .standard (toBytesBE 32)) _).mpr fun _ => rfl

theorem stale_count_disagrees :
    init .standard (shippedEnvironment (toBytesBE 32)) =
      .ok (shippedApp .standard (toBytesBE 32)) ∧
    ¬RecoveryAgrees .standard ((shippedApp .standard (toBytesBE 32)).run .standard
      [.forgeInject "PDU_0x100" "MALFORMED_STRUCTURE"]) := by
  -- one forged frame is rejected before the recovery, four after it: only one of the two stacks is
  -- locked out
  refine ⟨init_shipped _ _, fun h => ?_⟩
  have hlocked := (h.together (List.replicate 4 ("PDU_0x100", [0], .canFd))).mp rfl
  cases hlocked

end AppState
end SecOC
