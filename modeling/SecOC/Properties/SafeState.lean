import SecOC.Api.Effects

/-! The lockout as a safe state. The guard that reads the ECU state stands in the sending and
receiving ECUs only: behind the HTTP interface a locked-out stack goes on sending and accepting
whatever it would honour otherwise. -/

namespace SecOC
open Py FreshnessManager

def Outcome.Refused : Outcome → Prop
  | .transmitted (.ok _) => False
  | .received (.ok (some _)) => False
  | _ => True

namespace Stack
variable {D : Digests} {s : Stack} {p : String} {b : Bytes} {t : Transport}

theorem Acceptance.withBus (A : Acceptance D s p b t) (bus : CanBus) :
    Nonempty (Acceptance D { s with bus := bus } p b t) :=
  ⟨{ A with
      profile := A.profile
      fresh := A.fresh }⟩

theorem transmitted_refused_iff : (Outcome.transmitted (s.transmitSecured D p b t).1).Refused ↔
    IsEmpty (Transmission s p b t) := by
  constructor
  · intro h
    constructor
    intro T
    rw [T.transmitSecured_eq] at h
    exact h
  · intro h
    obtain ⟨e, c, n, -, he⟩ := transmitSecured_refused (D := D) h
    rw [he]
    trivial

theorem transmitted_refused_nvm (h : IsEmpty (Transmission s p b t)) :
    (s.transmitSecured D p b t).2.nvm = s.nvm := by
  obtain ⟨e, c, n, -, he⟩ := transmitSecured_refused (D := D) h
  rw [he]

theorem received_harmless_iff :
    ((Outcome.received (s.receiveSecured D p b t).1).Refused ∧
      ∀ q, loadLastValidFreshness (s.receiveSecured D p b t).2.nvm q =
        loadLastValidFreshness s.nvm q) ↔ IsEmpty (Acceptance D s p b t) := by
  -- receiving is harmless exactly where nothing is accepted: also an acceptance that a failing
  -- flush ends has moved the counter
  constructor
  · rintro ⟨-, hsame⟩
    constructor
    intro A
    obtain ⟨L, hL, -, hlt, -⟩ := A.counter_gt
    have hload : (loadLastValidFreshness s.nvm p).asInt = .ok L := hL
    have hafter := A.lastValid_after
    rw [lastValid, hsame p, hload] at hafter
    exact hlt.ne (Except.ok.inj hafter)
  · intro h
    rcases receiveSecured_refused h with ⟨e, c, -, he⟩ | ⟨reason, c, -, -, he⟩
    · rw [he]
      exact ⟨trivial, fun _ => rfl⟩
    · rw [he]
      exact ⟨trivial, fun _ => rfl⟩

end Stack

namespace AppState
open Stack
variable {D : Digests}

/-- The safe state holds for a request: no Secured I-PDU is accepted, none is issued, and no
freshness value is committed. -/
structure Enforced (D : Digests) (a : AppState) (r : Request) : Prop where
  refused : ∀ o ∈ (a.request D r).1.calls, o.Refused
  uncommitted : ∀ p, loadLastValidFreshness (a.request D r).2.stack.nvm p =
    loadLastValidFreshness a.stack.nvm p

/-- The request asks for a payload that can be sent, or submits a frame that is well-formed,
fresh and authentic. -/
def Honourable (D : Digests) (a : AppState) (r : Request) : Prop :=
  (∃ p b t, r.sends = some (p, b, t) ∧ Nonempty (Transmission a.stack p b t)) ∨
  ∃ p b t, a.submits r = some (p, b, t) ∧ Nonempty (Acceptance D a.stack p b t)

theorem submits_eq_none {a : AppState} {r : Request} {call : String × Bytes × Transport}
    (h : r.sends = some call) : a.submits r = none := by
  cases r with
  | transmitSecured p payload t => rfl
  | mitmTamper p payload t => rfl
  | _ => cases h

section Request
variable {a : AppState} {r : Request} {p : String} {b : Bytes} {t : Transport}

theorem honourable_sends_iff (hs : r.sends = some (p, b, t)) :
    Honourable D a r ↔ Nonempty (Transmission a.stack p b t) := by
  simp only [Honourable, hs, submits_eq_none hs, Option.some.injEq, Prod.mk.injEq]
  constructor
  · rintro (⟨_, _, _, ⟨rfl, rfl, rfl⟩, hT⟩ | ⟨_, _, _, h, -⟩)
    · exact hT
    · cases h
  · intro hT
    exact Or.inl ⟨p, b, t, ⟨rfl, rfl, rfl⟩, hT⟩

theorem honourable_submits_iff (hs : r.sends = none) (hr : a.submits r = some (p, b, t)) :
    Honourable D a r ↔ Nonempty (Acceptance D a.stack p b t) := by
  simp only [Honourable, hs, hr, Option.some.injEq, Prod.mk.injEq]
  constructor
  · rintro (⟨_, _, _, h, -⟩ | ⟨_, _, _, ⟨rfl, rfl, rfl⟩, hA⟩)
    · cases h
    · exact hA
  · intro hA
    exact Or.inr ⟨p, b, t, ⟨rfl, rfl, rfl⟩, hA⟩

theorem enforced_sends_iff (hs : r.sends = some (p, b, t)) :
    Enforced D a r ↔ IsEmpty (Transmission a.stack p b t) := by
  -- a request that sends is harmless exactly where nothing can be sent: it makes no other call
  obtain ⟨calls, hcalls, hrest⟩ := a.request_sends (D := D) hs
  constructor
  · intro h
    apply transmitted_refused_iff.mp
    apply h.refused
    rw [hcalls]
    exact List.mem_cons_self
  · intro hT
    have hrefused : (Outcome.transmitted (a.stack.transmitSecured D p b t).1).Refused :=
      transmitted_refused_iff.mpr hT
    have hno : ∀ frame, (a.stack.transmitSecured D p b t).1 ≠ .ok frame := by
      intro frame hok
      rw [hok] at hrefused
      exact hrefused
    obtain ⟨rfl, hstack⟩ := hrest hno
    constructor
    · intro o ho
      rw [hcalls, List.mem_singleton] at ho
      rw [ho]
      exact hrefused
    · intro q
      rw [hstack, transmitted_refused_nvm hT]

theorem enforced_submits_iff (hr : a.submits r = some (p, b, t)) :
    Enforced D a r ↔ IsEmpty (Acceptance D a.stack p b t) := by
  obtain ⟨bus, hcalls, hstack⟩ := a.request_submits (D := D) hr
  -- The endpoint may have put a frame on the bus first, which no acceptance depends on.
  have hbus : IsEmpty (Acceptance D a.stack p b t) ↔
      IsEmpty (Acceptance D { a.stack with bus := bus } p b t) := by
    rw [← not_nonempty_iff, ← not_nonempty_iff]
    apply not_congr
    constructor
    · rintro ⟨A⟩
      exact A.withBus bus
    · rintro ⟨A⟩
      exact A.withBus a.stack.bus
  rw [hbus, ← received_harmless_iff]
  constructor
  · intro h
    constructor
    · apply h.refused
      rw [hcalls]
      exact List.mem_singleton.mpr rfl
    · intro q
      rw [← hstack]
      exact h.uncommitted q
  · rintro ⟨hrefused, hsame⟩
    constructor
    · intro o ho
      rw [hcalls, List.mem_singleton] at ho
      rw [ho]
      exact hrefused
    · intro q
      rw [hstack]
      exact hsame q

theorem enforced_of_quiet (hs : r.sends = none) (hr : a.submits r = none) : Enforced D a r := by
  obtain ⟨hcalls, hsame⟩ := a.request_quiet (D := D) hs hr
  constructor
  · intro o ho
    rw [hcalls] at ho
    cases ho
  · exact hsame

end Request

theorem enforced_iff (a : AppState) (r : Request) : Enforced D a r ↔ ¬Honourable D a r := by
  cases hs : r.sends with
  | some call => rw [enforced_sends_iff hs, honourable_sends_iff hs, not_nonempty_iff]
  | none =>
    cases hr : a.submits r with
    | some call => rw [enforced_submits_iff hr, honourable_submits_iff hs hr, not_nonempty_iff]
    | none =>
      apply iff_of_true (enforced_of_quiet hs hr)
      rintro (⟨_, _, _, h, -⟩ | ⟨_, _, _, h, -⟩)
      · rw [hs] at h
        cases h
      · rw [hr] at h
        cases h

def Locked (a : AppState) : Prop := a.stack.escalation.ecuState = .securityViolationLockout

/-- Along a run the lockout is a safe state if and only if no request it meets is one the stack
would honour in normal operation. -/
theorem lockout_enforced_iff (D : Digests) (a₀ : AppState) (requests : List Request) :
    (∀ before r after, requests = before ++ r :: after → (a₀.run D before).Locked →
      r ≠ .resetEcu → Enforced D (a₀.run D before) r) ↔
    ∀ before r after, requests = before ++ r :: after → (a₀.run D before).Locked →
      r ≠ .resetEcu → ¬Honourable D (a₀.run D before) r := by
  constructor
  · intro h before r after heq hlocked hr
    exact (enforced_iff _ r).mp (h before r after heq hlocked hr)
  · intro h before r after heq hlocked hr
    exact (enforced_iff _ r).mpr (h before r after heq hlocked hr)

def forgedThenSent : List Request :=
  List.replicate 5 (.forgeInject "PDU_0x100" "MALFORMED_STRUCTURE")

theorem forged_transmit_issued :
    init .standard (shippedEnvironment (toBytesBE 32)) =
      .ok (shippedApp .standard (toBytesBE 32)) ∧
    ((shippedApp .standard (toBytesBE 32)).run .standard forgedThenSent).Locked ∧
    ¬Enforced .standard ((shippedApp .standard (toBytesBE 32)).run .standard forgedThenSent)
      (.transmitSecured "PDU_0x100" "01020304" "CAN_FD") := by
  refine ⟨init_shipped _ _, rfl, ?_⟩
  rw [enforced_iff, not_not]
  refine Or.inl ⟨"PDU_0x100", [1, 2, 3, 4], .canFd, rfl, ⟨?_⟩⟩
  exact {
    profile := shippedProfile "PDU_0x100"
    keyId := "secoc_mac_key_PDU_0x100"
    key := toBytesBE 32 1
    freshLen := 2
    macLen := 8
    found := rfl
    lengths := rfl
    resolved := rfl
    alive := rfl
    stored := rfl
    admissible := by decide
    lastValid := 0
    counted := rfl }

end AppState
end SecOC
