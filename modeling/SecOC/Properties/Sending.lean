import SecOC.Sim.Ecu
import SecOC.Sim.StackRun

/-! A send either puts its frame on the bus and counts it, or leaves bus, counts and state as they
were: whatever it may fail at comes before the bus, or leaves the bus alone. -/

namespace SecOC
open Py

namespace PduRouter

structure Adapted (r : PduRouter) : Prop where
  canIf : r.canIf = .classic r.canIf.ecuId
  canFdIf : ∀ {i}, r.canFdIf = some i → i = .fd i.ecuId

def Carries (r : PduRouter) (size : Nat) : Prop := size ≤ 8 ∨ (r.canFdIf.isSome ∧ size ≤ 64)

variable {r : PduRouter} (h : r.Adapted) (bus : CanBus) (p : String) {data : Bytes}
include h

theorem routeToBus_of_carries (hsize : r.Carries data.length) :
    r.routeToBus bus p data = (.ok (), bus.publish p data) := by
  unfold routeToBus
  by_cases hsmall : data.length ≤ Config.canMaxPayloadBytes
  · rw [if_pos hsmall, h.canIf, CanInterface.sendFrame]
    exact if_neg (not_lt.mpr hsmall)
  · obtain ⟨hfd, hlarge⟩ := hsize.resolve_left hsmall
    obtain ⟨i, hi⟩ := Option.isSome_iff_exists.mp hfd
    have hsend : i.sendFrame bus p data = (.ok (), bus.publish p data) := by
      rw [h.canFdIf hi, CanInterface.sendFrame]
      exact if_neg (not_lt.mpr hlarge)
    have hlarge' : data.length ≤ Config.canFdMaxPayloadBytes := hlarge
    simp only [if_neg hsmall, hi, if_pos hlarge', hsend]

omit h in
theorem routeToBus_of_not_carries (hsize : ¬r.Carries data.length) :
    ∃ e, r.routeToBus bus p data = (.error e, bus) := by
  refine (r.routeToBus_cases bus p data).resolve_left ?_
  rintro ⟨-, hfd, hclassic⟩
  cases hcanFd : r.canFdIf with
  | none => exact hsize (Or.inl (hclassic hcanFd))
  | some i => exact hsize (Or.inr ⟨by rw [hcanFd]; rfl, hfd⟩)

end PduRouter

namespace Stack

/-- What sending has nothing to do with: counters, keys' records, fault counts and the ECU state,
and the profiles. -/
structure Kept (s s' : Stack) : Prop where
  profiles : s'.profiles = s.profiles
  nvm : s'.nvm = s.nvm
  freshnessManager : s'.freshnessManager = s.freshnessManager
  counts : s'.escalation.counts = s.escalation.counts
  lockedOut : s'.escalation.lockedOut = s.escalation.lockedOut
  ecuState : s'.escalation.ecuState = s.escalation.ecuState

theorem Kept.refl (s : Stack) : s.Kept s := ⟨rfl, rfl, rfl, rfl, rfl, rfl⟩

theorem transmitSecured_kept (D : Digests) (s : Stack) (p : String) (payload : Bytes)
    (t : Transport) : s.Kept (s.transmitSecured D p payload t).2 ∧
      (s.transmitSecured D p payload t).2.bus = s.bus := by
  rcases isEmpty_or_nonempty (Transmission s p payload t) with hT | ⟨⟨T⟩⟩
  · obtain ⟨e, c, n, -, he⟩ := transmitSecured_refused (D := D) hT
    rw [he]
    exact ⟨⟨rfl, rfl, rfl, rfl, rfl, rfl⟩, rfl⟩
  · obtain ⟨hprofiles, hnvm, hfreshness, -, -, hbus⟩ := T.after_fields
    obtain ⟨hcounts, hlockedOut, hstate⟩ := T.after_escalation
    rw [T.transmitSecured_eq]
    exact ⟨⟨hprofiles, hnvm, hfreshness, hcounts, hlockedOut, hstate⟩, hbus⟩

end Stack

namespace EcuPair
variable (D : Digests) (e : EcuPair) (p : String) (payload : Bytes)

structure Sendable (frame : Bytes) : Prop where
  managed : p ∈ e.sender.managedPduIds
  normal : e.state = .normalOperation
  secured : (e.stack.transmitSecured D p payload .canFd).1 = .ok frame
  fits : e.txRouter.Carries frame.length

def countSent : SenderECU :=
  { e.sender with txCount := e.sender.txCount.set p (e.sender.txCount.getD p 0 + 1) }

variable {D e p payload}

theorem sendSignal_of_sendable (hr : e.txRouter.Adapted) {frame : Bytes}
    (h : Sendable D e p payload frame) :
    ∃ s, e.stack.Kept s ∧ e.sendSignal D p payload =
      (.ok true, { e with
        stack := { s with bus := e.stack.bus.publish p frame }
        sender := countSent e p }) := by
  obtain ⟨hkept, hbus⟩ := Stack.transmitSecured_kept D e.stack p payload .canFd
  have hsecured := h.secured
  rcases htx : e.stack.transmitSecured D p payload .canFd with ⟨result, s⟩
  rw [htx] at hsecured hkept hbus
  dsimp only at hbus
  cases hsecured
  refine ⟨s, hkept, ?_⟩
  rw [sendSignal, if_neg (not_not.mpr h.managed), if_neg (not_not.mpr h.normal), htx]
  simp only [hbus, PduRouter.routeToBus_of_carries hr e.stack.bus p h.fits]
  rfl

theorem sendSignal_of_not_sendable (h : ∀ frame, ¬Sendable D e p payload frame) :
    ∃ result s, result ≠ .ok true ∧ e.stack.Kept s ∧ s.bus = e.stack.bus ∧
      e.sendSignal D p payload = (result, { e with stack := s }) := by
  unfold sendSignal
  by_cases hmanaged : p ∉ e.sender.managedPduIds
  · rw [if_pos hmanaged]
    exact ⟨.error _, e.stack, nofun, Stack.Kept.refl _, rfl, rfl⟩
  by_cases hstate : e.state ≠ .normalOperation
  · rw [if_neg hmanaged, if_pos hstate]
    exact ⟨.ok false, e.stack, nofun, Stack.Kept.refl _, rfl, rfl⟩
  rw [if_neg hmanaged, if_neg hstate]
  obtain ⟨hkept, hbus⟩ := Stack.transmitSecured_kept D e.stack p payload .canFd
  rcases htx : e.stack.transmitSecured D p payload .canFd with ⟨_ | frame, s⟩
  · rw [htx] at hkept hbus
    exact ⟨.error _, s, nofun, hkept, hbus, rfl⟩
  · rw [htx] at hkept hbus
    -- The frame was built, so it is the router that has no way for it.
    have hsize : ¬e.txRouter.Carries frame.length := fun hfits =>
      h frame ⟨not_not.mp hmanaged, not_not.mp hstate, by rw [htx], hfits⟩
    obtain ⟨err, hroute⟩ := PduRouter.routeToBus_of_not_carries s.bus p hsize
    simp only [hroute]
    exact ⟨.error _, s, nofun, hkept, hbus, rfl⟩

/-- **Sending is atomic.** -/
theorem send_atomic (D : Digests) {e : EcuPair} (hr : e.txRouter.Adapted) (p : String)
    (payload : Bytes) :
    ((e.sendSignal D p payload).1 = .ok true ↔ ∃ frame, Sendable D e p payload frame) ∧
    (∀ frame, (e.sendSignal D p payload).1 = .ok true →
      (e.stack.transmitSecured D p payload .canFd).1 = .ok frame →
      (e.sendSignal D p payload).2.stack.bus = e.stack.bus.publish p frame ∧
      (e.sendSignal D p payload).2.sender = countSent e p) ∧
    ((e.sendSignal D p payload).1 ≠ .ok true →
      (e.sendSignal D p payload).2.stack.bus = e.stack.bus ∧
      (e.sendSignal D p payload).2.sender = e.sender) ∧
    e.stack.Kept (e.sendSignal D p payload).2.stack := by
  by_cases h : ∃ frame, Sendable D e p payload frame
  · obtain ⟨frame, h⟩ := h
    obtain ⟨s, hkept, heq⟩ := sendSignal_of_sendable hr h
    rw [heq]
    refine ⟨iff_of_true rfl ⟨frame, h⟩, ?_, fun hne => absurd rfl hne, ?_⟩
    · rintro frame' - hframe'
      cases h.secured.symm.trans hframe'
      exact ⟨rfl, rfl⟩
    · exact ⟨hkept.profiles, hkept.nvm, hkept.freshnessManager, hkept.counts, hkept.lockedOut,
        hkept.ecuState⟩
  · obtain ⟨result, s, hresult, hkept, hbus, heq⟩ :=
      sendSignal_of_not_sendable fun frame hframe => h ⟨frame, hframe⟩
    rw [heq]
    exact ⟨iff_of_false hresult h, fun _ htrue => absurd htrue hresult, fun _ => ⟨hbus, rfl⟩, hkept⟩

theorem send_atomic_shipped :
    let e := build (Stack.shipped (toBytesBE 32)) "PDU_0x100"
    ∃ frame, frame.length = 11 ∧
      (e.stack.transmitSecured .standard "PDU_0x100" [7] .canFd).1 = .ok frame ∧
      (e.sendSignal .standard "PDU_0x100" [7]).1 = .ok true ∧
      (e.sendSignal .standard "PDU_0x100" [7]).2.stack.bus =
        e.stack.bus.publish "PDU_0x100" frame ∧
      (e.sendSignal .standard "PDU_0x100" [7]).2.sender = countSent e "PDU_0x100" := by
  -- the pair of the scenario runner on the shipped configuration sends a frame of eleven bytes
  intro e
  have hr : e.txRouter.Adapted := ⟨rfl, fun h => by cases h; rfl⟩
  obtain ⟨T, hn, hm⟩ : ∃ T : Stack.Transmission e.stack "PDU_0x100" [7] .canFd,
      T.freshLen = 2 ∧ T.macLen = (8 : Nat) :=
    ⟨Stack.shippedTransmission (toBytesBE 32) [7] .canFd (by decide), rfl, rfl⟩
  have hsecured : (e.stack.transmitSecured .standard "PDU_0x100" [7] .canFd).1 =
      .ok (T.frame .standard) := congrArg Prod.fst T.transmitSecured_eq
  have hregion : T.region.length = 3 := (region_length _ _ _).trans (by rw [hn]; rfl)
  have hlength : (T.frame .standard).length = 11 := by
    rw [Stack.Transmission.frame, List.length_append, T.tag_length_min hm, hregion]
    rfl
  have hsendable : Sendable .standard e "PDU_0x100" [7] (T.frame .standard) :=
    ⟨List.mem_singleton.mpr rfl, rfl, hsecured, hlength ▸ Or.inr ⟨rfl, by decide⟩⟩
  obtain ⟨hiff, hsent, -⟩ := send_atomic .standard hr "PDU_0x100" [7]
  have hok := hiff.mpr ⟨T.frame .standard, hsendable⟩
  obtain ⟨hbus, hsender⟩ := hsent _ hok hsecured
  exact ⟨T.frame .standard, hlength, hsecured, hok, hbus, hsender⟩

end EcuPair
end SecOC
