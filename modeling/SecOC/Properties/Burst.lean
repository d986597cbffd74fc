import SecOC.Properties.Delivery

/-! Bursts. Sending does not move the counter, so all frames sent before the next delivery carry
one freshness value: the first of them to arrive is accepted, the others are replays of it. -/

namespace SecOC
open Py FreshnessManager

namespace Stack
variable {D : Digests} {s s' s₁ : Stack} {p : String} {t : Transport}

/-- The PDU's counter field on the transport is as long as the freshness manager's, and the
window is shorter than its period. -/
structure Synchronous (s : Stack) (p : String) (t : Transport) : Prop where
  lengths : ∃ profile m, s.profiles.get? p = some profile ∧
    profile.truncationLengths t = .ok ((s.freshnessManager.freshnessLength : Int), m) ∧
    0 ≤ m ∧ m ≤ 32
  window_pos : 1 ≤ s.freshnessManager.windowSize
  window_lt : s.freshnessManager.windowSize < s.freshnessManager.modulus
  disk : s.nvm.diskFault = false

theorem Synchronous.later (h : Synchronous s p t) (hx : Extends s s') : Synchronous s' p t := by
  refine ⟨?_, ?_, ?_, hx.diskFault.trans h.disk⟩
  · rw [hx.profiles, hx.freshnessManager]
    exact h.lengths
  · rw [hx.freshnessManager]
    exact h.window_pos
  · rw [hx.freshnessManager]
    exact h.window_lt

theorem Synchronous.freshnessLength_pos (h : Synchronous s p t) :
    0 < s.freshnessManager.freshnessLength := by
  rcases Nat.eq_zero_or_pos s.freshnessManager.freshnessLength with h0 | hpos
  · have hone : s.freshnessManager.modulus = 1 := by rw [modulus, h0, zero_mul, pow_zero]
    linarith [h.window_pos, h.window_lt]
  · exact hpos

theorem Synchronous.transmission {a : Bytes} (h : Synchronous s p t)
    (T : Transmission s p a t) : T.freshLen = s.freshnessManager.freshnessLength ∧
      PduManager.parseSecuredPdu (T.frame D) T.profile t =
        .ok (padded t a, T.wire, T.tag D (padded t a) (T.lastValid + 1)) := by
  obtain ⟨profile, m, hp, hl, hm, hm'⟩ := h.lengths
  obtain ⟨hn, rfl⟩ := T.lengths_of hp hl
  exact ⟨hn, T.parse_frame_of_trailer hm hm' (Or.inl (hn ▸ h.freshnessLength_pos))⟩

/-- `frame` was sent for `payload` between `s` and `s₁`, when the counter stood at `L`. -/
def InFlight (D : Digests) (s s₁ : Stack) (p : String) (t : Transport) (L : Int)
    (payload frame : Bytes) : Prop :=
  ∃ s' : Stack, ∃ T : Transmission s' p payload t,
    Extends s s' ∧ Extends T.after s₁ ∧ T.lastValid = L ∧ T.frame D = frame

theorem InFlight.later {s₂ : Stack} {L : Int} {a frame : Bytes}
    (h : InFlight D s s₁ p t L a frame) (hx : Extends s₁ s₂) : InFlight D s s₂ p t L a frame := by
  obtain ⟨s', T, hs, h₁, hL, hf⟩ := h
  exact ⟨s', T, hs, h₁.trans hx, hL, hf⟩

theorem InFlight.accepted {L : Int} {a frame : Bytes} (h : InFlight D s s₁ p t L a frame)
    (hy : Synchronous s p t) (hL : lastValid s₁.nvm p = .ok L) :
    (s₁.receiveSecured D p frame t).1 = .ok (some (padded t a)) ∧
      (s₁.receiveSecured D p frame t).2.escalation = s₁.escalation ∧
      lastValid (s₁.receiveSecured D p frame t).2.nvm p = .ok (L + 1) := by
  -- the first frame to arrive is accepted, and moves the counter to the freshness value of all
  obtain ⟨s', T, hs, h₁, rfl, rfl⟩ := h
  have hy' := hy.later hs
  obtain ⟨hn, hparse⟩ := hy'.transmission (D := D) T
  have hx : Extends s' s₁ := T.extends_after.trans h₁
  have hy₁ := hy'.later hx
  have hnext : Residue.next T.lastValid T.wire s₁.freshnessManager.modulus = T.lastValid + 1 := by
    rw [hx.freshnessManager, T.wire_cast, hn]
    exact (next_succ_iff _ _ _).mpr (counterFits_self _ _)
  obtain ⟨A, hpay, hcounter⟩ := T.exists_acceptance h₁ hparse hL hnext hy₁.window_pos
  have hafter := A.lastValid_after
  rw [hcounter] at hafter
  refine ⟨?_, ?_, hafter⟩
  · rw [A.accepted hy₁.disk, hpay]
  · rw [A.accepted hy₁.disk]
    rfl

theorem InFlight.rejected {L : Int} {a frame : Bytes} (h : InFlight D s s₁ p t L a frame)
    (hy : Synchronous s p t) (hL : lastValid s₁.nvm p = .ok (L + 1)) :
    s₁.receiveSecured D p frame t = s₁.reject p .freshnessOutOfWindow := by
  obtain ⟨s', T, hs, h₁, rfl, rfl⟩ := h
  have hy' := hy.later hs
  obtain ⟨hn, hparse⟩ := hy'.transmission (D := D) T
  exact T.stale_rejected h₁ hparse hn hy'.window_lt hL

/-! The calls of a sender that sends payload after payload, and of the deliveries. -/

def burst (p : String) (t : Transport) (payloads : List Bytes) : List Call :=
  payloads.map fun a => .transmit p a t

def deliveries (p : String) (t : Transport) (frames : List Bytes) : List Call :=
  frames.map fun f => .receive p f t

theorem run_deliveries_cons (D : Digests) (s : Stack) (p : String) (t : Transport) (f : Bytes)
    (frames : List Bytes) : s.run D (deliveries p t (f :: frames)) =
      (s.receiveSecured D p f t).2.run D (deliveries p t frames) := rfl

theorem burst_inFlight {payloads frames : List Bytes}
    (h : (machine D).outputs s (burst p t payloads) =
      frames.map fun f => .transmitted (.ok f)) :
    (s.run D (burst p t payloads)).nvm = s.nvm ∧
      ∀ a f, (a, f) ∈ payloads.zip frames → ∃ L, lastValid s.nvm p = .ok L ∧
        InFlight D s (s.run D (burst p t payloads)) p t L a f := by
  induction payloads generalizing s frames with
  | nil => exact ⟨rfl, fun a f hmem => absurd hmem List.not_mem_nil⟩
  | cons a payloads ih =>
    cases frames with
    | nil => cases h
    | cons f frames =>
      obtain ⟨hf, hrest⟩ := List.cons.inj h
      have hsent : s.transmitSecured D p a t = (.ok f, (s.transmitSecured D p a t).2) :=
        Prod.ext (Outcome.transmitted.inj hf) rfl
      obtain ⟨T, rfl, hafter⟩ := Transmission.of_transmitSecured hsent
      have hrun : s.run D (burst p t (a :: payloads)) = T.after.run D (burst p t payloads) :=
        run_transmit T _
      have hrest' : (machine D).outputs T.after (burst p t payloads) =
          frames.map fun f => .transmitted (.ok f) := by
        rw [hafter]
        exact hrest
      obtain ⟨hnvm, hmem⟩ := ih hrest'
      rw [hrun]
      refine ⟨hnvm.trans T.after_fields.2.1, ?_⟩
      intro b g hb
      rcases List.mem_cons.mp hb with heq | hb
      · cases heq
        exact ⟨T.lastValid, T.counted, s, T, .refl s, run_extends _ _, rfl, rfl⟩
      · obtain ⟨L, hL, s', T', hs', hrest⟩ := hmem b g hb
        rw [T.after_fields.2.1] at hL
        exact ⟨L, hL, s', T', T.extends_after.trans hs', hrest⟩

theorem deliveries_rejected {L : Int} {ds : List (Bytes × Bytes)} (hy : Synchronous s p t)
    (hds : ∀ d ∈ ds, InFlight D s s₁ p t L d.1 d.2) (hL : lastValid s₁.nvm p = .ok (L + 1)) :
    (machine D).outputs s₁ (deliveries p t (ds.map Prod.snd)) =
        ds.map (fun _ => .received (.ok none)) ∧
      (s₁.run D (deliveries p t (ds.map Prod.snd))).escalation =
        s₁.escalation.rejects (ds.map fun _ => (p, .freshnessOutOfWindow)) := by
  -- once the counter has moved, every frame of the burst is rejected
  induction ds generalizing s₁ with
  | nil => exact ⟨rfl, rfl⟩
  | cons d ds ih =>
    have hr := (hds d List.mem_cons_self).rejected hy hL
    have hx := receiveSecured_extends (D := D) (s := s₁) p d.2 t
    have hafter : (s₁.receiveSecured D p d.2 t).2 =
        { s₁ with escalation := s₁.escalation.reject p .freshnessOutOfWindow } := by
      rw [hr]
      rfl
    have hL' : lastValid (s₁.receiveSecured D p d.2 t).2.nvm p = .ok (L + 1) := by
      rw [hafter]
      exact hL
    have hds' : ∀ d' ∈ ds, InFlight D s (s₁.receiveSecured D p d.2 t).2 p t L d'.1 d'.2 :=
      fun d' hd' => (hds d' (List.mem_cons_of_mem d hd')).later hx
    obtain ⟨hout, hesc⟩ := ih hds' hL'
    constructor
    · refine List.cons_eq_cons.mpr ⟨?_, hout⟩
      change Outcome.received (s₁.receiveSecured D p d.2 t).1 = _
      rw [hr]
      rfl
    · rw [List.map_cons, run_deliveries_cons, hesc, hafter]
      rfl

theorem burst_frame {payloads frames : List Bytes} (hy : Synchronous s p t)
    (hs : (machine D).outputs s (burst p t payloads) =
      frames.map fun f => .transmitted (.ok f)) {a f : Bytes} (haf : (a, f) ∈ payloads.zip frames) :
    ∃ L mac, lastValid s.nvm p = .ok L ∧
      f = region (padded t a) (L + 1) s.freshnessManager.freshnessLength ++ mac := by
  obtain ⟨L, hL, s', T, hs', -, rfl, rfl⟩ := (burst_inFlight hs).2 a f haf
  obtain ⟨hn, -⟩ := (hy.later hs').transmission (D := D) T
  refine ⟨T.lastValid, T.tag D (padded t a) (T.lastValid + 1), hL, ?_⟩
  rw [← hs'.freshnessManager, ← hn]
  rfl

theorem burst_delivered {payloads frames : List Bytes} (hy : Synchronous s p t)
    (hs : (machine D).outputs s (burst p t payloads) =
      frames.map fun f => .transmitted (.ok f)) {a f : Bytes} {ds : List (Bytes × Bytes)}
    (hsub : ((a, f) :: ds).Sublist (payloads.zip frames)) :
    (machine D).outputs (s.run D (burst p t payloads)) (deliveries p t (f :: ds.map Prod.snd)) =
        .received (.ok (some (padded t a))) :: ds.map (fun _ => .received (.ok none)) ∧
      (s.run D (burst p t payloads ++ deliveries p t (f :: ds.map Prod.snd))).escalation =
        (s.run D (burst p t payloads)).escalation.rejects
          (ds.map fun _ => (p, .freshnessOutOfWindow)) := by
  obtain ⟨hnvm, hmem⟩ := burst_inFlight hs
  obtain ⟨L, hL, hin⟩ := hmem a f (hsub.subset List.mem_cons_self)
  obtain ⟨hok, hesc, hL'⟩ := hin.accepted hy (hnvm ▸ hL)
  have hx := receiveSecured_extends (D := D) (s := s.run D (burst p t payloads)) p f t
  have hds : ∀ d ∈ ds, InFlight D s
      ((s.run D (burst p t payloads)).receiveSecured D p f t).2 p t L d.1 d.2 := by
    intro d hd
    obtain ⟨L₂, hL₂, hin₂⟩ := hmem d.1 d.2 (hsub.subset (List.mem_cons_of_mem _ hd))
    rw [lastValid_inj hL hL₂]
    exact hin₂.later hx
  obtain ⟨hout, hrej⟩ := deliveries_rejected hy hds hL'
  constructor
  · exact List.cons_eq_cons.mpr ⟨congrArg Outcome.received hok, hout⟩
  · rw [run_append, run_deliveries_cons, hrej, hesc]

/-- Of the frames sent in a burst, which all carry the freshness value after the last valid one,
the first one delivered returns its own payload, and all later ones are out of the window. -/
theorem burst_first_accepted (D : Digests) {s : Stack} {p : String} {t : Transport}
    (hy : Synchronous s p t) {payloads frames : List Bytes}
    (hs : (machine D).outputs s (burst p t payloads) =
      frames.map fun f => .transmitted (.ok f)) :
    (∀ a f, (a, f) ∈ payloads.zip frames → ∃ L mac, lastValid s.nvm p = .ok L ∧
      f = region (padded t a) (L + 1) s.freshnessManager.freshnessLength ++ mac) ∧
    ∀ a f ds, ((a, f) :: ds).Sublist (payloads.zip frames) →
      (machine D).outputs (s.run D (burst p t payloads))
          (deliveries p t (f :: ds.map Prod.snd)) =
        .received (.ok (some (padded t a))) :: ds.map (fun _ => .received (.ok none)) ∧
      (s.run D (burst p t payloads ++ deliveries p t (f :: ds.map Prod.snd))).escalation =
        (s.run D (burst p t payloads)).escalation.rejects
          (ds.map fun _ => (p, .freshnessOutOfWindow)) :=
  ⟨fun _ _ haf => burst_frame hy hs haf, fun _ _ _ hsub => burst_delivered hy hs hsub⟩

theorem exists_burst (R : MacReady s p t) {L : Int} (hL : lastValid s.nvm p = .ok L)
    (payloads : List Bytes)
    (ha : ∀ a ∈ payloads, t = .classicCan → a.length ≤ classicCanPayloadBytes) :
    ∃ frames : List Bytes, frames.length = payloads.length ∧
      (machine D).outputs s (burst p t payloads) = frames.map fun f => .transmitted (.ok f) := by
  induction payloads generalizing s with
  | nil => exact ⟨[], rfl, rfl⟩
  | cons a payloads ih =>
    let T : Transmission s p a t := ⟨R, ha a List.mem_cons_self, L, hL⟩
    obtain ⟨R', -⟩ := R.exists_transfer T.extends_after
    obtain ⟨frames, hlen, hout⟩ := ih R' T.counted_after fun b hb =>
      ha b (List.mem_cons_of_mem a hb)
    refine ⟨T.frame D :: frames, congrArg (· + 1) hlen, ?_⟩
    have hstep : s.call D (.transmit p a t) = (.transmitted (.ok (T.frame D)), T.after) := by
      rw [call, T.transmitSecured_eq]
    change (s.call D (.transmit p a t)).1 ::
      (machine D).outputs (s.call D (.transmit p a t)).2 (burst p t payloads) = _
    rw [hstep, hout]
    rfl

theorem shipped_synchronous (urandom : Nat → Bytes) :
    Synchronous (shipped urandom) "PDU_0x100" .canFd where
  lengths := ⟨shippedProfile "PDU_0x100", 8, shipped_profile urandom, rfl, by decide, by decide⟩
  window_pos := show (1 : Int) ≤ 16 by decide
  window_lt := show (16 : Int) < 2 ^ (2 * 8) by decide
  disk := rfl

theorem burst_first_accepted_shipped : ∃ f g,
    (machine .standard).outputs (shipped (toBytesBE 32)) (burst "PDU_0x100" .canFd [[1], [2]]) =
      [.transmitted (.ok f), .transmitted (.ok g)] ∧
    (machine .standard).outputs
        ((shipped (toBytesBE 32)).run .standard (burst "PDU_0x100" .canFd [[1], [2]]))
        (deliveries "PDU_0x100" .canFd [g]) = [.received (.ok (some [2]))] := by
  obtain ⟨frames, hlen, hs⟩ := exists_burst (D := .standard) (shippedReady (toBytesBE 32) .canFd)
    (shipped_counted _) [[1], [2]] (fun _ _ h => by cases h)
  obtain ⟨f, g, rfl⟩ := List.length_eq_two.mp hlen
  have h := burst_first_accepted .standard (shipped_synchronous (toBytesBE 32)) hs
  exact ⟨f, g, hs, (h.2 [2] g [] (List.Sublist.cons _ (List.Sublist.refl _))).1⟩

theorem burst_second_rejected : ∃ f g,
    (machine .standard).outputs (shipped (toBytesBE 32)) (burst "PDU_0x100" .canFd [[1], [2]]) =
      [.transmitted (.ok f), .transmitted (.ok g)] ∧
    (machine .standard).outputs
        ((shipped (toBytesBE 32)).run .standard (burst "PDU_0x100" .canFd [[1], [2]]))
        (deliveries "PDU_0x100" .canFd [f, g]) =
      [.received (.ok (some [1])), .received (.ok none)] := by
  -- two frames sent before either is delivered, well within the window of 16: the second is
  -- rejected
  obtain ⟨frames, hlen, hs⟩ := exists_burst (D := .standard) (shippedReady (toBytesBE 32) .canFd)
    (shipped_counted _) [[1], [2]] (fun _ _ h => by cases h)
  obtain ⟨f, g, rfl⟩ := List.length_eq_two.mp hlen
  exact ⟨f, g, hs, (burst_delivered (shipped_synchronous (toBytesBE 32)) hs
    (List.Sublist.refl _)).1⟩

end Stack
end SecOC
