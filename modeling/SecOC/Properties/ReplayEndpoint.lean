import SecOC.Api.Effects

/-! What the replay endpoint replays. It puts the captured frame at the tail of the bus queue and
takes the frame at its head, so both are the captured one only on a queue of nothing else. -/

namespace SecOC
open Py

namespace Stack
variable {D : Digests}

theorem receiveSecured_bus (s : Stack) (p : String) (frame : Bytes) (t : Transport) :
    (s.receiveSecured D p frame t).2.bus = s.bus ∨
      (s.receiveSecured D p frame t).2.bus = s.bus.publish p frame := by
  rcases isEmpty_or_nonempty (Acceptance D s p frame t) with h | ⟨⟨A⟩⟩
  · rcases receiveSecured_refused h with ⟨e, c, -, he⟩ | ⟨reason, c, -, -, he⟩ <;>
    · rw [he]
      exact Or.inl rfl
  · rw [A.receiveSecured_eq]
    split
    · exact Or.inl rfl
    · exact Or.inr rfl

end Stack

theorem eq_of_cons_sublist_append {α : Type*} {u f : α} {fs extra : List α}
    (hextra : ∀ x ∈ extra, x = u) (h : (f :: fs).Sublist (fs ++ extra)) :
    ∀ x ∈ f :: fs, x = u := by
  -- a queue that lost its head and gained only copies of `u` still holds all it held exactly if it
  -- held nothing else
  induction fs generalizing f with
  | nil =>
    intro x hx
    obtain rfl := List.mem_singleton.mp hx
    exact hextra x (List.singleton_sublist.mp h)
  | cons g gs ih =>
    have htail : ∀ x ∈ g :: gs, x = u := ih h.of_cons_cons
    intro x hx
    rcases List.mem_cons.mp hx with rfl | hx
    · rcases List.mem_append.mp (h.subset (List.mem_cons_self ..)) with hx | hx
      · exact htail x hx
      · exact hextra x hx
    · exact htail x hx

theorem cons_eq_concat_of_all {α : Type*} {u : α} {fs : List α} (h : ∀ x ∈ fs, x = u) :
    u :: fs = fs ++ [u] := by
  rw [List.eq_replicate_of_mem h, ← List.replicate_succ, List.replicate_succ']

namespace AppState
variable {D : Digests} (a : AppState) (p transport : String)

def capturedFrame : Option Bytes := a.captured.getD p none

def replayedFrame : Option Bytes :=
  (ReplayAttack.replay a.captured a.stack.bus p).consume.1.map Prod.snd

def noCapturedFrame : Response :=
  .httpException 404 (.text s!"no captured frame to replay for pdu_id '{p}'")

def replayQueue : List (String × Bytes) :=
  a.stack.bus.queue ++ (a.capturedFrame p).toList.map fun frame => (p, frame)

theorem replay_queue : (ReplayAttack.replay a.captured a.stack.bus p).queue = a.replayQueue p := by
  unfold ReplayAttack.replay replayQueue capturedFrame
  cases a.captured.getD p none with
  | none => exact (List.append_nil _).symm
  | some frame => rfl

theorem replayedFrame_eq : a.replayedFrame p = (a.replayQueue p).head?.map Prod.snd := by
  unfold replayedFrame CanBus.consume
  rw [replay_queue]
  cases a.replayQueue p <;> rfl

theorem consumed_queue :
    (ReplayAttack.replay a.captured a.stack.bus p).consume.2.queue = (a.replayQueue p).tail := by
  unfold CanBus.consume
  rw [replay_queue]
  cases h : a.replayQueue p with
  | nil => exact (a.replay_queue p).trans h
  | cons f fs => rfl

theorem replayReplay_none (h : a.replayedFrame p = none) :
    a.replayReplay D p transport = ({ response := noCapturedFrame p },
      a.withBus (ReplayAttack.replay a.captured a.stack.bus p).consume.2) := by
  unfold replayedFrame at h
  unfold replayReplay
  rcases hc : (ReplayAttack.replay a.captured a.stack.bus p).consume with ⟨_ | f, bus⟩
  · rfl
  · rw [hc] at h
    cases h

theorem replayReplay_some {frame : Bytes} (h : a.replayedFrame p = some frame) :
    a.replayReplay D p transport =
      (a.withBus (ReplayAttack.replay a.captured a.stack.bus p).consume.2).receiveSecured
        D p (toHex frame) transport := by
  unfold replayedFrame at h
  unfold replayReplay
  rcases hc : (ReplayAttack.replay a.captured a.stack.bus p).consume with ⟨_ | f, bus⟩
  · rw [hc] at h
    cases h
  · rw [hc] at h
    obtain rfl : f.2 = frame := Option.some.inj h
    rfl

/-- With a transport that exists the endpoint hands `receive_secured` exactly what was captured; it
refuses exactly when nothing was, and keeps the frames that were queued, in order. -/
structure ReplaysCaptured (D : Digests) (a : AppState) (p transport : String) : Prop where
  submits : ∀ t, parseTransport transport = .ok t →
    (a.replayReplay D p transport).1.made =
      (a.capturedFrame p).toList.map fun frame => .receive p frame t
  performs : ∃ bus, (a.replayReplay D p transport).1.calls =
    (Stack.machine D).outputs { a.stack with bus := bus } (a.replayReplay D p transport).1.made
  refuses : (a.replayReplay D p transport).1.response = noCapturedFrame p ↔
    a.capturedFrame p = none
  keeps : a.stack.bus.queue.Sublist (a.replayReplay D p transport).2.stack.bus.queue

theorem made_replayReplay {t : Transport} (ht : parseTransport transport = .ok t) :
    (a.replayReplay D p transport).1.made =
      (a.replayedFrame p).toList.map fun frame => .receive p frame t := by
  cases h : a.replayedFrame p with
  | none =>
    rw [replayReplay_none a p transport h]
    rfl
  | some frame =>
    rw [replayReplay_some a p transport h, receiveSecured, fromHex_toHex, ht]
    rfl

theorem receiveSecured_ne_noCapturedFrame (hex : String) :
    (a.receiveSecured D p hex transport).1.response ≠ noCapturedFrame p := by
  unfold receiveSecured noCapturedFrame refuse
  split
  · simp
  · split
    · simp
    · simp only
      split <;> simp

theorem queue_replayReplay_some {frame : Bytes} (h : a.replayedFrame p = some frame) :
    ∃ extra, (∀ x ∈ extra, x = (p, frame) ∧ ∃ t, parseTransport transport = .ok t) ∧
      (a.replayReplay D p transport).2.stack.bus.queue =
        (ReplayAttack.replay a.captured a.stack.bus p).consume.2.queue ++ extra := by
  -- only a frame that was submitted may be published once more
  rw [replayReplay_some a p transport h]
  cases hd : decodePdu p (toHex frame) transport with
  | none =>
    rw [(receiveSecured_none _ hd).2]
    exact ⟨[], List.forall_mem_nil _, (List.append_nil _).symm⟩
  | some call =>
    obtain ⟨q, b, t⟩ := call
    obtain ⟨rfl, hb, ht⟩ := decodePdu_some hd
    rw [fromHex_toHex] at hb
    cases hb
    rw [(receiveSecured_some _ hd).2]
    rcases Stack.receiveSecured_bus (D := D)
      (a.withBus (ReplayAttack.replay a.captured a.stack.bus p).consume.2).stack p frame t with
      hbus | hbus
    · rw [hbus]
      exact ⟨[], List.forall_mem_nil _, (List.append_nil _).symm⟩
    · rw [hbus]
      exact ⟨[(p, frame)], fun x hx => ⟨List.mem_singleton.mp hx, t, ht⟩, rfl⟩

theorem refuses_iff : (a.replayReplay D p transport).1.response = noCapturedFrame p ↔
    a.replayedFrame p = none := by
  cases h : a.replayedFrame p with
  | none => simp [replayReplay_none a p transport h]
  | some frame =>
    rw [replayReplay_some a p transport h]
    exact iff_of_false (receiveSecured_ne_noCapturedFrame _ p transport _) nofun

section OnlyCaptured
variable {frame : Bytes} (hc : a.capturedFrame p = some frame)
  (hall : ∀ f ∈ a.stack.bus.queue, f = (p, frame))
include hc hall

theorem replayedFrame_of_all : a.replayedFrame p = some frame := by
  rw [replayedFrame_eq, replayQueue, hc]
  cases hq : a.stack.bus.queue with
  | nil => rfl
  | cons f fs =>
    rw [hall f (hq ▸ List.mem_cons_self ..)]
    rfl

theorem queue_kept_of_all :
    a.stack.bus.queue.Sublist (a.replayReplay D p transport).2.stack.bus.queue := by
  have hreplayed : a.replayedFrame p = some frame := replayedFrame_of_all a p hc hall
  obtain ⟨extra, -, hafter⟩ := a.queue_replayReplay_some (D := D) p transport hreplayed
  rw [hafter, consumed_queue, replayQueue, hc]
  cases hq : a.stack.bus.queue with
  | nil => exact List.nil_sublist _
  | cons f fs =>
    rw [hq] at hall
    have hhead : f = (p, frame) := hall f (List.mem_cons_self ..)
    have hrest : ((f :: fs) ++ [(p, frame)]).tail = f :: fs := by
      rw [hhead]
      exact (cons_eq_concat_of_all fun x hx => hall x (List.mem_cons_of_mem _ hx)).symm
    change (f :: fs).Sublist (((f :: fs) ++ [(p, frame)]).tail ++ extra)
    rw [hrest]
    exact List.sublist_append_left _ _

end OnlyCaptured

/-- The endpoint replays what was captured if and only if the bus queue holds nothing but the
frame captured for the PDU. -/
theorem replaysCaptured_iff (D : Digests) (a : AppState) (p transport : String) :
    ReplaysCaptured D a p transport ↔ a.stack.bus.queue = [] ∨
      ∃ frame, a.capturedFrame p = some frame ∧ ∀ f ∈ a.stack.bus.queue, f = (p, frame) := by
  constructor
  · rintro ⟨hsubmits, -, hrefuses, hkeeps⟩
    rw [or_iff_not_imp_left]
    intro hne
    obtain ⟨f, fs, hq⟩ := List.exists_cons_of_ne_nil hne
    have hreplayed : a.replayedFrame p = some f.2 := by
      rw [replayedFrame_eq, replayQueue, hq]
      rfl
    obtain ⟨frame, hc⟩ : ∃ frame, a.capturedFrame p = some frame := by
      rw [← Option.ne_none_iff_exists', Ne, ← hrefuses, refuses_iff, hreplayed]
      nofun
    obtain ⟨extra, hextra, hafter⟩ := a.queue_replayReplay_some (D := D) p transport hreplayed
    have hsame : ∀ t, parseTransport transport = .ok t → f.2 = frame := by
      intro t ht
      have hmade := (a.made_replayReplay (D := D) p transport ht).symm.trans (hsubmits t ht)
      rw [hreplayed, hc] at hmade
      cases hmade
      rfl
    have hrest : (a.replayQueue p).tail = fs ++ [(p, frame)] := by
      rw [replayQueue, hq, hc]
      rfl
    rw [hafter, consumed_queue, hrest, hq, List.append_assoc] at hkeeps
    refine ⟨frame, hc, ?_⟩
    rw [hq]
    apply eq_of_cons_sublist_append _ hkeeps
    intro x hx
    rcases List.mem_cons.mp hx with rfl | hx
    · rfl
    · obtain ⟨rfl, t, ht⟩ := hextra x hx
      rw [hsame t ht]
  · intro hqueue
    have hreplayed : a.replayedFrame p = a.capturedFrame p := by
      rcases hqueue with hq | ⟨frame, hc, hall⟩
      · rw [replayedFrame_eq, replayQueue, hq]
        cases a.capturedFrame p <;> rfl
      · rw [hc, replayedFrame_of_all a p hc hall]
    refine ⟨fun t ht => ?_, a.request_made (.replayReplay p transport),
      (refuses_iff a p transport).trans (by rw [hreplayed]), ?_⟩
    · rw [made_replayReplay a p transport ht, hreplayed]
    · rcases hqueue with hq | ⟨frame, hc, hall⟩
      · rw [hq]
        exact List.nil_sublist _
      · exact queue_kept_of_all a p transport hc hall

theorem other_frame_replayed :
    let a := (shippedApp .standard (toBytesBE 32)).run .standard
      [.canSend "PDU_0x200" "ff", .canSend "PDU_0x100" "00", .replayCapture "PDU_0x100"]
    init .standard (shippedEnvironment (toBytesBE 32)) =
        .ok (shippedApp .standard (toBytesBE 32)) ∧
      a.capturedFrame "PDU_0x100" = some [0x00] ∧
      (a.replayReplay .standard "PDU_0x100" "CAN_FD").1.made =
        [.receive "PDU_0x100" [0xff] .canFd] ∧
      ¬ReplaysCaptured .standard a "PDU_0x100" "CAN_FD" := by
  -- a raw frame of another PDU is at the head of the queue, and is what gets replayed
  intro a
  have hmade : (a.replayReplay .standard "PDU_0x100" "CAN_FD").1.made =
      [.receive "PDU_0x100" [0xff] .canFd] := a.made_replayReplay "PDU_0x100" "CAN_FD" rfl
  refine ⟨init_shipped _ _, rfl, hmade, ?_⟩
  intro h
  have hsubmits := h.submits .canFd rfl
  rw [hmade] at hsubmits
  cases hsubmits

end AppState
end SecOC
