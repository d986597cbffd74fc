import SecOC.Sim.EcuLifecycle

/-! The books of a receiving ECU: every frame of a managed PDU that reaches it is counted once,
and its handlers get exactly the payloads that were authenticated. -/

namespace SecOC
open Py

def ReceiverECU.countAccepted (r : ReceiverECU) (pduId : String) (payload : Bytes) :
    ReceiverECU :=
  { r with rxAcceptedCount := r.rxAcceptedCount.set pduId (r.rxAcceptedCount.getD pduId 0 + 1)
           delivered := if pduId ∈ r.signalHandlers
             then r.delivered ++ [(pduId, payload)] else r.delivered }

namespace ReceiverNode
variable {D : Digests}

inductive Routed (e : EcuPair) (p : String) :
    Except PyError Bool → Option Bytes → EcuPair → Prop
  | unregistered : Routed e p (.ok false) none e
  | unmanaged (hp : p ∉ e.receiver.managedPduIds) : Routed e p (.ok true) none e
  | raised (err : PyError) (s : Stack) : Routed e p (.error err) none { e with stack := s }
  | rejected (hp : p ∈ e.receiver.managedPduIds) (s : Stack) :
    Routed e p (.ok true) none
      { e with stack := s, receiver := EcuPair.countRejected e.receiver p }
  | accepted (hp : p ∈ e.receiver.managedPduIds) (s : Stack) (a : Bytes) :
    Routed e p (.ok true) (some a) { e with stack := s, receiver := e.receiver.countAccepted p a }

theorem routed (e : EcuPair) (p : String) (f : Bytes) :
    Routed e p (e.routeFromBus D p f).1 (authenticated D e p f) (e.routeFromBus D p f).2 := by
  unfold EcuPair.routeFromBus authenticated
  by_cases hr : e.rxRouter.ecuId ∈ e.rxRouter.registeredEcus
  · rw [if_neg (not_not.mpr hr)]
    unfold EcuPair.onFrameReceived
    by_cases hp : p ∈ e.receiver.managedPduIds
    · rw [if_neg (not_not.mpr hp)]
      by_cases hs : e.state = .normalOperation
      · rw [if_neg (not_not.mpr hs), if_pos ⟨hr, hp, hs⟩]
        rcases e.stack.receiveSecured D p f .canFd with ⟨err | _ | a, s⟩
        · exact .raised err s
        · exact .rejected hp s
        · exact .accepted hp s a
      · rw [if_pos hs, if_neg fun h => hs h.2.2]
        exact .rejected hp e.stack
    · rw [if_pos hp, if_neg fun h => hp h.2.1]
      exact .unmanaged hp
  · rw [if_pos hr, if_neg fun h => hr h.1]
    exact .unregistered

theorem routeFromBus_stack (e : EcuPair) (p : String) (f : Bytes)
    (h : p ∉ e.receiver.managedPduIds ∨ e.state ≠ .normalOperation) :
    (e.routeFromBus D p f).2.stack = e.stack := by
  unfold EcuPair.routeFromBus
  split
  · rfl
  · unfold EcuPair.onFrameReceived
    by_cases hp : p ∈ e.receiver.managedPduIds
    · rw [if_neg (not_not.mpr hp), if_pos (h.resolve_left (not_not.mpr hp))]
    · rw [if_pos hp]

theorem routeFromBus_true {e : EcuPair} {p : String} {f : Bytes}
    (hr : e.rxRouter.ecuId ∈ e.rxRouter.registeredEcus)
    (h : e.state = .normalOperation →
      ∀ err, (e.stack.receiveSecured D p f .canFd).1 ≠ .error err) :
    (e.routeFromBus D p f).1 = .ok true := by
  unfold EcuPair.routeFromBus EcuPair.onFrameReceived
  rw [if_neg (not_not.mpr hr)]
  by_cases hp : p ∈ e.receiver.managedPduIds
  · rw [if_neg (not_not.mpr hp)]
    by_cases hs : e.state = .normalOperation
    · rw [if_neg (not_not.mpr hs)]
      have hreturns := h hs
      revert hreturns
      rcases e.stack.receiveSecured D p f .canFd with ⟨err | _ | a, s⟩
      · exact fun hreturns => absurd rfl (hreturns err)
      · exact fun _ => rfl
      · exact fun _ => rfl
    · rw [if_pos hs]
  · rw [if_pos hp]

namespace Event

def routed (p : String) : Event → Bool
  | .frame q (.ok true) _ => q = p
  | _ => false

def authenticatedFor (p : String) : Event → Option Bytes
  | .frame q _ a => if q = p then a else none
  | _ => none

end Event

def deliveries (r : ReceiverECU) (p : String) : List Bytes :=
  (r.delivered.filter fun d => d.1 = p).map Prod.snd

structure Books (managed handlers : List String) (events : List Event) (r : ReceiverECU) :
    Prop where
  managedPduIds : r.managedPduIds = managed
  signalHandlers : r.signalHandlers = handlers
  accepted : ∀ p, r.rxAcceptedCount.getD p 0 = (events.filterMap (Event.authenticatedFor p)).length
  counted : ∀ p ∈ managed, r.rxAcceptedCount.getD p 0 + r.rxRejectedCount.getD p 0 =
    events.countP (Event.routed p)
  unmanaged : ∀ p, p ∉ managed → r.rxAcceptedCount.get? p = none ∧ r.rxRejectedCount.get? p = none
  delivered : ∀ p ∈ handlers, deliveries r p = events.filterMap (Event.authenticatedFor p)

section Books
variable {managed handlers : List String} {events : List Event} {r : ReceiverECU}

theorem payloads_snoc {v : Event} {p : String} (hv : v.authenticatedFor p = none) :
    (events ++ [v]).filterMap (Event.authenticatedFor p) =
      events.filterMap (Event.authenticatedFor p) := by
  rw [Mealy.filterMap_snoc, hv, Option.toList_none, List.append_nil]

theorem Books.quiet (h : Books managed handlers events r) {v : Event}
    (hrouted : ∀ p ∈ managed, v.routed p = false) (hauth : ∀ p, v.authenticatedFor p = none) :
    Books managed handlers (events ++ [v]) r := by
  refine { h with accepted := ?_, counted := ?_, delivered := ?_ }
  · intro p
    rw [payloads_snoc (hauth p)]
    exact h.accepted p
  · intro p hp
    rw [List.countP_append, List.countP_singleton, hrouted p hp]
    exact h.counted p hp
  · intro p hp
    rw [payloads_snoc (hauth p)]
    exact h.delivered p hp

theorem Books.countRejected (h : Books managed handlers events r) {q : String}
    (hq : q ∈ managed) :
    Books managed handlers (events ++ [.frame q (.ok true) none])
      (EcuPair.countRejected r q) := by
  have hauth : ∀ p, (Event.frame q (.ok true) none).authenticatedFor p = none :=
    fun p => ite_self _
  refine ⟨h.managedPduIds, h.signalHandlers, ?_, ?_, ?_, ?_⟩
  · intro p
    rw [payloads_snoc (hauth p)]
    exact h.accepted p
  · intro p hp
    rw [List.countP_append, List.countP_singleton, ← h.counted p hp, EcuPair.countRejected]
    by_cases hpq : q = p
    · subst hpq
      simp [Event.routed, Nat.add_assoc]
    · simp [Event.routed, hpq, Dict.getD_set_ne _ _ _ (Ne.symm hpq)]
  · intro p hp
    have hpq : p ≠ q := fun heq => hp (heq ▸ hq)
    exact ⟨(h.unmanaged p hp).1, (Dict.get?_set_ne _ _ hpq).trans (h.unmanaged p hp).2⟩
  · intro p hp
    rw [payloads_snoc (hauth p)]
    exact h.delivered p hp

theorem Books.countAccepted (h : Books managed handlers events r) {q : String}
    (hq : q ∈ managed) (a : Bytes) :
    Books managed handlers (events ++ [.frame q (.ok true) (some a)])
      (r.countAccepted q a) := by
  have hself : (events ++ [Event.frame q (.ok true) (some a)]).filterMap
      (Event.authenticatedFor q) = events.filterMap (Event.authenticatedFor q) ++ [a] := by
    rw [Mealy.filterMap_snoc, Event.authenticatedFor, if_pos rfl, Option.toList_some]
  have hother : ∀ p, p ≠ q → (events ++ [Event.frame q (.ok true) (some a)]).filterMap
      (Event.authenticatedFor p) = events.filterMap (Event.authenticatedFor p) :=
    fun p hpq => payloads_snoc (if_neg (Ne.symm hpq))
  refine ⟨h.managedPduIds, h.signalHandlers, ?_, ?_, ?_, ?_⟩
  · intro p
    by_cases hpq : p = q
    · subst hpq
      rw [hself, List.length_append, ← h.accepted p]
      exact Dict.getD_set_self _ _ _ _
    · rw [hother p hpq, ← h.accepted p]
      exact Dict.getD_set_ne _ _ _ hpq
  · intro p hp
    rw [List.countP_append, List.countP_singleton, ← h.counted p hp, ReceiverECU.countAccepted]
    by_cases hpq : q = p
    · subst hpq
      simp [Event.routed, Nat.add_right_comm]
    · simp [Event.routed, hpq, Dict.getD_set_ne _ _ _ (Ne.symm hpq)]
  · intro p hp
    have hpq : p ≠ q := fun heq => hp (heq ▸ hq)
    exact ⟨(Dict.get?_set_ne _ _ hpq).trans (h.unmanaged p hp).1, (h.unmanaged p hp).2⟩
  · intro p hp
    simp only [deliveries, ReceiverECU.countAccepted, h.signalHandlers]
    by_cases hpq : p = q
    · subst hpq
      rw [hself, if_pos hp, List.filter_append, List.map_append, ← h.delivered p hp]
      simp [deliveries]
    · rw [hother p hpq, ← h.delivered p hp]
      split
      · rw [List.filter_append, List.filter_cons_of_neg (by simpa using Ne.symm hpq)]
        simp [deliveries]
      · rfl

end Books

theorem get?_zeroCounts (pduIds : List String) (p : String) :
    (EcuPair.zeroCounts pduIds).get? p = if p ∈ pduIds then some 0 else none := by
  induction pduIds using List.reverseRecOn with
  | nil => rfl
  | append_singleton pduIds q ih =>
    have hset : EcuPair.zeroCounts (pduIds ++ [q]) = (EcuPair.zeroCounts pduIds).set q 0 := by
      rw [EcuPair.zeroCounts, List.map_append, Dict.ofItems, List.foldl_append]
      rfl
    rw [hset, Dict.get?_set, ih]
    by_cases hpq : p = q <;> simp [hpq]

theorem getD_zeroCounts (pduIds : List String) (p : String) :
    (EcuPair.zeroCounts pduIds).getD p 0 = 0 := by
  rw [Dict.getD, get?_zeroCounts]
  split <;> rfl

theorem Books.step {managed handlers : List String} {events : List Event} {n : ReceiverNode}
    (h : Books managed handlers events n.pair.receiver) (op : Op) :
    Books managed handlers (events ++ [(n.step D op).1]) (n.step D op).2.pair.receiver := by
  cases op with
  | frame p f =>
    simp only [ReceiverNode.step]
    have hrouted := routed (D := D) n.pair p f
    revert hrouted
    generalize (n.pair.routeFromBus D p f).1 = returned
    generalize (n.pair.routeFromBus D p f).2 = e
    generalize authenticated D n.pair p f = auth
    intro hrouted
    cases hrouted with
    | unregistered => exact h.quiet (fun _ _ => rfl) fun _ => ite_self _
    | unmanaged hp =>
      rw [h.managedPduIds] at hp
      exact h.quiet (fun q hq => decide_eq_false fun hpq => hp (hpq ▸ hq)) fun _ => ite_self _
    | raised err s => exact h.quiet (fun _ _ => rfl) fun _ => ite_self _
    | rejected hp s => exact h.countRejected (h.managedPduIds ▸ hp)
    | accepted hp s a => exact h.countAccepted (h.managedPduIds ▸ hp) a
  | onStartup =>
    have hsame : (n.step D .onStartup).2.pair.receiver = n.pair.receiver := by
      simp only [ReceiverNode.step, ReceiverNode.onStartup]
      split <;> rfl
    rw [hsame]
    exact h.quiet (fun _ _ => rfl) fun _ => rfl
  | onReset =>
    have hsame : (n.step D .onReset).2.pair.receiver = n.pair.receiver := by
      simp only [ReceiverNode.step, ReceiverNode.onReset]
      split <;> rfl
    rw [hsame]
    exact h.quiet (fun _ _ => rfl) fun _ => rfl
  | shutdown => exact h.quiet (fun _ _ => rfl) fun _ => rfl
  | environment s => exact h.quiet (fun _ _ => rfl) fun _ => rfl

theorem books_exec (ecuId : String) (stack : Stack) (router : PduRouter)
    (managed handlers : List String) (ops : List Op) :
    Books managed handlers
      ((machine D).outputs (new ecuId stack router managed handlers) ops)
      ((machine D).exec (new ecuId stack router managed handlers) ops).pair.receiver := by
  induction ops using List.reverseRecOn with
  | nil =>
    refine ⟨rfl, rfl, getD_zeroCounts managed, ?_, ?_, fun _ _ => rfl⟩
    · intro p _
      exact congrArg₂ (· + ·) (getD_zeroCounts managed p) (getD_zeroCounts managed p)
    · intro p hp
      have hnone := (get?_zeroCounts managed p).trans (if_neg hp)
      exact ⟨hnone, hnone⟩
  | append_singleton ops op ih =>
    rw [Mealy.exec_snoc, Mealy.outputs_append]
    exact ih.step op

/-- **Receiver accounting.** For each managed PDU the two counters add up to the frames that were
routed, and its handler got exactly the authenticated payloads, in order; a frame of another PDU
or outside normal operation does not touch the stack; and a registered ECU is routed every frame
that its stack does not raise at. -/
theorem receiver_accounts (D : Digests) (ecuId : String) (stack : Stack) (router : PduRouter)
    (managed handlers : List String) (ops : List Op) :
    let n := (machine D).exec (new ecuId stack router managed handlers) ops
    let events := (machine D).outputs (new ecuId stack router managed handlers) ops
    (∀ p ∈ managed, n.pair.receiver.rxAcceptedCount.getD p 0 +
        n.pair.receiver.rxRejectedCount.getD p 0 = events.countP (Event.routed p)) ∧
      (∀ p, p ∉ managed → n.pair.receiver.rxAcceptedCount.get? p = none ∧
        n.pair.receiver.rxRejectedCount.get? p = none) ∧
      (∀ p ∈ handlers, deliveries n.pair.receiver p =
          events.filterMap (Event.authenticatedFor p) ∧
        (deliveries n.pair.receiver p).length = n.pair.receiver.rxAcceptedCount.getD p 0) ∧
      (∀ p f, p ∉ managed ∨ n.pair.state ≠ .normalOperation →
        (n.step D (.frame p f)).2.pair.stack = n.pair.stack) ∧
      ∀ p f, n.pair.rxRouter.ecuId ∈ n.pair.rxRouter.registeredEcus →
        (n.pair.state = .normalOperation →
          ∀ err, (n.pair.stack.receiveSecured D p f .canFd).1 ≠ .error err) →
        (n.step D (.frame p f)).1.routed p = true := by
  intro n events
  have hbooks := books_exec (D := D) ecuId stack router managed handlers ops
  refine ⟨hbooks.counted, hbooks.unmanaged, ?_, ?_, ?_⟩
  · intro p hp
    refine ⟨hbooks.delivered p hp, ?_⟩
    rw [hbooks.delivered p hp, hbooks.accepted p]
  · intro p f h
    exact routeFromBus_stack _ p f (h.imp_left fun hp => hbooks.managedPduIds.symm ▸ hp)
  · intro p f hr hreturns
    simp only [ReceiverNode.step, Event.routed, routeFromBus_true hr hreturns, decide_true]

end ReceiverNode
end SecOC
