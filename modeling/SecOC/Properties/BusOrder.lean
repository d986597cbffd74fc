import SecOC.Properties.BusTraffic
import SecOC.Sim.BusTasks

/-! The bus keeps its order: what the receivers have taken and what still waits is, together,
what was published. -/

namespace SecOC
open Py

namespace BusEvent

def published : BusEvent → Option (String × Bytes)
  | sent p data (.ok _) => some (p, data)
  | injected p data => some (p, data)
  | routed _ p data (.ok _) => some (p, data)
  | _ => none

def taken : BusEvent → Option (String × Bytes)
  | received _ frame => frame
  | _ => none

end BusEvent

namespace BusTasks

def lastOf (p : String) (frames : List (String × Bytes)) : Option Bytes :=
  ((frames.filter fun f => f.1 = p).getLast?).map Prod.snd

theorem lastOf_snoc (p : String) (frames : List (String × Bytes)) (q : String) (data : Bytes) :
    lastOf p (frames ++ [(q, data)]) = if p = q then some data else lastOf p frames := by
  unfold lastOf
  rw [List.filter_append]
  by_cases hpq : p = q
  · subst hpq
    simp
  · rw [List.filter_cons_of_neg (by simpa using Ne.symm hpq), List.filter_nil, List.append_nil,
      if_neg hpq]

structure InStep (taken published : List (String × Bytes)) (bus : CanBus) : Prop where
  queue : taken ++ bus.queue = published
  last : ∀ p, bus.getLast p = lastOf p published

section InStep
variable {taken published : List (String × Bytes)} {bus : CanBus}

theorem InStep.publish (h : InStep taken published bus) (p : String) (data : Bytes) :
    InStep taken (published ++ [(p, data)]) (bus.publish p data) := by
  refine ⟨?_, fun q => ?_⟩
  · rw [← h.queue, List.append_assoc]
    rfl
  · rw [CanBus.getLast_publish, lastOf_snoc, h.last]

theorem InStep.consume (h : InStep taken published bus) :
    InStep (taken ++ bus.consume.1.toList) published bus.consume.2 := by
  unfold CanBus.consume
  split
  · next hempty =>
    rw [Option.toList_none, List.append_nil]
    exact h
  · next f fs hq =>
    refine ⟨?_, h.last⟩
    rw [Option.toList_some, List.append_assoc, ← h.queue, hq]
    rfl

end InStep

theorem InStep.step {taken published : List (String × Bytes)} {t : BusTasks}
    (h : InStep taken published t.bus) (op : BusOp) :
    InStep (taken ++ (t.step op).1.taken.toList) (published ++ (t.step op).1.published.toList)
      (t.step op).2.bus := by
  have hquiet : InStep (taken ++ []) (published ++ []) t.bus := by
    rwa [List.append_nil, List.append_nil]
  cases op with
  | sendFrame i p data =>
    rcases i.sendFrame_cases t.bus p data with hsend | ⟨e, hsend⟩
    · simp only [BusTasks.step, hsend, BusEvent.taken, Option.toList_none, List.append_nil]
      exact h.publish p data
    · simp only [BusTasks.step, hsend]
      exact hquiet
  | inject p data =>
    simp only [BusTasks.step, BusEvent.taken, Option.toList_none, List.append_nil]
    exact h.publish p data
  | routeToBus r p data =>
    rcases r.routeToBus_cases t.bus p data with ⟨hroute, -⟩ | ⟨e, hroute⟩
    · simp only [BusTasks.step, hroute, BusEvent.taken, Option.toList_none, List.append_nil]
      exact h.publish p data
    · simp only [BusTasks.step, hroute]
      exact hquiet
  | receiveFrame task =>
    simp only [BusTasks.step, beginReceive]
    have hconsume := h.consume
    split
    · exact hquiet
    · split
      · next frame bus hframe =>
        rw [hframe] at hconsume
        simpa only [BusEvent.taken, BusEvent.published, Option.toList_none, List.append_nil]
          using hconsume
      · next bus hframe =>
        rw [hframe] at hconsume
        simpa only [BusEvent.taken, BusEvent.published, Option.toList_none, List.append_nil]
          using hconsume
  | wake task =>
    simp only [BusTasks.step, wake]
    split
    · simpa only [BusEvent.taken, BusEvent.published, Option.toList_none, List.append_nil]
        using h.consume
    · exact hquiet

theorem inStep_exec (b : CanBus) (ops : List BusOp) :
    InStep ((machine.outputs (start b) ops).filterMap BusEvent.taken)
      ((machine.outputs (start b) ops).filterMap BusEvent.published)
      (machine.exec (start b) ops).bus := by
  induction ops using List.reverseRecOn with
  | nil => exact ⟨rfl, fun _ => rfl⟩
  | append_singleton ops op ih =>
    rw [Mealy.exec_snoc, Mealy.outputs_append, Mealy.outputs, Mealy.outputs,
      Mealy.filterMap_snoc, Mealy.filterMap_snoc]
    exact ih.step op

theorem receive_uninterrupted {t : BusTasks} {task : Nat} (h : task ∉ t.asleep) :
    (machine.outputs t [.receiveFrame task, .wake task]).filterMap BusEvent.taken =
        (CanInterface.receiveFrame t.bus).1.toList ∧
      (machine.exec t [.receiveFrame task, .wake task]).bus =
        (CanInterface.receiveFrame t.bus).2 := by
  simp only [Mealy.outputs, Mealy.exec_cons, Mealy.exec_nil, machine, step, beginReceive, wake,
    if_neg h, CanInterface.receiveFrame]
  cases hc : t.bus.consume with
  | mk frame bus =>
    cases frame with
    | none =>
      simp only [List.mem_cons_self, if_true, BusEvent.taken]
      cases bus.consume.1 <;> exact ⟨rfl, trivial⟩
    | some f =>
      simp only [if_neg h, BusEvent.taken]
      exact ⟨rfl, trivial⟩

theorem receive_head {t : BusTasks} {f : String × Bytes} {fs : List (String × Bytes)}
    (hq : t.bus.queue = f :: fs) (task : Nat) :
    (task ∉ t.asleep → (t.step (.receiveFrame task)).1 = .received task (some f)) ∧
      (task ∈ t.asleep → (t.step (.wake task)).1 = .received task (some f)) := by
  have hconsume : t.bus.consume = (some f, { t.bus with queue := fs }) := by
    simp only [CanBus.consume, hq]
  constructor <;> intro htask
  · simp only [step, beginReceive, if_neg htask, hconsume]
  · simp only [step, wake, if_pos htask, hconsume]

/-- **Order on the bus.** Whatever the interleaving, the frames taken so far and the queue are
together the frames published, in order, an attempt to receive takes the head if there is one, and
the registry has the last frame of each PDU; a send that raises publishes nothing, and what a
router publishes fits its transports. -/
theorem bus_in_order (b : CanBus) (ops : List BusOp) :
    let t := machine.exec (start b) ops
    let published := (machine.outputs (start b) ops).filterMap BusEvent.published
    (machine.outputs (start b) ops).filterMap BusEvent.taken ++ t.bus.queue = published ∧
      (∀ task f fs, t.bus.queue = f :: fs →
        (task ∉ t.asleep → (t.step (.receiveFrame task)).1 = .received task (some f)) ∧
        (task ∈ t.asleep → (t.step (.wake task)).1 = .received task (some f))) ∧
      (∀ p, t.bus.getLast p = lastOf p published) ∧
      (∀ (i : CanInterface) p data e, (i.sendFrame t.bus p data).1 = .error e →
        (i.sendFrame t.bus p data).2 = t.bus) ∧
      ∀ (r : PduRouter) p data,
        (∀ e, (r.routeToBus t.bus p data).1 = .error e →
          (r.routeToBus t.bus p data).2 = t.bus) ∧
        ((r.routeToBus t.bus p data).1 = .ok () → data.length ≤ 64 ∧
          (r.canFdIf = none → data.length ≤ 8)) := by
  intro t published
  have h := inStep_exec b ops
  refine ⟨h.queue, fun task f fs hq => receive_head hq task, h.last, ?_, ?_⟩
  · intro i p data e he
    rcases i.sendFrame_cases t.bus p data with hsend | ⟨e', hsend⟩
    · rw [hsend] at he
      cases he
    · rw [hsend]
  · intro r p data
    rcases r.routeToBus_cases t.bus p data with ⟨hroute, hfd, hclassic⟩ | ⟨e', hroute⟩
    · rw [hroute]
      exact ⟨nofun, fun _ => ⟨hfd, hclassic⟩⟩
    · rw [hroute]
      exact ⟨fun _ _ => rfl, nofun⟩

end BusTasks
end SecOC
