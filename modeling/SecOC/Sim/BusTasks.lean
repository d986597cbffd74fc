import SecOC.Lib.Runs
import SecOC.Sim.Attacks
import SecOC.Sim.Ecu

/-! Senders and receivers on one bus as tasks of an event loop. A receiver that finds the bus
empty sleeps once and then asks again; anything may run in between. -/

namespace SecOC
open Py

/-- The bus with the `receive_frame` calls that are asleep between their two attempts. -/
structure BusTasks where
  bus : CanBus
  asleep : List Nat

inductive BusOp
  | sendFrame (i : CanInterface) (pduId : String) (data : Bytes)
  | inject (pduId : String) (data : Bytes)
  | routeToBus (r : PduRouter) (pduId : String) (data : Bytes)
  | receiveFrame (task : Nat)
  | wake (task : Nat)

inductive BusEvent
  | sent (pduId : String) (data : Bytes) (returned : Except PyError Unit)
  | injected (pduId : String) (data : Bytes)
  | routed (r : PduRouter) (pduId : String) (data : Bytes) (returned : Except PyError Unit)
  | slept (task : Nat)
  | received (task : Nat) (frame : Option (String × Bytes))
  /-- No such task can run. -/
  | idle

namespace BusTasks

def start (b : CanBus) : BusTasks := { bus := b.start, asleep := [] }

def beginReceive (t : BusTasks) (task : Nat) : BusEvent × BusTasks :=
  if task ∈ t.asleep then (.idle, t)
  else match t.bus.consume with
    | (some frame, bus) => (.received task (some frame), { t with bus := bus })
    | (none, bus) => (.slept task, { bus := bus, asleep := task :: t.asleep })

def wake (t : BusTasks) (task : Nat) : BusEvent × BusTasks :=
  if task ∈ t.asleep then
    (.received task t.bus.consume.1, { bus := t.bus.consume.2, asleep := t.asleep.erase task })
  else (.idle, t)

def step (t : BusTasks) : BusOp → BusEvent × BusTasks
  | .sendFrame i pduId data =>
    let (returned, bus) := i.sendFrame t.bus pduId data
    (.sent pduId data returned, { t with bus := bus })
  | .inject pduId data =>
    (.injected pduId data, { t with bus := MessageInjector.inject t.bus pduId data })
  | .routeToBus r pduId data =>
    let (returned, bus) := r.routeToBus t.bus pduId data
    (.routed r pduId data returned, { t with bus := bus })
  | .receiveFrame task => t.beginReceive task
  | .wake task => t.wake task

def machine : Mealy BusTasks BusOp BusEvent := ⟨step⟩

end BusTasks
end SecOC
