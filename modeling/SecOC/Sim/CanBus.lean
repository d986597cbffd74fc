import SecOC.Sim.Base

/-! The shared bus: a delivery queue and the last frame seen of each PDU. -/

namespace SecOC
open Py

structure CanBus where
  running : Bool
  lastFrames : Dict String Bytes
  queue : List (String × Bytes)

namespace CanBus

def start (_ : CanBus) : CanBus := { running := true, lastFrames := Dict.empty, queue := [] }

def publish (b : CanBus) (pduId : String) (data : Bytes) : CanBus :=
  { b with lastFrames := b.lastFrames.set pduId data, queue := b.queue ++ [(pduId, data)] }

def getLast (b : CanBus) (pduId : String) : Option Bytes := b.lastFrames.get? pduId

def consume (b : CanBus) : Option (String × Bytes) × CanBus :=
  match b.queue with
  | [] => (none, b)
  | f :: fs => (some f, { b with queue := fs })

theorem getLast_publish (b : CanBus) (pduId : String) (data : Bytes) (q : String) :
    (b.publish pduId data).getLast q = if q = pduId then some data else b.getLast q :=
  Dict.get?_set _ _ _ _

end CanBus
end SecOC
