import SecOC.Lib.Runs
import SecOC.Sim.Ecu

/-! The lifecycle of a receiving ECU, `sim/ecu_base.py`: it registers with its router on startup
and on a reset, and is taken off it on shutdown. -/

namespace SecOC
open Py

structure ECUBaseError where
  text : String
  deriving DecidableEq, Repr

def PduRouter.deregisterEcu (r : PduRouter) (ecuId : String) : PduRouter :=
  { r with registeredEcus := r.registeredEcus.filter (· ≠ ecuId) }

/-- The receiving ECU of a pair with what `ECUBase` keeps of it. -/
structure ReceiverNode where
  ecuId : String
  running : Bool
  pair : EcuPair

namespace ReceiverNode

def new (ecuId : String) (stack : Stack) (router : PduRouter)
    (managedPduIds handlers : List String) : ReceiverNode where
  ecuId := ecuId
  running := false
  pair :=
    { stack := stack
      txRouter := router
      rxRouter := { router with registeredEcus := [] }
      sender := { managedPduIds := [], txCount := Dict.empty }
      receiver := { managedPduIds := managedPduIds, signalHandlers := handlers
                    rxAcceptedCount := EcuPair.zeroCounts managedPduIds
                    rxRejectedCount := EcuPair.zeroCounts managedPduIds
                    delivered := [] } }

def register (n : ReceiverNode) : ReceiverNode :=
  { n with running := true
           pair := { n.pair with rxRouter := n.pair.rxRouter.registerEcu n.ecuId } }

def onStartup (n : ReceiverNode) : Except ECUBaseError Unit × ReceiverNode :=
  if n.running then (.error ⟨"already_running"⟩, n) else (.ok (), n.register)

def onReset (n : ReceiverNode) : ReceiverNode :=
  let n := { n with pair := { n.pair with stack := n.pair.stack.reset } }
  if n.running then n else n.register

def shutdown (n : ReceiverNode) : ReceiverNode :=
  { n with running := false
           pair := { n.pair with rxRouter := n.pair.rxRouter.deregisterEcu n.ecuId } }

/-- A turn: a frame offered to the router, a lifecycle call, or anything else that happens to the
stack the ECU shares, such as a lockout. -/
inductive Op
  | frame (pduId : String) (securedPdu : Bytes)
  | onStartup
  | onReset
  | shutdown
  | environment (stack : Stack)

inductive Event
  | frame (pduId : String) (returned : Except PyError Bool) (authenticated : Option Bytes)
  | lifecycle (returned : Except ECUBaseError Unit)
  | environment

variable (D : Digests)

def authenticated (e : EcuPair) (pduId : String) (securedPdu : Bytes) : Option Bytes :=
  if e.rxRouter.ecuId ∈ e.rxRouter.registeredEcus ∧ pduId ∈ e.receiver.managedPduIds ∧
      e.state = .normalOperation then
    (e.stack.receiveSecured D pduId securedPdu .canFd).1.toOption.join
  else none

def step (n : ReceiverNode) : Op → Event × ReceiverNode
  | .frame pduId securedPdu =>
    let (returned, pair) := n.pair.routeFromBus D pduId securedPdu
    (.frame pduId returned (authenticated D n.pair pduId securedPdu), { n with pair := pair })
  | .onStartup => (.lifecycle n.onStartup.1, n.onStartup.2)
  | .onReset => (.lifecycle (.ok ()), n.onReset)
  | .shutdown => (.lifecycle (.ok ()), n.shutdown)
  | .environment stack => (.environment, { n with pair := { n.pair with stack := stack } })

def machine : Mealy ReceiverNode Op Event := ⟨step D⟩

end ReceiverNode
end SecOC
