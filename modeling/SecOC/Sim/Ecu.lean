import SecOC.Sim.Stack

/-! A sending and a receiving ECU on one stack and one bus, with the transport layer between:
interfaces, routers, and the loop that empties the bus. -/

namespace SecOC
open Py

/-- `CanInterface`, and with other values `CanFdInterface`. -/
structure CanInterface where
  ecuId : String
  transport : String
  maxPayloadBytes : Nat
  deriving DecidableEq, Repr

namespace CanInterface

def classic (ecuId : String) : CanInterface :=
  { ecuId, transport := "CLASSIC_CAN", maxPayloadBytes := Config.canMaxPayloadBytes }

def fd (ecuId : String) : CanInterface :=
  { ecuId, transport := "CAN_FD", maxPayloadBytes := Config.canFdMaxPayloadBytes }

def sendFrame (i : CanInterface) (bus : CanBus) (pduId : String) (data : Bytes) :
    Except PyError Unit × CanBus :=
  if i.maxPayloadBytes < data.length then
    (.error (.payloadTooLargeError (s!"{i.transport}: payload of {data.length} bytes exceeds " ++
      s!"{i.maxPayloadBytes}-byte limit")), bus)
  else (.ok (), bus.publish pduId data)

theorem sendFrame_cases (i : CanInterface) (bus : CanBus) (p : String) (data : Bytes) :
    i.sendFrame bus p data = (.ok (), bus.publish p data) ∨
      ∃ e, i.sendFrame bus p data = (.error e, bus) := by
  unfold sendFrame
  split
  · exact .inr ⟨_, rfl⟩
  · exact .inl rfl

/-- An empty bus is asked a second time. -/
def receiveFrame (bus : CanBus) : Option (String × Bytes) × CanBus :=
  match bus.consume with
  | (none, bus) => bus.consume
  | (some frame, bus) => (some frame, bus)

end CanInterface

structure PduRouter where
  ecuId : String
  canIf : CanInterface
  canFdIf : Option CanInterface := none
  registeredEcus : List String := []
  deriving DecidableEq, Repr

namespace PduRouter

def registerEcu (r : PduRouter) (ecuId : String) : PduRouter :=
  { r with registeredEcus := ecuId :: r.registeredEcus }

def routeToBus (r : PduRouter) (bus : CanBus) (pduId : String) (securedPdu : Bytes) :
    Except PyError Unit × CanBus :=
  let size := securedPdu.length
  if size ≤ Config.canMaxPayloadBytes then r.canIf.sendFrame bus pduId securedPdu
  else match r.canFdIf with
    | some canFdIf =>
      if size ≤ Config.canFdMaxPayloadBytes then canFdIf.sendFrame bus pduId securedPdu
      else (.error (.payloadTooLargeError (s!"secured_pdu size {size} exceeds CAN FD capacity " ++
        s!"({Config.canFdMaxPayloadBytes})")), bus)
    | none => (.error (.payloadTooLargeError (s!"secured_pdu size {size} > " ++
        s!"{Config.canMaxPayloadBytes} and no " ++
        s!"CAN FD interface configured for ecu {r.ecuId}")), bus)

theorem routeToBus_cases (r : PduRouter) (bus : CanBus) (p : String) (data : Bytes) :
    (r.routeToBus bus p data = (.ok (), bus.publish p data) ∧
        data.length ≤ Config.canFdMaxPayloadBytes ∧
        (r.canFdIf = none → data.length ≤ Config.canMaxPayloadBytes)) ∨
      ∃ e, r.routeToBus bus p data = (.error e, bus) := by
  unfold routeToBus
  by_cases hsmall : data.length ≤ Config.canMaxPayloadBytes
  · rw [if_pos hsmall]
    rcases r.canIf.sendFrame_cases bus p data with h | h
    · exact .inl ⟨h, hsmall.trans (by decide), fun _ => hsmall⟩
    · exact .inr h
  · rw [if_neg hsmall]
    cases hfd : r.canFdIf with
    | none => exact .inr ⟨_, rfl⟩
    | some canFdIf =>
      by_cases hlen : data.length ≤ Config.canFdMaxPayloadBytes
      · simp only [if_pos hlen]
        rcases canFdIf.sendFrame_cases bus p data with h | h
        · exact .inl ⟨h, hlen, nofun⟩
        · exact .inr h
      · simp only [if_neg hlen]
        exact .inr ⟨_, rfl⟩

end PduRouter

structure SenderECU where
  managedPduIds : List String
  txCount : Dict String Nat

/-- `delivered` is what the registered handlers have been called with. -/
structure ReceiverECU where
  managedPduIds : List String
  signalHandlers : List String
  rxAcceptedCount : Dict String Nat
  rxRejectedCount : Dict String Nat
  delivered : List (String × Bytes)

structure EcuPair where
  stack : Stack
  txRouter : PduRouter
  rxRouter : PduRouter
  sender : SenderECU
  receiver : ReceiverECU

namespace EcuPair

def zeroCounts (pduIds : List String) : Dict String Nat := Dict.ofItems (pduIds.map fun p => (p, 0))

/-- `scenario_runner._build_ecu_pair`, with a handler registered for the PDU. -/
def build (stack : Stack) (pduId : String) : EcuPair where
  stack := stack
  txRouter := PduRouter.registerEcu
    { ecuId := "ECU_TX", canIf := .classic "ECU_TX", canFdIf := some (.fd "ECU_TX") } "ECU_TX"
  rxRouter := PduRouter.registerEcu { ecuId := "ECU_RX", canIf := .classic "ECU_RX" } "ECU_RX"
  sender := { managedPduIds := [pduId], txCount := zeroCounts [pduId] }
  receiver := { managedPduIds := [pduId], signalHandlers := [pduId]
                rxAcceptedCount := zeroCounts [pduId], rxRejectedCount := zeroCounts [pduId]
                delivered := [] }

variable (D : Digests)

def state (e : EcuPair) : EcuStateValue := e.stack.escalation.ecuState

def sendSignal (e : EcuPair) (pduId : String) (authenticPdu : Bytes) :
    Except PyError Bool × EcuPair :=
  if pduId ∉ e.sender.managedPduIds then
    (.error (.senderECUError s!"unmanaged_pdu_id: {pduId}"), e)
  else if e.state ≠ .normalOperation then (.ok false, e)
  else match e.stack.transmitSecured D pduId authenticPdu .canFd with
    | (.error err, stack) => (.error err, { e with stack := stack })
    | (.ok securedPdu, stack) =>
      -- a frame too long for the bus has used its MAC, but nothing else
      match e.txRouter.routeToBus stack.bus pduId securedPdu with
      | (.error err, bus) => (.error err, { e with stack := { stack with bus := bus } })
      | (.ok _, bus) => (.ok true, { e with
          stack := { stack with bus := bus }
          sender := { e.sender with
            txCount := e.sender.txCount.set pduId (e.sender.txCount.getD pduId 0 + 1) } })

def countRejected (r : ReceiverECU) (pduId : String) : ReceiverECU :=
  { r with rxRejectedCount := r.rxRejectedCount.set pduId (r.rxRejectedCount.getD pduId 0 + 1) }

def onFrameReceived (e : EcuPair) (pduId : String) (securedPdu : Bytes) :
    Except PyError Bool × EcuPair :=
  if pduId ∉ e.receiver.managedPduIds then (.ok false, e)
  -- the guard that the stack itself does not have
  else if e.state ≠ .normalOperation then
    (.ok false, { e with receiver := countRejected e.receiver pduId })
  else match e.stack.receiveSecured D pduId securedPdu .canFd with
    | (.error err, stack) => (.error err, { e with stack := stack })
    | (.ok none, stack) =>
      (.ok false, { e with stack := stack, receiver := countRejected e.receiver pduId })
    | (.ok (some authenticPdu), stack) => (.ok true, { e with
        stack := stack
        receiver := { e.receiver with
          rxAcceptedCount :=
            e.receiver.rxAcceptedCount.set pduId (e.receiver.rxAcceptedCount.getD pduId 0 + 1)
          delivered := if pduId ∈ e.receiver.signalHandlers
            then e.receiver.delivered ++ [(pduId, authenticPdu)] else e.receiver.delivered } })

def routeFromBus (e : EcuPair) (pduId : String) (securedPdu : Bytes) :
    Except PyError Bool × EcuPair :=
  if e.rxRouter.ecuId ∉ e.rxRouter.registeredEcus then (.ok false, e)
  else match e.onFrameReceived D pduId securedPdu with
    | (.error err, e) => (.error err, e)
    | (.ok _, e) => (.ok true, e)

/-- Takes frames off the bus and routes them until none is left, `n` steps at most. -/
def drain : Nat → EcuPair → Option (Except PyError Unit × EcuPair)
  | 0, _ => none
  | n + 1, e => match CanInterface.receiveFrame e.stack.bus with
    | (none, bus) => some (.ok (), { e with stack := { e.stack with bus := bus } })
    | (some (pduId, securedPdu), bus) =>
      match ({ e with stack := { e.stack with bus := bus } }).routeFromBus D pduId securedPdu with
      | (.error err, e) => some (.error err, e)
      | (.ok _, e) => drain n e

end EcuPair
end SecOC
