import SecOC.Lib.Runs
import SecOC.Sim.Stack

/-! Two ECUs with a stack of their own each, one sending a PDU to the other. Transmitting does not
move a counter and the receiver's counter is in another memory: the sender learns of it by
`reinitialize_window`, with a value the receiver has reported. -/

namespace SecOC
open Py FreshnessManager

/-- `network` and `reports` hold whatever was put on the way, in either direction. -/
structure Link where
  sender : Stack
  receiver : Stack
  network : List Bytes
  reports : List Int

/-- What can happen: the network delivers any bytes, and reports arrive in any order or not at
all. -/
inductive LinkOp
  | send (payload : Bytes)
  | deliver (securedPdu : Bytes)
  | report
  | resync (i : Nat)

inductive LinkEvent
  | sent (payload : Bytes) (returned : Except PyError Bytes)
  | received (returned : Except PyError (Option Bytes))
  | reported (lastValid : Except PyError Int)
  | resynced (returned : Except PyError Unit)
  /-- There is no such report. -/
  | idle

namespace Link
variable (D : Digests) (pduId : String) (transport : Transport)

def send (l : Link) (payload : Bytes) : LinkEvent × Link :=
  match l.sender.transmitSecured D pduId payload transport with
  | (.error e, sender) => (.sent payload (.error e), { l with sender := sender })
  | (.ok securedPdu, sender) => (.sent payload (.ok securedPdu),
      { l with sender := sender, network := l.network ++ [securedPdu] })

def deliver (l : Link) (securedPdu : Bytes) : LinkEvent × Link :=
  (.received (l.receiver.receiveSecured D pduId securedPdu transport).1,
    { l with receiver := (l.receiver.receiveSecured D pduId securedPdu transport).2 })

def report (l : Link) : LinkEvent × Link :=
  match lastValid l.receiver.nvm pduId with
  | .error e => (.reported (.error e), l)
  | .ok counter => (.reported (.ok counter), { l with reports := l.reports ++ [counter] })

def resync (l : Link) (i : Nat) : LinkEvent × Link :=
  match l.reports[i]? with
  | none => (.idle, l)
  | some counter =>
    let (returned, nvm) := reinitializeWindow l.sender.nvm pduId counter
    (.resynced returned, { l with sender := { l.sender with nvm := nvm } })

def step (l : Link) : LinkOp → LinkEvent × Link
  | .send payload => l.send D pduId transport payload
  | .deliver securedPdu => l.deliver D pduId transport securedPdu
  | .report => l.report pduId
  | .resync i => l.resync pduId i

def machine : Mealy Link LinkOp LinkEvent := ⟨step D pduId transport⟩

end Link

namespace LinkEvent

def sent? (transport : Transport) : LinkEvent → Option Bytes
  | .sent payload (.ok _) => some (Stack.padded transport payload)
  | _ => none

def accepted? : LinkEvent → Option Bytes
  | .received (.ok payload) => payload
  | _ => none

def isResync : LinkEvent → Bool
  | .resynced (.ok _) => true
  | _ => false

end LinkEvent

namespace Link

def sentOf (transport : Transport) (es : List LinkEvent) : List Bytes :=
  es.filterMap (LinkEvent.sent? transport)

def acceptedOf (es : List LinkEvent) : List Bytes := es.filterMap LinkEvent.accepted?

def resyncsOf (es : List LinkEvent) : Nat := es.countP LinkEvent.isResync

end Link
end SecOC
