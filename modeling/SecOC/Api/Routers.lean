import SecOC.Api.State
import SecOC.Sim.StackRun

/-! The HTTP endpoints. An answer holds the response and, in order, the SecOC calls made on the way
and what they returned; the state carries on also where an endpoint raises. -/

namespace SecOC
open Py

inductive Detail
  | text (s : String)
  | exception (e : PyError)
  deriving DecidableEq, Repr

inductive Body
  | transmitResponse (pduId securedPduHex : String)
  | receiveResponse (pduId : String) (accepted : Bool) (authenticPduHex : Option String)
      (ecuState : String) (lockedOut : Bool)
  | queued (pduId : String)
  | captured (pduId capturedHex : String)
  | profile (entry : SecurityProfileEntry)
  | keyMetadata (metadata : KeyMetadata)
  | status (s : AppState.Status)
  deriving DecidableEq, Repr

/-- `serverError` is an exception no endpoint catches. -/
inductive Response
  | ok (body : Body)
  | httpException (statusCode : Nat) (detail : Detail)
  | serverError (e : PyError)
  deriving DecidableEq, Repr

structure Answer where
  response : Response
  calls : List Outcome := []
  made : List Call := []

inductive Request
  | transmitSecured (pduId payloadHex transport : String)
  | receiveSecured (pduId securedPduHex transport : String)
  | validateSecured (pduId securedPduHex transport : String)
  | canSend (pduId dataHex : String)
  | replayCapture (pduId : String)
  | replayReplay (pduId transport : String)
  | mitmTamper (pduId payloadHex transport : String)
  | forgeInject (pduId mode : String)
  | updateProfileVersion (pduId profileVersion : String)
  | provisionKey (pduId keyId : String)
  | rotateKey (pduId newKeyId : String)
  | resetEcu
  deriving DecidableEq, Repr

def Transport.value : Transport → String
  | .classicCan => "CLASSIC_CAN"
  | .canFd => "CAN_FD"

def Transport.all : List Transport := [.classicCan, .canFd]

def parseTransport (value : String) : Except Detail Transport :=
  match Transport.all.find? fun t => t.value = value with
  | some t => .ok t
  | none => .error (.text
      ("transport must be one of: " ++ ", ".intercalate (Transport.all.map Transport.value)))

def parseForgeMode (value : String) : Except Detail ForgeMode :=
  match ForgeMode.all.find? fun m => m.value = value with
  | some m => .ok m
  | none => .error (.text
      ("mode must be one of: " ++ ", ".intercalate (ForgeMode.all.map ForgeMode.value)))

theorem parseTransport_value (t : Transport) : parseTransport t.value = .ok t := by
  cases t <;> rfl

namespace AppState
variable (D : Digests) (a : AppState)

def refuse (statusCode : Nat) (detail : Detail) : Answer × AppState :=
  ({ response := .httpException statusCode detail }, a)

def transmitCall (pduId : String) (authenticPdu : Bytes) (transport : Transport) :
    Except Response Bytes × Outcome × AppState :=
  let (r, stack) := a.stack.transmitSecured D pduId authenticPdu transport
  (match r with
    | .ok securedPdu => .ok securedPdu
    | .error (.secOCConfigError t) => .error (.httpException 404 (.exception (.secOCConfigError t)))
    | .error (.secOCTransportError t) =>
      .error (.httpException 400 (.exception (.secOCTransportError t)))
    | .error e => .error (.serverError e),
    .transmitted r, { a with stack := stack })

def transmitSecured (pduId payloadHex transport : String) : Answer × AppState :=
  match fromHex payloadHex with
  | none => a.refuse 400 (.text "payload_hex is not valid hex")
  | some authenticPdu => match parseTransport transport with
    | .error detail => a.refuse 400 detail
    | .ok transport =>
      let made : List Call := [.transmit pduId authenticPdu transport]
      match a.transmitCall D pduId authenticPdu transport with
      | (.error response, outcome, a) => ({ response, calls := [outcome], made }, a)
      | (.ok securedPdu, outcome, a) =>
        ({ response := .ok (.transmitResponse pduId (toHex securedPdu)), calls := [outcome], made },
          a)

def receiveSecured (pduId securedPduHex transport : String) : Answer × AppState :=
  match fromHex securedPduHex with
  | none => a.refuse 400 (.text "secured_pdu_hex is not valid hex")
  | some securedPdu => match parseTransport transport with
    | .error detail => a.refuse 400 detail
    | .ok transport =>
      let (r, stack) := a.stack.receiveSecured D pduId securedPdu transport
      let a := { a with stack := stack }
      -- the status is read after the call
      ({ response := match r with
          | .ok authenticPdu => .ok (.receiveResponse pduId authenticPdu.isSome
              (authenticPdu.map toHex) a.getStatus.ecuState a.getStatus.lockedOut)
          | .error (.secOCConfigError t) =>
            .httpException 404 (.exception (.secOCConfigError t))
          | .error e => .serverError e
         calls := [.received r]
         made := [.receive pduId securedPdu transport] }, a)

def withBus (bus : CanBus) : AppState := { a with stack := { a.stack with bus := bus } }

def canSend (pduId dataHex : String) : Answer × AppState :=
  match fromHex dataHex with
  | none => a.refuse 400 (.text "data_hex is not valid hex")
  | some data =>
    ({ response := .ok (.queued pduId) }, a.withBus (MessageInjector.inject a.stack.bus pduId data))

def replayCapture (pduId : String) : Answer × AppState :=
  let (rawBytes, captured) := ReplayAttack.capture a.captured a.stack.bus pduId
  let a := { a with captured := captured }
  match rawBytes with
  | none => a.refuse 404 (.text s!"no frame observed yet for pdu_id '{pduId}'")
  | some rawBytes => ({ response := .ok (.captured pduId (toHex rawBytes)) }, a)

/-- What is processed is the oldest frame on the bus, whichever PDU it was published for. -/
def replayReplay (pduId transport : String) : Answer × AppState :=
  match (ReplayAttack.replay a.captured a.stack.bus pduId).consume with
  | (none, bus) =>
    (a.withBus bus).refuse 404 (.text s!"no captured frame to replay for pdu_id '{pduId}'")
  | (some (_, securedPdu), bus) =>
    (a.withBus bus).receiveSecured D pduId (toHex securedPdu) transport

def mitmTamper (pduId payloadHex transport : String) : Answer × AppState :=
  match fromHex payloadHex with
  | none => a.refuse 400 (.text "payload_hex is not valid hex")
  | some authenticPdu => match parseTransport transport with
    | .error detail => a.refuse 400 detail
    | .ok t =>
      let sent : Call := .transmit pduId authenticPdu t
      match a.transmitCall D pduId authenticPdu t with
      | (.error response, outcome, a) => ({ response, calls := [outcome], made := [sent] }, a)
      | (.ok securedPdu, outcome, a) =>
        let (answer, a) :=
          a.receiveSecured D pduId (toHex (MitmAttack.intercept securedPdu)) transport
        ({ answer with calls := outcome :: answer.calls, made := sent :: answer.made }, a)

def forgeInject (pduId mode : String) : Answer × AppState :=
  match parseForgeMode mode with
  | .error detail => a.refuse 400 detail
  | .ok mode => a.receiveSecured D pduId (toHex (FuzzingEngine.generateForgedPdu mode))
    Transport.canFd.value

def updateProfileVersion (pduId profileVersion : String) : Answer × AppState :=
  let (r, profiles, file) :=
    SecOC.updateProfileVersion a.stack.profiles a.configFile pduId profileVersion
  let a := { a with stack := { a.stack with profiles := profiles }, configFile := file }
  match r with
  | .error (.secOCConfigError t) => a.refuse 404 (.exception (.secOCConfigError t))
  -- the entry in memory stays changed
  | .error e => ({ response := .serverError e }, a)
  | .ok _ => match getProfile a.stack.profiles pduId with
    | .error e => ({ response := .serverError e }, a)
    | .ok entry => ({ response := .ok (.profile entry) }, a)

def withKeys (hsm : HSM) (nvm : NvM) : AppState :=
  { a with stack := { a.stack with nvm := nvm, csm := { a.stack.csm with hsm := hsm } } }

def provisionKey (pduId keyId : String) : Answer × AppState :=
  match KeyManager.provisionKey a.stack.csm.hsm a.stack.nvm pduId keyId with
  | (.error e, hsm, nvm) => ({ response := .serverError e }, a.withKeys hsm nvm)
  | (.ok metadata, hsm, nvm) => ({ response := .ok (.keyMetadata metadata) }, a.withKeys hsm nvm)

def logEvent (severity : Severity) (eventId swrRef : String) : AppState :=
  { a with stack := { a.stack with escalation := { a.stack.escalation with
      dem := EventLogger.log a.stack.escalation.dem severity eventId swrRef } } }

def rotateKey (pduId newKeyId : String) : Answer × AppState :=
  match KeyManager.rotateKey a.stack.csm.hsm a.stack.nvm pduId newKeyId with
  | (.error (.keyError t), hsm, nvm) => (a.withKeys hsm nvm).refuse 404 (.exception (.keyError t))
  | (.error e, hsm, nvm) => ({ response := .serverError e }, a.withKeys hsm nvm)
  | (.ok metadata, hsm, nvm) => ({ response := .ok (.keyMetadata metadata) },
      (a.withKeys hsm nvm).logEvent .info "KEY_ROTATED" "SR-17")

def request : Request → Answer × AppState
  | .transmitSecured p payload t => a.transmitSecured D p payload t
  | .receiveSecured p frame t => a.receiveSecured D p frame t
  | .validateSecured p frame t => a.receiveSecured D p frame t
  | .canSend p data => a.canSend p data
  | .replayCapture p => a.replayCapture p
  | .replayReplay p t => a.replayReplay D p t
  | .mitmTamper p payload t => a.mitmTamper D p payload t
  | .forgeInject p mode => a.forgeInject D p mode
  | .updateProfileVersion p version => a.updateProfileVersion p version
  | .provisionKey p keyId => a.provisionKey p keyId
  | .rotateKey p keyId => a.rotateKey p keyId
  | .resetEcu => ({ response := .ok (.status a.resetEcu.getStatus) }, a.resetEcu)

def broadcasts : Request → Bool
  | .replayCapture .. => false
  | _ => true

/-- A request with the end of its handler: a broadcast that raises takes the answer, not the
state. -/
def respond (r : Request) (broadcast : Except PyError Unit) : Answer × AppState :=
  let (answer, a) := a.request D r
  match answer.response, broadcast with
  | .ok _, .error e =>
    (if broadcasts r then { answer with response := .serverError e } else answer, a)
  | _, _ => (answer, a)

def machine : Mealy AppState Request Answer := { step := fun a r => a.request D r }

abbrev run (requests : List Request) : AppState := (machine D).exec a requests

end AppState
end SecOC
