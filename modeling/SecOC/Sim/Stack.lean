import SecOC.Sim.CanBus
import SecOC.Sim.Escalation
import SecOC.Sim.FreshnessManager
import SecOC.Sim.Keys
import SecOC.Sim.PduManager

/-! The SecOC stack: the objects one `SecOC` instance is wired to, the authenticator's MAC
computations over them, and the transmit and receive paths. -/

namespace SecOC
open Py

/-- `overBudget n` says whether the profiler found the `n`-th MAC generation over the budget. -/
structure Authenticator where
  keyManager : Bool
  overBudget : Nat → Bool
  opSeq : Nat

structure Stack where
  profiles : Profiles
  nvm : NvM
  freshnessManager : FreshnessManager
  csm : CSM
  authenticator : Authenticator
  escalation : Escalation
  bus : CanBus

namespace Stack

/-- The stack as `AppState` wires it around its profiles, HSM and NvM. -/
def wired (profiles : Profiles) (hsm : HSM) (nvm : NvM) (overBudget : Nat → Bool) : Stack where
  profiles := profiles
  nvm := nvm
  freshnessManager :=
    { windowSize := 16, freshnessLength := Config.defaultFreshnessLength }
  csm := { hsm := hsm, state := .idle }
  authenticator := { keyManager := true, overBudget := overBudget, opSeq := 0 }
  escalation := .initial .empty
  bus := { running := true, lastFrames := Dict.empty, queue := [] }

def configured (raw : Dict String RawEntry) (urandom : Nat → Bytes) : Stack :=
  let profiles := ((reload raw).toOption).getD Dict.empty
  let keys := profiles.items.map fun e => (e.1, e.2.keyId)
  let (_, hsm, nvm) := KeyManager.provisionKeys keys (HSM.new urandom) (NvM.load none)
  wired profiles hsm nvm (fun _ => false)

abbrev shipped (urandom : Nat → Bytes) : Stack := configured shippedConfig urandom

def resolveKeyId (s : Stack) (pduId : String) (profile : SecurityProfileEntry) :
    Except PyError String :=
  if s.authenticator.keyManager then KeyManager.resolveKey s.nvm pduId else .ok profile.keyId

/-- What `generate_mac` and `verify_mac` both start with: key, protected region, MAC length. -/
def macInput (s : Stack) (pduId : String) (authenticPdu : Bytes) (freshnessValue : Int)
    (transport : Transport) : Except PyError (String × Bytes × Int) := do
  let profile ← getProfile s.profiles pduId
  let keyId ← s.resolveKeyId pduId profile
  let (freshLen, macLen) ← profile.truncationLengths transport
  return (keyId, authenticPdu ++ (← freshnessBytes freshnessValue freshLen), macLen)

def logOverrun (s : Stack) (op : Nat) : Stack :=
  if s.authenticator.overBudget op then
    { s with escalation := { s.escalation with
        dem := EventLogger.log s.escalation.dem .warning "WCET_EXCEEDED" "SW-SecOC-08" } }
  else s

def generateMac (D : Digests) (s : Stack) (pduId : String) (authenticPdu : Bytes)
    (freshnessValue : Int) (transport : Transport) : Except PyError Bytes × Stack :=
  match s.macInput pduId authenticPdu freshnessValue transport with
  | .error e => (.error e, s)
  | .ok (keyId, data, macLen) =>
    -- counted also where the MAC then fails
    let op := s.authenticator.opSeq
    let s := { s with authenticator := { s.authenticator with opSeq := op + 1 } }
    match HmacCrypto.generateMac D s.csm keyId data with
    | (.error e, csm) => (.error e, { s with csm := csm })
    | (.ok fullMac, csm) =>
      (.ok (slice fullMac none (some macLen)), { s with csm := csm }.logOverrun op)

def verifyMac (D : Digests) (s : Stack) (pduId : String) (authenticPdu : Bytes)
    (freshnessValue : Int) (mac : Bytes) (transport : Transport) : Except PyError Bool × Stack :=
  match s.macInput pduId authenticPdu freshnessValue transport with
  | .error e => (.error e, s)
  | .ok (keyId, data, macLen) =>
    match HmacCrypto.generateMac D s.csm keyId data with
    | (.error e, csm) => (.error e, { s with csm := csm })
    | (.ok fullMac, csm) =>
      (.ok (slice fullMac none (some macLen) == mac), { s with csm := csm })

def classicCanPayloadBytes : Nat := 4

def ljust (b : Bytes) (n : Nat) : Bytes := b ++ List.replicate (n - b.length) 0

def padded (transport : Transport) (authenticPdu : Bytes) : Bytes :=
  match transport with
  | .classicCan => ljust authenticPdu classicCanPayloadBytes
  | .canFd => authenticPdu

def transmitSecured (D : Digests) (s : Stack) (pduId : String) (authenticPdu : Bytes)
    (transport : Transport) : Except PyError Bytes × Stack :=
  match getProfile s.profiles pduId with
  | .error e => (.error e, s)
  | .ok profile =>
    if transport = .classicCan ∧ classicCanPayloadBytes < authenticPdu.length then
      (.error (.secOCTransportError (s!"authentic_pdu ({authenticPdu.length} bytes) exceeds the " ++
        s!"{classicCanPayloadBytes}-byte CLASSIC_CAN payload budget " ++
        s!"for pdu_id '{pduId}'")), s)
    else
      let authenticPdu := padded transport authenticPdu
      match (FreshnessManager.loadLastValidFreshness s.nvm pduId).asInt with
      | .error e => (.error e, s)
      | .ok lastValid =>
        -- the counter is used and not committed: only a receiver moves it
        let freshnessValue := lastValid + 1
        match s.generateMac D pduId authenticPdu freshnessValue transport with
        | (.error e, s) => (.error e, s)
        | (.ok mac, s) =>
          (PduManager.buildSecuredPdu authenticPdu freshnessValue mac profile transport, s)

def reject (s : Stack) (pduId : String) (reason : RejectionReason) :
    Except PyError (Option Bytes) × Stack :=
  (.ok none, { s with escalation := s.escalation.reject pduId reason })

def receiveSecured (D : Digests) (s : Stack) (pduId : String) (securedPdu : Bytes)
    (transport : Transport) : Except PyError (Option Bytes) × Stack :=
  match getProfile s.profiles pduId with
  | .error e => (.error e, s)
  | .ok profile =>
    match PduManager.parseSecuredPdu securedPdu profile transport with
    -- any `ValueError` of the parser, whatever raised it
    | .error (.valueError _) => s.reject pduId .malformedStructure
    | .error e => (.error e, s)
    | .ok (authenticPdu, truncatedFreshness, mac) =>
      match s.freshnessManager.validateFreshness s.nvm pduId truncatedFreshness with
      | .error e => (.error e, s)
      | .ok (false, _) => s.reject pduId .freshnessOutOfWindow
      | .ok (true, fullFreshness) =>
        match s.verifyMac D pduId authenticPdu fullFreshness mac transport with
        | (.error e, s) => (.error e, s)
        | (.ok false, s) => s.reject pduId .macMismatch
        | (.ok true, s) =>
          -- a flush that fails ends the call with the counter in memory moved
          match FreshnessManager.commitFreshness s.nvm pduId fullFreshness with
          | (.error e, nvm) => (.error e, { s with nvm := nvm })
          | (.ok _, nvm) =>
            (.ok (some authenticPdu), { s with nvm := nvm, bus := s.bus.publish pduId securedPdu })

def reset (s : Stack) : Stack := { s with escalation := s.escalation.reset }

end Stack
end SecOC
