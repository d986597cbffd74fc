import SecOC.Lib.JsNumber
import SecOC.Sim.CryptoDriver
import SecOC.Sim.StackRun

/-! The profiler, and the stack with it in place: each MAC generation is timed by the profiler the
authenticator was given, and what takes too long is logged. Times are doubles. -/

namespace SecOC
open Py

def Config.macWcetBudgetMs : Js.Number := 5

inductive ProfilerStatus
  | withinBudget
  | exceeded
  deriving DecidableEq

structure ProfilerSample where
  operationId : String
  elapsedMs : Js.Number
  status : ProfilerStatus

structure PerformanceProfiler where
  budgetMs : Js.Number
  starts : Dict String Js.Number
  samples : List ProfilerSample

structure ProfilerSummary where
  count : Nat
  maxMs : Js.Number
  exceededCount : Nat

/-- `time.perf_counter`, read once more at each call. -/
abbrev Clock := RandomSource Js.Number

namespace PerformanceProfiler

def new (budgetMs : Js.Number) : PerformanceProfiler :=
  { budgetMs, starts := Dict.empty, samples := [] }

def elapsed (start now : Js.Number) : Js.Number := Js.mul (Js.sub now start) 1000

def start (p : PerformanceProfiler) (operationId : String) (clock : Clock) :
    PerformanceProfiler × Clock :=
  ({ p with starts := p.starts.set operationId clock.value }, clock.advance)

def record (p : PerformanceProfiler) (operationId : String) (elapsedMs : Js.Number) :
    PerformanceProfiler :=
  { p with
    starts := p.starts.erase operationId
    samples := p.samples ++
      [{ operationId, elapsedMs
         status := if p.budgetMs < elapsedMs then .exceeded else .withinBudget }] }

/-- An operation that was not started is taken to have started just now. -/
def stop (p : PerformanceProfiler) (operationId : String) (clock : Clock) :
    Js.Number × PerformanceProfiler × Clock :=
  match p.starts.get? operationId with
  | some start =>
    let elapsedMs := elapsed start clock.value
    (elapsedMs, p.record operationId elapsedMs, clock.advance)
  | none =>
    let elapsedMs := elapsed clock.value clock.advance.value
    (elapsedMs, p.record operationId elapsedMs, clock.advance.advance)

def getSummary (p : PerformanceProfiler) : ProfilerSummary :=
  match p.samples with
  | [] => { count := 0, maxMs := 0, exceededCount := 0 }
  | s :: rest =>
    { count := p.samples.length
      maxMs := rest.foldl (fun m s => max m s.elapsedMs) s.elapsedMs
      exceededCount := p.samples.countP fun s => s.status = .exceeded }

def reset (p : PerformanceProfiler) : PerformanceProfiler :=
  { p with starts := Dict.empty, samples := [] }

theorem getSummary_count (p : PerformanceProfiler) : p.getSummary.count = p.samples.length := by
  unfold getSummary
  split
  · next h => rw [h]; rfl
  · rfl

theorem getSummary_exceededCount (p : PerformanceProfiler) :
    p.getSummary.exceededCount = p.samples.countP fun s => s.status = .exceeded := by
  unfold getSummary
  split
  · next h => rw [h]; rfl
  · rfl

end PerformanceProfiler

def Stack.withOracle (s : Stack) (overBudget : Nat → Bool) : Stack :=
  { s with authenticator := { s.authenticator with overBudget := overBudget } }

/-- A stack whose authenticator has a profiler. The stack's own oracle is not asked. -/
structure ProfiledStack where
  stack : Stack
  profiler : PerformanceProfiler
  clock : Clock

namespace ProfiledStack

def opId (pduId : String) (opSeq : Nat) : String := s!"{pduId}:generate_mac:{opSeq}"

def logWcet (s : Stack) (elapsedMs : Js.Number) : Stack :=
  if Config.macWcetBudgetMs < elapsedMs then
    { s with escalation := { s.escalation with
        dem := EventLogger.log s.escalation.dem .warning "WCET_EXCEEDED" "SW-SecOC-08" } }
  else s

def generateMac (D : Digests) (w : ProfiledStack) (pduId : String) (authenticPdu : Bytes)
    (freshnessValue : Int) (transport : Transport) : Except PyError Bytes × ProfiledStack :=
  match w.stack.macInput pduId authenticPdu freshnessValue transport with
  | .error e => (.error e, w)
  | .ok (keyId, data, macLen) =>
    let id := opId pduId w.stack.authenticator.opSeq
    let s := { w.stack with
      authenticator := { w.stack.authenticator with opSeq := w.stack.authenticator.opSeq + 1 } }
    let (profiler, clock) := w.profiler.start id w.clock
    match HmacCrypto.generateMac D s.csm keyId data with
    -- the operation stays started
    | (.error e, csm) => (.error e, { stack := { s with csm := csm }, profiler, clock })
    | (.ok fullMac, csm) =>
      let (elapsedMs, profiler, clock) := profiler.stop id clock
      (.ok (slice fullMac none (some macLen)),
        { stack := logWcet { s with csm := csm } elapsedMs, profiler, clock })

def transmitSecured (D : Digests) (w : ProfiledStack) (pduId : String) (authenticPdu : Bytes)
    (transport : Transport) : Except PyError Bytes × ProfiledStack :=
  match getProfile w.stack.profiles pduId with
  | .error e => (.error e, w)
  | .ok profile =>
    if transport = .classicCan ∧ Stack.classicCanPayloadBytes < authenticPdu.length then
      (.error (.secOCTransportError (s!"authentic_pdu ({authenticPdu.length} bytes) exceeds the " ++
        s!"{Stack.classicCanPayloadBytes}-byte CLASSIC_CAN payload budget " ++
        s!"for pdu_id '{pduId}'")), w)
    else
      let authenticPdu := Stack.padded transport authenticPdu
      match (FreshnessManager.loadLastValidFreshness w.stack.nvm pduId).asInt with
      | .error e => (.error e, w)
      | .ok lastValid =>
        let freshnessValue := lastValid + 1
        match w.generateMac D pduId authenticPdu freshnessValue transport with
        | (.error e, w) => (.error e, w)
        | (.ok mac, w) =>
          (PduManager.buildSecuredPdu authenticPdu freshnessValue mac profile transport, w)

/-- Verifying is not timed. -/
def receiveSecured (D : Digests) (w : ProfiledStack) (pduId : String) (securedPdu : Bytes)
    (transport : Transport) : Except PyError (Option Bytes) × ProfiledStack :=
  let (r, s) := w.stack.receiveSecured D pduId securedPdu transport
  (r, { w with stack := s })

def call (D : Digests) (w : ProfiledStack) : Call → Outcome × ProfiledStack
  | .transmit p payload t =>
    (.transmitted (w.transmitSecured D p payload t).1, (w.transmitSecured D p payload t).2)
  | .receive p frame t =>
    (.received (w.receiveSecured D p frame t).1, (w.receiveSecured D p frame t).2)

def machine (D : Digests) : Mealy ProfiledStack Call Outcome := { step := fun w c => w.call D c }

def withOracle (w : ProfiledStack) (overBudget : Nat → Bool) : Stack :=
  w.stack.withOracle overBudget

/-- The time the next MAC generation takes if it succeeds. -/
def elapsedNow (w : ProfiledStack) : Js.Number :=
  PerformanceProfiler.elapsed w.clock.value w.clock.advance.value

def overNow (w : ProfiledStack) : Bool := Config.macWcetBudgetMs < w.elapsedNow

end ProfiledStack
end SecOC
