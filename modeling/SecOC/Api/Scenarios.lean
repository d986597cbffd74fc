import SecOC.Api.Effects
import SecOC.Sim.PerformanceProfiler

/-! The scenario runner and its endpoints, beside the application in one process. What the two share
is the bus and the profiler. A scenario's function is a parameter: it gets these, and whatever else
it makes for itself. -/

namespace SecOC
open Py

inductive ScenarioStatus
  | passed
  | failed
  | error
  deriving DecidableEq, Repr

def ScenarioStatus.value : ScenarioStatus → String
  | .passed => "PASSED"
  | .failed => "FAILED"
  | .error => "ERROR"

structure ScenarioResult where
  vtcId : String
  status : ScenarioStatus
  steps : List String
  errorMessage : Option String
  deriving DecidableEq, Repr

inductive ScenarioEnd
  | returned
  | assertionError (text : String)
  | exception (typeName text : String)

def ScenarioEnd.result (vtcId : String) (steps : List String) : ScenarioEnd → ScenarioResult
  | .returned => { vtcId, status := .passed, steps, errorMessage := none }
  | .assertionError text => { vtcId, status := .failed, steps, errorMessage := some text }
  | .exception typeName text =>
    { vtcId, status := .error, steps, errorMessage := some s!"{typeName}: {text}" }

structure SharedState where
  bus : CanBus
  profiler : PerformanceProfiler

/-- `ω` is what a run draws from its environment: random bytes, times, names of directories. -/
abbrev ScenarioBodies (ω : Type) :=
  String → ω → SharedState → (List String × ScenarioEnd) × SharedState

abbrev ScenarioResults := Dict String ScenarioResult

inductive ScenarioCall (ω : Type)
  | listScenarios
  | runScenario (vtcId : String) (w : ω)
  | getResult (vtcId : String)

inductive ScenarioAnswer
  | scenarios (vtcIds : List String)
  | result (r : ScenarioResult)
  | httpException (statusCode : Nat) (detail : String)

namespace ScenarioRunner
variable {ω : Type} (bodies : ScenarioBodies ω)

def vtcIds : List String :=
  (List.range 20).map fun n => "VTC-SR-" ++ (if n + 1 < 10 then "0" else "") ++ toString (n + 1)

def resetEnvironment (shared : SharedState) : SharedState where
  bus := { running := false, lastFrames := Dict.empty, queue := [] }
  profiler := shared.profiler.reset

def unknownScenario (vtcId : String) : String := s!"unknown scenario id: {vtcId}"

def runScenario (vtcId : String) (w : ω) (results : ScenarioResults) (shared : SharedState) :
    Except String ScenarioResult × ScenarioResults × SharedState :=
  if vtcId ∉ vtcIds then (.error (unknownScenario vtcId), results, shared)
  else
    let ((steps, finish), shared) := bodies vtcId w (resetEnvironment shared)
    let result := finish.result vtcId steps
    (.ok result, results.set vtcId result, shared)

def answer (results : ScenarioResults) (shared : SharedState) :
    ScenarioCall ω → ScenarioAnswer × ScenarioResults × SharedState
  | .listScenarios => (.scenarios vtcIds, results, shared)
  | .runScenario vtcId w =>
    let (r, results, shared) := runScenario bodies vtcId w results shared
    -- the live bus goes on, also after an unknown id
    (match r with
      | .error detail => .httpException 404 detail
      | .ok result => .result result,
      results, { shared with bus := { shared.bus with running := true } })
  | .getResult vtcId =>
    (if vtcId ∉ vtcIds then .httpException 404 (unknownScenario vtcId)
    else match results.get? vtcId with
      | none => .httpException 404 s!"scenario {vtcId} has not been run yet"
      | some result => .result result, results, shared)

end ScenarioRunner

def AppState.withOracle (a : AppState) (overBudget : Nat → Bool) : AppState :=
  { a with stack := a.stack.withOracle overBudget }

structure Server where
  app : AppState
  profiler : PerformanceProfiler
  results : ScenarioResults

/-- A request comes with what its handler reads off the clock. -/
inductive ServerCall (ω : Type)
  | request (r : Request) (clock : Clock)
  | scenario (call : ScenarioCall ω)

inductive ServerEvent
  | answered (r : Request) (answer : Answer)
  | scenario (answer : ScenarioAnswer)

namespace Server
variable {ω : Type} (D : Digests) (bodies : ScenarioBodies ω) (s : Server)

def shared : SharedState where
  bus := s.app.stack.bus
  profiler := s.profiler

def profiled (clock : Clock) : ProfiledStack where
  stack := s.app.stack
  profiler := s.profiler
  clock := clock

/-- A request that sends has its MAC generation timed, and logged by what the clock says. -/
def request (r : Request) (clock : Clock) : Answer × Server :=
  match r.sends with
  | none =>
    let (answer, app) := s.app.request D r
    (answer, { s with app := app })
  | some (pduId, payload, transport) =>
    let w := s.profiled clock
    let (answer, app) := (s.app.withOracle fun _ => w.overNow).request D r
    let (_, w) := w.transmitSecured D pduId payload transport
    (answer, { s with app := app, profiler := w.profiler })

def step : ServerCall ω → ServerEvent × Server
  | .request r clock =>
    let (answer, s) := s.request D r clock
    (.answered r answer, s)
  | .scenario call =>
    let (answer, results, shared) := ScenarioRunner.answer bodies s.results s.shared call
    (.scenario answer,
      { app := s.app.withBus shared.bus, profiler := shared.profiler, results := results })

def machine : Mealy Server (ServerCall ω) ServerEvent where
  step s call := s.step D bodies call

end Server

end SecOC
