import SecOC.Api.Scenarios
import SecOC.Properties.Profiling

/-! Scenario runs beside a live application. They share the bus and the profiler, and neither side
notices the other: a scenario finds both reset, no request but the replay attack's reads the bus,
and what the profiler times is what it has started itself. -/

namespace SecOC
open Py

def Stack.onBus (s : Stack) (bus : CanBus) : Stack := { s with bus := bus }

def AppState.onBus (a : AppState) (bus : CanBus) (captured : Captured) : AppState :=
  { a with stack := a.stack.onBus bus, captured := captured }

namespace Stack
variable {D : Digests} (s : Stack) (bus : CanBus) (p : String) (b : Bytes) (t : Transport)

theorem logOverrun_onBus (op : Nat) :
    (s.onBus bus).logOverrun op = (s.logOverrun op).onBus bus := by
  have hbudget : (s.onBus bus).authenticator.overBudget op = s.authenticator.overBudget op := rfl
  unfold logOverrun
  rw [hbudget]
  split_ifs <;> rfl

theorem generateMac_onBus (counter : Int) :
    (s.onBus bus).generateMac D p b counter t =
      ((s.generateMac D p b counter t).1, (s.generateMac D p b counter t).2.onBus bus) := by
  have hinput : (s.onBus bus).macInput p b counter t = s.macInput p b counter t := rfl
  unfold generateMac
  rw [hinput]
  rcases s.macInput p b counter t with e | ⟨keyId, data, macLen⟩
  · rfl
  · have hcsm : (s.onBus bus).csm = s.csm := rfl
    simp only [hcsm]
    rcases HmacCrypto.generateMac D s.csm keyId data with ⟨e | mac, csm⟩
    · rfl
    · exact Prod.ext rfl (logOverrun_onBus { s with
        authenticator := { s.authenticator with opSeq := s.authenticator.opSeq + 1 }
        csm := csm } bus s.authenticator.opSeq)

theorem transmitSecured_onBus :
    (s.onBus bus).transmitSecured D p b t =
      ((s.transmitSecured D p b t).1, (s.transmitSecured D p b t).2.onBus bus) := by
  have hprofiles : (s.onBus bus).profiles = s.profiles := rfl
  have hnvm : (s.onBus bus).nvm = s.nvm := rfl
  unfold transmitSecured
  rw [hprofiles, hnvm]
  rcases getProfile s.profiles p with e | profile
  · rfl
  · dsimp only
    split_ifs
    · rfl
    · rcases (FreshnessManager.loadLastValidFreshness s.nvm p).asInt with e | L
      · rfl
      · simp only [generateMac_onBus]
        rcases s.generateMac D p (padded t b) (L + 1) t with ⟨e | mac, s'⟩ <;> rfl

theorem verifyMac_onBus (counter : Int) (mac : Bytes) :
    (s.onBus bus).verifyMac D p b counter mac t =
      ((s.verifyMac D p b counter mac t).1, (s.verifyMac D p b counter mac t).2.onBus bus) := by
  have hinput : (s.onBus bus).macInput p b counter t = s.macInput p b counter t := rfl
  unfold verifyMac
  rw [hinput]
  rcases s.macInput p b counter t with e | ⟨keyId, data, macLen⟩
  · rfl
  · have hcsm : (s.onBus bus).csm = s.csm := rfl
    simp only [hcsm]
    rcases HmacCrypto.generateMac D s.csm keyId data with ⟨e | mac, csm⟩ <;> rfl

theorem receiveSecured_onBus : ∃ bus', (s.onBus bus).receiveSecured D p b t =
    ((s.receiveSecured D p b t).1, (s.receiveSecured D p b t).2.onBus bus') := by
  have hprofiles : (s.onBus bus).profiles = s.profiles := rfl
  have hfresh : ∀ wire, (s.onBus bus).freshnessManager.validateFreshness (s.onBus bus).nvm p wire =
      s.freshnessManager.validateFreshness s.nvm p wire := fun _ => rfl
  unfold receiveSecured
  rw [hprofiles]
  rcases getProfile s.profiles p with e | profile
  · exact ⟨bus, rfl⟩
  · dsimp only
    rcases PduManager.parseSecuredPdu b profile t with e | ⟨payload, wire, mac⟩
    · cases e <;> exact ⟨bus, rfl⟩
    · simp only [hfresh]
      rcases s.freshnessManager.validateFreshness s.nvm p wire with e | ⟨_ | _, counter⟩
      · exact ⟨bus, rfl⟩
      · exact ⟨bus, rfl⟩
      · simp only [verifyMac_onBus]
        rcases s.verifyMac D p payload counter mac t with ⟨e | _ | _, s'⟩
        · exact ⟨bus, rfl⟩
        · exact ⟨bus, rfl⟩
        · have hnvm : (s'.onBus bus).nvm = s'.nvm := rfl
          simp only [hnvm]
          rcases FreshnessManager.commitFreshness s'.nvm p counter with ⟨e | _, nvm⟩
          · exact ⟨bus, rfl⟩
          · exact ⟨bus.publish p b, rfl⟩

end Stack

def Request.captures : Request → Bool
  | .replayCapture .. => true
  | _ => false

def Request.replays : Request → Bool
  | .replayReplay .. => true
  | _ => false

namespace AppState
variable {D : Digests} (a : AppState) (bus : CanBus) (captured : Captured)

theorem transmitCall_onBus (p : String) (b : Bytes) (t : Transport) :
    (a.onBus bus captured).transmitCall D p b t = ((a.transmitCall D p b t).1,
      (a.transmitCall D p b t).2.1, (a.transmitCall D p b t).2.2.onBus bus captured) := by
  have hsent := a.stack.transmitSecured_onBus (D := D) bus p b t
  have hstack : (a.onBus bus captured).stack = a.stack.onBus bus := rfl
  unfold transmitCall
  rw [hstack, hsent]
  rfl

theorem transmitSecured_onBus (p payload tr : String) :
    (a.onBus bus captured).transmitSecured D p payload tr =
      ((a.transmitSecured D p payload tr).1,
        (a.transmitSecured D p payload tr).2.onBus bus captured) := by
  unfold transmitSecured
  rcases fromHex payload with _ | b
  · rfl
  · rcases parseTransport tr with detail | t
    · rfl
    · simp only [transmitCall_onBus]
      rcases a.transmitCall D p b t with ⟨response | frame, outcome, a'⟩ <;> rfl

theorem receiveSecured_onBus (p frame tr : String) :
    ∃ bus', (a.onBus bus captured).receiveSecured D p frame tr =
      ((a.receiveSecured D p frame tr).1,
        (a.receiveSecured D p frame tr).2.onBus bus' captured) := by
  unfold receiveSecured
  rcases fromHex frame with _ | b
  · exact ⟨bus, rfl⟩
  · rcases parseTransport tr with detail | t
    · exact ⟨bus, rfl⟩
    · obtain ⟨bus', hreceived⟩ := a.stack.receiveSecured_onBus (D := D) bus p b t
      have hstack : (a.onBus bus captured).stack = a.stack.onBus bus := rfl
      refine ⟨bus', ?_⟩
      simp only [hstack, hreceived]
      rfl

theorem request_onBus {r : Request} (hcaptures : r.captures = false)
    (hreplays : r.replays = false) :
    ∃ bus', (a.onBus bus captured).request D r =
      ((a.request D r).1, (a.request D r).2.onBus bus' captured) := by
  cases r with
  | transmitSecured p payload tr => exact ⟨bus, a.transmitSecured_onBus bus captured p payload tr⟩
  | receiveSecured p frame tr => exact a.receiveSecured_onBus bus captured p frame tr
  | validateSecured p frame tr => exact a.receiveSecured_onBus bus captured p frame tr
  | canSend p data =>
    simp only [request, canSend]
    rcases fromHex data with _ | b
    · exact ⟨bus, rfl⟩
    · exact ⟨bus.publish p b, rfl⟩
  | replayCapture p => cases hcaptures
  | replayReplay p tr => cases hreplays
  | mitmTamper p payload tr =>
    simp only [request, mitmTamper]
    rcases fromHex payload with _ | b
    · exact ⟨bus, rfl⟩
    · rcases parseTransport tr with detail | t
      · exact ⟨bus, rfl⟩
      · simp only [transmitCall_onBus]
        rcases a.transmitCall D p b t with ⟨response | frame, outcome, a'⟩
        · exact ⟨bus, rfl⟩
        · obtain ⟨bus', hreceived⟩ := a'.receiveSecured_onBus (D := D) bus captured p
            (toHex (MitmAttack.intercept frame)) tr
          refine ⟨bus', ?_⟩
          simp only [hreceived]
  | forgeInject p mode =>
    simp only [request, forgeInject]
    rcases parseForgeMode mode with detail | m
    · exact ⟨bus, rfl⟩
    · exact a.receiveSecured_onBus bus captured p _ _
  | updateProfileVersion p version =>
    simp only [request, updateProfileVersion]
    have hprofiles : (a.onBus bus captured).stack.profiles = a.stack.profiles := rfl
    have hfile : (a.onBus bus captured).configFile = a.configFile := rfl
    rw [hprofiles, hfile]
    rcases SecOC.updateProfileVersion a.stack.profiles a.configFile p version with
      ⟨e | _, profiles, file⟩
    · cases e <;> exact ⟨bus, rfl⟩
    · dsimp only
      rcases getProfile profiles p with e | entry <;> exact ⟨bus, rfl⟩
  | provisionKey p keyId =>
    simp only [request, provisionKey]
    have hhsm : (a.onBus bus captured).stack.csm.hsm = a.stack.csm.hsm := rfl
    have hnvm : (a.onBus bus captured).stack.nvm = a.stack.nvm := rfl
    rw [hhsm, hnvm]
    rcases KeyManager.provisionKey a.stack.csm.hsm a.stack.nvm p keyId with ⟨e | m, hsm, nvm⟩ <;>
    exact ⟨bus, rfl⟩
  | rotateKey p newKeyId =>
    simp only [request, rotateKey]
    have hhsm : (a.onBus bus captured).stack.csm.hsm = a.stack.csm.hsm := rfl
    have hnvm : (a.onBus bus captured).stack.nvm = a.stack.nvm := rfl
    rw [hhsm, hnvm]
    rcases KeyManager.rotateKey a.stack.csm.hsm a.stack.nvm p newKeyId with ⟨e | m, hsm, nvm⟩
    · cases e <;> exact ⟨bus, rfl⟩
    · exact ⟨bus, rfl⟩
  | resetEcu => exact ⟨bus, rfl⟩

theorem replayCapture_onBus (p : String) :
    (a.request D (.replayCapture p)).2 =
      a.onBus a.stack.bus (ReplayAttack.capture a.captured a.stack.bus p).2 := by
  simp only [request, replayCapture]
  split <;> rfl

end AppState

namespace ServerCall
variable {ω : Type}

def isScenario : ServerCall ω → Bool
  | scenario _ => true
  | request .. => false

def isRequest : ServerCall ω → Bool
  | scenario _ => false
  | request r _ => !r.captures

def replays : ServerCall ω → Bool
  | scenario _ => false
  | request r _ => r.replays

end ServerCall

namespace ServerEvent

def isScenario : ServerEvent → Bool
  | scenario _ => true
  | answered .. => false

def isAnswer : ServerEvent → Bool
  | scenario _ => false
  | answered r _ => !r.captures

end ServerEvent

theorem ScenarioRunner.answer_congr {ω : Type} (bodies : ScenarioBodies ω)
    {shared shared' : SharedState} (h : resetEnvironment shared = resetEnvironment shared')
    (results : ScenarioResults) (call : ScenarioCall ω) :
    (answer bodies results shared call).1 = (answer bodies results shared' call).1 ∧
      (answer bodies results shared call).2.1 = (answer bodies results shared' call).2.1 ∧
      resetEnvironment (answer bodies results shared call).2.2 =
        resetEnvironment (answer bodies results shared' call).2.2 := by
  cases call with
  | listScenarios => exact ⟨rfl, rfl, h⟩
  | runScenario vtcId w =>
    simp only [answer, runScenario]
    split_ifs with hid
    · rw [h]
      exact ⟨rfl, rfl, rfl⟩
    · refine ⟨rfl, rfl, ?_⟩
      have hprofiler := congrArg SharedState.profiler h
      exact congrArg (SharedState.mk _) hprofiler
  | getResult vtcId => exact ⟨rfl, rfl, h⟩

theorem ProfiledStack.transmitSecured_budgetMs (D : Digests) (w : ProfiledStack) (p : String)
    (b : Bytes) (t : Transport) :
    (w.transmitSecured D p b t).2.profiler.budgetMs = w.profiler.budgetMs := by
  rcases transmitSecured_cases D w p b t (f := fun _ => w.overNow) rfl with
    ⟨e, he, -⟩ | ⟨e, csm, he, -⟩ | ⟨frame, csm, he, -⟩ <;>
  rw [he] <;> rfl

namespace Server
variable {ω : Type} {D : Digests} {bodies : ScenarioBodies ω} (s : Server) {r : Request}
  (clock : Clock)

theorem request_of_quiet (h : r.sends = none) : s.request D r clock =
    ((s.app.request D r).1, { s with app := (s.app.request D r).2 }) := by
  rw [request, h]

theorem request_of_sends {p : String} {b : Bytes} {t : Transport} (h : r.sends = some (p, b, t)) :
    s.request D r clock =
      (((s.app.withOracle fun _ => (s.profiled clock).overNow).request D r).1,
        { s with
          app := ((s.app.withOracle fun _ => (s.profiled clock).overNow).request D r).2
          profiler := ((s.profiled clock).transmitSecured D p b t).2.profiler }) := by
  rw [request, h]

/-- What a request sends is what the stack with the profiler sends. -/
theorem request_profiled {p : String} {b : Bytes} {t : Transport}
    (h : r.sends = some (p, b, t)) : ∃ calls, (s.request D r clock).1.calls =
      .transmitted ((s.profiled clock).transmitSecured D p b t).1 :: calls := by
  let w := s.profiled clock
  let a := s.app.withOracle fun _ => w.overNow
  obtain ⟨calls, hcalls, -⟩ := a.request_sends (D := D) h
  refine ⟨calls, ?_⟩
  rw [request_of_sends s clock h, hcalls]
  rcases ProfiledStack.transmitSecured_cases D w p b t (f := fun _ => w.overNow) rfl with
    ⟨e, he, he'⟩ | ⟨e, csm, he, he'⟩ | ⟨frame, csm, he, he'⟩ <;>
  · have hsent : a.stack.transmitSecured D p b t = _ := he'
    rw [hsent, he]

theorem request_results : (s.request D r clock).2.results = s.results ∧
    (s.request D r clock).2.profiler.budgetMs = s.profiler.budgetMs := by
  cases h : r.sends with
  | none =>
    rw [request_of_quiet s clock h]
    exact ⟨rfl, rfl⟩
  | some sent =>
    obtain ⟨p, b, t⟩ := sent
    rw [request_of_sends s clock h]
    exact ⟨rfl, (s.profiled clock).transmitSecured_budgetMs D p b t⟩

theorem resetEnvironment_request :
    ScenarioRunner.resetEnvironment (s.request D r clock).2.shared =
      ScenarioRunner.resetEnvironment s.shared := by
  obtain ⟨-, hbudget⟩ := s.request_results (D := D) (r := r) clock
  unfold ScenarioRunner.resetEnvironment PerformanceProfiler.reset shared
  simp only [hbudget]

structure SameRunner (s t : Server) : Prop where
  results : s.results = t.results
  resets : ScenarioRunner.resetEnvironment s.shared = ScenarioRunner.resetEnvironment t.shared

/-- Two servers that the requests, the replay attack's apart, cannot tell apart. -/
def SameApp (s t : Server) : Prop :=
  ∃ bus captured, s.app = t.app.onBus bus captured

theorem request_sameApp {s t : Server} (h : SameApp s t) (hcaptures : r.captures = false)
    (hreplays : r.replays = false) :
    (s.request D r clock).1 = (t.request D r clock).1 ∧
      SameApp (s.request D r clock).2 (t.request D r clock).2 := by
  obtain ⟨bus, captured, happ⟩ := h
  cases hsends : r.sends with
  | none =>
    obtain ⟨bus', hrequest⟩ := t.app.request_onBus (D := D) bus captured hcaptures hreplays
    rw [request_of_quiet s clock hsends, request_of_quiet t clock hsends, happ, hrequest]
    exact ⟨rfl, bus', captured, rfl⟩
  | some sent =>
    obtain ⟨p, b, q⟩ := sent
    -- the clock alone says whether the MAC generation takes too long
    let f : Nat → Bool := fun _ => (t.profiled clock).overNow
    have hover : (s.profiled clock).overNow = (t.profiled clock).overNow := rfl
    have hswap : (t.app.onBus bus captured).withOracle f =
        (t.app.withOracle f).onBus bus captured := rfl
    obtain ⟨bus', hrequest⟩ :=
      (t.app.withOracle f).request_onBus (D := D) bus captured hcaptures hreplays
    rw [request_of_sends s clock hsends, request_of_sends t clock hsends, hover, happ, hswap,
      hrequest]
    exact ⟨rfl, bus', captured, rfl⟩

/-- **Scenario runs and the live application keep out of each other's way.** The scenario endpoints
answer as if no request had come in between, and where no frame is replayed the requests are
answered as if no scenario had been run: the application is left the same but for the bus and the
frames captured from it. -/
theorem scenarios_isolated (D : Digests) (bodies : ScenarioBodies ω) (s : Server)
    (calls : List (ServerCall ω)) :
    ((machine D bodies).outputs s calls).filter ServerEvent.isScenario =
        (machine D bodies).outputs s (calls.filter ServerCall.isScenario) ∧
      ((∀ call ∈ calls, call.replays = false) →
        ((machine D bodies).outputs s calls).filter ServerEvent.isAnswer =
            (machine D bodies).outputs s (calls.filter ServerCall.isRequest) ∧
          SameApp ((machine D bodies).exec s calls)
            ((machine D bodies).exec s (calls.filter ServerCall.isRequest))) := by
  constructor
  · -- a scenario finds the bus and the profiler reset, so only the results and the budget matter
    have hsame : SameRunner s s := ⟨rfl, rfl⟩
    refine (Mealy.outputs_filter (R := SameRunner) (G := fun _ => True) ?_ ?_ hsame
      fun _ _ => trivial).1
    · rintro s t (⟨r, clock⟩ | call) h - hown
      · cases hown
      · obtain ⟨hanswer, hresults, hresets⟩ :=
          ScenarioRunner.answer_congr bodies h.resets t.results call
        refine ⟨rfl, ?_, ?_, ?_⟩
        · simp only [machine, step, h.results, hanswer]
        · simp only [machine, step, h.results, hresults]
        · simp only [machine, step, h.results]
          exact hresets
    · rintro s t (⟨r, clock⟩ | call) h - hother
      · obtain ⟨hresults, -⟩ := s.request_results (D := D) (r := r) clock
        have hresets := s.resetEnvironment_request (D := D) (r := r) clock
        exact ⟨rfl, hresults.trans h.results, hresets.trans h.resets⟩
      · cases hother
  · intro hcalls
    have hsame : SameApp s s := ⟨s.app.stack.bus, s.app.captured, rfl⟩
    refine Mealy.outputs_filter (R := SameApp) (G := fun call => call.replays = false) ?_ ?_ hsame
      hcalls
    · rintro s t (⟨r, clock⟩ | call) h hreplays hown
      · have hcaptures : r.captures = false := Bool.not_eq_true' _ ▸ hown
        obtain ⟨hanswer, hnext⟩ := request_sameApp (D := D) clock h hcaptures hreplays
        refine ⟨hown, ?_, hnext⟩
        simp only [machine, step, hanswer]
      · cases hown
    · rintro s t (⟨r, clock⟩ | call) ⟨bus, captured, happ⟩ hreplays hother
      · refine ⟨hother, ?_⟩
        cases r with
        | replayCapture p =>
          have hcaptured := s.app.replayCapture_onBus (D := D) p
          refine ⟨s.app.stack.bus, (ReplayAttack.capture s.app.captured s.app.stack.bus p).2, ?_⟩
          simp only [machine, step]
          rw [request_of_quiet s clock rfl, hcaptured, happ]
          rfl
        | _ => cases hother
      · refine ⟨rfl, (ScenarioRunner.answer bodies s.results s.shared call).2.2.bus, captured, ?_⟩
        simp only [machine, step, happ]
        rfl

theorem scenarios_isolated_shipped :
    let bodies : ScenarioBodies Unit := fun vtcId _ shared =>
      (([], .returned), { shared with bus := shared.bus.start.publish vtcId [0] })
    let s : Server :=
      { app := AppState.shippedApp .standard (toBytesBE 32)
        profiler := PerformanceProfiler.new Config.macWcetBudgetMs
        results := Dict.empty }
    let clock : Clock := RandomSource.new fun n => n
    let sent : ServerCall Unit := .request (.transmitSecured "PDU_0x100" "01" "CAN_FD") clock
    let calls : List (ServerCall Unit) :=
      [sent, .scenario (.runScenario "VTC-SR-01" ()), sent, .scenario (.getResult "VTC-SR-01")]
    let passed : ServerEvent := .scenario (.result ⟨"VTC-SR-01", .passed, [], none⟩)
    ((machine .standard bodies).outputs s calls).filter ServerEvent.isScenario = [passed, passed] ∧
      ((machine .standard bodies).outputs s calls).filter ServerEvent.isAnswer =
        (machine .standard bodies).outputs s [sent, sent] := by
  intro bodies s clock sent calls passed
  have hcalls : ∀ call ∈ calls, call.replays = false := by
    intro call hcall
    simp only [calls, List.mem_cons, List.not_mem_nil, or_false] at hcall
    rcases hcall with rfl | rfl | rfl | rfl <;> rfl
  obtain ⟨hscenarios, hanswers⟩ := scenarios_isolated .standard bodies s calls
  exact ⟨hscenarios, (hanswers hcalls).1⟩

end Server

end SecOC
