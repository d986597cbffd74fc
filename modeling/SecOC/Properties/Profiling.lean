import SecOC.Properties.BusTraffic
import SecOC.Sim.PerformanceProfiler

/-! The profiler against the stack. Which MAC generations took too long can be read off the clock,
so a stack with a profiler is one with an oracle for that; and the profiler's summary, the event
log and the operation counter tell the same story of every run. -/

namespace SecOC
open Py FreshnessManager

namespace Stack

variable {D : Digests}

theorem verifyMac_withOracle (s : Stack) (f : Nat → Bool) (p : String) (a : Bytes) (v : Int)
    (mac : Bytes) (t : Transport) : (s.withOracle f).verifyMac D p a v mac t =
      (s.verifyMac D p a v mac t).map id (·.withOracle f) := by
  have hin : (s.withOracle f).macInput p a v t = s.macInput p a v t := rfl
  have hcsm : (s.withOracle f).csm = s.csm := rfl
  unfold verifyMac
  rw [hin, hcsm]
  rcases s.macInput p a v t with e | ⟨keyId, data, macLen⟩
  · rfl
  · simp only
    rcases HmacCrypto.generateMac D s.csm keyId data with ⟨_ | _, csm⟩ <;> rfl

theorem receiveSecured_withOracle (s : Stack) (f : Nat → Bool) (p : String) (frame : Bytes)
    (t : Transport) : (s.withOracle f).receiveSecured D p frame t =
      (s.receiveSecured D p frame t).map id (·.withOracle f) := by
  have hprofiles : (s.withOracle f).profiles = s.profiles := rfl
  have hnvm : (s.withOracle f).nvm = s.nvm := rfl
  have hmanager : (s.withOracle f).freshnessManager = s.freshnessManager := rfl
  unfold receiveSecured
  rw [hprofiles, hnvm, hmanager]
  simp only [verifyMac_withOracle]
  cases getProfile s.profiles p with
  | error e => rfl
  | ok profile =>
    simp only
    cases PduManager.parseSecuredPdu frame profile t with
    | error e => cases e <;> rfl
    | ok parts =>
      obtain ⟨payload, wire, mac⟩ := parts
      simp only
      rcases s.freshnessManager.validateFreshness s.nvm p wire with e | ⟨_ | _, counter⟩
      · rfl
      · rfl
      · simp only
        rcases s.verifyMac D p payload counter mac t with ⟨_ | _ | _, s'⟩
        · rfl
        · rfl
        · have hnvm' : (s'.withOracle f).nvm = s'.nvm := rfl
          simp only [Prod.map, id, hnvm']
          rcases commitFreshness s'.nvm p counter with ⟨_ | _, nvm⟩ <;> rfl

theorem receiveSecured_authenticator (s : Stack) (p : String) (frame : Bytes) (t : Transport) :
    (s.receiveSecured D p frame t).2.authenticator = s.authenticator := by
  rcases isEmpty_or_nonempty (Acceptance D s p frame t) with h | ⟨⟨A⟩⟩
  · rcases receiveSecured_refused h with ⟨e, c, -, he⟩ | ⟨reason, c, -, -, he⟩
    · rw [he]
    · rw [he]
      rfl
  · obtain ⟨bus, he⟩ := A.receiveSecured_snd
    rw [he]
    rfl

theorem build_of_macInput {s : Stack} {p : String} {a : Bytes} {v : Int} {t : Transport}
    {profile : SecurityProfileEntry} {r : String × Bytes × Int}
    (hp : getProfile s.profiles p = .ok profile) (hin : s.macInput p a v t = .ok r)
    (mac : Bytes) : ∃ frame, PduManager.buildSecuredPdu a v mac profile t = .ok frame := by
  obtain ⟨keyId, data, macLen⟩ := r
  obtain ⟨profile', n, hp', -, hl, hn⟩ := macInput_eq_ok hin
  rw [getProfile_eq_ok.mp hp] at hp'
  cases hp'
  lift n to Nat using hn
  exact ⟨_, PduManager.buildSecuredPdu_ok hl (freshnessBytes_eq v n) a mac⟩

end Stack

namespace ProfiledStack
variable {D : Digests} {w : ProfiledStack}

def started (w : ProfiledStack) (pduId : String) (csm : CSM) : ProfiledStack where
  stack := { w.stack with
    authenticator := { w.stack.authenticator with opSeq := w.stack.authenticator.opSeq + 1 }
    csm := csm }
  profiler := (w.profiler.start (opId pduId w.stack.authenticator.opSeq) w.clock).1
  clock := w.clock.advance

def timed (w : ProfiledStack) (pduId : String) (csm : CSM) : ProfiledStack where
  stack := logWcet { w.stack with
    authenticator := { w.stack.authenticator with opSeq := w.stack.authenticator.opSeq + 1 }
    csm := csm } w.elapsedNow
  profiler := w.profiler.record (opId pduId w.stack.authenticator.opSeq) w.elapsedNow
  clock := w.clock.advance.advance

theorem stop_start (p : PerformanceProfiler) (id : String) (clock : Clock) :
    (p.start id clock).1.stop id (p.start id clock).2 =
      (PerformanceProfiler.elapsed clock.value clock.advance.value,
        p.record id (PerformanceProfiler.elapsed clock.value clock.advance.value),
        clock.advance.advance) := by
  -- what an operation that is started and stopped leaves: the start is gone again
  unfold PerformanceProfiler.start PerformanceProfiler.stop PerformanceProfiler.record
  simp only [Dict.get?_set_self, Dict.erase_set_self]

theorem logWcet_withOracle (s : Stack) (e : Js.Number) {f : Nat → Bool} {op : Nat}
    (hf : f op = decide (Config.macWcetBudgetMs < e)) :
    (s.withOracle f).logOverrun op = (logWcet s e).withOracle f := by
  unfold Stack.logOverrun logWcet
  rw [show (s.withOracle f).authenticator.overBudget op = f op from rfl, hf]
  by_cases he : Config.macWcetBudgetMs < e
  · rw [if_pos he, if_pos (decide_eq_true he)]
    rfl
  · rw [if_neg he, if_neg (by simpa using he)]

theorem generateMac_cases (D : Digests) (w : ProfiledStack) (p : String) (a : Bytes) (v : Int)
    (t : Transport) {f : Nat → Bool} (hf : f w.stack.authenticator.opSeq = w.overNow) :
    (∃ e, w.generateMac D p a v t = (.error e, w) ∧
      (w.withOracle f).generateMac D p a v t = (.error e, w.withOracle f)) ∨
    (∃ e csm, w.generateMac D p a v t = (.error e, w.started p csm) ∧
      (w.withOracle f).generateMac D p a v t = (.error e, (w.started p csm).withOracle f)) ∨
    (∃ mac csm r, w.stack.macInput p a v t = .ok r ∧
      w.generateMac D p a v t = (.ok mac, w.timed p csm) ∧
      (w.withOracle f).generateMac D p a v t = (.ok mac, (w.timed p csm).withOracle f)) := by
  have hin' : (w.withOracle f).macInput p a v t = w.stack.macInput p a v t := rfl
  have hcsm' : (w.withOracle f).csm = w.stack.csm := rfl
  unfold generateMac Stack.generateMac
  rw [hin']
  rcases hin : w.stack.macInput p a v t with e | ⟨keyId, data, macLen⟩
  · exact Or.inl ⟨e, rfl, rfl⟩
  · simp only [hcsm', stop_start]
    rcases HmacCrypto.generateMac D w.stack.csm keyId data with ⟨e | fullMac, csm⟩
    · exact Or.inr (Or.inl ⟨e, csm, rfl, rfl⟩)
    · let s : Stack := { w.stack with
        authenticator := { w.stack.authenticator with opSeq := w.stack.authenticator.opSeq + 1 }
        csm := csm }
      have hlog : (s.withOracle f).logOverrun w.stack.authenticator.opSeq =
          (logWcet s w.elapsedNow).withOracle f := logWcet_withOracle s w.elapsedNow hf
      exact Or.inr (Or.inr ⟨_, csm, _, rfl, rfl, congrArg (Prod.mk _) hlog⟩)

theorem transmitSecured_cases (D : Digests) (w : ProfiledStack) (p : String) (a : Bytes)
    (t : Transport) {f : Nat → Bool} (hf : f w.stack.authenticator.opSeq = w.overNow) :
    (∃ e, w.transmitSecured D p a t = (.error e, w) ∧
      (w.withOracle f).transmitSecured D p a t = (.error e, w.withOracle f)) ∨
    (∃ e csm, w.transmitSecured D p a t = (.error e, w.started p csm) ∧
      (w.withOracle f).transmitSecured D p a t = (.error e, (w.started p csm).withOracle f)) ∨
    (∃ frame csm, w.transmitSecured D p a t = (.ok frame, w.timed p csm) ∧
      (w.withOracle f).transmitSecured D p a t = (.ok frame, (w.timed p csm).withOracle f)) := by
  have hprofiles : (w.withOracle f).profiles = w.stack.profiles := rfl
  have hnvm : (w.withOracle f).nvm = w.stack.nvm := rfl
  unfold transmitSecured Stack.transmitSecured
  rw [hprofiles, hnvm]
  rcases hp : getProfile w.stack.profiles p with e | profile
  · exact Or.inl ⟨e, rfl, rfl⟩
  · simp only
    split_ifs with hlong
    · exact Or.inl ⟨_, rfl, rfl⟩
    · rcases (loadLastValidFreshness w.stack.nvm p).asInt with e | lastValid
      · exact Or.inl ⟨e, rfl, rfl⟩
      · simp only
        rcases generateMac_cases D w p (Stack.padded t a) (lastValid + 1) t hf with
          ⟨e, he, he'⟩ | ⟨e, csm, he, he'⟩ | ⟨mac, csm, r, hin, he, he'⟩
        · rw [he, he']
          exact Or.inl ⟨e, rfl, rfl⟩
        · rw [he, he']
          exact Or.inr (Or.inl ⟨e, csm, rfl, rfl⟩)
        · rw [he, he']
          obtain ⟨frame, hframe⟩ := Stack.build_of_macInput hp hin mac
          simp only [hframe]
          exact Or.inr (Or.inr ⟨frame, csm, rfl, rfl⟩)

theorem receiveSecured_eq (w : ProfiledStack) (p : String) (frame : Bytes) (t : Transport) :
    w.receiveSecured D p frame t = ((w.stack.receiveSecured D p frame t).1,
      { w with stack := (w.stack.receiveSecured D p frame t).2 }) := rfl

theorem call_clock (D : Digests) (w : ProfiledStack) (c : Call) :
    ((w.call D c).2.stack.authenticator.opSeq = w.stack.authenticator.opSeq ∧
      (w.call D c).2.clock = w.clock) ∨
    w.stack.authenticator.opSeq < (w.call D c).2.stack.authenticator.opSeq := by
  cases c with
  | transmit p a t =>
    let f : Nat → Bool := fun _ => w.overNow
    rcases transmitSecured_cases D w p a t (f := f) rfl with
      ⟨e, he, -⟩ | ⟨e, csm, he, -⟩ | ⟨frame, csm, he, -⟩
    · rw [call, he]
      exact Or.inl ⟨rfl, rfl⟩
    · rw [call, he]
      exact Or.inr (Nat.lt_succ_self _)
    · simp only [call, he, timed, logWcet]
      split_ifs <;> exact Or.inr (Nat.lt_succ_self _)
  | receive p frame t =>
    refine Or.inl ⟨?_, rfl⟩
    rw [call, receiveSecured_eq]
    simp only [Stack.receiveSecured_authenticator]

theorem call_withOracle (D : Digests) (w : ProfiledStack) (c : Call) {f : Nat → Bool}
    (hf : f w.stack.authenticator.opSeq = w.overNow) :
    (w.withOracle f).call D c = (w.call D c).map id (·.withOracle f) := by
  cases c with
  | transmit p a t =>
    rcases transmitSecured_cases D w p a t hf with
      ⟨e, he, he'⟩ | ⟨e, csm, he, he'⟩ | ⟨frame, csm, he, he'⟩
    all_goals
      simp only [call, Stack.call, he, he']
      rfl
  | receive p frame t =>
    have hreceive := Stack.receiveSecured_withOracle (D := D) w.stack f p frame t
    simp only [call, Stack.call, receiveSecured_eq]
    rw [show w.withOracle f = w.stack.withOracle f from rfl, hreceive]
    rfl

/-- The overruns of a run, read off the clock as it was before each operation. -/
def oracle (D : Digests) : ProfiledStack → List Call → Nat → Bool
  | w, [] => fun _ => w.overNow
  | w, c :: calls =>
    Function.update (oracle D (w.call D c).2 calls) w.stack.authenticator.opSeq w.overNow

theorem oracle_opSeq (D : Digests) (w : ProfiledStack) (calls : List Call) :
    oracle D w calls w.stack.authenticator.opSeq = w.overNow := by
  cases calls with
  | nil => rfl
  | cons c calls => exact Function.update_self ..

theorem run_withOracle (D : Digests) (calls : List Call) {w : ProfiledStack} {f : Nat → Bool}
    (hf : ∀ n, w.stack.authenticator.opSeq ≤ n → f n = oracle D w calls n) :
    (machine D).outputs w calls = (Stack.machine D).outputs (w.withOracle f) calls ∧
      ((machine D).exec w calls).withOracle f =
        (Stack.machine D).exec (w.withOracle f) calls := by
  -- only what the oracle says of operations still to come matters
  induction calls generalizing w with
  | nil => exact ⟨rfl, rfl⟩
  | cons c calls ih =>
    have hnow : f w.stack.authenticator.opSeq = w.overNow :=
      (hf _ le_rfl).trans (oracle_opSeq D w (c :: calls))
    have hstep := call_withOracle D w c hnow
    have hnext : ∀ n, (w.call D c).2.stack.authenticator.opSeq ≤ n →
        f n = oracle D (w.call D c).2 calls n := by
      intro n hn
      have hrest : n ≠ w.stack.authenticator.opSeq → w.stack.authenticator.opSeq ≤ n →
          f n = oracle D (w.call D c).2 calls n := by
        intro hne hle
        rw [hf n hle, oracle, Function.update_of_ne hne]
      rcases call_clock D w c with ⟨hsame, hclock⟩ | hlt
      · by_cases hne : n = w.stack.authenticator.opSeq
        · have hover : (w.call D c).2.overNow = w.overNow := by
            unfold overNow elapsedNow
            rw [hclock]
          rw [hne, hnow, ← hsame, oracle_opSeq, hover]
        · exact hrest hne (hsame ▸ hn)
      · exact hrest (hlt.trans_le hn).ne' (hlt.le.trans hn)
    obtain ⟨hout, hend⟩ := ih hnext
    have hstep' : (Stack.machine D).step (w.withOracle f) c =
        ((w.call D c).1, (w.call D c).2.withOracle f) := hstep
    rw [Mealy.outputs, Mealy.outputs, Mealy.exec_cons, Mealy.exec_cons, hstep']
    exact ⟨congrArg _ hout, hend⟩

/-- **With the profiler in place a stack does what it does under some oracle for the overruns.** -/
theorem profiled_is_stack (D : Digests) (w : ProfiledStack) (calls : List Call) :
    ∃ overBudget,
      (machine D).outputs w calls = (Stack.machine D).outputs (w.withOracle overBudget) calls ∧
        ((machine D).exec w calls).withOracle overBudget =
          (Stack.machine D).exec (w.withOracle overBudget) calls :=
  ⟨oracle D w calls, run_withOracle D calls fun _ _ => rfl⟩

/-! The profiler's books. -/

theorem colon_notMem_repr (n : Nat) : ':' ∉ (Nat.repr n).toList := by
  intro h
  have := Nat.isDigit_of_mem_toDigits (by decide) (by decide) (Nat.toList_repr ▸ h)
  exact absurd this (by decide)

theorem opId_inj {p q : String} {n m : Nat} (h : opId p n = opId q m) : n = m := by
  -- whatever the PDU ids look like, the number behind the last colon is the operation's
  have hback : ∀ (p : String) (n : Nat),
      (opId p n).toList.reverse.takeWhile (· ≠ ':') = (Nat.repr n).toList.reverse := by
    intro p n
    have hlist : (opId p n).toList =
        (p ++ ":generate_mac").toList ++ ':' :: (Nat.repr n).toList := by
      simp [opId, toString, String.toList_append]
    rw [hlist, List.reverse_append, List.reverse_cons, List.append_assoc,
      List.takeWhile_append_of_pos]
    · simp
    · intro c hc
      have hne : c ≠ ':' := by
        rintro rfl
        exact colon_notMem_repr n (List.mem_reverse.mp hc)
      simpa using hne
  have hdigits : (Nat.repr n).toList = (Nat.repr m).toList := by
    rw [← List.reverse_inj, ← hback p n, ← hback q m, h]
  rw [← Nat.ofDigitChars_ten_toDigits (n := n), ← Nat.toList_repr, hdigits, Nat.toList_repr,
    Nat.ofDigitChars_ten_toDigits]

end ProfiledStack

def Stack.overruns (s : Stack) : Nat :=
  s.escalation.dem.events.countP fun e => e.eventId = "WCET_EXCEEDED"

def Outcome.sent : Outcome → Bool
  | .transmitted (.ok _) => true
  | _ => false

def PerformanceProfiler.ids (p : PerformanceProfiler) : List String :=
  p.samples.map (·.operationId) ++ p.starts.items.map Prod.fst

def PerformanceProfiler.exceeded (p : PerformanceProfiler) : Nat :=
  p.samples.countP fun s => s.status = .exceeded

namespace Stack
variable {D : Digests}

theorem receiveSecured_overruns (s : Stack) (p : String) (frame : Bytes) (t : Transport) :
    (s.receiveSecured D p frame t).2.overruns = s.overruns := by
  rcases isEmpty_or_nonempty (Acceptance D s p frame t) with h | ⟨⟨A⟩⟩
  · rcases receiveSecured_refused h with ⟨e, c, -, he⟩ | ⟨reason, c, -, -, he⟩
    · rw [he]
      rfl
    · have hid : ¬decide ((EventLogger.rejection p reason).eventId = "WCET_EXCEEDED") = true := by
        have hauth : (EventLogger.rejection p reason).eventId = "SECOC_AUTH_FAIL" := by
          cases reason <;> rfl
        rw [hauth]
        decide
      rw [he, overruns, reject, (s.escalation.reject_log p reason).1, List.countP_append,
        List.countP_cons, if_neg hid]
      split_ifs <;> rfl
  · obtain ⟨bus, he⟩ := A.receiveSecured_snd
    rw [he]
    rfl

end Stack

namespace ProfiledStack
variable {D : Digests} {w w₀ : ProfiledStack}

theorem timed_exceeded (w : ProfiledStack) (p : String) (csm : CSM) :
    (w.timed p csm).profiler.exceeded =
      w.profiler.exceeded + if w.profiler.budgetMs < w.elapsedNow then 1 else 0 := by
  unfold PerformanceProfiler.exceeded ProfiledStack.timed PerformanceProfiler.record
  rw [List.countP_append, List.countP_singleton]
  by_cases hover : w.profiler.budgetMs < w.elapsedNow
  · simp only [if_pos hover, decide_true, if_true]
  · simp only [if_neg hover, reduceCtorEq, decide_false, Bool.false_eq_true, if_false]

theorem timed_overruns (w : ProfiledStack) (p : String) (csm : CSM) :
    (w.timed p csm).stack.overruns =
      w.stack.overruns + if Config.macWcetBudgetMs < w.elapsedNow then 1 else 0 := by
  unfold Stack.overruns ProfiledStack.timed logWcet
  split_ifs
  · rw [EventLogger.log, DEM.log, List.countP_append]
    rfl
  · rfl

structure Operation where
  pduId : String
  number : Nat
  outcome : Outcome

def Operation.id (o : Operation) : String := opId o.pduId o.number

/-- A call that counts an operation has started it. -/
def operation (D : Digests) (w : ProfiledStack) : Call → Option Operation
  | .transmit p a t =>
    if (w.transmitSecured D p a t).2.stack.authenticator.opSeq = w.stack.authenticator.opSeq
    then none
    else some { pduId := p, number := w.stack.authenticator.opSeq
                outcome := .transmitted (w.transmitSecured D p a t).1 }
  | .receive .. => none

def operations (D : Digests) : ProfiledStack → List Call → List Operation
  | _, [] => []
  | w, c :: calls => (operation D w c).toList ++ operations D (w.call D c).2 calls

theorem operations_snoc (D : Digests) (w : ProfiledStack) (calls : List Call) (c : Call) :
    operations D w (calls ++ [c]) =
      operations D w calls ++ (operation D ((machine D).exec w calls) c).toList := by
  induction calls generalizing w with
  | nil => exact List.append_nil _
  | cons c' calls ih =>
    rw [List.cons_append, operations, ih, operations, List.append_assoc]
    rfl

structure Books (w₀ : ProfiledStack) (ops : List Operation) (outcomes : List Outcome)
    (w : ProfiledStack) : Prop where
  budget : w.profiler.budgetMs = Config.macWcetBudgetMs
  sampled : w.profiler.samples.length = outcomes.countP Outcome.sent
  logged : w.stack.overruns = w₀.stack.overruns + w.profiler.exceeded
  sampledIds : w.profiler.samples.map (·.operationId) = (ops.filter (·.outcome.sent)).map (·.id)
  openIds : w.profiler.starts.items.map Prod.fst = (ops.filter (!·.outcome.sent)).map (·.id)
  raised : ∀ o ∈ ops, o.outcome.sent = false → ∃ e, o.outcome = .transmitted (.error e)
  numbered : ops.map (·.number) = List.range' w₀.stack.authenticator.opSeq ops.length
  counted : w.stack.authenticator.opSeq = w₀.stack.authenticator.opSeq + ops.length

section Books
variable {ops : List Operation} {outcomes : List Outcome}

theorem Books.ids_perm (b : Books w₀ ops outcomes w) : w.profiler.ids.Perm (ops.map (·.id)) := by
  rw [PerformanceProfiler.ids, b.sampledIds, b.openIds, ← List.map_append]
  exact (List.filter_append_perm _ ops).map _

theorem Books.nodup (b : Books w₀ ops outcomes w) : w.profiler.ids.Nodup := by
  have hnumbers : (ops.map (·.number)).Nodup := b.numbered ▸ List.nodup_range'
  rw [b.ids_perm.nodup_iff, List.Nodup, List.pairwise_map]
  exact (List.pairwise_map.mp hnumbers).imp fun hne hid => hne (opId_inj hid)

theorem Books.unstarted (b : Books w₀ ops outcomes w) (p : String) :
    opId p w.stack.authenticator.opSeq ∉ w.profiler.starts.items.map Prod.fst := by
  intro hmem
  obtain ⟨o, ho, hid⟩ :=
    List.mem_map.mp (b.ids_perm.mem_iff.mp (List.mem_append_right _ hmem))
  have hnumber := List.mem_map_of_mem (f := Operation.number) ho
  rw [b.numbered, List.mem_range'_1, opId_inj hid, b.counted] at hnumber
  exact lt_irrefl _ hnumber.2

theorem Books.quiet (b : Books w₀ ops outcomes w) {o : Outcome} (ho : o.sent = false) :
    Books w₀ ops (outcomes ++ [o]) w := by
  refine { b with sampled := ?_ }
  rw [List.countP_append, List.countP_singleton, ho]
  exact b.sampled

theorem Books.numbered_snoc (b : Books w₀ ops outcomes w) {o : Operation}
    (ho : o.number = w.stack.authenticator.opSeq) :
    (ops ++ [o]).map (·.number) =
      List.range' w₀.stack.authenticator.opSeq (ops ++ [o]).length := by
  rw [List.map_append, List.length_append, List.length_singleton, List.range'_concat, b.numbered,
    List.map_singleton, ho, b.counted, one_mul]

theorem Books.started (b : Books w₀ ops outcomes w) (p : String) (csm : CSM) (e : PyError) :
    Books w₀ (ops ++ [⟨p, w.stack.authenticator.opSeq, .transmitted (.error e)⟩])
      (outcomes ++ [.transmitted (.error e)]) (w.started p csm) := by
  have hitems : (w.started p csm).profiler.starts.items = w.profiler.starts.items ++
      [(opId p w.stack.authenticator.opSeq, w.clock.value)] :=
    Dict.set_items_of_none (b.unstarted p) _
  refine Books.quiet (w := w.started p csm) { b with
    sampledIds := ?_, openIds := ?_, raised := ?_, numbered := b.numbered_snoc rfl, counted := ?_ }
    rfl
  · rw [List.filter_append, List.map_append]
    exact b.sampledIds.trans (List.append_nil _).symm
  · rw [hitems, List.map_append, b.openIds, List.filter_append, List.map_append]
    rfl
  · exact List.forall_mem_append.mpr ⟨b.raised, List.forall_mem_singleton.mpr fun _ => ⟨e, rfl⟩⟩
  · rw [List.length_append, ← Nat.add_assoc, ← b.counted]
    rfl

theorem Books.timed (b : Books w₀ ops outcomes w) (p : String) (csm : CSM) (frame : Bytes) :
    Books w₀ (ops ++ [⟨p, w.stack.authenticator.opSeq, .transmitted (.ok frame)⟩])
      (outcomes ++ [.transmitted (.ok frame)]) (w.timed p csm) := by
  have hstarts : (w.timed p csm).profiler.starts = w.profiler.starts :=
    Dict.erase_of_none (b.unstarted p)
  have hseq : (w.timed p csm).stack.authenticator.opSeq = w.stack.authenticator.opSeq + 1 := by
    simp only [ProfiledStack.timed, logWcet]
    split_ifs <;> rfl
  refine ⟨b.budget, ?_, ?_, ?_, ?_, ?_, b.numbered_snoc rfl, ?_⟩
  · rw [List.countP_append, ← b.sampled]
    exact List.length_append
  · -- the profiler's verdict and the authenticator's compare with the same budget
    rw [timed_overruns, timed_exceeded, b.budget, b.logged, Nat.add_assoc]
  · rw [List.filter_append, List.map_append, ← b.sampledIds]
    exact List.map_append
  · rw [hstarts, b.openIds, List.filter_append, List.map_append]
    exact (List.append_nil _).symm
  · exact List.forall_mem_append.mpr ⟨b.raised, List.forall_mem_singleton.mpr nofun⟩
  · rw [hseq, List.length_append, ← Nat.add_assoc, ← b.counted]
    rfl

theorem Books.call (b : Books w₀ ops outcomes w) (c : Call) :
    Books w₀ (ops ++ (operation D w c).toList) (outcomes ++ [(ProfiledStack.call D w c).1])
      (ProfiledStack.call D w c).2 := by
  cases c with
  | transmit p a t =>
    let f : Nat → Bool := fun _ => w.overNow
    rcases transmitSecured_cases D w p a t (f := f) rfl with
      ⟨e, he, -⟩ | ⟨e, csm, he, -⟩ | ⟨frame, csm, he, -⟩
    · rw [ProfiledStack.call, operation, he, if_pos rfl, Option.toList_none, List.append_nil]
      exact b.quiet rfl
    · have hseq : (w.started p csm).stack.authenticator.opSeq ≠ w.stack.authenticator.opSeq :=
        Nat.succ_ne_self _
      rw [ProfiledStack.call, operation, he, if_neg hseq]
      exact b.started p csm e
    · have hseq : (w.timed p csm).stack.authenticator.opSeq ≠ w.stack.authenticator.opSeq := by
        simp only [ProfiledStack.timed, logWcet]
        split_ifs <;> exact Nat.succ_ne_self _
      rw [ProfiledStack.call, operation, he, if_neg hseq]
      exact b.timed p csm frame
  | receive p frame t =>
    have hseq := Stack.receiveSecured_authenticator (D := D) w.stack p frame t
    have hover := Stack.receiveSecured_overruns (D := D) w.stack p frame t
    let w' : ProfiledStack := { w with stack := (w.stack.receiveSecured D p frame t).2 }
    have hseq' : w'.stack.authenticator.opSeq = w.stack.authenticator.opSeq :=
      congrArg Authenticator.opSeq hseq
    have hbooks : Books w₀ ops outcomes w' :=
      { b with logged := hover.trans b.logged, counted := hseq'.trans b.counted }
    rw [operation, Option.toList_none, List.append_nil]
    exact hbooks.quiet rfl

end Books

/-- **The profiler accounts for every run since it was reset**: a sample for each frame that went
out, an overrun in the log for each sample over the budget, and a start left open for each MAC
generation that raised, numbered in the order of the calls. -/
theorem profiler_accounts (D : Digests) (w : ProfiledStack)
    (hbudget : w.profiler.budgetMs = Config.macWcetBudgetMs) (calls : List Call) :
    let w₀ : ProfiledStack := { w with profiler := w.profiler.reset }
    let w₁ := (machine D).exec w₀ calls
    let ops := operations D w₀ calls
    w₁.profiler.getSummary.count = ((machine D).outputs w₀ calls).countP Outcome.sent ∧
      w₁.stack.overruns = w.stack.overruns + w₁.profiler.getSummary.exceededCount ∧
      w.stack.authenticator.opSeq + w₁.profiler.getSummary.count +
        w₁.profiler.starts.items.length = w₁.stack.authenticator.opSeq ∧
      w₁.profiler.samples.map (·.operationId) = (ops.filter (·.outcome.sent)).map (·.id) ∧
      w₁.profiler.starts.items.map Prod.fst = (ops.filter (!·.outcome.sent)).map (·.id) ∧
      (∀ o ∈ ops, o.outcome.sent = false → ∃ e, o.outcome = .transmitted (.error e)) ∧
      ops.map (·.number) = List.range' w.stack.authenticator.opSeq ops.length ∧
      w₁.profiler.ids.Nodup := by
  intro w₀ w₁ ops
  have hbooks : Books w₀ ops ((machine D).outputs w₀ calls) w₁ := by
    induction calls using List.reverseRecOn with
    | nil => exact ⟨hbudget, rfl, rfl, rfl, rfl, List.forall_mem_nil _, rfl, rfl⟩
    | append_singleton calls c ih =>
      rw [Mealy.outputs_append, show w₁ = _ from Mealy.exec_snoc ..,
        show ops = _ from operations_snoc ..]
      exact ih.call c
  have hpartition : w₁.profiler.samples.length + w₁.profiler.starts.items.length = ops.length := by
    have hperm := hbooks.ids_perm.length_eq
    simpa only [PerformanceProfiler.ids, List.length_append, List.length_map] using hperm
  rw [PerformanceProfiler.getSummary_count, PerformanceProfiler.getSummary_exceededCount]
  refine ⟨hbooks.sampled, hbooks.logged, ?_, hbooks.sampledIds, hbooks.openIds, hbooks.raised,
    hbooks.numbered, hbooks.nodup⟩
  rw [Nat.add_assoc, hpartition]
  exact hbooks.counted.symm

def shippedProfiled : ProfiledStack :=
  { stack := Stack.shipped (toBytesBE 32)
    profiler := .new Config.macWcetBudgetMs
    clock := .new fun n => n }

def shippedFailing : ProfiledStack :=
  let s := shippedProfiled.stack
  { shippedProfiled with
    stack := { s with csm := { s.csm with hsm := { s.csm.hsm with failMode := true } } } }

theorem profiler_accounts_shipped :
    let calls : List Call := [.transmit "PDU_0x100" [1, 2] .canFd,
      .transmit "PDU_0x999" [] .canFd, .receive "PDU_0x100" [] .canFd]
    let w := (machine .standard).exec shippedProfiled calls
    let failed := (machine .standard).exec shippedFailing calls
    w.profiler.getSummary.count =
        ((machine .standard).outputs shippedProfiled calls).countP Outcome.sent ∧
      w.stack.overruns =
        shippedProfiled.stack.overruns + w.profiler.getSummary.exceededCount ∧
      failed.profiler.getSummary.count = 0 ∧
      failed.profiler.starts.items.map Prod.fst = ["PDU_0x100:generate_mac:0"] := by
  -- a payload that goes out on a PDU of the configuration; and one that does not, for the HSM
  intro calls w failed
  obtain ⟨hcount, hover, -⟩ := profiler_accounts .standard shippedProfiled rfl calls
  obtain ⟨hfailed, -, -, -, hopen, -⟩ := profiler_accounts .standard shippedFailing rfl calls
  exact ⟨hcount, hover, hfailed, hopen⟩

end ProfiledStack
end SecOC
