import Mathlib.Logic.Relation
import SecOC.Api.Routers

/-! What one request can do: the SecOC calls it makes, and the stack operations its effect is
made of. -/

namespace SecOC
open Py

def decodePdu (pduId hex transport : String) : Option (String × Bytes × Transport) :=
  match fromHex hex, parseTransport transport with
  | some bytes, .ok t => some (pduId, bytes, t)
  | _, _ => none

theorem decodePdu_some {p q hex tr : String} {b : Bytes} {t : Transport}
    (h : decodePdu p hex tr = some (q, b, t)) :
    p = q ∧ fromHex hex = some b ∧ parseTransport tr = .ok t := by
  unfold decodePdu at h
  split at h
  · next hb ht =>
    cases h
    exact ⟨rfl, hb, ht⟩
  · cases h

theorem decodePdu_toHex (p : String) (b : Bytes) (t : Transport) :
    decodePdu p (toHex b) t.value = some (p, b, t) := by
  rw [decodePdu, fromHex_toHex, parseTransport_value]

theorem decodePdu_none {p hex tr : String} (h : decodePdu p hex tr = none) :
    fromHex hex = none ∨ ∃ b detail, fromHex hex = some b ∧ parseTransport tr = .error detail := by
  unfold decodePdu at h
  cases hb : fromHex hex with
  | none => exact Or.inl rfl
  | some b =>
    cases ht : parseTransport tr with
    | error detail => exact Or.inr ⟨b, detail, rfl, rfl⟩
    | ok t =>
      rw [hb, ht] at h
      cases h

def Request.sends : Request → Option (String × Bytes × Transport)
  | .transmitSecured p payload t => decodePdu p payload t
  | .mitmTamper p payload t => decodePdu p payload t
  | _ => none

/-- The frame a request submits for reception, a tampered one apart. -/
def AppState.submits (a : AppState) : Request → Option (String × Bytes × Transport)
  | .receiveSecured p frame t => decodePdu p frame t
  | .validateSecured p frame t => decodePdu p frame t
  | .replayReplay p t => match (ReplayAttack.replay a.captured a.stack.bus p).queue with
    | [] => none
    | (_, frame) :: _ => decodePdu p (toHex frame) t
  | .forgeInject p mode => match parseForgeMode mode with
    | .ok m => some (p, FuzzingEngine.generateForgedPdu m, .canFd)
    | .error _ => none
  | _ => none

namespace AppState
variable {D : Digests} (a : AppState) {p hex tr : String} {b : Bytes} {t : Transport}

theorem transmitCall_cases :
    (∃ frame s, a.stack.transmitSecured D p b t = (.ok frame, s) ∧
      a.transmitCall D p b t = (.ok frame, .transmitted (.ok frame), { a with stack := s })) ∨
    ∃ e s response, a.stack.transmitSecured D p b t = (.error e, s) ∧
      a.transmitCall D p b t =
        (.error response, .transmitted (.error e), { a with stack := s }) := by
  unfold transmitCall
  rcases a.stack.transmitSecured D p b t with ⟨e | frame, s⟩
  · apply Or.inr
    cases e <;> exact ⟨_, s, _, rfl, rfl⟩
  · exact Or.inl ⟨frame, s, rfl, rfl⟩

theorem receiveSecured_some {q : String} (h : decodePdu p hex tr = some (q, b, t)) :
    (a.receiveSecured D p hex tr).1.calls = [.received (a.stack.receiveSecured D q b t).1] ∧
    (a.receiveSecured D p hex tr).2 =
      { a with stack := (a.stack.receiveSecured D q b t).2 } := by
  obtain ⟨rfl, hb, ht⟩ := decodePdu_some h
  simp only [receiveSecured, hb, ht]
  exact ⟨trivial, trivial⟩

theorem receiveSecured_none (h : decodePdu p hex tr = none) :
    (a.receiveSecured D p hex tr).1.calls = [] ∧ (a.receiveSecured D p hex tr).2 = a := by
  rcases decodePdu_none h with hb | ⟨b, detail, hb, ht⟩
  · simp only [receiveSecured, hb]
    exact ⟨rfl, rfl⟩
  · simp only [receiveSecured, hb, ht]
    exact ⟨rfl, rfl⟩

theorem transmitSecured_some {q : String} (h : decodePdu p hex tr = some (q, b, t)) :
    (a.transmitSecured D p hex tr).1.calls = [.transmitted (a.stack.transmitSecured D q b t).1] ∧
    (a.transmitSecured D p hex tr).2 =
      { a with stack := (a.stack.transmitSecured D q b t).2 } := by
  obtain ⟨rfl, hb, ht⟩ := decodePdu_some h
  simp only [transmitSecured, hb, ht]
  rcases a.transmitCall_cases (D := D) (p := p) (b := b) (t := t) with
    ⟨frame, s, hs, hc⟩ | ⟨e, s, response, hs, hc⟩ <;>
  · rw [hs, hc]
    exact ⟨rfl, rfl⟩

theorem transmitSecured_none (h : decodePdu p hex tr = none) :
    (a.transmitSecured D p hex tr).1.calls = [] ∧ (a.transmitSecured D p hex tr).2 = a := by
  rcases decodePdu_none h with hb | ⟨b, detail, hb, ht⟩
  · simp only [transmitSecured, hb]
    exact ⟨rfl, rfl⟩
  · simp only [transmitSecured, hb, ht]
    exact ⟨rfl, rfl⟩

theorem mitmTamper_some {q : String} (h : decodePdu p hex tr = some (q, b, t)) :
    ((∀ frame, (a.stack.transmitSecured D q b t).1 ≠ .ok frame) ∧
      (a.mitmTamper D p hex tr).1.calls = [.transmitted (a.stack.transmitSecured D q b t).1] ∧
      (a.mitmTamper D p hex tr).2 =
        { a with stack := (a.stack.transmitSecured D q b t).2 }) ∨
    ∃ frame answer, (a.stack.transmitSecured D q b t).1 = .ok frame ∧
      answer = ({ a with stack := (a.stack.transmitSecured D q b t).2 } : AppState).receiveSecured
        D p (toHex (MitmAttack.intercept frame)) tr ∧
      (a.mitmTamper D p hex tr).1.calls = .transmitted (.ok frame) :: answer.1.calls ∧
      (a.mitmTamper D p hex tr).2 = answer.2 := by
  obtain ⟨rfl, hb, ht⟩ := decodePdu_some h
  simp only [mitmTamper, hb, ht]
  rcases a.transmitCall_cases (D := D) (p := p) (b := b) (t := t) with
    ⟨frame, s, hs, hc⟩ | ⟨e, s, response, hs, hc⟩
  · rw [hs, hc]
    exact Or.inr ⟨frame, _, rfl, rfl, rfl, rfl⟩
  · rw [hs, hc]
    exact Or.inl ⟨fun frame h => (by cases h), rfl, rfl⟩

theorem mitmTamper_none (h : decodePdu p hex tr = none) :
    (a.mitmTamper D p hex tr).1.calls = [] ∧ (a.mitmTamper D p hex tr).2 = a := by
  rcases decodePdu_none h with hb | ⟨b, detail, hb, ht⟩
  · simp only [mitmTamper, hb]
    exact ⟨rfl, rfl⟩
  · simp only [mitmTamper, hb, ht]
    exact ⟨rfl, rfl⟩

theorem receiveSecured_made (p hex tr : String) :
    (a.receiveSecured D p hex tr).1.calls =
        (Stack.machine D).outputs a.stack (a.receiveSecured D p hex tr).1.made ∧
      (a.receiveSecured D p hex tr).2.stack =
        (Stack.machine D).exec a.stack (a.receiveSecured D p hex tr).1.made := by
  unfold receiveSecured
  split
  · exact ⟨rfl, rfl⟩
  · split <;> exact ⟨rfl, rfl⟩

theorem transmitSecured_made (p hex tr : String) :
    (a.transmitSecured D p hex tr).1.calls =
      (Stack.machine D).outputs a.stack (a.transmitSecured D p hex tr).1.made := by
  unfold transmitSecured
  split
  · rfl
  · next b _ =>
    split
    · rfl
    · next t _ =>
      rcases a.transmitCall_cases (D := D) (p := p) (b := b) (t := t) with
        ⟨frame, s, hs, hc⟩ | ⟨e, s, response, hs, hc⟩ <;>
      · simp only [hc, Stack.machine, Mealy.outputs, Stack.call, hs]

theorem mitmTamper_made (p hex tr : String) :
    (a.mitmTamper D p hex tr).1.calls =
      (Stack.machine D).outputs a.stack (a.mitmTamper D p hex tr).1.made := by
  unfold mitmTamper
  split
  · rfl
  · next b _ =>
    split
    · rfl
    · next t _ =>
      rcases a.transmitCall_cases (D := D) (p := p) (b := b) (t := t) with
        ⟨frame, s, hs, hc⟩ | ⟨e, s, response, hs, hc⟩
      · have hreceived := (receiveSecured_made (D := D) { a with stack := s } p
          (toHex (MitmAttack.intercept frame)) tr).1
        simp only [hc, hreceived, Stack.machine, Mealy.outputs, Stack.call, hs]
      · simp only [hc, Stack.machine, Mealy.outputs, Stack.call, hs]

theorem request_made (r : Request) : ∃ bus, (a.request D r).1.calls =
    (Stack.machine D).outputs { a.stack with bus := bus } (a.request D r).1.made := by
  cases r with
  | transmitSecured p payload tr => exact ⟨a.stack.bus, a.transmitSecured_made p payload tr⟩
  | receiveSecured p frame tr => exact ⟨a.stack.bus, (a.receiveSecured_made p frame tr).1⟩
  | validateSecured p frame tr => exact ⟨a.stack.bus, (a.receiveSecured_made p frame tr).1⟩
  | mitmTamper p payload tr => exact ⟨a.stack.bus, a.mitmTamper_made p payload tr⟩
  | replayReplay p tr =>
    simp only [request, replayReplay]
    split
    · exact ⟨a.stack.bus, rfl⟩
    · next frame bus _ => exact ⟨bus, ((a.withBus bus).receiveSecured_made p _ tr).1⟩
  | forgeInject p mode =>
    simp only [request, forgeInject]
    split
    · exact ⟨a.stack.bus, rfl⟩
    · exact ⟨a.stack.bus, (a.receiveSecured_made p _ _).1⟩
  | canSend p data =>
    simp only [request, canSend]
    split <;> exact ⟨a.stack.bus, rfl⟩
  | replayCapture p =>
    simp only [request, replayCapture]
    split <;> exact ⟨a.stack.bus, rfl⟩
  | updateProfileVersion p version =>
    simp only [request, updateProfileVersion]
    split
    · exact ⟨a.stack.bus, rfl⟩
    · exact ⟨a.stack.bus, rfl⟩
    · split <;> exact ⟨a.stack.bus, rfl⟩
  | provisionKey p keyId =>
    simp only [request, provisionKey]
    split <;> exact ⟨a.stack.bus, rfl⟩
  | rotateKey p keyId =>
    simp only [request, rotateKey]
    split <;> exact ⟨a.stack.bus, rfl⟩
  | resetEcu => exact ⟨a.stack.bus, rfl⟩

theorem request_sends {r : Request} {q : String} (h : r.sends = some (q, b, t)) :
    ∃ calls, (a.request D r).1.calls = .transmitted (a.stack.transmitSecured D q b t).1 :: calls ∧
      ((∀ frame, (a.stack.transmitSecured D q b t).1 ≠ .ok frame) → calls = [] ∧
        (a.request D r).2.stack = (a.stack.transmitSecured D q b t).2) := by
  cases r with
  | transmitSecured p payload tr =>
    obtain ⟨hcalls, hstate⟩ := a.transmitSecured_some (D := D) h
    exact ⟨[], hcalls, fun _ => ⟨rfl, congrArg AppState.stack hstate⟩⟩
  | mitmTamper p payload tr =>
    rcases a.mitmTamper_some (D := D) h with
      ⟨-, hcalls, hstate⟩ | ⟨frame, answer, hok, -, hcalls, -⟩
    · exact ⟨[], hcalls, fun _ => ⟨rfl, congrArg AppState.stack hstate⟩⟩
    · refine ⟨answer.1.calls, ?_, fun hno => absurd hok (hno frame)⟩
      rw [hok]
      exact hcalls
  | _ => cases h

theorem request_submits {r : Request} {q : String} (h : a.submits r = some (q, b, t)) :
    ∃ bus, (a.request D r).1.calls =
        [.received (({ a.stack with bus := bus } : Stack).receiveSecured D q b t).1] ∧
      (a.request D r).2.stack =
        (({ a.stack with bus := bus } : Stack).receiveSecured D q b t).2 := by
  have decoded : ∀ (a' : AppState) (bus : CanBus) {p hex tr : String}, a' = a.withBus bus →
      decodePdu p hex tr = some (q, b, t) →
      ∃ bus, (a'.receiveSecured D p hex tr).1.calls =
          [.received (({ a.stack with bus := bus } : Stack).receiveSecured D q b t).1] ∧
        (a'.receiveSecured D p hex tr).2.stack =
          (({ a.stack with bus := bus } : Stack).receiveSecured D q b t).2 := by
    rintro a' bus p hex tr rfl hd
    obtain ⟨hcalls, hstate⟩ := (a.withBus bus).receiveSecured_some (D := D) hd
    exact ⟨bus, hcalls, congrArg AppState.stack hstate⟩
  cases r with
  | receiveSecured p frame tr => exact decoded a a.stack.bus rfl h
  | validateSecured p frame tr => exact decoded a a.stack.bus rfl h
  | replayReplay p tr =>
    simp only [submits] at h
    simp only [request, replayReplay, CanBus.consume]
    split at h
    · cases h
    · next f fs hq =>
      rw [hq]
      exact decoded _ _ rfl h
  | forgeInject p mode =>
    simp only [submits] at h
    simp only [request, forgeInject]
    split at h
    · next m hm =>
      rw [hm]
      apply decoded a a.stack.bus rfl
      rw [decodePdu, fromHex_toHex, parseTransport_value]
      exact h
    · cases h
  | _ => cases h

theorem counters_of_keys {nvm nvm' : NvM} (h : nvm' = nvm ∨ ∃ m : KeyMetadata, m.pduId = p ∧
      nvm' = (KeyStorage.saveKeyMetadata nvm m).2) (q : String) :
    FreshnessManager.loadLastValidFreshness nvm' q =
      FreshnessManager.loadLastValidFreshness nvm q := by
  rcases h with rfl | ⟨m, -, rfl⟩
  · rfl
  · exact NvM.read_write_ne _ _ _ _ (Stack.nvmKey_ne_lastValidKey m.pduId q).symm

theorem updateProfileVersion_stack (version : String) :
    (a.updateProfileVersion p version).1.calls = [] ∧
    (a.updateProfileVersion p version).2.stack = { a.stack with
      profiles := (SecOC.updateProfileVersion a.stack.profiles a.configFile p version).2.1 } := by
  unfold updateProfileVersion
  rcases SecOC.updateProfileVersion a.stack.profiles a.configFile p version with ⟨e | u, ps, file⟩
  · cases e <;> exact ⟨rfl, rfl⟩
  · simp only
    split <;> exact ⟨rfl, rfl⟩

theorem provisionKey_stack (keyId : String) : ∃ hsm nvm,
    (nvm = a.stack.nvm ∨ ∃ m : KeyMetadata, m.pduId = p ∧
      nvm = (KeyStorage.saveKeyMetadata a.stack.nvm m).2) ∧
    (a.provisionKey p keyId).1.calls = [] ∧
    (a.provisionKey p keyId).2.stack = (a.withKeys hsm nvm).stack := by
  have hnvm := KeyManager.provisionKey_nvm a.stack.csm.hsm a.stack.nvm p keyId
  unfold provisionKey
  rcases hk : KeyManager.provisionKey a.stack.csm.hsm a.stack.nvm p keyId with ⟨e | m, hsm, nvm⟩ <;>
  · rw [hk] at hnvm
    exact ⟨hsm, nvm, hnvm, rfl, rfl⟩

theorem rotateKey_stack (keyId : String) : ∃ hsm nvm,
    (nvm = a.stack.nvm ∨ ∃ m : KeyMetadata, m.pduId = p ∧
      nvm = (KeyStorage.saveKeyMetadata a.stack.nvm m).2) ∧
    (a.rotateKey p keyId).1.calls = [] ∧
    ((a.rotateKey p keyId).2.stack = (a.withKeys hsm nvm).stack ∨
      (a.rotateKey p keyId).2.stack =
        ((a.withKeys hsm nvm).logEvent .info "KEY_ROTATED" "SR-17").stack) := by
  have hnvm := KeyManager.rotateKey_nvm a.stack.csm.hsm a.stack.nvm p keyId
  unfold rotateKey
  rcases hk : KeyManager.rotateKey a.stack.csm.hsm a.stack.nvm p keyId with ⟨e | m, hsm, nvm⟩
  · rw [hk] at hnvm
    cases e <;> exact ⟨hsm, nvm, hnvm, rfl, Or.inl rfl⟩
  · rw [hk] at hnvm
    exact ⟨hsm, nvm, hnvm, rfl, Or.inr rfl⟩

theorem request_quiet {r : Request} (hs : r.sends = none) (hr : a.submits r = none) :
    (a.request D r).1.calls = [] ∧ ∀ q,
      FreshnessManager.loadLastValidFreshness (a.request D r).2.stack.nvm q =
        FreshnessManager.loadLastValidFreshness a.stack.nvm q := by
  have same : ∀ (bus : CanBus) {x : Answer × AppState},
      x.1.calls = [] ∧ x.2 = a.withBus bus → x.1.calls = [] ∧ ∀ q,
      FreshnessManager.loadLastValidFreshness x.2.stack.nvm q =
        FreshnessManager.loadLastValidFreshness a.stack.nvm q := by
    rintro bus x ⟨hcalls, hstate⟩
    refine ⟨hcalls, fun q => ?_⟩
    rw [hstate]
    rfl
  cases r with
  | transmitSecured p payload tr => exact same a.stack.bus (a.transmitSecured_none hs)
  | mitmTamper p payload tr => exact same a.stack.bus (a.mitmTamper_none hs)
  | receiveSecured p frame tr => exact same a.stack.bus (a.receiveSecured_none hr)
  | validateSecured p frame tr => exact same a.stack.bus (a.receiveSecured_none hr)
  | canSend p data =>
    simp only [request, canSend]
    split <;> exact ⟨rfl, fun q => rfl⟩
  | replayCapture p =>
    simp only [request, replayCapture]
    split <;> exact ⟨rfl, fun q => rfl⟩
  | replayReplay p tr =>
    simp only [submits] at hr
    simp only [request, replayReplay, CanBus.consume]
    split at hr
    · next hq =>
      rw [hq]
      exact ⟨rfl, fun q => rfl⟩
    · next f fs hq =>
      rw [hq]
      exact same _ ((a.withBus _).receiveSecured_none hr)
  | forgeInject p mode =>
    simp only [submits] at hr
    simp only [request, forgeInject]
    split at hr
    · cases hr
    · next detail hm =>
      rw [hm]
      exact ⟨rfl, fun q => rfl⟩
  | updateProfileVersion p version =>
    obtain ⟨hcalls, hstack⟩ := a.updateProfileVersion_stack (p := p) version
    refine ⟨hcalls, fun q => ?_⟩
    rw [request, hstack]
  | provisionKey p keyId =>
    obtain ⟨hsm, nvm, hnvm, hcalls, hstack⟩ := a.provisionKey_stack (p := p) keyId
    refine ⟨hcalls, fun q => ?_⟩
    rw [request, hstack]
    exact counters_of_keys hnvm q
  | rotateKey p keyId =>
    obtain ⟨hsm, nvm, hnvm, hcalls, hstack⟩ := a.rotateKey_stack (p := p) keyId
    refine ⟨hcalls, fun q => ?_⟩
    rcases hstack with hstack | hstack <;>
    · rw [request, hstack]
      exact counters_of_keys hnvm q
  | resetEcu => exact ⟨rfl, fun q => rfl⟩

end AppState

namespace Stack

inductive Op (D : Digests) : Stack → Stack → Prop
  | bus (s : Stack) (bus : CanBus) : Op D s { s with bus := bus }
  | transmit (s : Stack) (p : String) (b : Bytes) (t : Transport) :
      Op D s (s.transmitSecured D p b t).2
  | receive (s : Stack) (p : String) (b : Bytes) (t : Transport) :
      Op D s (s.receiveSecured D p b t).2
  | version (s : Stack) (p version : String) {entry : SecurityProfileEntry}
      (h : s.profiles.get? p = some entry) :
      Op D s { s with profiles := s.profiles.set p { entry with profileVersion := version } }
  | keys (s : Stack) (hsm : HSM) {nvm : NvM} {p : String}
      (h : nvm = s.nvm ∨ ∃ m : KeyMetadata, m.pduId = p ∧
        nvm = (KeyStorage.saveKeyMetadata s.nvm m).2) :
      Op D s { s with nvm := nvm, csm := { s.csm with hsm := hsm } }
  | log (s : Stack) (severity : Severity) (eventId swrRef : String) :
      Op D s { s with escalation := { s.escalation with
        dem := EventLogger.log s.escalation.dem severity eventId swrRef } }
  | resetEcu (s : Stack) : Op D s { s with escalation := s.escalation.resetEcu }

abbrev Ops (D : Digests) : Stack → Stack → Prop := Relation.ReflTransGen (Op D)

theorem Ops.preserves {D : Digests} {I : Stack → Prop} (h : ∀ {s s'}, Op D s s' → I s → I s')
    {s s' : Stack} (hops : Ops D s s') (hs : I s) : I s' := by
  induction hops with
  | refl => exact hs
  | tail _ hop ih => exact h hop ih

end Stack

namespace AppState
variable {D : Digests} (a : AppState) {p hex tr : String}
open Stack

theorem transmitSecured_ops : Ops D a.stack (a.transmitSecured D p hex tr).2.stack := by
  cases h : decodePdu p hex tr with
  | none =>
    rw [(a.transmitSecured_none h).2]
  | some call =>
    rw [(a.transmitSecured_some h).2]
    exact .single (.transmit _ _ _ _)

theorem receiveSecured_ops : Ops D a.stack (a.receiveSecured D p hex tr).2.stack := by
  cases h : decodePdu p hex tr with
  | none =>
    rw [(a.receiveSecured_none h).2]
  | some call =>
    rw [(a.receiveSecured_some h).2]
    exact .single (.receive _ _ _ _)

theorem mitmTamper_ops : Ops D a.stack (a.mitmTamper D p hex tr).2.stack := by
  cases h : decodePdu p hex tr with
  | none =>
    rw [(a.mitmTamper_none h).2]
  | some call =>
    rcases a.mitmTamper_some h with ⟨-, -, hstate⟩ | ⟨frame, answer, -, rfl, -, hstate⟩
    · rw [hstate]
      exact .single (.transmit _ _ _ _)
    · rw [hstate]
      have hsent : Ops D a.stack (a.stack.transmitSecured D call.1 call.2.1 call.2.2).2 :=
        .single (.transmit _ _ _ _)
      apply hsent.trans
      exact AppState.receiveSecured_ops
        { a with stack := (a.stack.transmitSecured D call.1 call.2.1 call.2.2).2 }

theorem request_ops (r : Request) : Ops D a.stack (a.request D r).2.stack := by
  cases r with
  | transmitSecured p payload tr => exact a.transmitSecured_ops
  | receiveSecured p frame tr => exact a.receiveSecured_ops
  | validateSecured p frame tr => exact a.receiveSecured_ops
  | mitmTamper p payload tr => exact a.mitmTamper_ops
  | canSend p data =>
    simp only [request, canSend]
    split
    · exact .refl
    · exact .single (.bus _ _)
  | replayCapture p =>
    simp only [request, replayCapture]
    split <;> exact .refl
  | replayReplay p tr =>
    simp only [request, replayReplay]
    split
    · exact .single (.bus _ _)
    · next f bus _ =>
      have hbus : Ops D a.stack (a.withBus bus).stack := .single (.bus _ _)
      exact hbus.trans (a.withBus bus).receiveSecured_ops
  | forgeInject p mode =>
    simp only [request, forgeInject]
    split
    · exact .refl
    · exact a.receiveSecured_ops
  | updateProfileVersion p version =>
    rw [request, (a.updateProfileVersion_stack version).2]
    rcases SecOC.updateProfileVersion_profiles a.stack.profiles a.configFile p version with
      h | ⟨entry, hentry, h⟩
    · rw [h]
    · rw [h]
      exact .single (.version _ p version hentry)
  | provisionKey p keyId =>
    obtain ⟨hsm, nvm, hnvm, -, hstack⟩ := a.provisionKey_stack (p := p) keyId
    rw [request, hstack]
    exact .single (.keys _ hsm hnvm)
  | rotateKey p keyId =>
    obtain ⟨hsm, nvm, hnvm, -, hstack⟩ := a.rotateKey_stack (p := p) keyId
    rcases hstack with hstack | hstack
    · rw [request, hstack]
      exact .single (.keys _ hsm hnvm)
    · rw [request, hstack]
      exact .tail (.single (.keys _ hsm hnvm)) (.log _ _ _ _)
  | resetEcu => exact .single (.resetEcu _)

theorem run_ops (requests : List Request) : Ops D a.stack (a.run D requests).stack :=
  Mealy.exec_rel (R := fun a a' : AppState => Ops D a.stack a'.stack) (fun _ => .refl)
    (fun h h' => h.trans h') (fun a r => a.request_ops r) a requests

inductive Step (D : Digests) : AppState → AppState → Prop
  | bus (a : AppState) (bus : CanBus) : Step D a (a.withBus bus)
  | captured (a : AppState) (captured : Captured) : Step D a { a with captured := captured }
  | transmit (a : AppState) (p : String) (b : Bytes) (t : Transport) :
      Step D a { a with stack := (a.stack.transmitSecured D p b t).2 }
  | receive (a : AppState) (p : String) (b : Bytes) (t : Transport) :
      Step D a { a with stack := (a.stack.receiveSecured D p b t).2 }
  | version (a : AppState) {p version : String} {r : Except PyError Unit} {profiles : Profiles}
      {file : ConfigFile} (h : SecOC.updateProfileVersion a.stack.profiles a.configFile p version =
        (r, profiles, file)) :
      Step D a { a with stack := { a.stack with profiles := profiles }, configFile := file }
  | provisionKey (a : AppState) {p keyId : String} {r : Except PyError KeyMetadata} {hsm : HSM}
      {nvm : NvM} (h : KeyManager.provisionKey a.stack.csm.hsm a.stack.nvm p keyId =
        (r, hsm, nvm)) : Step D a (a.withKeys hsm nvm)
  | rotateKey (a : AppState) {p newKeyId : String} {r : Except PyError KeyMetadata} {hsm : HSM}
      {nvm : NvM} (h : KeyManager.rotateKey a.stack.csm.hsm a.stack.nvm p newKeyId =
        (r, hsm, nvm)) : Step D a (a.withKeys hsm nvm)
  | log (a : AppState) (severity : Severity) (eventId swrRef : String) :
      Step D a (a.logEvent severity eventId swrRef)
  | resetEcu (a : AppState) : Step D a a.resetEcu

theorem receiveSecured_steps (a : AppState) (p hex tr : String) :
    Relation.ReflTransGen (Step D) a (a.receiveSecured D p hex tr).2 := by
  cases h : decodePdu p hex tr with
  | none =>
    rw [(a.receiveSecured_none h).2]
  | some call =>
    rw [(a.receiveSecured_some h).2]
    exact .single (.receive a _ _ _)

theorem request_steps (r : Request) :
    Relation.ReflTransGen (Step D) a (a.request D r).2 := by
  cases r with
  | transmitSecured p payload tr =>
    rw [request]
    cases h : decodePdu p payload tr with
    | none =>
      rw [(a.transmitSecured_none h).2]
    | some call =>
      rw [(a.transmitSecured_some h).2]
      exact .single (.transmit a _ _ _)
  | receiveSecured p frame tr => exact a.receiveSecured_steps p frame tr
  | validateSecured p frame tr => exact a.receiveSecured_steps p frame tr
  | mitmTamper p payload tr =>
    rw [request]
    cases h : decodePdu p payload tr with
    | none =>
      rw [(a.mitmTamper_none h).2]
    | some call =>
      have hsent : Step D a _ := .transmit a call.1 call.2.1 call.2.2
      rcases a.mitmTamper_some h with ⟨-, -, hstate⟩ | ⟨frame, answer, -, rfl, -, hstate⟩
      · rw [hstate]
        exact .single hsent
      · rw [hstate]
        exact .head hsent (AppState.receiveSecured_steps _ _ _ _)
  | canSend p data =>
    simp only [request, canSend]
    split
    · exact .refl
    · exact .single (.bus a _)
  | replayCapture p =>
    simp only [request, replayCapture]
    split <;> exact .single (.captured a _)
  | replayReplay p tr =>
    simp only [request, replayReplay]
    split
    · exact .single (.bus a _)
    · next f bus _ => exact .head (.bus a bus) ((a.withBus bus).receiveSecured_steps _ _ _)
  | forgeInject p mode =>
    simp only [request, forgeInject]
    split
    · exact .refl
    · exact a.receiveSecured_steps _ _ _
  | updateProfileVersion p version =>
    have hversion : ∀ {r profiles file}, SecOC.updateProfileVersion a.stack.profiles a.configFile p
        version = (r, profiles, file) → Step D a _ := fun h => .version a h
    rw [request, updateProfileVersion]
    rcases h : SecOC.updateProfileVersion a.stack.profiles a.configFile p version with
      ⟨e | u, profiles, file⟩
    · cases e <;> exact .single (hversion h)
    · dsimp only
      split <;> exact .single (hversion h)
  | provisionKey p keyId =>
    simp only [request, provisionKey]
    split <;> next h => exact .single (.provisionKey a h)
  | rotateKey p keyId =>
    simp only [request, rotateKey]
    split
    · next h => exact .single (.rotateKey a h)
    · next h => exact .single (.rotateKey a h)
    · next h => exact .tail (.single (.rotateKey a h)) (.log _ _ _ _)
  | resetEcu => exact .single (.resetEcu a)

/-- What every step keeps, a request keeps. -/
theorem request_keeps {I : AppState → Prop} (h : ∀ {a a'}, Step D a a' → I a → I a')
    {a : AppState} (ha : I a) (r : Request) : I (a.request D r).2 := by
  have hsteps := a.request_steps (D := D) r
  generalize (a.request D r).2 = a' at hsteps
  induction hsteps with
  | refl => exact ha
  | tail _ hop ih => exact h hop ih

end AppState
end SecOC
