import SecOC.Properties.Persistence
import SecOC.Properties.Replay

/-! A device over its whole lifetime, with restarts, failing flushes and new configurations. No
counter of a PDU is accepted twice. -/

namespace SecOC
open Py FreshnessManager Stack

/-- A frame that was accepted: the counter stored for it and the profile it was taken apart with. -/
structure Reception where
  pduId : String
  securedPdu : Bytes
  transport : Transport
  counter : Except PyError Int
  profile : Except PyError SecurityProfileEntry

namespace Reception

def lengths (x : Reception) : Except PyError (Int × Int) := do
  (← x.profile).truncationLengths x.transport

def SameFrame (x y : Reception) : Prop :=
  x.securedPdu = y.securedPdu ∧ x.transport = y.transport ∧ x.lengths = y.lengths

/-- A later frame of the PDU has a greater counter, and the same bytes one greater by a whole
modulus. -/
def Before (x y : Reception) : Prop :=
  x.pduId = y.pduId → ∃ c c', x.counter = .ok c ∧ y.counter = .ok c' ∧ c < c' ∧
    (x.SameFrame y → c + 2 ^ (Config.defaultFreshnessLength * 8) ≤ c')

end Reception

def Outcome.accepted : Outcome → Bool
  | .received (.ok (some _)) => true
  | _ => false

namespace AppState
variable (D : Digests) (a : AppState)

def receives : Request → Option (String × Bytes × Transport)
  | .mitmTamper p payload t => match decodePdu p payload t with
    | none => none
    | some (p, b, t) => match (a.stack.transmitSecured D p b t).1 with
      | .error _ => none
      | .ok frame => some (p, MitmAttack.intercept frame, t)
  | r => a.submits r

def reception (r : Request) : Option Reception :=
  match a.receives D r, (a.request D r).1.calls.any Outcome.accepted with
  | some (p, securedPdu, t), true => some
      { pduId := p, securedPdu := securedPdu, transport := t
        counter := lastValid (a.request D r).2.stack.nvm p
        profile := getProfile a.stack.profiles p }
  | _, _ => none

end AppState

namespace Device

/-- The frames accepted along a run, in order. -/
def receptions (D : Digests) : Device → List DeviceOp → List Reception
  | _, [] => []
  | d, op :: ops =>
    let accepted := match d, op with
      | running app, .request r => app.reception D r
      | _, _ => none
    accepted.toList ++ receptions D (d.step D op).2 ops

end Device

def acceptedCalls (es : List DeviceEvent) : Nat :=
  (es.map fun e => match e with
    | .answered answer => answer.calls.countP Outcome.accepted
    | _ => 0).sum

namespace AppState
variable {D : Digests} {a : AppState} {r : Request} {p : String} {b : Bytes} {t : Transport}

structure Reaches (a : AppState) (s : Stack) : Prop where
  nvm : s.nvm = a.stack.nvm
  profiles : s.profiles = a.stack.profiles
  freshnessManager : s.freshnessManager = a.stack.freshnessManager
  keyManager : s.authenticator.keyManager = a.stack.authenticator.keyManager
  hsm : s.csm.hsm = a.stack.csm.hsm ∨ ∃ keyId, s.csm.hsm = a.stack.csm.hsm.afterMac keyId

theorem reaches_bus (a : AppState) (bus : CanBus) : a.Reaches { a.stack with bus := bus } :=
  ⟨rfl, rfl, rfl, rfl, Or.inl rfl⟩

theorem reaches_transmitted {frame : Bytes} (h : (a.stack.transmitSecured D p b t).1 = .ok frame) :
    a.Reaches (a.stack.transmitSecured D p b t).2 := by
  have hsent : a.stack.transmitSecured D p b t =
      (.ok frame, (a.stack.transmitSecured D p b t).2) := Prod.ext h rfl
  obtain ⟨T, -, hT⟩ := Transmission.of_transmitSecured hsent
  obtain ⟨hprofiles, hnvm, hfreshness, hcsm, hkeyManager, -⟩ := T.after_fields
  rw [← hT]
  exact ⟨hnvm, hprofiles, hfreshness, hkeyManager, Or.inr ⟨T.keyId, by rw [hcsm]; rfl⟩⟩

theorem receives_some (h : a.receives D r = some (p, b, t)) : ∃ s sent, a.Reaches s ∧
    (a.request D r).1.calls = sent ++ [.received (s.receiveSecured D p b t).1] ∧
    (∀ o ∈ sent, o.accepted = false) ∧
    (a.request D r).2.stack = (s.receiveSecured D p b t).2 := by
  have submitted : a.submits r = some (p, b, t) → ∃ s sent, a.Reaches s ∧
      (a.request D r).1.calls = sent ++ [.received (s.receiveSecured D p b t).1] ∧
      (∀ o ∈ sent, o.accepted = false) ∧
      (a.request D r).2.stack = (s.receiveSecured D p b t).2 := by
    intro hsubmits
    obtain ⟨bus, hcalls, hstack⟩ := a.request_submits (D := D) hsubmits
    exact ⟨_, [], a.reaches_bus bus, hcalls, List.forall_mem_nil _, hstack⟩
  cases r with
  | mitmTamper q payload tr =>
    simp only [receives] at h
    split at h
    · cases h
    · next q' b' t' hd =>
      split at h
      · cases h
      · next frame hsent =>
        cases h
        rcases a.mitmTamper_some (D := D) hd with
          ⟨hno, -, -⟩ | ⟨frame', answer, hsent', rfl, hcalls, hstate⟩
        · exact absurd hsent (hno frame)
        · obtain rfl : frame = frame' := Except.ok.inj (hsent.symm.trans hsent')
          have hd' : decodePdu q (toHex (MitmAttack.intercept frame)) tr =
              some (q, MitmAttack.intercept frame, t) := by
            obtain ⟨-, -, htr⟩ := decodePdu_some hd
            rw [decodePdu, fromHex_toHex, htr]
          obtain ⟨hreceived, hstack⟩ := AppState.receiveSecured_some (D := D)
            { a with stack := (a.stack.transmitSecured D p b' t).2 } hd'
          obtain ⟨rfl, -, -⟩ := decodePdu_some hd
          refine ⟨_, [.transmitted (.ok frame)], reaches_transmitted hsent, ?_, ?_, ?_⟩
          · rw [request, hcalls, hreceived]
            rfl
          · exact List.forall_mem_singleton.mpr rfl
          · rw [request, hstate, hstack]
  | _ => exact submitted h

theorem receives_none (h : a.receives D r = none) :
    (a.request D r).1.calls.countP Outcome.accepted = 0 := by
  have quiet : r.sends = none → a.submits r = none →
      (a.request D r).1.calls.countP Outcome.accepted = 0 := by
    intro hs hr
    rw [(a.request_quiet (D := D) hs hr).1]
    rfl
  cases r with
  | mitmTamper q payload tr =>
    simp only [receives] at h
    split at h
    · next hd => exact quiet hd rfl
    · next q' b' t' hd =>
      split at h
      · next e hsent =>
        rcases a.mitmTamper_some (D := D) hd with ⟨-, hcalls, -⟩ | ⟨frame, _, hsent', -⟩
        · rw [request, hcalls]
          rfl
        · cases hsent.symm.trans hsent'
      · cases h
  | transmitSecured q payload tr =>
    cases hd : decodePdu q payload tr with
    | none => exact quiet hd rfl
    | some call =>
      rw [request, (a.transmitSecured_some hd).1]
      rfl
  | _ => exact quiet rfl h

theorem reception_spec {x : Reception} (h : a.reception D r = some x) :
    ∃ s, a.Reaches s ∧ ∃ A : Acceptance D s x.pduId x.securedPdu x.transport,
      x.profile = .ok A.profile ∧ x.counter = .ok A.counter ∧
      (commitFreshness s.nvm x.pduId A.counter).1 = .ok () ∧
      ∃ bus, (a.request D r).2.stack = { s.verifiedWith A.keyId with
        nvm := (commitFreshness s.nvm x.pduId A.counter).2, bus := bus } := by
  unfold reception at h
  split at h
  · next p b t hreceives haccepted =>
    cases h
    obtain ⟨s, sent, hs, hcalls, hsent, hstack⟩ := receives_some hreceives
    obtain ⟨o, ho, hacc⟩ := List.any_eq_true.mp haccepted
    rw [hcalls] at ho
    have hlast : o = .received (s.receiveSecured D p b t).1 := by
      rcases List.mem_append.mp ho with ho | ho
      · rw [hsent o ho] at hacc
        cases hacc
      · exact List.mem_singleton.mp ho
    have hreceived : ∃ payload, (s.receiveSecured D p b t).1 = .ok (some payload) := by
      rw [hlast] at hacc
      rcases hr : (s.receiveSecured D p b t).1 with e | _ | payload
      · rw [hr] at hacc
        cases hacc
      · rw [hr] at hacc
        cases hacc
      · exact ⟨payload, rfl⟩
    obtain ⟨payload, hok⟩ := hreceived
    obtain ⟨A, -⟩ := Acceptance.of_receiveSecured hok
    obtain ⟨bus, hafter⟩ := A.receiveSecured_snd
    have hprofile : getProfile a.stack.profiles p = .ok A.profile := by
      rw [← hs.profiles]
      exact getProfile_eq_ok.mpr A.found
    refine ⟨s, hs, A, hprofile, ?_, ?_, bus, hstack.trans hafter⟩
    · change lastValid (a.request D r).2.stack.nvm p = _
      rw [hstack]
      exact A.lastValid_after
    · rw [A.receiveSecured_eq] at hok
      split at hok
      · cases hok
      · next hcommit => rw [hcommit]
  · cases h

theorem countP_accepted (D : Digests) (a : AppState) (r : Request) :
    (a.request D r).1.calls.countP Outcome.accepted = (a.reception D r).toList.length := by
  cases h : a.receives D r with
  | none =>
    rw [receives_none h]
    unfold reception
    rw [h]
    rfl
  | some received =>
    obtain ⟨p, b, t⟩ := received
    obtain ⟨s, sent, -, hcalls, hsent, -⟩ := receives_some h
    have hnone : sent.countP Outcome.accepted = 0 := List.countP_eq_zero.mpr fun o ho => by
      rw [hsent o ho]
      exact Bool.false_ne_true
    have hany : sent.any Outcome.accepted = false := List.any_eq_false.mpr fun o ho => by
      rw [hsent o ho]
      exact Bool.false_ne_true
    unfold reception
    rw [h, hcalls, List.countP_append, hnone, List.any_append, hany]
    cases ho : Outcome.accepted (.received (s.receiveSecured D p b t).1) <;> simp [ho]

end AppState

/-! The counter a frame was accepted with stays behind in both places. -/

def CounterAbove (p : String) (c : Int) (d : Dict String Value) : Prop :=
  ∃ L, (d.getD (lastValidKey p) (.int 0)).asInt = .ok L ∧ c ≤ L

theorem storable_counterAbove (p : String) (c : Int) : Storable (CounterAbove p c) := by
  have other : ∀ {d : Dict String Value} {key : String} (value : Value), lastValidKey p ≠ key →
      CounterAbove p c d → CounterAbove p c (d.set key value) := by
    rintro d key value hne ⟨L, hL, hle⟩
    exact ⟨L, by rwa [Dict.getD_set_ne _ _ _ hne], hle⟩
  refine ⟨fun m h => ?_, fun hash hkey h => ?_, fun {d q L v} hL hlt h => ?_, fun q h => ?_⟩
  · exact other _ (nvmKey_ne_lastValidKey m.pduId p).symm h
  · exact other _ (goldenKey_ne_lastValidKey hkey p).symm h
  · by_cases hq : p = q
    · subst hq
      obtain ⟨L', hL', hle⟩ := h
      rw [hL] at hL'
      cases hL'
      exact ⟨v, by rw [Dict.getD_set_self]; rfl, hle.trans hlt.le⟩
    · exact other _ (fun hkey => hq (lastValidKey_inj.mp hkey)) h
  · exact other _ (lastValidKey_ne_windowKey p q) h

theorem commitFreshness_above {nvm : NvM} {p : String} {v : Int}
    (h : (commitFreshness nvm p v).1 = .ok ()) :
    (commitFreshness nvm p v).2.Holds (CounterAbove p v) := by
  -- a commit that returns has flushed the counter
  have hflushed : (commitFreshness nvm p v).2.file = some (commitFreshness nvm p v).2.store := by
    rw [commitFreshness_fst] at h
    cases hd : nvm.diskFault with
    | true =>
      rw [hd] at h
      cases h
    | false =>
      unfold commitFreshness NvM.write NvM.flush
      simp [hd]
  have hstore : CounterAbove p v (commitFreshness nvm p v).2.store :=
    ⟨v, lastValid_commitFreshness nvm p v, le_rfl⟩
  refine ⟨hstore, ?_⟩
  rw [hflushed]
  exact hstore

structure Stack.Wired (s : Stack) : Prop where
  freshnessManager : s.freshnessManager =
    { windowSize := 16, freshnessLength := Config.defaultFreshnessLength }
  keyManager : s.authenticator.keyManager = true

theorem Stack.Wired.of_extends {s s' : Stack} (h : s.Wired) (hx : Extends s s') : s'.Wired :=
  ⟨hx.freshnessManager.trans h.freshnessManager, hx.keyManager.trans h.keyManager⟩

theorem Stack.Wired.op {D : Digests} {s s' : Stack} (h : s.Wired) (hop : Op D s s') :
    s'.Wired := by
  cases hop with
  | transmit p b t => exact h.of_extends (transmitSecured_extends p b t)
  | receive p b t => exact h.of_extends (receiveSecured_extends p b t)
  | _ => exact ⟨h.freshnessManager, h.keyManager⟩

namespace Device
variable {D : Digests} {d : Device}

def Wired : Device → Prop
  | running app => app.stack.Wired
  | off _ => True

theorem wired_restart (D : Digests) (d : Device) (urandom : Nat → Bytes)
    (overBudget : Nat → Bool) : (d.restart D urandom overBudget).2.Wired := by
  simp only [Device.restart]
  split
  · next app happ =>
    obtain ⟨_, _, _, _, _, -, -, -, hstack⟩ := AppState.init_eq_ok happ
    change app.stack.Wired
    rw [hstack]
    exact ⟨rfl, rfl⟩
  · trivial

theorem Wired.step (h : d.Wired) (op : DeviceOp) : (d.step D op).2.Wired := by
  cases op with
  | restart urandom overBudget => exact wired_restart D d urandom overBudget
  | request r =>
    cases d with
    | running app =>
      exact Ops.preserves (fun hop hs => Stack.Wired.op hs hop) (app.request_ops (D := D) r) h
    | off disk => trivial
  | nvmFault fault =>
    cases d with
    | running app => exact ⟨h.freshnessManager, h.keyManager⟩
    | off disk => trivial
  | configure configFile => cases d <;> exact h

structure Counted (x : Reception) (c : Int) : Prop where
  counter : x.counter = .ok c
  wire : ∃ profile payload wire mac, x.profile = .ok profile ∧
    PduManager.parseSecuredPdu x.securedPdu profile x.transport = .ok (payload, wire, mac) ∧
    c ≡ wire [ZMOD 2 ^ (Config.defaultFreshnessLength * 8)]

theorem parseSecuredPdu_congr {profile profile' : SecurityProfileEntry} {t : Transport}
    (h : profile.truncationLengths t = profile'.truncationLengths t) (frame : Bytes) :
    PduManager.parseSecuredPdu frame profile t = PduManager.parseSecuredPdu frame profile' t := by
  -- how a frame is taken apart depends on nothing but its field lengths
  unfold PduManager.parseSecuredPdu
  rw [h]

theorem Counted.modEq {x y : Reception} {c c' : Int} (hx : Counted x c) (hy : Counted y c')
    (hsame : x.SameFrame y) : c ≡ c' [ZMOD 2 ^ (Config.defaultFreshnessLength * 8)] := by
  obtain ⟨profile, payload, wire, mac, hprofile, hparse, hc⟩ := hx.wire
  obtain ⟨profile', payload', wire', mac', hprofile', hparse', hc'⟩ := hy.wire
  obtain ⟨hframe, ht, hlengths⟩ := hsame
  simp only [Reception.lengths, hprofile, hprofile', bind, Except.bind, ht] at hlengths
  rw [hframe, ht, parseSecuredPdu_congr hlengths, hparse'] at hparse
  have hwire : wire = wire' := ((Prod.mk.inj (Prod.mk.inj (Except.ok.inj hparse)).2).1).symm
  rw [hwire] at hc
  exact hc.trans hc'.symm

/-- An accepted frame has a counter above all that the device has stored, and stores it. -/
theorem reception_counted {app : AppState} {r : Request} {x : Reception}
    (hw : (running app).Wired) (h : app.reception D r = some x) : ∃ c, Counted x c ∧
      (∃ L, lastValid app.stack.nvm x.pduId = .ok L ∧ L < c) ∧
      (running (app.request D r).2).Holds (CounterAbove x.pduId c) := by
  obtain ⟨s, hs, A, hprofile, hcounter, hcommit, bus, hafter⟩ := AppState.reception_spec h
  obtain ⟨L, hL, hnext, hlt, -⟩ := A.counter_gt
  have hmodulus : s.freshnessManager.modulus = 2 ^ (Config.defaultFreshnessLength * 8) := by
    rw [hs.freshnessManager, Stack.Wired.freshnessManager hw]
    rfl
  refine ⟨A.counter, ⟨hcounter, A.profile, A.payload, A.wire, A.mac, hprofile, A.parsed, ?_⟩,
    ⟨L, hs.nvm ▸ hL, hlt⟩, ?_⟩
  · rw [hnext, hmodulus]
    exact Residue.next_modEq _ _ _
  · change (app.request D r).2.stack.nvm.Holds _
    rw [hafter]
    exact commitFreshness_above hcommit

theorem receptions_cons (D : Digests) (d : Device) (op : DeviceOp) (ops : List DeviceOp) :
    (receptions D d (op :: ops) = receptions D (d.step D op).2 ops ∧
        acceptedCalls [(d.step D op).1] = 0) ∨
      ∃ app r x, d = running app ∧ op = .request r ∧ app.reception D r = some x ∧
        receptions D d (op :: ops) = x :: receptions D (d.step D op).2 ops ∧
        acceptedCalls [(d.step D op).1] = 1 := by
  have other : (∀ app r, d = running app → op ≠ .request r) →
      receptions D d (op :: ops) = receptions D (d.step D op).2 ops ∧
        acceptedCalls [(d.step D op).1] = 0 := by
    intro hno
    cases op with
    | request r =>
      cases d with
      | running app => exact absurd rfl (hno app r rfl)
      | off disk => exact ⟨rfl, rfl⟩
    | restart urandom overBudget =>
      refine ⟨by cases d <;> rfl, ?_⟩
      simp only [Device.step, Device.restart]
      split <;> rfl
    | nvmFault fault => exact ⟨by cases d <;> rfl, rfl⟩
    | configure configFile => exact ⟨by cases d <;> rfl, rfl⟩
  by_cases hrunning : ∃ app r, d = running app ∧ op = .request r
  · obtain ⟨app, r, rfl, rfl⟩ := hrunning
    have hcalls := AppState.countP_accepted D app r
    cases hx : app.reception D r with
    | none =>
      rw [hx] at hcalls
      refine Or.inl ⟨?_, hcalls⟩
      simp only [receptions, hx]
      rfl
    | some x =>
      rw [hx] at hcalls
      refine Or.inr ⟨app, r, x, rfl, rfl, hx, ?_, hcalls⟩
      simp only [receptions, hx]
      rfl
  · exact Or.inl (other fun app r hd hop => hrunning ⟨app, r, hd, hop⟩)

theorem before_receptions {x : Reception} {c : Int} (hx : Counted x c) {d : Device}
    (habove : d.Holds (CounterAbove x.pduId c)) (hw : d.Wired) (ops : List DeviceOp) :
    ∀ y ∈ receptions D d ops, x.Before y := by
  induction ops generalizing d with
  | nil => exact List.forall_mem_nil _
  | cons op ops ih =>
    have hrest := ih (habove.step (storable_counterAbove _ _) op (D := D)) (hw.step op)
    rcases receptions_cons D d op ops with ⟨heq, -⟩ | ⟨app, r, y, rfl, rfl, hy, heq, -⟩
    · rw [heq]
      exact hrest
    · rw [heq]
      refine List.forall_mem_cons.mpr ⟨?_, hrest⟩
      intro hpdu
      obtain ⟨c', hcounted, ⟨L, hL, hlt⟩, -⟩ := reception_counted hw hy
      obtain ⟨L', hL', hle⟩ := habove.store
      rw [hpdu] at hL'
      have hLL : L = L' := lastValid_inj hL hL'
      have hcc : c < c' := by linarith
      exact ⟨c, c', hx.counter, hcounted.counter, hcc,
        fun hsame => Residue.add_le_of_modEq (hx.modEq hcounted hsame) hcc⟩

theorem acceptedCalls_cons (e : DeviceEvent) (es : List DeviceEvent) :
    acceptedCalls (e :: es) = acceptedCalls [e] + acceptedCalls es := by
  simp [acceptedCalls]

/-- **Freshness over a lifetime.** From the files on any disk, through requests, restarts, failing
flushes and new configurations, the counters that frames of a PDU are accepted with only grow, and
the same bytes come back at the earliest when the counter field has gone all the way round. -/
theorem receptions_fresh (D : Digests) (disk : Disk) (ops : List DeviceOp) :
    (receptions D (off disk) ops).Pairwise Reception.Before ∧
      (receptions D (off disk) ops).length =
        acceptedCalls ((machine D).outputs (off disk) ops) := by
  have hwired : (off disk).Wired := trivial
  generalize off disk = d at hwired
  induction ops generalizing d with
  | nil => exact ⟨List.Pairwise.nil, rfl⟩
  | cons op ops ih =>
    obtain ⟨hpairwise, hlength⟩ := ih _ (hwired.step op (D := D))
    have houtputs : (machine D).outputs d (op :: ops) =
        (d.step D op).1 :: (machine D).outputs (d.step D op).2 ops := rfl
    rw [houtputs, acceptedCalls_cons, ← hlength]
    rcases receptions_cons D d op ops with ⟨heq, hcalls⟩ | ⟨app, r, x, rfl, rfl, hx, heq, hcalls⟩
    · rw [heq, hcalls, Nat.zero_add]
      exact ⟨hpairwise, rfl⟩
    · rw [heq, hcalls, List.length_cons, Nat.add_comm]
      obtain ⟨c, hcounted, -, habove⟩ := reception_counted hwired hx
      exact ⟨List.pairwise_cons.mpr
        ⟨before_receptions hcounted habove (hwired.step (.request r)) ops, hpairwise⟩, rfl⟩

end Device

end SecOC
