import SecOC.Properties.BackInService

/-! Internal server errors. In every state a device gets to, one is answered for a reason that lies
outside the request handlers: a flush that fails, a configuration without usable lengths, a
configuration file that no longer carries the profile, or a broadcast that raises. -/

namespace SecOC
open Py FreshnessManager Stack

def Request.target : Request → Option (String × Transport)
  | .transmitSecured p _ tr | .receiveSecured p _ tr | .validateSecured p _ tr
  | .replayReplay p tr | .mitmTamper p _ tr => match parseTransport tr with
    | .ok t => some (p, t)
    | .error _ => none
  | .forgeInject p _ => some (p, .canFd)
  | _ => none

/-- The requests that may have something to write to the NvM file. -/
def Request.flushes : Request → Bool
  | .receiveSecured .. | .validateSecured .. | .replayReplay .. | .mitmTamper .. | .forgeInject ..
  | .provisionKey .. | .rotateKey .. => true
  | _ => false

/-- The profile has no lengths for the transport, or a freshness length that no bytes can have. -/
def Stack.LacksLengths (s : Stack) (p : String) (t : Transport) : Prop :=
  ∃ e, s.profiles.get? p = some e ∧
    ∀ (n : Nat) (m : Int), n < 2 ^ 63 → e.truncationLengths t ≠ .ok ((n : Int), m)

def ConfigFile.Carries (f : ConfigFile) (p : String) : Prop :=
  f.writeFault = false ∧ ∃ raw, f.content = .json raw ∧ ∃ entry, raw.get? p = some entry

inductive AppState.Excuse (a : AppState) : Request → PyError → Prop
  | flush {r : Request} (hr : r.flushes) (h : a.stack.nvm.diskFault = true) : Excuse a r .osError
  | lengths {r : Request} {e : PyError} {p : String} {t : Transport} (hr : r.target = some (p, t))
      (h : a.stack.LacksLengths p t) : Excuse a r e
  | configFile {p version : String} {e : PyError} (h : ¬a.configFile.Carries p) :
      Excuse a (.updateProfileVersion p version) e

namespace PduManager

theorem parseSecuredPdu_error {profile : SecurityProfileEntry} {t : Transport} {n m : Int}
    (hl : profile.truncationLengths t = .ok (n, m)) {frame : Bytes} {e : PyError}
    (h : parseSecuredPdu frame profile t = .error e) : ∃ text, e = .valueError text := by
  simp only [parseSecuredPdu, hl, bind, Except.bind, throw, throwThe, MonadExceptOf.throw, pure,
    Except.pure] at h
  split_ifs at h <;>
  · cases h
    exact ⟨_, rfl⟩

end PduManager

theorem Restorable.getKeyMetadata {nvm : NvM} (h : Restorable nvm.store) (p : String) :
    ∃ m, KeyStorage.getKeyMetadata nvm p = .ok m := by
  unfold KeyStorage.getKeyMetadata NvM.read
  split
  · exact ⟨none, rfl⟩
  · next hne =>
    rcases h.record p with hnone | ⟨m, hm⟩
    · exact absurd hnone hne
    · rw [hm]
      exact ⟨some m, rfl⟩

theorem getProfile_none {profiles : Profiles} {p : String} (h : profiles.get? p = none) :
    ∃ text, getProfile profiles p = .error (.secOCConfigError text) := by
  rw [getProfile, h]
  exact ⟨_, rfl⟩

namespace Stack.Ready
variable {D : Digests} {s : Stack} {p : String} {b : Bytes} {t : Transport} {e : PyError}

theorem transmitSecured_error (hs : s.Ready) (h : (s.transmitSecured D p b t).1 = .error e) :
    (∃ text, e = .secOCConfigError text) ∨ (∃ text, e = .secOCTransportError text) ∨
      s.LacksLengths p t := by
  cases hp : s.profiles.get? p with
  | none =>
    obtain ⟨text, hprofile⟩ := getProfile_none hp
    rw [transmitSecured, hprofile] at h
    exact Or.inl ⟨text, (Except.error.inj h).symm⟩
  | some profile =>
    have hprofile : getProfile s.profiles p = .ok profile := getProfile_eq_ok.mpr hp
    by_cases hlong : t = .classicCan ∧ classicCanPayloadBytes < b.length
    · simp only [transmitSecured, hprofile, hlong, and_self, if_true] at h
      exact Or.inr (Or.inl ⟨_, (Except.error.inj h).symm⟩)
    · by_cases hl : ∃ (n : Nat) (m : Int), profile.truncationLengths t = .ok ((n : Int), m)
      · obtain ⟨n, m, hl⟩ := hl
        obtain ⟨T, -⟩ := hs.exists_transmission hp hl fun ht => not_lt.mp fun hb => hlong ⟨ht, hb⟩
        rw [T.transmitSecured_eq] at h
        cases h
      · exact Or.inr (Or.inr ⟨profile, hp, fun n m _ hnm => hl ⟨n, m, hnm⟩⟩)

theorem receiveSecured_error (hs : s.Ready) (h : (s.receiveSecured D p b t).1 = .error e) :
    (∃ text, e = .secOCConfigError text) ∨ (e = .osError ∧ s.nvm.diskFault = true) ∨
      s.LacksLengths p t := by
  cases hp : s.profiles.get? p with
  | none =>
    obtain ⟨text, hprofile⟩ := getProfile_none hp
    rw [receiveSecured, hprofile] at h
    exact Or.inl ⟨text, (Except.error.inj h).symm⟩
  | some profile =>
    refine Or.inr ?_
    by_cases hl : ∃ (n : Nat) (m : Int), profile.truncationLengths t = .ok ((n : Int), m)
    · refine Or.inl ?_
      obtain ⟨n, m, hl⟩ := hl
      obtain ⟨R, -⟩ := hs.exists_macReady hp hl
      obtain ⟨L, hL⟩ := hs.counted p
      unfold receiveSecured at h
      rw [getProfile_eq_ok.mpr hp] at h
      dsimp only at h
      -- parsed, fresh, verified, committed: only the last step can still raise
      split at h
      · cases h
      · next e' hno he' =>
        obtain ⟨text, rfl⟩ := PduManager.parseSecuredPdu_error hl he'
        exact absurd rfl (hno text)
      · next payload wire mac _ =>
        rw [validateFreshness_eq _ _ _ _ hL] at h
        split at h
        · next he' => split_ifs at he'
        · cases h
        · next counter _ =>
          rw [R.verifyMac_eq] at h
          split at h
          · next he' => cases he'
          · cases h
          · next s' he' =>
            obtain ⟨-, rfl⟩ := Prod.mk.inj he'
            have hcommit := commitFreshness_fst s.nvm p counter
            split at h
            · next he' =>
              cases h
              rw [he'] at hcommit
              cases hd : s.nvm.diskFault with
              | true =>
                rw [hd] at hcommit
                exact ⟨Except.error.inj hcommit, rfl⟩
              | false =>
                rw [hd] at hcommit
                cases hcommit
            · cases h
    · exact Or.inr ⟨profile, hp, fun n m _ hnm => hl ⟨n, m, hnm⟩⟩

theorem of_extends {s' : Stack} (hs : s.Ready) (hx : Extends s s')
    (hdrawn : s'.csm.hsm.Drawn s'.csm.hsm.urandom) : s'.Ready where
  alive := hx.failMode.trans hs.alive
  drawn := hdrawn
  resolved q profile hq := by
    rw [hx.profiles] at hq
    rw [hx.resolveKeyId_eq]
    exact hs.resolved q profile hq
  counted q := by
    obtain ⟨L, hL⟩ := hs.counted q
    obtain ⟨L', hL', -⟩ := hx.counters q L hL
    exact ⟨L', hL'⟩

theorem withBus (hs : s.Ready) (bus : CanBus) : ({ s with bus := bus } : Stack).Ready :=
  ⟨hs.alive, hs.drawn, hs.resolved, hs.counted⟩

end Stack.Ready

namespace AppState
variable {D : Digests} {a : AppState} {p hex tr : String} {e : PyError}

theorem transmitCall_serverError {b : Bytes} {t : Transport} (ha : a.stack.Ready)
    (h : (a.transmitCall D p b t).1 = .error (.serverError e)) : a.stack.LacksLengths p t := by
  unfold transmitCall at h
  rcases hsent : (a.stack.transmitSecured D p b t).1 with e' | frame
  · have hcause := ha.transmitSecured_error hsent
    simp only [hsent] at h
    rcases hcause with ⟨text, rfl⟩ | ⟨text, rfl⟩ | hlacks
    · cases h
    · cases h
    · exact hlacks
  · simp only [hsent] at h
    cases h

theorem transmitSecured_serverError (ha : a.stack.Ready)
    (h : (a.transmitSecured D p hex tr).1.response = .serverError e) :
    ∃ t, parseTransport tr = .ok t ∧ a.stack.LacksLengths p t := by
  unfold transmitSecured at h
  split at h
  · cases h
  · next b _ =>
    split at h
    · cases h
    · next t ht =>
      refine ⟨t, ht, ?_⟩
      split at h
      · next response outcome a' hcall =>
        have hresponse : response = .serverError e := h
        apply transmitCall_serverError (D := D) (b := b) (e := e) ha
        rw [hcall, hresponse]
      · cases h

theorem receiveSecured_serverError (ha : a.stack.Ready)
    (h : (a.receiveSecured D p hex tr).1.response = .serverError e) :
    ∃ t, parseTransport tr = .ok t ∧
      ((e = .osError ∧ a.stack.nvm.diskFault = true) ∨ a.stack.LacksLengths p t) := by
  unfold receiveSecured at h
  split at h
  · cases h
  · next b _ =>
    split at h
    · cases h
    · next t ht =>
      refine ⟨t, ht, ?_⟩
      dsimp only at h
      rcases hreceived : (a.stack.receiveSecured D p b t).1 with e' | payload
      · rw [hreceived] at h
        rcases ha.receiveSecured_error hreceived with ⟨text, rfl⟩ | hflush | hlacks
        · cases h
        · obtain ⟨rfl, hd⟩ := hflush
          cases h
          exact Or.inl ⟨rfl, hd⟩
        · exact Or.inr hlacks
      · rw [hreceived] at h
        cases h

theorem updateProfileVersion_of_carries (profiles : Profiles) {file : ConfigFile}
    (h : file.Carries p) (version : String) :
    (∃ text, (SecOC.updateProfileVersion profiles file p version).1 =
        .error (.secOCConfigError text)) ∨
      ((SecOC.updateProfileVersion profiles file p version).1 = .ok () ∧
        ∃ entry, (SecOC.updateProfileVersion profiles file p version).2.1.get? p = some entry) := by
  obtain ⟨hfault, raw, hraw, r, hr⟩ := h
  unfold SecOC.updateProfileVersion
  cases hp : profiles.get? p with
  | none => exact Or.inl ⟨_, rfl⟩
  | some entry =>
    simp only [hraw, hr, hfault, Bool.false_eq_true, if_false]
    exact Or.inr ⟨trivial, _, Dict.get?_set_self _ _ _⟩

theorem updateProfileVersion_serverError {version : String}
    (h : (a.updateProfileVersion p version).1.response = .serverError e) :
    ¬a.configFile.Carries p := by
  intro hcarries
  have hupdate := updateProfileVersion_of_carries a.stack.profiles hcarries version
  unfold updateProfileVersion at h
  rcases hr : SecOC.updateProfileVersion a.stack.profiles a.configFile p version with
    ⟨r, profiles, file⟩
  rw [hr] at hupdate
  simp only [hr] at h
  rcases hupdate with ⟨text, rfl⟩ | ⟨rfl, entry, hentry⟩
  · cases h
  · simp only [getProfile_eq_ok.mpr hentry] at h
    cases h

theorem provisionKey_serverError {keyId : String} (ha : a.stack.Ready)
    (h : (a.provisionKey p keyId).1.response = .serverError e) :
    e = .osError ∧ a.stack.nvm.diskFault = true := by
  unfold provisionKey at h
  rw [KeyManager.provisionKey_of_available ha.alive] at h
  cases hd : a.stack.nvm.diskFault with
  | true =>
    rw [hd] at h
    cases h
    exact ⟨rfl, rfl⟩
  | false =>
    rw [hd] at h
    cases h

theorem rotateKey_serverError {newKeyId : String} (ha : a.stack.Ready)
    (hrecords : Restorable a.stack.nvm.store)
    (h : (a.rotateKey p newKeyId).1.response = .serverError e) :
    e = .osError ∧ a.stack.nvm.diskFault = true := by
  obtain ⟨current, hcurrent⟩ := hrecords.getKeyMetadata p
  unfold rotateKey at h
  cases current with
  | none =>
    rw [KeyManager.rotateKey, hcurrent] at h
    cases h
  | some current =>
    rw [KeyManager.rotateKey_of_available ha.alive hcurrent] at h
    cases hd : a.stack.nvm.diskFault with
    | true =>
      rw [hd] at h
      cases h
      exact ⟨rfl, rfl⟩
    | false =>
      rw [hd] at h
      cases h

theorem mitmTamper_serverError (ha : a.stack.Ready)
    (h : (a.mitmTamper D p hex tr).1.response = .serverError e) :
    ∃ t, parseTransport tr = .ok t ∧
      ((e = .osError ∧ a.stack.nvm.diskFault = true) ∨ a.stack.LacksLengths p t) := by
  unfold mitmTamper at h
  split at h
  · cases h
  · next b _ =>
    split at h
    · cases h
    · next t ht =>
      have hx := transmitSecured_extends (D := D) (s := a.stack) p b t
      have hdrawn := (HSM.keptByDraws_drawn _).transmitSecured (D := D) ha.drawn p b t
      have hsent : (a.stack.transmitSecured D p b t).2.Ready :=
        ha.of_extends hx (hdrawn.urandom.symm ▸ hdrawn)
      rcases a.transmitCall_cases (D := D) (p := p) (b := b) (t := t) with
        ⟨frame, s, hs, hc⟩ | ⟨e', s, response, hs, hc⟩
      · simp only [hc] at h
        rw [hs] at hx hsent
        obtain ⟨t', ht', hcause⟩ :=
          receiveSecured_serverError (a := { a with stack := s }) hsent h
        have hcause' : (e = .osError ∧ s.nvm.diskFault = true) ∨ s.LacksLengths p t' := hcause
        rw [hx.diskFault, LacksLengths, hx.profiles] at hcause'
        exact ⟨t', ht', hcause'⟩
      · have hcall : (a.transmitCall D p b t).1 = .error response := by rw [hc]
        simp only [hc] at h
        rw [h] at hcall
        exact ⟨t, ht, Or.inr (transmitCall_serverError ha hcall)⟩

/-- **Every internal error has an excuse** where the stack is ready. -/
theorem excuse (ha : a.stack.Ready) (hrecords : Restorable a.stack.nvm.store) {r : Request}
    (h : (a.request D r).1.response = .serverError e) : a.Excuse r e := by
  have caused : ∀ {r : Request} {p tr : String}, r.flushes →
      (∀ t, parseTransport tr = .ok t → r.target = some (p, t)) →
      (∃ t, parseTransport tr = .ok t ∧
        ((e = .osError ∧ a.stack.nvm.diskFault = true) ∨ a.stack.LacksLengths p t)) →
      a.Excuse r e := by
    rintro r p tr hflushes htarget ⟨t, ht, ⟨rfl, hd⟩ | hlacks⟩
    · exact .flush hflushes hd
    · exact .lengths (htarget t ht) hlacks
  have target : ∀ {p tr : String} {t : Transport}, parseTransport tr = .ok t →
      (match parseTransport tr with
        | .ok t => some (p, t)
        | .error _ => none) = some (p, t) := by
    intro p tr t ht
    rw [ht]
  cases r with
  | transmitSecured p payload tr =>
    obtain ⟨t, ht, hlacks⟩ := transmitSecured_serverError ha h
    exact .lengths (target ht) hlacks
  | receiveSecured p frame tr =>
    exact caused rfl (fun t ht => target ht) (receiveSecured_serverError ha h)
  | validateSecured p frame tr =>
    exact caused rfl (fun t ht => target ht) (receiveSecured_serverError ha h)
  | replayReplay p tr =>
    simp only [request, replayReplay] at h
    split at h
    · cases h
    · next frame bus _ =>
      have hcause := receiveSecured_serverError (a := a.withBus bus) (ha.withBus bus) h
      exact caused rfl (fun t ht => target ht) hcause
  | mitmTamper p payload tr =>
    exact caused rfl (fun t ht => target ht) (mitmTamper_serverError ha h)
  | forgeInject p mode =>
    simp only [request, forgeInject] at h
    split at h
    · cases h
    · obtain ⟨t, ht, hcause⟩ := receiveSecured_serverError ha h
      rw [parseTransport_value] at ht
      cases ht
      rcases hcause with ⟨rfl, hd⟩ | hlacks
      · exact .flush rfl hd
      · exact .lengths rfl hlacks
  | updateProfileVersion p version => exact .configFile (updateProfileVersion_serverError h)
  | provisionKey p keyId =>
    obtain ⟨rfl, hd⟩ := provisionKey_serverError ha h
    exact .flush rfl hd
  | rotateKey p newKeyId =>
    obtain ⟨rfl, hd⟩ := rotateKey_serverError ha hrecords h
    exact .flush rfl hd
  | canSend p data =>
    simp only [request, canSend] at h
    split at h <;> cases h
  | replayCapture p =>
    simp only [request, replayCapture] at h
    split at h <;> cases h
  | resetEcu => cases h

theorem respond_snd (D : Digests) (a : AppState) (r : Request) (broadcast : Except PyError Unit) :
    (a.respond D r broadcast).2 = (a.request D r).2 := by
  unfold respond
  dsimp only
  split <;> rfl

theorem respond_serverError {r : Request} {broadcast : Except PyError Unit}
    (h : (a.respond D r broadcast).1.response = .serverError e) :
    (broadcasts r ∧ broadcast = .error e) ∨ (a.request D r).1.response = .serverError e := by
  unfold respond at h
  dsimp only at h
  split at h
  · next e' hok _ =>
    split_ifs at h with hr
    · exact Or.inl ⟨hr, congrArg Except.error (Response.serverError.inj h)⟩
    · exact Or.inr h
  · exact Or.inr h

end AppState

/-! A device keeps its stack ready. -/

def Stack.Provided (s : Stack) : Prop :=
  ∀ p e, s.profiles.get? p = some e → s.nvm.Holds (Recorded p)

theorem Stack.Provided.op {D : Digests} {s s' : Stack} (h : s.Provided) (hop : Op D s s') :
    s'.Provided := by
  intro p e hp
  have hbefore : ∃ e, s.profiles.get? p = some e := by
    cases hop with
    | transmit q b t =>
      rw [(transmitSecured_extends q b t).profiles] at hp
      exact ⟨e, hp⟩
    | receive q b t =>
      rw [(receiveSecured_extends q b t).profiles] at hp
      exact ⟨e, hp⟩
    | version q version hq =>
      rw [Dict.get?_set] at hp
      split_ifs at hp with hpq
      · exact ⟨_, hpq ▸ hq⟩
      · exact ⟨e, hp⟩
    | _ => exact ⟨e, hp⟩
  obtain ⟨e₀, he₀⟩ := hbefore
  exact (storable_recorded p).op hop (h p e₀ he₀)

theorem AppState.init_provided {D : Digests} {env : Environment} {a : AppState}
    (h : init D env = .ok a) : a.stack.Provided := by
  obtain ⟨profiles, hsm, nvm, nvm', dem, hk, hg, -, hstack⟩ := init_eq_ok h
  have hsynced : ({ NvM.load env.nvmFile with diskFault := env.diskFault } : NvM).Synced := rfl
  have hrecorded := (KeyManager.provisionKeys_recorded _ hsynced hk).2
  intro p e hp
  rw [hstack] at hp ⊢
  have hmem : p ∈ (profiles.items.map fun e => (e.1, e.2.keyId)).map Prod.fst := by
    rw [List.map_map]
    exact List.mem_map.mpr ⟨(p, e), Dict.mem_of_lookup hp, rfl⟩
  have hkept := (storable_recorded p).provisionGoldenHashes (D.sha256 SecureBoot.currentSnapshot)
    (List.Subset.refl _) (hrecorded p hmem)
  rw [hg] at hkept
  exact hkept

namespace HSM

structure Alive (h : HSM) : Prop where
  failMode : h.failMode = false
  drawn : h.Drawn h.urandom

theorem alive_new (u : Nat → Bytes) : (new u).Alive := ⟨rfl, drawn_new u⟩

theorem keptByDraws_alive : KeptByDraws Alive :=
  fun h keyId ha => ⟨ha.failMode, keptByDraws_drawn h.urandom h keyId ha.drawn⟩

end HSM

namespace Device
variable {D : Digests} {d : Device}

def Provided : Device → Prop
  | running app => app.stack.Provided
  | off _ => True

theorem Provided.step (h : d.Provided) (op : DeviceOp) : (d.step D op).2.Provided := by
  cases op with
  | restart urandom overBudget =>
    simp only [Device.step, restart]
    split
    · next app happ => exact AppState.init_provided happ
    · trivial
  | request r =>
    cases d with
    | running app =>
      exact Ops.preserves (fun hop hs => Stack.Provided.op hs hop) (app.request_ops (D := D) r) h
    | off disk => trivial
  | nvmFault fault =>
    cases d with
    | running app =>
      intro p e hp
      have hkept : app.stack.nvm.Holds (Recorded p) := h p e hp
      exact ⟨hkept.store, hkept.file⟩
    | off disk => trivial
  | configure configFile => cases d <;> exact h

structure Sound (d : Device) : Prop where
  nvm : d.Holds Restorable
  wired : d.Wired
  alive : d.OfHsm HSM.Alive
  provided : d.Provided

theorem Sound.step (h : d.Sound) (op : DeviceOp) : (d.step D op).2.Sound where
  nvm := h.nvm.step storable_restorable op
  wired := h.wired.step op
  provided := h.provided.step op
  alive := by
    by_cases hop : op.Continues
    · exact h.alive.step HSM.keptByDraws_alive hop
    · -- a new process starts with an empty HSM
      simp only [DeviceOp.Continues, not_forall, not_not] at hop
      obtain ⟨u, overBudget, rfl⟩ := hop
      exact ofHsm_restart HSM.keptByDraws_alive D d overBudget (HSM.alive_new u)

theorem Sound.ready {app : AppState} (h : (running app).Sound) : app.stack.Ready where
  alive := h.alive.failMode
  drawn := h.alive.drawn
  resolved p e hp := by
    rw [Stack.resolveKeyId, h.wired.keyManager]
    exact KeyManager.resolveKey_of_recorded (h.provided p e hp).store
  counted := h.nvm.store.counter

/-- **Internal errors are excused.** From any files whose records can be read, through requests,
restarts, failing flushes and new configurations, a request that is answered with an internal error
fails in its broadcast, or for lack of lengths in the configuration, or of a way to write a file. -/
theorem server_errors_excused (D : Digests) {disk : Disk}
    (hnvm : Restorable (disk.nvmFile.getD Dict.empty)) (ops : List DeviceOp) {app : AppState}
    (happ : (machine D).exec (off disk) ops = running app) {r : Request}
    {broadcast : Except PyError Unit} {e : PyError}
    (h : (app.respond D r broadcast).1.response = .serverError e) :
    ((AppState.broadcasts r ∧ broadcast = .error e) ∨ app.Excuse r e) ∧
      (app.respond D r broadcast).2 = (app.request D r).2 := by
  have hstart : (off disk).Sound := ⟨hnvm, trivial, trivial, trivial⟩
  have hsound := (machine D).exec_preserves (fun d op h => h.step op) hstart ops
  rw [happ] at hsound
  refine ⟨?_, app.respond_snd D r broadcast⟩
  exact (AppState.respond_serverError h).imp_right
    (AppState.excuse hsound.ready hsound.nvm.store)

theorem server_errors_excused_shipped :
    let app := { AppState.shippedApp .standard (toBytesBE 32) with
      stack := { (AppState.shippedApp .standard (toBytesBE 32)).stack with
        nvm := { (AppState.shippedApp .standard (toBytesBE 32)).stack.nvm with
          diskFault := true } } }
    let provision : Request := .provisionKey "PDU_0x100" "another"
    (machine .standard).exec (off .shipped)
        [.nvmFault false, .restart (toBytesBE 32) fun _ => false, .nvmFault true] = running app ∧
      (app.respond .standard provision (.ok ())).1.response = .serverError .osError ∧
      app.Excuse provision .osError := by
  intro app provision
  have hinit : AppState.init .standard (((off .shipped).setNvmFault false).environment
      (toBytesBE 32) fun _ => false) = .ok (AppState.shippedApp .standard (toBytesBE 32)) :=
    AppState.init_shipped _ _
  have happ : (machine .standard).exec (off .shipped)
      [.nvmFault false, .restart (toBytesBE 32) fun _ => false, .nvmFault true] = running app := by
    simp only [Mealy.exec_cons, Mealy.exec_nil, machine, step, restart, hinit]
    rfl
  have hanswer : (app.respond .standard provision (.ok ())).1.response = .serverError .osError :=
    rfl
  have hnvm : Restorable (Disk.shipped.nvmFile.getD Dict.empty) := restorable_empty
  obtain ⟨hexcused, -⟩ := server_errors_excused .standard hnvm _ happ hanswer
  have hquiet : ¬(AppState.broadcasts provision ∧ Except.ok () = Except.error PyError.osError) := by
    rintro ⟨-, herror⟩
    cases herror
  exact ⟨happ, hanswer, hexcused.resolve_left hquiet⟩

end Device

end SecOC
