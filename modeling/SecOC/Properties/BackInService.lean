import SecOC.Properties.Rekeying

/-! Coming up again. Whatever requests, restarts and failing flushes a device has been through, the
application starts from the files it finds, and serves every PDU of its configuration. -/

namespace SecOC
open Py FreshnessManager Stack

/-! The configuration stays one that loads. -/

def ConfigFile.Loads (f : ConfigFile) : Prop := ∃ profiles, f.load = .ok profiles

theorem loadEntries_ok_iff {raw : List (String × RawEntry)} {profiles : Profiles} :
    (∃ profiles', loadEntries raw profiles = .ok profiles') ↔
      ∀ e ∈ raw, ∃ entry, e.2.Loads entry := by
  induction raw generalizing profiles with
  | nil => exact iff_of_true ⟨profiles, rfl⟩ (List.forall_mem_nil _)
  | cons e raw ih =>
    obtain ⟨p, r⟩ := e
    rw [List.forall_mem_cons]
    constructor
    · rintro ⟨profiles', h⟩
      obtain ⟨entry, he, hrest⟩ := bind_eq_ok.mp h
      exact ⟨⟨entry, loadEntry_eq_ok he⟩, ih.mp ⟨profiles', hrest⟩⟩
    · rintro ⟨⟨entry, he⟩, hrest⟩
      obtain ⟨profiles', h⟩ := ih.mpr hrest
      exact ⟨profiles', bind_eq_ok.mpr ⟨entry, he.loadEntry p, h⟩⟩

theorem RawEntry.Loads.version {r : RawEntry} {e : SecurityProfileEntry} (h : r.Loads e)
    (version : String) :
    { r with profileVersion := some version }.Loads { e with profileVersion := version } :=
  { h with profileVersion := rfl }

theorem ConfigFile.Loads.update {f : ConfigFile} (h : f.Loads) (profiles : Profiles)
    (p version : String) : (updateProfileVersion profiles f p version).2.2.Loads := by
  unfold updateProfileVersion
  split
  · exact h
  · split
    · exact h
    · exact h
    · next raw hraw =>
      split
      · exact h
      · next r hr =>
        split_ifs
        · exact h
        · have hall : ∀ e ∈ raw.items, ∃ entry, e.2.Loads entry := by
            obtain ⟨loaded, hload⟩ := h
            rw [load, hraw] at hload
            exact loadEntries_ok_iff.mp ⟨loaded, hload⟩
          obtain ⟨entry, hentry⟩ := hall _ (Dict.mem_of_lookup hr)
          apply loadEntries_ok_iff.mpr
          intro e he
          rcases Dict.mem_setItem he with rfl | he
          · exact ⟨_, hentry.version version⟩
          · exact hall e he

theorem AppState.request_loads {D : Digests} {a : AppState} (h : a.configFile.Loads)
    (r : Request) : (a.request D r).2.configFile.Loads := by
  refine request_keeps (I := fun a => a.configFile.Loads) (fun {a _} hstep ha => ?_) h r
  cases hstep with
  | @version p version r profiles file hupdate =>
    have hloads := ha.update a.stack.profiles p version
    rw [hupdate] at hloads
    exact hloads
  | _ => exact ha

/-! The NvM stays one whose key records and counters can be read. -/

def Recorded (p : String) (d : Dict String Value) : Prop :=
  ∃ m, KeyStorage.ofRecord (d.getD (KeyStorage.nvmKey p) .none) = .ok m

structure Restorable (d : Dict String Value) : Prop where
  record : ∀ p, d.getD (KeyStorage.nvmKey p) .none = .none ∨ Recorded p d
  counter : ∀ p, ∃ L, (d.getD (lastValidKey p) (.int 0)).asInt = .ok L

theorem restorable_empty : Restorable Dict.empty := ⟨fun _ => Or.inl rfl, fun _ => ⟨0, rfl⟩⟩

theorem recorded_of_eq {p : String} {d d' : Dict String Value}
    (h : d'.getD (KeyStorage.nvmKey p) .none = d.getD (KeyStorage.nvmKey p) .none)
    (hd : Recorded p d) : Recorded p d' := by
  unfold Recorded
  rw [h]
  exact hd

theorem getD_record_ne {p : String} {d : Dict String Value} {key : String} (value : Value)
    (hkey : KeyStorage.nvmKey p ≠ key) :
    (d.set key value).getD (KeyStorage.nvmKey p) .none = d.getD (KeyStorage.nvmKey p) .none :=
  Dict.getD_set_ne _ _ _ hkey

theorem recorded_metadata (d : Dict String Value) (m : KeyMetadata) :
    Recorded m.pduId (d.set (KeyStorage.nvmKey m.pduId) (KeyStorage.record m)) := by
  unfold Recorded
  rw [Dict.getD_set_self]
  exact ⟨m, KeyStorage.ofRecord_record m⟩

theorem storable_recorded (p : String) : Storable (Recorded p) where
  metadata {d} m h := by
    by_cases hp : p = m.pduId
    · rw [hp]
      exact recorded_metadata d m
    · exact recorded_of_eq (getD_record_ne _ fun he => hp (KeyStorage.nvmKey_inj.mp he)) h
  golden hash hkey h :=
    recorded_of_eq (getD_record_ne _ (AppState.goldenKey_ne_nvmKey hkey p).symm) h
  counter {d q L v} _ _ h := recorded_of_eq (getD_record_ne _ (Stack.nvmKey_ne_lastValidKey p q)) h
  window q h := recorded_of_eq (getD_record_ne _ (Stack.nvmKey_ne_windowKey p q)) h

theorem storable_restorable : Storable Restorable := by
  have record : ∀ {d : Dict String Value} {key : String} (value : Value) (p : String),
      KeyStorage.nvmKey p ≠ key → Restorable d →
      (d.set key value).getD (KeyStorage.nvmKey p) .none = .none ∨
        Recorded p (d.set key value) := by
    intro d key value p hne h
    have hsame := getD_record_ne (d := d) value hne
    rw [hsame]
    exact (h.record p).imp id (recorded_of_eq hsame)
  have counter : ∀ {d : Dict String Value} {key : String} (value : Value) (p : String),
      lastValidKey p ≠ key → Restorable d →
      ∃ L, ((d.set key value).getD (lastValidKey p) (.int 0)).asInt = .ok L := by
    intro d key value p hne h
    rw [Dict.getD_set_ne _ _ _ hne]
    exact h.counter p
  refine ⟨fun {d} m h => ⟨fun p => ?_, fun p => ?_⟩, fun hash hkey h => ⟨fun p => ?_, fun p => ?_⟩,
    fun {d q L v} _ _ h => ⟨fun p => ?_, fun p => ?_⟩, fun q h => ⟨fun p => ?_, fun p => ?_⟩⟩
  · by_cases hp : p = m.pduId
    · rw [hp]
      exact Or.inr (recorded_metadata d m)
    · exact record _ p (fun he => hp (KeyStorage.nvmKey_inj.mp he)) h
  · exact counter _ p (Stack.nvmKey_ne_lastValidKey m.pduId p).symm h
  · exact record _ p (AppState.goldenKey_ne_nvmKey hkey p).symm h
  · exact counter _ p (goldenKey_ne_lastValidKey hkey p).symm h
  · exact record _ p (Stack.nvmKey_ne_lastValidKey p q) h
  · by_cases hp : p = q
    · subst hp
      exact ⟨v, by rw [Dict.getD_set_self]; rfl⟩
    · exact counter _ p (fun he => hp (lastValidKey_inj.mp he)) h
  · exact record _ p (Stack.nvmKey_ne_windowKey p q) h
  · exact counter _ p (lastValidKey_ne_windowKey p q) h

/-! Starting from such files. -/

theorem KeyManager.resolveKey_of_recorded {nvm : NvM} {p : String} (h : Recorded p nvm.store) :
    ∃ keyId, resolveKey nvm p = .ok keyId := by
  obtain ⟨m, hm⟩ := h
  refine ⟨m.keyId, ?_⟩
  unfold resolveKey KeyStorage.getKeyMetadata NvM.read
  split
  · next e he =>
    split at he
    · cases he
    · rw [hm] at he
      cases he
  · next he =>
    split at he
    · next hnone =>
      rw [hnone] at hm
      cases hm
    · rw [hm] at he
      cases he
  · next he =>
    split at he
    · cases he
    · rw [hm] at he
      cases he
      rfl

theorem KeyManager.recorded_of_resolveKey {nvm : NvM} {p keyId : String}
    (h : resolveKey nvm p = .ok keyId) : Recorded p nvm.store := by
  unfold resolveKey KeyStorage.getKeyMetadata NvM.read at h
  unfold Recorded
  cases hr : KeyStorage.ofRecord (nvm.store.getD (KeyStorage.nvmKey p) .none) with
  | ok m => exact ⟨m, rfl⟩
  | error e =>
    split at h
    · cases h
    · cases h
    · next he =>
      split at he
      · cases he
      · rw [hr] at he
        cases he

theorem KeyManager.resolveKey_of_none {nvm : NvM} {p : String}
    (h : nvm.store.getD (KeyStorage.nvmKey p) .none = .none) :
    resolveKey nvm p = .error (unprovisioned p) := by
  unfold resolveKey KeyStorage.getKeyMetadata NvM.read
  rw [h]

namespace NvM

def Synced (m : NvM) : Prop := m.file.getD Dict.empty = m.store

structure Flushed (m : NvM) : Prop where
  diskFault : m.diskFault = false
  file : m.Synced

variable {m : NvM}

theorem Synced.holds (hm : m.Synced) {P : Dict String Value → Prop} (h : P m.store) :
    m.Holds P := ⟨h, hm.symm ▸ h⟩

theorem Flushed.holds (hm : m.Flushed) {P : Dict String Value → Prop} (h : P m.store) :
    m.Holds P := hm.file.holds h

theorem Flushed.write (hm : m.Flushed) (key : String) (value : Value) :
    (m.write key value).1 = .ok () ∧ (m.write key value).2.Flushed := by
  unfold NvM.write flush
  rw [if_neg (Bool.eq_false_iff.mp hm.diskFault)]
  exact ⟨rfl, hm.diskFault, rfl⟩

end NvM

theorem KeyManager.provisionKey_ok {hsm hsm' : HSM} {nvm nvm' : NvM} {p keyId : String}
    {m : KeyMetadata} (h : provisionKey hsm nvm p keyId = (.ok m, hsm', nvm')) :
    nvm'.Synced ∧ Recorded p nvm'.store := by
  cases hf : hsm.failMode with
  | true =>
    unfold provisionKey at h
    simp only [HSM.generateSymmetricKey_eq_ite, hf, if_true] at h
    cases h
  | false =>
    rw [provisionKey_of_available hf] at h
    cases hd : nvm.diskFault with
    | true =>
      rw [hd] at h
      cases h
    | false =>
      rw [hd] at h
      cases h
      unfold KeyStorage.saveKeyMetadata NvM.write NvM.flush
      rw [if_neg (Bool.eq_false_iff.mp hd)]
      exact ⟨rfl, recorded_metadata nvm.store { pduId := p, keyId, version := 1,
                                                lifecycleState := .active }⟩

theorem KeyManager.provisionKeys_recorded (keys : List (String × String)) {hsm hsm' : HSM}
    {nvm nvm' : NvM} (hm : nvm.Synced) (h : provisionKeys keys hsm nvm = (.ok (), hsm', nvm')) :
    nvm'.Synced ∧ ∀ p ∈ keys.map Prod.fst, nvm'.Holds (Recorded p) := by
  induction keys generalizing hsm nvm with
  | nil =>
    cases h
    exact ⟨hm, List.forall_mem_nil _⟩
  | cons e rest ih =>
    obtain ⟨p, keyId⟩ := e
    -- the rest of the loop keeps the record of this PDU
    have later : ∀ {hsm : HSM} {nvm : NvM}, nvm.Synced → Recorded p nvm.store →
        provisionKeys rest hsm nvm = (.ok (), hsm', nvm') →
        nvm'.Synced ∧ ∀ q ∈ p :: rest.map Prod.fst, nvm'.Holds (Recorded q) := by
      intro hsm nvm hm hrecorded h
      obtain ⟨hsynced, hrest⟩ := ih hm h
      have hfirst := (storable_recorded p).provisionKeys rest hsm (hm.holds hrecorded)
      rw [h] at hfirst
      refine ⟨hsynced, fun q hq => ?_⟩
      rcases List.mem_cons.mp hq with rfl | hq
      · exact hfirst
      · exact hrest q hq
    unfold provisionKeys at h
    split at h
    · next he => exact later hm (recorded_of_resolveKey he) h
    · split at h
      · cases h
      · next he =>
        obtain ⟨hsynced, hrecorded⟩ := provisionKey_ok he
        exact later hsynced hrecorded h
    · cases h

theorem KeyManager.provisionKeys_ok (keys : List (String × String)) {hsm : HSM} {nvm : NvM}
    (hf : hsm.failMode = false) (hm : nvm.Flushed) (h : Restorable nvm.store) :
    (provisionKeys keys hsm nvm).1 = .ok () ∧ (provisionKeys keys hsm nvm).2.2.Flushed := by
  induction keys generalizing hsm nvm with
  | nil => exact ⟨rfl, hm⟩
  | cons e rest ih =>
    obtain ⟨p, keyId⟩ := e
    rw [provisionKeys]
    rcases h.record p with hnone | hrecorded
    · let metadata : KeyMetadata := { pduId := p, keyId, version := 1, lifecycleState := .active }
      have hprovision := provisionKey_of_available hf nvm p keyId
      rw [hm.diskFault] at hprovision
      have hflushed : (KeyStorage.saveKeyMetadata nvm metadata).2.Flushed := (hm.write _ _).2
      have hkept : (KeyStorage.saveKeyMetadata nvm metadata).2.Holds Restorable :=
        (hm.holds h).write (storable_restorable.metadata metadata h)
      have halive : (hsm.storeRandomKey keyId).failMode = false := hf
      rw [resolveKey_of_none hnone, unprovisioned]
      simp only [hprovision]
      exact ih halive hflushed hkept.store
    · obtain ⟨resolved, hresolved⟩ := resolveKey_of_recorded hrecorded
      rw [hresolved]
      exact ih hf hm h

theorem SecureBoot.provisionGoldenHashes_ok (hash : Bytes) (keys : List String) {nvm : NvM}
    (hm : nvm.Flushed) : (provisionGoldenHashes hash keys nvm).1 = .ok () ∧
      (provisionGoldenHashes hash keys nvm).2.Flushed := by
  induction keys generalizing nvm with
  | nil => exact ⟨rfl, hm⟩
  | cons key rest ih =>
    obtain ⟨hok, hflushed⟩ := hm.write key (.bytes hash)
    unfold provisionGoldenHashes
    split
    · split
      · next he =>
        rw [he] at hok
        cases hok
      · next he =>
        rw [he] at hflushed
        exact ih hflushed
    · exact ih hm

/-- Every PDU of the configuration sends on its transports, and its frames are received where the
next counter fits the freshness field. -/
def Stack.Serves (D : Digests) (s : Stack) : Prop :=
  ∀ p e, s.profiles.get? p = some e →
    ∀ (t : Transport) (n : Nat) (m : Int), e.truncationLengths t = .ok ((n : Int), m) →
    0 < m → m ≤ 32 → ∀ payload : Bytes,
    (t = .classicCan → payload.length ≤ classicCanPayloadBytes) →
    ∃ frame, (s.transmitSecured D p payload t).1 = .ok frame ∧
      (Delivered D (s.transmitSecured D p payload t).2 p frame t (padded t payload) ↔
        s.NextFits p n)

structure Stack.Ready (s : Stack) : Prop where
  alive : s.csm.hsm.failMode = false
  drawn : s.csm.hsm.Drawn s.csm.hsm.urandom
  resolved : ∀ p e, s.profiles.get? p = some e → ∃ keyId, s.resolveKeyId p e = .ok keyId
  counted : ∀ p, ∃ L, lastValid s.nvm p = .ok L

structure Stack.InService (s : Stack) : Prop extends s.Ready where
  diskFault : s.nvm.diskFault = false
  freshnessManager : s.freshnessManager =
    { windowSize := 16, freshnessLength := Config.defaultFreshnessLength }

theorem SecureBoot.verifyBootIntegrity_ok (D : Digests) {hsm : HSM} (hf : hsm.failMode = false)
    (nvm : NvM) (dem : DEM) :
    ∃ boot dem', verifyBootIntegrity D hsm nvm dem = .ok (boot, dem') := by
  obtain ⟨failure, hfailure, -⟩ := firstFailure_total D nvm hf components
  unfold verifyBootIntegrity
  rw [hfailure]
  cases failure <;> exact ⟨_, _, rfl⟩

theorem AppState.init_ok (D : Digests) {env : Environment} (hfault : env.diskFault = false)
    (hconfig : env.configFile.Loads) (hnvm : Restorable (env.nvmFile.getD Dict.empty)) :
    ∃ a, init D env = .ok a ∧ a.stack.InService ∧
      a.stack.escalation.ecuState = .normalOperation ∧ a.stack.escalation.lockedOut = false := by
  obtain ⟨profiles, hload⟩ := hconfig
  let keys := profiles.items.map fun e => (e.1, e.2.keyId)
  let loaded : NvM := { NvM.load env.nvmFile with diskFault := env.diskFault }
  have hflushed : loaded.Flushed := ⟨hfault, rfl⟩
  have halive : (HSM.new env.urandom).failMode = false := rfl
  -- each key, each golden hash and the verdict, in the order of `__init__`
  obtain ⟨hok, hflushed₁⟩ := KeyManager.provisionKeys_ok keys halive hflushed hnvm
  have hmode := (KeyManager.provisionKeys_frame keys (HSM.new env.urandom) loaded).1
  have hrestorable := storable_restorable.provisionKeys keys (HSM.new env.urandom)
    (hflushed.holds hnvm)
  rcases hk : KeyManager.provisionKeys keys (HSM.new env.urandom) loaded with ⟨r, hsm, nvm⟩
  rw [hk] at hok hflushed₁ hmode hrestorable
  obtain rfl : r = .ok () := hok
  have hrecorded := (KeyManager.provisionKeys_recorded keys hflushed.file hk).2
  let golden := D.sha256 SecureBoot.currentSnapshot
  let goldenKeys := SecureBoot.components.map Prod.snd
  obtain ⟨hok, hflushed₂⟩ := SecureBoot.provisionGoldenHashes_ok golden goldenKeys hflushed₁
  have hkept : ∀ {P : Dict String Value → Prop}, Storable P → P nvm.store →
      P (SecureBoot.provisionGoldenHashes golden goldenKeys nvm).2.store := by
    intro P hP h
    exact (hP.provisionGoldenHashes golden (List.Subset.refl _) (hflushed₁.holds h)).store
  rcases hg : SecureBoot.provisionGoldenHashes golden goldenKeys nvm with ⟨r, nvm'⟩
  rw [hg] at hok hflushed₂
  simp only [hg] at hkept
  obtain rfl : r = .ok () := hok
  obtain ⟨boot, dem, hboot⟩ := SecureBoot.verifyBootIntegrity_ok D (hmode.trans halive) nvm' .empty
  have hinit := init_of hload hk hg hboot
  refine ⟨_, hinit, ?_, rfl, rfl⟩
  have hdrawn := (HSM.keptByDraws_drawn env.urandom).init hinit (HSM.drawn_new env.urandom)
  exact {
    alive := hmode.trans halive
    drawn := hdrawn.urandom.symm ▸ hdrawn
    resolved := by
      intro p e hp
      have hmem : p ∈ keys.map Prod.fst := by
        rw [List.map_map]
        exact List.mem_map.mpr ⟨(p, e), Dict.mem_of_lookup hp, rfl⟩
      exact KeyManager.resolveKey_of_recorded
        (hkept (storable_recorded p) (hrecorded p hmem).store)
    counted := (hkept storable_restorable hrestorable.store).counter
    diskFault := hflushed₂.diskFault
    freshnessManager := rfl }

theorem Stack.Ready.exists_macReady {s : Stack} (h : s.Ready) {p : String}
    {e : SecurityProfileEntry} {t : Transport} (hp : s.profiles.get? p = some e) {n : Nat} {m : Int}
    (hl : e.truncationLengths t = .ok ((n : Int), m)) :
    ∃ R : MacReady s p t, R.freshLen = n ∧ R.macLen = m := by
  obtain ⟨keyId, hresolved⟩ := h.resolved p e hp
  obtain ⟨i, -, hkey⟩ := h.drawn.macKey keyId
  exact ⟨⟨e, keyId, _, n, m, hp, hl, hresolved, h.alive, hkey⟩, rfl, rfl⟩

theorem Stack.Ready.exists_transmission {s : Stack} (h : s.Ready) {p : String}
    {e : SecurityProfileEntry} {t : Transport} (hp : s.profiles.get? p = some e) {n : Nat} {m : Int}
    (hl : e.truncationLengths t = .ok ((n : Int), m)) {payload : Bytes}
    (hfits : t = .classicCan → payload.length ≤ classicCanPayloadBytes) :
    ∃ T : Transmission s p payload t, T.freshLen = n ∧ T.macLen = m := by
  obtain ⟨R, hn, hm⟩ := h.exists_macReady hp hl
  obtain ⟨L, hL⟩ := h.counted p
  exact ⟨⟨R, hfits, L, hL⟩, hn, hm⟩

theorem Stack.InService.serves {s : Stack} (h : s.InService) (D : Digests) : s.Serves D := by
  intro p e hp t n m hl hm hm' payload hfits
  obtain ⟨T, rfl, rfl⟩ := h.exists_transmission hp hl hfits
  have hw : 1 ≤ s.freshnessManager.windowSize := by
    rw [h.freshnessManager]
    decide
  refine ⟨T.frame D, ?_, ?_⟩
  · rw [T.transmitSecured_eq]
  · rw [T.transmitSecured_eq, T.delivered_iff hm hm' hw h.diskFault]
    constructor
    · intro hnext
      exact ⟨T.lastValid, T.counted, hnext⟩
    · rintro ⟨L, hL, hnext⟩
      rw [lastValid_inj T.counted hL]
      exact hnext

namespace Device
variable {D : Digests} {d : Device}

structure Startable (d : Device) : Prop where
  config : d.disk.configFile.Loads
  nvm : d.Holds Restorable

def DeviceOp.Loadable (op : DeviceOp) : Prop := ∀ f, op = .configure f → f.Loads

theorem Startable.step (h : d.Startable) {op : DeviceOp} (hop : DeviceOp.Loadable op) :
    (d.step D op).2.Startable := by
  refine ⟨?_, h.nvm.step storable_restorable op⟩
  have hconfig := h.config
  cases op with
  | restart urandom overBudget =>
    simp only [Device.step, restart]
    split
    · next app happ =>
      change app.configFile.Loads
      rw [(AppState.init_files happ).2.1]
      exact hconfig
    · exact hconfig
  | request r =>
    cases d with
    | running app => exact AppState.request_loads hconfig r
    | off disk => exact hconfig
  | nvmFault fault => cases d <;> exact hconfig
  | configure configFile => cases d <;> exact hop configFile rfl

theorem Startable.run (h : d.Startable) {ops : List DeviceOp}
    (hops : ∀ op ∈ ops, DeviceOp.Loadable op) : ((machine D).exec d ops).Startable := by
  induction ops generalizing d with
  | nil => exact h
  | cons op ops ih =>
    obtain ⟨hop, hops⟩ := List.forall_mem_cons.mp hops
    exact ih (h.step hop) hops

theorem Startable.restart (h : d.Startable) (hfault : d.disk.nvmFault = false)
    (urandom : Nat → Bytes) (overBudget : Nat → Bool) :
    ∃ app, d.restart D urandom overBudget = (.restarted (.ok ()), running app) ∧
      app.stack.InService ∧ app.configFile.load = .ok app.stack.profiles ∧
      app.stack.escalation.ecuState = .normalOperation ∧
      app.stack.escalation.lockedOut = false := by
  have hfiles : Restorable ((d.environment urandom overBudget).nvmFile.getD Dict.empty) :=
    h.nvm.disk
  obtain ⟨app, hinit, hservice, hstate, hopen⟩ := AppState.init_ok D hfault h.config hfiles
  obtain ⟨-, hfile, hload⟩ := AppState.init_files hinit
  refine ⟨app, ?_, hservice, ?_, hstate, hopen⟩
  · simp only [Device.restart, hinit]
  · rw [hfile, hload]

/-- **Back in service.** From files the application starts from, and whatever requests, restarts,
failing flushes and loadable configurations come, the device is one restart away from normal
operation, with the disk working again, and serves every PDU of the configuration. -/
theorem back_in_service (D : Digests) {disk : Disk} (hconfig : disk.configFile.Loads)
    (hnvm : Restorable (disk.nvmFile.getD Dict.empty)) {ops : List DeviceOp}
    (hops : ∀ op ∈ ops, DeviceOp.Loadable op) (urandom : Nat → Bytes) (overBudget : Nat → Bool) :
    ∃ app, (machine D).exec (off disk) (ops ++ [.nvmFault false, .restart urandom overBudget]) =
        running app ∧
      app.configFile.load = .ok app.stack.profiles ∧
      app.stack.escalation.ecuState = .normalOperation ∧ app.stack.escalation.lockedOut = false ∧
      app.stack.Serves D := by
  have hstart : (off disk).Startable := ⟨hconfig, hnvm⟩
  have hrun := hstart.run (D := D) hops
  generalize hd : (machine D).exec (off disk) ops = d at hrun
  have hworking : (d.step D (.nvmFault false)).2.Startable := hrun.step fun f hf => by cases hf
  have hfault : (d.step D (.nvmFault false)).2.disk.nvmFault = false := by cases d <;> rfl
  obtain ⟨app, hrestart, hservice, hload, hstate, hopen⟩ :=
    hworking.restart (D := D) hfault urandom overBudget
  refine ⟨app, ?_, hload, hstate, hopen, hservice.serves D⟩
  rw [Mealy.exec_append, hd]
  change ((d.step D (.nvmFault false)).2.restart D urandom overBudget).2 = _
  rw [hrestart]

theorem back_in_service_shipped :
    ∃ app, (machine .standard).exec (off .shipped)
        ([.restart (toBytesBE 32) fun _ => false, .nvmFault false,
          .restart (toBytesBE 32) fun _ => false, .request .resetEcu] ++
          [.nvmFault false, .restart (toBytesBE 32) fun _ => false]) = running app ∧
      app.configFile.load = .ok app.stack.profiles ∧
      app.stack.escalation.ecuState = .normalOperation ∧ app.stack.escalation.lockedOut = false ∧
      app.stack.Serves .standard := by
  have hconfig : Disk.shipped.configFile.Loads := ⟨_, rfl⟩
  have hnvm : Restorable (Disk.shipped.nvmFile.getD Dict.empty) := restorable_empty
  apply back_in_service .standard hconfig hnvm
  intro op hop f hf
  subst hf
  simp at hop

end Device

end SecOC
