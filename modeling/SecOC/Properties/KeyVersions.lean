import SecOC.Sim.KeyRuns

/-! Version numbers of a PDU's keys. Rotation counts on from the stored version, provisioning
starts again at 1, so the versions grow exactly until a provisioned PDU is provisioned again. -/

namespace SecOC.KeyManager
open Py

def recordStored (p : String) (s : KeyManager) (op : KeyOp) : List KeyMetadata :=
  if op.pduId = some p ∧ (machine.step s op).1.isOk then
    ((machine.step s op).2.metadata p).toList
  else []

def recordsStored (p : String) : KeyManager → List KeyOp → List KeyMetadata
  | _, [] => []
  | s, op :: ops => recordStored p s op ++ recordsStored p (machine.step s op).2 ops

def VersionsIncrease (records : List KeyMetadata) : Prop :=
  records.Pairwise fun m m' => m.version < m'.version

/-- The versions stored for a PDU grow from call to call, and after every part of the run the key
that is resolved is the one of the highest version issued. -/
structure Traceable (p : String) (s : KeyManager) (ops : List KeyOp) : Prop where
  increasing : VersionsIncrease (recordsStored p s ops)
  highest : ∀ pre, pre <+: ops → ∀ m ∈ recordsStored p s pre,
    (∀ m' ∈ recordsStored p s pre, m'.version ≤ m.version) →
    (machine.exec s pre).resolve p = .ok m.keyId

def RaisesKeep (s : KeyManager) (op : KeyOp) : Prop :=
  ∀ e, (machine.step s op).1 = .error e → ∀ p,
    (machine.step s op).2.resolve p = s.resolve p ∧
    ((machine.step s op).2.metadata p).map KeyMetadata.version =
      (s.metadata p).map KeyMetadata.version

/-- A PDU that has a key is not provisioned once more. -/
def FirstProvision (p : String) (s : KeyManager) (op : KeyOp) : Prop :=
  s.Stores op → ∀ k, op = .provisionKey p k → s.metadata p = none

variable {s : KeyManager} {p : String}

theorem recordStored_cases (hs : s.Readable) (hd : s.nvm.diskFault = false) (op : KeyOp) :
    (recordStored p s op = [] ∧ (machine.step s op).2.metadata p = s.metadata p ∧
      ¬(s.Stores op ∧ op.pduId = some p)) ∨
    (s.Stores op ∧ op.pduId = some p ∧ ∃ m, s.record op = some m ∧ recordStored p s op = [m] ∧
      (machine.step s op).2.metadata p = some m) := by
  unfold recordStored
  rcases step_cases hs op with ⟨hnone, fail, he⟩ | ⟨hno, e, he⟩ | ⟨hstores, m, hm, hp, -, he⟩
  · refine Or.inl ⟨?_, ?_, ?_⟩
    · simp [hnone]
    · rw [he]
      rfl
    · rintro ⟨-, hp⟩
      rw [hnone] at hp
      cases hp
  · refine Or.inl ⟨?_, ?_, fun h => hno h.1⟩
    · rw [he]
      exact if_neg fun h => Bool.false_ne_true h.2
    · rw [he]
  · rw [he, hd, hp, metadata_save]
    by_cases h : p = m.pduId
    · subst h
      exact Or.inr ⟨hstores, rfl, m, hm, by simp [Except.isOk, Except.toBool], if_pos rfl⟩
    · have hne : some m.pduId ≠ some p := fun he => h (Option.some.inj he).symm
      exact Or.inl ⟨if_neg fun h => hne h.1, if_neg h, fun h => hne h.2⟩

theorem diskFault_step (hs : s.Readable) (op : KeyOp) :
    (machine.step s op).2.nvm.diskFault = s.nvm.diskFault := by
  rcases step_cases hs op with ⟨-, fail, he⟩ | ⟨-, e, he⟩ | ⟨-, m, -, -, -, he⟩
  · rw [he]
  · rw [he]
  · rw [he]
    exact NvM.write_snd_diskFault _ _ _

theorem recordsStored_append (s : KeyManager) (ops ops' : List KeyOp) :
    recordsStored p s (ops ++ ops') =
      recordsStored p s ops ++ recordsStored p (machine.exec s ops) ops' := by
  induction ops generalizing s with
  | nil => rfl
  | cons op ops ih =>
    simp only [List.cons_append, recordsStored, ih, Mealy.exec_cons, List.append_assoc]

theorem metadata_exec (hs : s.Readable) (hd : s.nvm.diskFault = false) (ops : List KeyOp) :
    (machine.exec s ops).metadata p =
      ((s.metadata p).toList ++ recordsStored p s ops).getLast? := by
  induction ops generalizing s with
  | nil => cases h : s.metadata p <;> simp [recordsStored, h]
  | cons op ops ih =>
    rw [Mealy.exec_cons, ih (readable_step hs op) ((diskFault_step hs op).trans hd), recordsStored]
    rcases recordStored_cases (p := p) hs hd op with ⟨hrec, hmeta, -⟩ | ⟨-, -, m, -, hrec, hmeta⟩
    · rw [hrec, hmeta, List.nil_append]
    · rw [hrec, hmeta]
      exact (List.getLast?_append_of_ne_nil _ (List.cons_ne_nil _ _)).symm

theorem versionsIncrease_cons_cons {c m : KeyMetadata} {rest : List KeyMetadata} :
    VersionsIncrease (c :: m :: rest) ↔
      c.version < m.version ∧ VersionsIncrease (m :: rest) := by
  constructor
  · intro h
    obtain ⟨hc, hrest⟩ := List.pairwise_cons.mp h
    exact ⟨hc m (List.mem_cons_self ..), hrest⟩
  · rintro ⟨hcm, h⟩
    unfold VersionsIncrease
    rw [List.pairwise_cons]
    refine ⟨?_, h⟩
    intro m' hm'
    rcases List.mem_cons.mp hm' with rfl | hm'
    · exact hcm
    · exact hcm.trans ((List.pairwise_cons.mp h).1 m' hm')

theorem record_version {op : KeyOp} {m : KeyMetadata} (hm : s.record op = some m)
    (hp : op.pduId = some p) :
    ((∃ k, op = .provisionKey p k) ∧ m.version = 1) ∨
    ((∀ k, op ≠ .provisionKey p k) ∧ ∃ c, s.metadata p = some c ∧ m.version = c.version + 1) := by
  -- what the record of a call on a PDU counts up from
  cases op with
  | provisionKey pduId keyId =>
    cases hp
    cases hm
    exact Or.inl ⟨⟨keyId, rfl⟩, rfl⟩
  | rotateKey pduId newKeyId =>
    cases hp
    obtain ⟨c, hc, rfl⟩ := Option.map_eq_some_iff.mp hm
    exact Or.inr ⟨fun k => nofun, c, hc, rfl⟩
  | simulateFailure fail => cases hp

theorem version_lt_iff {op : KeyOp} {c m : KeyMetadata} (hc : s.metadata p = some c)
    (hpos : 1 ≤ c.version) (hstores : s.Stores op) (hm : s.record op = some m)
    (hp : op.pduId = some p) : c.version < m.version ↔ FirstProvision p s op := by
  -- a record counts on from the current one unless the PDU is provisioned once more, which starts
  -- again at 1
  rcases record_version hm hp with ⟨⟨k, rfl⟩, hv⟩ | ⟨hop, c', hc', hv⟩
  · constructor
    · intro hlt
      omega
    · intro hfirst
      have hnone := hfirst hstores k rfl
      rw [hc] at hnone
      cases hnone
  · obtain rfl : c = c' := Option.some.inj (hc.symm.trans hc')
    constructor
    · intro _ _ k hk
      exact absurd hk (hop k)
    · intro _
      omega

theorem versionsIncrease_iff (hs : s.Readable) (hd : s.nvm.diskFault = false)
    (hpos : ∀ m, s.metadata p = some m → 1 ≤ m.version) (ops : List KeyOp) :
    VersionsIncrease ((s.metadata p).toList ++ recordsStored p s ops) ↔
      machine.Meets (FirstProvision p) s ops := by
  induction ops generalizing s with
  | nil => cases s.metadata p <;> simp [VersionsIncrease, recordsStored, Mealy.Meets]
  | cons op ops ih =>
    have hnext := ih (readable_step hs op) ((diskFault_step hs op).trans hd)
    rw [Mealy.Meets, recordsStored]
    rcases recordStored_cases (p := p) hs hd op with
      ⟨hrec, hmeta, hno⟩ | ⟨hstores, hp, m, hm, hrec, hmeta⟩
    · have hfirst : FirstProvision p s op := by
        rintro hstores k rfl
        exact absurd ⟨hstores, rfl⟩ hno
      rw [hmeta] at hnext
      rw [hrec, List.nil_append, hnext hpos]
      exact (and_iff_right hfirst).symm
    · have hone : 1 ≤ m.version := by
        rcases record_version hm hp with ⟨-, hv⟩ | ⟨-, c, hc, hv⟩
        · exact hv.ge
        · have hc1 := hpos c hc
          omega
      have hpos' : ∀ m', some m = some m' → 1 ≤ m'.version := by
        rintro m' ⟨⟩
        exact hone
      rw [hmeta] at hnext
      rw [hrec, ← hnext hpos']
      cases hc : s.metadata p with
      | none =>
        have hfirst : FirstProvision p s op := fun _ _ _ => hc
        exact (and_iff_right hfirst).symm
      | some c =>
        have hgrows := version_lt_iff hc (hpos c hc) hstores hm hp
        exact versionsIncrease_cons_cons.trans (and_congr_left fun _ => hgrows)

theorem getLast?_of_highest {records : List KeyMetadata} (h : VersionsIncrease records)
    {m : KeyMetadata} (hm : m ∈ records) (hmax : ∀ m' ∈ records, m'.version ≤ m.version) :
    records.getLast? = some m := by
  -- in a growing history the record with the highest version is the last one
  induction records with
  | nil => cases hm
  | cons c rest ih =>
    obtain ⟨hc, hrest⟩ := List.pairwise_cons.mp h
    cases rest with
    | nil => simp_all
    | cons d rest =>
      rcases List.mem_cons.mp hm with rfl | hm
      · have hlt := hc d (List.mem_cons_self ..)
        have hle := hmax d (List.mem_cons_of_mem _ (List.mem_cons_self ..))
        omega
      · rw [List.getLast?_cons_cons]
        exact ih hrest hm fun m' hm' => hmax m' (List.mem_cons_of_mem _ hm')

theorem raisesKeep (hs : s.Readable) (hd : s.nvm.diskFault = false) (op : KeyOp) :
    RaisesKeep s op := by
  intro e hraise p
  rcases step_cases hs op with ⟨-, fail, he⟩ | ⟨-, e', he⟩ | ⟨-, m, -, -, -, he⟩
  · rw [he] at hraise
    cases hraise
  · rw [he]
    exact ⟨rfl, rfl⟩
  · rw [he, hd] at hraise
    cases hraise

/-- The versions of a PDU's keys are traceable, and a call that raises keeps key id and version,
in exactly those runs where the PDU is not provisioned again once it has a key. -/
theorem traceable_iff (urandom : Nat → Bytes) (nvm : NvM) (hnvm : Unprovisioned nvm)
    (hflush : nvm.diskFault = false) (p : String) (ops : List KeyOp) :
    (Traceable p (new urandom nvm) ops ∧ machine.Meets RaisesKeep (new urandom nvm) ops) ↔
      machine.Meets (FirstProvision p) (new urandom nvm) ops := by
  have hs := readable_new hnvm urandom
  have hnone := metadata_new hnvm urandom p
  have hiff : ∀ ops, VersionsIncrease (recordsStored p (new urandom nvm) ops) ↔
      machine.Meets (FirstProvision p) (new urandom nvm) ops := by
    intro ops
    rw [← versionsIncrease_iff hs hflush, hnone]
    · rfl
    · rw [hnone]
      intro m hm
      cases hm
  constructor
  · rintro ⟨htrace, -⟩
    exact (hiff ops).mp htrace.increasing
  · intro hmeets
    have hincr := (hiff ops).mpr hmeets
    refine ⟨⟨hincr, ?_⟩, ?_⟩
    · rintro pre ⟨rest, rfl⟩ m hm hmax
      rw [recordsStored_append] at hincr
      have hlast : (machine.exec (new urandom nvm) pre).metadata p = some m := by
        rw [metadata_exec hs hflush, hnone]
        exact getLast?_of_highest (List.pairwise_append.mp hincr).1 hm hmax
      have hread : (machine.exec (new urandom nvm) pre).Readable :=
        Mealy.exec_preserves (I := Readable) (fun _ op hs => readable_step hs op) hs pre
      exact (resolve_eq_ok hread).mpr ⟨m, hlast, rfl⟩
    · apply Mealy.meets_of_invariant (I := fun s => s.Readable ∧ s.nvm.diskFault = false) _
        ⟨hs, hflush⟩
      rintro s op ⟨hs, hd⟩
      exact ⟨raisesKeep hs hd op, readable_step hs op, (diskFault_step hs op).trans hd⟩

theorem traceable_rotation :
    Traceable "PDU_BRAKE_TORQUE" (new (fun n => List.replicate 32 (UInt8.ofNat n)) (NvM.load none))
      [.provisionKey "PDU_BRAKE_TORQUE" "secoc_mac_key_PDU_BRAKE_TORQUE",
        .rotateKey "PDU_BRAKE_TORQUE" "secoc_mac_key_PDU_BRAKE_TORQUE_v2",
        .simulateFailure true, .rotateKey "PDU_BRAKE_TORQUE" "secoc_mac_key_v3"] := by
  -- a provisioning, a rotation and a rotation the HSM refuses
  apply ((traceable_iff _ _ (fun _ => rfl) rfl "PDU_BRAKE_TORQUE" _).mpr _).1
  refine ⟨?_, ?_, ?_, ?_, trivial⟩
  · exact fun _ _ _ => rfl
  all_goals
    intro _ k hk
    cases hk

theorem reprovision_not_traceable :
    Unprovisioned (NvM.load none) ∧ (NvM.load none).diskFault = false ∧
      ¬Traceable "PDU_BRAKE_TORQUE" (new (fun n => List.replicate 32 (UInt8.ofNat n)) (NvM.load none))
        [.provisionKey "PDU_BRAKE_TORQUE" "secoc_mac_key_PDU_BRAKE_TORQUE",
          .rotateKey "PDU_BRAKE_TORQUE" "secoc_mac_key_PDU_BRAKE_TORQUE_v2",
          .provisionKey "PDU_BRAKE_TORQUE" "secoc_mac_key_PDU_BRAKE_TORQUE"] := by
  -- provisioned again after a rotation, the PDU is back at version 1
  refine ⟨fun _ => rfl, rfl, ?_⟩
  rintro ⟨hincr, -⟩
  revert hincr
  unfold VersionsIncrease
  decide

end SecOC.KeyManager
