import SecOC.Properties.ProfileReload

/-! The update of a profile's version. Memory is changed first, so a failure while the file is
read, patched or saved leaves the two apart. -/

namespace SecOC.ProfileFile
open Py

variable {str : JsonValue → String} {m m' : ProfileFile} {pduId profileVersion : String}
  {fault : Option SaveFault}

def InStep (str : JsonValue → String) (m : ProfileFile) : Prop :=
  loadContents str m.config = .ok m.profiles

structure VersionChanged (m m' : ProfileFile) (pduId profileVersion : String) : Prop where
  memory : ∃ entry, m.profiles.get? pduId = some entry ∧ m'.profiles =
    m.profiles.set pduId { entry with profileVersion := .str profileVersion }
  file : ∃ raw fields, m.config = .object raw ∧ raw.get? pduId = some (.dict fields) ∧
    m'.config = .object (raw.set pduId
      (.dict (Dict.setItem "profile_version" (.str profileVersion) fields)))

/-- A failed update has changed nothing, a successful one just the version, and one that started
in step with the file ends so. -/
def UpdatesCoherently (str : JsonValue → String) (m : ProfileFile)
    (pduId profileVersion : String) (fault : Option SaveFault) : Prop :=
  match m.updateProfileVersion pduId profileVersion fault with
  | (.error _, m') => m'.profiles = m.profiles ∧ m'.config = m.config
  | (.ok _, m') => VersionChanged m m' pduId profileVersion ∧
      (InStep str m → m'.reload str = (.ok (), m'))

def Patchable (config : Contents) (pduId : String) : Prop :=
  ∃ raw fields, config = .object raw ∧ raw.get? pduId = some (.dict fields)

/-- Memory is not changed at all, or all that follows its change goes well. -/
def UpdateSafe (m : ProfileFile) (pduId profileVersion : String) (fault : Option SaveFault) :
    Prop :=
  m.profiles.get? pduId = none ∨
  (∃ entry, m.profiles.get? pduId = some entry ∧ entry.profileVersion = .str profileVersion) ∨
  (Patchable m.config pduId ∧ fault = none)

theorem patched_eq_ok {config : Contents} {raw : Dict String JsonValue} :
    patched config pduId profileVersion = .ok raw ↔ ∃ raw₀ fields, config = .object raw₀ ∧
      raw₀.get? pduId = some (.dict fields) ∧
      raw = raw₀.set pduId (.dict (Dict.setItem "profile_version" (.str profileVersion) fields)) := by
  constructor
  · intro h
    cases config with
    | object raw₀ =>
      unfold patched setVersion at h
      dsimp only at h
      split at h
      · cases h
      · next fields hfields =>
        cases h
        exact ⟨raw₀, fields, rfl, hfields, rfl⟩
      · cases h
    | _ => cases h
  · rintro ⟨raw₀, fields, rfl, hfields, rfl⟩
    simp only [patched, setVersion, hfields]

theorem updateProfileVersion_cases (m : ProfileFile) (pduId profileVersion : String)
    (fault : Option SaveFault) :
    (m.profiles.get? pduId = none ∧ ∃ e, m.updateProfileVersion pduId profileVersion fault =
      (.error e, m)) ∨
    ∃ entry, m.profiles.get? pduId = some entry ∧
      ((¬(Patchable m.config pduId ∧ fault = none) ∧
        ∃ e tmp, m.updateProfileVersion pduId profileVersion fault = (.error e, { m with
          profiles := m.profiles.set pduId { entry with profileVersion := .str profileVersion }
          tmp := tmp })) ∨
      (Patchable m.config pduId ∧ fault = none) ∧
        ∃ m', m.updateProfileVersion pduId profileVersion fault = (.ok (), m') ∧
          VersionChanged m m' pduId profileVersion) := by
  unfold updateProfileVersion
  cases hentry : m.profiles.get? pduId with
  | none => exact Or.inl ⟨rfl, _, rfl⟩
  | some entry =>
    refine Or.inr ⟨entry, rfl, ?_⟩
    dsimp only
    cases hpatched : patched m.config pduId profileVersion with
    | error e =>
      refine Or.inl ⟨?_, e, m.tmp, rfl⟩
      rintro ⟨⟨raw, fields, hraw, hfields⟩, -⟩
      rw [patched_eq_ok.mpr ⟨raw, fields, hraw, hfields, rfl⟩] at hpatched
      cases hpatched
    | ok raw =>
      obtain ⟨raw₀, fields, hraw, hfields, rfl⟩ := patched_eq_ok.mp hpatched
      rcases fault with _ | _ | tmp | _
      · exact Or.inr ⟨⟨⟨raw₀, fields, hraw, hfields⟩, rfl⟩, _, rfl,
          ⟨entry, hentry, rfl⟩, raw₀, fields, hraw, hfields, rfl⟩
      · exact Or.inl ⟨nofun, _, m.tmp, rfl⟩
      · exact Or.inl ⟨nofun, _, tmp, rfl⟩
      · exact Or.inl ⟨nofun, _, _, rfl⟩

section InStep
variable {fields : List (String × JsonValue)} {v : JsonValue}

theorem field_setItem (k : String) (v : JsonValue) (fields : List (String × JsonValue))
    (name : String) : JsonValue.field (.dict (Dict.setItem k v fields)) name =
      if name = k then v else JsonValue.field (.dict fields) name := by
  rw [JsonValue.field, JsonValue.get?, Dict.lookup_setItem]
  split <;> rfl

theorem Accepted.setVersion (h : Accepted (.dict fields)) :
    Accepted (.dict (Dict.setItem "profile_version" v fields)) := by
  have hnames : JsonValue.names (.dict (Dict.setItem "profile_version" v fields)) =
      JsonValue.names (.dict fields) :=
    Dict.map_fst_setItem (h.mandatory _ (by decide)) v
  refine ⟨rfl, hnames ▸ h.allowed, hnames ▸ h.mandatory, ?_, ?_⟩
  · rw [field_setItem, if_neg (by decide)]
    exact h.supported
  · rw [field_setItem, field_setItem, if_neg (by decide), if_neg (by decide)]
    exact h.lengths

theorem ofJson_setVersion (v : JsonValue) (fields : List (String × JsonValue)) :
    Entry.ofJson (.dict (Dict.setItem "profile_version" v fields)) =
      { Entry.ofJson (.dict fields) with profileVersion := v } := by
  simp [Entry.ofJson, field_setItem]

theorem VersionChanged.inStep (h : VersionChanged m m' pduId profileVersion)
    (hstep : InStep str m) : InStep str m' := by
  obtain ⟨⟨entry, hentry, hmemory⟩, raw, fields, hraw, hfields, hfile⟩ := h
  rw [InStep, hraw] at hstep
  obtain ⟨haccepted, hitems⟩ := loadContents_object.mp hstep
  have hfields' : (pduId, JsonValue.dict fields) ∈ raw.items := Dict.mem_of_lookup hfields
  have hentry' : entry = Entry.ofJson (.dict fields) := by
    rw [Dict.get?, hitems, Dict.lookup_map] at hentry
    rw [Dict.get?] at hfields
    rw [hfields] at hentry
    exact (Option.some.inj hentry).symm
  rw [InStep, hfile, loadContents_object]
  constructor
  · intro e he
    rcases Dict.mem_setItem he with rfl | he
    · exact (haccepted _ hfields').setVersion
    · exact haccepted e he
  · rw [hmemory]
    change Dict.setItem _ _ m.profiles.items = (Dict.setItem _ _ raw.items).map _
    rw [Dict.map_setItem, ofJson_setVersion, hitems, hentry']

end InStep

theorem updatesCoherently_of_eq_error {e : ProfileException}
    (h : m.updateProfileVersion pduId profileVersion fault = (.error e, m')) :
    UpdatesCoherently str m pduId profileVersion fault ↔
      m'.profiles = m.profiles ∧ m'.config = m.config := by
  rw [UpdatesCoherently, h]

theorem VersionChanged.updatesCoherently (h : VersionChanged m m' pduId profileVersion)
    (heq : m.updateProfileVersion pduId profileVersion fault = (.ok (), m')) :
    UpdatesCoherently str m pduId profileVersion fault := by
  rw [UpdatesCoherently, heq]
  exact ⟨h, fun hstep => reload_of (h.inStep hstep)⟩

/-- **An update of a version is atomic and coherent just where it is safe.** -/
theorem updatesCoherently_iff (str : JsonValue → String) (m : ProfileFile)
    (pduId profileVersion : String) (fault : Option SaveFault) :
    UpdatesCoherently str m pduId profileVersion fault ↔
      UpdateSafe m pduId profileVersion fault := by
  rcases updateProfileVersion_cases m pduId profileVersion fault with
    ⟨hnone, e, heq⟩ | ⟨entry, hentry, ⟨hunmet, e, tmp, heq⟩ | ⟨hsafe, m', heq, hchanged⟩⟩
  · rw [updatesCoherently_of_eq_error heq]
    exact iff_of_true ⟨rfl, rfl⟩ (Or.inl hnone)
  · rw [updatesCoherently_of_eq_error heq, UpdateSafe, hentry]
    simp only [reduceCtorEq, false_or, Option.some.injEq, exists_eq_left', hunmet, or_false,
      and_true, Dict.set_eq_self_iff, hentry]
    constructor
    · intro h
      rw [h]
    · intro h
      rw [← h]
  · exact iff_of_true (hchanged.updatesCoherently heq) (Or.inr (Or.inr hsafe))

def fileGone : ProfileFile where
  profiles := Dict.ofItems [("PDU_0x100", Entry.ofJson (shippedFields "PDU_0x100"))]
  config := .broken .osError
  tmp := none

theorem update_without_file_not_coherent :
    ¬UpdatesCoherently (fun _ => "") fileGone "PDU_0x100" "v2" none := by
  -- where the file is gone the update fails, and memory has the new version
  intro h
  have heq : fileGone.updateProfileVersion "PDU_0x100" "v2" none =
      (.error (.py .osError), { fileGone with
        profiles := fileGone.profiles.set "PDU_0x100"
          { Entry.ofJson (shippedFields "PDU_0x100") with profileVersion := .str "v2" } }) := rfl
  have hsame := ((updatesCoherently_of_eq_error heq).mp h).1
  rw [Dict.set_eq_self_iff] at hsame
  have hversion : JsonValue.str "v1" = .str "v2" :=
    congrArg Entry.profileVersion (Option.some.inj hsame)
  exact absurd (JsonValue.str.inj hversion) (by decide)

end SecOC.ProfileFile
