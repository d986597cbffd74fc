import SecOC.Sim.Base

/-! Per-PDU security profiles and their JSON configuration. A JSON entry is given by its known
fields, each absent or present, and by the names of the remaining ones. -/

namespace SecOC
open Py

inductive Transport
  | classicCan
  | canFd
  deriving DecidableEq, Repr

structure SecurityProfileEntry where
  algorithm : String
  keyId : String
  freshnessLength : Int
  authenticatorLength : Int
  profileVersion : String
  tfvLength : Option Int := none
  tmacLength : Option Int := none
  deriving DecidableEq, Repr

def SecurityProfileEntry.truncationLengths (e : SecurityProfileEntry) :
    Transport → Except PyError (Int × Int)
  | .classicCan => match e.tfvLength, e.tmacLength with
    | some tfv, some tmac => .ok (tfv, tmac)
    | _, _ => .error (.securityProfileConfigError
        "no tfv_length/tmac_length configured for CLASSIC_CAN transport")
  | .canFd => .ok (e.freshnessLength, e.authenticatorLength)

/-- A JSON object with integer length fields; the outer `Option` of the last two lengths is
presence, the inner one is `null`. -/
structure RawEntry where
  algorithm : Option String := none
  keyId : Option String := none
  freshnessLength : Option Int := none
  authenticatorLength : Option Int := none
  profileVersion : Option String := none
  tfvLength : Option (Option Int) := none
  tmacLength : Option (Option Int) := none
  others : List String := []
  deriving DecidableEq, Repr

def classicCanTruncBudgetBytes : Int := 4

def fieldSetText (names : List String) : String :=
  "\x7b" ++ ", ".intercalate (names.map fun n => "'" ++ n ++ "'") ++ "\x7d"

def mandatory {α : Type} (name : String) : Option α → Except PyError α
  | some a => .ok a
  | none => .error (.keyError name)

def loadEntry (pduId : String) (entry : RawEntry) : Except PyError SecurityProfileEntry := do
  if entry.others ≠ [] then
    throw (.securityProfileConfigError
      s!"profile '{pduId}' declares unsupported fields: {fieldSetText entry.others}")
  -- the one mandatory field that is read before the lengths are checked
  let algorithm ← mandatory "algorithm" entry.algorithm
  if algorithm ∉ Config.supportedAlgorithms then
    throw (.securityProfileConfigError
      s!"profile '{pduId}' uses unsupported algorithm: {algorithm}")
  -- an absent length and a null one are the same
  let tfvLength := entry.tfvLength.join
  let tmacLength := entry.tmacLength.join
  if tfvLength.isNone ≠ tmacLength.isNone then
    throw (.securityProfileConfigError
      (s!"profile '{pduId}': tfv_length and tmac_length must both be " ++
        "set or both omitted"))
  if let (some tfv, some tmac) := (tfvLength, tmacLength) then
    if tfv + tmac ≠ classicCanTruncBudgetBytes then
      throw (.securityProfileConfigError
        (s!"profile '{pduId}': tfv_length + tmac_length must equal " ++
          s!"{classicCanTruncBudgetBytes} bytes (got {tfv}+{tmac})"))
  let keyId ← mandatory "key_id" entry.keyId
  let freshnessLength ← mandatory "freshness_length" entry.freshnessLength
  let authenticatorLength ← mandatory "authenticator_length" entry.authenticatorLength
  let profileVersion ← mandatory "profile_version" entry.profileVersion
  return { algorithm, keyId, freshnessLength, authenticatorLength, profileVersion,
           tfvLength, tmacLength }

abbrev Profiles := Dict String SecurityProfileEntry

def loadEntries : List (String × RawEntry) → Profiles → Except PyError Profiles
  | [], profiles => .ok profiles
  | (pduId, entry) :: raw, profiles => do
    loadEntries raw (profiles.set pduId (← loadEntry pduId entry))

def reload (raw : Dict String RawEntry) : Except PyError Profiles :=
  loadEntries raw.items Dict.empty

def getProfile (profiles : Profiles) (pduId : String) : Except PyError SecurityProfileEntry :=
  match profiles.get? pduId with
  | some e => .ok e
  | none => .error (.secOCConfigError s!"no security profile for pdu_id '{pduId}'")

inductive FileContent
  | missing
  | malformed
  | json (raw : Dict String RawEntry)

/-- The configuration file; `writeFault` is the environment's choice whether writing it fails. -/
structure ConfigFile where
  content : FileContent
  writeFault : Bool

/-- The entry in memory is changed before the file is read, patched and rewritten. -/
def updateProfileVersion (profiles : Profiles) (file : ConfigFile) (pduId version : String) :
    Except PyError Unit × Profiles × ConfigFile :=
  match profiles.get? pduId with
  | none =>
    (.error (.secOCConfigError s!"no security profile for pdu_id '{pduId}'"), profiles, file)
  | some entry =>
    let profiles := profiles.set pduId { entry with profileVersion := version }
    match file.content with
    | .missing => (.error .osError, profiles, file)
    | .malformed => (.error (.valueError "malformed JSON"), profiles, file)
    -- the file may have been edited since it was loaded
    | .json raw => match raw.get? pduId with
      | none => (.error (.keyError pduId), profiles, file)
      | some r =>
        if file.writeFault then (.error .osError, profiles, file)
        else (.ok (), profiles,
          { file with content := .json (raw.set pduId { r with profileVersion := some version }) })

theorem updateProfileVersion_profiles (profiles : Profiles) (file : ConfigFile)
    (pduId version : String) :
    (updateProfileVersion profiles file pduId version).2.1 = profiles ∨
    ∃ entry, profiles.get? pduId = some entry ∧
      (updateProfileVersion profiles file pduId version).2.1 =
        profiles.set pduId { entry with profileVersion := version } := by
  unfold updateProfileVersion
  cases he : profiles.get? pduId with
  | none => exact Or.inl rfl
  | some entry =>
    refine Or.inr ⟨entry, rfl, ?_⟩
    simp only
    split
    · rfl
    · rfl
    · split
      · rfl
      · split_ifs <;> rfl

/-! The configuration the repository ships in `config/secoc_profiles.json`. -/

def shippedEntry (pduId : String) : RawEntry where
  algorithm := some "HMAC-SHA256"
  keyId := some ("secoc_mac_key_" ++ pduId)
  freshnessLength := some 2
  authenticatorLength := some 8
  profileVersion := some "v1"
  tfvLength := some (some 1)
  tmacLength := some (some 3)

def shippedConfig : Dict String RawEntry :=
  Dict.ofItems (["PDU_BRAKE_TORQUE", "PDU_0x100", "PDU_0x200"].map fun p => (p, shippedEntry p))

def shippedProfile (pduId : String) : SecurityProfileEntry where
  algorithm := "HMAC-SHA256"
  keyId := "secoc_mac_key_" ++ pduId
  freshnessLength := 2
  authenticatorLength := 8
  profileVersion := "v1"
  tfvLength := some 1
  tmacLength := some 3

theorem mandatory_eq_ok {α : Type} {name : String} {x : Option α} {a : α} :
    mandatory name x = .ok a ↔ x = some a := by
  cases x <;> simp [mandatory]

structure RawEntry.Loads (entry : RawEntry) (e : SecurityProfileEntry) : Prop where
  known : entry.others = []
  algorithm : entry.algorithm = some e.algorithm
  supported : e.algorithm ∈ Config.supportedAlgorithms
  tfvLength : entry.tfvLength.join = e.tfvLength
  tmacLength : entry.tmacLength.join = e.tmacLength
  paired : e.tfvLength.isNone = e.tmacLength.isNone
  budget : ∀ tfv tmac, e.tfvLength = some tfv → e.tmacLength = some tmac →
    tfv + tmac = classicCanTruncBudgetBytes
  keyId : entry.keyId = some e.keyId
  freshnessLength : entry.freshnessLength = some e.freshnessLength
  authenticatorLength : entry.authenticatorLength = some e.authenticatorLength
  profileVersion : entry.profileVersion = some e.profileVersion

theorem loadEntry_eq_ok {pduId : String} {entry : RawEntry} {e : SecurityProfileEntry}
    (h : loadEntry pduId entry = .ok e) : entry.Loads e := by
  unfold loadEntry at h
  dsimp only at h
  split at h
  · cases h
  next hknown =>
  obtain ⟨algorithm, halgorithm, h⟩ := bind_eq_ok.mp h
  split at h
  · cases h
  next hsupported =>
  split at h
  · cases h
  next hpaired =>
  -- The one check left is the budget, made where both lengths are there.
  have hrest : (∀ tfv tmac, entry.tfvLength.join = some tfv → entry.tmacLength.join = some tmac →
      tfv + tmac = classicCanTruncBudgetBytes) ∧ (do
        let keyId ← mandatory "key_id" entry.keyId
        let freshnessLength ← mandatory "freshness_length" entry.freshnessLength
        let authenticatorLength ← mandatory "authenticator_length" entry.authenticatorLength
        let profileVersion ← mandatory "profile_version" entry.profileVersion
        return { algorithm, keyId, freshnessLength, authenticatorLength, profileVersion,
                 tfvLength := entry.tfvLength.join, tmacLength := entry.tmacLength.join }) =
      (.ok e : Except PyError _) := by
    split at h
    · next tfv' tmac' heq =>
      obtain ⟨htfv, htmac⟩ := Prod.mk.inj heq
      split at h
      · cases h
      · next hsum =>
        refine ⟨fun tfv tmac h1 h2 => ?_, h⟩
        rw [htfv] at h1
        rw [htmac] at h2
        cases h1
        cases h2
        exact not_not.mp hsum
    · next hnone => exact ⟨fun tfv tmac h1 h2 => (hnone tfv tmac (by rw [h1, h2])).elim, h⟩
  obtain ⟨hbudget, h⟩ := hrest
  obtain ⟨keyId, hkeyId, h⟩ := bind_eq_ok.mp h
  obtain ⟨freshnessLength, hfreshness, h⟩ := bind_eq_ok.mp h
  obtain ⟨authenticatorLength, hauthenticator, h⟩ := bind_eq_ok.mp h
  obtain ⟨profileVersion, hversion, h⟩ := bind_eq_ok.mp h
  cases h
  exact {
    known := not_not.mp hknown
    algorithm := mandatory_eq_ok.mp halgorithm
    supported := not_not.mp hsupported
    tfvLength := rfl
    tmacLength := rfl
    paired := not_not.mp hpaired
    budget := hbudget
    keyId := mandatory_eq_ok.mp hkeyId
    freshnessLength := mandatory_eq_ok.mp hfreshness
    authenticatorLength := mandatory_eq_ok.mp hauthenticator
    profileVersion := mandatory_eq_ok.mp hversion }

theorem RawEntry.Loads.loadEntry {entry : RawEntry} {e : SecurityProfileEntry} (h : entry.Loads e)
    (pduId : String) : loadEntry pduId entry = .ok e := by
  unfold SecOC.loadEntry
  have hbudget := h.budget
  have hpaired := h.paired
  have hsupported := h.supported
  simp only [h.known, h.algorithm, h.keyId, h.freshnessLength, h.authenticatorLength,
    h.profileVersion, h.tfvLength, h.tmacLength, mandatory, bind, Except.bind, pure, Except.pure,
    ne_eq, not_true_eq_false, if_false, hsupported, hpaired]
  split
  · next tfv tmac hlengths =>
    obtain ⟨htfv, htmac⟩ := Prod.mk.inj hlengths
    rw [hbudget _ _ htfv htmac]
    rfl
  · rfl

theorem loadEntries_loads {raw : List (String × RawEntry)} {profiles profiles' : Profiles}
    (h : loadEntries raw profiles = .ok profiles')
    (hp : ∀ p e, profiles.get? p = some e → ∃ entry : RawEntry, entry.Loads e) :
    ∀ p e, profiles'.get? p = some e → ∃ entry : RawEntry, entry.Loads e := by
  induction raw generalizing profiles with
  | nil =>
    cases h
    exact hp
  | cons entry raw ih =>
    obtain ⟨pduId, entry⟩ := entry
    obtain ⟨e, he, hrest⟩ := bind_eq_ok.mp h
    refine ih hrest fun p e' hp' => ?_
    rw [Dict.get?_set] at hp'
    split_ifs at hp'
    · cases hp'
      exact ⟨entry, loadEntry_eq_ok he⟩
    · exact hp p e' hp'

theorem reload_loads {raw : Dict String RawEntry} {profiles : Profiles}
    (h : reload raw = .ok profiles) {p : String} {e : SecurityProfileEntry}
    (hp : profiles.get? p = some e) : ∃ entry : RawEntry, entry.Loads e :=
  loadEntries_loads h (fun _ _ he => by cases he) p e hp

theorem getProfile_eq_ok {profiles : Profiles} {pduId : String} {e : SecurityProfileEntry} :
    getProfile profiles pduId = .ok e ↔ profiles.get? pduId = some e := by
  unfold getProfile
  split <;> simp_all

end SecOC
