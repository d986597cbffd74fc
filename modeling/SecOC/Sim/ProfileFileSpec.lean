import SecOC.Sim.ProfileFile

/-! A profile file whose fields have the types the stack works with is the file the stack is
configured from: both are loaded and updated alike. -/

namespace SecOC
open Py
def JsonValue.ofLength : Option Int → JsonValue
  | some i => .int i
  | none => .null

namespace ProfileFile

def Entry.ofTyped (e : SecurityProfileEntry) : Entry where
  algorithm := .str e.algorithm
  keyId := .str e.keyId
  freshnessLength := .int e.freshnessLength
  authenticatorLength := .int e.authenticatorLength
  profileVersion := .str e.profileVersion
  tfvLength := .ofLength e.tfvLength
  tmacLength := .ofLength e.tmacLength

structure Represents (entry : JsonValue) (r : RawEntry) : Prop where
  object : entry.isDict = true
  others : entry.names.filter (· ∉ allowedFields) = r.others
  algorithm : entry.get? "algorithm" = r.algorithm.map .str
  keyId : entry.get? "key_id" = r.keyId.map .str
  freshnessLength : entry.get? "freshness_length" = r.freshnessLength.map .int
  authenticatorLength : entry.get? "authenticator_length" = r.authenticatorLength.map .int
  profileVersion : entry.get? "profile_version" = r.profileVersion.map .str
  tfvLength : entry.get? "tfv_length" = r.tfvLength.map .ofLength
  tmacLength : entry.get? "tmac_length" = r.tmacLength.map .ofLength

section Represents
variable {str : JsonValue → String} {entry : JsonValue} {r : RawEntry}

theorem field_of_map {α : Type} {name : String} {x : Option α} {f : α → JsonValue} {a : α}
    (h : entry.get? name = x.map f) (hx : x = some a) :
    entry.field name = f a ∧ name ∈ entry.names := by
  rw [hx, Option.map_some] at h
  refine ⟨?_, mem_names_iff.mpr ⟨_, h⟩⟩
  rw [JsonValue.field, h, Option.getD_some]

theorem field_ofLength {name : String} {x : Option (Option Int)}
    (h : entry.get? name = x.map .ofLength) : entry.field name = .ofLength x.join := by
  rw [JsonValue.field, h]
  rcases x with _ | _ | i <;> rfl

theorem exists_of_mem_names {α : Type} {name : String} {x : Option α} {f : α → JsonValue}
    (h : entry.get? name = x.map f) (hmem : name ∈ entry.names) : ∃ a, x = some a := by
  obtain ⟨v, hv⟩ := mem_names_iff.mp hmem
  cases x with
  | none => cases h.symm.trans hv
  | some a => exact ⟨a, rfl⟩

theorem isNull_ofLength (x : Option Int) : (JsonValue.ofLength x).isNull = x.isNone := by
  cases x <;> rfl

theorem Represents.accepted (h : Represents entry r) {e : SecurityProfileEntry} (he : r.Loads e) :
    Accepted entry ∧ Entry.ofJson entry = Entry.ofTyped e := by
  obtain ⟨halgorithm, hmem₁⟩ := field_of_map h.algorithm he.algorithm
  obtain ⟨hkeyId, hmem₂⟩ := field_of_map h.keyId he.keyId
  obtain ⟨hfreshness, hmem₃⟩ := field_of_map h.freshnessLength he.freshnessLength
  obtain ⟨hauthenticator, hmem₄⟩ := field_of_map h.authenticatorLength he.authenticatorLength
  obtain ⟨hversion, hmem₅⟩ := field_of_map h.profileVersion he.profileVersion
  have htfv := field_ofLength h.tfvLength
  have htmac := field_ofLength h.tmacLength
  rw [he.tfvLength] at htfv
  rw [he.tmacLength] at htmac
  refine ⟨⟨h.object, ?_, ?_, ?_, ?_⟩, ?_⟩
  · exact extra_eq_nil.mp (h.others.trans he.known)
  · simp only [mandatoryFields, List.forall_mem_cons]
    exact ⟨hmem₁, hmem₂, hmem₃, hmem₄, hmem₅, List.forall_mem_nil _⟩
  · rw [halgorithm]
    exact decide_eq_true he.supported
  · rw [htfv, htmac, isNull_ofLength, isNull_ofLength]
    have hpaired := he.paired
    have hbudget := he.budget
    rcases htfv : e.tfvLength with _ | tfv <;> rcases htmac : e.tmacLength with _ | tmac
    · exact Or.inl ⟨rfl, rfl⟩
    · rw [htfv, htmac] at hpaired
      cases hpaired
    · rw [htfv, htmac] at hpaired
      cases hpaired
    · exact Or.inr ⟨rfl, rfl, sumNe_int.mpr (hbudget tfv tmac htfv htmac)⟩
  · rw [Entry.ofJson, Entry.ofTyped, halgorithm, hkeyId, hfreshness, hauthenticator, hversion,
      htfv, htmac]

theorem Represents.exists_loads (h : Represents entry r) (ha : Accepted entry) :
    ∃ e, r.Loads e := by
  have hmandatory := ha.mandatory
  simp only [mandatoryFields, List.forall_mem_cons] at hmandatory
  obtain ⟨hmem₁, hmem₂, hmem₃, hmem₄, hmem₅, -⟩ := hmandatory
  obtain ⟨algorithm, halgorithm⟩ := exists_of_mem_names h.algorithm hmem₁
  obtain ⟨keyId, hkeyId⟩ := exists_of_mem_names h.keyId hmem₂
  obtain ⟨freshnessLength, hfreshness⟩ := exists_of_mem_names h.freshnessLength hmem₃
  obtain ⟨authenticatorLength, hauthenticator⟩ := exists_of_mem_names h.authenticatorLength hmem₄
  obtain ⟨profileVersion, hversion⟩ := exists_of_mem_names h.profileVersion hmem₅
  have hsupported := ha.supported
  rw [(field_of_map h.algorithm halgorithm).1] at hsupported
  have hlengths := ha.lengths
  rw [field_ofLength h.tfvLength, field_ofLength h.tmacLength, isNull_ofLength,
    isNull_ofLength] at hlengths
  refine ⟨⟨algorithm, keyId, freshnessLength, authenticatorLength, profileVersion,
    r.tfvLength.join, r.tmacLength.join⟩, ?_, halgorithm, of_decide_eq_true hsupported, rfl, rfl,
    ?_, ?_, hkeyId, hfreshness, hauthenticator, hversion⟩
  · rw [← h.others]
    exact extra_eq_nil.mpr ha.allowed
  · rcases hlengths with ⟨h1, h2⟩ | ⟨h1, h2, -⟩ <;> rw [h1, h2]
  · intro tfv tmac htfv htmac
    dsimp only at htfv htmac
    rw [htfv, htmac] at hlengths
    rcases hlengths with ⟨h1, -⟩ | ⟨-, -, hsum⟩
    · cases h1
    · exact sumNe_int.mp hsum

theorem Represents.loadEntry (h : Represents entry r) (str : JsonValue → String)
    (pduId : String) {e' : Entry} :
    loadEntry str pduId entry = .ok e' ↔
      ∃ e, SecOC.loadEntry pduId r = .ok e ∧ e' = Entry.ofTyped e := by
  rw [loadEntry_eq_ok_iff]
  constructor
  · rintro ⟨ha, rfl⟩
    obtain ⟨e, he⟩ := h.exists_loads ha
    exact ⟨e, he.loadEntry pduId, (h.accepted he).2⟩
  · rintro ⟨e, he, rfl⟩
    obtain ⟨ha, heq⟩ := h.accepted (loadEntry_eq_ok he)
    exact ⟨ha, heq.symm⟩

def RepresentsAll : List (String × JsonValue) → List (String × RawEntry) → Prop :=
  List.Forall₂ fun e r => e.1 = r.1 ∧ Represents e.2 r.2

theorem items_set_ofTyped {profiles : Dict String Entry} {typed : Profiles}
    (h : profiles.items = typed.items.map fun e => (e.1, Entry.ofTyped e.2)) (p : String)
    (e : SecurityProfileEntry) : (profiles.set p (Entry.ofTyped e)).items =
      (typed.set p e).items.map fun e => (e.1, Entry.ofTyped e.2) := by
  change Dict.setItem _ _ profiles.items = (Dict.setItem _ _ typed.items).map _
  rw [h, Dict.map_setItem]

theorem loadEntries_represents {raw : List (String × JsonValue)} {rs : List (String × RawEntry)}
    (h : RepresentsAll raw rs) {profiles profiles' : Dict String Entry} {typed : Profiles}
    (hp : profiles.items = typed.items.map fun e => (e.1, Entry.ofTyped e.2)) :
    loadEntries str raw profiles = .ok profiles' ↔
      ∃ typed', SecOC.loadEntries rs typed = .ok typed' ∧
        profiles'.items = typed'.items.map fun e => (e.1, Entry.ofTyped e.2) := by
  induction h generalizing profiles typed with
  | nil =>
    constructor
    · intro h
      cases h
      exact ⟨typed, rfl, hp⟩
    · rintro ⟨typed', h, hp'⟩
      cases h
      exact congrArg Except.ok (Dict.eq_of_items (hp.trans hp'.symm))
  | @cons e r raw rs he _ ih =>
    obtain ⟨p, entry⟩ := e
    obtain ⟨q, r⟩ := r
    obtain ⟨rfl, he⟩ := he
    rw [loadEntries, SecOC.loadEntries]
    simp only [bind_eq_ok, he.loadEntry]
    constructor
    · rintro ⟨_, ⟨e, hload, rfl⟩, hrest⟩
      obtain ⟨typed', hrest', hitems⟩ := (ih (items_set_ofTyped hp p e)).mp hrest
      exact ⟨typed', ⟨e, hload, hrest'⟩, hitems⟩
    · rintro ⟨typed', ⟨e, hload, hrest'⟩, hitems⟩
      exact ⟨_, ⟨e, hload, rfl⟩, (ih (items_set_ofTyped hp p e)).mpr ⟨typed', hrest', hitems⟩⟩

theorem loadContents_represents {raw : Dict String JsonValue} {rs : Dict String RawEntry}
    (h : RepresentsAll raw.items rs.items) {profiles : Dict String Entry} :
    loadContents str (.object raw) = .ok profiles ↔
      ∃ typed, SecOC.reload rs = .ok typed ∧
        profiles.items = typed.items.map fun e => (e.1, Entry.ofTyped e.2) :=
  loadEntries_represents h rfl

theorem Represents.setVersion {fields : List (String × JsonValue)}
    (h : Represents (.dict fields) r) (v : String) :
    Represents (.dict (Dict.setItem "profile_version" (.str v) fields))
      { r with profileVersion := some v } := by
  have hget : ∀ name, (JsonValue.dict (Dict.setItem "profile_version" (.str v) fields)).get? name =
      if name = "profile_version" then some (.str v) else (JsonValue.dict fields).get? name :=
    Dict.lookup_setItem _ _ _
  have hothers : (JsonValue.dict (Dict.setItem "profile_version" (.str v) fields)).names.filter
      (· ∉ allowedFields) = (JsonValue.dict fields).names.filter (· ∉ allowedFields) := by
    change ((Dict.setItem "profile_version" _ fields).map Prod.fst).filter _ =
      (fields.map Prod.fst).filter _
    by_cases hmem : "profile_version" ∈ fields.map Prod.fst
    · rw [Dict.map_fst_setItem hmem]
    · have hallowed : ["profile_version"].filter (· ∉ allowedFields) = [] := by decide
      rw [Dict.setItem_of_notMem hmem, List.map_append, List.filter_append]
      exact (congrArg _ hallowed).trans (List.append_nil _)
  exact {
    object := rfl
    others := hothers.trans h.others
    algorithm := (hget _).trans h.algorithm
    keyId := (hget _).trans h.keyId
    freshnessLength := (hget _).trans h.freshnessLength
    authenticatorLength := (hget _).trans h.authenticatorLength
    profileVersion := hget _
    tfvLength := (hget _).trans h.tfvLength
    tmacLength := (hget _).trans h.tmacLength }

theorem RepresentsAll.setItem {es : List (String × JsonValue)} {rs : List (String × RawEntry)}
    (h : RepresentsAll es rs) (k : String) (he : Represents entry r) :
    RepresentsAll (Dict.setItem k entry es) (Dict.setItem k r rs) := by
  induction h with
  | nil => exact List.Forall₂.cons ⟨rfl, he⟩ List.Forall₂.nil
  | @cons e q es rs hq hrest ih =>
    rw [Dict.setItem, Dict.setItem, ← hq.1]
    split
    · exact List.Forall₂.cons ⟨rfl, he⟩ hrest
    · exact List.Forall₂.cons hq ih

theorem RepresentsAll.lookup {es : List (String × JsonValue)} {rs : List (String × RawEntry)}
    (h : RepresentsAll es rs) (k : String) :
    (es.lookup k = none ∧ rs.lookup k = none) ∨
    ∃ fields r, es.lookup k = some (.dict fields) ∧ rs.lookup k = some r ∧
      Represents (.dict fields) r := by
  induction h with
  | nil => exact Or.inl ⟨rfl, rfl⟩
  | @cons e q es rs hq hrest ih =>
    obtain ⟨j, entry⟩ := e
    obtain ⟨j', r⟩ := q
    obtain ⟨rfl, hentry⟩ := hq
    rw [Dict.lookup_cons_eq, Dict.lookup_cons_eq]
    split
    · cases entry with
      | dict fields => exact Or.inr ⟨fields, r, rfl, rfl, hentry⟩
      | _ => cases hentry.object
    · exact ih

def RepresentsContents : Contents → FileContent → Prop
  | .broken e, .missing => e = .osError
  | .broken e, .malformed => e = .valueError "malformed JSON"
  | .object raw, .json rs => RepresentsAll raw.items rs.items
  | _, _ => False

structure RepresentsStore (m : ProfileFile) (typed : Profiles) (file : ConfigFile) : Prop where
  memory : m.profiles.items = typed.items.map fun e => (e.1, Entry.ofTyped e.2)
  config : RepresentsContents m.config file.content

theorem RepresentsStore.updateProfileVersion {m : ProfileFile} {typed : Profiles}
    {file : ConfigFile} (h : RepresentsStore m typed file) (pduId profileVersion : String)
    {fault : Option SaveFault} (hfault : fault.isSome = file.writeFault)
    (hdump : fault ≠ some .dumping) :
    (m.updateProfileVersion pduId profileVersion fault).1 =
        (SecOC.updateProfileVersion typed file pduId profileVersion).1.mapError .py ∧
      RepresentsStore (m.updateProfileVersion pduId profileVersion fault).2
        (SecOC.updateProfileVersion typed file pduId profileVersion).2.1
        (SecOC.updateProfileVersion typed file pduId profileVersion).2.2 := by
  obtain ⟨profiles, config, tmp⟩ := m
  obtain ⟨content, writeFault⟩ := file
  obtain ⟨hmemory, hconfig⟩ := h
  dsimp only at hmemory hconfig hfault
  unfold ProfileFile.updateProfileVersion SecOC.updateProfileVersion
  have hget : profiles.get? pduId = (typed.get? pduId).map Entry.ofTyped := by
    rw [Dict.get?, hmemory, Dict.lookup_map]
    rfl
  cases htyped : typed.get? pduId with
  | none =>
    rw [htyped, Option.map_none] at hget
    simp only [hget]
    exact ⟨rfl, hmemory, hconfig⟩
  | some e =>
    rw [htyped, Option.map_some] at hget
    simp only [hget]
    have hmemory' := items_set_ofTyped hmemory pduId { e with profileVersion := profileVersion }
    cases content with
    | missing =>
      cases config with
      | broken x =>
        cases hconfig
        exact ⟨rfl, hmemory', rfl⟩
      | _ => cases hconfig
    | malformed =>
      cases config with
      | broken x =>
        cases hconfig
        exact ⟨rfl, hmemory', rfl⟩
      | _ => cases hconfig
    | json rs =>
      cases config with
      | object raw =>
        rcases RepresentsAll.lookup hconfig pduId with ⟨hraw, hrs⟩ | ⟨fields, r, hraw, hrs, hr⟩
        · have hraw' : raw.get? pduId = none := hraw
          have hrs' : rs.get? pduId = none := hrs
          simp only [patched, ProfileFile.setVersion, hraw', hrs']
          exact ⟨rfl, hmemory', hconfig⟩
        · have hraw' : raw.get? pduId = some (.dict fields) := hraw
          have hrs' : rs.get? pduId = some r := hrs
          simp only [patched, ProfileFile.setVersion, hraw', hrs']
          rcases fault with _ | _ | tmp' | _
          · cases hfault
            exact ⟨rfl, hmemory',
              RepresentsAll.setItem hconfig pduId (hr.setVersion profileVersion)⟩
          · exact absurd rfl hdump
          · cases hfault
            exact ⟨rfl, hmemory', hconfig⟩
          · cases hfault
            exact ⟨rfl, hmemory', hconfig⟩
      | _ => cases hconfig

end Represents
end ProfileFile
end SecOC
