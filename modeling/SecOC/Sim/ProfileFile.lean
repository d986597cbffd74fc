import SecOC.Sim.SecurityProfile

/-! The profile configuration as any JSON file: what `reload` accepts of it, and what
`update_profile_version` writes back. -/

namespace SecOC
open Py

inductive JsonValue
  | null
  | bool (b : Bool)
  | int (i : Int)
  | float (x : Float)
  | str (s : String)
  | list (xs : List JsonValue)
  | dict (kvs : List (String × JsonValue))

/-- An exception of the stack, or one that only unexpected JSON raises. -/
inductive ProfileException
  | py (e : PyError)
  | attributeError
  | overflowError
  | recursionError

namespace JsonValue

def isDict : JsonValue → Bool
  | .dict _ => true
  | _ => false

def isNull : JsonValue → Bool
  | .null => true
  | _ => false

def names : JsonValue → List String
  | .dict fields => fields.map Prod.fst
  | _ => []

def get? (entry : JsonValue) (name : String) : Option JsonValue :=
  match entry with
  | .dict fields => fields.lookup name
  | _ => none

/-- `entry.get(name)`, where an absent field and a null one are the same. -/
def field (entry : JsonValue) (name : String) : JsonValue := (entry.get? name).getD .null

/-- Truth values count as numbers. -/
def asInt? : JsonValue → Option Int
  | .int i => some i
  | .bool b => some (if b then 1 else 0)
  | _ => none

/-- A whole number beside a float is converted first. -/
def toFloat (i : Int) : Except ProfileException Float :=
  let x := Float.ofInt i
  if x.isInf then .error .overflowError else .ok x

/-- `a + b != n`, with Python's `+` of numbers, strings and lists. -/
def sumNe (a b : JsonValue) (n : Int) : Except ProfileException Bool :=
  match a, b with
  | .float x, .float y => .ok (x + y != Float.ofInt n)
  | .float x, b => match b.asInt? with
    | some j => (toFloat j).map fun y => x + y != Float.ofInt n
    | none => .error (.py .typeError)
  | a, .float y => match a.asInt? with
    | some i => (toFloat i).map fun x => x + y != Float.ofInt n
    | none => .error (.py .typeError)
  | .str _, .str _ => .ok true
  | .list _, .list _ => .ok true
  | a, b => match a.asInt?, b.asInt? with
    | some i, some j => .ok (decide (i + j ≠ n))
    | _, _ => .error (.py .typeError)

/-- Membership in the tuple of supported algorithms, where only a string can equal a string. -/
def isSupportedAlgorithm : JsonValue → Bool
  | .str s => decide (s ∈ Config.supportedAlgorithms)
  | _ => false

end JsonValue

namespace ProfileFile

/-- A `SecurityProfileEntry` as the file has it: only the algorithm and the two lengths of the
classic bus were checked. -/
structure Entry where
  algorithm : JsonValue
  keyId : JsonValue
  freshnessLength : JsonValue
  authenticatorLength : JsonValue
  profileVersion : JsonValue
  tfvLength : JsonValue
  tmacLength : JsonValue

def allowedFields : List String :=
  ["algorithm", "key_id", "freshness_length", "authenticator_length", "profile_version",
    "tfv_length", "tmac_length"]

/-- A file that cannot be opened, decoded or parsed, or the JSON in it. The keys of an object
that was parsed are distinct. -/
inductive Contents
  | broken (e : PyError)
  | nonObject (v : JsonValue) (h : v.isDict = false)
  | object (raw : Dict String JsonValue)

def mandatory (entry : JsonValue) (name : String) : Except ProfileException JsonValue :=
  match entry.get? name with
  | some v => .ok v
  | none => .error (.py (.keyError name))

variable (str : JsonValue → String)

def checkFields (pduId : String) (names : List String) : Except ProfileException Unit :=
  let extraFields := names.filter (· ∉ allowedFields)
  if extraFields = [] then .ok ()
  else .error (.py (.securityProfileConfigError
    s!"profile '{pduId}' declares unsupported fields: {fieldSetText extraFields}"))

def checkAlgorithm (pduId : String) (algorithm : JsonValue) : Except ProfileException Unit :=
  if algorithm.isSupportedAlgorithm then .ok ()
  else .error (.py (.securityProfileConfigError
    s!"profile '{pduId}' uses unsupported algorithm: {str algorithm}"))

def checkLengths (pduId : String) (tfvLength tmacLength : JsonValue) :
    Except ProfileException Unit :=
  if tfvLength.isNull ≠ tmacLength.isNull then
    .error (.py (.securityProfileConfigError
      (s!"profile '{pduId}': tfv_length and tmac_length must both be " ++
        "set or both omitted")))
  else if tfvLength.isNull then .ok ()
  else match tfvLength.sumNe tmacLength classicCanTruncBudgetBytes with
    | .error e => .error e
    | .ok false => .ok ()
    | .ok true => .error (.py (.securityProfileConfigError
      (s!"profile '{pduId}': tfv_length + tmac_length must equal " ++
        s!"{classicCanTruncBudgetBytes} bytes (got {str tfvLength}+{str tmacLength})")))

def loadEntry (pduId : String) (entry : JsonValue) : Except ProfileException Entry :=
  if entry.isDict = false then .error .attributeError
  else do
    checkFields pduId entry.names
    let algorithm ← mandatory entry "algorithm"
    checkAlgorithm str pduId algorithm
    let tfvLength := entry.field "tfv_length"
    let tmacLength := entry.field "tmac_length"
    checkLengths str pduId tfvLength tmacLength
    -- the entry is made last, from four more fields that must be there
    let keyId ← mandatory entry "key_id"
    let freshnessLength ← mandatory entry "freshness_length"
    let authenticatorLength ← mandatory entry "authenticator_length"
    let profileVersion ← mandatory entry "profile_version"
    return { algorithm, keyId, freshnessLength, authenticatorLength, profileVersion,
             tfvLength, tmacLength }

def loadEntries : List (String × JsonValue) → Dict String Entry →
    Except ProfileException (Dict String Entry)
  | [], profiles => .ok profiles
  | (pduId, entry) :: raw, profiles => do
    loadEntries raw (profiles.set pduId (← loadEntry str pduId entry))

def loadContents : Contents → Except ProfileException (Dict String Entry)
  | .broken e => .error (.py e)
  | .nonObject _ _ => .error .attributeError
  | .object raw => loadEntries str raw.items Dict.empty

def mandatoryFields : List String :=
  ["algorithm", "key_id", "freshness_length", "authenticator_length", "profile_version"]

def Entry.ofJson (entry : JsonValue) : Entry where
  algorithm := entry.field "algorithm"
  keyId := entry.field "key_id"
  freshnessLength := entry.field "freshness_length"
  authenticatorLength := entry.field "authenticator_length"
  profileVersion := entry.field "profile_version"
  tfvLength := entry.field "tfv_length"
  tmacLength := entry.field "tmac_length"

/-- What `reload` asks of an entry. -/
structure Accepted (entry : JsonValue) : Prop where
  object : entry.isDict = true
  allowed : ∀ name ∈ entry.names, name ∈ allowedFields
  mandatory : ∀ name ∈ mandatoryFields, name ∈ entry.names
  supported : (entry.field "algorithm").isSupportedAlgorithm = true
  lengths : ((entry.field "tfv_length").isNull = true ∧ (entry.field "tmac_length").isNull = true) ∨
    ((entry.field "tfv_length").isNull = false ∧ (entry.field "tmac_length").isNull = false ∧
      (entry.field "tfv_length").sumNe (entry.field "tmac_length") classicCanTruncBudgetBytes =
        .ok false)

theorem extra_eq_nil {names : List String} :
    names.filter (· ∉ allowedFields) = [] ↔ ∀ name ∈ names, name ∈ allowedFields := by
  simp only [List.filter_eq_nil_iff, decide_eq_true_eq, not_not]

theorem sumNe_int {a b n : Int} :
    (JsonValue.int a).sumNe (.int b) n = .ok false ↔ a + b = n := by
  change Except.ok (decide (a + b ≠ n)) = _ ↔ _
  rw [Except.ok.injEq, decide_eq_false_iff_not, not_not]

section Accepted
variable {str} {pduId : String} {entry : JsonValue}

theorem mem_names_iff {name : String} : name ∈ entry.names ↔ ∃ v, entry.get? name = some v := by
  cases entry with
  | dict fields => exact Dict.mem_keys_iff
  | _ => simp [JsonValue.names, JsonValue.get?]

theorem mandatory_of_mem {name : String} (h : name ∈ entry.names) :
    mandatory entry name = .ok (entry.field name) := by
  obtain ⟨v, hv⟩ := mem_names_iff.mp h
  rw [mandatory, JsonValue.field, hv, Option.getD_some]

theorem mandatory_inv {name : String} {v : JsonValue} (h : mandatory entry name = .ok v) :
    name ∈ entry.names ∧ entry.field name = v := by
  unfold mandatory at h
  split at h
  · next w hw =>
    cases h
    refine ⟨mem_names_iff.mpr ⟨_, hw⟩, ?_⟩
    rw [JsonValue.field, hw, Option.getD_some]
  · cases h

theorem checkFields_eq_ok {names : List String} {u : Unit} :
    checkFields pduId names = .ok u ↔ ∀ name ∈ names, name ∈ allowedFields := by
  rw [← extra_eq_nil]
  simp only [checkFields]
  split_ifs with h
  · exact iff_of_true rfl h
  · exact iff_of_false nofun h

theorem checkAlgorithm_eq_ok {algorithm : JsonValue} {u : Unit} :
    checkAlgorithm str pduId algorithm = .ok u ↔ algorithm.isSupportedAlgorithm = true := by
  unfold checkAlgorithm
  split_ifs with h
  · exact iff_of_true rfl h
  · exact iff_of_false nofun h

theorem checkLengths_eq_ok {tfv tmac : JsonValue} {u : Unit} :
    checkLengths str pduId tfv tmac = .ok u ↔
      (tfv.isNull = true ∧ tmac.isNull = true) ∨
      (tfv.isNull = false ∧ tmac.isNull = false ∧
        tfv.sumNe tmac classicCanTruncBudgetBytes = .ok false) := by
  unfold checkLengths
  cases tfv.isNull <;> cases tmac.isNull <;> simp
  split <;> simp_all

theorem loadEntry_eq_ok_iff {e : Entry} :
    loadEntry str pduId entry = .ok e ↔ Accepted entry ∧ e = Entry.ofJson entry := by
  unfold loadEntry
  constructor
  · intro h
    split at h
    · cases h
    next hobject =>
    obtain ⟨_, hallowed, h⟩ := bind_eq_ok.mp h
    obtain ⟨algorithm, halgorithm, h⟩ := bind_eq_ok.mp h
    obtain ⟨_, hsupported, h⟩ := bind_eq_ok.mp h
    obtain ⟨_, hlengths, h⟩ := bind_eq_ok.mp h
    obtain ⟨keyId, hkeyId, h⟩ := bind_eq_ok.mp h
    obtain ⟨freshnessLength, hfreshness, h⟩ := bind_eq_ok.mp h
    obtain ⟨authenticatorLength, hauthenticator, h⟩ := bind_eq_ok.mp h
    obtain ⟨profileVersion, hversion, h⟩ := bind_eq_ok.mp h
    cases h
    obtain ⟨hmem₁, rfl⟩ := mandatory_inv halgorithm
    obtain ⟨hmem₂, rfl⟩ := mandatory_inv hkeyId
    obtain ⟨hmem₃, rfl⟩ := mandatory_inv hfreshness
    obtain ⟨hmem₄, rfl⟩ := mandatory_inv hauthenticator
    obtain ⟨hmem₅, rfl⟩ := mandatory_inv hversion
    refine ⟨⟨Bool.eq_true_of_not_eq_false hobject, checkFields_eq_ok.mp hallowed, ?_,
      checkAlgorithm_eq_ok.mp hsupported, checkLengths_eq_ok.mp hlengths⟩, rfl⟩
    simp only [mandatoryFields, List.forall_mem_cons]
    exact ⟨hmem₁, hmem₂, hmem₃, hmem₄, hmem₅, List.forall_mem_nil _⟩
  · rintro ⟨h, rfl⟩
    have hmandatory := h.mandatory
    simp only [mandatoryFields, List.forall_mem_cons] at hmandatory
    obtain ⟨hmem₁, hmem₂, hmem₃, hmem₄, hmem₅, -⟩ := hmandatory
    rw [if_neg (by simp [h.object])]
    refine bind_eq_ok.mpr ⟨(), checkFields_eq_ok.mpr h.allowed, ?_⟩
    refine bind_eq_ok.mpr ⟨_, mandatory_of_mem hmem₁, ?_⟩
    refine bind_eq_ok.mpr ⟨(), checkAlgorithm_eq_ok.mpr h.supported, ?_⟩
    refine bind_eq_ok.mpr ⟨(), checkLengths_eq_ok.mpr h.lengths, ?_⟩
    refine bind_eq_ok.mpr ⟨_, mandatory_of_mem hmem₂, ?_⟩
    refine bind_eq_ok.mpr ⟨_, mandatory_of_mem hmem₃, ?_⟩
    refine bind_eq_ok.mpr ⟨_, mandatory_of_mem hmem₄, ?_⟩
    exact bind_eq_ok.mpr ⟨_, mandatory_of_mem hmem₅, rfl⟩

theorem loadEntries_eq_ok_iff {raw : List (String × JsonValue)}
    {profiles profiles' : Dict String Entry}
    (hraw : (raw.map Prod.fst).Nodup)
    (hnew : ∀ p ∈ raw.map Prod.fst, p ∉ profiles.items.map Prod.fst) :
    loadEntries str raw profiles = .ok profiles' ↔
      (∀ e ∈ raw, Accepted e.2) ∧
      profiles'.items = profiles.items ++ raw.map fun e => (e.1, Entry.ofJson e.2) := by
  induction raw generalizing profiles with
  | nil =>
    rw [loadEntries, List.map_nil, List.append_nil]
    constructor
    · intro h
      cases h
      exact ⟨by simp, rfl⟩
    · rintro ⟨-, h⟩
      obtain ⟨items, hnodup⟩ := profiles
      obtain ⟨items', hnodup'⟩ := profiles'
      cases h
      rfl
  | cons e raw ih =>
    obtain ⟨p, entry⟩ := e
    obtain ⟨hp, hraw⟩ := List.nodup_cons.mp hraw
    have hset : (profiles.set p (Entry.ofJson entry)).items =
        profiles.items ++ [(p, Entry.ofJson entry)] :=
      Dict.setItem_of_notMem (hnew p List.mem_cons_self) _
    have hnew' : ∀ q ∈ raw.map Prod.fst,
        q ∉ (profiles.set p (Entry.ofJson entry)).items.map Prod.fst := by
      intro q hq
      rw [hset, List.map_append, List.mem_append, not_or]
      refine ⟨hnew q (List.mem_cons_of_mem _ hq), ?_⟩
      intro hqp
      cases List.mem_singleton.mp hqp
      exact hp hq
    have hrest := ih hraw hnew'
    rw [hset, List.append_assoc, List.singleton_append] at hrest
    rw [loadEntries, List.forall_mem_cons, List.map_cons, bind_eq_ok]
    constructor
    · rintro ⟨e, he, h⟩
      obtain ⟨haccepted, rfl⟩ := loadEntry_eq_ok_iff.mp he
      obtain ⟨hall, hitems⟩ := hrest.mp h
      exact ⟨⟨haccepted, hall⟩, hitems⟩
    · rintro ⟨⟨haccepted, hall⟩, hitems⟩
      exact ⟨_, loadEntry_eq_ok_iff.mpr ⟨haccepted, rfl⟩, hrest.mpr ⟨hall, hitems⟩⟩

theorem loadContents_object {raw : Dict String JsonValue} {profiles : Dict String Entry} :
    loadContents str (.object raw) = .ok profiles ↔
      (∀ e ∈ raw.items, Accepted e.2) ∧
      profiles.items = raw.items.map fun e => (e.1, Entry.ofJson e.2) := by
  rw [loadContents, loadEntries_eq_ok_iff raw.nodup (fun _ _ h => by cases h)]
  rfl

end Accepted

def shippedFields (pduId : String) : JsonValue :=
  .dict [("algorithm", .str "HMAC-SHA256"), ("key_id", .str ("secoc_mac_key_" ++ pduId)),
    ("freshness_length", .int 2), ("authenticator_length", .int 8),
    ("profile_version", .str "v1"), ("tfv_length", .int 1), ("tmac_length", .int 3)]

/-- Where saving fails: in dumping the JSON, in writing the temporary file, which is left with
something or nothing in it, or in renaming it. -/
inductive SaveFault
  | dumping
  | writing (tmp : Option Contents)
  | renaming

end ProfileFile

/-- A `SecurityProfile` with its file and the temporary file beside it. -/
structure ProfileFile where
  profiles : Dict String ProfileFile.Entry
  config : ProfileFile.Contents
  tmp : Option ProfileFile.Contents

namespace ProfileFile

def reload (str : JsonValue → String) (m : ProfileFile) :
    Except ProfileException Unit × ProfileFile :=
  match loadContents str m.config with
  | .error e => (.error e, m)
  | .ok profiles => (.ok (), { m with profiles })

def setVersion (raw : Dict String JsonValue) (pduId profileVersion : String) :
    Except ProfileException (Dict String JsonValue) :=
  match raw.get? pduId with
  | none => .error (.py (.keyError pduId))
  | some (.dict fields) =>
    .ok (raw.set pduId (.dict (Dict.setItem "profile_version" (.str profileVersion) fields)))
  | some _ => .error (.py .typeError)

def patched (config : Contents) (pduId profileVersion : String) :
    Except ProfileException (Dict String JsonValue) :=
  match config with
  | .broken e => .error (.py e)
  | .nonObject _ _ => .error (.py .typeError)
  | .object raw => setVersion raw pduId profileVersion

def save (m : ProfileFile) (raw : Dict String JsonValue) (fault : Option SaveFault) :
    Except ProfileException Unit × ProfileFile :=
  match fault with
  | some .dumping => (.error .recursionError, m)
  | some (.writing tmp) => (.error (.py .osError), { m with tmp := tmp })
  | some .renaming => (.error (.py .osError), { m with tmp := some (.object raw) })
  | none => (.ok (), { m with config := .object raw, tmp := none })

/-- The entry in memory is changed before the file is read. -/
def updateProfileVersion (m : ProfileFile) (pduId profileVersion : String)
    (fault : Option SaveFault) : Except ProfileException Unit × ProfileFile :=
  match m.profiles.get? pduId with
  | none => (.error (.py (.secOCConfigError s!"no security profile for pdu_id '{pduId}'")), m)
  | some entry =>
    let m := { m with
      profiles := m.profiles.set pduId { entry with profileVersion := .str profileVersion } }
    match patched m.config pduId profileVersion with
    | .error e => (.error e, m)
    | .ok raw => m.save raw fault

end ProfileFile
end SecOC
