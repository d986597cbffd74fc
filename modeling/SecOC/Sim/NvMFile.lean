import SecOC.Lib.Runs
import SecOC.Sim.NvM

/-! The NvM together with its JSON file: values are encoded when they are flushed and decoded when
the file is opened, with bytes marked in band as a dictionary of one reserved key. -/

namespace SecOC
open Py

/-- A JSON text, as the tree `json.dumps` writes out and `json.loads` reads back. -/
inductive Json
  | null
  | bool (b : Bool)
  | int (i : Int)
  | str (s : String)
  | arr (xs : List Json)
  | obj (kvs : List (String × Json))

inductive NvMException
  | nvmError (text : String)
  | typeError
  | valueError
  | attributeError
  | osError
  deriving DecidableEq, Repr

namespace Json

/-- Numbers of more than 4300 digits are neither printed nor read. -/
def maxStrDigits : Nat := 4300

mutual
def withinDigitLimit : Json → Bool
  | .int i => i.natAbs < 10 ^ maxStrDigits
  | .arr xs => withinDigitLimitList xs
  | .obj kvs => withinDigitLimitItems kvs
  | _ => true

def withinDigitLimitList : List Json → Bool
  | [] => true
  | j :: js => j.withinDigitLimit && withinDigitLimitList js

def withinDigitLimitItems : List (String × Json) → Bool
  | [] => true
  | (_, j) :: kvs => j.withinDigitLimit && withinDigitLimitItems kvs
end

def dumps (j : Json) : Except NvMException Json :=
  if j.withinDigitLimit then .ok j else .error .valueError

def loads (j : Json) : Except NvMException Json :=
  if j.withinDigitLimit then .ok j else .error .valueError

theorem loads_of_dumps {j j' : Json} (h : dumps j = .ok j') : j' = j ∧ loads j' = .ok j := by
  unfold dumps at h
  split at h
  · next hlimit =>
    cases h
    exact ⟨rfl, if_pos hlimit⟩
  · cases h

end Json

namespace NvMFile

def bytesMarker : String := "__bytes_hex__"

mutual
def encode : Value → Json
  | .none => .null
  | .bool b => .bool b
  | .int i => .int i
  | .str s => .str s
  | .bytes b => .obj [(bytesMarker, .str (toHex b))]
  | .list xs => .arr (encodeList xs)
  | .dict kvs => .obj (encodeItems kvs)

def encodeList : List Value → List Json
  | [] => []
  | v :: vs => encode v :: encodeList vs

def encodeItems : List (String × Value) → List (String × Json)
  | [] => []
  | (k, v) :: kvs => (k, encode v) :: encodeItems kvs
end

def onlyMarker (keys : List String) : Bool := !keys.isEmpty && keys.all (· == bytesMarker)

def bytesFromHex : Json → Except NvMException Value
  | .str s => match fromHex s with
    | some b => .ok (.bytes b)
    | none => .error .valueError
  | _ => .error .typeError

mutual
def decode : Json → Except NvMException Value
  | .null => .ok .none
  | .bool b => .ok (.bool b)
  | .int i => .ok (.int i)
  | .str s => .ok (.str s)
  | .arr xs => do return .list (← decodeList xs)
  | .obj kvs =>
    if onlyMarker (kvs.map Prod.fst) then bytesFromHex ((kvs.lookup bytesMarker).getD .null)
    else do return .dict (← decodeItems kvs)

def decodeList : List Json → Except NvMException (List Value)
  | [] => .ok []
  | j :: js => do return (← decode j) :: (← decodeList js)

def decodeItems : List (String × Json) → Except NvMException (List (String × Value))
  | [] => .ok []
  | (k, j) :: kvs => do return (k, ← decode j) :: (← decodeItems kvs)
end

mutual
/-- No dictionary in the value has the marker as its only key. -/
def markerFree : Value → Bool
  | .list xs => markerFreeList xs
  | .dict kvs => !onlyMarker (kvs.map Prod.fst) && markerFreeItems kvs
  | _ => true

def markerFreeList : List Value → Bool
  | [] => true
  | v :: vs => markerFree v && markerFreeList vs

def markerFreeItems : List (String × Value) → Bool
  | [] => true
  | (_, v) :: kvs => markerFree v && markerFreeItems kvs
end

theorem map_fst_encodeItems (kvs : List (String × Value)) :
    (encodeItems kvs).map Prod.fst = kvs.map Prod.fst := by
  induction kvs with
  | nil => rfl
  | cons e kvs ih =>
    obtain ⟨k, v⟩ := e
    rw [encodeItems, List.map_cons, List.map_cons, ih]

theorem bytesFromHex_ne_dict (j : Json) (kvs : List (String × Value)) :
    bytesFromHex j ≠ .ok (.dict kvs) := by
  cases j with
  | str s =>
    unfold bytesFromHex
    simp only
    split <;> nofun
  | _ => nofun

mutual
theorem decode_encode_iff : ∀ v : Value, decode (encode v) = .ok v ↔ markerFree v = true
  | .none => by simp [encode, decode, markerFree]
  | .bool b => by simp [encode, decode, markerFree]
  | .int i => by simp [encode, decode, markerFree]
  | .str s => by simp [encode, decode, markerFree]
  | .bytes b => by
    have hmarker : onlyMarker [bytesMarker] = true := rfl
    simp [encode, decode, markerFree, hmarker, bytesFromHex, fromHex_toHex]
  | .list xs => by
    rw [encode, decode, markerFree, ← decodeList_encodeList_iff xs, bind_eq_ok]
    constructor
    · rintro ⟨xs', h, he⟩
      cases he
      exact h
    · exact fun h => ⟨xs, h, rfl⟩
  | .dict kvs => by
    rw [encode, decode, markerFree, map_fst_encodeItems]
    cases hmarker : onlyMarker (kvs.map Prod.fst) with
    | true =>
      rw [if_pos rfl]
      exact iff_of_false (bytesFromHex_ne_dict _ _) Bool.false_ne_true
    | false =>
      rw [if_neg Bool.false_ne_true, Bool.not_false, Bool.true_and,
        ← decodeItems_encodeItems_iff kvs, bind_eq_ok]
      constructor
      · rintro ⟨kvs', h, he⟩
        cases he
        exact h
      · exact fun h => ⟨kvs, h, rfl⟩

theorem decodeList_encodeList_iff : ∀ xs : List Value,
    decodeList (encodeList xs) = .ok xs ↔ markerFreeList xs = true
  | [] => by simp [encodeList, decodeList, markerFreeList]
  | v :: vs => by
    rw [encodeList, decodeList, markerFreeList, Bool.and_eq_true, ← decode_encode_iff v,
      ← decodeList_encodeList_iff vs, bind_eq_ok]
    constructor
    · rintro ⟨v', hv, h⟩
      obtain ⟨vs', hvs, he⟩ := bind_eq_ok.mp h
      cases he
      exact ⟨hv, hvs⟩
    · rintro ⟨hv, hvs⟩
      exact ⟨v, hv, bind_eq_ok.mpr ⟨vs, hvs, rfl⟩⟩

theorem decodeItems_encodeItems_iff : ∀ kvs : List (String × Value),
    decodeItems (encodeItems kvs) = .ok kvs ↔ markerFreeItems kvs = true
  | [] => by simp [encodeItems, decodeItems, markerFreeItems]
  | (k, v) :: kvs => by
    rw [encodeItems, decodeItems, markerFreeItems, Bool.and_eq_true, ← decode_encode_iff v,
      ← decodeItems_encodeItems_iff kvs, bind_eq_ok]
    constructor
    · rintro ⟨v', hv, h⟩
      obtain ⟨kvs', hkvs, he⟩ := bind_eq_ok.mp h
      cases he
      exact ⟨hv, hkvs⟩
    · rintro ⟨hv, hkvs⟩
      exact ⟨v, hv, bind_eq_ok.mpr ⟨kvs, hkvs, rfl⟩⟩
end

theorem map_fst_of_decodeItems {kvs : List (String × Json)} {kvs' : List (String × Value)}
    (h : decodeItems kvs = .ok kvs') : kvs'.map Prod.fst = kvs.map Prod.fst := by
  induction kvs generalizing kvs' with
  | nil =>
    cases h
    rfl
  | cons e kvs ih =>
    obtain ⟨k, j⟩ := e
    rw [decodeItems] at h
    obtain ⟨v, -, h⟩ := bind_eq_ok.mp h
    obtain ⟨rest, hrest, he⟩ := bind_eq_ok.mp h
    cases he
    rw [List.map_cons, List.map_cons, ih hrest]

/-- What the path of an NvM leads to: a file that cannot be read or is no JSON, or a JSON text. -/
inductive Contents
  | unreadable
  | text (j : Json)

end NvMFile

/-- An NvM with its file. The store is whatever the file decodes to, a dictionary or not. -/
structure NvMFile where
  store : Value
  file : Option NvMFile.Contents

inductive NvMCall
  | write (key : String) (value : Value)
  | incrementCounter (key : String)
  | resetToDefaults

namespace NvMFile

def load (file : Option Contents) : Except NvMException NvMFile :=
  match file with
  | none => .ok { store := .dict [], file }
  | some .unreadable => .ok { store := .dict [], file }
  | some (.text j) => do
    let raw ← Json.loads j
    return { store := ← decode raw, file }

def flush (m : NvMFile) (diskFault : Bool) : Except NvMException Unit × NvMFile :=
  match Json.dumps (encode m.store) with
  | .error e => (.error e, m)
  | .ok j => if diskFault then (.error .osError, m)
    else (.ok (), { m with file := some (.text j) })

def get : Value → String → Value → Except NvMException Value
  | .dict kvs, key, default => .ok ((kvs.lookup key).getD default)
  | _, _, _ => .error .attributeError

def setItem : Value → String → Value → Except NvMException Value
  | .dict kvs, key, value => .ok (.dict (Dict.setItem key value kvs))
  | _, _, _ => .error .typeError

def read (m : NvMFile) (key : String) (default : Value) : Except NvMException Value :=
  get m.store key default

def write (m : NvMFile) (key : String) (value : Value) (diskFault : Bool) :
    Except NvMException Unit × NvMFile :=
  match setItem m.store key value with
  | .error e => (.error e, m)
  | .ok store => flush { m with store } diskFault

def asInt : Value → Except NvMException Int
  | .int i => .ok i
  | .bool b => .ok (if b then 1 else 0)
  | _ => .error .typeError

def incrementCounter (m : NvMFile) (key : String) (diskFault : Bool) :
    Except NvMException Int × NvMFile :=
  match get m.store key (.int 0) >>= asInt with
  | .error e => (.error e, m)
  | .ok current =>
    if current ≥ 2 ^ 63 - 1 then (.error (.nvmError "counter_overflow"), m)
    else match write m key (.int (current + 1)) diskFault with
      | (.error e, m) => (.error e, m)
      | (.ok _, m) => (.ok (current + 1), m)

def resetToDefaults (m : NvMFile) (diskFault : Bool) : Except NvMException Unit × NvMFile :=
  flush { m with store := .dict [] } diskFault

theorem isOk_map {α β ε : Type} (f : α → β) (x : Except ε α) : (x.map f).isOk = x.isOk := by
  cases x <;> rfl

theorem incrementCounter_of {m : NvMFile} {key : String} {current : Int}
    (h : get m.store key (.int 0) >>= asInt = .ok current) (hlimit : ¬current ≥ 2 ^ 63 - 1)
    (diskFault : Bool) : m.incrementCounter key diskFault =
      ((m.write key (.int (current + 1)) diskFault).1.map fun _ => current + 1,
        (m.write key (.int (current + 1)) diskFault).2) := by
  simp only [incrementCounter, h, if_neg hlimit]
  rcases m.write key (.int (current + 1)) diskFault with ⟨_ | _, m'⟩ <;> rfl

/-- Calls on an NvM, each with the choice whether the disk fails in it. -/
def machine : Mealy NvMFile (NvMCall × Bool) (Except NvMException (Option Int)) where
  step m call := match call with
    | (.write key value, diskFault) =>
      let (result, m) := m.write key value diskFault
      (result.map fun _ => none, m)
    | (.incrementCounter key, diskFault) =>
      let (result, m) := m.incrementCounter key diskFault
      (result.map some, m)
    | (.resetToDefaults, diskFault) =>
      let (result, m) := m.resetToDefaults diskFault
      (result.map fun _ => none, m)

def new : NvMFile := { store := .dict [], file := none }

structure Represents (m : NvMFile) (n : NvM) : Prop where
  store : m.store = .dict n.store.items
  file : m.file = n.file.map fun d => .text (encode (.dict d.items))

namespace Represents
variable {m : NvMFile} {n : NvM}

theorem read (h : Represents m n) (key : String) (default : Value) :
    m.read key default = .ok (n.read key default) := by
  rw [NvMFile.read, h.store]
  rfl

theorem write (h : Represents m n) {key : String} {value : Value}
    (hlimit : (encode (.dict (n.store.set key value).items)).withinDigitLimit = true) :
    (m.write key value n.diskFault).1 = (if n.diskFault then .error .osError else .ok ()) ∧
      Represents (m.write key value n.diskFault).2 (n.write key value).2 := by
  have hdumps : Json.dumps (encode (.dict (n.store.set key value).items)) = .ok _ := if_pos hlimit
  have hset : setItem m.store key value = .ok (.dict (n.store.set key value).items) := by
    rw [h.store]
    rfl
  unfold NvMFile.write NvMFile.flush NvM.write NvM.flush
  simp only [hset, hdumps]
  cases n.diskFault with
  | true => exact ⟨rfl, rfl, h.file⟩
  | false => exact ⟨rfl, rfl, rfl⟩

/-- Where no dictionary looks like marked bytes, the file is read back as the stack assumes. -/
theorem load (h : Represents m n)
    (hfile : ∀ d, n.file = some d → (encode (.dict d.items)).withinDigitLimit = true ∧
      markerFree (.dict d.items) = true) :
    ∃ m', NvMFile.load m.file = .ok m' ∧ Represents m' (NvM.load n.file) := by
  rw [h.file]
  cases hn : n.file with
  | none => exact ⟨_, rfl, rfl, rfl⟩
  | some d =>
    obtain ⟨hlimit, hfree⟩ := hfile d hn
    refine ⟨{ store := .dict d.items, file := some (.text (encode (.dict d.items))) }, ?_, rfl, rfl⟩
    have hloads : Json.loads (encode (.dict d.items)) = .ok _ := if_pos hlimit
    have hdecode := (decode_encode_iff (.dict d.items)).mpr hfree
    simp only [Option.map_some, NvMFile.load, hloads, hdecode, bind, Except.bind, pure, Except.pure]

end Represents

end NvMFile
end SecOC
