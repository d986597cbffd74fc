import SecOC.Sim.Base

/-! The non-volatile memory: a key-value store held in memory and flushed to a file. -/

namespace SecOC
open Py

inductive Value
  | none
  | bool (b : Bool)
  | int (i : Int)
  | str (s : String)
  | bytes (b : Bytes)
  | list (xs : List Value)
  | dict (kvs : List (String × Value))

namespace Value

/-- A value used as a number: truth values count as 0 and 1, anything else is a type error. -/
def asInt : Value → Except PyError Int
  | .int i => .ok i
  | .bool b => .ok (if b then 1 else 0)
  | _ => .error .typeError

def asStr : Value → Except PyError String
  | .str s => .ok s
  | _ => .error .typeError

def field (name : String) : Value → Except PyError Value
  | .dict kvs => match kvs.lookup name with
    | some v => .ok v
    | .none => .error (.keyError name)
  | _ => .error .typeError

end Value

/-- `file` is the flushed contents, as reading the file back decodes them; `diskFault` is the
environment's choice whether the next flush fails. -/
structure NvM where
  store : Dict String Value
  file : Option (Dict String Value)
  diskFault : Bool

namespace NvM

def load (file : Option (Dict String Value)) : NvM :=
  { store := file.getD Dict.empty, file := file, diskFault := false }

def flush (m : NvM) : Except PyError Unit × NvM :=
  if m.diskFault then (.error .osError, m) else (.ok (), { m with file := some m.store })

def read (m : NvM) (key : String) (default : Value := .none) : Value := m.store.getD key default

/-- The memory is changed first; a failing flush leaves it changed. -/
def write (m : NvM) (key : String) (value : Value) : Except PyError Unit × NvM :=
  flush { m with store := m.store.set key value }

variable (m : NvM) (key : String) (value : Value)

@[simp] theorem flush_snd_store : m.flush.2.store = m.store := by
  unfold flush
  split <;> rfl

@[simp] theorem flush_snd_diskFault : m.flush.2.diskFault = m.diskFault := by
  unfold flush
  split <;> rfl

@[simp] theorem write_snd_store : (m.write key value).2.store = m.store.set key value :=
  flush_snd_store _

@[simp] theorem write_snd_diskFault : (m.write key value).2.diskFault = m.diskFault :=
  flush_snd_diskFault _

theorem write_fst : (m.write key value).1 = if m.diskFault then .error .osError else .ok () := by
  simp only [write, flush]
  split <;> rfl

theorem read_congr {m m' : NvM} {key : String} (h : m.store.get? key = m'.store.get? key)
    (d : Value) : m.read key d = m'.read key d := by
  rw [read, read, Dict.getD, Dict.getD, h]

theorem read_write_self (d : Value) : (m.write key value).2.read key d = value := by
  simp [read]

theorem read_write_ne {k : String} (d : Value) (h : k ≠ key) :
    (m.write key value).2.read k d = m.read k d := by
  simp only [read, write_snd_store, Dict.getD_set_ne _ _ _ h]

end NvM
end SecOC
