import SecOC.Sim.NvMFile

/-! The NvM over whatever objects are written to it. Python's operators on them and the JSON text
of a store are parameters, and a flush can fail before, in and after writing the temporary file. -/

namespace SecOC
open Py

/-- What the NvM asks of the objects it stores; `dumps` is `json.dumps(_encode(store))`. -/
structure Objects (V Text : Type) where
  zero : V
  atLeast : V → Int → Except NvMException Bool
  plus : V → Int → Except NvMException V
  toInt : V → Except NvMException Int
  dumps : List (String × V) → Except NvMException Text

/-- Where the disk fails: in writing the temporary file, which is left with some text or none, or
in renaming it. -/
inductive DiskFault (Text : Type)
  | writing (tmp : Option Text)
  | renaming

structure NvMObjects (V Text : Type) where
  store : Dict String V
  file : Option Text
  tmp : Option Text

inductive NvMOp (V : Type)
  | read (key : String) (default : V)
  | getCounter (key : String)
  | write (key : String) (value : V)
  | incrementCounter (key : String)
  | resetToDefaults
  | flush

inductive NvMAnswer (V : Type)
  | done
  | value (v : V)
  | number (i : Int)

def Objects.successor {V Text : Type} (O : Objects V Text) (current : V) :
    Except NvMException V :=
  match O.atLeast current (2 ^ 63 - 1) with
  | .error e => .error e
  | .ok true => .error (.nvmError "counter_overflow")
  | .ok false => O.plus current 1

namespace NvMObjects
variable {V Text : Type} (O : Objects V Text) (m : NvMObjects V Text)
  (fault : Option (DiskFault Text))

def flush : Except NvMException Unit × NvMObjects V Text :=
  match O.dumps m.store.items with
  | .error e => (.error e, m)
  | .ok text => match fault with
    | some (.writing tmp) => (.error .osError, { m with tmp := tmp })
    | some .renaming => (.error .osError, { m with tmp := some text })
    | none => (.ok (), { m with file := some text, tmp := none })

def read (key : String) (default : V) : V := m.store.getD key default

def write (key : String) (value : V) : Except NvMException Unit × NvMObjects V Text :=
  flush O { m with store := m.store.set key value } fault

def incrementCounter (key : String) : Except NvMException V × NvMObjects V Text :=
  match O.successor (m.store.getD key O.zero) with
  | .error e => (.error e, m)
  | .ok newVal => match write O m fault key newVal with
    | (.error e, m) => (.error e, m)
    | (.ok _, m) => (.ok newVal, m)

def getCounter (key : String) : Except NvMException Int := O.toInt (m.store.getD key O.zero)

def resetToDefaults : Except NvMException Unit × NvMObjects V Text :=
  flush O { m with store := Dict.empty } fault

def machine : Mealy (NvMObjects V Text) (NvMOp V × Option (DiskFault Text))
    (Except NvMException (NvMAnswer V)) where
  step m call := match call with
    | (.read key default, _) => (.ok (.value (m.read key default)), m)
    | (.getCounter key, _) => ((m.getCounter O key).map .number, m)
    | (.write key value, fault) =>
      let (result, m) := m.write O fault key value
      (result.map fun _ => .done, m)
    | (.incrementCounter key, fault) =>
      let (result, m) := m.incrementCounter O fault key
      (result.map .value, m)
    | (.resetToDefaults, fault) =>
      let (result, m) := m.resetToDefaults O fault
      (result.map fun _ => .done, m)
    | (.flush, fault) =>
      let (result, m) := m.flush O fault
      (result.map fun _ => .done, m)

def new : NvMObjects V Text := { store := Dict.empty, file := none, tmp := none }

def Mirrors : Prop :=
  (m.file = none ∧ m.store = Dict.empty) ∨
    ∃ text, O.dumps m.store.items = .ok text ∧ m.file = some text

def flushed : NvMOp V → Option (Dict String V)
  | .read _ _ => none
  | .getCounter _ => none
  | .write key value => some (m.store.set key value)
  | .incrementCounter key =>
    (O.successor (m.store.getD key O.zero)).toOption.map (m.store.set key)
  | .resetToDefaults => some Dict.empty
  | .flush => some m.store

variable {O m}

theorem incrementCounter_of {key : String} {newVal : V}
    (h : O.successor (m.store.getD key O.zero) = .ok newVal) (fault : Option (DiskFault Text)) :
    m.incrementCounter O fault key =
      ((m.write O fault key newVal).1.map fun _ => newVal, (m.write O fault key newVal).2) := by
  simp only [incrementCounter, h]
  rcases m.write O fault key newVal with ⟨_ | _, m'⟩ <;> rfl

theorem flush_cases : (flush O m fault).2.store = m.store ∧
    (((flush O m fault).1.isOk = false ∧ (flush O m fault).2.file = m.file) ∨
      ((flush O m fault).1.isOk = true ∧ (flush O m fault).2.Mirrors O)) := by
  unfold flush
  cases hdumps : O.dumps m.store.items with
  | error e => exact ⟨rfl, Or.inl ⟨rfl, rfl⟩⟩
  | ok text =>
    rcases fault with _ | _ | _
    · exact ⟨rfl, Or.inr ⟨rfl, Or.inr ⟨text, hdumps, rfl⟩⟩⟩
    · exact ⟨rfl, Or.inl ⟨rfl, rfl⟩⟩
    · exact ⟨rfl, Or.inl ⟨rfl, rfl⟩⟩

/-- Every operation leaves the NvM as it is, or ends in the one flush it makes. -/
theorem step_cases (op : NvMOp V) :
    (m.flushed O op = none ∧ ((machine O).step m (op, fault)).2 = m) ∨
    ∃ d, m.flushed O op = some d ∧
      ((machine O).step m (op, fault)).1.isOk = (flush O { m with store := d } fault).1.isOk ∧
      ((machine O).step m (op, fault)).2 = (flush O { m with store := d } fault).2 := by
  cases op with
  | read key default => exact Or.inl ⟨rfl, rfl⟩
  | getCounter key => exact Or.inl ⟨rfl, rfl⟩
  | write key value => exact Or.inr ⟨_, rfl, NvMFile.isOk_map _ _, rfl⟩
  | incrementCounter key =>
    cases hnext : O.successor (m.store.getD key O.zero) with
    | error e =>
      left
      refine ⟨?_, ?_⟩
      · rw [flushed, hnext]
        rfl
      · simp only [machine, incrementCounter, hnext]
    | ok newVal =>
      right
      refine ⟨m.store.set key newVal, ?_, ?_, ?_⟩
      · rw [flushed, hnext]
        rfl
      · simp only [machine, incrementCounter_of hnext, NvMFile.isOk_map]
        rfl
      · simp only [machine, incrementCounter_of hnext]
        rfl
  | resetToDefaults => exact Or.inr ⟨_, rfl, NvMFile.isOk_map _ _, rfl⟩
  | flush => exact Or.inr ⟨_, rfl, NvMFile.isOk_map _ _, rfl⟩

/-! Over plain values this is the NvM of one JSON file. -/

/-- Plain values; what `int()` makes of a string is left open. -/
def plain (toInt : Value → Except NvMException Int) : Objects Value Json where
  zero := .int 0
  atLeast v n := (NvMFile.asInt v).map fun i => decide (n ≤ i)
  plus v n := (NvMFile.asInt v).map fun i => .int (i + n)
  toInt := toInt
  dumps kvs := Json.dumps (NvMFile.encode (.dict kvs))

def ofCall : NvMCall → NvMOp Value
  | .write key value => .write key value
  | .incrementCounter key => .incrementCounter key
  | .resetToDefaults => .resetToDefaults

def counted : NvMAnswer Value → Option Int
  | .value (.int i) => some i
  | _ => none

structure Holds (n : NvMFile) (m : NvMObjects Value Json) : Prop where
  store : n.store = .dict m.store.items
  file : n.file = m.file.map .text

section
variable (toInt : Value → Except NvMException Int) {n : NvMFile} {m : NvMObjects Value Json}

theorem successor_plain (v : Value) : (plain toInt).successor v =
    NvMFile.asInt v >>= fun i =>
      if i ≥ 2 ^ 63 - 1 then .error (.nvmError "counter_overflow") else .ok (.int (i + 1)) := by
  have hge : (plain toInt).atLeast v (2 ^ 63 - 1) =
      (NvMFile.asInt v).map fun i => decide (2 ^ 63 - 1 ≤ i) := rfl
  have hplus : (plain toInt).plus v 1 = (NvMFile.asInt v).map fun i => .int (i + 1) := rfl
  rw [Objects.successor, hge, hplus]
  cases NvMFile.asInt v with
  | error e => rfl
  | ok i =>
    by_cases hi : 2 ^ 63 - 1 ≤ i
    · simp only [Except.map, bind, Except.bind, decide_eq_true hi, if_pos (ge_iff_le.mpr hi)]
    · simp only [Except.map, bind, Except.bind, decide_eq_false hi, ge_iff_le, if_neg hi]

theorem Holds.flush (h : Holds n m) (fault : Option (DiskFault Json)) :
    (n.flush fault.isSome).1 = (m.flush (plain toInt) fault).1 ∧
    Holds (n.flush fault.isSome).2 (m.flush (plain toInt) fault).2 := by
  have hdumps : Json.dumps (NvMFile.encode n.store) = (plain toInt).dumps m.store.items := by
    rw [h.store]
    rfl
  unfold NvMFile.flush NvMObjects.flush
  rw [hdumps]
  cases htext : (plain toInt).dumps m.store.items with
  | error e => exact ⟨rfl, h⟩
  | ok text =>
    rcases fault with _ | _ | _
    · have htext' : text = NvMFile.encode n.store := (Json.loads_of_dumps (hdumps.trans htext)).1
      exact ⟨rfl, h.store, rfl⟩
    · exact ⟨rfl, h.store, h.file⟩
    · exact ⟨rfl, h.store, h.file⟩

theorem Holds.write (h : Holds n m) (fault : Option (DiskFault Json)) (key : String)
    (value : Value) :
    (n.write key value fault.isSome).1 = (m.write (plain toInt) fault key value).1 ∧
      Holds (n.write key value fault.isSome).2 (m.write (plain toInt) fault key value).2 := by
  have hset : NvMFile.setItem n.store key value = .ok (.dict (m.store.set key value).items) := by
    rw [h.store]
    rfl
  have hstored : Holds { n with store := .dict (m.store.set key value).items }
      { m with store := m.store.set key value } := ⟨rfl, h.file⟩
  simp only [NvMFile.write, hset]
  exact hstored.flush toInt fault

theorem Holds.incrementCounter (h : Holds n m) (fault : Option (DiskFault Json)) (key : String) :
    (n.incrementCounter key fault.isSome).1.map some =
        ((m.incrementCounter (plain toInt) fault key).1.map .value).map counted ∧
      Holds (n.incrementCounter key fault.isSome).2
        (m.incrementCounter (plain toInt) fault key).2 := by
  have hcurrent : NvMFile.get n.store key (.int 0) >>= NvMFile.asInt =
      NvMFile.asInt (m.store.getD key (plain toInt).zero) := by
    rw [h.store]
    rfl
  have hnext := successor_plain toInt (m.store.getD key (plain toInt).zero)
  cases hvalue : NvMFile.asInt (m.store.getD key (plain toInt).zero) with
  | error e =>
    rw [hvalue] at hcurrent hnext
    simp only [NvMFile.incrementCounter, NvMObjects.incrementCounter, hcurrent, hnext]
    exact ⟨rfl, h⟩
  | ok current =>
    rw [hvalue] at hcurrent hnext
    by_cases hlimit : current ≥ 2 ^ 63 - 1
    · have hoverflow := hnext.trans (if_pos hlimit)
      simp only [NvMFile.incrementCounter, NvMObjects.incrementCounter, hcurrent, hoverflow,
        if_pos hlimit]
      exact ⟨rfl, h⟩
    · have hsucc := hnext.trans (if_neg hlimit)
      obtain ⟨hr, hstate⟩ := h.write toInt fault key (.int (current + 1))
      rw [NvMFile.incrementCounter_of hcurrent hlimit, incrementCounter_of hsucc, hr]
      refine ⟨?_, hstate⟩
      cases (m.write (plain toInt) fault key (.int (current + 1))).1 <;> rfl

theorem Holds.step (h : Holds n m) (call : NvMCall) (fault : Option (DiskFault Json)) :
    (NvMFile.machine.step n (call, fault.isSome)).1 =
        ((machine (plain toInt)).step m (ofCall call, fault)).1.map counted ∧
      Holds (NvMFile.machine.step n (call, fault.isSome)).2
        ((machine (plain toInt)).step m (ofCall call, fault)).2 := by
  have hmap : ∀ x : Except NvMException Unit,
      x.map (fun _ => (none : Option Int)) = (x.map fun _ => NvMAnswer.done).map counted :=
    fun x => by cases x <;> rfl
  cases call with
  | write key value =>
    obtain ⟨hr, hstate⟩ := h.write toInt fault key value
    refine ⟨?_, hstate⟩
    rw [ofCall, machine, NvMFile.machine]
    simp only [hr, hmap]
  | incrementCounter key => exact h.incrementCounter toInt fault key
  | resetToDefaults =>
    have hempty : Holds { n with store := .dict [] } { m with store := Dict.empty } := ⟨rfl, h.file⟩
    obtain ⟨hr, hstate⟩ := hempty.flush toInt fault
    refine ⟨?_, hstate⟩
    rw [ofCall, machine, NvMFile.machine]
    simp only [NvMFile.resetToDefaults, NvMObjects.resetToDefaults, hr, hmap]

/-- Over plain values the two models of the NvM answer every run alike. -/
theorem Holds.run (h : Holds n m) (calls : List (NvMCall × Option (DiskFault Json))) :
    NvMFile.machine.outputs n (calls.map fun c => (c.1, c.2.isSome)) =
        ((machine (plain toInt)).outputs m (calls.map fun c => (ofCall c.1, c.2))).map
          (Except.map counted) ∧
      Holds (NvMFile.machine.exec n (calls.map fun c => (c.1, c.2.isSome)))
        ((machine (plain toInt)).exec m (calls.map fun c => (ofCall c.1, c.2))) := by
  induction calls generalizing n m with
  | nil => exact ⟨rfl, h⟩
  | cons call calls ih =>
    obtain ⟨hr, hstate⟩ := h.step toInt call.1 call.2
    obtain ⟨hrest, hend⟩ := ih hstate
    refine ⟨?_, hend⟩
    simp only [List.map_cons, Mealy.outputs, hr, hrest]

end

end NvMObjects
end SecOC
