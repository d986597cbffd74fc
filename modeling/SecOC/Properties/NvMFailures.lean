import SecOC.Sim.NvMObjects

/-! NvM operations that fail. Each stores first and flushes then, so a failed one leaves memory
ahead of the file, unless it raised before storing or stored what was there. -/

namespace SecOC.NvMObjects
open Py

variable {V Text : Type} {O : Objects V Text} {m : NvMObjects V Text}
  {fault : Option (DiskFault Text)}

/-- The operation raises before it stores, or what it stores is in the store already. -/
def Harmless (O : Objects V Text) (m : NvMObjects V Text) : NvMOp V → Prop
  | .write key value => m.store.get? key = some value
  | .incrementCounter key =>
    ∀ value, O.successor (m.store.getD key O.zero) = .ok value → m.store.get? key = some value
  | .resetToDefaults => m.store = Dict.empty
  | .read _ _ => True
  | .getCounter _ => True
  | .flush => True

theorem harmless_iff (op : NvMOp V) :
    Harmless O m op ↔ ∀ d, m.flushed O op = some d → d = m.store := by
  cases op with
  | read key default => simp only [Harmless, flushed, reduceCtorEq, false_implies, implies_true]
  | getCounter key => simp only [Harmless, flushed, reduceCtorEq, false_implies, implies_true]
  | write key value =>
    simp only [Harmless, flushed, Option.some.injEq, forall_eq', Dict.set_eq_self_iff]
  | incrementCounter key =>
    rw [Harmless, flushed]
    cases O.successor (m.store.getD key O.zero) with
    | error e =>
      simp only [Except.toOption, Option.map_none, reduceCtorEq, false_implies, implies_true]
    | ok value =>
      simp only [Except.ok.injEq, forall_eq', Except.toOption, Option.map_some, Option.some.injEq,
        Dict.set_eq_self_iff]
  | resetToDefaults =>
    rw [Harmless, flushed, eq_comm]
    simp only [Option.some.injEq, forall_eq']
  | flush => simp only [Harmless, flushed, Option.some.injEq, forall_eq']

/-- Memory and file are as they were, and no later operation can tell. -/
def Unchanged (O : Objects V Text) (m m' : NvMObjects V Text) : Prop :=
  m'.store = m.store ∧ m'.file = m.file ∧
    ∀ later, (machine O).outputs m' later = (machine O).outputs m later

def SameContents (m m' : NvMObjects V Text) : Prop := m'.store = m.store ∧ m'.file = m.file

theorem flush_same {m' : NvMObjects V Text} (h : SameContents m m')
    (fault : Option (DiskFault Text)) :
    (m.flush O fault).1 = (m'.flush O fault).1 ∧
      SameContents (m.flush O fault).2 (m'.flush O fault).2 := by
  obtain ⟨store, file, tmp⟩ := m
  obtain ⟨store', file', tmp'⟩ := m'
  obtain ⟨rfl, rfl⟩ : store' = store ∧ file' = file := h
  simp only [flush]
  cases O.dumps store'.items with
  | error e => exact ⟨rfl, rfl, rfl⟩
  | ok text => rcases fault with _ | _ | _ <;> exact ⟨rfl, rfl, rfl⟩

theorem step_same {m' : NvMObjects V Text} (h : SameContents m m')
    (call : NvMOp V × Option (DiskFault Text)) :
    ((machine O).step m call).1 = ((machine O).step m' call).1 ∧
      SameContents ((machine O).step m call).2 ((machine O).step m' call).2 := by
  obtain ⟨op, fault⟩ := call
  obtain ⟨hstore, hfile⟩ := h
  have hflush : ∀ d, (flush O { m with store := d } fault).1 =
        (flush O { m' with store := d } fault).1 ∧
      SameContents (flush O { m with store := d } fault).2
        (flush O { m' with store := d } fault).2 := by
    intro d
    have hd : SameContents { m with store := d } { m' with store := d } := ⟨rfl, hfile⟩
    exact flush_same hd fault
  cases op with
  | read key default =>
    simp only [machine, read, hstore, true_and]
    exact ⟨hstore, hfile⟩
  | getCounter key =>
    simp only [machine, getCounter, hstore, true_and]
    exact ⟨hstore, hfile⟩
  | write key value =>
    obtain ⟨hr, hsame⟩ := hflush (m.store.set key value)
    simp only [machine, write, hstore, hr, true_and]
    exact hsame
  | incrementCounter key =>
    cases hnext : O.successor (m.store.getD key O.zero) with
    | error e =>
      simp only [machine, incrementCounter, hstore, hnext, true_and]
      exact ⟨hstore, hfile⟩
    | ok newVal =>
      have hnext' : O.successor (m'.store.getD key O.zero) = .ok newVal := by rw [hstore, hnext]
      obtain ⟨hr, hsame⟩ := hflush (m.store.set key newVal)
      simp only [machine, incrementCounter_of hnext, incrementCounter_of hnext', write, hstore, hr,
        true_and]
      exact hsame
  | resetToDefaults =>
    obtain ⟨hr, hsame⟩ := hflush Dict.empty
    simp only [machine, resetToDefaults, hr, true_and]
    exact hsame
  | flush =>
    have h' : SameContents m m' := ⟨hstore, hfile⟩
    obtain ⟨hr, hsame⟩ := flush_same (O := O) h' fault
    simp only [machine, hr, true_and]
    exact hsame

theorem unchanged_iff {m' : NvMObjects V Text} : Unchanged O m m' ↔ SameContents m m' := by
  constructor
  · rintro ⟨hstore, hfile, -⟩
    exact ⟨hstore, hfile⟩
  · intro h
    exact ⟨h.1, h.2, fun later => ((machine O).outputs_congr (fun call h' => step_same h' call) h
      later).symm⟩

theorem failed_step {op : NvMOp V} (h : ((machine O).step m (op, fault)).1.isOk = false) :
    ((machine O).step m (op, fault)).2.store = (m.flushed O op).getD m.store ∧
      ((machine O).step m (op, fault)).2.file = m.file := by
  rcases step_cases fault op with ⟨hnone, hsame⟩ | ⟨d, hd, hok, hnext⟩
  · rw [hnone, hsame]
    exact ⟨rfl, rfl⟩
  · rw [hok] at h
    rw [hd, hnext]
    obtain ⟨hstore, ⟨-, hfile⟩ | ⟨hsucceeds, -⟩⟩ :=
      flush_cases (O := O) (m := { m with store := d }) fault
    · exact ⟨hstore, hfile⟩
    · rw [h] at hsucceeds
      cases hsucceeds

theorem failed_unchanged_iff {op : NvMOp V}
    (h : ((machine O).step m (op, fault)).1.isOk = false) :
    Unchanged O m ((machine O).step m (op, fault)).2 ↔ Harmless O m op := by
  obtain ⟨hstore, hfile⟩ := failed_step h
  rw [unchanged_iff, SameContents, hstore, harmless_iff, and_iff_left hfile]
  cases m.flushed O op with
  | none => exact iff_of_true rfl nofun
  | some d => simp only [Option.getD_some, Option.some.injEq, forall_eq']

def FailsHarmlessly (O : Objects V Text) (m : NvMObjects V Text)
    (call : NvMOp V × Option (DiskFault Text)) : Prop :=
  ((machine O).step m call).1.isOk = false → Harmless O m call.1

theorem mirrors_step (hm : m.Mirrors O) {call : NvMOp V × Option (DiskFault Text)}
    (h : FailsHarmlessly O m call) : ((machine O).step m call).2.Mirrors O := by
  obtain ⟨op, fault⟩ := call
  cases hok : ((machine O).step m (op, fault)).1.isOk with
  | false =>
    obtain ⟨hstore, hfile, -⟩ := (failed_unchanged_iff hok).mpr (h hok)
    unfold Mirrors
    rwa [hstore, hfile]
  | true =>
    rcases step_cases fault op with ⟨-, hsame⟩ | ⟨d, -, hd, hnext⟩
    · rwa [hsame]
    · rw [hnext]
      obtain ⟨-, ⟨hfails, -⟩ | ⟨-, hmirrors⟩⟩ :=
        flush_cases (O := O) (m := { m with store := d }) fault
      · rw [← hd, hok] at hfails
        cases hfails
      · exact hmirrors

theorem mirrors_run (hm : m.Mirrors O) {calls : List (NvMOp V × Option (DiskFault Text))}
    (h : (machine O).Meets (FailsHarmlessly O) m calls) (k : Nat) :
    ((machine O).exec m (calls.take k)).Mirrors O := by
  induction calls generalizing m k with
  | nil => simpa using hm
  | cons call calls ih =>
    cases k with
    | zero => exact hm
    | succ k =>
      rw [List.take_succ_cons, Mealy.exec_cons]
      exact ih (mirrors_step hm h.1) h.2 k

/-- **A failed operation changes nothing** exactly if it is harmless, and in a run in which every
failed operation is, memory and file agree at every point. -/
theorem failed_operation_iff (O : Objects V Text) (m : NvMObjects V Text) :
    (∀ op fault, ((machine O).step m (op, fault)).1.isOk = false →
      (Unchanged O m ((machine O).step m (op, fault)).2 ↔ Harmless O m op)) ∧
    (m.Mirrors O → ∀ calls, (machine O).Meets (FailsHarmlessly O) m calls →
      ∀ k, ((machine O).exec m (calls.take k)).Mirrors O) :=
  ⟨fun _ _ h => failed_unchanged_iff h, fun hm _ h k => mirrors_run hm h k⟩

def itemsText : List (String × Option Int) → Except NvMException (List (String × Int))
  | [] => .ok []
  | (_, none) :: _ => .error .typeError
  | (key, some i) :: kvs => do return (key, i) :: (← itemsText kvs)

def number : Option Int → Except NvMException Int
  | some i => .ok i
  | none => .error .typeError

/-- Numbers, and one object that is no number and has no JSON text, as a set is. -/
def numbersOrSet : Objects (Option Int) (List (String × Int)) where
  zero := some 0
  atLeast v n := (number v).map fun i => decide (n ≤ i)
  plus v n := (number v).map fun i => some (i + n)
  toInt := number
  dumps := itemsText

theorem failed_operation_harmless :
    ((machine numbersOrSet).exec new
      [(.write "mode" (some 5), none), (.write "boot" (some (2 ^ 63 - 1)), none),
        (.write "mode" (some 5), some .renaming),
        (.incrementCounter "boot", none)]).Mirrors numbersOrSet := by
  -- the rename fails where the value is stored already, and a counter overflows
  refine (failed_operation_iff numbersOrSet new).2 (Or.inl ⟨rfl, rfl⟩)
    [(.write "mode" (some 5), none), (.write "boot" (some (2 ^ 63 - 1)), none),
      (.write "mode" (some 5), some .renaming), (.incrementCounter "boot", none)] ?_ 4
  refine ⟨fun h => ?_, fun h => ?_, fun _ => rfl, fun _ => ?_, trivial⟩
  · cases h
  · cases h
  · exact nofun

theorem failed_write_stays :
    (new : NvMObjects (Option Int) (List (String × Int))).Mirrors numbersOrSet ∧
      (∃ m', (machine numbersOrSet).step new (.write "blob" none, none) = (.error .typeError, m') ∧
        ¬Unchanged numbersOrSet new m' ∧ ¬m'.Mirrors numbersOrSet ∧
        ((machine numbersOrSet).step m' (.incrementCounter "boot", none)).1 = .error .typeError ∧
        ((machine numbersOrSet).step new (.incrementCounter "boot", none)).1 =
          .ok (.value (some 1))) ∧
      ∃ m', (machine numbersOrSet).step new (.write "mode" (some 5), some .renaming) =
          (.error .osError, m') ∧
        ¬Unchanged numbersOrSet new m' := by
  -- a set is written: the call raises, the set stays in memory, and from then on no counter can be
  -- incremented. And a number is written while the rename fails
  have hset : ∀ {key value} {m' : NvMObjects (Option Int) (List (String × Int))},
      m'.store = Dict.empty.set key value → ¬Unchanged numbersOrSet new m' := by
    intro key value m' hstore h
    have hempty : Dict.empty.set key value = (Dict.empty : Dict String (Option Int)) :=
      hstore.symm.trans h.1
    cases Dict.set_eq_self_iff.mp hempty
  refine ⟨Or.inl ⟨rfl, rfl⟩, ⟨_, rfl, hset rfl, ?_, rfl, rfl⟩, ⟨_, rfl, hset rfl⟩⟩
  rintro (⟨-, hempty⟩ | ⟨text, htext, -⟩)
  · cases Dict.set_eq_self_iff.mp hempty
  · cases htext

end SecOC.NvMObjects
