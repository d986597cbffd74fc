import SecOC.Sim.SignalPackager

/-! The receiving side of a signal packager: every signal of a verified PDU is decoded and handed to
the registered handler. -/

namespace SecOC
open Py

/-- An application callback; it works on a world of its own and may raise. -/
abbrev SignalHandler (ω ε : Type*) := String → ℚ → ω → Except ε Unit × ω

structure SignalReceiver (ω ε : Type*) where
  packager : SignalPackager
  signalHandler : Option (SignalHandler ω ε)

namespace SignalReceiver
variable {ω ε : Type*}

def registerSignalHandler (r : SignalReceiver ω ε) (handler : SignalHandler ω ε) :
    SignalReceiver ω ε :=
  { r with signalHandler := some handler }

/-- The loop of `unpack_signal_from_pdu`. A signal that cannot be decoded ends it, and so does a
handler that raises. -/
def unpackSignals (r : SignalReceiver ω ε) (pduId : Int) (authenticPdu : Bytes) :
    List (String × SignalLayout) → ω → Except (SignalError ⊕ ε) Unit × ω
  | [], world => (.ok (), world)
  | (signalName, layout) :: rest, world =>
    if layout.pduId = pduId then
      match r.packager.unpackSignal authenticPdu signalName with
      | .error e => (.error (.inl e), world)
      | .ok value => match r.signalHandler with
        | none => r.unpackSignals pduId authenticPdu rest world
        | some handler => match handler signalName value world with
          | (.error e, world) => (.error (.inr e), world)
          | (.ok _, world) => r.unpackSignals pduId authenticPdu rest world
    else r.unpackSignals pduId authenticPdu rest world

def unpackSignalFromPdu (r : SignalReceiver ω ε) (pduId : Int) (authenticPdu : Bytes)
    (world : ω) : Except (SignalError ⊕ ε) Unit × ω :=
  r.unpackSignals pduId authenticPdu r.packager.signalTable.items world

def notify (r : SignalReceiver ω ε) : List (String × ℚ) → ω → Except (SignalError ⊕ ε) Unit × ω
  | [], world => (.ok (), world)
  | (signalName, value) :: rest, world => match r.signalHandler with
    | none => r.notify rest world
    | some handler => match handler signalName value world with
      | (.error e, world) => (.error (.inr e), world)
      | (.ok _, world) => r.notify rest world

def unpacking (r : SignalReceiver ω ε) (pduId : Int) :
    Mealy ω Bytes (Except (SignalError ⊕ ε) Unit) :=
  ⟨fun world authenticPdu => r.unpackSignalFromPdu pduId authenticPdu world⟩

def notifying (r : SignalReceiver ω ε) :
    Mealy ω (List (String × ℚ)) (Except (SignalError ⊕ ε) Unit) :=
  ⟨fun world values => r.notify values world⟩

variable (r : SignalReceiver ω ε) {pduId : Int} {authenticPdu : Bytes}

theorem unpackSignals_eq {value : String × SignalLayout → ℚ}
    {items : List (String × SignalLayout)}
    (h : ∀ e ∈ items, e.2.pduId = pduId →
      r.packager.unpackSignal authenticPdu e.1 = .ok (value e)) (world : ω) :
    r.unpackSignals pduId authenticPdu items world =
      r.notify ((items.filter fun e => e.2.pduId = pduId).map fun e => (e.1, value e)) world := by
  induction items generalizing world with
  | nil => rfl
  | cons e items ih =>
    obtain ⟨hhead, htail⟩ := List.forall_mem_cons.mp h
    obtain ⟨signalName, layout⟩ := e
    rw [unpackSignals, List.filter_cons]
    by_cases hpdu : layout.pduId = pduId
    · rw [if_pos hpdu, if_pos (decide_eq_true hpdu), List.map_cons, notify, hhead hpdu]
      dsimp only
      split
      · exact ih htail world
      · split
        · rfl
        · exact ih htail _
    · rw [if_neg hpdu, if_neg (by simpa using hpdu)]
      exact ih htail world

theorem unpackSignals_error {items : List (String × SignalLayout)} {x : String × SignalLayout}
    {e : SignalError} (hfirst : items.find? (fun e => e.2.pduId = pduId) = some x)
    (h : r.packager.unpackSignal authenticPdu x.1 = .error e) (world : ω) :
    r.unpackSignals pduId authenticPdu items world = (.error (.inl e), world) := by
  induction items with
  | nil => cases hfirst
  | cons y items ih =>
    obtain ⟨signalName, layout⟩ := y
    rw [unpackSignals]
    by_cases hpdu : layout.pduId = pduId
    · rw [List.find?_cons_of_pos (by simpa using hpdu)] at hfirst
      cases hfirst
      rw [if_pos hpdu, h]
    · rw [List.find?_cons_of_neg (by simpa using hpdu)] at hfirst
      rw [if_neg hpdu]
      exact ih hfirst

end SignalReceiver
end SecOC
