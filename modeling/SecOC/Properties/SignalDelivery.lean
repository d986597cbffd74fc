import SecOC.Properties.Resync
import SecOC.Properties.Signals
import SecOC.Sim.SignalReceiver

/-! Signals from application to application. Every PDU that a packager hands out carries the values
of all its signals at one moment; over a link, whatever the network does, the receiving application
sees some of these moments, whole and in their order. -/

namespace SecOC
open Py

namespace SignalPackager
variable {table : Dict String SignalLayout} {s : SignalPackager} {a : Pending} {pduId : Int}

def Call.encodes (table : Dict String SignalLayout) (c : Call) : Bool :=
  (encode table (c.signalName, c.value)).isSome

def snapshot (table : Dict String SignalLayout) (pduId : Int) (calls : List Call) :
    List (String × ℚ) :=
  (table.items.filter fun e => e.2.pduId = pduId).map fun e =>
    (e.1, e.2.rawOf (lastValue table e.1 calls) * e.2.factor + e.2.offset)

def Call.Sends (table : Dict String SignalLayout) (pduId : Int) : Call → Prop
  | .send x _ => (table.get? x).map SignalLayout.pduId = some pduId
  | .pack _ _ => False

instance (table : Dict String SignalLayout) (pduId : Int) (c : Call) :
    Decidable (c.Sends table pduId) := by
  cases c
  · exact instDecidableFalse
  · exact inferInstanceAs (Decidable (_ = _))

def sentPdus (table : Dict String SignalLayout) (pduId : Int) :
    SignalPackager → List Call → List Bytes
  | _, [] => []
  | s, c :: calls =>
    let sent := match (s.step c).1 with
      | .ok out => if c.Sends table pduId then [out] else []
      | .error _ => []
    sent ++ sentPdus table pduId (s.step c).2 calls

/-- The moments at which they were handed out, in a run after calls that were done before. -/
def snapshots (table : Dict String SignalLayout) (pduId : Int) :
    (done calls : List Call) → List (List (String × ℚ))
  | _, [] => []
  | done, c :: calls =>
    if c.encodes table then
      (if c.Sends table pduId then [snapshot table pduId (done ++ [c.packed])] else []) ++
        snapshots table pduId (done ++ [c]) calls
    else snapshots table pduId done calls

theorem encodes_iff {c : Call} : c.encodes table ↔ ∃ l raw,
    table.get? c.signalName = some l ∧ rawValue l c.signalName c.value = .ok raw := by
  unfold Call.encodes encode
  cases hx : table.get? c.signalName with
  | none => simp
  | some l => cases hraw : rawValue l c.signalName c.value <;> simp [hraw, Except.toOption]

theorem step_of_not_encodes (hs : s.signalTable = table) {c : Call} (h : ¬c.encodes table) :
    ∃ e, s.step c = (.error e, s) := by
  -- a call that does not encode raises and changes nothing
  have hpack : ∀ x value, (∀ l raw, table.get? x = some l → rawValue l x value ≠ .ok raw) →
      ∃ e, s.packSignal x value = (.error e, s) := by
    intro x value hno
    unfold packSignal getLayout
    rw [hs]
    cases hx : table.get? x with
    | none => exact ⟨_, rfl⟩
    | some l =>
      cases hraw : rawValue l x value with
      | error e => exact ⟨e, by simp only [hraw]⟩
      | ok raw => exact absurd hraw (hno l raw hx)
  rw [encodes_iff] at h
  push Not at h
  obtain ⟨e, he⟩ := hpack c.signalName c.value h
  refine ⟨e, ?_⟩
  cases c with
  | pack x value => exact he
  | send x value =>
    have hsend : s.step (.send x value) = s.sendSignal x value := rfl
    have he : s.packSignal x value = (.error e, s) := he
    rw [hsend, sendSignal, he]

theorem step_of_encodes (hT : WellFormed table) (h : Tracks table s a) {c : Call}
    (hc : c.encodes table) : ∃ out, (s.step c).1 = .ok out := by
  obtain ⟨l, raw, hx, hraw⟩ := encodes_iff.mp hc
  obtain ⟨buf, hpack, htracks⟩ := h.packSignal hT hx hraw
  cases c with
  | pack x value => exact ⟨buf, congrArg Prod.fst hpack⟩
  | send x value =>
    refine ⟨buf, ?_⟩
    have hsend : s.step (.send x value) = s.sendSignal x value := rfl
    have hpack : s.packSignal x value = _ := hpack
    have hx : table.get? x = some l := hx
    rw [hsend, sendSignal, hpack]
    simp only [getLayout, h.signalTable, hx]

def Carries (table : Dict String SignalLayout) (pduId : Int) (pdu : Bytes)
    (values : List (String × ℚ)) : Prop :=
  ∃ s a done, Follows table done s a ∧ s.txBuffers.get? pduId = some pdu ∧
    values = snapshot table pduId done

theorem Carries.length {pdu : Bytes} {values : List (String × ℚ)}
    (h : Carries table pduId pdu values) :
    ∃ x l, table.get? x = some l ∧ l.pduId = pduId ∧ (pdu.length : Int) = l.pduLengthBytes := by
  obtain ⟨s, a, done, hfollows, hbuf, -⟩ := h
  exact hfollows.1.length hbuf

theorem Carries.unpack {ω ε : Type*} (hT : WellFormed table) {pdu : Bytes}
    {values : List (String × ℚ)} (h : Carries table pduId pdu values) {r : SignalReceiver ω ε}
    (hr : r.packager.signalTable = table) (world : ω) :
    r.unpackSignalFromPdu pduId pdu world = r.notify values world := by
  obtain ⟨s, a, done, hfollows, hbuf, rfl⟩ := h
  have hdecoded : ∀ e ∈ table.items, e.2.pduId = pduId → r.packager.unpackSignal pdu e.1 =
      .ok (e.2.rawOf (lastValue table e.1 done) * e.2.factor + e.2.offset) := by
    intro e he hpdu
    have hx : table.get? e.1 = some e.2 := Dict.get?_of_mem he
    have hunpack := hfollows.1.unpackSignal hT hx (hpdu ▸ hbuf)
    rw [unpackSignal_congr (hr.trans hfollows.1.signalTable.symm), hunpack, ← hfollows.2 hx,
      Int.cast_natCast]
  rw [SignalReceiver.unpackSignalFromPdu, hr]
  exact r.unpackSignals_eq hdecoded world

theorem sentPdus_carry (hT : WellFormed table) (pduId : Int) {done : List Call}
    (h : Follows table done s a) (calls : List Call) :
    List.Forall₂ (Carries table pduId) (sentPdus table pduId s calls)
      (snapshots table pduId done calls) := by
  induction calls generalizing s a done with
  | nil => exact .nil
  | cons c calls ih =>
    rw [sentPdus, snapshots]
    by_cases hc : c.encodes table
    · obtain ⟨out, hout⟩ := step_of_encodes hT h.1 hc
      obtain ⟨l, a₁, a₂, hl, hpacked, hnext, -⟩ := h.step hT hout
      rw [hout, if_pos hc]
      refine List.rel_append ?_ (ih hnext)
      dsimp only
      split_ifs with hsends
      · refine .cons ⟨_, a₁, _, hpacked, ?_, rfl⟩ .nil
        have hpdu : l.pduId = pduId := by
          cases c with
          | pack x value => exact hsends.elim
          | send x value =>
            have hsends : (table.get? x).map SignalLayout.pduId = some pduId := hsends
            have hl : table.get? x = some l := hl
            rw [hl] at hsends
            exact Option.some.inj hsends
        rw [hpdu]
        exact Dict.get?_set_self _ _ _
      · exact .nil
    · obtain ⟨e, he⟩ := step_of_not_encodes h.1.signalTable hc
      rw [he, if_neg hc]
      exact ih h

end SignalPackager

namespace SignalReceiver
variable {ω ε : Type*} {table : Dict String SignalLayout} {r : SignalReceiver ω ε} {pduId : Int}

/-- The values that the bits of a PDU stand for, signal by signal in the order of the table. -/
def decoded (table : Dict String SignalLayout) (pduId : Int) (pdu : Bytes) : List (String × ℚ) :=
  (table.items.filter fun e => e.2.pduId = pduId).map fun e =>
    (e.1, (field (bitAt pdu) e.2.start e.2.width : ℚ) * e.2.factor + e.2.offset)

/-- **All or nothing.** Of any bytes that come as a PDU the application is handed every signal or
none: the length decides, and it is the same for all signals of the PDU. The error names the first
of them. -/
theorem unpack_all_or_nothing (r : SignalReceiver ω ε)
    (hT : SignalPackager.WellFormed r.packager.signalTable) (pduId : Int) (pdu : Bytes)
    (world : ω) :
    ((∀ x l, r.packager.signalTable.get? x = some l → l.pduId = pduId →
        (pdu.length : Int) = l.pduLengthBytes) ∧
      r.unpackSignalFromPdu pduId pdu world =
        r.notify (decoded r.packager.signalTable pduId pdu) world) ∨
    ∃ x l, r.packager.signalTable.items.find? (fun e => e.2.pduId = pduId) = some (x, l) ∧
      (pdu.length : Int) ≠ l.pduLengthBytes ∧
      r.unpackSignalFromPdu pduId pdu world = (.error (.inl (.unknownSignalError
        (x ++ ": pdu_bytes length " ++ toString pdu.length ++ " != configured " ++
          toString l.pduLengthBytes))), world) := by
  have hlayout : ∀ e ∈ r.packager.signalTable.items, r.packager.getLayout e.1 = .ok e.2 := by
    intro e he
    rw [SignalPackager.getLayout, Dict.get?_of_mem he]
  by_cases hlen : ∀ x l, r.packager.signalTable.get? x = some l → l.pduId = pduId →
      (pdu.length : Int) = l.pduLengthBytes
  · refine Or.inl ⟨hlen, r.unpackSignals_eq (fun e he hpdu => ?_) world⟩
    have hx := Dict.get?_of_mem he
    have hfits := hlen e.1 e.2 hx hpdu
    have hstart : (e.2.start : Int) = e.2.offsetBits := Int.toNat_of_nonneg (hT.inside hx).1
    have hget := getBits_natCast 0 (hT.start_add_width_le hx hfits)
    rw [hstart, zero_mul, zero_add] at hget
    rw [SignalPackager.unpackSignal, hlayout e he]
    change (if (pdu.length : Int) ≠ e.2.pduLengthBytes then _ else _) = _
    rw [if_neg (not_not.mpr hfits), show e.2.widthBits.toNat = e.2.width from rfl, hget]
    rfl
  · push Not at hlen
    obtain ⟨x, l, hx, hl, hne⟩ := hlen
    obtain ⟨⟨y, l'⟩, hfirst⟩ : ∃ e, r.packager.signalTable.items.find?
        (fun e => e.2.pduId = pduId) = some e := by
      rw [← Option.isSome_iff_exists, List.find?_isSome]
      exact ⟨(x, l), Dict.mem_of_lookup hx, by simpa using hl⟩
    have hy : r.packager.signalTable.get? y = some l' :=
      Dict.get?_of_mem (List.mem_of_find?_eq_some hfirst)
    have hl' : l'.pduId = pduId := by simpa using List.find?_some hfirst
    have hne' : (pdu.length : Int) ≠ l'.pduLengthBytes := by
      rwa [hT.sameLength hy hx (hl'.trans hl.symm)]
    refine Or.inr ⟨y, l', hfirst, hne', r.unpackSignals_error hfirst ?_ world⟩
    rw [SignalPackager.unpackSignal, SignalPackager.getLayout, hy]
    exact if_pos hne'

def exampleReceiver : SignalReceiver (List (String × ℚ)) Empty where
  packager := SignalPackager.new "ECU_B" SignalPackager.exampleTable
  signalHandler := some fun signalName value log => (.ok (), log ++ [(signalName, value)])

example : decoded SignalPackager.exampleTable 256 [19, 84] = [("speed", 77), ("angle", 2)] := by
  decide +kernel

theorem unpack_all_or_nothing_example :
    exampleReceiver.unpackSignalFromPdu 256 [19, 84] [] = (.ok (), [("speed", 77), ("angle", 2)]) ∧
      exampleReceiver.unpackSignalFromPdu 256 [19] [] = (.error (.inl (.unknownSignalError
        "speed: pdu_bytes length 1 != configured 2")), []) := by
  have hT := SignalPackager.exampleTable_wellFormed
  constructor
  · rcases exampleReceiver.unpack_all_or_nothing hT 256 [19, 84] [] with
      ⟨-, hnotified⟩ | ⟨x, l, hfirst, hne, -⟩
    · rw [hnotified]
      decide +kernel
    · obtain ⟨rfl, rfl⟩ := Prod.mk.inj (Option.some.inj hfirst)
      exact absurd rfl hne
  · rcases exampleReceiver.unpack_all_or_nothing hT 256 [19] [] with
      ⟨hlength, -⟩ | ⟨x, l, hfirst, -, herror⟩
    · exact absurd (hlength "speed" _ rfl rfl) (by decide)
    · obtain ⟨rfl, rfl⟩ := Prod.mk.inj (Option.some.inj hfirst)
      rw [herror]
      decide +kernel

theorem unpacking_eq (hT : SignalPackager.WellFormed table) (hr : r.packager.signalTable = table)
    {pdus : List Bytes} {shots : List (List (String × ℚ))}
    (h : List.Forall₂ (SignalPackager.Carries table pduId) pdus shots) (world : ω) :
    (r.unpacking pduId).exec world pdus = r.notifying.exec world shots ∧
      (r.unpacking pduId).outputs world pdus = r.notifying.outputs world shots := by
  induction h generalizing world with
  | nil => exact ⟨rfl, rfl⟩
  | @cons pdu values pdus shots hpdu _ ih =>
    have hstep : (r.unpacking pduId).step world pdu = r.notifying.step world values :=
      hpdu.unpack hT hr world
    rw [Mealy.exec_cons, Mealy.exec_cons, Mealy.outputs, Mealy.outputs, hstep]
    obtain ⟨hexec, houtputs⟩ := ih (r.notifying.step world values).2
    exact ⟨hexec, by rw [houtputs]⟩

end SignalReceiver

namespace Link
open SignalPackager SignalReceiver Stack FreshnessManager
variable {D : Digests} {c : Channel} {l : Link}

def sendsOf (ops : List LinkOp) : List Bytes :=
  ops.filterMap fun op => match op with
    | .send payload => some payload
    | _ => none

theorem sentOf_sublist (l : Link) (ops : List LinkOp) :
    (sentOf c.transport ((machineOf D c).outputs l ops)).Sublist
      ((sendsOf ops).map (padded c.transport)) := by
  induction ops generalizing l with
  | nil => exact List.Sublist.refl _
  | cons op ops ih =>
    have hrest := ih ((machineOf D c).step l op).2
    rw [Mealy.outputs, sentOf, List.filterMap_cons]
    cases op with
    | send payload =>
      rcases send_cases D c l payload with ⟨T, he⟩ | ⟨e, sender, -, -, he⟩
      · have hstep : ((machineOf D c).step l (.send payload)).1 = .sent payload (.ok (T.frame D)) :=
          congrArg Prod.fst he
        rw [hstep]
        exact hrest.cons_cons _
      · have hstep : ((machineOf D c).step l (.send payload)).1 = .sent payload (.error e) :=
          congrArg Prod.fst he
        rw [hstep]
        exact hrest.cons _
    | deliver securedPdu => exact hrest
    | report =>
      have hquiet : LinkEvent.sent? c.transport ((machineOf D c).step l .report).1 = none := by
        change LinkEvent.sent? c.transport (l.report c.pduId).1 = none
        unfold report
        split <;> rfl
      rw [hquiet]
      exact hrest
    | resync i =>
      have hquiet : LinkEvent.sent? c.transport ((machineOf D c).step l (.resync i)).1 = none := by
        change LinkEvent.sent? c.transport (l.resync c.pduId i).1 = none
        rcases resync_cases c l i with ⟨v, -, he⟩ | he <;>
        · rw [he]
          rfl
      rw [hquiet]
      exact hrest

/-- The PDU fills its frame: on classic CAN its signals are laid out over four bytes. -/
def Fills (c : Channel) (table : Dict String SignalLayout) (pduId : Int) : Prop :=
  c.transport = .classicCan → ∀ x l, table.get? x = some l → l.pduId = pduId → l.pduLengthBytes = 4

theorem Fills.length {table : Dict String SignalLayout} {pduId : Int} (h : Fills c table pduId)
    {pdu : Bytes} {values : List (String × ℚ)} (hpdu : Carries table pduId pdu values)
    (ht : c.transport = .classicCan) : pdu.length = 4 := by
  obtain ⟨x, l, hx, hl, hlen⟩ := hpdu.length
  have hfour := h ht x l hx hl
  omega

theorem map_padded {table : Dict String SignalLayout} {pduId : Int} (hfills : Fills c table pduId)
    {pdus : List Bytes} {shots : List (List (String × ℚ))}
    (h : List.Forall₂ (Carries table pduId) pdus shots) : pdus.map (padded c.transport) = pdus := by
  induction h with
  | nil => rfl
  | @cons pdu values pdus shots hpdu _ ih =>
    have hsame : padded c.transport pdu = pdu := by
      cases ht : c.transport with
      | canFd => rfl
      | classicCan =>
        rw [padded, ljust, hfills.length hpdu ht]
        exact List.append_nil _
    rw [List.map_cons, hsame, ih]

theorem sublistForall₂_of {α β : Type*} {R : α → β → Prop} {xs xs' : List α} {ys : List β}
    (h : List.Forall₂ R xs ys) (hs : xs'.Sublist xs) : List.SublistForall₂ R xs' ys := by
  induction hs generalizing ys with
  | slnil => exact .nil
  | cons x _ ih =>
    cases h with
    | cons _ h => exact .cons_right (ih h)
  | cons_cons x _ ih =>
    cases h with
    | cons hx h => exact .cons hx (ih h)

theorem follows_new {table : Dict String SignalLayout} (hT : WellFormed table) (ecuId : String) :
    ∃ a, SignalPackager.Follows table [] (new ecuId table) a := by
  have hsucceed : Succeed ecuId table [] := fun o ho => by cases ho
  exact exists_follows hT ecuId hsucceed

section Applications
variable {ω ε : Type*} {table : Dict String SignalLayout} {pduId : Int} {r : SignalReceiver ω ε}

def exampleCalls : List SignalPackager.Call :=
  [.pack "speed" (.number 77), .pack "speed" .other, .send "angle" (.number 2)]

theorem fills_canFd (h : c.transport = .canFd) (table : Dict String SignalLayout) (pduId : Int) :
    Fills c table pduId := by
  intro ht
  rw [h] at ht
  cases ht

theorem exampleCalls_sent :
    sentPdus exampleTable 256 (new "ECU_A" exampleTable) exampleCalls = [[19, 84]] := by
  decide +kernel

example : exampleReceiver.notifying.exec [] (snapshots exampleTable 256 [] exampleCalls) =
    [("speed", 77), ("angle", 2)] := by
  decide +kernel

end Applications

end Link

end SecOC
