import SecOC.Lib.BitField
import SecOC.Lib.Dict
import SecOC.Lib.JsNumber
import SecOC.Lib.Runs

/-! The packing of application signals into the bits of a PDU, `sim/signal_packager.py`. Physical
values are exact rationals. -/

namespace SecOC
open Py

inductive SignalError
  | unknownSignalError (text : String)
  | signalValueOutOfRangeError (signalName : String) (value : ℚ) (raw widthBits : Int)
  | typeError
  | zeroDivisionError
  | valueError
  | indexError
  deriving DecidableEq

structure SignalLayout where
  signalName : String
  pduId : Int
  pduLengthBytes : Int
  offsetBits : Int
  widthBits : Int
  factor : ℚ
  offset : ℚ

/-- An application value: a number, or something that does not subtract. -/
inductive SignalValue
  | number (x : ℚ)
  | other

/-- The place of index `i` in a sequence of length `n`; negative indices count from the end. -/
def indexOf (n : Nat) (i : Int) : Except SignalError Nat :=
  if 0 ≤ i ∧ i < n then .ok i.toNat
  else if i < 0 ∧ 0 ≤ i + n then .ok (i + n).toNat
  else .error .indexError

def setBit (buf : Bytes) (bitIndex : Int) (bitValue : Bool) : Except SignalError Bytes := do
  let byteIndex ← indexOf buf.length (bitIndex / 8)
  let mask : UInt8 := 1 <<< UInt8.ofNat (7 - (bitIndex % 8).toNat)
  return buf.modify byteIndex fun b => if bitValue then b ||| mask else b &&& ~~~mask

/-- The loop of `_set_bits` over the `width` bits still to be written; an index error leaves the
bits before it in the buffer. -/
def setBits (buf : Bytes) (offsetBits : Int) (raw : Nat) : Nat → Except SignalError Unit × Bytes
  | 0 => (.ok (), buf)
  | width + 1 => match setBit buf offsetBits (raw.testBit width) with
    | .error e => (.error e, buf)
    | .ok buf' => setBits buf' (offsetBits + 1) raw width

def getBit (data : Bytes) (bitIndex : Int) : Except SignalError Bool := do
  let byteIndex ← indexOf data.length (bitIndex / 8)
  return (data.getD byteIndex 0).toNat.testBit (7 - (bitIndex % 8).toNat)

def getBits (data : Bytes) (offsetBits : Int) : (width raw : Nat) → Except SignalError Nat
  | 0, raw => .ok raw
  | width + 1, raw => do
    let bitValue ← getBit data offsetBits
    getBits data (offsetBits + 1) width (raw <<< 1 ||| bitValue.toNat)

/-! Inside the buffer the loops write and read just the bits of the field. -/

theorem indexOf_natCast {n k : Nat} (h : k < n) : indexOf n k = .ok k := by
  rw [indexOf, if_pos ⟨by omega, by omega⟩, Int.toNat_natCast]

theorem setBit_natCast {buf : Bytes} {k : Nat} (hk : k < 8 * buf.length) (v : Bool) :
    ∃ buf', setBit buf k v = .ok buf' ∧ buf'.length = buf.length ∧
      ∀ j, bitAt buf' j = if j = k then v else bitAt buf j := by
  have hdiv : (k : Int) / 8 = (k / 8 : Nat) := by omega
  have hmod : ((k : Int) % 8).toNat = k % 8 := by omega
  have hindex : indexOf buf.length ((k : Int) / 8) = .ok (k / 8) :=
    hdiv ▸ indexOf_natCast (by omega)
  rw [setBit, hindex, hmod]
  refine ⟨_, rfl, List.length_modify .., bitAt_modify hk ?_⟩
  intro b i hi
  cases v with
  | false => exact testBit_and_not_mask b (by omega) hi
  | true => exact testBit_or_mask b (by omega)

theorem getBit_natCast {data : Bytes} {k : Nat} (hk : k < 8 * data.length) :
    getBit data k = .ok (bitAt data k) := by
  have hdiv : (k : Int) / 8 = (k / 8 : Nat) := by omega
  have hmod : ((k : Int) % 8).toNat = k % 8 := by omega
  have hindex : indexOf data.length ((k : Int) / 8) = .ok (k / 8) :=
    hdiv ▸ indexOf_natCast (by omega)
  rw [getBit, hindex, hmod]
  rfl

theorem getBits_natCast {data : Bytes} {offset width : Nat} (raw : Nat)
    (h : offset + width ≤ 8 * data.length) :
    getBits data offset width raw = .ok (raw * 2 ^ width + field (bitAt data) offset width) := by
  induction width generalizing offset raw with
  | zero => simp [getBits, field]
  | succ width ih =>
    have hbit : raw <<< 1 ||| (bitAt data offset).toNat = 2 * raw + (bitAt data offset).toNat := by
      rw [← Nat.shiftLeft_add_eq_or_of_lt (Bool.toNat_lt _), Nat.shiftLeft_eq, pow_one, mul_comm]
    have hroom : offset + 1 + width ≤ 8 * data.length := by omega
    have hnext := ih (2 * raw + (bitAt data offset).toNat) hroom
    rw [getBits, getBit_natCast (by omega)]
    change getBits data (offset + 1) width _ = _
    rw [hbit]
    push_cast at hnext
    rw [hnext, field]
    congr 1
    ring

/-! At a negative index the loop of `_set_bits` goes on from the end of the buffer, and past either
end it raises. -/

theorem indexOf_neg {n : Nat} {i : Int} (hi : i < 0) (h : 0 ≤ i + n) :
    indexOf n i = .ok (i + n).toNat := by
  rw [indexOf, if_neg (by omega), if_pos ⟨hi, h⟩]

theorem indexOf_outside {n : Nat} {i : Int} (h : n ≤ i ∨ i + n < 0) :
    indexOf n i = .error .indexError := by
  rw [indexOf, if_neg (by omega), if_neg (by omega)]

theorem setBit_outside {buf : Bytes} {o : Int} (h : 8 * buf.length ≤ o ∨ o + 8 * buf.length < 0)
    (v : Bool) : setBit buf o v = .error .indexError := by
  rw [setBit, indexOf_outside (by omega)]
  rfl

theorem setBit_neg {buf : Bytes} {o : Int} (ho : o < 0) (h : 0 ≤ o + 8 * buf.length) (v : Bool) :
    setBit buf o v = setBit buf (o + 8 * buf.length).toNat v := by
  have hdiv : ((o + 8 * buf.length).toNat : Int) / 8 = ((o / 8 + buf.length).toNat : Nat) := by omega
  have hmod : ((o + 8 * buf.length).toNat : Int) % 8 = o % 8 := by omega
  have hplace : indexOf buf.length (((o + 8 * buf.length).toNat : Int) / 8) =
      .ok (o / 8 + buf.length).toNat := hdiv ▸ indexOf_natCast (by omega)
  rw [setBit, setBit, hplace, hmod, indexOf_neg (by omega) (by omega)]

/-- The bit of `raw` that the loop leaves at place `j` of `n`, where it writes there at all: it
raises at once before the start, and its own places come after the ones negative indices reach. -/
def writtenBit (n : Nat) (offset : Int) (raw width j : Nat) : Option Bool :=
  if offset < -n then none
  else if offset ≤ j ∧ j < offset + width then
    some (raw.testBit (offset + width - 1 - j).toNat)
  else if offset + n ≤ j ∧ j < offset + width + n then
    some (raw.testBit (offset + width - 1 - j + n).toNat)
  else none

def Completes (n : Nat) (offset : Int) (width : Nat) : Prop :=
  width = 0 ∨ (-(n : Int) ≤ offset ∧ offset + width ≤ n)

instance (n : Nat) (offset : Int) (width : Nat) : Decidable (Completes n offset width) :=
  inferInstanceAs (Decidable (_ ∨ _))

theorem setBit_inside {buf : Bytes} {o : Int} (hlo : -(8 * buf.length : Nat) ≤ o)
    (hhi : o < (8 * buf.length : Nat)) (v : Bool) :
    ∃ buf', setBit buf o v = .ok buf' ∧ buf'.length = buf.length ∧ ∀ j < 8 * buf.length,
      bitAt buf' j = if o = j ∨ o + (8 * buf.length : Nat) = j then v else bitAt buf j := by
  by_cases ho : 0 ≤ o
  · lift o to Nat using ho
    obtain ⟨buf', hset, hlen, hbits⟩ := setBit_natCast (by omega : o < 8 * buf.length) v
    refine ⟨buf', hset, hlen, fun j hj => ?_⟩
    have hiff : (o : Int) = j ∨ (o : Int) + (8 * buf.length : Nat) = j ↔ j = o := by omega
    rw [hbits]
    simp only [hiff]
  · have hplace : (o + 8 * buf.length).toNat < 8 * buf.length := by omega
    obtain ⟨buf', hset, hlen, hbits⟩ := setBit_natCast hplace v
    rw [← setBit_neg (by omega) (by omega)] at hset
    refine ⟨buf', hset, hlen, fun j hj => ?_⟩
    have hiff : o = j ∨ o + (8 * buf.length : Nat) = j ↔ j = (o + 8 * buf.length).toNat := by omega
    rw [hbits]
    simp only [hiff]

theorem writtenBit_succ {n : Nat} {o : Int} (hlo : -(n : Int) ≤ o) (hhi : o < n)
    (raw width j : Nat) (old : Bool) :
    (writtenBit n o raw (width + 1) j).getD old =
      (writtenBit n (o + 1) raw width j).getD
        (if o = j ∨ o + n = j then raw.testBit width else old) := by
  -- one more turn at the front: its bit stays unless a later turn comes back to the place
  unfold writtenBit
  rw [if_neg (by omega : ¬o < -(n : Int)), if_neg (by omega : ¬o + 1 < -(n : Int))]
  by_cases hfield : o ≤ j ∧ j < o + (width + 1 : Nat)
  · rw [if_pos hfield]
    by_cases hfirst : o = j
    · have hlast : (o + (width + 1 : Nat) - 1 - j).toNat = width := by omega
      rw [if_neg (by omega), if_neg (by omega), if_pos (Or.inl hfirst), hlast]
      rfl
    · have hsub : (o + (width + 1 : Nat) - 1 - j).toNat = (o + 1 + width - 1 - j).toNat := by omega
      rw [if_pos (by omega), hsub]
      rfl
  · rw [if_neg hfield, if_neg (by omega : ¬(o + 1 ≤ j ∧ j < o + 1 + width))]
    by_cases hwrap : o + n ≤ j ∧ j < o + (width + 1 : Nat) + n
    · rw [if_pos hwrap]
      by_cases hfirst : o + n = j
      · have hlast : (o + (width + 1 : Nat) - 1 - j + n).toNat = width := by omega
        rw [if_neg (by omega), if_pos (Or.inr hfirst), hlast]
        rfl
      · have hsub : (o + (width + 1 : Nat) - 1 - j + n).toNat =
            (o + 1 + width - 1 - j + n).toNat := by omega
        rw [if_pos (by omega), hsub]
        rfl
    · rw [if_neg hwrap, if_neg (by omega), if_neg (by omega)]

theorem writtenBit_outside {n : Nat} {o : Int} (h : n ≤ o ∨ o < -n) (raw width : Nat) {j : Nat}
    (hj : j < n) : writtenBit n o raw width j = none := by
  unfold writtenBit
  split_ifs <;> first | rfl | omega

/-- What the loop answers and leaves, for every field and every buffer. -/
theorem setBits_spec (buf : Bytes) (o : Int) (raw width : Nat) :
    ∃ buf', setBits buf o raw width =
        (if Completes (8 * buf.length) o width then .ok () else .error .indexError, buf') ∧
      buf'.length = buf.length ∧ ∀ j < 8 * buf.length,
        bitAt buf' j = (writtenBit (8 * buf.length) o raw width j).getD (bitAt buf j) := by
  induction width generalizing buf o with
  | zero =>
    refine ⟨buf, ?_, rfl, fun j hj => ?_⟩
    · have hempty : Completes (8 * buf.length) o 0 := Or.inl rfl
      rw [if_pos hempty]
      rfl
    · have hnone : writtenBit (8 * buf.length) o raw 0 j = none := by
        unfold writtenBit
        split_ifs <;> first | rfl | omega
      rw [hnone]
      rfl
  | succ width ih =>
    by_cases hin : -(8 * buf.length : Nat) ≤ o ∧ o < (8 * buf.length : Nat)
    · obtain ⟨hlo, hhi⟩ := hin
      obtain ⟨buf₁, hset, hlen₁, hbits₁⟩ := setBit_inside hlo hhi (raw.testBit width)
      obtain ⟨buf₂, hrest, hlen₂, hbits₂⟩ := ih buf₁ (o + 1)
      rw [hlen₁] at hrest hbits₂
      refine ⟨buf₂, ?_, hlen₂.trans hlen₁, fun j hj => ?_⟩
      · have hiff : Completes (8 * buf.length) o (width + 1) ↔
            Completes (8 * buf.length) (o + 1) width := by
          unfold Completes
          omega
        rw [setBits, hset]
        simp only [hiff]
        exact hrest
      · rw [hbits₂ j hj, hbits₁ j hj, writtenBit_succ hlo hhi raw width j]
    · refine ⟨buf, ?_, rfl, fun j hj => ?_⟩
      · have hout : ¬Completes (8 * buf.length) o (width + 1) := by
          unfold Completes
          omega
        rw [setBits, setBit_outside (by omega), if_neg hout]
      · rw [writtenBit_outside (by omega) raw (width + 1) hj]
        rfl

theorem setBits_natCast {buf : Bytes} {offset width : Nat} (raw : Nat)
    (h : offset + width ≤ 8 * buf.length) :
    ∃ buf', setBits buf offset raw width = (.ok (), buf') ∧ buf'.length = buf.length ∧
      ∀ j, bitAt buf' j = if offset ≤ j ∧ j < offset + width then
        raw.testBit (offset + width - 1 - j) else bitAt buf j := by
  obtain ⟨buf', hset, hlen, hbits⟩ := setBits_spec buf offset raw width
  have hroom : Completes (8 * buf.length) offset width := Or.inr ⟨by omega, by exact_mod_cast h⟩
  rw [if_pos hroom] at hset
  refine ⟨buf', hset, hlen, fun j => ?_⟩
  by_cases hj : j < 8 * buf.length
  · have hplace : ((offset : Int) + width - 1 - j).toNat = offset + width - 1 - j := by omega
    have hstart : ¬(offset : Int) < -(8 * buf.length : Nat) := by omega
    have hfield : ((offset : Int) ≤ j ∧ (j : Int) < offset + width) ↔
        offset ≤ j ∧ j < offset + width := by omega
    have hwrap : ¬((offset : Int) + (8 * buf.length : Nat) ≤ j ∧
        (j : Int) < offset + width + (8 * buf.length : Nat)) := by omega
    rw [hbits j hj, writtenBit, if_neg hstart, if_neg hwrap, hplace]
    simp only [hfield]
    split_ifs <;> rfl
  · rw [if_neg (by omega), bitAt_of_le (by omega), bitAt_of_le (by omega)]

structure SignalPackager where
  ecuId : String
  signalTable : Dict String SignalLayout
  txBuffers : Dict Int Bytes

namespace SignalPackager

def new (ecuId : String) (signalTable : Dict String SignalLayout) : SignalPackager :=
  { ecuId := ecuId, signalTable := signalTable, txBuffers := Dict.empty }

def getLayout (s : SignalPackager) (signalName : String) : Except SignalError SignalLayout :=
  match s.signalTable.get? signalName with
  | some layout => .ok layout
  | none => .error (.unknownSignalError signalName)

def rawValue (layout : SignalLayout) (signalName : String) :
    SignalValue → Except SignalError Nat
  | .other => .error .typeError
  | .number value =>
    if layout.factor = 0 then .error .zeroDivisionError
    else
      let raw := Js.roundEven ((value - layout.offset) / layout.factor)
      if 0 ≤ raw ∧ (raw : ℚ) < 2 ^ layout.widthBits then .ok raw.toNat
      else .error (.signalValueOutOfRangeError signalName value raw layout.widthBits)

def bytearray (length : Int) : Except SignalError Bytes :=
  if length < 0 then .error .valueError else .ok (List.replicate length.toNat 0)

def packSignal (s : SignalPackager) (signalName : String) (value : SignalValue) :
    Except SignalError Bytes × SignalPackager :=
  match s.getLayout signalName with
  | .error e => (.error e, s)
  | .ok layout => match rawValue layout signalName value with
    | .error e => (.error e, s)
    | .ok raw => match bytearray layout.pduLengthBytes with
      | .error e => (.error e, s)
      | .ok fresh =>
        let (done, buf) := setBits (s.txBuffers.getD layout.pduId fresh) layout.offsetBits raw
          layout.widthBits.toNat
        (done.map fun _ => buf, { s with txBuffers := s.txBuffers.set layout.pduId buf })

def unpackSignal (s : SignalPackager) (pduBytes : Bytes) (signalName : String) :
    Except SignalError ℚ := do
  let layout ← s.getLayout signalName
  if (pduBytes.length : Int) ≠ layout.pduLengthBytes then
    .error (.unknownSignalError (signalName ++ ": pdu_bytes length " ++
      toString pduBytes.length ++ " != configured " ++ toString layout.pduLengthBytes))
  else
    let raw ← getBits pduBytes layout.offsetBits layout.widthBits.toNat 0
    return raw * layout.factor + layout.offset

def sendSignal (s : SignalPackager) (signalName : String) (value : SignalValue) :
    Except SignalError Bytes × SignalPackager :=
  match s.packSignal signalName value with
  | (.error e, s') => (.error e, s')
  | (.ok authenticPdu, s') => match s'.getLayout signalName with
    | .error e => (.error e, s')
    | .ok layout =>
      (.ok authenticPdu, { s' with txBuffers := s'.txBuffers.erase layout.pduId })

inductive Call
  | pack (signalName : String) (value : SignalValue)
  | send (signalName : String) (value : SignalValue)

def step (s : SignalPackager) : Call → Except SignalError Bytes × SignalPackager
  | .pack signalName value => s.packSignal signalName value
  | .send signalName value => s.sendSignal signalName value

def machine : Mealy SignalPackager Call (Except SignalError Bytes) := ⟨step⟩

end SignalPackager
end SecOC
