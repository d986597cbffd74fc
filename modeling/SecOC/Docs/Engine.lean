import SecOC.Lib.Bytes
import SecOC.Lib.Dict
import SecOC.Lib.JsNumber
import SecOC.Lib.Residue

/-! The simulation engine of the demonstration page, from the script of `docs/index.html`,
without its display. `simMac` is the MAC the page uses; a thrown `TypeError` is `none`. -/

namespace SecOC.Page
open Py Js

namespace Config

def maxAuthFailures : Number := 5
def windowSize : Number := 16
def freshnessLength : Int := 2
def authenticatorLength : Int := 8
def modulus : Number := shiftLeft 1 16

end Config

def pdus : Dict String String := Dict.ofItems [
  ("PDU_BRAKE_TORQUE", "secoc_mac_key_PDU_BRAKE_TORQUE"),
  ("PDU_0x100", "secoc_mac_key_PDU_0x100"),
  ("PDU_0x200", "secoc_mac_key_PDU_0x200")]

structure Sim where
  ecuState : String
  lockedOut : Bool
  failureCounts : Dict String Number
  lastValidFreshness : Dict String Number
  lastFrame : Dict String (List Number)

def Sim.initial : Sim where
  ecuState := "NORMAL_OPERATION"
  lockedOut := false
  failureCounts := Dict.empty
  lastValidFreshness := Dict.empty
  lastFrame := Dict.empty

def arraysEqual (a b : List Number) : Bool :=
  if a.length ≠ b.length then false else (a.zip b).all fun e => e.1 = e.2

structure Built where
  bytes : List Number
  payloadBytes : List Number
  freshnessBytes : List Number
  mac : List Number
  freshness : Number
  deriving DecidableEq

inductive Verdict
  | accepted (payloadBytes : List Number) (freshness : Number)
  | rejected (reason : String)
  deriving DecidableEq

abbrev Mac := String → List Number → List Number

variable (simMac : Mac) (sim : Sim) (pduId : String)

def buildSecuredPdu (payloadBytes : List Number) : Option Built := do
  let lastValid := sim.lastValidFreshness.getD pduId 0
  let freshness := add lastValid 1
  let freshnessBytes := [and (shiftRight freshness 8) 0xff, and freshness 0xff]
  let keyId ← pdus.get? pduId
  let mac := simMac keyId (payloadBytes ++ freshnessBytes)
  return { bytes := payloadBytes ++ freshnessBytes ++ mac
           payloadBytes, freshnessBytes, mac, freshness }

def reject (reason : String) : Verdict × Sim :=
  let count := add (sim.failureCounts.getD pduId 0) 1
  let sim := { sim with failureCounts := sim.failureCounts.set pduId count }
  (.rejected reason,
    if sim.lockedOut = false ∧ Config.maxAuthFailures ≤ count then
      { sim with lockedOut := true, ecuState := "SECURITY_VIOLATION_LOCKOUT" }
    else sim)

def candidateAfter (lastValid truncated : Number) : Number :=
  let base := mul (floor (div lastValid Config.modulus)) Config.modulus
  let candidate := add base truncated
  if candidate ≤ lastValid then add candidate Config.modulus else candidate

def receiveSecuredPdu (securedBytes : List Number) : Option (Verdict × Sim) :=
  let trailerLen := Config.freshnessLength + Config.authenticatorLength
  let length : Int := securedBytes.length
  if length < trailerLen then some (reject sim pduId "MALFORMED_STRUCTURE")
  else
    -- `Array.prototype.slice` takes its bounds as a slice of a byte string does
    let payloadBytes := slice securedBytes (some 0) (some (length - trailerLen))
    let freshnessBytes := slice securedBytes (some (length - trailerLen))
      (some (length - Config.authenticatorLength))
    let mac := slice securedBytes (some (length - Config.authenticatorLength)) none
    let truncated := or (shiftLeft (freshnessBytes.getD 0 0) 8) (freshnessBytes.getD 1 0)
    let lastValid := sim.lastValidFreshness.getD pduId 0
    let candidate := candidateAfter lastValid truncated
    let delta := sub candidate lastValid
    if ¬(0 < delta ∧ delta ≤ Config.windowSize) then
      some (reject sim pduId "FRESHNESS_OUT_OF_WINDOW")
    else do
      let fullFreshnessBytes := [and (shiftRight candidate 8) 0xff, and candidate 0xff]
      let keyId ← pdus.get? pduId
      let expectedMac := simMac keyId (payloadBytes ++ fullFreshnessBytes)
      if arraysEqual expectedMac mac = false then
        return reject sim pduId "MAC_MISMATCH"
      return (.accepted payloadBytes candidate,
        { sim with lastValidFreshness := sim.lastValidFreshness.set pduId candidate
                   lastFrame := sim.lastFrame.set pduId securedBytes })

def resetEcu : Sim :=
  { sim with ecuState := "NORMAL_OPERATION", lockedOut := false, failureCounts := Dict.empty }

theorem reject_fields (reason : String) :
    (reject sim pduId reason).2.failureCounts =
        sim.failureCounts.set pduId (add (sim.failureCounts.getD pduId 0) 1) ∧
      (reject sim pduId reason).2.lastValidFreshness = sim.lastValidFreshness ∧
      (reject sim pduId reason).2.lastFrame = sim.lastFrame := by
  unfold reject
  simp only
  split_ifs <;> exact ⟨rfl, rfl, rfl⟩

theorem reject_lockout (reason : String) :
    (reject sim pduId reason).2.lockedOut = (sim.lockedOut ||
        decide (Config.maxAuthFailures ≤ add (sim.failureCounts.getD pduId 0) 1)) ∧
      (reject sim pduId reason).2.ecuState = if sim.lockedOut = false ∧
        Config.maxAuthFailures ≤ add (sim.failureCounts.getD pduId 0) 1
        then "SECURITY_VIOLATION_LOCKOUT" else sim.ecuState := by
  unfold reject
  simp only
  split_ifs with h
  · rw [h.1, decide_eq_true h.2]
    exact ⟨rfl, rfl⟩
  · refine ⟨?_, rfl⟩
    cases hl : sim.lockedOut with
    | true => rfl
    | false => exact (decide_eq_false fun hmax => h ⟨hl, hmax⟩).symm

/-! What the engine computes on bytes and on counters below 2^53. -/

def ofBytes (b : Bytes) : List Number := b.map fun x => ((x.toNat : ℤ) : ℚ)

theorem ofBytes_append (a b : Bytes) : ofBytes (a ++ b) = ofBytes a ++ ofBytes b :=
  List.map_append

theorem ofBytes_length (b : Bytes) : (ofBytes b).length = b.length := List.length_map _

theorem ofBytes_inj {a b : Bytes} : ofBytes a = ofBytes b ↔ a = b := by
  have hinj : Function.Injective fun x : UInt8 => ((x.toNat : ℤ) : ℚ) := by
    intro x y hxy
    have h : ((x.toNat : ℤ) : ℚ) = ((y.toNat : ℤ) : ℚ) := hxy
    exact UInt8.toNat_inj.mp (by exact_mod_cast h)
  exact (List.map_injective_iff.mpr hinj).eq_iff

def toBytes (xs : List Number) : Bytes := xs.map fun x => UInt8.ofNat ⌊x⌋.toNat

theorem toBytes_ofBytes (b : Bytes) : toBytes (ofBytes b) = b := by
  induction b with
  | nil => rfl
  | cons x b ih =>
    change UInt8.ofNat ⌊((x.toNat : ℤ) : ℚ)⌋.toNat :: toBytes (ofBytes b) = x :: b
    rw [ih, Int.floor_intCast, Int.toNat_natCast, UInt8.ofNat_toNat]

theorem arraysEqual_iff (a b : List Number) : arraysEqual a b = true ↔ a = b := by
  induction a generalizing b with
  | nil => cases b <;> simp [arraysEqual]
  | cons x a ih =>
    cases b with
    | nil => simp [arraysEqual]
    | cons y b =>
      have hstep : arraysEqual (x :: a) (y :: b) = (decide (x = y) && arraysEqual a b) := by
        simp only [arraysEqual, List.length_cons, ne_eq, Nat.add_right_cancel_iff,
          List.zip_cons_cons, List.all_cons]
        split_ifs <;> simp
      rw [hstep, Bool.and_eq_true, ih, decide_eq_true_eq, List.cons.injEq]

theorem modulus_eq : Config.modulus = ((2 ^ 16 : ℕ) : ℚ) := by
  have h : shiftLeft ((1 : ℤ) : ℚ) 16 = ((65536 : ℤ) : ℚ) := by
    rw [shiftLeft, toInt32_intCast]
    rfl
  rw [Int.cast_one] at h
  rw [Config.modulus, h]
  norm_num

theorem counterBytes_eq (v : ℤ) : [and (shiftRight v 8) 0xff, and v 0xff] =
    ofBytes (toBytesBE 2 (v % 2 ^ 16).toNat) := by
  have hbyte : ∀ n : Nat, (UInt8.ofNat (n % 256)).toNat = n % 256 := fun n => by simp
  have hhigh : ((UInt8.ofNat ((v % 2 ^ 16).toNat / 256 % 256)).toNat : ℤ) = v / 256 % 256 := by
    rw [hbyte]
    omega
  have hlow : ((UInt8.ofNat ((v % 2 ^ 16).toNat % 256)).toNat : ℤ) = v % 256 := by
    rw [hbyte]
    omega
  rw [shiftRight_and_byte, and_byte, ← hhigh, ← hlow]
  rfl

section Window
variable {L t : ℤ}

theorem candidateAfter_eq (h0 : 0 ≤ L) (hL : L < 2 ^ 53) (ht : 0 ≤ t) (ht' : t < 2 ^ 16) :
    candidateAfter L t = Js.round (Residue.next L t (2 ^ 16) : ℤ) := by
  have hLabs : |L| ≤ 2 ^ 53 := abs_le.mpr ⟨by omega, hL.le⟩
  have hbase : mul (floor (div L Config.modulus)) Config.modulus =
      ((L / 2 ^ 16 * 2 ^ 16 : ℤ) : ℚ) := by
    have h := mul_intCast (a := L / 2 ^ 16) (b := 2 ^ 16) (abs_le.mpr ⟨by omega, by omega⟩)
    rw [modulus_eq, floor_div_two_pow hLabs]
    exact_mod_cast h
  have hcand : add ((L / 2 ^ 16 * 2 ^ 16 : ℤ) : ℚ) t = ((L / 2 ^ 16 * 2 ^ 16 + t : ℤ) : ℚ) :=
    add_intCast (abs_le.mpr ⟨by omega, by omega⟩)
  unfold candidateAfter Residue.next
  simp only [hbase, hcand, Int.cast_le]
  split_ifs
  · rw [add, modulus_eq]
    push_cast
    rfl
  · rw [Js.round_intCast (abs_le.mpr ⟨by omega, by omega⟩)]

theorem candidateAfter_window (h0 : 0 ≤ L) (ht : 0 ≤ t) (ht' : t < 2 ^ 16)
    (hx : Residue.next L t (2 ^ 16) ≤ 2 ^ 53 ∨ L < 2 ^ 53 ∧ L + 17 < Residue.next L t (2 ^ 16)) :
    (0 < sub (candidateAfter L t) L ∧ sub (candidateAfter L t) L ≤ Config.windowSize ↔
      Residue.next L t (2 ^ 16) ≤ L + 16) ∧
    (Residue.next L t (2 ^ 16) ≤ L + 16 →
      candidateAfter L t = (Residue.next L t (2 ^ 16) : ℤ)) := by
  have hlt := Residue.lt_next (L := L) (by norm_num : (0 : ℤ) < 2 ^ 16) ht
  have hle := Residue.next_le_add (L := L) (by norm_num : (0 : ℤ) < 2 ^ 16) ht'
  have hL : L < 2 ^ 53 := by omega
  rw [candidateAfter_eq h0 hL ht ht']
  generalize Residue.next L t (2 ^ 16) = c at *
  have hround : ∃ r : ℤ, Js.round c = r ∧ (r ≤ L + 16 ↔ c ≤ L + 16) ∧ L < r ∧ r ≤ L + 2 ^ 17 ∧
      (c ≤ L + 16 → r = c) := by
    rcases le_or_gt c (2 ^ 53) with hc | hc
    · exact ⟨c, Js.round_intCast (abs_le.mpr ⟨by omega, hc⟩), Iff.rfl, hlt, by omega, fun _ => rfl⟩
    · -- beyond 2^53 the rounded counter is off by one at most, and still out of the window
      obtain ⟨r, hr, h1, h2⟩ := round_near hc.le (by omega)
      exact ⟨r, hr, by omega, by omega, by omega, by omega⟩
  obtain ⟨r, hr, hw, hLr, hrL, heq⟩ := hround
  rw [hr, sub_intCast (abs_le.mpr ⟨by omega, by omega⟩)]
  constructor
  · rw [← hw, Config.windowSize]
    constructor
    · rintro ⟨-, h⟩
      have h' : r - L ≤ 16 := by exact_mod_cast h
      omega
    · intro h
      have h1 : 0 < r - L := by omega
      have h2 : r - L ≤ 16 := by omega
      exact ⟨by exact_mod_cast h1, by exact_mod_cast h2⟩
  · intro h
    rw [heq h]

end Window

theorem truncated_eq (f₀ f₁ : UInt8) :
    or (shiftLeft ((ofBytes [f₀, f₁]).getD 0 0) 8) ((ofBytes [f₀, f₁]).getD 1 0) =
      ((fromBytesBE [f₀, f₁] : ℤ) : ℚ) := by
  have h := shiftLeft_or f₀.toNat_lt f₁.toNat_lt
  simpa [fromBytesBE, ofBytes] using h

/-! Received frames, split as the page splits them. -/

theorem slice_left (xs ys : List Number) :
    slice (xs ++ ys) (some 0) (some (xs.length : Int)) = xs := by
  have hb : sliceBound (xs ++ ys).length (xs.length : Int) = xs.length := by
    rw [sliceBound, if_neg (by omega), List.length_append, Int.toNat_natCast]
    omega
  rw [slice, Option.elim_some, Option.elim_some, hb, List.take_left, sliceBound]
  simp

theorem slice_between (xs ys zs : List Number) :
    slice (xs ++ ys ++ zs) (some (xs.length : Int)) (some ((xs ++ ys).length : Int)) = ys := by
  have hi : sliceBound (xs ++ ys ++ zs).length (xs.length : Int) = xs.length := by
    rw [sliceBound, if_neg (by omega), Int.toNat_natCast]
    simp only [List.length_append]
    omega
  have hj : sliceBound (xs ++ ys ++ zs).length ((xs ++ ys).length : Int) = (xs ++ ys).length := by
    rw [sliceBound, if_neg (by omega), Int.toNat_natCast]
    simp only [List.length_append]
    omega
  rw [slice, Option.elim_some, Option.elim_some, hi, hj, List.take_left, List.drop_left]

theorem slice_right (xs ys : List Number) :
    slice (xs ++ ys) (some (xs.length : Int)) none = ys := by
  have hi : sliceBound (xs ++ ys).length (xs.length : Int) = xs.length := by
    rw [sliceBound, if_neg (by omega), List.length_append, Int.toNat_natCast]
    omega
  rw [slice, Option.elim_some, Option.elim_none, hi, List.take_length, List.drop_left]

theorem receiveSecuredPdu_short {b : List Number} (h : b.length < 10) :
    receiveSecuredPdu simMac sim pduId b = some (reject sim pduId "MALFORMED_STRUCTURE") := by
  have hshort : (b.length : Int) < Config.freshnessLength + Config.authenticatorLength := by
    rw [Config.freshnessLength, Config.authenticatorLength]
    omega
  simp only [receiveSecuredPdu, if_pos hshort]

variable {simMac sim pduId}

theorem receiveSecuredPdu_append {keyId : String} (hkey : pdus.get? pduId = some keyId) {L c : ℤ}
    (hlast : sim.lastValidFreshness.getD pduId 0 = L) (h0 : 0 ≤ L) (a m : Bytes) (f₀ f₁ : UInt8)
    (hm : m.length = 8) (hc : Residue.next L (fromBytesBE [f₀, f₁]) (2 ^ 16) = c)
    (hx : c ≤ 2 ^ 53 ∨ L < 2 ^ 53 ∧ L + 17 < c) :
    receiveSecuredPdu simMac sim pduId (ofBytes (a ++ [f₀, f₁] ++ m)) = some (
      if ¬c ≤ L + 16 then reject sim pduId "FRESHNESS_OUT_OF_WINDOW"
      else if simMac keyId (ofBytes (a ++ toBytesBE 2 (c % 2 ^ 16).toNat)) = ofBytes m then
        (.accepted (ofBytes a) c,
          { sim with lastValidFreshness := sim.lastValidFreshness.set pduId c
                     lastFrame := sim.lastFrame.set pduId (ofBytes (a ++ [f₀, f₁] ++ m)) })
      else reject sim pduId "MAC_MISMATCH") := by
  have hsplit : ofBytes (a ++ [f₀, f₁] ++ m) = ofBytes a ++ ofBytes [f₀, f₁] ++ ofBytes m := by
    rw [ofBytes_append, ofBytes_append]
  have htrailer : ((ofBytes (a ++ [f₀, f₁] ++ m)).length : Int) -
      (Config.freshnessLength + Config.authenticatorLength) = (ofBytes a).length := by
    simp only [ofBytes_length, List.length_append, hm, Config.freshnessLength,
      Config.authenticatorLength, List.length_cons, List.length_nil]
    omega
  have hmac : ((ofBytes (a ++ [f₀, f₁] ++ m)).length : Int) - Config.authenticatorLength =
      (ofBytes a ++ ofBytes [f₀, f₁]).length := by
    simp only [ofBytes_length, List.length_append, hm, Config.authenticatorLength,
      List.length_cons, List.length_nil]
    omega
  have hlong : ¬((ofBytes (a ++ [f₀, f₁] ++ m)).length : Int) <
      Config.freshnessLength + Config.authenticatorLength := by omega
  have ht : (fromBytesBE [f₀, f₁] : ℤ) < 2 ^ 16 := by
    have h := fromBytesBE_lt [f₀, f₁]
    norm_num at h ⊢
    exact_mod_cast h
  have hw := candidateAfter_window h0 (Int.natCast_nonneg _) ht (hc.symm ▸ hx)
  rw [hc] at hw
  obtain ⟨hwindow, hcand⟩ := hw
  unfold receiveSecuredPdu
  simp only [hlong, if_false, htrailer, hmac, hlast]
  rw [hsplit, slice_between, slice_right, List.append_assoc, slice_left, truncated_eq]
  simp only [hwindow]
  by_cases hin : c ≤ L + 16
  · rw [if_neg (not_not.mpr hin), if_neg (not_not.mpr hin), hcand hin, counterBytes_eq,
      ← ofBytes_append, hkey]
    simp only [bind, Option.bind, pure]
    by_cases hmac : simMac keyId (ofBytes (a ++ toBytesBE 2 (c % 2 ^ 16).toNat)) = ofBytes m
    · have heq := (arraysEqual_iff _ _).mpr hmac
      rw [heq, if_neg Bool.noConfusion, if_pos hmac]
    · have hne := Bool.eq_false_iff.mpr fun h => hmac ((arraysEqual_iff _ _).mp h)
      rw [hne, if_pos rfl, if_neg hmac]
  · rw [if_pos hin, if_pos hin]

end SecOC.Page
