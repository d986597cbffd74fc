import SecOC.Sim.CanBus

/-! The attack simulators: captured frames replayed, frames tampered in transit, forged frames. -/

namespace SecOC
open Py

/-- Frames captured so far; capturing a PDU that was never seen stores nothing for it. -/
abbrev Captured := Dict String (Option Bytes)

def MessageInjector.inject (bus : CanBus) (pduId : String) (data : Bytes) : CanBus :=
  bus.publish pduId data

namespace ReplayAttack

def capture (captured : Captured) (bus : CanBus) (pduId : String) : Option Bytes × Captured :=
  (bus.getLast pduId, captured.set pduId (bus.getLast pduId))

def replay (captured : Captured) (bus : CanBus) (pduId : String) : CanBus :=
  match captured.getD pduId none with
  | some rawBytes => MessageInjector.inject bus pduId rawBytes
  | none => bus

end ReplayAttack

namespace MitmAttack

def bitFlipMask : UInt8 := 0x01

def intercept : Bytes → Bytes
  | [] => []
  | b :: bs => (b ^^^ bitFlipMask) :: bs

def interceptWith (mask : UInt8) : Bytes → Bytes
  | [] => []
  | b :: bs => (b ^^^ mask) :: bs

theorem intercept_eq (frame : Bytes) : intercept frame = interceptWith bitFlipMask frame := by
  cases frame <;> rfl

theorem interceptWith_length (mask : UInt8) (frame : Bytes) :
    (interceptWith mask frame).length = frame.length := by
  cases frame <;> rfl

theorem drop_interceptWith (mask : UInt8) (frame : Bytes) {k : Nat} (hk : 0 < k) :
    (interceptWith mask frame).drop k = frame.drop k := by
  cases frame with
  | nil => rfl
  | cons b bs =>
    obtain ⟨k, rfl⟩ := Nat.exists_eq_succ_of_ne_zero hk.ne'
    rfl

theorem take_interceptWith (mask : UInt8) (frame : Bytes) {k : Nat} (hk : 0 < k) :
    (interceptWith mask frame).take k = interceptWith mask (frame.take k) := by
  obtain ⟨k, rfl⟩ := Nat.exists_eq_succ_of_ne_zero hk.ne'
  cases frame <;> rfl

theorem interceptWith_ne {mask : UInt8} (hmask : mask ≠ 0) {frame : Bytes} (h : frame ≠ []) :
    interceptWith mask frame ≠ frame := by
  cases frame with
  | nil => exact absurd rfl h
  | cons b bs =>
    intro heq
    have hb : b ^^^ mask = b := (List.cons.inj heq).1
    apply hmask
    calc mask = b ^^^ (b ^^^ mask) := by rw [← UInt8.xor_assoc, UInt8.xor_self, UInt8.zero_xor]
      _ = 0 := by rw [hb, UInt8.xor_self]

end MitmAttack

inductive ForgeMode
  | malformedStructure
  | invalidMac
  | wrongFreshness
  deriving DecidableEq, Repr

def ForgeMode.value : ForgeMode → String
  | .malformedStructure => "MALFORMED_STRUCTURE"
  | .invalidMac => "INVALID_MAC"
  | .wrongFreshness => "WRONG_FRESHNESS"

def ForgeMode.all : List ForgeMode := [.malformedStructure, .invalidMac, .wrongFreshness]

namespace FuzzingEngine

def forgedAuthenticPdu : Bytes := [0xDE, 0xAD, 0xBE, 0xEF]

def invalidMac : Bytes := List.replicate Config.defaultAuthenticatorLength 0xFF

def validRangeTruncatedFreshness : Nat := 1

def outOfWindowTruncatedFreshness : Nat := 2 ^ (Config.defaultFreshnessLength * 8) - 1

def generateForgedPdu (mode : ForgeMode) : Bytes :=
  match mode with
  | .malformedStructure => [0x00]
  | mode =>
    let freshnessValue := if mode = .wrongFreshness then outOfWindowTruncatedFreshness
      else validRangeTruncatedFreshness
    forgedAuthenticPdu ++ toBytesBE Config.defaultFreshnessLength freshnessValue ++ invalidMac

end FuzzingEngine
end SecOC
