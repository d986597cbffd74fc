import SecOC.Lib.Bytes
import SecOC.Lib.Dict

/-! Exceptions with their texts, and the constants of `sim/config.py`. -/

namespace SecOC
open Py

/-- An exception; the text is the message it is raised with. -/
inductive PyError
  | secOCConfigError (text : String)
  | securityProfileConfigError (text : String)
  | secOCTransportError (text : String)
  | payloadTooLargeError (text : String)
  | senderECUError (text : String)
  | hsmError (text : String)
  | csmError (text : String)
  | keyError (text : String)
  | valueError (text : String)
  | typeError
  | osError
  deriving DecidableEq, Repr

namespace Config

def supportedAlgorithms : List String := ["HMAC-SHA256", "HMAC-SHA512"]
def defaultFreshnessLength : Nat := 2
def defaultAuthenticatorLength : Nat := 8
def maxAuthFailures : Nat := 5
def canMaxPayloadBytes : Nat := 8
def canFdMaxPayloadBytes : Nat := 64

end Config

theorem bind_eq_ok {ε α β : Type} {x : Except ε α} {f : α → Except ε β} {b : β} :
    x >>= f = .ok b ↔ ∃ a, x = .ok a ∧ f a = .ok b := by
  cases x with
  | error e =>
    constructor
    · intro h
      cases h
    · rintro ⟨a, h, -⟩
      cases h
  | ok a =>
    constructor
    · intro h
      exact ⟨a, rfl, h⟩
    · rintro ⟨a', h, hb⟩
      cases h
      exact hb

end SecOC
