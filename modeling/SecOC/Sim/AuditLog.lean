import SecOC.Lib.HashChain
import SecOC.Lib.Runs
import SecOC.Sim.Crypto

/-! The hash-chained security journal of `sim/dem.py`. -/

namespace SecOC
open Py HashChain

def Config.maxAuditEntries : Nat := 1000

structure AuditEntry (τ δ : Type) where
  event : String
  timestamp : τ
  detail : δ
  deriving DecidableEq

/-- What the chain hash is made of: the JSON text of an entry with its keys sorted, or the
exception for a detail that has none, and the digest. -/
structure ChainHash (τ δ : Type) where
  dumps : AuditEntry τ δ → Except PyError String
  sha256 : Bytes → Bytes

structure HashChainedLog (τ δ : Type) where
  max : Int
  /-- Each entry with what it keeps under its key `hash`. -/
  entries : List (AuditEntry τ δ × String)
  prevHash : String
  deriving DecidableEq

structure LogCall (τ δ : Type) where
  event : String
  detail : Option δ
  now : τ

def LogCall.entry {τ δ : Type} [EmptyCollection δ] (c : LogCall τ δ) : AuditEntry τ δ :=
  { event := c.event, timestamp := c.now, detail := c.detail.getD ∅ }

def genesis : String := String.ofList (List.replicate 64 '0')

namespace HashChainedLog
variable {τ δ : Type}

def new (maxEntries : Int := Config.maxAuditEntries) : HashChainedLog τ δ :=
  { max := maxEntries, entries := [], prevHash := genesis }

/-- The JSON text of an entry and the hash before it; a hash is hex text and needs no escapes. -/
def payload (prev entryText : String) : String :=
  "\x7b\"entry\": " ++ entryText ++ ", \"prev\": \"" ++ prev ++ "\"\x7d"

def chainHash (C : ChainHash τ δ) (prev : String) (entry : AuditEntry τ δ) :
    Except PyError String := do
  let entryText ← C.dumps entry
  return toHex (C.sha256 (payload prev entryText).toUTF8.data.toList)

def verifyFrom (C : ChainHash τ δ) : String → List (AuditEntry τ δ × String) → Except PyError Bool
  | _, [] => .ok true
  | prev, (e, hash) :: es => do
    let expected ← chainHash C prev e
    if hash ≠ expected then return false else verifyFrom C hash es

def verifyIntegrity (C : ChainHash τ δ) (l : HashChainedLog τ δ) : Except PyError Bool :=
  verifyFrom C genesis l.entries

variable [EmptyCollection δ]

def log (C : ChainHash τ δ) (l : HashChainedLog τ δ) (c : LogCall τ δ) :
    Except PyError Unit × HashChainedLog τ δ :=
  match chainHash C l.prevHash c.entry with
  | .error e => (.error e, l)
  | .ok hash =>
    let entries := l.entries ++ [(c.entry, hash)]
    (.ok (), { l with
      prevHash := hash
      entries := if l.max < entries.length then entries.tail else entries })

def machine (C : ChainHash τ δ) : Mealy (HashChainedLog τ δ) (LogCall τ δ) (Except PyError Unit) :=
  ⟨log C⟩

end HashChainedLog
end SecOC
