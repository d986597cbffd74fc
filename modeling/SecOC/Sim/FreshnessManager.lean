import SecOC.Lib.Residue
import SecOC.Sim.NvM

/-! Freshness counters: reconstruction of a truncated counter and the acceptance window. -/

namespace SecOC
open Py

structure FreshnessManager where
  windowSize : Int
  freshnessLength : Nat
  deriving DecidableEq, Repr

namespace FreshnessManager

def modulus (f : FreshnessManager) : Int := 2 ^ (f.freshnessLength * 8)

def lastValidKey (pduId : String) : String := "freshness_" ++ pduId ++ "_last_valid"

def windowKey (pduId : String) : String := "freshness_" ++ pduId ++ "_anti_replay_window"

def loadLastValidFreshness (nvm : NvM) (pduId : String) : Value :=
  nvm.read (lastValidKey pduId) (.int 0)

def validateFreshness (f : FreshnessManager) (nvm : NvM) (pduId : String) (truncated : Nat) :
    Except PyError (Bool × Int) := do
  let lastValid ← (loadLastValidFreshness nvm pduId).asInt
  let base := lastValid / f.modulus * f.modulus
  let candidate := if base + truncated ≤ lastValid then base + truncated + f.modulus
    else base + truncated
  -- the stored counter itself is out of the window
  let delta := candidate - lastValid
  if 0 < delta ∧ delta ≤ f.windowSize then
    return (true, candidate)
  return (false, 0)

def commitFreshness (nvm : NvM) (pduId : String) (fullValue : Int) : Except PyError Unit × NvM :=
  match nvm.write (lastValidKey pduId) (.int fullValue) with
  | (.error e, nvm) => (.error e, nvm)
  | (.ok _, nvm) => nvm.write (windowKey pduId) (.list [])

/-- The same two writes, with a counter the peer has reported. -/
def reinitializeWindow (nvm : NvM) (pduId : String) (resyncValue : Int) :
    Except PyError Unit × NvM :=
  commitFreshness nvm pduId resyncValue

def lastValid (nvm : NvM) (pduId : String) : Except PyError Int :=
  (loadLastValidFreshness nvm pduId).asInt

theorem lastValid_inj {nvm : NvM} {pduId : String} {L L' : Int}
    (h : lastValid nvm pduId = .ok L) (h' : lastValid nvm pduId = .ok L') : L = L' :=
  Except.ok.inj (h.symm.trans h')

theorem modulus_pos (f : FreshnessManager) : 0 < f.modulus := by
  unfold modulus
  positivity

theorem modulus_two (windowSize : Int) : (FreshnessManager.mk windowSize 2).modulus = 65536 := by
  rw [modulus]
  norm_num

/-- Validation looks up the next counter with the received residue and tests the window. -/
theorem validateFreshness_eq (f : FreshnessManager) (nvm : NvM) (pduId : String)
    (truncated : Nat) {L : Int} (hL : lastValid nvm pduId = .ok L) :
    f.validateFreshness nvm pduId truncated =
      if Residue.next L truncated f.modulus ≤ L + f.windowSize
      then .ok (true, Residue.next L truncated f.modulus) else .ok (false, 0) := by
  have hpos := Residue.lt_next (L := L) f.modulus_pos (Int.natCast_nonneg truncated)
  have hw : (0 < Residue.next L truncated f.modulus - L ∧
      Residue.next L truncated f.modulus - L ≤ f.windowSize) ↔
      Residue.next L truncated f.modulus ≤ L + f.windowSize := by
    constructor
    · intro h
      linarith [h.2]
    · intro h
      exact ⟨by linarith, by linarith⟩
  have hload : (loadLastValidFreshness nvm pduId).asInt = .ok L := hL
  unfold validateFreshness
  rw [hload]
  change (if 0 < Residue.next L truncated f.modulus - L ∧
    Residue.next L truncated f.modulus - L ≤ f.windowSize then _ else _) = _
  simp only [hw]
  rfl

theorem validateFreshness_ok {f : FreshnessManager} {nvm : NvM} {pduId : String}
    {truncated : Nat} {v : Int} (h : f.validateFreshness nvm pduId truncated = .ok (true, v)) :
    ∃ L, lastValid nvm pduId = .ok L ∧ v = Residue.next L truncated f.modulus ∧
      L < v ∧ v ≤ L + f.windowSize := by
  cases hL : lastValid nvm pduId with
  | error e =>
    have hload : (loadLastValidFreshness nvm pduId).asInt = .error e := hL
    unfold validateFreshness at h
    rw [hload] at h
    cases h
  | ok L =>
    rw [validateFreshness_eq f nvm pduId truncated hL] at h
    split_ifs at h with hw
    · obtain rfl : Residue.next L truncated f.modulus = v := by
        injection h with h
        exact congrArg Prod.snd h
      exact ⟨L, rfl, rfl, Residue.lt_next f.modulus_pos (Int.natCast_nonneg _), hw⟩
    · injection h with h
      cases congrArg Prod.fst h

/-! The store keys of different PDUs, and of different records, are different. -/

theorem lastValidKey_inj {p q : String} : lastValidKey p = lastValidKey q ↔ p = q := by
  simp [lastValidKey]

theorem windowKey_inj {p q : String} : windowKey p = windowKey q ↔ p = q := by
  simp [windowKey]

theorem lastValidKey_ne_windowKey (p q : String) : lastValidKey p ≠ windowKey q := by
  intro h
  have hh := congrArg (fun s => s.toList.reverse.head?) h
  simp [lastValidKey, windowKey] at hh

/-! Committing a counter. -/

theorem commitFreshness_fst (nvm : NvM) (pduId : String) (v : Int) :
    (commitFreshness nvm pduId v).1 = if nvm.diskFault then .error .osError else .ok () := by
  have hfst := nvm.write_fst (lastValidKey pduId) (.int v)
  have hd := nvm.write_snd_diskFault (lastValidKey pduId) (.int v)
  unfold commitFreshness
  split
  · next he =>
    rw [he] at hfst
    rw [← hfst]
  · next he =>
    rw [he] at hd
    rw [NvM.write_fst, hd]

theorem commitFreshness_ok {nvm : NvM} (h : nvm.diskFault = false) (pduId : String) (v : Int) :
    (commitFreshness nvm pduId v).1 = .ok () := by
  rw [commitFreshness_fst, h]
  rfl

theorem commitFreshness_diskFault (nvm : NvM) (pduId : String) (v : Int) :
    (commitFreshness nvm pduId v).2.diskFault = nvm.diskFault := by
  have hd := nvm.write_snd_diskFault (lastValidKey pduId) (.int v)
  unfold commitFreshness
  split <;> next he =>
    rw [he] at hd
    simpa using hd

theorem commitFreshness_store (nvm : NvM) (pduId : String) (v : Int) :
    (commitFreshness nvm pduId v).2.store =
      if nvm.diskFault then nvm.store.set (lastValidKey pduId) (.int v)
      else (nvm.store.set (lastValidKey pduId) (.int v)).set (windowKey pduId) (.list []) := by
  -- the memory a commit leaves: a failing flush ends it before the window record
  have hfst := nvm.write_fst (lastValidKey pduId) (.int v)
  have hstore := nvm.write_snd_store (lastValidKey pduId) (.int v)
  unfold commitFreshness
  cases hd : nvm.diskFault with
  | true =>
    split
    · next he =>
      rw [he] at hstore
      exact hstore
    · next he =>
      rw [he, hd] at hfst
      cases hfst
  | false =>
    split
    · next he =>
      rw [he, hd] at hfst
      cases hfst
    · next he =>
      rw [he] at hstore
      rw [NvM.write_snd_store]
      exact congrArg (fun d => d.set (windowKey pduId) (.list [])) hstore

theorem get?_commitFreshness (nvm : NvM) (pduId : String) (v : Int) (key : String) :
    (commitFreshness nvm pduId v).2.store.get? key =
      if key = lastValidKey pduId then some (.int v)
      else if key = windowKey pduId ∧ nvm.diskFault = false then some (.list [])
      else nvm.store.get? key := by
  have hne := lastValidKey_ne_windowKey pduId pduId
  rw [commitFreshness_store]
  cases nvm.diskFault with
  | true => simp [Dict.get?_set]
  | false =>
    by_cases hk : key = lastValidKey pduId
    · subst hk
      simp [Dict.get?_set, hne]
    · simp [Dict.get?_set, hk]

theorem read_commitFreshness (nvm : NvM) (pduId : String) (v : Int) {key : String} (d : Value)
    (h1 : key ≠ lastValidKey pduId) (h2 : key ≠ windowKey pduId) :
    (commitFreshness nvm pduId v).2.read key d = nvm.read key d := by
  rw [NvM.read, Dict.getD, get?_commitFreshness, if_neg h1, if_neg fun h => h2 h.1]
  rfl

theorem lastValid_commitFreshness (nvm : NvM) (pduId : String) (v : Int) :
    lastValid (commitFreshness nvm pduId v).2 pduId = .ok v := by
  -- the memory holds the new counter also when a flush fails
  rw [lastValid, loadLastValidFreshness, NvM.read, Dict.getD, get?_commitFreshness, if_pos rfl]
  rfl

theorem lastValid_commitFreshness_ne (nvm : NvM) {pduId q : String} (v : Int) (h : q ≠ pduId) :
    lastValid (commitFreshness nvm pduId v).2 q = lastValid nvm q := by
  unfold lastValid loadLastValidFreshness
  rw [read_commitFreshness nvm pduId v _ (fun hk => h (lastValidKey_inj.mp hk))
    (lastValidKey_ne_windowKey q pduId)]

end FreshnessManager
end SecOC
