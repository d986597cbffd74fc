import SecOC.Sim.HashJobs
import Mathlib.Logic.Function.Basic

/-! A streaming hash against the hash of its chunks at once. Finishing takes the context out
before the HSM is asked, so a finish that the HSM refuses has lost its chunks. -/

namespace SecOC.HashingCSM
open Py

def note (owed : String → List Bytes) :
    HashCall → Except PyError (Option Bytes) → String → List Bytes
  | .hashUpdate ctxId chunk, _ => Function.update owed ctxId (owed ctxId ++ [chunk])
  | .hashFinish ctxId, .ok _ => Function.update owed ctxId []
  | _, _ => owed

def watched (D : Digests) :
    Mealy (HashingCSM × (String → List Bytes)) HashCall (Except PyError (Option Bytes)) :=
  (machine D).noting note

/-- A finish that returns gives the hash of the chunks owed. One that fails reports a failed job
and still holds them. -/
def Finishes (D : Digests) (c : HashingCSM) (owed : List Bytes) (ctxId : String) : Prop :=
  match c.hashFinish D ctxId with
  | (.ok digest, _) => (c.toCSM.computeHash D owed.flatten).1 = .ok digest
  | (.error e, c') => (∃ text, e = .csmError text) ∧ c'.hashContexts.getD ctxId [] = owed

structure Served (D : Digests) (p : HashingCSM × (String → List Bytes)) (call : HashCall) :
    Prop where
  finishes : ∀ {ctxId}, call = .hashFinish ctxId → Finishes D p.1 (p.2 ctxId) ctxId
  others : ∀ ctxId, call.ctxId ≠ some ctxId →
    ((machine D).step p.1 call).2.hashContexts.get? ctxId = p.1.hashContexts.get? ctxId

/-- The HSM answers, or the call does not finish a context that holds chunks. -/
def Undisturbed (c : HashingCSM) (call : HashCall) : Prop :=
  ∀ ctxId, call = .hashFinish ctxId → (c.hashContexts.get? ctxId).isSome → c.hsm.failMode = false

def Holds (c : HashingCSM) (owed : String → List Bytes) : Prop :=
  ∀ ctxId, c.hashContexts.get? ctxId = if owed ctxId = [] then none else some (owed ctxId)

variable {D : Digests} {c : HashingCSM} {owed : String → List Bytes}

theorem holds_new (hsm : HSM) : Holds (new hsm) fun _ => [] := fun _ => rfl

theorem Holds.getD (h : Holds c owed) (ctxId : String) :
    c.hashContexts.getD ctxId [] = owed ctxId := by
  rw [Dict.getD, h ctxId]
  split_ifs with howed
  · exact howed.symm
  · rfl

theorem Holds.of_update {c' : HashingCSM} {ctxId : String} {chunks : List Bytes} (h : Holds c owed)
    (hself : c'.hashContexts.get? ctxId = if chunks = [] then none else some chunks)
    (hothers : ∀ k, k ≠ ctxId → c'.hashContexts.get? k = c.hashContexts.get? k) :
    Holds c' (Function.update owed ctxId chunks) := by
  -- what becomes of one context is what is noted of it
  intro k
  by_cases hk : k = ctxId
  · subst hk
    rw [Function.update_self, hself]
  · rw [Function.update_of_ne hk, hothers k hk, h k]

theorem step_others (c : HashingCSM) (call : HashCall) {ctxId : String}
    (hctx : call.ctxId ≠ some ctxId) :
    ((machine D).step c call).2.hashContexts.get? ctxId = c.hashContexts.get? ctxId := by
  cases call with
  | hashUpdate k chunk =>
    have hk : ctxId ≠ k := fun h => hctx (congrArg some h.symm)
    exact Dict.get?_set_ne _ _ hk
  | hashFinish k =>
    have hk : ctxId ≠ k := fun h => hctx (congrArg some h.symm)
    simp only [machine, step]
    cases hget : c.hashContexts.get? k with
    | none => rw [hashFinish_of_none D hget]
    | some chunks =>
      rw [hashFinish_of_some D hget]
      exact (Dict.get?_erase _ k ctxId).trans (if_neg hk)
  | computeHash data => rfl
  | computeMac keyId data => rfl
  | simulateFailure fail => rfl

theorem finishes_iff (h : Holds c owed) (ctxId : String) :
    Finishes D c (owed ctxId) ctxId ↔
      ((c.hashContexts.get? ctxId).isSome → c.hsm.failMode = false) := by
  unfold Finishes
  cases hget : c.hashContexts.get? ctxId with
  | none =>
    rw [hashFinish_of_none D hget]
    exact iff_of_true ⟨⟨_, rfl⟩, h.getD ctxId⟩ nofun
  | some chunks =>
    have hchunks : owed ctxId = chunks := by
      rw [← h.getD ctxId, Dict.getD, hget, Option.getD_some]
    rw [hashFinish_of_some D hget, hchunks]
    cases hfail : c.hsm.failMode with
    | false => exact iff_of_true (by rw [CSM.computeHash_fst, hfail]; rfl) fun _ => rfl
    | true =>
      refine iff_of_false ?_ fun hf => Bool.noConfusion (hf rfl)
      rintro ⟨⟨text, htext⟩, -⟩
      cases htext

theorem served_iff (h : Holds c owed) (call : HashCall) :
    Served D (c, owed) call ↔ Undisturbed c call := by
  constructor
  · rintro hserved ctxId rfl
    exact (finishes_iff h ctxId).mp (hserved.finishes rfl)
  · intro hcalm
    refine ⟨fun {ctxId} hcall => ?_, fun ctxId hctx => step_others c call hctx⟩
    exact (finishes_iff h ctxId).mpr (hcalm ctxId hcall)

theorem holds_step (h : Holds c owed) {call : HashCall} (hcalm : Undisturbed c call) :
    Holds ((watched D).step (c, owed) call).2.1 ((watched D).step (c, owed) call).2.2 := by
  cases call with
  | hashUpdate ctxId chunk =>
    have hne : owed ctxId ++ [chunk] ≠ [] :=
      List.append_ne_nil_of_right_ne_nil _ (List.cons_ne_nil _ _)
    have hset : (c.hashUpdate ctxId chunk).hashContexts.get? ctxId =
        some (owed ctxId ++ [chunk]) := by
      rw [← h.getD ctxId]
      exact Dict.get?_set_self _ _ _
    exact h.of_update (hset.trans (if_neg hne).symm) fun k hk => Dict.get?_set_ne _ _ hk
  | hashFinish ctxId =>
    simp only [watched, Mealy.noting, machine, step]
    cases hget : c.hashContexts.get? ctxId with
    | none =>
      rw [hashFinish_of_none D hget]
      exact h
    | some chunks =>
      have hup : c.hsm.failMode = false := hcalm ctxId rfl (by rw [hget]; rfl)
      rw [hashFinish_of_some D hget, hup]
      refine h.of_update ?_ fun k hk => ?_
      · exact (Dict.get?_erase _ ctxId ctxId).trans (if_pos rfl)
      · exact (Dict.get?_erase _ ctxId k).trans (if_neg hk)
  | computeHash data => exact h
  | computeMac keyId data => exact h
  | simulateFailure fail => exact h

/-- **A run serves its streaming hashes just where it finishes none while the HSM fails.** -/
theorem served_run_iff (D : Digests) (hsm : HSM) (calls : List HashCall) :
    (watched D).Meets (Served D) (new hsm, fun _ => []) calls ↔
      (machine D).Meets Undisturbed (new hsm) calls := by
  rw [← Mealy.noting_meets note (new hsm, fun _ => []) calls]
  refine Mealy.meets_congr (I := fun p _ => Holds p.1 p.2) ?_ (holds_new hsm)
  intro p call calls h
  refine ⟨served_iff h call, fun hserved => holds_step h ((served_iff h call).mp hserved)⟩

def disturbedCalls : List HashCall :=
  [.hashUpdate "fw" [1], .simulateFailure true, .hashFinish "fw", .simulateFailure false,
    .hashUpdate "fw" [2], .hashFinish "fw"]

theorem disturbed_not_served :
    (∀ (D : Digests) (urandom : Nat → Bytes),
      (machine D).outputs (new (HSM.new urandom)) disturbedCalls =
        [.ok none, .ok none, .error (.hsmError "unavailable"), .ok none, .ok none,
          .ok (some (D.sha256 [2]))]) ∧
    ¬∀ (D : Digests) (hsm : HSM) (calls : List HashCall),
      (watched D).Meets (Served D) (new hsm, fun _ => []) calls := by
  -- the failure is the HSM's own, and the hash in the end lacks the first chunk
  refine ⟨fun D urandom => rfl, fun h => ?_⟩
  obtain ⟨-, -, hserved, -⟩ := h .standard (HSM.new fun _ => []) disturbedCalls
  obtain ⟨⟨text, htext⟩, -⟩ := hserved.finishes rfl
  cases htext

end SecOC.HashingCSM
