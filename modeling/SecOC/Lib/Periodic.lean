import Mathlib.Algebra.Order.Group.Basic
import Mathlib.Data.List.Chain

/-! A periodic timer that is looked at from time to time: it fires when a period has passed since
it last did. How far its firings lie apart, however irregular the looks. -/

namespace Periodic
variable {α : Type*} [AddCommGroup α] [LinearOrder α] [IsOrderedAddMonoid α] {period : α}

def firings (period : α) : α → List α → List α
  | _, [] => []
  | last, t :: ts =>
    if period ≤ t - last then t :: firings period t ts else firings period last ts

omit [IsOrderedAddMonoid α] in
theorem firings_isChain (last : α) (ts : List α) :
    (last :: firings period last ts).IsChain (fun a b => period ≤ b - a) := by
  induction ts generalizing last with
  | nil => exact List.isChain_singleton last
  | cons t ts ih =>
    rw [firings]
    split_ifs with hdue
    · exact List.isChain_cons_cons.mpr ⟨hdue, ih t⟩
    · exact ih last

theorem firings_pairwise (hperiod : 0 ≤ period) (last : α) (ts : List α) :
    (last :: firings period last ts).Pairwise (fun a b => period ≤ b - a) := by
  have htrans : ∀ {a b c : α}, period ≤ b - a → period ≤ c - b → period ≤ c - a := by
    intro a b c hab hbc
    calc period ≤ b - a := hab
      _ ≤ c - b + (b - a) := le_add_of_nonneg_left (hperiod.trans hbc)
      _ = c - a := sub_add_sub_cancel c b a
  have : Trans (fun a b : α => period ≤ b - a) (fun a b => period ≤ b - a)
      (fun a b => period ≤ b - a) := ⟨htrans⟩
  exact (firings_isChain last ts).pairwise

theorem length_nsmul_le {last u : α} {ts : List α} (hlast : last ≤ u) (hts : ∀ t ∈ ts, t ≤ u) :
    (firings period last ts).length • period ≤ u - last := by
  -- the firings up to `u` fit into the time from the last one before them to `u`
  induction ts generalizing last with
  | nil =>
    rw [firings, List.length_nil, zero_nsmul]
    exact sub_nonneg.mpr hlast
  | cons t ts ih =>
    obtain ⟨ht, hrest⟩ := List.forall_mem_cons.mp hts
    rw [firings]
    split_ifs with hdue
    · rw [List.length_cons, succ_nsmul, ← sub_add_sub_cancel u t last]
      exact add_le_add (ih ht hrest) hdue
    · exact ih hlast hrest

/-- A timer that is looked at every `g` is never late by more than that. -/
theorem firings_gaps (hperiod : 0 < period) {last now g : α} {ts : List α}
    (hnow : now - last < period) (hts : (now :: ts).IsChain (fun a b => b - a ≤ g)) :
    (last :: firings period last ts).IsChain (fun a b => b - a ≤ period + g) := by
  induction ts generalizing last now with
  | nil => exact List.isChain_singleton last
  | cons t ts ih =>
    obtain ⟨hstep, hrest⟩ := List.isChain_cons_cons.mp hts
    rw [firings]
    split_ifs with hdue
    · have hgap : t - last ≤ period + g := by
        rw [← sub_add_sub_cancel t now last, add_comm period]
        exact add_le_add hstep hnow.le
      have hfired : t - t < period := by rwa [sub_self]
      exact List.isChain_cons_cons.mpr ⟨hgap, ih hfired hrest⟩
    · exact ih (not_le.mp hdue) hrest

end Periodic
