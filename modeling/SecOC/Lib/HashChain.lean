import Mathlib.Data.List.Basic
import Mathlib.Data.List.Induction

/-! Hash chains: every entry is kept with the hash of itself and the hash before it. -/

namespace HashChain
variable {η ε ω : Type*}

def last (g : η) : List (ε × η) → η
  | [] => g
  | (_, h) :: l => last h l

variable (hash : η → ε → Except ω η)

def Linked (g : η) : List (ε × η) → Prop
  | [] => True
  | (e, h) :: l => hash g e = .ok h ∧ Linked h l

/-- No two chains from `g`, the empty one included, end in the same hash. -/
def CollisionFree (g : η) : Prop :=
  ∀ l l', Linked hash g l → Linked hash g l' → last g l = last g l' → l = l'

variable {hash} {g : η} {l l' : List (ε × η)}

theorem last_append (g : η) (l l' : List (ε × η)) : last g (l ++ l') = last (last g l) l' := by
  induction l generalizing g with
  | nil => rfl
  | cons a l ih => exact ih a.2

@[simp] theorem last_snoc (g : η) (l : List (ε × η)) (e : ε) (h : η) :
    last g (l ++ [(e, h)]) = h := by
  rw [last_append]
  rfl

theorem last_drop {n : Nat} (hn : n < l.length) : last g (l.drop n) = last g l := by
  conv_rhs => rw [← List.take_append_drop n l, last_append]
  rw [List.drop_eq_getElem_cons hn, last, last]

theorem linked_append :
    Linked hash g (l ++ l') ↔ Linked hash g l ∧ Linked hash (last g l) l' := by
  induction l generalizing g with
  | nil => exact ⟨fun h => ⟨trivial, h⟩, fun h => h.2⟩
  | cons a l ih =>
    obtain ⟨e, h⟩ := a
    rw [List.cons_append, Linked, ih, Linked, and_assoc]
    rfl

theorem linked_snoc {e : ε} {h : η} :
    Linked hash g (l ++ [(e, h)]) ↔ Linked hash g l ∧ hash (last g l) e = .ok h := by
  rw [linked_append, Linked, Linked, and_true]

theorem Linked.of_prefix (h : Linked hash g l) (hp : l' <+: l) : Linked hash g l' := by
  obtain ⟨t, rfl⟩ := hp
  exact (linked_append.mp h).1

theorem Linked.drop_iff {n : Nat} (hl : Linked hash g l) (hn : n < l.length) :
    Linked hash g (l.drop n) ↔ hash g l[n].1 = .ok l[n].2 := by
  -- the rest of a chain is a chain from the same start exactly when its first entry also hashes to
  -- its stored value from there
  have hsplit : l.take n ++ l[n] :: l.drop (n + 1) = l := by
    rw [← List.drop_eq_getElem_cons hn, List.take_append_drop]
  have hrest : Linked hash l[n].2 (l.drop (n + 1)) := by
    rw [← hsplit] at hl
    exact (linked_append.mp hl).2.2
  rw [List.drop_eq_getElem_cons hn]
  exact and_iff_left hrest

/-- **Tamper evidence.** A chain whose stored hashes all come from another chain is an initial
part of it. -/
theorem CollisionFree.prefix_of_hashes (hfree : CollisionFree hash g) (hl : Linked hash g l)
    (hl' : Linked hash g l') (hsub : ∀ a ∈ l', a.2 ∈ l.map Prod.snd) : l' <+: l := by
  cases l' using List.reverseRecOn with
  | nil => exact List.nil_prefix
  | append_singleton r a =>
    obtain ⟨b, hb, hba⟩ := List.mem_map.mp (hsub a (by simp))
    obtain ⟨p, q, rfl⟩ := List.append_of_mem hb
    have hp : p ++ [b] <+: p ++ b :: q := ⟨q, by simp⟩
    have hlast : last g (r ++ [a]) = last g (p ++ [b]) := by
      rw [last_snoc, last_snoc, hba]
    rwa [hfree _ _ hl' (hl.of_prefix hp) hlast]

section Injective
variable {S : η → Prop} (hg : S g) (hstep : ∀ {p e h}, hash p e = .ok h → S h)
include hg hstep

theorem Linked.last_of (hl : Linked hash g l) : S (last g l) := by
  cases l using List.reverseRecOn with
  | nil => exact hg
  | append_singleton r a =>
    rw [last_snoc]
    exact hstep (linked_snoc.mp hl).2

theorem CollisionFree.of_injective
    (hinj : ∀ {p p' e e' h}, S p → S p' → hash p e = .ok h → hash p' e' = .ok h →
      p = p' ∧ e = e')
    (hfresh : ∀ p e, hash p e ≠ .ok g) : CollisionFree hash g := by
  have hnil : ∀ {r a}, Linked hash g (r ++ [a]) → last g (r ++ [a]) ≠ g := by
    intro r a hl hlast
    have ha := (linked_snoc.mp hl).2
    rw [last_snoc] at hlast
    exact hfresh _ _ (hlast ▸ ha)
  intro l
  induction l using List.reverseRecOn with
  | nil =>
    intro l' _ hl' hlast
    cases l' using List.reverseRecOn with
    | nil => rfl
    | append_singleton r' b => exact absurd hlast.symm (hnil hl')
  | append_singleton r a ih =>
    intro l' hl hl' hlast
    cases l' using List.reverseRecOn with
    | nil => exact absurd hlast (hnil hl)
    | append_singleton r' b =>
      obtain ⟨hr, ha⟩ := linked_snoc.mp hl
      obtain ⟨hr', hb⟩ := linked_snoc.mp hl'
      rw [last_snoc, last_snoc] at hlast
      obtain ⟨hprev, he⟩ := hinj (hr.last_of hg hstep) (hr'.last_of hg hstep) ha (hlast ▸ hb)
      rw [ih r' hr hr' hprev, Prod.ext he hlast]

end Injective

end HashChain
