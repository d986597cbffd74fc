import Mathlib.Data.List.Sort

/-! What several senders owe one receiver. As long as at most one of them owes it anything, the
receiver gets everything that was promised, once and in order. -/

/-- What the receiver has got, what each sender still owes it, what each sender has taken on, and
what has been reported as delivered. -/
structure Ledger (τ ε : Type*) where
  got : List ε
  owed : τ → List ε
  promised : τ → List ε
  completed : List ε

namespace Ledger
variable {τ ε : Type*}

def deliver (l : Ledger τ ε) (is : List ε) : Ledger τ ε := { l with got := l.got ++ is }

def complete (l : Ledger τ ε) (is : List ε) : Ledger τ ε :=
  { l with completed := l.completed ++ is }

structure Fair [LT ε] (l : Ledger τ ε) : Prop where
  increasing : l.got.Pairwise (· < ·)
  sorted : ∀ t, (l.got ++ l.owed t).Pairwise (· < ·)
  covers : ∀ t, ∀ i ∈ l.promised t, i ∈ l.got ∨ i ∈ l.owed t
  unique : ∀ {t t'}, l.owed t ≠ [] → l.owed t' ≠ [] → t = t'
  done : ∀ i ∈ l.completed, i ∈ l.got

theorem fair_of_nil [LT ε] {l : Ledger τ ε} (hgot : l.got = []) (howed : ∀ t, l.owed t = [])
    (hpromised : ∀ t, l.promised t = []) (hcompleted : l.completed = []) : l.Fair where
  increasing := hgot ▸ List.Pairwise.nil
  sorted t := by
    rw [hgot, howed t]
    exact List.Pairwise.nil
  covers t i hi := nomatch hpromised t ▸ hi
  unique {t _} ht := absurd (howed t) ht
  done i hi := nomatch hcompleted ▸ hi

/-- Of everything there was to send, the receiver has got all that was reported as delivered. -/
theorem Fair.filter_completed [Preorder ε] [DecidableEq ε] {l : Ledger τ ε} (h : l.Fair)
    {all : List ε} (hall : all.Pairwise (· < ·)) (hgot : ∀ i ∈ l.got, i ∈ all) :
    l.got.filter (· ∈ l.completed) = all.filter (· ∈ l.completed) := by
  apply (h.increasing.filter _).eq_of_mem_iff (hall.filter _)
  intro i
  simp only [List.mem_filter, decide_eq_true_eq]
  constructor
  · rintro ⟨hi, hcompleted⟩
    exact ⟨hgot i hi, hcompleted⟩
  · rintro ⟨-, hcompleted⟩
    exact ⟨h.done i hcompleted, hcompleted⟩

variable [DecidableEq τ]

def assign (l : Ledger τ ε) (t : τ) (owed promised : List ε) : Ledger τ ε :=
  { l with
    owed := Function.update l.owed t owed
    promised := Function.update l.promised t promised }

variable {l : Ledger τ ε} {t : τ} {owed promised is rest batch : List ε}

theorem assign_assign (owed' promised' : List ε) :
    (l.assign t owed promised).assign t owed' promised' = l.assign t owed' promised' := by
  simp [assign]

theorem assign_congr {l' : Ledger τ ε} (hgot : l'.got = l.got)
    (howed : ∀ t', t' ≠ t → l'.owed t' = l.owed t')
    (hpromised : ∀ t', t' ≠ t → l'.promised t' = l.promised t')
    (hcompleted : l'.completed = l.completed) :
    l'.assign t owed promised = l.assign t owed promised := by
  have hupdate : ∀ {f g : τ → List ε} (x : List ε), (∀ t', t' ≠ t → f t' = g t') →
      Function.update f t x = Function.update g t x := by
    intro f g x h
    funext t'
    by_cases he : t' = t
    · subst he
      rw [Function.update_self, Function.update_self]
    · rw [Function.update_of_ne he, Function.update_of_ne he, h t' he]
  unfold assign
  rw [hgot, hcompleted, hupdate owed howed, hupdate promised hpromised]

section Rules
variable [LT ε]

theorem Fair.charge (h : l.Fair) (hbatch : (l.got ++ batch).Pairwise (· < ·))
    (hothers : batch ≠ [] → ∀ t', t' ≠ t → l.owed t' = []) : (l.assign t batch batch).Fair where
  increasing := h.increasing
  sorted t' := by
  -- a sender takes on a batch behind everything got so far, while no other owes anything
    by_cases he : t' = t
    · subst he
      simpa only [assign, Function.update_self] using hbatch
    · simpa only [assign, Function.update_of_ne he] using h.sorted t'
  covers t' i hi := by
    by_cases he : t' = t
    · subst he
      simp only [assign, Function.update_self] at hi ⊢
      exact Or.inr hi
    · simp only [assign, Function.update_of_ne he] at hi ⊢
      exact h.covers t' i hi
  unique {t₁ t₂} h₁ h₂ := by
    by_cases he₁ : t₁ = t
    · by_cases he₂ : t₂ = t
      · exact he₁.trans he₂.symm
      · subst he₁
        simp only [assign, Function.update_self, Function.update_of_ne he₂] at h₁ h₂
        exact absurd (hothers h₁ t₂ he₂) h₂
    · by_cases he₂ : t₂ = t
      · subst he₂
        simp only [assign, Function.update_self, Function.update_of_ne he₁] at h₁ h₂
        exact absurd (hothers h₂ t₁ he₁) h₁
      · simp only [assign, Function.update_of_ne he₁, Function.update_of_ne he₂] at h₁ h₂
        exact h.unique h₁ h₂
  done := h.done

theorem Fair.settle (h : l.Fair) (ho : l.owed t = is ++ rest) :
    ((l.deliver is).assign t rest (l.promised t)).Fair where
  increasing := by
  -- a sender delivers the front of what it owes
    have hsorted := h.sorted t
    rw [ho, ← List.append_assoc] at hsorted
    exact (List.pairwise_append.mp hsorted).1
  sorted t' := by
    by_cases he : t' = t
    · subst he
      have hsorted := h.sorted t'
      rw [ho, ← List.append_assoc] at hsorted
      simpa only [assign, deliver, Function.update_self] using hsorted
    · simp only [assign, deliver, Function.update_of_ne he]
      rcases List.eq_nil_or_concat is with rfl | ⟨_, _, rfl⟩
      · simpa using h.sorted t'
      · have hnil : l.owed t' = [] := by
          by_contra hne
          exact he (h.unique hne (by simp [ho]))
        have hsorted := h.sorted t
        rw [ho, ← List.append_assoc] at hsorted
        rw [hnil, List.append_nil]
        exact (List.pairwise_append.mp hsorted).1
  covers t' i hi := by
    by_cases he : t' = t
    · subst he
      simp only [assign, deliver, Function.update_self] at hi ⊢
      rw [List.mem_append, or_assoc, ← List.mem_append, ← ho]
      exact h.covers t' i hi
    · simp only [assign, deliver, Function.update_of_ne he] at hi ⊢
      exact (h.covers t' i hi).imp_left (List.mem_append_left is)
  unique {t₁ t₂} h₁ h₂ := by
    have howed : ∀ {t'}, ((l.deliver is).assign t rest (l.promised t)).owed t' ≠ [] →
        l.owed t' ≠ [] := by
      intro t' hne
      by_cases he : t' = t
      · subst he
        simp only [assign, Function.update_self] at hne
        simp [ho, hne]
      · simpa only [assign, deliver, Function.update_of_ne he] using hne
    exact h.unique (howed h₁) (howed h₂)
  done i hi := List.mem_append_left is (h.done i hi)

theorem Fair.cancel (h : l.Fair) (t : τ) : (l.assign t [] []).Fair :=
  h.charge (by simpa using h.increasing) nofun

theorem Fair.cancel_assigned (h : (l.assign t owed promised).Fair) : (l.assign t [] []).Fair := by
  have hfair := h.cancel t
  rwa [assign_assign] at hfair

theorem Fair.close (h : (l.assign t [] promised).Fair) :
    ((l.assign t [] []).complete promised).Fair where
  increasing := h.increasing
  sorted := h.cancel_assigned.sorted
  covers := h.cancel_assigned.covers
  unique := h.cancel_assigned.unique
  done i hi := by
  -- a sender that owes nothing any more reports what it had promised
    rcases List.mem_append.mp hi with hi | hi
    · exact h.done i hi
    · have hcovers := h.covers t i
      simp only [assign, Function.update_self] at hcovers
      exact (hcovers hi).resolve_right List.not_mem_nil

end Rules

end Ledger
