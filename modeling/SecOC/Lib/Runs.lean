import Mathlib.Data.List.Basic

/-! Runs of a Mealy machine: what a step preserves, a run preserves, and
the unwinding rule by which two runs agree on everything a part of the inputs can see. -/

structure Mealy (σ ι ο : Type*) where
  step : σ → ι → ο × σ

namespace Mealy
variable {σ ι ο : Type*} (M : Mealy σ ι ο)

def exec : σ → List ι → σ
  | s, [] => s
  | s, i :: is => exec (M.step s i).2 is

def outputs : σ → List ι → List ο
  | _, [] => []
  | s, i :: is => (M.step s i).1 :: outputs (M.step s i).2 is

@[simp] theorem exec_nil (s : σ) : M.exec s [] = s := rfl

@[simp] theorem exec_cons (s : σ) (i : ι) (is : List ι) :
    M.exec s (i :: is) = M.exec (M.step s i).2 is := rfl

theorem exec_append (s : σ) (is js : List ι) :
    M.exec s (is ++ js) = M.exec (M.exec s is) js := by
  induction is generalizing s with
  | nil => rfl
  | cons i is ih => exact ih (M.step s i).2

theorem exec_snoc (s : σ) (is : List ι) (i : ι) :
    M.exec s (is ++ [i]) = (M.step (M.exec s is) i).2 := by
  rw [exec_append, exec_cons, exec_nil]

theorem outputs_append (s : σ) (is js : List ι) :
    M.outputs s (is ++ js) = M.outputs s is ++ M.outputs (M.exec s is) js := by
  induction is generalizing s with
  | nil => rfl
  | cons i is ih => simp only [List.cons_append, outputs, exec_cons, ih]

@[simp] theorem length_outputs (s : σ) (is : List ι) : (M.outputs s is).length = is.length := by
  induction is generalizing s with
  | nil => rfl
  | cons i is ih => rw [outputs, List.length_cons, List.length_cons, ih]

theorem filterMap_snoc {α : Type*} (f : ο → Option α) (os : List ο) (o : ο) :
    (os ++ [o]).filterMap f = os.filterMap f ++ (f o).toList := by
  rw [List.filterMap_append]
  cases ho : f o with
  | none => rw [List.filterMap_cons_none ho, List.filterMap_nil, Option.toList_none]
  | some a => rw [List.filterMap_cons_some ho, List.filterMap_nil, Option.toList_some]

theorem outputs_take (s : σ) (is : List ι) (n : Nat) :
    M.outputs s (is.take n) = (M.outputs s is).take n := by
  induction is generalizing s n with
  | nil => simp [outputs]
  | cons i is ih =>
    cases n with
    | zero => rfl
    | succ n => simp only [List.take_succ_cons, outputs, ih]

variable {M}

theorem exec_preserves {I : σ → Prop} (h : ∀ s i, I s → I (M.step s i).2) {s : σ} (hs : I s)
    (is : List ι) : I (M.exec s is) := by
  induction is generalizing s with
  | nil => exact hs
  | cons i is ih => exact ih (h s i hs)

theorem forall_outputs {I : σ → Prop} {A : ο → Prop}
    (h : ∀ s i, I s → A (M.step s i).1 ∧ I (M.step s i).2) {s : σ} (hs : I s) (is : List ι) :
    ∀ o ∈ M.outputs s is, A o := by
  induction is generalizing s with
  | nil => exact List.forall_mem_nil _
  | cons i is ih => exact List.forall_mem_cons.mpr ⟨(h s i hs).1, ih (h s i hs).2⟩

/-- A preorder that relates a state to each of its successors relates it to all it reaches. -/
theorem exec_rel {R : σ → σ → Prop} (hrefl : ∀ s, R s s)
    (htrans : ∀ {a b c}, R a b → R b c → R a c) (h : ∀ s i, R s (M.step s i).2) (s : σ)
    (is : List ι) : R s (M.exec s is) := by
  apply exec_preserves _ (hrefl s)
  intro s' i hs'
  exact htrans hs' (h s' i)

variable (M) in
/-- Every step of a run is taken where `G` allows it. -/
def Meets (G : σ → ι → Prop) : σ → List ι → Prop
  | _, [] => True
  | s, i :: is => G s i ∧ Meets G (M.step s i).2 is

theorem meets_of_invariant {I : σ → Prop} {G : σ → ι → Prop}
    (h : ∀ s i, I s → G s i ∧ I (M.step s i).2) {s : σ} (hs : I s) (is : List ι) :
    M.Meets G s is := by
  induction is generalizing s with
  | nil => trivial
  | cons i is ih => exact ⟨(h s i hs).1, ih (h s i hs).2⟩

theorem meets_of_rel {R : σ → σ → Prop} (hrefl : ∀ s, R s s)
    (htrans : ∀ {a b c}, R a b → R b c → R a c) (h : ∀ s i, R s (M.step s i).2)
    {G : σ → ι → Prop} {s : σ} {is : List ι} (hG : ∀ s' i, R s' (M.exec s is) → G s' i) :
    M.Meets G s is := by
  induction is generalizing s with
  | nil => trivial
  | cons i is ih => exact ⟨hG s i (exec_rel hrefl htrans h s (i :: is)), ih hG⟩

theorem exec_of_meets {I : σ → Prop} {G : σ → ι → Prop}
    (h : ∀ {s i}, I s → G s i → I (M.step s i).2) {s : σ} (hs : I s) {is : List ι}
    (hG : M.Meets G s is) : I (M.exec s is) := by
  induction is generalizing s with
  | nil => exact hs
  | cons i is ih => exact ih (h hs hG.1) hG.2

theorem Meets.mono {G G' : σ → ι → Prop} (h : ∀ {s i}, G s i → G' s i) {s : σ} {is : List ι}
    (hG : M.Meets G s is) : M.Meets G' s is := by
  induction is generalizing s with
  | nil => trivial
  | cons i is ih => exact ⟨h hG.1, ih hG.2⟩

theorem Meets.and {G G' : σ → ι → Prop} {s : σ} {is : List ι} (hG : M.Meets G s is)
    (hG' : M.Meets G' s is) : M.Meets (fun s i => G s i ∧ G' s i) s is := by
  induction is generalizing s with
  | nil => trivial
  | cons i is ih => exact ⟨⟨hG.1, hG'.1⟩, ih hG.2 hG'.2⟩

instance Meets.decidable (G : σ → ι → Prop) [∀ s i, Decidable (G s i)] (s : σ) :
    (is : List ι) → Decidable (M.Meets G s is)
  | [] => isTrue trivial
  | i :: is =>
    have := Meets.decidable G (M.step s i).2 is
    inferInstanceAs (Decidable (G s i ∧ M.Meets G (M.step s i).2 is))

variable (M) in
def noting {η : Type*} (note : η → ι → ο → η) : Mealy (σ × η) ι ο where
  step p i := ((M.step p.1 i).1, (M.step p.1 i).2, note p.2 i (M.step p.1 i).1)

theorem noting_meets {η : Type*} (note : η → ι → ο → η) {G : σ → ι → Prop} (p : σ × η)
    (is : List ι) :
    (M.noting note).Meets (fun p i => G p.1 i) p is ↔ M.Meets G p.1 is := by
  induction is generalizing p with
  | nil => exact Iff.rfl
  | cons i is ih => exact and_congr Iff.rfl (ih _)

theorem meets_congr {I : σ → List ι → Prop} {G G' : σ → ι → Prop}
    (h : ∀ {s i is}, I s (i :: is) → (G s i ↔ G' s i) ∧ (G s i → I (M.step s i).2 is))
    {s : σ} {is : List ι} (hI : I s is) : M.Meets G s is ↔ M.Meets G' s is := by
  induction is generalizing s with
  | nil => exact Iff.rfl
  | cons i is ih =>
    obtain ⟨hG, hnext⟩ := h hI
    constructor
    · rintro ⟨hi, hrest⟩
      exact ⟨hG.mp hi, (ih (hnext hi)).mp hrest⟩
    · rintro ⟨hi, hrest⟩
      have hi' : G s i := hG.mpr hi
      exact ⟨hi', (ih (hnext hi')).mpr hrest⟩

/-- Two machines whose steps keep them related, where the second one's steps meet `G`, answer
alike over whole runs. -/
theorem simulation {τ ω : Type*} {N : Mealy τ ι ω} {R : σ → τ → Prop} {A : ο → ω → Prop}
    {G : τ → ι → Prop} (h : ∀ {s t i}, R s t → G t i →
      A (M.step s i).1 (N.step t i).1 ∧ R (M.step s i).2 (N.step t i).2)
    {s : σ} {t : τ} (hR : R s t) {is : List ι} (hG : N.Meets G t is) :
    List.Forall₂ A (M.outputs s is) (N.outputs t is) ∧ R (M.exec s is) (N.exec t is) := by
  induction is generalizing s t with
  | nil => exact ⟨List.Forall₂.nil, hR⟩
  | cons i is ih =>
    obtain ⟨hA, hR'⟩ := h hR hG.1
    obtain ⟨hrest, hend⟩ := ih hR' hG.2
    exact ⟨List.Forall₂.cons hA hrest, hend⟩

/-- If each step of a machine is a short run of another one, whose answers can be read off its
own, then its runs are runs of the other. -/
theorem refines {τ κ ω : Type*} {N : Mealy τ κ ω} {R : σ → τ → Prop} {G : σ → ι → Prop}
    {read : ο → List ω} (h : ∀ {s t i}, R s t → G s i →
      ∃ js, N.outputs t js = read (M.step s i).1 ∧ R (M.step s i).2 (N.exec t js))
    {s : σ} {t : τ} (hR : R s t) {is : List ι} (hG : M.Meets G s is) :
    ∃ js, N.outputs t js = (M.outputs s is).flatMap read ∧ R (M.exec s is) (N.exec t js) := by
  induction is generalizing s t with
  | nil => exact ⟨[], rfl, hR⟩
  | cons i is ih =>
    obtain ⟨js, ho, hR'⟩ := h hR hG.1
    obtain ⟨ks, hrest, hend⟩ := ih hR' hG.2
    refine ⟨js ++ ks, ?_, ?_⟩
    · rw [outputs_append, ho, hrest, outputs, List.flatMap_cons]
    · rwa [exec_append]

/-- A part of a machine, seen through its own inputs and outputs, runs as it does without the
others. -/
theorem outputs_filter {R : σ → σ → Prop} {G : ι → Prop} {own : ι → Bool} {shows : ο → Bool}
    (hown : ∀ {s t i}, R s t → G i → own i →
      shows (M.step s i).1 ∧ (M.step s i).1 = (M.step t i).1 ∧ R (M.step s i).2 (M.step t i).2)
    (hother : ∀ {s t i}, R s t → G i → own i = false →
      shows (M.step s i).1 = false ∧ R (M.step s i).2 t)
    {s t : σ} (hR : R s t) {is : List ι} (hG : ∀ i ∈ is, G i) :
    (M.outputs s is).filter shows = M.outputs t (is.filter own) ∧
      R (M.exec s is) (M.exec t (is.filter own)) := by
  induction is generalizing s t with
  | nil => exact ⟨rfl, hR⟩
  | cons i is ih =>
    obtain ⟨hi, hG⟩ := List.forall_mem_cons.mp hG
    cases howni : own i with
    | false =>
      obtain ⟨ho, hR'⟩ := hother hR hi howni
      rw [outputs, List.filter_cons_of_neg (ne_true_of_eq_false ho),
        List.filter_cons_of_neg (ne_true_of_eq_false howni)]
      exact ih hR' hG
    | true =>
      obtain ⟨hshows, ho, hR'⟩ := hown hR hi howni
      obtain ⟨hrest, hend⟩ := ih hR' hG
      rw [outputs, List.filter_cons_of_pos hshows, List.filter_cons_of_pos howni, outputs, ho,
        hrest]
      exact ⟨rfl, hend⟩

variable (M) in
def kept (keep : ι → ο → Bool) : σ → List ι → List ι
  | _, [] => []
  | s, i :: is =>
    if keep i (M.step s i).1 then i :: kept keep (M.step s i).2 is
    else kept keep (M.step s i).2 is

/-- Inputs that move a state to none that can be told from it can be left out of a run. -/
theorem outputs_kept {R : σ → σ → Prop} {keep : ι → ο → Bool}
    (hkeep : ∀ {s t i}, R s t → keep i (M.step s i).1 →
      (M.step t i).1 = (M.step s i).1 ∧ R (M.step s i).2 (M.step t i).2)
    (hskip : ∀ {s t i}, R s t → ¬keep i (M.step s i).1 → R (M.step s i).2 t)
    {s t : σ} (hR : R s t) (is : List ι) :
    M.outputs t (M.kept keep s is) =
        ((is.zip (M.outputs s is)).filter fun e => keep e.1 e.2).map Prod.snd ∧
      R (M.exec s is) (M.exec t (M.kept keep s is)) := by
  induction is generalizing s t with
  | nil => exact ⟨rfl, hR⟩
  | cons i is ih =>
    rw [kept, outputs, List.zip_cons_cons, List.filter_cons]
    by_cases hi : keep i (M.step s i).1
    · obtain ⟨ho, hR'⟩ := hkeep hR hi
      obtain ⟨hrest, hend⟩ := ih hR'
      rw [if_pos hi, if_pos hi, List.map_cons, outputs, ho, hrest]
      exact ⟨rfl, hend⟩
    · rw [if_neg hi, if_neg hi]
      exact ih (hskip hR hi)

theorem outputs_congr {R : σ → σ → Prop} (h : ∀ {s t} i, R s t →
      (M.step s i).1 = (M.step t i).1 ∧ R (M.step s i).2 (M.step t i).2)
    {s t : σ} (hR : R s t) (is : List ι) : M.outputs s is = M.outputs t is := by
  induction is generalizing s t with
  | nil => rfl
  | cons i is ih =>
    obtain ⟨ho, hR'⟩ := h i hR
    rw [outputs, outputs, ho, ih hR']

variable (M) (sees : ι → Bool)

def visibleOutputs : σ → List ι → List ο
  | _, [] => []
  | s, i :: is =>
    if sees i then (M.step s i).1 :: visibleOutputs (M.step s i).2 is
    else visibleOutputs (M.step s i).2 is

def Within (G : σ → Prop) : σ → List ι → Prop
  | _, [] => True
  | s, i :: is => G (M.step s i).2 ∧ Within G (M.step s i).2 is

variable {M} in
theorem within_of_rel {R : σ → σ → Prop} (hrefl : ∀ s, R s s)
    (htrans : ∀ {a b c}, R a b → R b c → R a c) (h : ∀ s i, R s (M.step s i).2) {G : σ → Prop}
    {s : σ} {is : List ι} (hG : ∀ s', R s' (M.exec s is) → G s') : Within M G s is := by
  induction is generalizing s with
  | nil => trivial
  | cons i is ih => exact ⟨hG _ (exec_rel hrefl htrans h _ is), ih hG⟩

/-- The step conditions of the unwinding rule: an unseen input moves neither side out of the
relation, and a seen input moves both sides alike, as long as the states reached satisfy `G`. -/
structure Unwinds (G : σ → Prop) (R : σ → σ → Prop) : Prop where
  left : ∀ {s t i}, sees i = false → R s t → G (M.step s i).2 → R (M.step s i).2 t
  right : ∀ {s t i}, sees i = false → R s t → G (M.step t i).2 → R s (M.step t i).2
  both : ∀ {s t i}, sees i = true → R s t → G (M.step s i).2 → G (M.step t i).2 →
    (M.step s i).1 = (M.step t i).1 ∧ R (M.step s i).2 (M.step t i).2

variable {M} {sees} {G : σ → Prop} {R : σ → σ → Prop}

theorem Unwinds.agree_of_unseen (h : Unwinds M sees G R) {s t : σ} (hR : R s t)
    {js : List ι} (hG : Within M G t js) (hjs : js.filter sees = []) :
    M.visibleOutputs sees t js = [] ∧ R s (M.exec t js) := by
  induction js generalizing t with
  | nil => exact ⟨rfl, hR⟩
  | cons j js ih =>
    have hj : sees j = false := by
      cases hj : sees j with
      | false => rfl
      | true => simp [hj] at hjs
    have hunseen : ¬sees j = true := by simp [hj]
    have hR' : R s (M.step t j).2 := h.right hj hR hG.1
    rw [List.filter_cons_of_neg hunseen] at hjs
    simpa only [visibleOutputs, exec_cons, hj, Bool.false_eq_true, if_false] using ih hR' hG.2 hjs

theorem Unwinds.reach (h : Unwinds M sees G R) {s t : σ} (hR : R s t) {i : ι} {ks js : List ι}
    (hG : Within M G t js) (hjs : js.filter sees = i :: ks) :
    ∃ t' js', R s t' ∧ Within M G t' (i :: js') ∧ js'.filter sees = ks ∧
      M.visibleOutputs sees t js = M.visibleOutputs sees t' (i :: js') ∧
      M.exec t js = M.exec t' (i :: js') := by
  induction js generalizing t with
  | nil => simp at hjs
  | cons j js ih =>
    cases hj : sees j with
    | false =>
      have hunseen : ¬sees j = true := by simp [hj]
      rw [List.filter_cons_of_neg hunseen] at hjs
      obtain ⟨t', js', hR', hG', hf, ho, he⟩ := ih (h.right hj hR hG.1) hG.2 hjs
      refine ⟨t', js', hR', hG', hf, ?_, he⟩
      simpa only [visibleOutputs, hj, Bool.false_eq_true, if_false] using ho
    | true =>
      rw [List.filter_cons_of_pos hj] at hjs
      obtain ⟨rfl, hf⟩ := List.cons.inj hjs
      exact ⟨t, js, hR, hG, hf, rfl, rfl⟩

/-- **Unwinding.** Two runs with the same seen inputs give the same outputs on them and end
in related states. -/
theorem Unwinds.agree (h : Unwinds M sees G R) {s t : σ} (hR : R s t) {is js : List ι}
    (hs : Within M G s is) (ht : Within M G t js) (hij : is.filter sees = js.filter sees) :
    M.visibleOutputs sees s is = M.visibleOutputs sees t js ∧
      R (M.exec s is) (M.exec t js) := by
  induction is generalizing s t js with
  | nil =>
    obtain ⟨ho, he⟩ := h.agree_of_unseen hR ht hij.symm
    exact ⟨ho.symm, he⟩
  | cons i is ih =>
    cases hi : sees i with
    | false =>
      have hunseen : ¬sees i = true := by simp [hi]
      have hR' : R (M.step s i).2 t := h.left hi hR hs.1
      rw [List.filter_cons_of_neg hunseen] at hij
      simpa only [visibleOutputs, exec_cons, hi, Bool.false_eq_true, if_false] using
        ih hR' hs.2 ht hij
    | true =>
      rw [List.filter_cons_of_pos hi] at hij
      obtain ⟨t', js', hR', ht', hf, ho, he⟩ := h.reach hR ht hij.symm
      obtain ⟨hout, hnext⟩ := h.both hi hR' hs.1 ht'.1
      obtain ⟨hrest, hend⟩ := ih hnext hs.2 ht'.2 hf.symm
      rw [ho, he]
      simp only [visibleOutputs, hi, if_true, hout, hrest, true_and]
      exact hend

end Mealy
