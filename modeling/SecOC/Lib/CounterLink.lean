import SecOC.Lib.Runs
import Mathlib.Tactic.Linarith

/-! A counter protocol over a network that loses, repeats and reorders. A message carries one more
than the counter its sender last heard of; the receiver takes a message whose counter lies above
its own, within a window, and reports its counter back. Reports arrive late, or never, too. -/

/-- `sent` and `reported` hold whatever was ever put on the network. -/
structure CounterLink (α : Type*) where
  sender : Int
  receiver : Int
  sent : List (Int × α)
  reported : List Int

namespace CounterLink
variable {α : Type*}

inductive Op (α : Type*)
  | send (a : α)
  | deliver (i : Nat)
  | report
  | resync (i : Nat)

inductive Event (α : Type*)
  | sent (a : α)
  | accepted (a : α)
  | refused
  | reported
  | resynced

def Event.sent? : Event α → Option α
  | .sent a => some a
  | _ => none

def Event.accepted? : Event α → Option α
  | .accepted a => some a
  | _ => none

def Event.isResync : Event α → Bool
  | .resynced => true
  | _ => false

def acceptedOf (es : List (Event α)) : List α := es.filterMap Event.accepted?

def sentOf (es : List (Event α)) : List α := es.filterMap Event.sent?

def resyncsOf (es : List (Event α)) : Nat := es.countP Event.isResync

def deliver (window : Int) (l : CounterLink α) (i : Nat) : Event α × CounterLink α :=
  match l.sent[i]? with
  | none => (.refused, l)
  | some (v, a) =>
    if l.receiver < v ∧ v ≤ l.receiver + window then (.accepted a, { l with receiver := v })
    else (.refused, l)

def resync (l : CounterLink α) (i : Nat) : Event α × CounterLink α :=
  match l.reported[i]? with
  | none => (.refused, l)
  | some v => (.resynced, { l with sender := v })

def step (window : Int) (l : CounterLink α) : Op α → Event α × CounterLink α
  | .send a => (.sent a, { l with sent := l.sent ++ [(l.sender + 1, a)] })
  | .deliver i => l.deliver window i
  | .report => (.reported, { l with reported := l.reported ++ [l.receiver] })
  | .resync i => l.resync i

def machine (window : Int) : Mealy (CounterLink α) (Op α) (Event α) := ⟨step window⟩

/-- The sender knows of no more than was accepted, and so does the network. -/
structure Behind (l : CounterLink α) : Prop where
  sender : l.sender ≤ l.receiver
  sent : ∀ m ∈ l.sent, m.1 ≤ l.receiver + 1
  reported : ∀ v ∈ l.reported, v ≤ l.receiver

def Open (l : CounterLink α) : Prop :=
  l.sender = l.receiver ∨ ∃ m ∈ l.sent, m.1 = l.receiver + 1

variable {window : Int} {l : CounterLink α}

theorem deliver_cases (window : Int) (l : CounterLink α) (i : Nat) :
    (∃ v a, l.sent[i]? = some (v, a) ∧ l.receiver < v ∧ v ≤ l.receiver + window ∧
      l.deliver window i = (.accepted a, { l with receiver := v })) ∨
    l.deliver window i = (.refused, l) := by
  unfold deliver
  cases hi : l.sent[i]? with
  | none => exact .inr rfl
  | some m =>
    obtain ⟨v, a⟩ := m
    by_cases hv : l.receiver < v ∧ v ≤ l.receiver + window
    · exact .inl ⟨v, a, rfl, hv.1, hv.2, if_pos hv⟩
    · exact .inr (if_neg hv)

theorem resync_cases (l : CounterLink α) (i : Nat) :
    (∃ v ∈ l.reported, l.resync i = (.resynced, { l with sender := v })) ∨
    l.resync i = (.refused, l) := by
  unfold resync
  cases hi : l.reported[i]? with
  | none => exact .inr rfl
  | some v => exact .inl ⟨v, List.mem_of_getElem? hi, rfl⟩

namespace Behind

theorem send (h : l.Behind) (a : α) :
    ({ l with sent := l.sent ++ [(l.sender + 1, a)] } : CounterLink α).Behind where
  sender := h.sender
  sent m hm := by
    rcases List.mem_append.mp hm with hm | hm
    · exact h.sent m hm
    · rw [List.mem_singleton.mp hm]
      exact Int.add_le_add_right h.sender 1
  reported := h.reported

theorem accept (h : l.Behind) {i : Nat} {v : Int} {a : α} (hi : l.sent[i]? = some (v, a))
    (hv : l.receiver < v) : v = l.receiver + 1 ∧
      ({ l with receiver := v } : CounterLink α).Behind ∧
      ¬({ l with receiver := v } : CounterLink α).Open := by
  -- the receiver has taken the one counter that it was still open for
  have hle : v ≤ l.receiver + 1 := h.sent (v, a) (List.mem_of_getElem? hi)
  have hs := h.sender
  refine ⟨by linarith, ⟨?_, fun m hm => ?_, fun u hu => ?_⟩, ?_⟩
  · exact hs.trans hv.le
  · exact (h.sent m hm).trans (by linarith)
  · exact (h.reported u hu).trans hv.le
  · rintro (heq | ⟨m, hm, heq⟩)
    · exact absurd heq (hs.trans_lt hv).ne
    · have hm' := h.sent m hm
      have heq' : m.1 = v + 1 := heq
      linarith

theorem report (h : l.Behind) :
    ({ l with reported := l.reported ++ [l.receiver] } : CounterLink α).Behind where
  sender := h.sender
  sent := h.sent
  reported v hv := by
    rcases List.mem_append.mp hv with hv | hv
    · exact h.reported v hv
    · rw [List.mem_singleton.mp hv]

theorem resync (h : l.Behind) {v : Int} (hv : v ∈ l.reported) :
    ({ l with sender := v } : CounterLink α).Behind where
  sender := h.reported v hv
  sent := h.sent
  reported := h.reported

end Behind

theorem Open.of_send {a : α}
    (h : ({ l with sent := l.sent ++ [(l.sender + 1, a)] } : CounterLink α).Open) : l.Open := by
  rcases h with h | ⟨m, hm, heq⟩
  · exact .inl h
  · rcases List.mem_append.mp hm with hm | hm
    · exact .inr ⟨m, hm, heq⟩
    · rw [List.mem_singleton.mp hm] at heq
      exact .inl (add_right_cancel heq)

def OpenFrom (l : CounterLink α) (k : Nat) : Prop :=
  k ≤ l.sent.length ∧ ∀ i v a, l.sent[i]? = some (v, a) → l.receiver < v → k ≤ i

theorem OpenFrom.send {k : Nat} (h : l.OpenFrom k) (m : Int × α) :
    ({ l with sent := l.sent ++ [m] } : CounterLink α).OpenFrom k := by
  refine ⟨?_, fun i v a hi hv => ?_⟩
  · rw [List.length_append]
    exact h.1.trans (Nat.le_add_right _ _)
  · by_cases hlt : i < l.sent.length
    · rw [List.getElem?_append_left hlt] at hi
      exact h.2 i v a hi hv
    · exact h.1.trans (not_lt.mp hlt)

theorem OpenFrom.accept (hb : l.Behind) {i : Nat} {v : Int} {a : α}
    (hi : l.sent[i]? = some (v, a)) (hv : l.receiver < v) :
    ({ l with receiver := v } : CounterLink α).OpenFrom (i + 1) := by
  refine ⟨(List.getElem?_eq_some_iff.mp hi).1, fun j u b hj hu => ?_⟩
  have hle : u ≤ l.receiver + 1 := hb.sent (u, b) (List.mem_of_getElem? hj)
  have hlt : v < u := hu
  linarith [(hb.accept hi hv).1]

theorem accepted_sublist (hb : l.Behind) {k : Nat} (hk : l.OpenFrom k) (ops : List (Op α)) :
    (acceptedOf ((machine window).outputs l ops)).Sublist
      ((l.sent.drop k).map Prod.snd ++ sentOf ((machine window).outputs l ops)) := by
  induction ops generalizing l k with
  | nil => exact List.nil_sublist _
  | cons op ops ih =>
    cases op with
    | send a =>
      have h := ih (hb.send a) (hk.send (l.sender + 1, a))
      have hdrop : (l.sent ++ [(l.sender + 1, a)]).drop k =
          l.sent.drop k ++ [(l.sender + 1, a)] := List.drop_append_of_le_length hk.1
      rw [hdrop, List.map_append, List.append_assoc] at h
      exact h
    | deliver i =>
      rcases deliver_cases window l i with ⟨v, a, hi, hv, -, heq⟩ | heq
      · have hstep : (machine window).step l (.deliver i) =
            (.accepted a, { l with receiver := v }) := heq
        -- what is accepted next lies behind the message just taken
        have hrest := ih (hb.accept hi hv).2.1 (.accept hb hi hv)
        obtain ⟨hlt, hget⟩ := List.getElem?_eq_some_iff.mp hi
        have hhere : l.sent.drop i = (v, a) :: l.sent.drop (i + 1) := by
          rw [List.drop_eq_getElem_cons hlt, hget]
        have hfrom : (l.sent.drop i).Sublist (l.sent.drop k) :=
          List.drop_sublist_drop_left l.sent (hk.2 i v a hi hv)
        rw [hhere] at hfrom
        rw [Mealy.outputs, hstep]
        exact (hrest.cons_cons a).trans ((hfrom.map Prod.snd).append_right _)
      · have hstep : (machine window).step l (.deliver i) = (.refused, l) := heq
        rw [Mealy.outputs, hstep]
        exact ih hb hk
    | report => exact ih hb.report hk
    | resync i =>
      rcases resync_cases l i with ⟨v, hv, heq⟩ | heq
      · have hstep : (machine window).step l (.resync i) =
          (.resynced, { l with sender := v }) := heq
        rw [Mealy.outputs, hstep]
        exact ih (hb.resync hv) hk
      · have hstep : (machine window).step l (.resync i) = (.refused, l) := heq
        rw [Mealy.outputs, hstep]
        exact ih hb hk

theorem accepted_length_le (hb : l.Behind) (ops : List (Op α)) :
    (acceptedOf ((machine window).outputs l ops)).length ≤
        resyncsOf ((machine window).outputs l ops) + 1 ∧
      (¬l.Open → (acceptedOf ((machine window).outputs l ops)).length ≤
        resyncsOf ((machine window).outputs l ops)) := by
  -- of one state of the sender's knowledge at most one message is ever taken
  induction ops generalizing l with
  | nil => exact ⟨Nat.zero_le _, fun _ => le_rfl⟩
  | cons op ops ih =>
    cases op with
    | send a =>
      obtain ⟨hle, hclosed⟩ := ih (hb.send a)
      exact ⟨hle, fun hopen => hclosed fun h => hopen h.of_send⟩
    | deliver i =>
      rcases deliver_cases window l i with ⟨v, a, hi, hv, -, heq⟩ | heq
      · have hstep : (machine window).step l (.deliver i) =
            (.accepted a, { l with receiver := v }) := heq
        obtain ⟨hv', hb', hshut⟩ := hb.accept hi hv
        have hrest := (ih hb').2 hshut
        rw [Mealy.outputs, hstep]
        refine ⟨Nat.succ_le_succ hrest, fun hopen => ?_⟩
        exact absurd (.inr ⟨(v, a), List.mem_of_getElem? hi, hv'⟩) hopen
      · have hstep : (machine window).step l (.deliver i) = (.refused, l) := heq
        rw [Mealy.outputs, hstep]
        exact ih hb
    | report => exact ih hb.report
    | resync i =>
      rcases resync_cases l i with ⟨v, hv, heq⟩ | heq
      · have hstep : (machine window).step l (.resync i) =
          (.resynced, { l with sender := v }) := heq
        have hrest := (ih (hb.resync hv)).1
        rw [Mealy.outputs, hstep, resyncsOf, List.countP_cons_of_pos rfl]
        exact ⟨hrest.trans (Nat.le_succ _), fun _ => hrest⟩
      · have hstep : (machine window).step l (.resync i) = (.refused, l) := heq
        rw [Mealy.outputs, hstep]
        exact ih hb

end CounterLink
