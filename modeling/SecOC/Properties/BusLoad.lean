import SecOC.Sim.BusScheduler
import Mathlib.Algebra.BigOperators.Fin
import Mathlib.Algebra.Order.BigOperators.Group.Finset
import Mathlib.Algebra.Order.Ring.Int
import Mathlib.Data.List.Pairwise

/-! The load the bus scheduler puts on the bus, for ticks at any times. Each entry is a periodic
timer that is looked at once a tick, whatever the other entries are. -/

namespace SecOC.BusScheduler
variable {PduId World Error : Type}

def run (s : BusScheduler PduId World Error) (w : World) (ticks : List Int) :
    List (BusTick Error) := machine.outputs (s, w) ticks

def firings (ticks : List Int) (run : List (BusTick Error)) (k : Nat) : List Int :=
  (ticks.zip run).flatMap fun p => List.replicate (p.2.calls.count k) p.1

/-- When the entry at place `k` fired last, 0 before it has. -/
def lastFiring (ticks : List Int) (run : List (BusTick Error)) (k : Nat) : Int :=
  (firings ticks run k).getLastD 0

def load (run : List (BusTick Error)) : Nat := (run.map fun t => t.calls.length).sum

def Returned (run : List (BusTick Error)) : Prop := ∀ t ∈ run, t.returned = .ok ()

/-- Running, and set up before the first tick. -/
structure Fresh (s : BusScheduler PduId World Error) : Prop where
  running : s.running = true
  unfired : ∀ e ∈ s.entries, e.lastFiredMs = 0
  periods : ∀ e ∈ s.entries, 1 ≤ e.periodMs

def alone (e : BusEntry PduId World Error) : BusScheduler PduId World Error :=
  (new.schedulePeriodic e.pduId e.periodMs e.callback).start

theorem fresh_new : Fresh (new.start : BusScheduler PduId World Error) :=
  ⟨rfl, List.forall_mem_nil _, List.forall_mem_nil _⟩

theorem Fresh.schedulePeriodic {s : BusScheduler PduId World Error} (hs : s.Fresh) (pduId : PduId)
    {periodMs : Int} (hperiod : 1 ≤ periodMs)
    (callback : PduId → World → Except Error Unit × World) :
    (s.schedulePeriodic pduId periodMs callback).Fresh where
  running := hs.running
  unfired := List.forall_mem_append.mpr ⟨hs.unfired, List.forall_mem_singleton.mpr rfl⟩
  periods := List.forall_mem_append.mpr ⟨hs.periods, List.forall_mem_singleton.mpr hperiod⟩

section Entry
variable {s : BusScheduler PduId World Error} {k : Nat} {e : BusEntry PduId World Error}

theorem run_cons (s : BusScheduler PduId World Error) (w : World) (t : Int) (ticks : List Int) :
    s.run w (t :: ticks) = (s.tick w t).1 :: (s.tick w t).2.1.run (s.tick w t).2.2 ticks := rfl

theorem firings_cons (t : Int) (ticks : List Int) (o : BusTick Error) (run : List (BusTick Error))
    (k : Nat) :
    firings (t :: ticks) (o :: run) k =
      List.replicate (o.calls.count k) t ++ firings ticks run k := rfl

theorem firings_snoc (t : Int) {ticks : List Int} (o : BusTick Error) {run : List (BusTick Error)}
    (hlength : ticks.length = run.length) (k : Nat) :
    firings (ticks ++ [t]) (run ++ [o]) k =
      firings ticks run k ++ List.replicate (o.calls.count k) t := by
  rw [firings, List.zip_append hlength, List.flatMap_append]
  exact congrArg (firings ticks run k ++ ·) (List.append_nil _)

theorem tick_entry (hs : s.running = true) (w : World) (nowMs : Int)
    (he : s.entries[k]? = some e) :
    (s.tick w nowMs).2.1.running = true ∧
    (((s.tick w nowMs).2.1.entries[k]? = some (e.after nowMs) ∧
        (s.tick w nowMs).1.calls.count k = (e.isDue nowMs).toNat) ∨
      (0 < k ∧ (s.tick w nowMs).1.returned ≠ .ok () ∧
        (s.tick w nowMs).2.1.entries[k]? = some e ∧ (s.tick w nowMs).1.calls.count k = 0)) := by
  have hentry := fireDue_entry (k := 0) nowMs w he
  rw [Nat.zero_add] at hentry
  rw [tick_of_running hs]
  exact ⟨hs, hentry⟩

theorem firings_eq (hs : s.running = true) (he : s.entries[k]? = some e) (w : World)
    (ticks : List Int) :
    ∃ looks, looks.Sublist ticks ∧
      firings ticks (s.run w ticks) k = Periodic.firings e.periodMs e.lastFiredMs looks ∧
      (Returned (s.run w ticks) → looks = ticks) := by
  induction ticks generalizing s w e with
  | nil => exact ⟨[], List.Sublist.refl _, rfl, fun _ => rfl⟩
  | cons t ticks ih =>
    rw [run_cons, firings_cons]
    obtain ⟨hs', ⟨he', hcount⟩ | ⟨-, hraised, he', hcount⟩⟩ := tick_entry hs w t he
    · obtain ⟨looks, hsub, hfirings, hlooks⟩ := ih hs' he' (s.tick w t).2.2
      refine ⟨t :: looks, hsub.cons_cons t, ?_, fun hall => ?_⟩
      · rw [hcount, hfirings, e.after_periodMs t, Periodic.firings, BusEntry.after, BusEntry.isDue]
        by_cases hdue : e.periodMs ≤ t - e.lastFiredMs <;> simp [hdue]
      · rw [hlooks (List.forall_mem_cons.mp hall).2]
    · obtain ⟨looks, hsub, hfirings, -⟩ := ih hs' he' (s.tick w t).2.2
      refine ⟨looks, hsub.cons t, ?_, fun hall => ?_⟩
      · rw [hcount, hfirings, List.replicate_zero, List.nil_append]
      · exact absurd (List.forall_mem_cons.mp hall).1 hraised

theorem entry_after (hs : s.running = true) (he : s.entries[k]? = some e) (w : World)
    (ticks : List Int) : ∃ e', (machine.exec (s, w) ticks).1.entries[k]? = some e' ∧
      e'.periodMs = e.periodMs ∧
      e'.lastFiredMs = (firings ticks (s.run w ticks) k).getLastD e.lastFiredMs ∧
      (machine.exec (s, w) ticks).1.running = true := by
  -- the mark of an entry is its last firing; and a tick that returns has looked at every entry
  induction ticks generalizing s w e with
  | nil => exact ⟨e, he, rfl, rfl, hs⟩
  | cons t ticks ih =>
    rw [run_cons, firings_cons, Mealy.exec_cons]
    obtain ⟨hs', ⟨he', hcount⟩ | ⟨-, -, he', hcount⟩⟩ := tick_entry hs w t he
    · obtain ⟨e', hend, hperiod, hmark, hrun⟩ := ih hs' he' (s.tick w t).2.2
      refine ⟨e', hend, hperiod.trans (e.after_periodMs t), ?_, hrun⟩
      rw [hmark, hcount, BusEntry.after]
      cases e.isDue t with
      | false => rfl
      | true => exact (List.getLastD_cons ..).symm
    · obtain ⟨e', hend, hperiod, hmark, hrun⟩ := ih hs' he' (s.tick w t).2.2
      refine ⟨e', hend, hperiod, ?_, hrun⟩
      rw [hmark, hcount, List.replicate_zero, List.nil_append]

theorem count_congr {s' : BusScheduler PduId World Error} {k' : Nat}
    {e' : BusEntry PduId World Error} (hs : s.running = true) (hs' : s'.running = true)
    (he : s.entries[k]? = some e) (he' : s'.entries[k']? = some e')
    (hperiod : e'.periodMs = e.periodMs) (hlast : e'.lastFiredMs = e.lastFiredMs)
    (w w' : World) {ticks : List Int} (hall : k = 0 ∨ Returned (s.run w ticks))
    (hall' : k' = 0 ∨ Returned (s'.run w' ticks)) :
    (s.run w ticks).map (fun t => t.calls.count k) =
      (s'.run w' ticks).map (fun t => t.calls.count k') := by
  induction ticks generalizing s s' e e' w w' with
  | nil => rfl
  | cons t ticks ih =>
    rw [run_cons] at hall hall' ⊢
    rw [run_cons, List.map_cons, List.map_cons]
    obtain ⟨hrun, ⟨hnext, hcount⟩ | ⟨hk, hraised, -⟩⟩ := tick_entry hs w t he
    · obtain ⟨hrun', ⟨hnext', hcount'⟩ | ⟨hk', hraised', -⟩⟩ := tick_entry hs' w' t he'
      · have hdue : e'.isDue t = e.isDue t := by
          rw [BusEntry.isDue, BusEntry.isDue, hperiod, hlast]
        have hmark : (e'.after t).lastFiredMs = (e.after t).lastFiredMs := by
          rw [BusEntry.after, BusEntry.after, hdue]
          split_ifs
          · rfl
          · exact hlast
        rw [hcount, hcount', hdue, ih hrun hrun' hnext hnext' _ hmark _ _ (hall.imp id fun h => ?_)
          (hall'.imp id fun h => ?_)]
        · rw [e.after_periodMs t, e'.after_periodMs t, hperiod]
        · exact (List.forall_mem_cons.mp h).2
        · exact (List.forall_mem_cons.mp h).2
      · exact absurd (List.forall_mem_cons.mp (hall'.resolve_left hk'.ne')).1 hraised'
    · exact absurd (List.forall_mem_cons.mp (hall.resolve_left hk.ne')).1 hraised

end Entry

theorem load_eq {n : Nat} {ticks : List Int} {run : List (BusTick Error)}
    (hlength : ticks.length = run.length) (hplaces : ∀ t ∈ run, ∀ c ∈ t.calls, c < n) :
    load run = ∑ k : Fin n, (firings ticks run k).length := by
  induction run generalizing ticks with
  | nil =>
    obtain rfl := List.length_eq_zero_iff.mp hlength
    exact (Finset.sum_eq_zero fun k _ => rfl).symm
  | cons o run ih =>
    obtain ⟨t, ticks, rfl⟩ := List.exists_cons_of_length_eq_add_one hlength
    obtain ⟨ho, hrest⟩ := List.forall_mem_cons.mp hplaces
    have htick : ∑ k : Fin n, o.calls.count (k : Nat) = o.calls.length := by
      rw [Fin.sum_univ_eq_sum_range fun k => o.calls.count k]
      have hcount := Multiset.sum_count_eq_card (s := Finset.range n) (m := o.calls)
        fun c hc => Finset.mem_range.mpr (ho c hc)
      simpa only [Multiset.coe_count, Multiset.coe_card] using hcount
    have hlength' : ticks.length = run.length := Nat.succ.inj hlength
    simp only [firings_cons, List.length_append, List.length_replicate, Finset.sum_add_distrib]
    rw [htick, ← ih hlength' hrest]
    rfl

theorem run_calls {s : BusScheduler PduId World Error} (hs : s.running = true) (w : World)
    (ticks : List Int) : ∀ t ∈ s.run w ticks,
      t.calls.Pairwise (· < ·) ∧ ∀ c ∈ t.calls, c < s.entries.length := by
  refine Mealy.forall_outputs (I := fun p => p.1.running = true ∧
    p.1.entries.length = s.entries.length) ?_ ⟨hs, rfl⟩ ticks
  rintro ⟨s', w'⟩ nowMs ⟨hrun, hlen⟩
  obtain ⟨hsorted, hplaces⟩ := fireDue_calls nowMs 0 s'.entries w'
  simp only [machine]
  rw [tick_of_running hrun]
  refine ⟨⟨hsorted, fun c hc => ?_⟩, hrun, (fireDue_length nowMs 0 s'.entries w').trans hlen⟩
  rw [← hlen, ← Nat.zero_add s'.entries.length]
  exact (hplaces c hc).2

theorem returned_of_returns {s : BusScheduler PduId World Error} (h : ∀ e ∈ s.entries, e.Returns)
    (w : World) (ticks : List Int) : Returned (s.run w ticks) := by
  refine Mealy.forall_outputs (I := fun p => ∀ e ∈ p.1.entries, e.Returns) ?_ h ticks
  rintro ⟨s', w'⟩ nowMs h'
  cases hs : s'.running with
  | false =>
    have htick : s'.tick w' nowMs = (⟨.ok (), []⟩, s', w') := if_neg (by rw [hs]; nofun)
    simp only [machine, htick, true_and]
    exact h'
  | true =>
    simp only [machine, tick_of_running hs]
    exact fireDue_returned nowMs 0 w' h'

theorem le_last {ticks : List Int} (hticks : (0 :: ticks).Pairwise (· ≤ ·)) :
    ∀ t ∈ 0 :: ticks, t ≤ ticks.getLastD 0 := by
  intro t ht
  rw [← List.getLast_eq_getLastD (List.cons_ne_nil 0 ticks)]
  exact hticks.rel_getLast ht

section Fresh
variable {s : BusScheduler PduId World Error} (hs : s.Fresh) (w : World) {ticks : List Int}
  {k : Nat} {e : BusEntry PduId World Error} (he : s.entries[k]? = some e)
include hs he

theorem firings_apart : (0 :: firings ticks (s.run w ticks) k).Pairwise
    (fun a b => e.periodMs ≤ b - a) := by
  have hmem : e ∈ s.entries := List.mem_of_getElem? he
  obtain ⟨looks, -, hfirings, -⟩ := firings_eq hs.running he w ticks
  rw [hfirings, hs.unfired e hmem]
  exact Periodic.firings_pairwise (zero_le_one.trans (hs.periods e hmem)) 0 looks

theorem length_firings_le (hticks : (0 :: ticks).Pairwise (· ≤ ·)) :
    ((firings ticks (s.run w ticks) k).length : Int) ≤ ticks.getLastD 0 / e.periodMs := by
  have hmem : e ∈ s.entries := List.mem_of_getElem? he
  obtain ⟨looks, hsub, hfirings, -⟩ := firings_eq hs.running he w ticks
  obtain ⟨hlast, hall⟩ := List.forall_mem_cons.mp (le_last hticks)
  have hfit : (Periodic.firings e.periodMs 0 looks).length • e.periodMs ≤ ticks.getLastD 0 - 0 :=
    Periodic.length_nsmul_le hlast fun t ht => hall t (hsub.subset ht)
  rw [sub_zero, nsmul_eq_mul] at hfit
  rw [hfirings, hs.unfired e hmem]
  exact (Int.le_ediv_iff_mul_le (hs.periods e hmem)).mpr hfit

theorem firings_prompt (hreturned : Returned (s.run w ticks)) {g : Int}
    (hg : (0 :: ticks).IsChain (fun a b => b - a ≤ g)) :
    (0 :: firings ticks (s.run w ticks) k).IsChain (fun a b => b - a ≤ e.periodMs + g) := by
  have hmem : e ∈ s.entries := List.mem_of_getElem? he
  obtain ⟨looks, -, hfirings, hlooks⟩ := firings_eq hs.running he w ticks
  have hperiod : 0 < e.periodMs := hs.periods e hmem
  rw [hfirings, hlooks hreturned, hs.unfired e hmem]
  exact Periodic.firings_gaps hperiod hperiod hg

theorem lastFiring_recent {t : Int} (hreturned : ∀ o ∈ (s.run w (ticks ++ [t])).getLast?,
    o.returned = .ok ()) :
    t - lastFiring (ticks ++ [t]) (s.run w (ticks ++ [t])) k < e.periodMs := by
  -- behind a tick that returns no entry is due: one that does not fire, or fires no more, is seen
  have hmem : e ∈ s.entries := List.mem_of_getElem? he
  have hpos : 0 < e.periodMs := hs.periods e hmem
  obtain ⟨e', he', hperiod, hmark, hrun⟩ := entry_after hs.running he w ticks
  rw [hs.unfired e hmem] at hmark
  have hlength : ticks.length = (s.run w ticks).length := (Mealy.length_outputs _ _ _).symm
  have hrunAppend : s.run w (ticks ++ [t]) = s.run w ticks ++
      [((machine.exec (s, w) ticks).1.tick (machine.exec (s, w) ticks).2 t).1] :=
    Mealy.outputs_append ..
  rw [hrunAppend] at hreturned ⊢
  have hlast := hreturned _ (by rw [List.getLast?_append]; rfl)
  obtain ⟨-, ⟨-, hcount⟩ | ⟨-, hraised, -⟩⟩ := tick_entry hrun (machine.exec (s, w) ticks).2 t he'
  · rw [lastFiring, firings_snoc t _ hlength, hcount, BusEntry.isDue, hperiod, hmark]
    by_cases hdue : e.periodMs ≤ t - (firings ticks (s.run w ticks) k).getLastD 0
    · rw [decide_eq_true hdue, Bool.toNat_true, List.replicate_one, List.getLastD_concat, sub_self]
      exact hpos
    · rw [decide_eq_false hdue, Bool.toNat_false, List.replicate_zero, List.append_nil]
      exact not_le.mp hdue
  · exact absurd hlast hraised

end Fresh

/-- **The scheduler bounds the bus load.** Only that an entry is not late, and fires as it would
alone, asks for callbacks that return. -/
theorem load_bounded {s : BusScheduler PduId World Error} (hs : s.Fresh) (w : World)
    {ticks : List Int} (hticks : (0 :: ticks).Pairwise (· ≤ ·)) :
    (∀ t ∈ s.run w ticks, t.calls.Pairwise (· < ·)) ∧
    (∀ k e, s.entries[k]? = some e →
      (0 :: firings ticks (s.run w ticks) k).Pairwise (fun a b => e.periodMs ≤ b - a) ∧
      ((firings ticks (s.run w ticks) k).length : Int) ≤ ticks.getLastD 0 / e.periodMs ∧
      ∀ before t, before ++ [t] <+: ticks →
        (∀ o ∈ (s.run w (before ++ [t])).getLast?, o.returned = .ok ()) →
        t - lastFiring (before ++ [t]) (s.run w (before ++ [t])) k < e.periodMs) ∧
    (load (s.run w ticks) : Int) ≤ (s.entries.map fun e => ticks.getLastD 0 / e.periodMs).sum ∧
    (Returned (s.run w ticks) → ∀ k e, s.entries[k]? = some e →
      (∀ g, (0 :: ticks).IsChain (fun a b => b - a ≤ g) →
        (0 :: firings ticks (s.run w ticks) k).IsChain (fun a b => b - a ≤ e.periodMs + g)) ∧
      ∀ w', (s.run w ticks).map (fun t => t.calls.count k) =
        ((alone e).run w' ticks).map (fun t => t.calls.count 0)) := by
  have hcalls := run_calls hs.running w ticks
  refine ⟨fun t ht => (hcalls t ht).1, fun k e he => ?_, ?_, fun hreturned k e he => ⟨?_, ?_⟩⟩
  · exact ⟨firings_apart hs w he, length_firings_le hs w he hticks,
      fun before t _ hreturned => lastFiring_recent hs w he hreturned⟩
  · have hlength : ticks.length = (s.run w ticks).length := (Mealy.length_outputs _ _ _).symm
    rw [load_eq hlength fun t ht => (hcalls t ht).2, ← Fin.sum_univ_fun_getElem, Nat.cast_sum]
    exact Finset.sum_le_sum fun k _ =>
      length_firings_le hs w (List.getElem?_eq_getElem k.isLt) hticks
  · exact fun g hg => firings_prompt hs w he hreturned hg
  · intro w'
    have hlast : 0 = e.lastFiredMs := (hs.unfired e (List.mem_of_getElem? he)).symm
    have halone : (alone e).entries[0]? = some { e with lastFiredMs := 0 } := rfl
    exact count_congr hs.running rfl he halone rfl hlast w w' (Or.inr hreturned) (Or.inl rfl)

def recordPdu (pduId : Nat) (fired : List Nat) : Except Empty Unit × List Nat :=
  (.ok (), fired ++ [pduId])

def twoPeriods : BusScheduler Nat (List Nat) Empty :=
  (new.start.schedulePeriodic 0x100 10 recordPdu).schedulePeriodic 0x101 4 recordPdu

theorem load_bounded_twoPeriods :
    (load (twoPeriods.run [] [3, 12, 12, 31]) : Int) ≤
      (twoPeriods.entries.map fun e => 31 / e.periodMs).sum ∧
    31 - lastFiring [3, 12, 12, 31] (twoPeriods.run [] [3, 12, 12, 31]) 0 < 10 ∧
    12 - lastFiring [3, 12] (twoPeriods.run [] [3, 12]) 1 < 4 ∧
    (0 :: firings [3, 12, 12, 31] (twoPeriods.run [] [3, 12, 12, 31]) 1).IsChain
      (fun a b => b - a ≤ 4 + 19) := by
  have hs : twoPeriods.Fresh :=
    (fresh_new.schedulePeriodic 0x100 (by decide) recordPdu).schedulePeriodic 0x101 (by decide)
      recordPdu
  have hreturns : ∀ e ∈ twoPeriods.entries, e.Returns :=
    List.forall_mem_cons.mpr ⟨fun _ => rfl, List.forall_mem_singleton.mpr fun _ => rfl⟩
  have hticks : ([0, 3, 12, 12, 31] : List Int).Pairwise (· ≤ ·) := by decide
  have hgaps : ([0, 3, 12, 12, 31] : List Int).IsChain (fun a b => b - a ≤ 19) := by decide
  obtain ⟨-, hplaces, hload, hentries⟩ := load_bounded hs [] hticks
  have hreturned : ∀ ticks, ∀ o ∈ (twoPeriods.run [] ticks).getLast?, o.returned = .ok () :=
    fun ticks o ho => returned_of_returns hreturns _ _ o (List.mem_of_mem_getLast? ho)
  refine ⟨hload, (hplaces 0 _ rfl).2.2 [3, 12, 12] 31 (List.prefix_rfl) (hreturned _),
    (hplaces 1 _ rfl).2.2 [3] 12 ⟨[12, 31], rfl⟩ (hreturned _), ?_⟩
  exact (hentries (returned_of_returns hreturns _ _) 1 _ rfl).1 19 hgaps

end SecOC.BusScheduler
