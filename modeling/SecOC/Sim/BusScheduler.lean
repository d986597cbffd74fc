import SecOC.Lib.Periodic
import SecOC.Lib.Runs
import Mathlib.Data.Nat.Basic

/-! The bus scheduler, `sim/bus_scheduler.py`. A callback acts on a world of its own and may raise,
which ends the tick it is called in. -/

namespace SecOC

structure BusEntry (PduId World Error : Type) where
  pduId : PduId
  periodMs : Int
  callback : PduId → World → Except Error Unit × World
  lastFiredMs : Int

structure BusScheduler (PduId World Error : Type) where
  running : Bool
  entries : List (BusEntry PduId World Error)

/-- What a tick raised, if anything, and the places of the entries it fired, in that order. -/
structure BusTick (Error : Type) where
  returned : Except Error Unit
  calls : List Nat

variable {PduId World Error : Type}

namespace BusEntry
variable (e : BusEntry PduId World Error) (nowMs : Int)

def isDue : Bool := decide (e.periodMs ≤ nowMs - e.lastFiredMs)

def after : BusEntry PduId World Error :=
  if e.isDue nowMs then { e with lastFiredMs := nowMs } else e

def Returns : Prop := ∀ w, (e.callback e.pduId w).1 = .ok ()

theorem after_periodMs : (e.after nowMs).periodMs = e.periodMs := by
  unfold after
  split_ifs <;> rfl

theorem after_returns : (e.after nowMs).Returns ↔ e.Returns := by
  unfold after
  split_ifs <;> rfl

end BusEntry

namespace BusScheduler

def new : BusScheduler PduId World Error := { running := false, entries := [] }

def schedulePeriodic (s : BusScheduler PduId World Error) (pduId : PduId) (periodMs : Int)
    (callback : PduId → World → Except Error Unit × World) : BusScheduler PduId World Error :=
  { s with entries := s.entries ++ [{ pduId, periodMs, callback, lastFiredMs := 0 }] }

def start (s : BusScheduler PduId World Error) : BusScheduler PduId World Error :=
  { s with running := true }

def fireDue (nowMs : Int) : Nat → List (BusEntry PduId World Error) → World →
    BusTick Error × List (BusEntry PduId World Error) × World
  | _, [], w => (⟨.ok (), []⟩, [], w)
  | k, entry :: rest, w =>
    if entry.isDue nowMs then
      match entry.callback entry.pduId w with
      | (.error e, w) => (⟨.error e, [k]⟩, { entry with lastFiredMs := nowMs } :: rest, w)
      | (.ok _, w) =>
        let (tick, rest, w) := fireDue nowMs (k + 1) rest w
        (⟨tick.returned, k :: tick.calls⟩, { entry with lastFiredMs := nowMs } :: rest, w)
    else
      let (tick, rest, w) := fireDue nowMs (k + 1) rest w
      (tick, entry :: rest, w)

def tick (s : BusScheduler PduId World Error) (w : World) (nowMs : Int) :
    BusTick Error × BusScheduler PduId World Error × World :=
  if s.running then
    let (tick, entries, w) := fireDue nowMs 0 s.entries w
    (tick, { s with entries := entries }, w)
  else (⟨.ok (), []⟩, s, w)

def machine : Mealy (BusScheduler PduId World Error × World) Int (BusTick Error) :=
  ⟨fun p nowMs => p.1.tick p.2 nowMs⟩

variable {nowMs : Int} {k i : Nat} {entries rest : List (BusEntry PduId World Error)}
  {e : BusEntry PduId World Error}

theorem fireDue_cons (nowMs : Int) (k : Nat) (e : BusEntry PduId World Error)
    (rest : List (BusEntry PduId World Error)) (w : World) :
    (∃ w', fireDue nowMs k (e :: rest) w =
      (⟨(fireDue nowMs (k + 1) rest w').1.returned,
          (if e.isDue nowMs then [k] else []) ++ (fireDue nowMs (k + 1) rest w').1.calls⟩,
        e.after nowMs :: (fireDue nowMs (k + 1) rest w').2.1,
        (fireDue nowMs (k + 1) rest w').2.2)) ∨
    (e.isDue nowMs = true ∧ ∃ error w', e.callback e.pduId w = (.error error, w') ∧
      fireDue nowMs k (e :: rest) w = (⟨.error error, [k]⟩, e.after nowMs :: rest, w')) := by
  -- the loop goes on behind an entry it has looked at, unless that one's callback raises
  unfold BusEntry.after
  rw [fireDue]
  cases hdue : e.isDue nowMs with
  | false => exact Or.inl ⟨w, rfl⟩
  | true =>
    rcases hcall : e.callback e.pduId w with ⟨error | _, w'⟩
    · exact Or.inr ⟨rfl, error, w', rfl, rfl⟩
    · exact Or.inl ⟨w', rfl⟩

theorem fireDue_calls (nowMs : Int) (k : Nat) (entries : List (BusEntry PduId World Error))
    (w : World) :
    (fireDue nowMs k entries w).1.calls.Pairwise (· < ·) ∧
      ∀ c ∈ (fireDue nowMs k entries w).1.calls, k ≤ c ∧ c < k + entries.length := by
  induction entries generalizing k w with
  | nil => exact ⟨List.Pairwise.nil, List.forall_mem_nil _⟩
  | cons e rest ih =>
    have hself : k ≤ k ∧ k < k + (e :: rest).length := by
      rw [List.length_cons]
      omega
    rcases fireDue_cons nowMs k e rest w with ⟨w', heq⟩ | ⟨-, error, w', -, heq⟩
    · obtain ⟨hsorted, hplaces⟩ := ih (k + 1) w'
      rw [heq]
      refine ⟨List.pairwise_append.mpr ⟨?_, hsorted, fun a ha c hc => ?_⟩, fun c hc => ?_⟩
      · split_ifs
        · exact List.pairwise_singleton _ _
        · exact List.Pairwise.nil
      · split_ifs at ha
        · rw [List.mem_singleton.mp ha]
          exact (hplaces c hc).1
        · cases ha
      · rcases List.mem_append.mp hc with hc | hc
        · split_ifs at hc
          · rwa [List.mem_singleton.mp hc]
          · cases hc
        · have hplace := hplaces c hc
          rw [List.length_cons]
          omega
    · rw [heq]
      refine ⟨List.pairwise_singleton _ _, fun c hc => ?_⟩
      rwa [List.mem_singleton.mp hc]

theorem count_before {w : World} {c : Nat} (hc : c < k) :
    (fireDue nowMs k entries w).1.calls.count c = 0 := by
  apply List.count_eq_zero_of_not_mem
  intro hmem
  exact absurd ((fireDue_calls nowMs k entries w).2 c hmem).1 (not_le.mpr hc)

theorem fireDue_entry (nowMs : Int) (w : World) (he : entries[i]? = some e) :
    ((fireDue nowMs k entries w).2.1[i]? = some (e.after nowMs) ∧
      (fireDue nowMs k entries w).1.calls.count (k + i) = (e.isDue nowMs).toNat) ∨
    (0 < i ∧ (fireDue nowMs k entries w).1.returned ≠ .ok () ∧
      (fireDue nowMs k entries w).2.1[i]? = some e ∧
      (fireDue nowMs k entries w).1.calls.count (k + i) = 0) := by
  induction entries generalizing k i w with
  | nil => cases he
  | cons e' rest ih =>
    cases i with
    | zero =>
      obtain rfl : e' = e := Option.some.inj he
      refine Or.inl ?_
      rcases fireDue_cons nowMs k e' rest w with ⟨w', heq⟩ | ⟨hdue, error, w', -, heq⟩
      · rw [heq]
        refine ⟨rfl, ?_⟩
        rw [Nat.add_zero, List.count_append, count_before (Nat.lt_succ_self k)]
        cases e'.isDue nowMs <;> simp
      · rw [heq, hdue]
        exact ⟨rfl, by simp⟩
    | succ i =>
      have hplace : k + (i + 1) = k + 1 + i := by omega
      have hother : [k].count (k + 1 + i) = 0 := by
        rw [List.count_eq_zero, List.mem_singleton]
        omega
      rw [hplace]
      rcases fireDue_cons nowMs k e' rest w with ⟨w', heq⟩ | ⟨-, error, w', -, heq⟩
      · have hcount : ((if e'.isDue nowMs then [k] else []) ++
            (fireDue nowMs (k + 1) rest w').1.calls).count (k + 1 + i) =
            (fireDue nowMs (k + 1) rest w').1.calls.count (k + 1 + i) := by
          rw [List.count_append]
          split_ifs
          · rw [hother, Nat.zero_add]
          · rw [List.count_nil, Nat.zero_add]
        rw [heq, hcount]
        exact (ih w' he).imp id fun h => ⟨Nat.succ_pos i, h.2⟩
      · rw [heq]
        exact Or.inr ⟨Nat.succ_pos i, nofun, he, hother⟩

theorem fireDue_length (nowMs : Int) (k : Nat) (entries : List (BusEntry PduId World Error))
    (w : World) : (fireDue nowMs k entries w).2.1.length = entries.length := by
  induction entries generalizing k w with
  | nil => rfl
  | cons e rest ih =>
    rcases fireDue_cons nowMs k e rest w with ⟨w', heq⟩ | ⟨-, error, w', -, heq⟩
    · rw [heq, List.length_cons, List.length_cons, ih (k + 1) w']
    · rw [heq, List.length_cons, List.length_cons]

theorem fireDue_returned (nowMs : Int) (k : Nat) (w : World) (h : ∀ e ∈ entries, e.Returns) :
    (fireDue nowMs k entries w).1.returned = .ok () ∧
      ∀ e ∈ (fireDue nowMs k entries w).2.1, e.Returns := by
  induction entries generalizing k w with
  | nil => exact ⟨rfl, List.forall_mem_nil _⟩
  | cons e rest ih =>
    obtain ⟨he, hrest⟩ := List.forall_mem_cons.mp h
    rcases fireDue_cons nowMs k e rest w with ⟨w', heq⟩ | ⟨-, error, w', hraised, -⟩
    · obtain ⟨hreturned, hafter⟩ := ih (k + 1) w' hrest
      rw [heq]
      exact ⟨hreturned, List.forall_mem_cons.mpr ⟨(e.after_returns nowMs).mpr he, hafter⟩⟩
    · have hok := he w
      rw [hraised] at hok
      cases hok

theorem tick_of_running {s : BusScheduler PduId World Error} (hs : s.running = true) (w : World)
    (nowMs : Int) :
    s.tick w nowMs = ((fireDue nowMs 0 s.entries w).1,
      { s with entries := (fireDue nowMs 0 s.entries w).2.1 },
      (fireDue nowMs 0 s.entries w).2.2) := if_pos hs

end BusScheduler
end SecOC
