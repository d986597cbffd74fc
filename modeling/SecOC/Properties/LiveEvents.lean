import SecOC.Api.WebSocketSpec
import SecOC.Lib.Ledger

/-! What a connected client sees of the DEM events. Broadcasts that leave it one sender at a time,
over a connection list that never shifts it past one of them, deliver every event once and in
order. -/

namespace SecOC

/-! The events from position `n` on that a broadcast still has to send to the client `c`. -/

section Owed
variable (n : Nat) (c : TaskId) (connections : List TaskId)

def due (b : Broadcast) : List Nat :=
  ((if b.ws = c ∨ c ∈ connections.drop b.index then positions [b.message] else []) ++
    positions b.rest).filter (n ≤ ·)

def TaskState.owed : TaskState → List Nat
  | .sending _ b => due n c connections b
  | _ => []

def TaskState.promised : TaskState → List Nat
  | .sending caller _ => caller.newEvents.filter (n ≤ ·)
  | _ => []

end Owed

def TaskState.broadcasts : TaskState → Bool
  | .sending _ _ => true
  | _ => false

def Turn.task {E : Type} : Turn E → Option TaskId
  | .accepted t | .acceptFailed t | .sent t | .sendFailed t | .disconnected t | .receiveFailed t =>
    some t
  | .request _ | .failedRequest _ | .connect => none

namespace EventStream
variable {E : Type}

/-- The connections a turn takes off the list: dead ones at the end of a loop, up to one that is
not in the list any more, and one whose client has gone. -/
def removes (s : EventStream E) : Turn E → List TaskId
  | .sent t => match s.tasks[t]? with
    | some (.sending _ b) =>
      if b.index < s.connections.length then [] else b.dead.takeWhile (· ∈ s.connections)
    | _ => []
  | .sendFailed t => match s.tasks[t]? with
    | some (.sending _ b) =>
      if b.index < s.connections.length then []
      else (b.dead ++ [b.ws]).takeWhile (· ∈ s.connections)
    | _ => []
  | .disconnected t => match s.tasks[t]? with
    | some .receiving => [t]
    | _ => []
  | _ => []

def ledger (n : Nat) (c : TaskId) (s : EventStream E) : Ledger TaskId Nat where
  got := (positions (s.received c)).filter (n ≤ ·)
  owed t := (s.tasks[t]?).elim [] (TaskState.owed n c s.connections)
  promised t := (s.tasks[t]?).elim [] (TaskState.promised n)
  completed := s.completed.filter (n ≤ ·)

/-- No request starts to broadcast DEM events while another broadcast still has one for the
client, and no removal from the connection list moves the client, which a broadcast of a DEM
event has still to reach, to before the index where that broadcast goes on. -/
structure Undisturbed (n : Nat) (c : TaskId) (s : EventStream E) (u : Turn E) : Prop where
  alone : ∀ logged, u = .request logged → s.broadcastIndex < s.events.length + logged.length →
    ∀ t, (s.ledger n c).owed t = []
  keepsAhead : ∀ t caller b i, u.task ≠ some t → s.tasks[t]? = some (.sending caller b) →
    b.message = .demEvent i → n ≤ i → c ∈ s.connections.drop b.index →
    c ∈ (s.connections.filter (· ∉ s.removes u)).drop b.index

def failsTo (s : EventStream E) : Turn E → Option TaskId
  | .sendFailed t => match s.tasks[t]? with
    | some (.sending _ b) => some b.ws
    | _ => none
  | _ => none

structure KeepsClient (c : TaskId) (s : EventStream E) (u : Turn E) : Prop where
  stays : u ≠ .disconnected c
  sends : s.failsTo u ≠ some c

instance [DecidableEq E] (c : TaskId) (s : EventStream E) (u : Turn E) :
    Decidable (KeepsClient c s u) :=
  decidable_of_iff (u ≠ .disconnected c ∧ s.failsTo u ≠ some c)
    ⟨fun h => ⟨h.1, h.2⟩, fun h => ⟨h.stays, h.sends⟩⟩

/-- Of the events logged from position `n` on and passed to a completed `broadcast_updates`, the
client has received each exactly once, in logging order. -/
def SeesEvery (n : Nat) (c : TaskId) (s : EventStream E) : Prop :=
  (positions (s.received c)).filter (fun i => n ≤ i ∧ i ∈ s.completed) =
    (List.range s.events.length).filter fun i => n ≤ i ∧ i ∈ s.completed

variable {n : Nat} {c : TaskId} {s : EventStream E} {t : TaskId} {caller : Caller} {b : Broadcast}

theorem ledger_setTask (ht : t < s.tasks.length) (task : TaskState) :
    (s.setTask t task).ledger n c =
      (s.ledger n c).assign t (task.owed n c s.connections) (task.promised n) := by
  have helim : ∀ f : TaskState → List Nat,
      (fun t' => ((s.setTask t task).tasks[t']?).elim [] f) =
        Function.update (fun t' => (s.tasks[t']?).elim [] f) t (f task) := by
    intro f
    funext t'
    rw [getElem?_setTask]
    by_cases he : t = t'
    · subst he
      rw [Function.update_self, if_pos ⟨rfl, ht⟩]
      rfl
    · rw [Function.update_of_ne (Ne.symm he), if_neg fun h => he h.1]
  unfold ledger Ledger.assign
  simp only [helim]
  rfl

theorem elim_spawn {tasks : List TaskState} {task : TaskState} (f : TaskState → List Nat)
    (hf : f task = []) (t : TaskId) :
    ((tasks ++ [task])[t]?).elim [] f = (tasks[t]?).elim [] f := by
  -- a task that owes nothing and has promised nothing can start unnoticed
  rcases Nat.lt_trichotomy t tasks.length with hlt | rfl | hgt
  · rw [List.getElem?_append_left hlt]
  · rw [List.getElem?_concat_length, List.getElem?_eq_none (Nat.le_refl _)]
    exact hf
  · rw [List.getElem?_eq_none (by simpa using Nat.succ_le_of_lt hgt),
      List.getElem?_eq_none (Nat.le_of_lt hgt)]

theorem due_congr {connections connections' : List TaskId}
    (hsub : connections'.Sublist connections)
    (hahead : ∀ i, b.message = .demEvent i → n ≤ i → c ∈ connections.drop b.index →
      c ∈ connections'.drop b.index) :
    due n c connections' b = due n c connections b := by
  -- what a loop owes depends on the connections only where it has still to go
  unfold due
  rw [List.filter_append, List.filter_append]
  congr 1
  by_cases hm : ∃ i, b.message = .demEvent i ∧ n ≤ i
  · obtain ⟨i, hm, hi⟩ := hm
    have hiff : c ∈ connections'.drop b.index ↔ c ∈ connections.drop b.index :=
      ⟨fun h => (hsub.drop _).subset h, hahead i hm hi⟩
    simp only [hiff]
  · have hnil : (positions [b.message]).filter (n ≤ ·) = [] := by
      cases hmessage : b.message with
      | ecuState => rfl
      | demEvent i =>
        have hi : ¬n ≤ i := fun hi => hm ⟨i, hmessage, hi⟩
        simp [positions, Message.position?, hi]
    simp [apply_ite (List.filter (n ≤ ·)), hnil]

def ahead (n : Nat) (c : TaskId) (connections : List TaskId) (b : Broadcast) : List Nat :=
  ((if c ∈ connections.drop b.index then positions [b.message] else []) ++
    positions b.rest).filter (n ≤ ·)

theorem due_eq_append {connections : List TaskId}
    (hfresh : b.ws = c → c ∉ connections.drop b.index) :
    due n c connections b =
      (if b.ws = c then positions [b.message] else []).filter (n ≤ ·) ++
        ahead n c connections b := by
  unfold due ahead
  by_cases hws : b.ws = c
  · simp [hws, hfresh hws]
  · simp [hws]

theorem drop_eq_cons {connections : List TaskId} {index : Nat} {ws : TaskId}
    (h : connections[index]? = some ws) :
    connections.drop index = ws :: connections.drop (index + 1) := by
  rw [List.drop_eq_getElem?_toList_append, h]
  rfl

theorem due_next {connections : List TaskId} {ws : TaskId}
    (hws : connections[b.index]? = some ws) :
    due n c connections { b with index := b.index + 1, ws } = ahead n c connections b := by
  unfold due ahead
  simp only [drop_eq_cons hws, List.mem_cons, eq_comm]

theorem ahead_of_none {connections : List TaskId} (h : connections[b.index]? = none) :
    ahead n c connections b = (positions b.rest).filter (n ≤ ·) := by
  unfold ahead
  rw [List.drop_eq_nil_of_le (List.getElem?_eq_none_iff.mp h)]
  simp

theorem due_first {connections : List TaskId} (hc : c ∈ connections) {ws : TaskId}
    {tail : List TaskId} (hconn : connections = ws :: tail) (message : Message)
    (dead : List TaskId) (rest : List Message) :
    due n c connections { message, index := 1, ws, dead, rest } =
      (positions (message :: rest)).filter (n ≤ ·) := by
  have hor : ws = c ∨ c ∈ connections.drop 1 := by
    rw [hconn] at hc ⊢
    exact (List.mem_cons.mp hc).imp_left Eq.symm
  unfold due
  rw [if_pos hor, positions_cons message rest]

structure Attached (c : TaskId) (s : EventStream E) : Prop where
  connected : c ∈ s.connections
  alive : ∀ {t : TaskId} {caller : Caller} {b : Broadcast},
    s.tasks[t]? = some (.sending caller b) → c ∉ b.dead
  fresh : ∀ {t : TaskId} {caller : Caller} {b : Broadcast},
    s.tasks[t]? = some (.sending caller b) → b.ws = c → c ∉ s.connections.drop b.index

theorem Attached.setTask (h : Attached c s) (t : TaskId) {task : TaskState}
    (halive : ∀ {caller b}, task = .sending caller b → c ∉ b.dead)
    (hfresh : ∀ {caller b}, task = .sending caller b → b.ws = c →
      c ∉ s.connections.drop b.index) : Attached c (s.setTask t task) where
  connected := h.connected
  alive {t' caller b} ht' := by
    rw [getElem?_setTask] at ht'
    split at ht'
    · exact halive (Option.some.inj ht')
    · exact h.alive ht'
  fresh {t' caller b} ht' := by
    rw [getElem?_setTask] at ht'
    split at ht'
    · exact hfresh (Option.some.inj ht')
    · exact h.fresh ht'

theorem Attached.remove (h : Attached c s) {connections : List TaskId}
    (hsub : connections.Sublist s.connections) (hc : c ∈ connections) :
    Attached c { s with connections } where
  connected := hc
  alive ht := h.alive ht
  fresh ht hws hmem := h.fresh ht hws ((hsub.drop _).subset hmem)

theorem Attached.append (h : Attached c s) {ws : TaskId} (hne : ws ≠ c) :
    Attached c { s with connections := s.connections ++ [ws] } where
  connected := List.mem_append_left _ h.connected
  alive ht := h.alive ht
  fresh ht hws hmem := by
    rw [List.drop_append, List.mem_append] at hmem
    rcases hmem with hmem | hmem
    · exact h.fresh ht hws hmem
    · exact hne (List.mem_singleton.mp (List.mem_of_mem_drop hmem)).symm

theorem Attached.spawn (h : Attached c s) {task : TaskState}
    (htask : ∀ caller b, task ≠ .sending caller b) :
    Attached c { s with tasks := s.tasks ++ [task] } where
  connected := h.connected
  alive ht := h.alive (sending_of_spawn htask ht)
  fresh ht := h.fresh (sending_of_spawn htask ht)

/-! A broadcast leaves the client's account as its task's entry says. -/

def Served (n : Nat) (c : TaskId) (s : EventStream E) : Prop :=
  Attached c s ∧ (s.ledger n c).Fair

theorem served_setTask (ha : Attached c s) (ht : t < s.tasks.length) (task : TaskState)
    (halive : ∀ {caller b}, task = .sending caller b → c ∉ b.dead)
    (hfresh : ∀ {caller b}, task = .sending caller b → b.ws = c →
      c ∉ s.connections.drop b.index)
    (hf : ((s.ledger n c).assign t (task.owed n c s.connections) (task.promised n)).Fair) :
    Served n c (s.setTask t task) := by
  refine ⟨ha.setTask t halive hfresh, ?_⟩
  rw [ledger_setTask ht]
  exact hf

theorem served_ended (ha : Attached c s) (ht : t < s.tasks.length)
    (hf : ((s.ledger n c).assign t [] []).Fair) : Served n c (s.setTask t .ended) :=
  served_setTask ha ht .ended nofun nofun hf

theorem served_broadcastAll (ha : Attached c s) (hnodup : s.connections.Nodup)
    (ht : t < s.tasks.length) {messages : List Message}
    (hf : ((s.ledger n c).assign t ((positions messages).filter (n ≤ ·))
      (caller.newEvents.filter (n ≤ ·))).Fair) :
    Served n c (s.broadcastAll t caller messages) := by
  cases messages with
  | nil =>
    cases caller with
    | wsEvents => exact served_setTask ha ht .receiving nofun nofun hf
    | broadcastUpdates newEvents =>
      have hended : Attached c (s.setTask t .ended) := ha.setTask t nofun nofun
      have hledger : ((s.finish t (.broadcastUpdates newEvents)).ledger n c) =
          ((s.ledger n c).assign t [] []).complete (newEvents.filter (n ≤ ·)) := by
        have hset : (s.setTask t .ended).ledger n c = (s.ledger n c).assign t [] [] :=
          ledger_setTask ht .ended
        rw [← hset]
        simp [ledger, Ledger.complete, finish, setTask]
      refine ⟨⟨hended.connected, fun h => hended.alive h, fun h => hended.fresh h⟩, ?_⟩
      unfold broadcastAll
      rw [hledger]
      exact hf.close
  | cons message rest =>
    unfold broadcastAll
    split
    · next hconn => exact absurd ha.connected (by simp [hconn])
    · next ws tail hconn =>
      apply served_setTask ha ht (.sending _ _)
      · intro caller' b' he
        cases he
        exact List.not_mem_nil
      · intro caller' b' he hws
        cases he
        rw [hconn] at hnodup ⊢
        subst hws
        exact (List.nodup_cons.mp hnodup).1
      · simp only [TaskState.owed, TaskState.promised]
        rw [due_first ha.connected hconn]
        exact hf

theorem sending_or_idle (n : Nat) (c : TaskId) (task : Option TaskState) :
    (∃ caller b, task = some (.sending caller b)) ∨
      (∀ connections, task.elim [] (TaskState.owed n c connections) = []) ∧
        task.elim [] (TaskState.promised n) = [] := by
  cases task with
  | none => exact Or.inr ⟨fun _ => rfl, rfl⟩
  | some task =>
    cases task with
    | sending caller b => exact Or.inl ⟨caller, b, rfl⟩
    | accepting => exact Or.inr ⟨fun _ => rfl, rfl⟩
    | receiving => exact Or.inr ⟨fun _ => rfl, rfl⟩
    | ended => exact Or.inr ⟨fun _ => rfl, rfl⟩

theorem elim_owed_congr {connections connections' : List TaskId} {task : Option TaskState}
    (h : ∀ caller b, task = some (.sending caller b) →
      due n c connections' b = due n c connections b) :
    task.elim [] (TaskState.owed n c connections') =
      task.elim [] (TaskState.owed n c connections) := by
  rcases sending_or_idle n c task with ⟨caller, b, rfl⟩ | ⟨hidle, -⟩
  · exact h caller b rfl
  · rw [hidle, hidle]

theorem ledger_remove {connections : List TaskId} (hsub : connections.Sublist s.connections)
    (hahead : ∀ t' caller b i, t' ≠ t → s.tasks[t']? = some (.sending caller b) →
      b.message = .demEvent i → n ≤ i → c ∈ s.connections.drop b.index →
      c ∈ connections.drop b.index) (owed promised : List Nat) :
    ({ s with connections }.ledger n c).assign t owed promised =
      (s.ledger n c).assign t owed promised := by
  -- removals that keep the client ahead of the other loops leave their entries as they are
  refine Ledger.assign_congr rfl ?_ ?_ rfl
  · intro t' hne
    apply elim_owed_congr
    intro caller b ht'
    exact due_congr hsub fun i hm hi => hahead t' caller b i hne ht' hm hi
  · exact fun t' _ => rfl

theorem served_continueLoop (ha : Attached c s) (hnodup : s.connections.Nodup)
    (ht : t < s.tasks.length) (hdead : c ∉ b.dead)
    (hahead : s.connections[b.index]? = none →
      ∀ t' caller' b' i, t' ≠ t → s.tasks[t']? = some (.sending caller' b') →
      b'.message = .demEvent i → n ≤ i → c ∈ s.connections.drop b'.index →
      c ∈ (ConnectionManager.removeDead b.dead s.connections).2.drop b'.index)
    (hf : ((s.ledger n c).assign t (ahead n c s.connections b)
      (caller.newEvents.filter (n ≤ ·))).Fair) :
    Served n c (s.continueLoop t caller b) := by
  unfold continueLoop
  split
  · next ws hws =>
    apply served_setTask ha ht (.sending _ _)
    · intro caller' b' he
      cases he
      exact hdead
    · intro caller' b' he hc
      cases he
      have hafter : (s.connections.drop b.index).Nodup := (List.drop_sublist _ _).nodup hnodup
      rw [drop_eq_cons hws] at hafter
      exact hc ▸ (List.nodup_cons.mp hafter).1
    · simp only [TaskState.owed, TaskState.promised]
      rw [due_next hws]
      exact hf
  · next hnone =>
    have hsub := ConnectionManager.removeDead_sublist b.dead s.connections
    have hc := ConnectionManager.mem_removeDead ha.connected hdead
    have hledger := ledger_remove hsub (hahead hnone)
    rw [ahead_of_none hnone] at hf
    split
    · next connections hremove =>
      rw [hremove] at hsub hc hledger
      apply served_broadcastAll (ha.remove hsub hc) (hsub.nodup hnodup) ht
      rw [hledger]
      exact hf
    · next connections hremove =>
      rw [hremove] at hsub hc hledger
      apply served_ended (ha.remove hsub hc) ht
      rw [hledger]
      exact hf.cancel_assigned

theorem ledger_spawn {task : TaskState} (howed : task.owed n c s.connections = [])
    (hpromised : task.promised n = []) :
    { s with tasks := s.tasks ++ [task] }.ledger n c = s.ledger n c := by
  unfold ledger
  simp only [elim_spawn _ howed, elim_spawn _ hpromised]

theorem ledger_append {ws : TaskId} (hne : ws ≠ c) :
    { s with connections := s.connections ++ [ws] }.ledger n c = s.ledger n c := by
  have howed : ∀ t : TaskId,
      (s.tasks[t]?).elim [] (TaskState.owed n c (s.connections ++ [ws])) =
        (s.tasks[t]?).elim [] (TaskState.owed n c s.connections) := by
    intro t
    apply elim_owed_congr
    intro caller b _
    have hiff : c ∈ (s.connections ++ [ws]).drop b.index ↔ c ∈ s.connections.drop b.index := by
      rw [List.drop_append, List.mem_append]
      refine or_iff_left fun hmem => ?_
      exact hne (List.mem_singleton.mp (List.mem_of_mem_drop hmem)).symm
    unfold due
    simp only [hiff]
  unfold ledger
  simp only [howed]

theorem ledger_deliver (message : Message) (ws : TaskId) : (s.deliver ws message).ledger n c =
    (s.ledger n c).deliver ((if ws = c then positions [message] else []).filter (n ≤ ·)) := by
  unfold ledger Ledger.deliver deliver
  by_cases hws : ws = c
  · simp [hws, positions_append]
  · simp [hws, Ne.symm hws]

theorem ledger_sending (ht : s.tasks[t]? = some (.sending caller b)) :
    (s.ledger n c).owed t = due n c s.connections b ∧
      (s.ledger n c).promised t = caller.newEvents.filter (n ≤ ·) := by
  unfold ledger
  simp only [ht]
  exact ⟨rfl, rfl⟩

theorem Served.request (hs : s.Sound) (h : Served n c s) {logged : List E}
    (halone : s.broadcastIndex < s.events.length + logged.length →
      ∀ t, (s.ledger n c).owed t = []) : Served n c (s.startRequest logged) := by
  let s' : EventStream E :=
    { s with events := s.events ++ logged, tasks := s.tasks ++ [TaskState.ended] }
  have hspawn : Attached c { s with tasks := s.tasks ++ [TaskState.ended] } := h.1.spawn nofun
  have ha : Attached c { s' with broadcastIndex := s'.events.length } :=
    ⟨hspawn.connected, hspawn.alive, hspawn.fresh⟩
  have hledger : { s with tasks := s.tasks ++ [TaskState.ended] }.ledger n c = s.ledger n c :=
    ledger_spawn rfl rfl
  have hnew : s'.newDemEvents =
      List.range' s.broadcastIndex ((s.events ++ logged).length - s.broadcastIndex) :=
    newDemEvents_eq
  apply served_broadcastAll ha hs.nodup (by simp [s'])
  rw [positions_newEvents]
  change ((Ledger.assign (ledger n c { s with tasks := s.tasks ++ [TaskState.ended] }) _ _ _)).Fair
  rw [hledger]
  apply h.2.charge
  · refine List.pairwise_append.mpr ⟨h.2.increasing, ?_, ?_⟩
    · rw [hnew]
      exact (List.pairwise_lt_range' 1).filter _
    · intro i hi j hj
      have hi' : i < s.broadcastIndex := hs.received c i (List.mem_filter.mp hi).1
      have hj' : s.broadcastIndex ≤ j := by
        have hmem := (List.mem_filter.mp hj).1
        rw [hnew] at hmem
        exact (List.mem_range'_1.mp hmem).1
      exact Nat.lt_of_lt_of_le hi' hj'
  · intro hne t _
    apply halone
    by_contra hle
    apply hne
    rw [hnew, List.length_append, Nat.sub_eq_zero_of_le (Nat.not_lt.mp hle)]
    rfl

theorem filter_sublist_of_none (dead : List TaskId) (hnone : s.connections[b.index]? = none) :
    (s.connections.filter (· ∉ if b.index < s.connections.length then []
      else dead.takeWhile (· ∈ s.connections))).Sublist
        (ConnectionManager.removeDead dead s.connections).2 := by
  rw [if_neg (Nat.not_lt.mpr (List.getElem?_eq_none_iff.mp hnone))]
  exact ConnectionManager.filter_sublist_removeDead dead s.connections

theorem Undisturbed.ahead {u : Turn E} (hu : s.Undisturbed n c u) (ht : u.task = some t)
    {connections : List TaskId}
    (hsub : (s.connections.filter (· ∉ s.removes u)).Sublist connections) :
    ∀ t' caller b i, t' ≠ t → s.tasks[t']? = some (.sending caller b) →
      b.message = .demEvent i → n ≤ i → c ∈ s.connections.drop b.index →
      c ∈ connections.drop b.index := by
  intro t' caller b i hne ht' hm hi hmem
  have hother : u.task ≠ some t' := by
    rw [ht]
    exact fun he => hne (Option.some.inj he).symm
  exact (hsub.drop _).subset (hu.keepsAhead t' caller b i hother ht' hm hi hmem)

theorem Served.accepted (hs : s.Sound) (h : Served n c s) (t : TaskId) :
    Served n c (s.take (.accepted t)) := by
  rcases s.take_accepted t with ⟨ht, he⟩ | he
  · rw [he]
    have hne : t ≠ c := by
      rintro rfl
      obtain ⟨task, htask, hacc⟩ := hs.opened t h.1.connected
      exact hacc (Option.some.inj (htask.symm.trans ht))
    apply served_broadcastAll (h.1.append hne) (hs.accept ht).nodup
      (List.getElem?_eq_some_iff.mp ht).1
    rw [ledger_append hne]
    exact h.2.cancel t
  · rwa [he]

theorem Served.sent (hs : s.Sound) (h : Served n c s) (hu : s.Undisturbed n c (.sent t)) :
    Served n c (s.take (.sent t)) := by
  rcases s.take_sent t with ⟨caller, b, ht, he⟩ | he
  · rw [he]
    obtain ⟨howed, hpromised⟩ := ledger_sending (n := n) (c := c) ht
    have ha : Attached c (s.deliver b.ws b.message) := ⟨h.1.connected, h.1.alive, h.1.fresh⟩
    apply served_continueLoop ha hs.nodup (List.getElem?_eq_some_iff.mp ht).1 (h.1.alive ht)
    · intro hnone
      apply hu.ahead rfl
      simp only [removes, ht]
      exact filter_sublist_of_none (s := s) b.dead hnone
    · rw [due_eq_append (h.1.fresh ht)] at howed
      rw [ledger_deliver, ← hpromised]
      exact h.2.settle howed
  · rwa [he]

theorem Served.sendFailed (hs : s.Sound) (h : Served n c s)
    (hu : s.Undisturbed n c (.sendFailed t)) (hk : s.KeepsClient c (.sendFailed t)) :
    Served n c (s.take (.sendFailed t)) := by
  rcases s.take_sendFailed t with ⟨caller, b, ht, he⟩ | he
  · rw [he]
    obtain ⟨howed, hpromised⟩ := ledger_sending (n := n) (c := c) ht
    have hws : b.ws ≠ c := by
      rintro rfl
      exact hk.sends (by simp only [failsTo, ht])
    apply served_continueLoop h.1 hs.nodup (List.getElem?_eq_some_iff.mp ht).1
    · simp [h.1.alive ht, Ne.symm hws]
    · intro hnone
      apply hu.ahead rfl
      simp only [removes, ht]
      exact filter_sublist_of_none (b.dead ++ [b.ws]) hnone
    · rw [due_eq_append (h.1.fresh ht), if_neg hws] at howed
      rw [← hpromised]
      have hfair := h.2.settle howed
      simpa [Ledger.deliver, ahead] using hfair
  · rwa [he]

theorem Served.disconnected (hs : s.Sound) (h : Served n c s)
    (hu : s.Undisturbed n c (.disconnected t)) (hk : s.KeepsClient c (.disconnected t)) :
    Served n c (s.take (.disconnected t)) := by
  rcases s.take_disconnected t with ⟨ht, he⟩ | he
  · rw [he]
    have hne : c ≠ t := fun hc => hk.stays (hc ▸ rfl)
    have hsub : (s.connections.erase t).Sublist s.connections := List.erase_sublist
    have hc : c ∈ s.connections.erase t := (List.mem_erase_of_ne hne).mpr h.1.connected
    apply served_ended (h.1.remove hsub hc) (List.getElem?_eq_some_iff.mp ht).1
    rw [ledger_remove hsub (hu.ahead rfl _)]
    · exact h.2.cancel t
    · rw [hs.nodup.erase_eq_filter]
      apply List.monotone_filter_right
      intro ws
      simp [removes, ht]
  · rwa [he]

theorem Served.take (hs : s.Sound) (h : Served n c s) {u : Turn E}
    (hu : s.Undisturbed n c u) (hk : s.KeepsClient c u) : Served n c (s.take u) := by
  cases u with
  | request logged => exact h.request hs (hu.alone logged rfl)
  | failedRequest logged => exact ⟨⟨h.1.connected, h.1.alive, h.1.fresh⟩, h.2⟩
  | connect =>
    refine ⟨h.1.spawn nofun, ?_⟩
    unfold EventStream.take
    rw [ledger_spawn rfl rfl]
    exact h.2
  | accepted t => exact h.accepted hs t
  | acceptFailed t =>
    rcases s.take_acceptFailed t with ⟨ht, he⟩ | he
    · rw [he]
      exact served_ended h.1 (List.getElem?_eq_some_iff.mp ht).1 (h.2.cancel t)
    · rwa [he]
  | sent t => exact h.sent hs hu
  | sendFailed t => exact h.sendFailed hs hu hk
  | disconnected t => exact h.disconnected hs hu hk
  | receiveFailed t =>
    rcases s.take_receiveFailed t with ⟨ht, he⟩ | he
    · rw [he]
      exact served_ended h.1 (List.getElem?_eq_some_iff.mp ht).1 (h.2.cancel t)
    · rwa [he]

theorem filter_eq_nil_of_lt {is : List Nat} (h : ∀ i ∈ is, i < n) : is.filter (n ≤ ·) = [] := by
  rw [List.filter_eq_nil_iff]
  intro i hi
  simpa using h i hi

theorem served_accepted (hs : s.Sound) (hc : s.tasks[c]? = some .accepting) :
    Served s.events.length c (s.take (.accepted c)) := by
  -- whatever is under way when a client connects concerns events logged before
  have hopened : ¬Opened s.tasks c := by
    rintro ⟨task, htask, hne⟩
    exact hne (Option.some.inj (htask.symm.trans hc))
  have ha : Attached c { s with connections := s.connections ++ [c] } :=
    { connected := List.mem_append_right _ (List.mem_singleton_self c)
      alive := fun ht hdead => hopened ((hs.sending ht).targets c (Or.inr hdead))
      fresh := fun ht hws => absurd ((hs.sending ht).targets c (Or.inl hws.symm)) hopened }
  have hold : ∀ {is : List Nat}, (∀ i ∈ is, i < s.broadcastIndex) →
      is.filter (s.events.length ≤ ·) = [] := by
    intro is h
    exact filter_eq_nil_of_lt fun i hi => Nat.lt_of_lt_of_le (h i hi) hs.cursor
  have hf : ({ s with connections := s.connections ++ [c] }.ledger s.events.length c).Fair := by
    apply Ledger.fair_of_nil
    · exact hold (hs.received c)
    · intro t
      change (s.tasks[t]?).elim [] (TaskState.owed s.events.length c (s.connections ++ [c])) = []
      rcases sending_or_idle s.events.length c s.tasks[t]? with ⟨caller, b, ht⟩ | ⟨hidle, -⟩
      · rw [ht]
        refine hold fun i hi => (hs.sending ht).pending i ?_
        rw [positions_cons, List.mem_append]
        refine (List.mem_append.mp hi).imp_left fun hi => ?_
        split at hi
        · exact hi
        · cases hi
      · exact hidle _
    · intro t
      change (s.tasks[t]?).elim [] (TaskState.promised s.events.length) = []
      rcases sending_or_idle s.events.length c s.tasks[t]? with ⟨caller, b, ht⟩ | ⟨-, hidle⟩
      · rw [ht]
        exact hold (hs.sending ht).newEvents
      · exact hidle
    · exact hold hs.completed
  simp only [take, hc]
  apply served_broadcastAll ha (hs.accept hc).nodup (List.getElem?_eq_some_iff.mp hc).1
  exact hf.cancel c

theorem Served.seesEvery (hs : s.Sound) (h : Served n c s) : s.SeesEvery n c := by
  have hall : ((List.range s.events.length).filter (n ≤ ·)).Pairwise (· < ·) :=
    List.pairwise_lt_range.filter _
  have hfilter := h.2.filter_completed hall (by
    intro i hi
    obtain ⟨hmem, hn⟩ := List.mem_filter.mp hi
    exact List.mem_filter.mpr
      ⟨List.mem_range.mpr (Nat.lt_of_lt_of_le (hs.received c i hmem) hs.cursor), hn⟩)
  have hboth : ∀ is : List Nat, is.filter (fun i => n ≤ i ∧ i ∈ s.completed) =
      (is.filter (n ≤ ·)).filter (· ∈ (s.ledger n c).completed) := by
    intro is
    rw [List.filter_filter]
    apply List.filter_congr
    intro i _
    by_cases hi : n ≤ i <;> simp [ledger, hi]
  unfold SeesEvery
  rw [hboth, hboth]
  exact hfilter

/-- **Every live client sees every DEM event once, in order**, in every run that leaves it
undisturbed. -/
theorem sees_every {events : List E} {pre : List (Turn E)} {s : EventStream E}
    (hpre : (machine E).exec (initial events) pre = s) {c : TaskId}
    (hc : s.tasks[c]? = some .accepting) {post : List (Turn E)}
    (hkeeps : (machine E).Meets (KeepsClient c) (s.take (.accepted c)) post)
    (hundisturbed : (machine E).Meets (Undisturbed s.events.length c) (s.take (.accepted c)) post) :
    SeesEvery s.events.length c ((machine E).exec (s.take (.accepted c)) post) := by
  have hs : s.Sound := by
    rw [← hpre]
    exact Mealy.exec_preserves (fun s' u h => h.take u) (sound_initial events) pre
  have hstart : (s.take (.accepted c)).Sound ∧
      Served s.events.length c (s.take (.accepted c)) :=
    ⟨hs.take (.accepted c), served_accepted hs hc⟩
  have hend := Mealy.exec_of_meets (I := fun s' => s'.Sound ∧ Served s.events.length c s')
    (fun h hu => ⟨h.1.take _, h.2.take h.1 hu.2 hu.1⟩) hstart (hkeeps.and hundisturbed)
  exact hend.2.seesEvery hend.1

def Quiet (s : EventStream E) (u : Turn E) : Prop :=
  ∀ t < s.tasks.length, u.task = some t ∨ (s.tasks[t]?).any TaskState.broadcasts = false

instance (s : EventStream E) (u : Turn E) : Decidable (s.Quiet u) :=
  inferInstanceAs (Decidable (∀ t < s.tasks.length, _ ∨ _))

theorem Quiet.undisturbed {u : Turn E} (h : s.Quiet u) : s.Undisturbed n c u := by
  have hown : ∀ t caller b, s.tasks[t]? = some (.sending caller b) → u.task = some t := by
    intro t caller b ht
    rcases h t (List.getElem?_eq_some_iff.mp ht).1 with hu | hidle
    · exact hu
    · rw [ht] at hidle
      cases hidle
  constructor
  · rintro logged rfl _ t
    rcases sending_or_idle n c s.tasks[t]? with ⟨caller, b, ht⟩ | ⟨hidle, -⟩
    · cases hown t caller b ht
    · exact hidle _
  · intro t caller b i hother ht
    exact absurd (hown t caller b ht) hother

theorem sees_every_beside_failing_client :
    let s := (machine Unit).exec (initial []) [.connect]
    SeesEvery s.events.length 0 ((machine Unit).exec (s.take (.accepted 0))
      [.sent 0, .connect, .accepted 1, .sent 1, .sent 1, .request [()], .sent 2, .sendFailed 2,
        .sent 2]) := by
  intro s
  apply sees_every (s := s) rfl rfl
  · decide
  · apply Mealy.Meets.mono Quiet.undisturbed
    decide

theorem shifted_client_skipped :
    let s := (machine Unit).exec (initial [])
      [.connect, .accepted 0, .sent 0, .connect, .accepted 1, .sent 1, .sent 1, .connect]
    let post : List (Turn Unit) := [.sent 2, .sent 2, .sent 2, .request [()], .sent 3,
      .disconnected 0, .sent 3, .sent 3, .sent 3]
    s.tasks[2]? = some .accepting ∧
      (machine Unit).Meets (KeepsClient 2) (s.take (.accepted 2)) post ∧
      ¬SeesEvery s.events.length 2 ((machine Unit).exec (s.take (.accepted 2)) post) := by
  -- three clients are connected. While an event is sent to the second, the first goes: the list
  -- shifts, and the loop never comes to the third
  refine ⟨rfl, ?_, ?_⟩
  · decide
  · unfold SeesEvery
    decide

end EventStream
end SecOC
