import SecOC.Api.WebSocket

/-! What holds of the event stream in every run: connections are distinct and belong to accepted
clients, and no message runs ahead of the cursor. -/

namespace SecOC

theorem ConnectionManager.removeDead_sublist (dead connections : List TaskId) :
    (removeDead dead connections).2.Sublist connections := by
  induction dead generalizing connections with
  | nil => exact List.Sublist.refl _
  | cons ws dead ih =>
    unfold removeDead
    split
    · exact (ih _).trans List.erase_sublist
    · exact List.Sublist.refl _

theorem ConnectionManager.mem_removeDead {dead connections : List TaskId} {c : TaskId}
    (hc : c ∈ connections) (hdead : c ∉ dead) : c ∈ (removeDead dead connections).2 := by
  induction dead generalizing connections with
  | nil => exact hc
  | cons ws dead ih =>
    obtain ⟨hne, hdead'⟩ := not_or.mp (mt List.mem_cons.mpr hdead)
    unfold removeDead
    split
    · exact ih ((List.mem_erase_of_ne hne).mpr hc) hdead'
    · exact hc

theorem mem_takeWhile_of_imp {p q : TaskId → Bool} (h : ∀ ws, p ws → q ws) {l : List TaskId}
    {ws : TaskId} (hws : ws ∈ l.takeWhile p) : ws ∈ l.takeWhile q := by
  induction l with
  | nil => exact hws
  | cons a l ih =>
    by_cases hp : p a
    · rw [List.takeWhile_cons_of_pos hp] at hws
      rw [List.takeWhile_cons_of_pos (h a hp)]
      exact List.mem_cons.mpr ((List.mem_cons.mp hws).imp_right ih)
    · rw [List.takeWhile_cons_of_neg hp] at hws
      cases hws

theorem ConnectionManager.filter_sublist_removeDead (dead connections : List TaskId) :
    (connections.filter (· ∉ dead.takeWhile (· ∈ connections))).Sublist
      (removeDead dead connections).2 := by
  induction dead generalizing connections with
  | nil => exact List.filter_sublist
  | cons ws dead ih =>
    unfold removeDead
    by_cases hws : ws ∈ connections
    · rw [if_pos hws, List.takeWhile_cons_of_pos (by simpa using hws)]
      refine List.Sublist.trans ?_ (ih (connections.erase ws))
      have herase : connections.filter (· ∉ ws :: dead.takeWhile (· ∈ connections)) =
          (connections.erase ws).filter (· ∉ ws :: dead.takeWhile (· ∈ connections)) := by
        rw [← List.erase_filter, List.erase_of_not_mem (by simp)]
      rw [herase]
      apply List.monotone_filter_right
      intro a ha
      simp only [decide_eq_true_eq, List.mem_cons, not_or] at ha ⊢
      intro hmem
      apply ha.2
      apply mem_takeWhile_of_imp _ hmem
      intro a' ha'
      exact decide_eq_true (List.mem_of_mem_erase (of_decide_eq_true ha'))
    · rw [if_neg hws]
      exact List.filter_sublist

def Message.position? : Message → Option Nat
  | .demEvent index => some index
  | .ecuState => none

def positions (messages : List Message) : List Nat := messages.filterMap Message.position?

theorem positions_append (ms ms' : List Message) :
    positions (ms ++ ms') = positions ms ++ positions ms' := List.filterMap_append

theorem positions_cons (m : Message) (ms : List Message) :
    positions (m :: ms) = positions [m] ++ positions ms := positions_append [m] ms

theorem mem_positions_cons (m : Message) {ms : List Message} {i : Nat} (h : i ∈ positions ms) :
    i ∈ positions (m :: ms) := by
  rw [positions_cons]
  exact List.mem_append_right _ h

theorem positions_newEvents (is : List Nat) :
    positions (is.map Message.demEvent ++ [Message.ecuState]) = is := by
  rw [positions_append]
  simp [positions, List.filterMap_map, Function.comp_def, Message.position?]

def Caller.newEvents : Caller → List Nat
  | .broadcastUpdates newEvents => newEvents
  | .wsEvents => []

namespace EventStream
variable {E : Type} {s : EventStream E}

def Opened (tasks : List TaskState) (ws : TaskId) : Prop :=
  ∃ task, tasks[ws]? = some task ∧ task ≠ .accepting

structure LoopSound (tasks : List TaskState) (broadcastIndex : Nat) (caller : Caller)
    (b : Broadcast) : Prop where
  targets : ∀ ws, ws = b.ws ∨ ws ∈ b.dead → Opened tasks ws
  pending : ∀ i ∈ positions (b.message :: b.rest), i < broadcastIndex
  newEvents : ∀ i ∈ caller.newEvents, i < broadcastIndex

structure Sound (s : EventStream E) : Prop where
  cursor : s.broadcastIndex ≤ s.events.length
  nodup : s.connections.Nodup
  opened : ∀ ws ∈ s.connections, Opened s.tasks ws
  sending : ∀ {t : TaskId} {caller : Caller} {b : Broadcast},
    s.tasks[t]? = some (TaskState.sending caller b) → LoopSound s.tasks s.broadcastIndex caller b
  completed : ∀ i ∈ s.completed, i < s.broadcastIndex
  received : ∀ c, ∀ i ∈ positions (s.received c), i < s.broadcastIndex

theorem sound_initial (events : List E) : (initial events).Sound where
  cursor := Nat.zero_le _
  nodup := List.nodup_nil
  opened _ h := nomatch h
  sending h := nomatch h
  completed _ h := nomatch h
  received _ _ h := nomatch h

theorem getElem?_setTask (t t' : TaskId) (task : TaskState) :
    (s.setTask t task).tasks[t']? =
      if t = t' ∧ t < s.tasks.length then some task else s.tasks[t']? := by
  unfold setTask
  rw [List.getElem?_set]
  by_cases h : t = t'
  · subst h
    by_cases hlt : t < s.tasks.length
    · simp [hlt]
    · simp [hlt]
  · simp [h]

theorem Opened.setTask {t ws : TaskId} {task : TaskState} (h : Opened s.tasks ws)
    (hne : task ≠ .accepting) : Opened (s.setTask t task).tasks ws := by
  obtain ⟨old, hold, hacc⟩ := h
  unfold Opened
  rw [getElem?_setTask]
  split
  · exact ⟨task, rfl, hne⟩
  · exact ⟨old, hold, hacc⟩

theorem Sound.setTask (hs : s.Sound) (t : TaskId) (task : TaskState) (hne : task ≠ .accepting)
    (hloop : ∀ {caller b}, task = .sending caller b →
      LoopSound s.tasks s.broadcastIndex caller b) : (s.setTask t task).Sound where
  cursor := hs.cursor
  nodup := hs.nodup
  opened ws h := (hs.opened ws h).setTask hne
  sending {t' caller b} h := by
    have hold : LoopSound s.tasks s.broadcastIndex caller b := by
      rw [getElem?_setTask] at h
      split at h
      · exact hloop (Option.some.inj h)
      · exact hs.sending h
    exact ⟨fun ws hws => (hold.targets ws hws).setTask hne, hold.pending, hold.newEvents⟩
  completed := hs.completed
  received := hs.received

theorem Sound.connections (hs : s.Sound) {connections : List TaskId}
    (h : connections.Sublist s.connections) : { s with connections }.Sound where
  cursor := hs.cursor
  nodup := h.nodup hs.nodup
  opened ws hws := hs.opened ws (h.subset hws)
  sending ht := hs.sending ht
  completed := hs.completed
  received := hs.received

theorem Sound.finish (hs : s.Sound) (t : TaskId) {caller : Caller}
    (hnew : ∀ i ∈ caller.newEvents, i < s.broadcastIndex) : (s.finish t caller).Sound := by
  cases caller with
  | wsEvents => exact hs.setTask t .receiving nofun nofun
  | broadcastUpdates newEvents =>
    have hended := hs.setTask t .ended nofun nofun
    exact {
      cursor := hended.cursor
      nodup := hended.nodup
      opened := hended.opened
      sending := fun ht => hended.sending ht
      completed := fun i hi => (List.mem_append.mp hi).elim (hs.completed i) (hnew i)
      received := hended.received }

theorem Sound.broadcastAll (hs : s.Sound) (t : TaskId) {caller : Caller} {messages : List Message}
    (hpending : ∀ i ∈ positions messages, i < s.broadcastIndex)
    (hnew : ∀ i ∈ caller.newEvents, i < s.broadcastIndex) :
    (s.broadcastAll t caller messages).Sound := by
  induction messages with
  | nil => exact hs.finish t hnew
  | cons message rest ih =>
    unfold EventStream.broadcastAll
    split
    · apply ih
      intro i hi
      exact hpending i (mem_positions_cons message hi)
    · next ws _ hconn =>
      have hws : Opened s.tasks ws := hs.opened ws (hconn ▸ List.mem_cons_self ..)
      refine hs.setTask t (.sending _ _) nofun ?_
      intro caller' b he
      cases he
      refine ⟨?_, hpending, hnew⟩
      rintro ws' (rfl | hdead)
      · exact hws
      · cases hdead

theorem Sound.continueLoop (hs : s.Sound) (t : TaskId) {caller : Caller} {b : Broadcast}
    (hb : LoopSound s.tasks s.broadcastIndex caller b) : (s.continueLoop t caller b).Sound := by
  unfold EventStream.continueLoop
  split
  · next ws hws =>
    refine hs.setTask t (.sending _ _) nofun ?_
    intro caller' b' he
    cases he
    refine ⟨?_, hb.pending, hb.newEvents⟩
    rintro ws' (rfl | hdead)
    · exact hs.opened _ (List.mem_of_getElem? hws)
    · exact hb.targets ws' (Or.inr hdead)
  · have hsub := ConnectionManager.removeDead_sublist b.dead s.connections
    split
    · next connections hremove =>
      rw [hremove] at hsub
      apply (hs.connections hsub).broadcastAll
      · intro i hi
        exact hb.pending i (mem_positions_cons b.message hi)
      · exact hb.newEvents
    · next connections hremove =>
      rw [hremove] at hsub
      exact (hs.connections hsub).setTask t .ended nofun nofun

theorem Sound.deliver (hs : s.Sound) (ws : TaskId) {message : Message}
    (h : ∀ i ∈ positions [message], i < s.broadcastIndex) : (s.deliver ws message).Sound where
  cursor := hs.cursor
  nodup := hs.nodup
  opened := hs.opened
  sending ht := hs.sending ht
  completed := hs.completed
  received c := by
    unfold EventStream.deliver
    simp only
    split
    · rw [positions_append]
      intro i hi
      exact (List.mem_append.mp hi).elim (hs.received c i) (h i)
    · exact hs.received c

theorem Opened.spawn {tasks : List TaskState} {ws : TaskId} (h : Opened tasks ws)
    (task : TaskState) : Opened (tasks ++ [task]) ws := by
  obtain ⟨old, hold, hne⟩ := h
  refine ⟨old, ?_, hne⟩
  rw [List.getElem?_append_left (List.getElem?_eq_some_iff.mp hold).1]
  exact hold

theorem sending_of_spawn {tasks : List TaskState} {task : TaskState}
    (htask : ∀ caller b, task ≠ .sending caller b) {t : TaskId} {caller : Caller} {b : Broadcast}
    (h : (tasks ++ [task])[t]? = some (.sending caller b)) :
    tasks[t]? = some (.sending caller b) := by
  rcases Nat.lt_trichotomy t tasks.length with hlt | rfl | hgt
  · rwa [List.getElem?_append_left hlt] at h
  · rw [List.getElem?_concat_length] at h
    exact absurd (Option.some.inj h) (htask caller b)
  · rw [List.getElem?_eq_none (by simpa using Nat.succ_le_of_lt hgt)] at h
    cases h

theorem Sound.spawn (hs : s.Sound) {task : TaskState}
    (htask : ∀ caller b, task ≠ .sending caller b) :
    { s with tasks := s.tasks ++ [task] }.Sound where
  cursor := hs.cursor
  nodup := hs.nodup
  opened ws h := (hs.opened ws h).spawn task
  sending h := by
    have hold := hs.sending (sending_of_spawn htask h)
    exact ⟨fun ws hws => (hold.targets ws hws).spawn task, hold.pending, hold.newEvents⟩
  completed := hs.completed
  received := hs.received

theorem Sound.log (hs : s.Sound) (logged : List E) :
    { s with events := s.events ++ logged }.Sound where
  cursor := Nat.le_trans hs.cursor (by simp)
  nodup := hs.nodup
  opened := hs.opened
  sending ht := hs.sending ht
  completed := hs.completed
  received := hs.received

theorem Sound.advance (hs : s.Sound) : { s with broadcastIndex := s.events.length }.Sound where
  cursor := Nat.le_refl _
  nodup := hs.nodup
  opened := hs.opened
  sending ht := by
    have h := hs.sending ht
    exact ⟨h.targets, fun i hi => Nat.lt_of_lt_of_le (h.pending i hi) hs.cursor,
      fun i hi => Nat.lt_of_lt_of_le (h.newEvents i hi) hs.cursor⟩
  completed i hi := Nat.lt_of_lt_of_le (hs.completed i hi) hs.cursor
  received c i hi := Nat.lt_of_lt_of_le (hs.received c i hi) hs.cursor

theorem newDemEvents_eq : s.newDemEvents =
    List.range' s.broadcastIndex (s.events.length - s.broadcastIndex) := by
  rw [newDemEvents, List.range_eq_range', List.drop_range']
  simp

theorem lt_of_mem_newDemEvents {i : Nat} (h : i ∈ s.newDemEvents) : i < s.events.length :=
  List.mem_range.mp (List.mem_of_mem_drop h)

theorem setTask_setTask (t : TaskId) (task task' : TaskState) :
    (s.setTask t task).setTask t task' = s.setTask t task' := by
  simp [setTask]

theorem broadcastAll_setTask {t : TaskId} (task : TaskState) (caller : Caller)
    (messages : List Message) :
    (s.setTask t task).broadcastAll t caller messages = s.broadcastAll t caller messages := by
  induction messages with
  | nil =>
    unfold broadcastAll finish
    cases caller with
    | wsEvents => exact setTask_setTask t _ _
    | broadcastUpdates newEvents =>
      simp only [setTask_setTask]
      rfl
  | cons message rest ih =>
    unfold broadcastAll
    simp only [ih, setTask_setTask]
    rfl

theorem Sound.accept (hs : s.Sound) {t : TaskId} (ht : s.tasks[t]? = some .accepting) :
    ({ s with connections := s.connections ++ [t] }.setTask t .receiving).Sound := by
  have hr := hs.setTask t .receiving nofun nofun
  have hfresh : t ∉ s.connections := by
    intro hmem
    obtain ⟨task, htask, hne⟩ := hs.opened t hmem
    exact hne (Option.some.inj (htask.symm.trans ht))
  exact {
    cursor := hr.cursor
    nodup := List.nodup_append.mpr ⟨hs.nodup, by simp, by
      rintro ws hws _ hmem rfl
      exact hfresh (List.mem_singleton.mp hmem ▸ hws)⟩
    opened := by
      intro ws hws
      rcases List.mem_append.mp hws with hws | hws
      · exact hr.opened ws hws
      · obtain rfl := List.mem_singleton.mp hws
        refine ⟨.receiving, ?_, nofun⟩
        exact (getElem?_setTask _ _ _).trans
          (if_pos ⟨rfl, (List.getElem?_eq_some_iff.mp ht).1⟩)
    sending := fun h => hr.sending h
    completed := hr.completed
    received := hr.received }

/-! A turn of a task takes effect if the task is at the `await` that the turn ends. -/

theorem take_accepted (s : EventStream E) (t : TaskId) :
    (s.tasks[t]? = some .accepting ∧ s.take (.accepted t) =
      { s with connections := s.connections ++ [t] }.broadcastAll t .wsEvents [.ecuState]) ∨
      s.take (.accepted t) = s := by
  simp only [take]
  split
  · next ht => exact Or.inl ⟨ht, rfl⟩
  · exact Or.inr rfl

theorem take_acceptFailed (s : EventStream E) (t : TaskId) :
    (s.tasks[t]? = some .accepting ∧ s.take (.acceptFailed t) = s.setTask t .ended) ∨
      s.take (.acceptFailed t) = s := by
  simp only [take]
  split
  · next ht => exact Or.inl ⟨ht, rfl⟩
  · exact Or.inr rfl

theorem take_sent (s : EventStream E) (t : TaskId) :
    (∃ caller b, s.tasks[t]? = some (.sending caller b) ∧
      s.take (.sent t) = (s.deliver b.ws b.message).continueLoop t caller b) ∨
      s.take (.sent t) = s := by
  simp only [take]
  split
  · next caller b ht => exact Or.inl ⟨caller, b, ht, rfl⟩
  · exact Or.inr rfl

theorem take_sendFailed (s : EventStream E) (t : TaskId) :
    (∃ caller b, s.tasks[t]? = some (.sending caller b) ∧
      s.take (.sendFailed t) = s.continueLoop t caller { b with dead := b.dead ++ [b.ws] }) ∨
      s.take (.sendFailed t) = s := by
  simp only [take]
  split
  · next caller b ht => exact Or.inl ⟨caller, b, ht, rfl⟩
  · exact Or.inr rfl

theorem take_disconnected (s : EventStream E) (t : TaskId) :
    (s.tasks[t]? = some .receiving ∧ s.take (.disconnected t) =
      { s with connections := s.connections.erase t }.setTask t .ended) ∨
      s.take (.disconnected t) = s := by
  simp only [take]
  split
  · next ht => exact Or.inl ⟨ht, rfl⟩
  · exact Or.inr rfl

theorem take_receiveFailed (s : EventStream E) (t : TaskId) :
    (s.tasks[t]? = some .receiving ∧ s.take (.receiveFailed t) = s.setTask t .ended) ∨
      s.take (.receiveFailed t) = s := by
  simp only [take]
  split
  · next ht => exact Or.inl ⟨ht, rfl⟩
  · exact Or.inr rfl

theorem Sound.take (hs : s.Sound) (u : Turn E) : (s.take u).Sound := by
  cases u with
  | request logged =>
    have hspawned : ({ s with
        events := s.events ++ logged, tasks := s.tasks ++ [TaskState.ended] } :
          EventStream E).Sound := (hs.log logged).spawn nofun
    apply hspawned.advance.broadcastAll
    · intro i hi
      rw [positions_newEvents] at hi
      exact lt_of_mem_newDemEvents hi
    · exact fun i hi => lt_of_mem_newDemEvents hi
  | failedRequest logged => exact hs.log logged
  | connect => exact hs.spawn nofun
  | accepted t =>
    rcases s.take_accepted t with ⟨ht, he⟩ | he
    · rw [he, ← broadcastAll_setTask .receiving]
      exact (hs.accept ht).broadcastAll t nofun nofun
    · rwa [he]
  | acceptFailed t =>
    rcases s.take_acceptFailed t with ⟨-, he⟩ | he
    · rw [he]
      exact hs.setTask t .ended nofun nofun
    · rwa [he]
  | sent t =>
    rcases s.take_sent t with ⟨caller, b, ht, he⟩ | he
    · rw [he]
      have hb := hs.sending ht
      refine (hs.deliver b.ws ?_).continueLoop t hb
      intro i hi
      apply hb.pending
      rw [positions_cons]
      exact List.mem_append_left _ hi
    · rwa [he]
  | sendFailed t =>
    rcases s.take_sendFailed t with ⟨caller, b, ht, he⟩ | he
    · rw [he]
      have hb := hs.sending ht
      refine hs.continueLoop t ⟨?_, hb.pending, hb.newEvents⟩
      rintro ws (rfl | hdead)
      · exact hb.targets _ (Or.inl rfl)
      · rcases List.mem_append.mp hdead with hdead | hws
        · exact hb.targets ws (Or.inr hdead)
        · exact hb.targets ws (Or.inl (List.mem_singleton.mp hws))
    · rwa [he]
  | disconnected t =>
    rcases s.take_disconnected t with ⟨-, he⟩ | he
    · rw [he]
      exact (hs.connections List.erase_sublist).setTask t .ended nofun nofun
    · rwa [he]
  | receiveFailed t =>
    rcases s.take_receiveFailed t with ⟨-, he⟩ | he
    · rw [he]
      exact hs.setTask t .ended nofun nofun
    · rwa [he]

end EventStream
end SecOC
