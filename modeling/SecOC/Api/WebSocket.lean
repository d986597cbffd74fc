import Mathlib.Data.List.Basic
import SecOC.Lib.Runs

/-! The event stream to WebSocket clients: request handlers and client connections as tasks of one
event loop, which interleave where they await `accept`, `send_text` or `receive_text`. -/

namespace SecOC

/-- A task is known by its position in the list of all tasks started so far. A connection is
known by the task that serves it. -/
abbrev TaskId := Nat

/-- A payload: a DEM event, by its position in the log, or the ECU state. -/
inductive Message
  | demEvent (index : Nat)
  | ecuState
  deriving DecidableEq, Repr

/-- A call of `ConnectionManager.broadcast` that awaits `send_text` to `ws`: the loop will go on
at `index` of the connection list as it is then. The caller broadcasts `rest` afterwards. -/
structure Broadcast where
  message : Message
  index : Nat
  ws : TaskId
  dead : List TaskId
  rest : List Message
  deriving DecidableEq, Repr

inductive Caller
  | broadcastUpdates (newEvents : List Nat)
  | wsEvents
  deriving DecidableEq, Repr

inductive TaskState
  | accepting
  | sending (caller : Caller) (b : Broadcast)
  | receiving
  | ended
  deriving DecidableEq, Repr

/-- `received` is what each client was sent, `completed` the events that were passed to a
`broadcast_updates` that has returned. -/
structure EventStream (E : Type) where
  events : List E
  broadcastIndex : Nat
  connections : List TaskId
  tasks : List TaskState
  received : TaskId → List Message
  completed : List Nat

inductive Turn (E : Type)
  /-- A request logs events and runs `broadcast_updates` up to its first `await`. -/
  | request (logged : List E)
  /-- A request logs events and raises before `broadcast_updates`. -/
  | failedRequest (logged : List E)
  | connect
  | accepted (t : TaskId)
  | acceptFailed (t : TaskId)
  | sent (t : TaskId)
  | sendFailed (t : TaskId)
  | disconnected (t : TaskId)
  | receiveFailed (t : TaskId)
  deriving DecidableEq, Repr

namespace ConnectionManager

/-- `remove` for each dead socket in turn, up to one that is not in the list any more. -/
def removeDead : List TaskId → List TaskId → Bool × List TaskId
  | [], connections => (true, connections)
  | ws :: dead, connections =>
    if ws ∈ connections then removeDead dead (connections.erase ws) else (false, connections)

end ConnectionManager

namespace EventStream
variable {E : Type} (s : EventStream E)

def setTask (t : TaskId) (task : TaskState) : EventStream E :=
  { s with tasks := s.tasks.set t task }

def finish (t : TaskId) : Caller → EventStream E
  | .broadcastUpdates newEvents =>
    { s.setTask t .ended with completed := s.completed ++ newEvents }
  | .wsEvents => s.setTask t .receiving

def broadcastAll (t : TaskId) (caller : Caller) : List Message → EventStream E
  | [] => s.finish t caller
  | message :: rest => match s.connections with
    | [] => broadcastAll t caller rest
    | ws :: _ => s.setTask t (.sending caller { message, index := 1, ws, dead := [], rest })

/-- The loop of `broadcast` after a `send_text`: on to the next connection, or to the dead ones
and the next message. An exception from `remove` ends the task. -/
def continueLoop (t : TaskId) (caller : Caller) (b : Broadcast) : EventStream E :=
  match s.connections[b.index]? with
  | some ws => s.setTask t (.sending caller { b with index := b.index + 1, ws })
  | none => match ConnectionManager.removeDead b.dead s.connections with
    | (true, connections) => { s with connections }.broadcastAll t caller b.rest
    | (false, connections) => { s with connections }.setTask t .ended

def newDemEvents : List Nat := (List.range s.events.length).drop s.broadcastIndex

def startRequest (logged : List E) : EventStream E :=
  let s' : EventStream E :=
    { s with events := s.events ++ logged, tasks := s.tasks ++ [TaskState.ended] }
  { s' with broadcastIndex := s'.events.length }.broadcastAll s.tasks.length
    (.broadcastUpdates s'.newDemEvents)
    (s'.newDemEvents.map Message.demEvent ++ [Message.ecuState])

def deliver (ws : TaskId) (message : Message) : EventStream E :=
  { s with received := fun c =>
      if c = ws then s.received c ++ [message] else s.received c }

/-- A turn of a task that does not await that turn changes nothing. -/
def take : Turn E → EventStream E
  | .request logged => s.startRequest logged
  | .failedRequest logged => { s with events := s.events ++ logged }
  | .connect => { s with tasks := s.tasks ++ [TaskState.accepting] }
  | .accepted t => match s.tasks[t]? with
    | some .accepting =>
      { s with connections := s.connections ++ [t] }.broadcastAll t .wsEvents [.ecuState]
    | _ => s
  | .acceptFailed t => match s.tasks[t]? with
    | some .accepting => s.setTask t .ended
    | _ => s
  | .sent t => match s.tasks[t]? with
    | some (.sending caller b) => (s.deliver b.ws b.message).continueLoop t caller b
    | _ => s
  | .sendFailed t => match s.tasks[t]? with
    | some (.sending caller b) => s.continueLoop t caller { b with dead := b.dead ++ [b.ws] }
    | _ => s
  | .disconnected t => match s.tasks[t]? with
    | some .receiving => { s with connections := s.connections.erase t }.setTask t .ended
    | _ => s
  | .receiveFailed t => match s.tasks[t]? with
    | some .receiving => s.setTask t .ended
    | _ => s

def machine (E : Type) : Mealy (EventStream E) (Turn E) Unit where
  step s u := ((), s.take u)

/-- At start-up the log may hold events of the boot check, and nothing has been broadcast. -/
def initial (events : List E) : EventStream E where
  events := events
  broadcastIndex := 0
  connections := []
  tasks := []
  received := fun _ => []
  completed := []

end EventStream
end SecOC
