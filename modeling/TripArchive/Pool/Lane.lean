import TripArchive.Segment.Error

/-!
# Workers on a queue

Several workers share one queue. Each takes the task at its head, handles it, and settles it: the
task is acknowledged unless it failed in a transient way. A failure does not stop a worker. Workers
leave when the queue is closed and empty or when they are cancelled, and what still runs when the
time to drain is over is abandoned.
-/

namespace TripArchive.Pool

variable {τ : Type}

/-- What a worker is doing. -/
inductive Worker (τ : Type)
  | idle
  | busy (task : τ)
  | stopped
  /-- Taken off its task when the time to drain was over. -/
  | abandoned (task : τ)
  deriving DecidableEq, Repr

/-- How a task was handled. -/
abbrev Outcome := Except SegmentError Unit

/-- A queue with its workers, and what happened so far: the tasks that were taken, that were
handled and that were acknowledged, each in the order of the events. -/
structure Lane (τ : Type) where
  queue : List τ
  closed : Bool
  cancelled : Bool
  workers : List (Worker τ)
  taken : List τ
  handled : List (τ × Outcome)
  acknowledged : List τ

/-- Something that can happen to a queue and its workers. -/
inductive Event
  /-- A worker takes the task at the head of the queue. -/
  | take (worker : Nat)
  /-- The task of a worker is handled. -/
  | settle (worker : Nat) (outcome : Outcome)
  /-- A worker leaves. -/
  | leave (worker : Nat)
  /-- No task may be taken any more. -/
  | cancel
  /-- No task will be queued any more. -/
  | close
  /-- The time to drain is over. -/
  | abandon

namespace Lane

/-- A queue before anything happened. -/
def start (workers : Nat) (queue : List τ) : Lane τ :=
  ⟨queue, false, false, List.replicate workers .idle, [], [], []⟩

/-- A worker that is taken off its task. -/
def giveUp : Worker τ → Worker τ
  | .busy task => .abandoned task
  | worker => worker

/-- The state after an event; `none` if the event cannot happen. -/
def step (lane : Lane τ) : Event → Option (Lane τ)
  | .take worker =>
    if lane.cancelled then none
    else
      match lane.workers[worker]?, lane.queue with
      | some .idle, task :: queue =>
        some { lane with
          queue := queue
          workers := lane.workers.set worker (.busy task)
          taken := lane.taken ++ [task] }
      | _, _ => none
  | .settle worker outcome =>
    match lane.workers[worker]? with
    | some (.busy task) =>
      some { lane with
        workers := lane.workers.set worker .idle
        handled := lane.handled ++ [(task, outcome)]
        acknowledged :=
          if SegmentError.settles outcome then lane.acknowledged ++ [task]
          else lane.acknowledged }
    | _ => none
  | .leave worker =>
    match lane.workers[worker]? with
    | some .idle =>
      if lane.cancelled || (lane.closed && lane.queue.isEmpty) then
        some { lane with workers := lane.workers.set worker .stopped }
      else none
    | _ => none
  | .cancel => some { lane with cancelled := true }
  | .close => some { lane with closed := true }
  | .abandon =>
    if lane.cancelled then some { lane with workers := lane.workers.map giveUp } else none

/-- The state after some events in order. -/
def run (lane : Lane τ) : List Event → Option (Lane τ)
  | [] => some lane
  | event :: events => (lane.step event).bind fun lane => lane.run events

/-- Whether a worker is handling a task. -/
def isBusy : Worker τ → Bool
  | .busy _ => true
  | _ => false

/-- Whether no task is being handled and none was abandoned. -/
def isDrained (lane : Lane τ) : Bool :=
  lane.workers.all fun worker =>
    match worker with
    | .busy _ => false
    | .abandoned _ => false
    | _ => true

end Lane

end TripArchive.Pool
