import TripArchive.Pool.Lane

/-!
# Timed runs

A run of workers by the clock, when it is known how long each task takes and how it ends. Workers
take tasks as soon as they are idle, until they are cancelled; what does not end before the
deadline is abandoned.
-/

namespace TripArchive.Pool

/-- A task whose handling takes a known time and ends in a known way. -/
structure Job where
  offset : Int
  duration : Nat
  outcome : Outcome

/-- What a run shows: when tasks start, end and are acknowledged. -/
inductive Mark
  | started (offset : Int)
  | ended (offset : Int)
  | acknowledged (offset : Int)
  deriving DecidableEq, Repr

/-- A run under way: the workers, and since when each of them has been on its task. -/
structure Timed where
  lane : Lane Job
  since : List Nat
  marks : List (Nat × Mark)

namespace Timed

/-- The first worker that is idle. -/
def idleWorker? (run : Timed) : Option Nat :=
  run.lane.workers.findIdx? fun worker =>
    match worker with
    | .idle => true
    | _ => false

/-- When each busy worker will be done, by its number. -/
def ends (run : Timed) : List (Nat × Nat × Job) :=
  (run.lane.workers.zip run.since).zipIdx.filterMap fun ((worker, since), i) =>
    match worker with
    | .busy job => some (since + job.duration, i, job)
    | _ => none

/-- The worker that will be done first. -/
def nextEnd? (run : Timed) : Option (Nat × Nat × Job) :=
  run.ends.foldl
    (fun best next =>
      match best with
      | none => some next
      | some best => if next.1 < best.1 then some next else some best)
    none

/-- Lets an idle worker take the next task at a time. -/
def take? (run : Timed) (now : Nat) : Option Timed := do
  let worker ← run.idleWorker?
  let job ← run.lane.queue.head?
  let lane ← run.lane.step (.take worker)
  some ⟨lane, run.since.set worker now, run.marks ++ [(now, .started job.offset)]⟩

/-- Lets a worker settle its task at a time. -/
def settle? (run : Timed) (now worker : Nat) (job : Job) : Option Timed := do
  let lane ← run.lane.step (.settle worker job.outcome)
  let acknowledged :=
    if lane.acknowledged.length = run.lane.acknowledged.length then []
    else [(now, Mark.acknowledged job.offset)]
  some ⟨lane, run.since, run.marks ++ (now, .ended job.offset) :: acknowledged⟩

/-- Goes on from a time until nothing happens before `limit`. With `taking`, idle workers take
tasks. Every task starts and ends once, so `fuel` need not exceed twice their number. -/
def go (taking : Bool) (limit : Nat) : (fuel now : Nat) → Timed → Timed
  | 0, _, run => run
  | fuel + 1, now, run =>
    match if taking then run.take? now else none with
    | some run => go taking limit fuel now run
    | none =>
      match run.nextEnd? with
      | none => run
      | some (time, worker, job) =>
        if limit < time then run
        else
          match run.settle? time worker job with
          | none => run
          | some run => go taking limit fuel time run

/-- Lets something happen to all workers that is possible at any time. -/
def force (run : Timed) (event : Event) : Timed :=
  { run with lane := (run.lane.step event).getD run.lane }

end Timed

/-- When a pool is told to stop: cancelled, asked to drain, and out of time. -/
structure Times where
  cancel : Nat
  shutdown : Nat
  deadline : Nat

/-- Runs workers on jobs from time zero on. -/
def Timed.run (workers : Nat) (jobs : List Job) (times : Times) : Timed :=
  let fuel := 2 * jobs.length + 1
  let start : Timed := ⟨Lane.start workers jobs, List.replicate workers 0, []⟩
  let taking := Timed.go true times.cancel fuel 0 start
  let draining := Timed.go false times.deadline fuel times.cancel (taking.force .cancel)
  if draining.lane.isDrained then draining else draining.force .abandon

/-- When the last task ended, but not before `earliest`. -/
def Timed.lastEnd (run : Timed) (earliest : Nat) : Nat :=
  run.marks.foldl (fun latest mark => max latest mark.1) earliest

/-- What a pool of segment workers and one vehicle worker shows, and when it is done. -/
structure Report where
  segments : List (Nat × Mark)
  vehicles : List (Nat × Mark)
  drained : Bool
  finished : Nat

/-- Runs a pool on its two queues. -/
def schedule (workers : Nat) (segments vehicles : List Job) (times : Times) : Report :=
  let segmentRun := Timed.run workers segments times
  let vehicleRun := Timed.run 1 vehicles times
  let drained := segmentRun.lane.isDrained && vehicleRun.lane.isDrained
  { segments := segmentRun.marks
    vehicles := vehicleRun.marks
    drained := drained
    finished :=
      if drained then vehicleRun.lastEnd (segmentRun.lastEnd times.shutdown) else times.deadline }

end TripArchive.Pool
