import Mathlib.Data.List.Nodup
import TripArchive.Proofs.Pool.Acknowledgement
import TripArchive.Proofs.Pool.Exactness

/-!
# The pool

A pool runs the workers of two queues side by side, and all of them stop together. Tasks may be
alike, so a run is followed on the tasks with their places in the queue, and `pool_exact` says that
every run of a pool is an exact run on the numbered tasks.
-/

namespace TripArchive.Pool

variable {σ ν τ : Type}

/-- Whether an event is about one queue, and not about all workers of the pool. -/
def Event.isLocal : Event → Bool
  | .cancel => false
  | .abandon => false
  | _ => true

/-- The two queues of a pool with their workers. -/
structure Lanes (σ ν : Type) where
  segments : Lane σ
  vehicles : Lane ν

/-- Something that can happen to a pool. -/
inductive Turn
  | segments (event : Event) (hlocal : event.isLocal = true)
  | vehicles (event : Event) (hlocal : event.isLocal = true)
  /-- The pool is told to stop. -/
  | cancel
  /-- The time to drain is over. -/
  | abandon

namespace Turn

/-- What a turn is for the workers on segments. -/
def onSegments : Turn → Option Event
  | segments event _ => some event
  | vehicles _ _ => none
  | cancel => some .cancel
  | abandon => some .abandon

/-- What a turn is for the worker on vehicles. -/
def onVehicles : Turn → Option Event
  | segments _ _ => none
  | vehicles event _ => some event
  | cancel => some .cancel
  | abandon => some .abandon

end Turn

/-- A worker, with another task in the place of its own. -/
def Worker.map (f : τ → σ) : Worker τ → Worker σ
  | .idle => .idle
  | .busy task => .busy (f task)
  | .stopped => .stopped
  | .abandoned task => .abandoned (f task)

namespace Lane

/-- A lane, with other tasks in the places of its own. -/
def map (f : τ → σ) (lane : Lane τ) : Lane σ where
  queue := lane.queue.map f
  closed := lane.closed
  cancelled := lane.cancelled
  workers := lane.workers.map (Worker.map f)
  taken := lane.taken.map f
  handled := lane.handled.map fun entry => (f entry.1, entry.2)
  acknowledged := lane.acknowledged.map f

/-- Workers do not look at their tasks. -/
theorem step_map (f : τ → σ) (lane : Lane τ) (event : Event) :
    (lane.map f).step event = (lane.step event).map (map f) := by
  cases event with
  | take worker =>
    simp only [step, map, List.getElem?_map]
    cases hcancelled : lane.cancelled with
    | true => rfl
    | false =>
      cases lane.workers[worker]? with
      | none => rfl
      | some holder =>
        cases holder <;> cases lane.queue <;> simp [map, Worker.map, List.map_set]
  | settle worker outcome =>
    simp only [step, map, List.getElem?_map]
    cases lane.workers[worker]? with
    | none => rfl
    | some holder =>
      cases holder <;> cases hsettles : SegmentError.settles outcome <;>
        simp [map, Worker.map, List.map_set]
  | leave worker =>
    simp only [step, map, List.getElem?_map, List.isEmpty_map]
    cases lane.workers[worker]? with
    | none => rfl
    | some holder =>
      cases holder with
      | idle =>
        by_cases hdone : (lane.cancelled || (lane.closed && lane.queue.isEmpty)) = true <;>
          simp [map, Worker.map, List.map_set, hdone]
      | busy task => rfl
      | stopped => rfl
      | abandoned task => rfl
  | cancel => rfl
  | close => rfl
  | abandon =>
    have hgiveUp : giveUp ∘ Worker.map f = Worker.map f ∘ giveUp := by
      funext worker
      cases worker <;> rfl
    simp only [step, map]
    by_cases hcancelled : lane.cancelled = true <;> simp [map, hgiveUp, hcancelled]

/-- What workers do depends on the length of the queue alone. -/
theorem run_map (f : τ → σ) (lane : Lane τ) (events : List Event) :
    (lane.map f).run events = (lane.run events).map (map f) := by
  induction events generalizing lane with
  | nil => rfl
  | cons event events ih =>
    show ((lane.map f).step event).bind _ = ((lane.step event).bind _).map _
    rw [step_map]
    cases lane.step event with
    | none => rfl
    | some next => exact ih next

/-- A lane starts alike with other tasks. -/
theorem start_map (f : τ → σ) (workers : Nat) (tasks : List τ) :
    (start workers tasks).map f = start workers (tasks.map f) := by
  simp [start, map, Worker.map]

/-- Numbers do not change what workers do. -/
theorem exists_numbered {workers : Nat} {tasks : List τ} {events : List Event} {lane : Lane τ}
    (h : (start workers tasks).run events = some lane) :
    ∃ numbered, (start workers tasks.zipIdx).run events = some numbered ∧
      numbered.map Prod.fst = lane := by
  rw [← List.zipIdx_map_fst 0 tasks, ← start_map, run_map] at h
  exact Option.map_eq_some_iff.mp h

end Lane

/-- Tasks with their places are told apart. -/
theorem nodup_zipIdx (tasks : List τ) : tasks.zipIdx.Nodup := by
  refine List.Nodup.of_map Prod.snd ?_
  rw [List.zipIdx_map_snd]
  exact List.nodup_range'

namespace Lanes

/-- A pool of some workers on segments and one on vehicles before anything happened. -/
def start (workers : Nat) (segments : List σ) (vehicles : List ν) : Lanes σ ν :=
  ⟨Lane.start workers segments, Lane.start 1 vehicles⟩

/-- The state after a turn; `none` if it cannot come. -/
def step (lanes : Lanes σ ν) (turn : Turn) : Option (Lanes σ ν) := do
  let segments ← turn.onSegments.elim (some lanes.segments) lanes.segments.step
  let vehicles ← turn.onVehicles.elim (some lanes.vehicles) lanes.vehicles.step
  some ⟨segments, vehicles⟩

/-- The state after some turns in order. -/
def run (lanes : Lanes σ ν) : List Turn → Option (Lanes σ ν)
  | [] => some lanes
  | turn :: turns => (lanes.step turn).bind fun lanes => lanes.run turns

/-- A pool, with other tasks in the places of its own. -/
def map {σ' ν' : Type} (f : σ → σ') (g : ν → ν') (lanes : Lanes σ ν) : Lanes σ' ν' :=
  ⟨lanes.segments.map f, lanes.vehicles.map g⟩

/-- What a run of a pool over two queues without repetitions keeps to. -/
structure Exact [DecidableEq σ] [DecidableEq ν] (workers : Nat) (segments : List σ)
    (vehicles : List ν) (turns : List Turn) (lanes : Lanes σ ν) : Prop where
  onSegments : lanes.segments.Exact workers segments (turns.filterMap Turn.onSegments)
  onVehicles : lanes.vehicles.Exact 1 vehicles (turns.filterMap Turn.onVehicles)
  /-- After the pool was told to stop, no worker takes a task. -/
  cancelled : ∀ before after middle, turns = before ++ .cancel :: after →
    (start workers segments vehicles).run before = some middle →
    lanes.segments.taken = middle.segments.taken ∧ lanes.vehicles.taken = middle.vehicles.taken

variable {lanes next : Lanes σ ν} {turns : List Turn} {workers : Nat} {segments : List σ}
  {vehicles : List ν}

/-- A run of a pool is a run of each of its lanes. -/
theorem run_eq_some_iff :
    lanes.run turns = some next ↔
      lanes.segments.run (turns.filterMap Turn.onSegments) = some next.segments ∧
        lanes.vehicles.run (turns.filterMap Turn.onVehicles) = some next.vehicles := by
  induction turns generalizing lanes with
  | nil =>
    cases lanes
    cases next
    simp [run, Lane.run]
  | cons turn turns ih =>
    have hsegments : ∀ lane : Lane σ, lane.run ((turn :: turns).filterMap Turn.onSegments) =
        (turn.onSegments.elim (some lane) lane.step).bind fun lane =>
          lane.run (turns.filterMap Turn.onSegments) := by
      intro lane
      cases turn <;> rfl
    have hvehicles : ∀ lane : Lane ν, lane.run ((turn :: turns).filterMap Turn.onVehicles) =
        (turn.onVehicles.elim (some lane) lane.step).bind fun lane =>
          lane.run (turns.filterMap Turn.onVehicles) := by
      intro lane
      cases turn <;> rfl
    rw [hsegments, hvehicles]
    show (lanes.step turn).bind _ = _ ↔ _
    unfold step
    cases turn.onSegments.elim (some lanes.segments) lanes.segments.step with
    | none => simp
    | some segments =>
      cases turn.onVehicles.elim (some lanes.vehicles) lanes.vehicles.step with
      | none => simp
      | some vehicles => exact ih

/-- Whatever the outcomes and whoever comes first, a run of a pool is exact. -/
theorem exact_of_run [DecidableEq σ] [DecidableEq ν] (hworkers : 0 < workers)
    (hsegments : segments.Nodup) (hvehicles : vehicles.Nodup)
    (h : (start workers segments vehicles).run turns = some lanes) :
    lanes.Exact workers segments vehicles turns := by
  obtain ⟨hrun, hrun'⟩ := run_eq_some_iff.mp h
  refine ⟨Lane.exact_of_run hworkers hsegments hrun,
    Lane.exact_of_run Nat.one_pos hvehicles hrun', ?_⟩
  rintro before after middle rfl hmiddle
  obtain ⟨hbefore, hbefore'⟩ := run_eq_some_iff.mp hmiddle
  rw [List.filterMap_append] at hrun hrun'
  exact ⟨Lane.taken_of_cancel (Lane.run_of_append hrun hbefore),
    Lane.taken_of_cancel (Lane.run_of_append hrun' hbefore')⟩

end Lanes

/-- Every run of a pool, with any number of workers on segments, any queues, any outcomes and any
order of turns, is an exact run on the tasks with their places in the queues. -/
theorem pool_exact [DecidableEq σ] [DecidableEq ν] {workers : Nat} (hworkers : 0 < workers)
    {segments : List σ} {vehicles : List ν} {turns : List Turn} {lanes : Lanes σ ν}
    (h : (Lanes.start workers segments vehicles).run turns = some lanes) :
    ∃ numbered, (Lanes.start workers segments.zipIdx vehicles.zipIdx).run turns = some numbered ∧
      numbered.map Prod.fst Prod.fst = lanes ∧
      numbered.Exact workers segments.zipIdx vehicles.zipIdx turns := by
  obtain ⟨hsegments, hvehicles⟩ := Lanes.run_eq_some_iff.mp h
  obtain ⟨first, hfirst, hfirst'⟩ := Lane.exists_numbered hsegments
  obtain ⟨second, hsecond, hsecond'⟩ := Lane.exists_numbered hvehicles
  have hrun : (Lanes.start workers segments.zipIdx vehicles.zipIdx).run turns =
      some ⟨first, second⟩ := Lanes.run_eq_some_iff.mpr ⟨hfirst, hsecond⟩
  refine ⟨⟨first, second⟩, hrun, ?_,
    Lanes.exact_of_run hworkers (nodup_zipIdx segments) (nodup_zipIdx vehicles) hrun⟩
  unfold Lanes.map
  rw [hfirst', hsecond']

/-- An event of a vehicle that was minted, at an offset. -/
def mintAt (offset : Int) : Task MintEvent :=
  ⟨⟨"", "", "", "", none, "", ⟨none, none, "device", 7⟩⟩, ⟨"vehicles", 0, offset⟩⟩

/-- Both workers on segments take a task, one fails in a transient way, and the other one is still
busy when the time to drain is over. -/
def cutShort : List Turn :=
  [.segments (.take 0) rfl, .vehicles (.take 0) rfl, .segments (.take 1) rfl,
    .segments (.settle 1 (.error (.store (.database "reset")))) rfl, .cancel,
    .segments (.leave 1) rfl, .vehicles (.settle 0 (.ok ())) rfl, .abandon]

/-- Two tasks that are alike meet with different fates, and neither is acknowledged. -/
theorem alike_tasks_cut_short :
    ∃ numbered, (Lanes.start 2 [taskAt 1, taskAt 1].zipIdx [mintAt 1].zipIdx).run cutShort =
        some numbered ∧
      numbered.Exact 2 [taskAt 1, taskAt 1].zipIdx [mintAt 1].zipIdx cutShort ∧
      numbered.segments.workers = [.abandoned (taskAt 1, 0), .stopped] ∧
      numbered.segments.acknowledged = [] ∧ numbered.vehicles.acknowledged = [(mintAt 1, 0)] := by
  have hrun : (Lanes.start 2 [taskAt 1, taskAt 1] [mintAt 1]).run cutShort = some _ := rfl
  obtain ⟨numbered, hnumbered, _, hexact⟩ := pool_exact (by decide) hrun
  refine ⟨numbered, hnumbered, hexact, ?_⟩
  cases hnumbered
  exact ⟨rfl, rfl, rfl⟩

end TripArchive.Pool
