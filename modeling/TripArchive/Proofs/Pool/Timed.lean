import TripArchive.Pool.Schedule
import TripArchive.Proofs.Pool.Lanes

/-!
# Runs by the clock

How long its tasks take decides which turns a pool comes to, and in which order. `schedule_runs`
says that these are turns of a pool like any other, so that what every run of a pool keeps to holds
by the clock as well.
-/

namespace TripArchive.Pool

/-- Events that are about one queue. -/
def AllLocal (events : List Event) : Prop := ∀ event ∈ events, event.isLocal = true

namespace Timed

/-- An idle worker that takes the next task is an event. -/
theorem step_of_take? {run next : Timed} {now : Nat} (h : run.take? now = some next) :
    ∃ worker, run.lane.step (.take worker) = some next.lane := by
  unfold take? at h
  simp only [Option.bind_eq_bind, Option.bind_eq_some_iff, Option.some.injEq] at h
  obtain ⟨worker, _, job, _, lane, hstep, rfl⟩ := h
  exact ⟨worker, hstep⟩

/-- A worker that settles its task is an event. -/
theorem step_of_settle? {run next : Timed} {now worker : Nat} {job : Job}
    (h : run.settle? now worker job = some next) :
    run.lane.step (.settle worker job.outcome) = some next.lane := by
  unfold settle? at h
  simp only [Option.bind_eq_bind, Option.bind_eq_some_iff, Option.some.injEq] at h
  obtain ⟨lane, hstep, rfl⟩ := h
  exact hstep

/-- Going on by the clock is going on with some events of the queue. -/
theorem exists_run_go (taking : Bool) (limit fuel now : Nat) (run : Timed) :
    ∃ events, AllLocal events ∧ run.lane.run events = some (go taking limit fuel now run).lane := by
  induction fuel generalizing now run with
  | zero => exact ⟨[], nofun, rfl⟩
  | succ fuel ih =>
    have honward : ∀ {event : Event} {time : Nat} {next : Timed}, event.isLocal = true →
        run.lane.step event = some next.lane →
        ∃ events, AllLocal events ∧
          run.lane.run events = some (go taking limit fuel time next).lane := by
      intro event time next hlocal hstep
      obtain ⟨events, hevents, hrun⟩ := ih time next
      refine ⟨event :: events, List.forall_mem_cons.mpr ⟨hlocal, hevents⟩, ?_⟩
      show (run.lane.step event).bind _ = _
      rw [hstep]
      exact hrun
    unfold go
    split
    · next next htake =>
      have htake : run.take? now = some next := by
        cases taking
        · cases htake
        · exact htake
      obtain ⟨worker, hstep⟩ := step_of_take? htake
      exact honward rfl hstep
    · split
      · exact ⟨[], nofun, rfl⟩
      · next time worker job hend =>
        split
        · exact ⟨[], nofun, rfl⟩
        · split
          · exact ⟨[], nofun, rfl⟩
          · next next hsettle => exact honward rfl (step_of_settle? hsettle)

/-- Where nobody is busy, the end of the time to drain takes nobody off a task. -/
theorem abandon_of_isDrained {τ : Type} {lane : Lane τ} (hcancelled : lane.cancelled = true)
    (hdrained : lane.isDrained = true) : lane.step .abandon = some lane := by
  have hworkers : lane.workers.map Lane.giveUp = lane.workers := by
    refine (List.map_congr_left fun worker hworker => ?_).trans (List.map_id _)
    have hidle := List.all_eq_true.mp hdrained worker hworker
    cases worker with
    | busy task => cases hidle
    | _ => rfl
  unfold Lane.step
  rw [if_pos hcancelled, hworkers]

/-- A run by the clock is a run: until the cancellation, and then until the time is over. -/
theorem exists_run (workers : Nat) (jobs : List Job) (times : Times) :
    ∃ first second, AllLocal first ∧ AllLocal second ∧
      (Lane.start workers jobs).run (first ++ .cancel :: (second ++ [.abandon])) =
        some (Timed.run workers jobs times).lane := by
  obtain ⟨first, hfirst, htaking⟩ := exists_run_go true times.cancel (2 * jobs.length + 1) 0
    ⟨Lane.start workers jobs, List.replicate workers 0, []⟩
  unfold Timed.run
  dsimp only
  generalize Timed.go true times.cancel _ 0 _ = taking at htaking ⊢
  obtain ⟨second, hsecond, hdraining⟩ := exists_run_go false times.deadline (2 * jobs.length + 1)
    times.cancel (taking.force .cancel)
  generalize Timed.go false times.deadline _ _ _ = draining at hdraining ⊢
  have hcancelled := (Lane.taken_of_cancelled hdraining rfl).1
  refine ⟨first, second, hfirst, hsecond, ?_⟩
  rw [Lane.run_append, htaking]
  show ((taking.force .cancel).lane).run (second ++ [.abandon]) = _
  rw [Lane.run_concat, hdraining]
  show draining.lane.step .abandon = _
  by_cases hdrained : draining.lane.isDrained = true
  · rw [if_pos hdrained]
    exact abandon_of_isDrained hcancelled hdrained
  · rw [if_neg hdrained]
    show _ = some ((draining.lane.step .abandon).getD draining.lane)
    simp only [Lane.step, hcancelled, if_pos, Option.getD_some]

end Timed

/-- Turns of the segments are for the segments. -/
theorem onSegments_segments (events : List Event) (hlocal : AllLocal events) :
    (events.pmap Turn.segments hlocal).filterMap Turn.onSegments = events := by
  induction events with
  | nil => rfl
  | cons event events ih => exact congrArg (event :: ·) (ih (List.forall_mem_cons.mp hlocal).2)

/-- Turns of the vehicles are for the vehicles. -/
theorem onVehicles_vehicles (events : List Event) (hlocal : AllLocal events) :
    (events.pmap Turn.vehicles hlocal).filterMap Turn.onVehicles = events := by
  induction events with
  | nil => rfl
  | cons event events ih => exact congrArg (event :: ·) (ih (List.forall_mem_cons.mp hlocal).2)

/-- Turns of the vehicles are nothing to the segments. -/
theorem onSegments_vehicles (events : List Event) (hlocal : AllLocal events) :
    (events.pmap Turn.vehicles hlocal).filterMap Turn.onSegments = [] := by
  induction events with
  | nil => rfl
  | cons event events ih => exact ih (List.forall_mem_cons.mp hlocal).2

/-- Turns of the segments are nothing to the vehicles. -/
theorem onVehicles_segments (events : List Event) (hlocal : AllLocal events) :
    (events.pmap Turn.segments hlocal).filterMap Turn.onVehicles = [] := by
  induction events with
  | nil => rfl
  | cons event events ih => exact ih (List.forall_mem_cons.mp hlocal).2

/-- A schedule is a run of a pool that is told to stop and runs out of time. -/
theorem schedule_runs (workers : Nat) (segments vehicles : List Job) (times : Times) :
    ∃ turns, (Lanes.start workers segments vehicles).run turns =
      some ⟨(Timed.run workers segments times).lane, (Timed.run 1 vehicles times).lane⟩ := by
  obtain ⟨first, second, hfirst, hsecond, hsegments⟩ := Timed.exists_run workers segments times
  obtain ⟨first', second', hfirst', hsecond', hvehicles⟩ := Timed.exists_run 1 vehicles times
  refine ⟨first.pmap .segments hfirst ++ first'.pmap .vehicles hfirst' ++
    .cancel :: (second.pmap .segments hsecond ++ second'.pmap .vehicles hsecond' ++ [.abandon]),
    Lanes.run_eq_some_iff.mpr ⟨?_, ?_⟩⟩
  · simpa [Lanes.start, List.filterMap_append, onSegments_segments, onSegments_vehicles,
      Turn.onSegments] using hsegments
  · simpa [Lanes.start, List.filterMap_append, onVehicles_vehicles, onVehicles_segments,
      Turn.onVehicles] using hvehicles

end TripArchive.Pool
