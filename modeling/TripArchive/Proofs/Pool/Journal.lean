import TripArchive.Proofs.Pool.Accounting

/-!
# What happened to every task

The journal of a run is what its workers did with tasks, one deed after the other, read off from
what the logs of the lane gained with each event. In a run over a queue without repetitions the
deeds about one task can only be the beginning of its way from the queue to the acknowledgement,
all by one worker: `Fate` lists how far it may have come and `fate_of_run` follows every run.
-/

namespace TripArchive.Pool

variable {τ : Type}

/-- Something that a worker does with a task. -/
inductive Deed (τ : Type)
  | took (worker : Nat) (task : τ)
  | handled (worker : Nat) (task : τ) (outcome : Outcome)
  | acknowledged (worker : Nat) (task : τ)

namespace Deed

/-- The task that a deed is about. -/
def task : Deed τ → τ
  | took _ task => task
  | handled _ task _ => task
  | acknowledged _ task => task

/-- The task that was taken. -/
def taken? : Deed τ → Option τ
  | took _ task => some task
  | _ => none

/-- The task that was handled, and how. -/
def handled? : Deed τ → Option (τ × Outcome)
  | handled _ task outcome => some (task, outcome)
  | _ => none

/-- The task that was acknowledged. -/
def acknowledged? : Deed τ → Option τ
  | acknowledged _ task => some task
  | _ => none

end Deed

/-- The worker that an event is about. -/
def Event.worker? : Event → Option Nat
  | .take worker => some worker
  | .settle worker _ => some worker
  | .leave worker => some worker
  | _ => none

namespace Lane

/-- The deeds of a worker by which the logs of a lane grew. -/
def gained (before after : Lane τ) (worker : Nat) : List (Deed τ) :=
  (after.taken.drop before.taken.length).map (.took worker) ++
    ((after.handled.drop before.handled.length).map
      (fun entry => .handled worker entry.1 entry.2) ++
      (after.acknowledged.drop before.acknowledged.length).map (.acknowledged worker))

/-- The deeds of an event. -/
def deeds (before : Lane τ) (event : Event) (after : Lane τ) : List (Deed τ) :=
  event.worker?.elim [] (before.gained after)

/-- The deeds of a run. -/
def journal (lane : Lane τ) : List Event → List (Deed τ)
  | [] => []
  | event :: events =>
    (lane.step event).elim [] fun next => lane.deeds event next ++ next.journal events

/-- How far a task has come, with the deeds that brought it there. -/
inductive Fate (lane : Lane τ) (task : τ) : List (Deed τ) → Prop
  | queued (hqueue : task ∈ lane.queue) : Fate lane task []
  | inHand {worker : Nat} (hbusy : lane.workers[worker]? = some (.busy task)) :
      Fate lane task [.took worker task]
  | abandoned {worker : Nat} (hgone : lane.workers[worker]? = some (.abandoned task)) :
      Fate lane task [.took worker task]
  /-- Handled for good: well, or with an error that is not transient. -/
  | settled {worker : Nat} {outcome : Outcome} (hhandled : (task, outcome) ∈ lane.handled)
      (hlasting : ∀ e, outcome = .error e → e.errorClass ≠ .transient) :
      Fate lane task
        [.took worker task, .handled worker task outcome, .acknowledged worker task]
  /-- Handled with a transient error, and left for another delivery. -/
  | left {worker : Nat} {e : SegmentError} (hhandled : (task, .error e) ∈ lane.handled)
      (htransient : e.errorClass = .transient) :
      Fate lane task [.took worker task, .handled worker task (.error e)]

variable {tasks : List τ} {lane next : Lane τ} {event : Event} {events : List Event}
  {task : τ} {worker : Nat} {outcome : Outcome}

/-- A journal goes on with the deeds of one more event. -/
theorem journal_concat {start : Lane τ} (hrun : start.run events = some lane)
    (hstep : lane.step event = some next) :
    start.journal (events ++ [event]) = start.journal events ++ lane.deeds event next := by
  induction events generalizing start with
  | nil =>
    cases hrun
    show (lane.step event).elim [] _ = _
    rw [hstep]
    exact List.append_nil _
  | cons first events ih =>
    obtain ⟨middle, hfirst, hrest⟩ := Option.bind_eq_some_iff.mp hrun
    show (start.step first).elim [] _ = (start.step first).elim [] _ ++ _
    rw [hfirst]
    show start.deeds first middle ++ middle.journal (events ++ [event]) =
      start.deeds first middle ++ middle.journal events ++ lane.deeds event next
    rw [ih hrest, List.append_assoc]

/-- Taking a task is one deed. -/
theorem deeds_take (queue : List τ) (workers : List (Worker τ)) :
    lane.deeds (.take worker)
        { lane with queue := queue, workers := workers, taken := lane.taken ++ [task] } =
      [.took worker task] := by
  simp [deeds, Event.worker?, gained]

/-- Settling a task is handling it, and acknowledging it if that settles it. -/
theorem deeds_settle (workers : List (Worker τ)) :
    lane.deeds (.settle worker outcome)
        { lane with
          workers := workers
          handled := lane.handled ++ [(task, outcome)]
          acknowledged :=
            if SegmentError.settles outcome then lane.acknowledged ++ [task]
            else lane.acknowledged } =
      .handled worker task outcome ::
        if SegmentError.settles outcome then [.acknowledged worker task] else [] := by
  cases hsettles : SegmentError.settles outcome <;>
    simp [deeds, Event.worker?, gained]

/-- Leaving does nothing with a task. -/
theorem deeds_leave (workers : List (Worker τ)) :
    lane.deeds (.leave worker) { lane with workers := workers } = [] := by
  simp [deeds, Event.worker?, gained]

/-- An event of no worker does nothing with a task. -/
theorem deeds_of_none (h : event.worker? = none) : lane.deeds event next = [] := by
  unfold deeds
  rw [h]
  rfl

/-- The deeds of an event are what the logs of the lane gain. -/
theorem logs_of_step (h : lane.step event = some next) :
    next.taken = lane.taken ++ (lane.deeds event next).filterMap Deed.taken? ∧
      next.handled = lane.handled ++ (lane.deeds event next).filterMap Deed.handled? ∧
      next.acknowledged =
        lane.acknowledged ++ (lane.deeds event next).filterMap Deed.acknowledged? := by
  cases happens_of_step h with
  | take hactive hidle hqueue =>
    rw [deeds_take]
    exact ⟨rfl, (List.append_nil _).symm, (List.append_nil _).symm⟩
  | @settle worker task outcome hbusy =>
    rw [deeds_settle]
    cases hsettles : SegmentError.settles outcome <;>
      simp [Deed.taken?, Deed.handled?, Deed.acknowledged?, List.filterMap_cons]
  | leave hidle hdone =>
    rw [deeds_leave]
    exact ⟨(List.append_nil _).symm, (List.append_nil _).symm, (List.append_nil _).symm⟩
  | _ => exact ⟨(List.append_nil _).symm, (List.append_nil _).symm, (List.append_nil _).symm⟩

/-- The logs of a lane are what its journal says was taken, handled and acknowledged. -/
theorem logs_of_run {workers : Nat} (h : (start workers tasks).run events = some lane) :
    lane.taken = ((start workers tasks).journal events).filterMap Deed.taken? ∧
      lane.handled = ((start workers tasks).journal events).filterMap Deed.handled? ∧
      lane.acknowledged = ((start workers tasks).journal events).filterMap Deed.acknowledged? := by
  induction events using List.reverseRecOn generalizing lane with
  | nil =>
    cases h
    exact ⟨rfl, rfl, rfl⟩
  | append_singleton events event ih =>
    obtain ⟨middle, hrun, hstep⟩ := run_concat_eq_some h
    obtain ⟨htaken, hhandled, hacknowledged⟩ := logs_of_step hstep
    obtain ⟨htaken', hhandled', hacknowledged'⟩ := ih hrun
    rw [journal_concat hrun hstep, List.filterMap_append, List.filterMap_append,
      List.filterMap_append, ← htaken', ← hhandled', ← hacknowledged']
    exact ⟨htaken, hhandled, hacknowledged⟩

/-- A worker is left alone when another one changes. -/
theorem getElem?_set_of_ne {i : Nat} {old holder : Worker τ} (new : Worker τ)
    (hold : lane.workers[worker]? = some old) (hworker : lane.workers[i]? = some holder)
    (hne : old ≠ holder) : (lane.workers.set worker new)[i]? = some holder := by
  refine (List.getElem?_set_ne fun heq => hne ?_).trans hworker
  rw [← heq, hold] at hworker
  exact Option.some.inj hworker

/-- A worker that has a task in hand is left alone when one changes that has not. -/
theorem getElem?_set_of_held {i : Nat} {old holder : Worker τ} (new : Worker τ)
    (hold : lane.workers[worker]? = some old) (hother : old.held ≠ some task)
    (hworker : lane.workers[i]? = some holder) (hheld : holder.held = some task) :
    (lane.workers.set worker new)[i]? = some holder := by
  refine getElem?_set_of_ne new hold hworker fun heq => hother ?_
  rw [heq, hheld]

namespace Fate

variable {about : List (Deed τ)}

/-- An event that leaves a task where it is leaves its fate. -/
theorem frame (h : Fate lane task about) (hqueue : task ∈ lane.queue → task ∈ next.queue)
    (hworkers : ∀ (worker : Nat) (holder : Worker τ), lane.workers[worker]? = some holder →
      holder.held = some task → next.workers[worker]? = some holder)
    (hhandled : lane.handled ⊆ next.handled) : Fate next task about := by
  cases h with
  | queued hin => exact .queued (hqueue hin)
  | inHand hbusy => exact .inHand (hworkers _ _ hbusy rfl)
  | abandoned hgone => exact .abandoned (hworkers _ _ hgone rfl)
  | settled hin hlasting => exact .settled (hhandled hin) hlasting
  | left hin htransient => exact .left (hhandled hin) htransient

/-- A task that is in the queue met with no deed yet. -/
theorem of_queue (h : Fate lane task about) (haccounted : Accounted tasks lane)
    (hnodup : tasks.Nodup) (hqueue : task ∈ lane.queue) : about = [] := by
  cases h with
  | queued hin => rfl
  | inHand hbusy =>
    have hhand := mem_inHand (List.mem_of_getElem? hbusy) rfl
    exact absurd hqueue (haccounted.not_elsewhere hnodup hhand).1
  | abandoned hgone =>
    have hhand := mem_inHand (List.mem_of_getElem? hgone) rfl
    exact absurd hqueue (haccounted.not_elsewhere hnodup hhand).1
  | settled hin hlasting => exact absurd hqueue (haccounted.not_queued hnodup hin)
  | left hin htransient => exact absurd hqueue (haccounted.not_queued hnodup hin)

/-- A task that a worker has in hand was taken by that worker. -/
theorem of_held (h : Fate lane task about) (haccounted : Accounted tasks lane)
    (hnodup : tasks.Nodup) {holder : Worker τ} (hworker : lane.workers[worker]? = some holder)
    (hheld : holder.held = some task) : about = [.took worker task] := by
  obtain ⟨hqueue, hhandled⟩ :=
    haccounted.not_elsewhere hnodup (mem_inHand (List.mem_of_getElem? hworker) hheld)
  cases h with
  | queued hin => exact absurd hin hqueue
  | inHand hbusy => rw [haccounted.holder_unique hnodup hworker hheld hbusy rfl]
  | abandoned hgone => rw [haccounted.holder_unique hnodup hworker hheld hgone rfl]
  | settled hin hlasting => exact absurd hin (hhandled _)
  | left hin htransient => exact absurd hin (hhandled _)

/-- A task that was just handled is settled or left. -/
theorem of_outcome (hhandled : (task, outcome) ∈ lane.handled) :
    Fate lane task (.took worker task :: .handled worker task outcome ::
      if SegmentError.settles outcome then [.acknowledged worker task] else []) := by
  cases outcome with
  | ok done => exact .settled hhandled nofun
  | error e =>
    by_cases htransient : e.errorClass = .transient
    · rw [if_neg fun hsettles => (settles_error e).mp hsettles htransient]
      exact .left hhandled htransient
    · rw [if_pos ((settles_error e).mpr htransient)]
      refine .settled hhandled ?_
      rintro _ ⟨⟩
      exact htransient

/-- One event brings a task further by its deeds about the task. -/
theorem step [DecidableEq τ] (h : Fate lane task about) (haccounted : Accounted tasks lane)
    (hnodup : tasks.Nodup) (hstep : lane.step event = some next) :
    Fate next task (about ++ (lane.deeds event next).filter fun deed => deed.task = task) := by
  cases happens_of_step hstep with
  | @take worker first queue hactive hidle hqueue =>
    rw [deeds_take]
    by_cases hfirst : first = task
    · subst hfirst
      have hnone := h.of_queue haccounted hnodup (hqueue ▸ List.mem_cons_self)
      rw [hnone, List.filter_cons_of_pos (by simp [Deed.task])]
      exact .inHand (List.getElem?_set_self (List.getElem?_eq_some_iff.mp hidle).1)
    · rw [List.filter_cons_of_neg (by simp [Deed.task, hfirst]), List.filter_nil, List.append_nil]
      refine h.frame (fun hin => ?_) (fun i holder => getElem?_set_of_held _ hidle nofun)
        (List.Subset.refl _)
      rw [hqueue] at hin
      exact (List.mem_cons.mp hin).resolve_left (Ne.symm hfirst)
  | @settle worker done outcome hbusy =>
    rw [deeds_settle]
    by_cases hdone : done = task
    · subst hdone
      rw [h.of_held haccounted hnodup hbusy rfl, List.filter_eq_self.mpr ?_]
      · exact .of_outcome (List.mem_append_right _ (List.mem_singleton_self _))
      · cases SegmentError.settles outcome <;> simp [Deed.task]
    · rw [List.filter_eq_nil_iff.mpr ?_, List.append_nil]
      · have hother : Worker.held (.busy done) ≠ some task := fun heq => hdone (Option.some.inj heq)
        exact h.frame id (fun i holder => getElem?_set_of_held _ hbusy hother)
          (List.subset_append_left _ _)
      · cases SegmentError.settles outcome <;> simp [Deed.task, hdone]
  | @leave worker hidle hdone =>
    rw [deeds_leave, List.filter_nil, List.append_nil]
    exact h.frame id (fun i holder => getElem?_set_of_held _ hidle nofun) (List.Subset.refl _)
  | cancel =>
    rw [deeds_of_none rfl, List.filter_nil, List.append_nil]
    exact h.frame id (fun _ _ hworker _ => hworker) (List.Subset.refl _)
  | close =>
    rw [deeds_of_none rfl, List.filter_nil, List.append_nil]
    exact h.frame id (fun _ _ hworker _ => hworker) (List.Subset.refl _)
  | abandon hcancelled =>
    rw [deeds_of_none rfl, List.filter_nil, List.append_nil]
    have hnext : ∀ (worker : Nat) (holder : Worker τ), lane.workers[worker]? = some holder →
        (lane.workers.map giveUp)[worker]? = some (giveUp holder) := by
      intro worker holder hworker
      rw [List.getElem?_map, hworker]
      rfl
    -- Only here a worker changes that keeps its task in hand.
    cases h with
    | queued hin => exact .queued hin
    | inHand hbusy => exact .abandoned (hnext _ _ hbusy)
    | abandoned hgone => exact .abandoned (hnext _ _ hgone)
    | settled hin hlasting => exact .settled hin hlasting
    | left hin htransient => exact .left hin htransient

end Fate

/-- Whatever the workers do, every task of the queue has one of the fates. -/
theorem fate_of_run [DecidableEq τ] {workers : Nat} (hnodup : tasks.Nodup)
    (h : (start workers tasks).run events = some lane) (htask : task ∈ tasks) :
    Fate lane task
      (((start workers tasks).journal events).filter fun deed => deed.task = task) := by
  induction events using List.reverseRecOn generalizing lane with
  | nil =>
    cases h
    exact .queued htask
  | append_singleton events event ih =>
    obtain ⟨middle, hrun, hstep⟩ := run_concat_eq_some h
    rw [journal_concat hrun hstep, List.filter_append]
    exact (ih hrun).step (accounted_of_run hrun) hnodup hstep

end Lane

end TripArchive.Pool
