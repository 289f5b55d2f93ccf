import TripArchive.Proofs.Pool.Journal

/-!
# Nothing is lost and nothing is done twice

`Exact` says what every run of workers over a queue keeps to, whatever the outcomes and whoever
comes first: the fate of each task, who goes on and who leaves, and what a cancellation and the end
of the time to drain leave as it is. `exact_of_run` proves it of all runs.
-/

namespace TripArchive.Pool

variable {τ : Type}

namespace Lane

/-- What a run of workers over a queue without repetitions keeps to. -/
structure Exact [DecidableEq τ] (workers : Nat) (tasks : List τ) (events : List Event)
    (lane : Lane τ) : Prop where
  /-- The journal tells of everything that the lane logs, in the order of the logs. -/
  recorded :
    lane.taken = ((start workers tasks).journal events).filterMap Deed.taken? ∧
      lane.handled = ((start workers tasks).journal events).filterMap Deed.handled? ∧
      lane.acknowledged = ((start workers tasks).journal events).filterMap Deed.acknowledged?
  /-- Tasks are taken in the order of the queue. -/
  order : lane.taken ++ lane.queue = tasks
  /-- A task is taken by one worker at most, which handles it once at most, and acknowledges it
  once afterwards exactly if it ends well or with an error that is not transient. -/
  fate : ∀ task ∈ tasks, Fate lane task
    (((start workers tasks).journal events).filter fun deed => deed.task = task)
  /-- However a task ends, its worker is free for the next one. -/
  free : ∀ before worker outcome after middle, events = before ++ .settle worker outcome :: after →
    (start workers tasks).run (before ++ [.settle worker outcome]) = some middle →
    middle.workers[worker]? = some .idle
  /-- A free worker can take a task as long as there is one and it was not cancelled. -/
  ready : ∀ worker : Nat, lane.workers[worker]? = some .idle → lane.cancelled = false →
    lane.queue ≠ [] → ∃ next, lane.step (.take worker) = some next
  /-- Workers leave after a cancellation, or when there is nothing to do any more. -/
  stays : .stopped ∈ lane.workers →
    lane.cancelled = true ∨ (lane.closed = true ∧ lane.queue = [])
  /-- When all workers have left without a cancellation, every task was handled exactly once. -/
  complete : lane.cancelled = false → (∀ worker ∈ lane.workers, worker = .stopped) →
    lane.closed = true ∧ (lane.handled.map Prod.fst).Perm tasks
  /-- After a cancellation no task is taken. -/
  cancelled : ∀ before after middle, events = before ++ after →
    (start workers tasks).run before = some middle → middle.cancelled = true →
    lane.taken = middle.taken
  /-- A task that a worker was taken off is never acknowledged. -/
  abandoned : ∀ before after middle (worker : Nat) task, events = before ++ after →
    (start workers tasks).run before = some middle →
    middle.workers[worker]? = some (.abandoned task) →
    lane.workers[worker]? = some (.abandoned task) ∧ task ∉ lane.acknowledged

variable {tasks : List τ} {lane next : Lane τ} {event : Event} {events : List Event}
  {task : τ} {worker workers : Nat} {outcome : Outcome}

/-- What every event keeps holds at the end of a run if it holds at its beginning. -/
theorem keeps_of_run {P : Lane τ → Prop}
    (hkeeps : ∀ {lane event next}, P lane → Happens lane event next → P next)
    (hrun : lane.run events = some next) (hlane : P lane) : P next := by
  induction events generalizing lane with
  | nil =>
    cases hrun
    exact hlane
  | cons event events ih =>
    obtain ⟨middle, hstep, hrest⟩ := Option.bind_eq_some_iff.mp hrun
    exact ih hrest (hkeeps hlane (happens_of_step hstep))

/-- The second part of a run goes on from the first. -/
theorem run_of_append {before after : List Event} {middle : Lane τ}
    (hrun : lane.run (before ++ after) = some next) (hbefore : lane.run before = some middle) :
    middle.run after = some next := by
  rwa [run_append, hbefore] at hrun

/-- The number of workers stays. -/
theorem length_workers_of_run (h : (start workers tasks).run events = some lane) :
    lane.workers.length = workers := by
  refine keeps_of_run (P := fun lane => lane.workers.length = workers) ?_ h
    (List.length_replicate)
  intro lane event next hlength hhappens
  cases hhappens with
  | take hactive hidle hqueue => exact List.length_set.trans hlength
  | settle hbusy => exact List.length_set.trans hlength
  | leave hidle hdone => exact List.length_set.trans hlength
  | cancel => exact hlength
  | close => exact hlength
  | abandon hcancelled => exact (List.length_map _).trans hlength

/-- Whoever has left did so after a cancellation, or when there was nothing to do any more. -/
theorem stays_of_run (h : (start workers tasks).run events = some lane)
    (hstopped : .stopped ∈ lane.workers) :
    lane.cancelled = true ∨ (lane.closed = true ∧ lane.queue = []) := by
  refine keeps_of_run (P := fun lane => .stopped ∈ lane.workers →
    lane.cancelled = true ∨ (lane.closed = true ∧ lane.queue = [])) ?_ h ?_ hstopped
  · intro lane event next hstays hhappens hmem
    cases hhappens with
    | @take worker task queue hactive hidle hqueue =>
      have hold := (List.mem_or_eq_of_mem_set hmem).resolve_right nofun
      rcases hstays hold with hcancelled | ⟨hclosed, hempty⟩
      · exact .inl hcancelled
      · rw [hqueue] at hempty
        cases hempty
    | settle hbusy => exact hstays ((List.mem_or_eq_of_mem_set hmem).resolve_right nofun)
    | leave hidle hdone => simpa using hdone
    | cancel => exact .inl rfl
    | close => exact (hstays hmem).imp_right fun hdone => ⟨rfl, hdone.2⟩
    | abandon hcancelled => exact .inl hcancelled
  · intro hmem
    cases List.eq_of_mem_replicate hmem

/-- After a cancellation the log of taken tasks stays. -/
theorem taken_of_cancelled (hrun : lane.run events = some next)
    (hcancelled : lane.cancelled = true) : next.cancelled = true ∧ next.taken = lane.taken := by
  refine keeps_of_run (P := fun other => other.cancelled = true ∧ other.taken = lane.taken) ?_ hrun
    ⟨hcancelled, rfl⟩
  rintro other event after ⟨hover, htaken⟩ hhappens
  cases hhappens with
  | take hactive hidle hqueue =>
    rw [hactive] at hover
    cases hover
  | settle hbusy => exact ⟨hover, htaken⟩
  | leave hidle hdone => exact ⟨hover, htaken⟩
  | cancel => exact ⟨rfl, htaken⟩
  | close => exact ⟨hover, htaken⟩
  | abandon _ => exact ⟨hover, htaken⟩

/-- From its cancellation on the log of taken tasks stays. -/
theorem taken_of_cancel (hrun : lane.run (.cancel :: events) = some next) :
    next.taken = lane.taken := by
  have hrest : Lane.run { lane with cancelled := true } events = some next := hrun
  exact (taken_of_cancelled hrest rfl).2

/-- A worker that was taken off its task stays so. -/
theorem abandoned_of_run (hrun : lane.run events = some next)
    (hgone : lane.workers[worker]? = some (.abandoned task)) :
    next.workers[worker]? = some (.abandoned task) := by
  refine keeps_of_run (P := fun lane => lane.workers[worker]? = some (.abandoned task)) ?_ hrun
    hgone
  intro lane event next hgone hhappens
  cases hhappens with
  | take hactive hidle hqueue => exact getElem?_set_of_ne _ hidle hgone nofun
  | settle hbusy => exact getElem?_set_of_ne _ hbusy hgone nofun
  | leave hidle hdone => exact getElem?_set_of_ne _ hidle hgone nofun
  | cancel => exact hgone
  | close => exact hgone
  | abandon hcancelled =>
    show (lane.workers.map giveUp)[worker]? = _
    rw [List.getElem?_map, hgone]
    rfl

/-- A worker that has settled its task is free. -/
theorem idle_of_settle (h : lane.step (.settle worker outcome) = some next) :
    next.workers[worker]? = some .idle := by
  cases happens_of_step h with
  | settle hbusy => exact List.getElem?_set_self (List.getElem?_eq_some_iff.mp hbusy).1

/-- A free worker takes the next task. -/
theorem take_of_idle (hidle : lane.workers[worker]? = some .idle)
    (hactive : lane.cancelled = false) (hqueue : lane.queue ≠ []) :
    ∃ next, lane.step (.take worker) = some next := by
  obtain ⟨task, queue, hcons⟩ := List.exists_cons_of_ne_nil hqueue
  unfold step
  simp only [hactive, hidle, hcons]
  exact ⟨_, rfl⟩

/-- When all workers have left without a cancellation, every task was handled exactly once. -/
theorem complete_of_run (hworkers : 0 < workers)
    (h : (start workers tasks).run events = some lane) (hactive : lane.cancelled = false)
    (hstopped : ∀ worker ∈ lane.workers, worker = .stopped) :
    lane.closed = true ∧ (lane.handled.map Prod.fst).Perm tasks := by
  have hsome : .stopped ∈ lane.workers := by
    obtain ⟨worker, hworker⟩ := List.exists_mem_of_length_pos
      (Nat.lt_of_lt_of_eq hworkers (length_workers_of_run h).symm)
    rwa [← hstopped worker hworker]
  have hdone : lane.closed = true ∧ lane.queue = [] := by
    refine (stays_of_run h hsome).resolve_left fun hcancelled => ?_
    rw [hactive] at hcancelled
    cases hcancelled
  have haccounted := accounted_of_run h
  have hnone : inHand lane.workers = [] := by
    refine List.filterMap_eq_nil_iff.mpr fun worker hworker => ?_
    rw [hstopped worker hworker]
    rfl
  have hsplit := haccounted.split
  have horder := haccounted.order
  rw [hnone, List.nil_append] at hsplit
  rw [hdone.2, List.append_nil] at horder
  rw [horder] at hsplit
  exact ⟨hdone.1, hsplit⟩

/-- A task that a worker was taken off was not acknowledged. -/
theorem Accounted.not_acknowledged (h : Accounted tasks lane) (hnodup : tasks.Nodup)
    (hgone : lane.workers[worker]? = some (.abandoned task)) : task ∉ lane.acknowledged := by
  intro hmem
  obtain ⟨outcome, hhandled, _⟩ := h.mem_acknowledged.mp hmem
  have hhand := mem_inHand (List.mem_of_getElem? hgone) rfl
  exact (h.not_elsewhere hnodup hhand).2 outcome hhandled

/-- Whatever the outcomes and whoever comes first, a run of workers is exact. -/
theorem exact_of_run [DecidableEq τ] (hworkers : 0 < workers) (hnodup : tasks.Nodup)
    (h : (start workers tasks).run events = some lane) : Exact workers tasks events lane where
  recorded := logs_of_run h
  order := (accounted_of_run h).order
  fate := fun _ => fate_of_run hnodup h
  free := by
    intro before worker outcome after middle _ hmiddle
    obtain ⟨last, _, hstep⟩ := run_concat_eq_some hmiddle
    exact idle_of_settle hstep
  ready := fun _ => take_of_idle
  stays := stays_of_run h
  complete := complete_of_run hworkers h
  cancelled := by
    rintro before after middle rfl hmiddle hcancelled
    exact (taken_of_cancelled (run_of_append h hmiddle) hcancelled).2
  abandoned := by
    rintro before after middle worker task rfl hmiddle hgone
    have hstill := abandoned_of_run (run_of_append h hmiddle) hgone
    exact ⟨hstill, (accounted_of_run h).not_acknowledged hnodup hstill⟩

end Lane

end TripArchive.Pool
