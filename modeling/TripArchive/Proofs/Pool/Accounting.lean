import Mathlib.Data.List.Induction
import Mathlib.Data.List.Nodup
import TripArchive.Pool.Lane

/-!
# Where every task is

A task that was taken is held by one worker or was handled once, the tasks that were taken are the
beginning of the queue, and the acknowledged ones are those whose handling settles them, in its
order. `Accounted` says this of a lane and `accounted_of_run` of whatever a run leads to.
-/

namespace TripArchive.Pool

variable {τ : Type}

/-- The task that a worker has in hand, whether it goes on with it or was taken off it. -/
def Worker.held : Worker τ → Option τ
  | .busy task => some task
  | .abandoned task => some task
  | _ => none

namespace Lane

/-- The tasks that the workers have in hand. -/
def inHand (workers : List (Worker τ)) : List τ := workers.filterMap Worker.held

/-- The handled tasks that need no further delivery. -/
def settled (handled : List (τ × Outcome)) : List τ :=
  (handled.filter fun entry => SegmentError.settles entry.2).map Prod.fst

/-- Where the tasks of a queue are. -/
structure Accounted (tasks : List τ) (lane : Lane τ) : Prop where
  /-- Tasks are taken in the order of the queue. -/
  order : lane.taken ++ lane.queue = tasks
  /-- Every taken task is in one hand or was handled, and only once. -/
  split : (inHand lane.workers ++ lane.handled.map Prod.fst).Perm lane.taken
  /-- The acknowledged tasks are the settled ones, in the order of their handling. -/
  acknowledged : lane.acknowledged = settled lane.handled
  /-- Workers are taken off their tasks all at once. -/
  abandoned : (∃ task, .abandoned task ∈ lane.workers) → lane.cancelled = true ∧
    ∀ task, .busy task ∉ lane.workers

variable {tasks : List τ} {lane next : Lane τ}

/-- The hand of one worker is one among the hands. -/
theorem inHand_middle (worker : Worker τ) (before after : List (Worker τ)) :
    (inHand (before ++ worker :: after)).Perm (worker.held.toList ++ inHand (before ++ after)) := by
  cases hheld : worker.held <;> simp [inHand, hheld]

/-- A worker whose hand changes leaves the other hands as they are. -/
theorem inHand_set {workers : List (Worker τ)} {i : Nat} {old : Worker τ} (new : Worker τ)
    (h : workers[i]? = some old) :
    ∃ others, (inHand workers).Perm (old.held.toList ++ others) ∧
      (inHand (workers.set i new)).Perm (new.held.toList ++ others) := by
  obtain ⟨hlt, hold⟩ := List.getElem?_eq_some_iff.mp h
  have hsplit : workers = workers.take i ++ old :: workers.drop (i + 1) := by
    rw [← hold, List.getElem_cons_drop, List.take_append_drop]
  have hset : workers.set i new = workers.take i ++ new :: workers.drop (i + 1) :=
    List.set_eq_take_append_cons_drop.trans (if_pos hlt)
  refine ⟨inHand (workers.take i ++ workers.drop (i + 1)), ?_, ?_⟩
  · have hhands := inHand_middle old (workers.take i) (workers.drop (i + 1))
    rwa [← hsplit] at hhands
  · rw [hset]
    exact inHand_middle new _ _

/-- A worker that is taken off its task keeps it in hand. -/
theorem inHand_giveUp (workers : List (Worker τ)) :
    inHand (workers.map giveUp) = inHand workers := by
  unfold inHand
  rw [List.filterMap_map]
  congr
  funext worker
  cases worker <;> rfl

/-- What each event needs and does. -/
inductive Happens (lane : Lane τ) : Event → Lane τ → Prop
  | take {worker : Nat} {task : τ} {queue : List τ} (hactive : lane.cancelled = false)
      (hidle : lane.workers[worker]? = some .idle) (hqueue : lane.queue = task :: queue) :
      Happens lane (.take worker)
        { lane with
          queue := queue
          workers := lane.workers.set worker (.busy task)
          taken := lane.taken ++ [task] }
  | settle {worker : Nat} {task : τ} {outcome : Outcome}
      (hbusy : lane.workers[worker]? = some (.busy task)) :
      Happens lane (.settle worker outcome)
        { lane with
          workers := lane.workers.set worker .idle
          handled := lane.handled ++ [(task, outcome)]
          acknowledged :=
            if SegmentError.settles outcome then lane.acknowledged ++ [task]
            else lane.acknowledged }
  | leave {worker : Nat} (hidle : lane.workers[worker]? = some .idle)
      (hdone : lane.cancelled || (lane.closed && lane.queue.isEmpty)) :
      Happens lane (.leave worker) { lane with workers := lane.workers.set worker .stopped }
  | cancel : Happens lane .cancel { lane with cancelled := true }
  | close : Happens lane .close { lane with closed := true }
  | abandon (hcancelled : lane.cancelled = true) :
      Happens lane .abandon { lane with workers := lane.workers.map giveUp }

/-- A step is an event that happens. -/
theorem happens_of_step {event : Event} (h : lane.step event = some next) :
    Happens lane event next := by
  cases event with
  | take worker =>
    simp only [step] at h
    split at h
    · cases h
    · next hactive =>
      split at h
      · next task queue hidle hqueue =>
        cases h
        exact .take (by simpa using hactive) hidle hqueue
      · cases h
  | settle worker outcome =>
    simp only [step] at h
    split at h
    · next task hbusy =>
      cases h
      exact .settle hbusy
    · cases h
  | leave worker =>
    simp only [step] at h
    split at h
    · next hidle =>
      split at h
      · next hdone =>
        cases h
        exact .leave hidle hdone
      · cases h
    · cases h
  | cancel =>
    cases h
    exact .cancel
  | close =>
    cases h
    exact .close
  | abandon =>
    simp only [step] at h
    split at h
    · next hcancelled =>
      cases h
      exact .abandon hcancelled
    · cases h

/-- Handling one more task settles it or not. -/
theorem settled_append (handled : List (τ × Outcome)) (task : τ) (outcome : Outcome) :
    settled (handled ++ [(task, outcome)]) =
      if SegmentError.settles outcome then settled handled ++ [task] else settled handled := by
  unfold settled
  rw [List.filter_append, List.map_append]
  cases hsettles : SegmentError.settles outcome <;> simp [hsettles]

/-- Every event keeps the tasks accounted for. -/
theorem Accounted.step {event : Event} (h : Accounted tasks lane)
    (hstep : lane.step event = some next) : Accounted tasks next := by
  have hsplit := h.split
  cases happens_of_step hstep with
  | @take worker task queue hactive hidle hqueue =>
    obtain ⟨others, hbefore, hafter⟩ := inHand_set (.busy task) hidle
    refine ⟨?_, ?_, h.acknowledged, ?_⟩
    · rw [List.append_assoc, ← h.order, hqueue]
      rfl
    · have hothers : (others ++ lane.handled.map Prod.fst).Perm lane.taken :=
        (hbefore.symm.append_right _).trans hsplit
      have htaken := (hothers.cons task).trans (List.perm_append_singleton task lane.taken).symm
      exact (hafter.append_right _).trans htaken
    · rintro ⟨gone, hgone⟩
      rcases List.mem_or_eq_of_mem_set hgone with hold | hnew
      · have hcancelled := (h.abandoned ⟨gone, hold⟩).1
        rw [hactive] at hcancelled
        cases hcancelled
      · cases hnew
  | @settle worker task outcome hbusy =>
    obtain ⟨others, hbefore, hafter⟩ := inHand_set .idle hbusy
    refine ⟨h.order, ?_, ?_, ?_⟩
    · have hmoved : (others ++ (lane.handled.map Prod.fst ++ [task])).Perm
          (task :: (others ++ lane.handled.map Prod.fst)) := by
        rw [← List.append_assoc]
        exact List.perm_append_singleton task _
      have htaken := hmoved.trans ((hbefore.symm.append_right _).trans hsplit)
      show (inHand (lane.workers.set worker .idle) ++ _).Perm _
      rw [List.map_append]
      exact (hafter.append_right _).trans htaken
    · rw [settled_append, h.acknowledged]
    · rintro ⟨gone, hgone⟩
      rcases List.mem_or_eq_of_mem_set hgone with hold | hnew
      · exact absurd (List.mem_of_getElem? hbusy) ((h.abandoned ⟨gone, hold⟩).2 task)
      · cases hnew
  | @leave worker hidle hdone =>
    obtain ⟨others, hbefore, hafter⟩ := inHand_set .stopped hidle
    refine ⟨h.order, ?_, h.acknowledged, ?_⟩
    · exact ((hafter.trans hbefore.symm).append_right _).trans hsplit
    · rintro ⟨gone, hgone⟩
      rcases List.mem_or_eq_of_mem_set hgone with hold | hnew
      · obtain ⟨hcancelled, hnone⟩ := h.abandoned ⟨gone, hold⟩
        refine ⟨hcancelled, fun task hmem => ?_⟩
        rcases List.mem_or_eq_of_mem_set hmem with hbusy | hnew
        · exact hnone task hbusy
        · cases hnew
      · cases hnew
  | cancel => exact ⟨h.order, h.split, h.acknowledged, fun hgone => ⟨rfl, (h.abandoned hgone).2⟩⟩
  | close => exact ⟨h.order, h.split, h.acknowledged, h.abandoned⟩
  | abandon hcancelled =>
    refine ⟨h.order, ?_, h.acknowledged, fun _ => ⟨hcancelled, ?_⟩⟩
    · show (inHand (lane.workers.map giveUp) ++ _).Perm _
      rw [inHand_giveUp]
      exact h.split
    · intro task hmem
      obtain ⟨worker, _, hworker⟩ := List.mem_map.mp hmem
      cases worker <;> cases hworker

/-- At the start no task was taken. -/
theorem accounted_start (workers : Nat) (tasks : List τ) :
    Accounted tasks (start workers tasks) := by
  have hidle : ∀ worker ∈ List.replicate workers (.idle : Worker τ), worker = .idle :=
    fun worker hmem => List.eq_of_mem_replicate hmem
  refine ⟨rfl, ?_, rfl, ?_⟩
  · have hnone : inHand (List.replicate workers (.idle : Worker τ)) = [] := by
      refine List.filterMap_eq_nil_iff.mpr fun worker hmem => ?_
      rw [hidle worker hmem]
      rfl
    show (inHand (List.replicate workers .idle) ++ []).Perm []
    rw [hnone]
    exact List.Perm.nil
  · rintro ⟨task, hmem⟩
    cases hidle _ hmem

/-- A run goes on from where its first events lead. -/
theorem run_append (lane : Lane τ) (first rest : List Event) :
    lane.run (first ++ rest) = (lane.run first).bind fun middle => middle.run rest := by
  induction first generalizing lane with
  | nil => rfl
  | cons event first ih =>
    show (lane.step event).bind _ = ((lane.step event).bind _).bind _
    rw [Option.bind_assoc]
    congr
    funext middle
    exact ih middle

/-- One more event is one more step. -/
theorem run_concat (lane : Lane τ) (events : List Event) (event : Event) :
    lane.run (events ++ [event]) = (lane.run events).bind fun middle => middle.step event := by
  rw [run_append]
  congr
  funext middle
  exact Option.bind_fun_some (middle.step event)

/-- A run of one more event consists of the run before and a step. -/
theorem run_concat_eq_some {events : List Event} {event : Event} {start : Lane τ}
    (h : start.run (events ++ [event]) = some next) :
    ∃ lane, start.run events = some lane ∧ lane.step event = some next := by
  rw [run_concat] at h
  exact Option.bind_eq_some_iff.mp h

/-- Every run keeps the tasks accounted for. -/
theorem accounted_of_run {workers : Nat} {events : List Event}
    (h : (start workers tasks).run events = some lane) : Accounted tasks lane := by
  induction events using List.reverseRecOn generalizing lane with
  | nil =>
    cases h
    exact accounted_start workers tasks
  | append_singleton events event ih =>
    obtain ⟨middle, hrun, hstep⟩ := run_concat_eq_some h
    exact (ih hrun).step hstep

/-- A failure leaves its task unsettled exactly when it is transient. -/
theorem settles_error (e : SegmentError) :
    SegmentError.settles (.error e) = true ↔ e.errorClass ≠ .transient :=
  decide_eq_true_iff

/-- What a worker has in hand is in the hands. -/
theorem mem_inHand {workers : List (Worker τ)} {holder : Worker τ} {task : τ}
    (hworker : holder ∈ workers) (hheld : holder.held = some task) : task ∈ inHand workers :=
  List.mem_filterMap.mpr ⟨holder, hworker, hheld⟩

namespace Accounted

variable {task : τ} {outcome : Outcome}

/-- The acknowledged tasks are those that were handled with an outcome that settles them. -/
theorem mem_acknowledged (h : Accounted tasks lane) :
    task ∈ lane.acknowledged ↔
      ∃ outcome, (task, outcome) ∈ lane.handled ∧ SegmentError.settles outcome = true := by
  rw [h.acknowledged]
  unfold settled
  constructor
  · intro hmem
    obtain ⟨⟨handled, outcome⟩, hentry, heq⟩ := List.mem_map.mp hmem
    obtain ⟨hhandled, hsettles⟩ := List.mem_filter.mp hentry
    cases heq
    exact ⟨outcome, hhandled, hsettles⟩
  · rintro ⟨outcome, hhandled, hsettles⟩
    exact List.mem_map.mpr ⟨(task, outcome), List.mem_filter.mpr ⟨hhandled, hsettles⟩, rfl⟩

/-- What is in a hand or was handled was taken. -/
theorem mem_taken (h : Accounted tasks lane) :
    task ∈ lane.taken ↔ task ∈ inHand lane.workers ∨ ∃ outcome, (task, outcome) ∈ lane.handled := by
  rw [← h.split.mem_iff, List.mem_append, List.mem_map]
  refine or_congr_right ⟨?_, ?_⟩
  · rintro ⟨⟨handled, outcome⟩, hentry, rfl⟩
    exact ⟨outcome, hentry⟩
  · rintro ⟨outcome, hentry⟩
    exact ⟨(task, outcome), hentry, rfl⟩

/-- What was taken comes from the queue. -/
theorem mem_tasks (h : Accounted tasks lane) (htaken : task ∈ lane.taken) : task ∈ tasks := by
  rw [← h.order]
  exact List.mem_append_left _ htaken

section Places

variable (h : Accounted tasks lane) (hnodup : tasks.Nodup)

include h hnodup

/-- In a queue without repetitions no task is in two places. -/
theorem nodup : (inHand lane.workers ++ lane.handled.map Prod.fst ++ lane.queue).Nodup := by
  rw [← h.order] at hnodup
  exact (h.split.append_right lane.queue).nodup_iff.mpr hnodup

/-- A task in a hand is neither in the queue nor was it handled. -/
theorem not_elsewhere (hhand : task ∈ inHand lane.workers) :
    task ∉ lane.queue ∧ ∀ outcome, (task, outcome) ∉ lane.handled := by
  obtain ⟨htaken, _, hqueue⟩ := List.nodup_append.mp (h.nodup hnodup)
  refine ⟨fun hin => hqueue task (List.mem_append_left _ hhand) task hin rfl,
    fun outcome hhandled => ?_⟩
  exact (List.nodup_append.mp htaken).2.2 task hhand task (List.mem_map_of_mem hhandled) rfl

/-- A task that was handled is not in the queue. -/
theorem not_queued (hhandled : (task, outcome) ∈ lane.handled) : task ∉ lane.queue := by
  have hapart := (List.nodup_append.mp (h.nodup hnodup)).2.2
  exact fun hin => hapart task (List.mem_append_right _ (List.mem_map_of_mem hhandled)) task hin rfl

/-- A task is handled with one outcome only. -/
theorem outcome_eq {first second : Outcome} (hfirst : (task, first) ∈ lane.handled)
    (hsecond : (task, second) ∈ lane.handled) : first = second := by
  have htaken := (List.nodup_append.mp (h.nodup hnodup)).1
  have hhandled := (List.nodup_append.mp htaken).2.1
  exact congrArg Prod.snd (List.inj_on_of_nodup_map hhandled hfirst hsecond rfl)

/-- No two workers have one task in hand. -/
theorem holder_unique {first second : Nat} {one two : Worker τ}
    (hfirst : lane.workers[first]? = some one) (hone : one.held = some task)
    (hsecond : lane.workers[second]? = some two) (htwo : two.held = some task) :
    first = second := by
  by_contra hne
  have htaken := (List.nodup_append.mp (h.nodup hnodup)).1
  have hhands : (inHand lane.workers).Nodup := (List.nodup_append.mp htaken).1
  -- Without the first worker the task would still be among the other hands.
  obtain ⟨others, hbefore, hafter⟩ := inHand_set .idle hfirst
  rw [hbefore.nodup_iff, hone] at hhands
  have hstays : two ∈ lane.workers.set first .idle :=
    List.mem_of_getElem? ((List.getElem?_set_ne hne).trans hsecond)
  exact (List.nodup_cons.mp hhands).1 (hafter.mem_iff.mp (mem_inHand hstays htwo))

end Places

end Accounted

end Lane

end TripArchive.Pool
