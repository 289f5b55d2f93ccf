import TripArchive.Event.Router
import TripArchive.Proofs.Pool.Accounting

/-!
# Acknowledging the tasks of a partition

An acknowledgement stores where reading goes on, and so speaks for every earlier delivery of the
partition. A worker decides it by its own task alone. `gapless_iff_isPrefix` says for which runs
that is harmless, at every acknowledgement and for every restart: those that acknowledge the tasks
of the queue in its order and pass none over.
-/

namespace TripArchive

/-- One delivery is earlier than another on the same partition. -/
def Delivery.Precedes (first second : Delivery) : Prop :=
  first.topic = second.topic ∧ first.partition = second.partition ∧ first.offset < second.offset

namespace Pool

variable {α : Type}

/-- A queue of one partition in the order of its offsets. -/
def InOrder (tasks : List (Task α)) : Prop :=
  tasks.Pairwise fun first second => first.delivery.Precedes second.delivery

namespace Lane

/-- The task that an event acknowledges. -/
def acknowledges? {τ : Type} (lane : Lane τ) : Event → Option τ
  | .settle worker outcome =>
    match lane.workers[worker]? with
    | some (.busy task) => if SegmentError.settles outcome then some task else none
    | _ => none
  | _ => none

/-- No earlier task of the partition is being handled or has failed in a transient way. -/
def Clear (lane : Lane (Task α)) (task : Task α) : Prop :=
  ∀ earlier : Task α, earlier.delivery.Precedes task.delivery →
    .busy earlier ∉ lane.workers ∧
      ∀ e : SegmentError, (earlier, .error e) ∈ lane.handled → e.errorClass ≠ .transient

/-- Where reading goes on after a restart: behind the last of the acknowledged deliveries. -/
def stored? (lane : Lane (Task α)) : Option Int :=
  (lane.acknowledged.map fun task => task.delivery.offset + 1).max?

/-- A restart brings back every task that was not acknowledged. -/
def Recovers (tasks : List (Task α)) (lane : Lane (Task α)) : Prop :=
  ∀ task ∈ tasks, task ∉ lane.acknowledged → ∀ offset ∈ lane.stored?, offset ≤ task.delivery.offset

end Lane

/-- Whenever a run acknowledges a task, the earlier ones are out of the way. -/
def Gapless (workers : Nat) (tasks : List (Task α)) (events : List Event) : Prop :=
  ∀ before event after lane task, events = before ++ event :: after →
    (Lane.start workers tasks).run before = some lane → lane.acknowledges? event = some task →
      lane.Clear task

/-- Wherever a run is cut off, a restart brings back what was not acknowledged. -/
def Restartable (workers : Nat) (tasks : List (Task α)) (events : List Event) : Prop :=
  ∀ before after lane, events = before ++ after →
    (Lane.start workers tasks).run before = some lane → lane.Recovers tasks

variable {workers : Nat} {tasks : List (Task α)} {lane next : Lane (Task α)} {task : Task α}
  {event : Event} {events : List Event}

/-- Nothing precedes itself. -/
theorem not_precedes_self (delivery : Delivery) : ¬ delivery.Precedes delivery :=
  fun h => Int.lt_irrefl _ h.2.2

/-- Of two deliveries only one precedes the other. -/
theorem not_precedes_of_precedes {first second : Delivery} (h : first.Precedes second) :
    ¬ second.Precedes first :=
  fun hback => Int.lt_asymm h.2.2 hback.2.2

namespace InOrder

/-- A queue in order holds no task twice. -/
theorem nodup (h : InOrder tasks) : tasks.Nodup := by
  refine h.imp fun {first second} hprecedes heq => ?_
  rw [heq] at hprecedes
  exact not_precedes_self _ hprecedes

/-- What comes first in the queue precedes the rest. -/
theorem precedes {front back : List (Task α)} (h : InOrder (front ++ back)) {first second : Task α}
    (hfirst : first ∈ front) (hsecond : second ∈ back) : first.delivery.Precedes second.delivery :=
  (List.pairwise_append.mp h).2.2 first hfirst second hsecond

/-- Behind the beginning of a queue that task is next of which all earlier ones are in it. -/
theorem next_iff {front : List (Task α)} (h : InOrder tasks) (hinitial : front <+: tasks)
    (hmem : task ∈ tasks) (hfresh : task ∉ front) :
    front ++ [task] <+: tasks ↔
      ∀ earlier ∈ tasks, earlier.delivery.Precedes task.delivery → earlier ∈ front := by
  constructor
  · rintro ⟨rest, rfl⟩ earlier hearlier hprecedes
    rcases List.mem_append.mp hearlier with hfront | hrest
    · rcases List.mem_append.mp hfront with hfront | hself
      · exact hfront
      · rw [List.mem_singleton.mp hself] at hprecedes
        exact absurd hprecedes (not_precedes_self _)
    · have hback := h.precedes (List.mem_append_right front (List.mem_singleton_self task)) hrest
      exact absurd hprecedes (not_precedes_of_precedes hback)
  · intro hall
    obtain ⟨rest, rfl⟩ := hinitial
    cases rest with
    | nil => exact absurd ((List.append_nil front) ▸ hmem) hfresh
    | cons head rest =>
      rcases List.mem_cons.mp ((List.mem_append.mp hmem).resolve_left hfresh) with heq | hbehind
      · rw [heq]
        exact ⟨rest, List.append_assoc _ _ _⟩
      · have hrest : InOrder (head :: rest) := (List.pairwise_append.mp h).2.1
        have hfront : head ∈ front :=
          hall head (List.mem_append_right _ List.mem_cons_self)
            (List.rel_of_pairwise_cons hrest hbehind)
        exact absurd (h.precedes hfront List.mem_cons_self) (not_precedes_self _)

end InOrder

namespace Lane

/-- An event adds what it acknowledges to the acknowledged tasks. -/
theorem acknowledged_of_step (h : lane.step event = some next) :
    next.acknowledged = lane.acknowledged ++ (lane.acknowledges? event).toList := by
  cases happens_of_step h with
  | @settle worker task outcome hbusy =>
    have hsettle : lane.acknowledges? (.settle worker outcome) =
        if SegmentError.settles outcome then some task else none := by
      unfold acknowledges?
      simp only [hbusy]
    rw [hsettle]
    cases hsettles : SegmentError.settles outcome <;> simp
  | _ => exact (List.append_nil _).symm

/-- What is acknowledged was in the hands of a worker. -/
theorem busy_of_acknowledges? (h : lane.acknowledges? event = some task) :
    .busy task ∈ lane.workers := by
  unfold acknowledges? at h
  split at h
  · split at h
    · next hbusy =>
      split at h
      · cases h
        exact List.mem_of_getElem? hbusy
      · cases h
    · cases h
  · cases h

namespace Accounted

/-- A task in a hand is one of the queue and was not acknowledged. -/
theorem pending (h : Accounted tasks lane) (hordered : InOrder tasks)
    (hbusy : .busy task ∈ lane.workers) : task ∈ tasks ∧ task ∉ lane.acknowledged := by
  have hhand := mem_inHand hbusy rfl
  refine ⟨h.mem_tasks (h.mem_taken.mpr (.inl hhand)), fun hmem => ?_⟩
  obtain ⟨outcome, hhandled, -⟩ := h.mem_acknowledged.mp hmem
  exact (h.not_elsewhere hordered.nodup hhand).2 outcome hhandled

/-- The way of a task that a worker handles is clear when all earlier ones are acknowledged. -/
theorem clear_iff (h : Accounted tasks lane) (hordered : InOrder tasks)
    (hbusy : .busy task ∈ lane.workers) :
    lane.Clear task ↔
      ∀ earlier ∈ tasks, earlier.delivery.Precedes task.delivery → earlier ∈ lane.acknowledged := by
  constructor
  · intro hclear earlier hearlier hprecedes
    obtain ⟨hidle, hfailed⟩ := hclear earlier hprecedes
    -- The queue is taken in its order, so what comes before a taken task is not left in it.
    have htaken : earlier ∈ lane.taken := by
      rw [← h.order] at hearlier hordered
      refine (List.mem_append.mp hearlier).resolve_right fun hqueue => ?_
      have hback := hordered.precedes (h.mem_taken.mpr (.inl (mem_inHand hbusy rfl))) hqueue
      exact not_precedes_of_precedes hback hprecedes
    rcases h.mem_taken.mp htaken with hhand | ⟨outcome, hhandled⟩
    · obtain ⟨worker, hworker, hheld⟩ := List.mem_filterMap.mp hhand
      cases worker with
      | busy other =>
        cases hheld
        exact absurd hworker hidle
      | abandoned other => exact absurd hbusy ((h.abandoned ⟨other, hworker⟩).2 task)
      | idle => cases hheld
      | stopped => cases hheld
    · cases outcome with
      | ok done => exact h.mem_acknowledged.mpr ⟨.ok done, hhandled, rfl⟩
      | error e =>
        exact h.mem_acknowledged.mpr
          ⟨.error e, hhandled, (settles_error e).mpr (hfailed e hhandled)⟩
  · intro hall earlier hprecedes
    constructor
    · intro hmem
      obtain ⟨hin, hout⟩ := h.pending hordered hmem
      exact hout (hall earlier hin hprecedes)
    · intro e hfailed
      have hin := h.mem_tasks (h.mem_taken.mpr (.inr ⟨_, hfailed⟩))
      obtain ⟨outcome, hhandled, hsettles⟩ := h.mem_acknowledged.mp (hall earlier hin hprecedes)
      rw [h.outcome_eq hordered.nodup hhandled hfailed] at hsettles
      exact (settles_error e).mp hsettles

end Accounted

/-- A restart brings back what lies behind every acknowledged task. -/
theorem recovers_iff :
    lane.Recovers tasks ↔
      ∀ task ∈ tasks, task ∉ lane.acknowledged →
        ∀ done ∈ lane.acknowledged, done.delivery.offset < task.delivery.offset := by
  refine forall₃_congr fun task hmem hout => ⟨fun hstored done hdone => ?_, ?_⟩
  · have hin := List.mem_map_of_mem (f := fun task : Task α => task.delivery.offset + 1) hdone
    have hmax := hstored _ (List.max?_eq_some_max (List.ne_nil_of_mem hin))
    have hle := List.le_max_of_mem hin
    exact Int.lt_of_lt_of_le (Int.lt_succ done.delivery.offset) (Int.le_trans hle hmax)
  · intro hbehind offset hstored
    obtain ⟨done, hdone, rfl⟩ := List.mem_map.mp (List.max?_mem hstored)
    exact Int.add_one_le_of_lt (hbehind done hdone)

/-- When the beginning of the queue is acknowledged, a restart brings back the rest. -/
theorem recovers_of_isPrefix (hordered : InOrder tasks) (hinitial : lane.acknowledged <+: tasks) :
    lane.Recovers tasks := by
  refine recovers_iff.mpr fun task hmem hout done hdone => ?_
  obtain ⟨rest, rfl⟩ := hinitial
  exact (hordered.precedes hdone ((List.mem_append.mp hmem).resolve_left hout)).2.2

/-- The acknowledged tasks stay the beginning of the queue if all earlier ones are among them. -/
theorem prefix_step_iff (h : Accounted tasks lane) (hordered : InOrder tasks)
    (hstep : lane.step event = some next) (hinitial : lane.acknowledged <+: tasks) :
    next.acknowledged <+: tasks ↔
      ∀ task, lane.acknowledges? event = some task →
        ∀ earlier ∈ tasks, earlier.delivery.Precedes task.delivery →
          earlier ∈ lane.acknowledged := by
  rw [acknowledged_of_step hstep]
  cases hevent : lane.acknowledges? event with
  | none => simpa using hinitial
  | some task =>
    obtain ⟨hmem, hfresh⟩ := h.pending hordered (busy_of_acknowledges? hevent)
    rw [Option.toList_some, hordered.next_iff hinitial hmem hfresh]
    refine ⟨?_, fun hall => hall task rfl⟩
    rintro hall _ ⟨⟩
    exact hall

/-- The acknowledged tasks stay the beginning of the queue if the way of the next one is clear. -/
theorem clear_step_iff (h : Accounted tasks lane) (hordered : InOrder tasks)
    (hstep : lane.step event = some next) (hinitial : lane.acknowledged <+: tasks) :
    next.acknowledged <+: tasks ↔
      ∀ task, lane.acknowledges? event = some task → lane.Clear task := by
  rw [prefix_step_iff h hordered hstep hinitial]
  exact forall₂_congr fun task hevent =>
    (h.clear_iff hordered (busy_of_acknowledges? hevent)).symm

/-- The acknowledged tasks stay the beginning of the queue if a restart brings back the others. -/
theorem recovers_step_iff (h : Accounted tasks lane) (hordered : InOrder tasks)
    (hstep : lane.step event = some next) (hinitial : lane.acknowledged <+: tasks) :
    next.acknowledged <+: tasks ↔ next.Recovers tasks := by
  refine ⟨recovers_of_isPrefix hordered, fun hrecovers => ?_⟩
  refine (prefix_step_iff h hordered hstep hinitial).mpr
    fun task hevent earlier hearlier hprecedes => ?_
  have hnext : next.acknowledged = lane.acknowledged ++ [task] := by
    rw [acknowledged_of_step hstep, hevent, Option.toList_some]
  have hself : task ∈ next.acknowledged := by
    rw [hnext]
    exact List.mem_append_right _ (List.mem_singleton_self task)
  have hin : earlier ∈ next.acknowledged := by
    by_contra hout
    exact Int.lt_asymm hprecedes.2.2 (recovers_iff.mp hrecovers earlier hearlier hout task hself)
  rw [hnext] at hin
  refine (List.mem_append.mp hin).resolve_right fun heq => ?_
  rw [List.mem_singleton.mp heq] at hprecedes
  exact not_precedes_self _ hprecedes

end Lane

/-- One more event adds one more moment at which something may be acknowledged. -/
theorem gapless_concat :
    Gapless workers tasks (events ++ [event]) ↔
      Gapless workers tasks events ∧
        ∀ lane, (Lane.start workers tasks).run events = some lane →
          ∀ task, lane.acknowledges? event = some task → lane.Clear task := by
  constructor
  · intro h
    refine ⟨fun before other after lane task heq => ?_, fun lane hlane task => ?_⟩
    · refine h before other (after ++ [event]) lane task ?_
      rw [heq, List.append_assoc]
      rfl
    · exact h events event [] lane task rfl hlane
  · rintro ⟨hevents, hlast⟩ before other after lane task heq
    rcases List.eq_nil_or_concat after with rfl | ⟨after, last, rfl⟩
    · obtain ⟨rfl, hevent⟩ := List.append_inj' heq rfl
      cases hevent
      exact fun hlane => hlast lane hlane task
    · rw [List.concat_eq_append, ← List.cons_append, ← List.append_assoc] at heq
      exact hevents before other after lane task (List.append_inj' heq rfl).1

/-- One more event adds one more state at which a run may be cut off. -/
theorem restartable_concat :
    Restartable workers tasks (events ++ [event]) ↔
      Restartable workers tasks events ∧
        ∀ lane, (Lane.start workers tasks).run (events ++ [event]) = some lane →
          lane.Recovers tasks := by
  constructor
  · intro h
    refine ⟨fun before after lane heq => ?_, fun lane => ?_⟩
    · refine h before (after ++ [event]) lane ?_
      rw [heq, List.append_assoc]
    · exact h (events ++ [event]) [] lane (List.append_nil _).symm
  · rintro ⟨hevents, hlast⟩ before after lane heq
    rcases List.eq_nil_or_concat after with rfl | ⟨after, last, rfl⟩
    · rw [List.append_nil] at heq
      rw [← heq]
      exact hlast lane
    · rw [List.concat_eq_append, ← List.append_assoc] at heq
      exact hevents before after lane (List.append_inj' heq rfl).1

/-- For a run over a queue of one partition in order, with any number of workers and any outcomes,
three things are the same: at every acknowledgement no earlier task is being handled or has failed
in a transient way, wherever the run is cut off a restart brings back every task that was not
acknowledged, and the acknowledged tasks are the beginning of the queue. -/
theorem gapless_iff_isPrefix (hordered : InOrder tasks)
    (hrun : (Lane.start workers tasks).run events = some lane) :
    (Gapless workers tasks events ↔ lane.acknowledged <+: tasks) ∧
      (Restartable workers tasks events ↔ lane.acknowledged <+: tasks) := by
  induction events using List.reverseRecOn generalizing lane with
  | nil =>
    cases hrun
    have hinitial : (Lane.start workers tasks).acknowledged <+: tasks := List.nil_prefix
    refine ⟨iff_of_true (fun before event after lane task heq => ?_) hinitial,
      iff_of_true (fun before after lane heq hlane => ?_) hinitial⟩
    · exact absurd heq.symm (by simp)
    · obtain ⟨rfl, rfl⟩ := List.append_eq_nil_iff.mp heq.symm
      cases hlane
      exact Lane.recovers_of_isPrefix hordered hinitial
  | append_singleton events event ih =>
    obtain ⟨middle, hmiddle, hstep⟩ := Lane.run_concat_eq_some hrun
    obtain ⟨hgapless, hrestartable⟩ := ih hmiddle
    have h := Lane.accounted_of_run hmiddle
    have hshorter : lane.acknowledged <+: tasks → middle.acknowledged <+: tasks := by
      rw [Lane.acknowledged_of_step hstep]
      exact (List.prefix_append _ _).trans
    rw [gapless_concat, hgapless, restartable_concat, hrestartable]
    simp only [hmiddle, hrun, Option.some.injEq, forall_eq']
    constructor
    · constructor
      · rintro ⟨hinitial, hclear⟩
        exact (Lane.clear_step_iff h hordered hstep hinitial).mpr hclear
      · intro hinitial
        exact ⟨hshorter hinitial,
          (Lane.clear_step_iff h hordered hstep (hshorter hinitial)).mp hinitial⟩
    · constructor
      · rintro ⟨hinitial, hrecovers⟩
        exact (Lane.recovers_step_iff h hordered hstep hinitial).mpr hrecovers
      · intro hinitial
        exact ⟨hshorter hinitial,
          (Lane.recovers_step_iff h hordered hstep (hshorter hinitial)).mp hinitial⟩

/-- The task of an event at an offset. -/
def taskAt (offset : Int) : Task SegmentEvent :=
  ⟨⟨"", "", "", "", none, "", ⟨"ride", "device", true, ⟨⟨60, 0⟩, none⟩, some ⟨⟨120, 0⟩, none⟩⟩⟩,
    ⟨"segments", 0, offset⟩⟩

/-- What one worker does with three tasks of which the second has an outcome. -/
def alone (outcome : Outcome) : List Event :=
  [.take 0, .settle 0 (.ok ()), .take 0, .settle 0 outcome, .take 0, .settle 0 (.ok ())]

/-- A failure of the second task that is not transient leaves no gap. -/
theorem gapless_past_lasting_failure :
    Gapless 1 [taskAt 1, taskAt 2, taskAt 3] (alone (.error (.missingEnd "ride"))) ∧
      Restartable 1 [taskAt 1, taskAt 2, taskAt 3] (alone (.error (.missingEnd "ride"))) := by
  have hordered : InOrder [taskAt 1, taskAt 2, taskAt 3] := by
    unfold InOrder Delivery.Precedes
    decide
  obtain ⟨hgapless, hrestartable⟩ := gapless_iff_isPrefix hordered
    (rfl : (Lane.start 1 _).run (alone (.error (.missingEnd "ride"))) = some _)
  exact ⟨hgapless.mpr (by decide), hrestartable.mpr (by decide)⟩

/-- After a transient failure of the second task the third one is acknowledged, and a restart passes
the second one over. -/
theorem gap_past_transient_failure :
    InOrder [taskAt 1, taskAt 2, taskAt 3] ∧
      ¬ Gapless 1 [taskAt 1, taskAt 2, taskAt 3] (alone (.error (.store (.database "reset")))) ∧
      ¬ Restartable 1 [taskAt 1, taskAt 2, taskAt 3]
        (alone (.error (.store (.database "reset")))) := by
  refine ⟨?_, fun hgapless => ?_, fun hrestartable => ?_⟩
  · unfold InOrder Delivery.Precedes
    decide
  · have hclear := hgapless
      [.take 0, .settle 0 (.ok ()), .take 0, .settle 0 (.error (.store (.database "reset"))),
        .take 0] (.settle 0 (.ok ())) [] _ (taskAt 3) rfl rfl rfl
    have hfailed := (hclear (taskAt 2) ⟨rfl, rfl, by decide⟩).2 (.store (.database "reset"))
    exact hfailed (by decide) rfl
  · have hrecovers := hrestartable _ [] _ (List.append_nil _).symm rfl
    exact absurd (hrecovers (taskAt 2) (by decide) (by decide) 4 rfl) (by decide)

end Pool

end TripArchive
