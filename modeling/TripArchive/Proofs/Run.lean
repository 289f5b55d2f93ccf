import Mathlib.Logic.Relation
import TripArchive.Proofs.Store.Row
import TripArchive.Segment.Processor

/-!
# Runs of the processor

Any number of workers take up requests and handle them side by side over one store. A step of a run
is a worker that takes up a request, or one call of one of the handlers being answered, so that
every interleaving of calls is a run; an attempt that nobody goes on with was abandoned. The log
keeps every answered call in order. `Reachable.path` says that each attempt stands where its own
answers lead its handler.
-/

namespace TripArchive

/-- What the processor is asked to handle. -/
inductive Request
  | begin (event : SegmentEvent)
  | complete (event : SegmentEvent)
  | vehicle (event : CloudEvent MintEvent)

namespace Request

/-- The request that a segment event makes. -/
def ofSegment (event : CloudEvent SegmentEvent) : Request :=
  if event.data.completed then .complete event.data else .begin event.data

/-- The handler of a request. -/
def handler (processor : Processor) : Request → Handler Unit
  | begin event => Processor.begin event
  | complete event => processor.complete event
  | vehicle event => Processor.vehicleEvent event

/-- A segment event is handled as its request. -/
theorem handler_ofSegment (processor : Processor) (event : CloudEvent SegmentEvent) :
    (ofSegment event).handler processor = processor.segmentEvent event := by
  unfold ofSegment Processor.segmentEvent
  split <;> rfl

end Request

/-- The handling of a request by a worker: what was asked, and what is left to do. -/
structure Attempt where
  request : Request
  rest : Handler Unit

/-- An answered call of an attempt. -/
structure Entry where
  attempt : Nat
  answered : Answered

/-- A run under way: the tables, the attempts in the order in which they were taken up, and the
answered calls of all of them in the order of the answers. -/
structure Run where
  store : Store
  attempts : List Attempt
  log : List Entry

namespace Run

/-- A run before any request. -/
def start : Run := ⟨Store.empty, [], []⟩

/-- One step of a run. -/
inductive Step (processor : Processor) : Run → Run → Prop
  /-- A worker takes up a request. -/
  | take (run : Run) (request : Request) :
      Step processor run
        { run with attempts := run.attempts ++ [⟨request, request.handler processor⟩] }
  /-- The call at which an attempt stands is answered. -/
  | answer {run : Run} {i : Nat} {request : Request} {c : Call}
      {next : c.Answer → Handler Unit} {answer : c.Answer} {later : Store}
      (hattempt : run.attempts[i]? = some ⟨request, .call c next⟩)
      (hanswer : run.store.Answers c answer later) :
      Step processor run
        { store := later
          attempts := run.attempts.set i ⟨request, next answer⟩
          log := run.log ++ [⟨i, ⟨c, answer⟩⟩] }

/-- The runs that a run may grow into. -/
def Leads (processor : Processor) : Run → Run → Prop := Relation.ReflTransGen (Step processor)

/-- The runs that start from empty tables. -/
def Reachable (processor : Processor) (run : Run) : Prop := Leads processor start run

/-- The answers that an attempt got, in order. -/
def trace (run : Run) (i : Nat) : List Answered :=
  (run.log.filter fun entry => entry.attempt = i).map Entry.answered

variable {processor : Processor} {run later : Run}

/-- A run grows out of a run that is reachable into one that is. -/
theorem Reachable.leads (hrun : Reachable processor run) (hleads : Leads processor run later) :
    Reachable processor later := Relation.ReflTransGen.trans hrun hleads

/-- The trace of an attempt holds its entries in the log. -/
theorem mem_trace {i : Nat} {answered : Answered} :
    answered ∈ run.trace i ↔ ⟨i, answered⟩ ∈ run.log := by
  simp only [trace, List.mem_map, List.mem_filter, decide_eq_true_eq]
  constructor
  · rintro ⟨⟨_, _⟩, ⟨hmem, rfl⟩, rfl⟩
    exact hmem
  · intro hmem
    exact ⟨_, ⟨hmem, rfl⟩, rfl⟩

/-- The log holds the answers of an attempt in their order. -/
theorem trace_sublist (run : Run) (i : Nat) :
    ((run.trace i).map fun answered => (⟨i, answered⟩ : Entry)).Sublist run.log := by
  have hown : ((run.trace i).map fun answered => (⟨i, answered⟩ : Entry)) =
      run.log.filter fun entry => entry.attempt = i := by
    unfold trace
    rw [List.map_map]
    refine Eq.trans (List.map_congr_left fun entry hentry => ?_) (List.map_id _)
    have howner : entry.attempt = i := by simpa using (List.mem_filter.mp hentry).2
    simp [← howner]
  rw [hown]
  exact List.filter_sublist

/-- An answer is the last of its attempt and touches no other trace. -/
theorem trace_append (store : Store) (attempts : List Attempt) (log : List Entry) (i j : Nat)
    (answered : Answered) :
    (⟨store, attempts, log ++ [⟨i, answered⟩]⟩ : Run).trace j =
      (⟨store, attempts, log⟩ : Run).trace j ++ if i = j then [answered] else [] := by
  by_cases hij : i = j <;> simp [trace, hij]

/-- Every entry of the log belongs to an attempt, and every attempt stands where its answers lead
its handler. -/
structure Consistent (processor : Processor) (run : Run) : Prop where
  /-- The log knows only attempts that were taken up. -/
  known : ∀ entry ∈ run.log, entry.attempt < run.attempts.length
  /-- The answers of an attempt lead its handler to what is left of it. -/
  path : ∀ (i : Nat) (attempt : Attempt), run.attempts[i]? = some attempt →
    Handler.Path (attempt.request.handler processor) (run.trace i) attempt.rest

/-- A step keeps a run consistent. -/
theorem Consistent.step (hrun : Consistent processor run) (hstep : Step processor run later) :
    Consistent processor later := by
  cases hstep with
  | take request =>
    constructor
    · intro entry hentry
      have hknown := hrun.known entry hentry
      simp only [List.length_append, List.length_singleton]
      omega
    · intro i attempt hattempt
      by_cases hi : i < run.attempts.length
      · rw [List.getElem?_append_left hi] at hattempt
        exact hrun.path i attempt hattempt
      · rw [List.getElem?_append_right (by omega)] at hattempt
        have hnew : attempt = ⟨request, request.handler processor⟩ := by
          have hmem := List.mem_of_getElem? hattempt
          simpa using hmem
        have hempty : run.trace i = [] := by
          simp only [trace, List.map_eq_nil_iff, List.filter_eq_nil_iff, decide_eq_true_eq]
          intro entry hentry hi'
          have hknown := hrun.known entry hentry
          omega
        subst hnew
        show Handler.Path _ (run.trace i) _
        rw [hempty]
        exact .nil _
  | @answer i request c next answer stored hattempt hanswer =>
    have hlt : i < run.attempts.length := (List.getElem?_eq_some_iff.mp hattempt).1
    constructor
    · intro entry hentry
      simp only [List.length_set]
      rcases List.mem_append.mp hentry with hold | hnew
      · exact hrun.known entry hold
      · rw [List.mem_singleton.mp hnew]
        exact hlt
    · intro j attempt hj
      rw [trace_append]
      by_cases hij : i = j
      · subst hij
        rw [List.getElem?_set_self hlt] at hj
        cases hj
        rw [if_pos rfl]
        exact (hrun.path i _ hattempt).snoc answer
      · rw [List.getElem?_set_ne hij] at hj
        rw [if_neg hij, List.append_nil]
        exact hrun.path j attempt hj

/-- Every reachable run is consistent. -/
theorem Reachable.consistent (hrun : Reachable processor run) : Consistent processor run := by
  induction hrun with
  | refl => exact ⟨by simp [start], by simp [start]⟩
  | tail _ hstep ih => exact ih.step hstep

/-- Each attempt of a reachable run stands where its own answers lead its handler. -/
theorem Reachable.path (hrun : Reachable processor run) {i : Nat} {attempt : Attempt}
    (hattempt : run.attempts[i]? = some attempt) :
    Handler.Path (attempt.request.handler processor) (run.trace i) attempt.rest :=
  hrun.consistent.path i attempt hattempt

/-- Each entry of the log has its attempt, with the entry on its path. -/
theorem Reachable.attempt_of_mem (hrun : Reachable processor run) {i : Nat}
    {answered : Answered} (hmem : ⟨i, answered⟩ ∈ run.log) :
    ∃ attempt, run.attempts[i]? = some attempt ∧ answered ∈ run.trace i := by
  have hlt := hrun.consistent.known _ hmem
  exact ⟨run.attempts[i], List.getElem?_eq_getElem hlt, mem_trace.mpr hmem⟩

end Run

end TripArchive
