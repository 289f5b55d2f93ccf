import TripArchive.Proofs.Segment.Completion

/-!
# Grounds for what is written

A handler knows the tables only by its answers. `Grounded` says that it makes no call without
grounds in the answers before that call, and the rules follow the way handlers are put together. Of
a segment event the grounds are those of starts: a new row has an estimate only if it is where a
previous segment that was looked up ended, and a completion writes the start of the row that it was
shown, or a late one where that row has none (`grounded_complete`).
-/

namespace TripArchive

namespace Handler

variable {α β : Type} {h : Handler α} {grounds : List Answered → Call → Prop}
  {post : α → List Answered → Prop} {known trace : List Answered}

/-- Whether a handler that got some answers has grounds for every further call in the answers
before, and gives a value only if it fits its answers. -/
def Grounded (grounds : List Answered → Call → Prop) (post : α → List Answered → Prop) :
    Handler α → List Answered → Prop
  | done a, known => post a known
  | fail _, _ => True
  | call c next, known => grounds known c ∧
      ∀ answer, (next answer).Grounded grounds post (known ++ [⟨c, answer⟩])

/-- Taking the value of an answer needs no grounds. -/
theorem grounded_ofExcept {ε : Type} {wrap : ε → SegmentError} {answer : Except ε α}
    (hok : ∀ a, answer = .ok a → post a known) :
    (ofExcept wrap answer).Grounded grounds post known := by
  cases answer with
  | ok a => exact hok a rfl
  | error e => exact trivial

/-- A sequence is grounded if its first handler is, and the second one from where the first
ends. -/
theorem Grounded.bind {f : α → Handler β} {post' : β → List Answered → Prop}
    (hfirst : h.Grounded grounds post known)
    (hsecond : ∀ a known, post a known → (f a).Grounded grounds post' known) :
    (h.bind f).Grounded grounds post' known := by
  induction h generalizing known with
  | done a => exact hsecond a known hfirst
  | fail e => exact trivial
  | call c next ih => exact ⟨hfirst.1, fun answer => ih answer (hfirst.2 answer)⟩

/-- A handler with a recovery is grounded if both are. -/
theorem Grounded.recover {f : SegmentError → Handler α} (hfirst : h.Grounded grounds post known)
    (hsecond : ∀ e known, (f e).Grounded grounds post known) :
    (h.recover f).Grounded grounds post known := by
  induction h generalizing known with
  | done a => exact hfirst
  | fail e => exact hsecond e known
  | call c next ih => exact ⟨hfirst.1, fun answer => ih answer (hfirst.2 answer)⟩

/-- A handler whose calls need no grounds is grounded. -/
theorem grounded_of_only {P : Call → Prop} (honly : h.Only P)
    (hgrounds : ∀ known c, P c → grounds known c) (known : List Answered) :
    h.Grounded grounds (fun _ _ => True) known := by
  induction h generalizing known with
  | done a => exact trivial
  | fail e => exact trivial
  | call c next ih =>
    exact ⟨hgrounds known c honly.1, fun answer => ih answer (honly.2 answer) _⟩

/-- What was known at some moment is known at the end of a handler. -/
theorem Grounded.remember {origin : List Answered} (hgrounded : h.Grounded grounds post known)
    (horigin : origin <+: known) :
    h.Grounded grounds (fun a later => origin <+: later ∧ post a later) known := by
  induction h generalizing known with
  | done a => exact ⟨horigin, hgrounded⟩
  | fail e => exact trivial
  | call c next ih =>
    refine ⟨hgrounded.1, fun answer => ih answer (hgrounded.2 answer) ?_⟩
    exact horigin.trans (List.prefix_append _ _)

/-- What is left of a grounded handler is grounded in the answers so far. -/
theorem Grounded.path {rest : Handler α} (hgrounded : h.Grounded grounds post known)
    (hpath : Path h trace rest) : rest.Grounded grounds post (known ++ trace) := by
  induction hpath generalizing known with
  | nil => rwa [List.append_nil]
  | cons _ ih =>
    rw [List.append_cons]
    exact ih (hgrounded.2 _)

end Handler

namespace Processor

open Handler

variable {known : List Answered} {event : SegmentEvent} {segment : Segment}

/-- Where the estimate of a new row comes from: a segment was looked up as the previous one of the
vehicle, and ended there. -/
def Continues (known : List Answered) (segment : Segment) : Prop :=
  ∀ estimate, segment.startEstimate = some estimate → ∃ prior,
    ⟨.priorSegment segment.vehicleToken, .ok (some prior)⟩ ∈ known ∧
      prior.endPosition = some estimate

/-- Where the estimate and the mark of a completed row come from. -/
inductive Placing (start : Option Point) (known : List Answered) (loaded : Segment) :
    Option Point → Bool → Prop
  /-- The row keeps its start. -/
  | kept : Placing start known loaded loaded.startEstimate loaded.droppedData
  /-- The row has no start, and its event reports one that allows an estimate. -/
  | late {reported estimate : Point} {prior : Option Segment} (hstart : start = some reported)
      (hunknown : loaded.startUnknown = true)
      (hprior : ⟨.priorSegment loaded.vehicleToken, .ok prior⟩ ∈ known)
      (hestimate : lateEstimate prior reported = some estimate) :
      Placing start known loaded (some estimate) true

/-- The grounds for what is written, by a completion of some event or by no completion: a new row
continues a previous segment, and a completion places the open row that it was shown. -/
def StartGrounds (completing : Option SegmentEvent) (known : List Answered) : Call → Prop
  | .insertSegment segment => Continues known segment
  | .updateSegment id written => ∃ event loaded, completing = some event ∧ loaded.id = id ∧
      loaded.isClosed = false ∧ (∃ shown ∈ known, shown.Shows event.id loaded) ∧
      Placing event.start.location known loaded written.startEstimate written.droppedData
  | _ => True

/-- Whether a call writes no row, so that it needs no grounds. -/
def WritesNoRow : Call → Prop
  | .insertSegment _ => False
  | .updateSegment _ _ => False
  | _ => True

variable {completing : Option SegmentEvent}

theorem startGrounds_of_writesNoRow (known : List Answered) (c : Call) (h : WritesNoRow c) :
    StartGrounds completing known c := by
  cases c with
  | insertSegment | updateSegment => exact h.elim
  | _ => exact trivial

/-- A segment that is read was shown. -/
theorem grounded_getSegment (id : String) (known : List Answered) :
    (Handler.getSegment id).Grounded (StartGrounds completing) (fun found later =>
      ∀ segment, found = some segment → ∃ shown ∈ later, shown.Shows id segment) known := by
  refine ⟨trivial, fun answer => grounded_ofExcept ?_⟩
  rintro _ rfl segment rfl
  exact ⟨_, List.mem_append_right _ List.mem_cons_self, .read⟩

/-- A previous segment that is given was looked up. -/
theorem grounded_priorSegment (token : Int) (known : List Answered) :
    (Handler.priorSegment token).Grounded (StartGrounds completing) (fun prior later =>
      ⟨.priorSegment token, .ok prior⟩ ∈ later) known := by
  refine ⟨trivial, fun answer => grounded_ofExcept ?_⟩
  rintro prior rfl
  exact List.mem_append_right _ List.mem_cons_self

/-- Where a previous segment ended is known from looking it up. -/
theorem grounded_priorEnd (vehicle : Vehicle) (start : Option Point) (known : List Answered) :
    (priorEnd vehicle start).Grounded (StartGrounds completing) (fun ended later =>
      ∀ place, ended = some place → ∃ prior,
        ⟨.priorSegment vehicle.token, .ok (some prior)⟩ ∈ later ∧
          prior.endPosition = some place) known := by
  cases start with
  | none => exact nofun
  | some start =>
    refine Grounded.bind (grounded_priorSegment vehicle.token known) fun prior later hprior => ?_
    intro place hplace
    obtain ⟨prior, rfl, hended⟩ := Option.bind_eq_some_iff.mp hplace
    exact ⟨prior, hprior, hended⟩

/-- An estimate of an opened segment is where the previous one ended. -/
theorem ended_of_resolve {ended start : Option Point} {estimate : Point}
    (h : (Placement.resolve ended start).estimate = some estimate) : ended = some estimate := by
  unfold Placement.resolve at h
  split at h
  · exact h
  · cases h

/-- Opening a segment is grounded, and shows the row. -/
theorem grounded_openSegment (event : SegmentEvent) (known : List Answered) :
    (openSegment event).Grounded (StartGrounds completing) (fun segment later =>
      ∃ shown ∈ later, shown.Shows event.id segment) known := by
  have hfind : (Handler.getVehicle event.deviceId).Grounded (StartGrounds completing)
      (fun _ _ => True) known := ⟨trivial, fun answer => grounded_ofExcept fun _ _ => trivial⟩
  refine Grounded.bind hfind fun found known _ => ?_
  cases found with
  | none => exact trivial
  | some vehicle =>
    refine Grounded.bind (grounded_priorEnd vehicle event.start.location known)
      fun ended known hended => ⟨?_, fun answer => ?_⟩
    · intro estimate hestimate
      exact hended estimate (ended_of_resolve hestimate)
    · cases answer with
      | error e => exact trivial
      | ok => exact ⟨_, List.mem_append_right _ List.mem_cons_self, .inserted rfl⟩

/-- A begin event is grounded. -/
theorem grounded_begin (event : SegmentEvent) :
    (begin event).Grounded (StartGrounds completing) (fun _ _ => True) [] := by
  refine Grounded.bind (grounded_getSegment event.id []) fun existing known _ => ?_
  split
  · exact trivial
  · exact Grounded.bind (grounded_openSegment event known) fun _ _ _ => trivial

/-- A vehicle event is grounded: it writes no row. -/
theorem grounded_vehicleEvent (event : CloudEvent MintEvent) :
    (vehicleEvent event).Grounded (StartGrounds completing) (fun _ _ => True) [] := by
  unfold vehicleEvent
  split
  · exact ⟨trivial, fun answer => grounded_ofExcept fun _ _ => trivial⟩
  · exact trivial

/-- Loading the segment of a complete event is grounded, and shows the open row. -/
theorem grounded_loadOpen (event : SegmentEvent) :
    (loadOpen event).Grounded (StartGrounds completing) (fun segment later =>
      segment.isClosed = false ∧ ∃ shown ∈ later, shown.Shows event.id segment) [] := by
  have hreload (known : List Answered) : (reload event).Grounded (StartGrounds completing)
      (fun segment later => ∃ shown ∈ later, shown.Shows event.id segment) known := by
    refine Grounded.bind (grounded_getSegment event.id known) fun found later hfound => ?_
    cases found with
    | none => exact trivial
    | some segment => exact hfound segment rfl
  rw [loadOpen_eq]
  refine Grounded.bind (grounded_getSegment event.id []) fun found known hfound => ?_
  have hloaded : (found.elim (openOrReload event) done).Grounded (StartGrounds completing)
      (fun segment later => ∃ shown ∈ later, shown.Shows event.id segment) known := by
    cases found with
    | some segment => exact hfound segment rfl
    | none =>
      refine Grounded.recover (grounded_openSegment event known) fun e later => ?_
      split
      · exact hreload later
      · exact trivial
  refine Grounded.bind hloaded fun segment later hshown => ?_
  split
  · exact trivial
  · next hopen => exact ⟨by simpa using hopen, hshown⟩

/-- Placing a late start is grounded, and places the segment. -/
theorem grounded_placeLate (loaded : Segment) (start : Option Point) (known : List Answered) :
    (placeLate loaded start).Grounded (StartGrounds completing) (fun placed later =>
      placed.id = loaded.id ∧
        Placing start later loaded placed.startEstimate placed.droppedData) known := by
  unfold placeLate
  split
  · exact ⟨rfl, .kept⟩
  · next reported =>
    split
    · next hunknown =>
      refine Grounded.bind (grounded_priorSegment loaded.vehicleToken known)
        fun prior later hprior => ?_
      split
      · exact ⟨rfl, .kept⟩
      · next estimate hestimate => exact ⟨rfl, .late rfl hunknown hprior hestimate⟩
    · exact ⟨rfl, .kept⟩

/-- A placing stays one among further answers. -/
theorem Placing.mono {start estimate : Option Point} {dropped : Bool} {loaded : Segment}
    {later : List Answered} (h : Placing start known loaded estimate dropped)
    (hlater : known <+: later) : Placing start later loaded estimate dropped := by
  cases h with
  | kept => exact .kept
  | late hstart hunknown hprior hestimate =>
    exact .late hstart hunknown (hlater.subset hprior) hestimate

/-- A complete event is grounded: it closes the open row that it was shown, with the start that it
placed. -/
theorem grounded_complete (processor : Processor) (event : SegmentEvent) :
    (processor.complete event).Grounded (StartGrounds (some event)) (fun _ _ => True) [] := by
  cases hfinish : event.finish with
  | none =>
    unfold complete
    rw [hfinish]
    exact trivial
  | some finish =>
    rw [complete_eq processor event hfinish]
    refine Grounded.bind (grounded_loadOpen event) fun loaded known hloaded => ?_
    obtain ⟨hopen, shown, hmem, hshows⟩ := hloaded
    refine Grounded.bind ((grounded_placeLate loaded event.start.location known).remember
      (List.prefix_refl known)) fun placed later hplaced => ⟨trivial, fun key => ?_⟩
    obtain ⟨hknown, hid, hplacing⟩ := hplaced
    have honly : (processor.archive event.deviceId placed finish.time key).Only WritesNoRow :=
      only_archive processor event.deviceId placed finish.time key (fun _ => trivial) trivial
        fun _ => trivial
    have harchive : (processor.archive event.deviceId placed finish.time key).Grounded
        (StartGrounds (some event)) (fun _ _ => True) (later ++ [⟨.generateKey, key⟩]) :=
      grounded_of_only honly startGrounds_of_writesNoRow _
    refine Grounded.bind (harchive.remember (List.prefix_append later _))
      fun archiveId last hlast => ⟨?_, fun answer => grounded_ofExcept fun _ _ => trivial⟩
    exact ⟨event, loaded, rfl, hid.symm, hopen,
      ⟨shown, hlast.1.subset (hknown.subset hmem), hshows⟩, hplacing.mono hlast.1⟩

end Processor

end TripArchive
