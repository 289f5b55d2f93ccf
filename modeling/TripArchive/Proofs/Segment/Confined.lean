import TripArchive.Proofs.Segment.Completion
import TripArchive.Proofs.Store.Parts

/-!
# Calls that stay with a segment and its vehicle

A segment event asks about its segment and its device, and about the vehicles that it was answered:
that of the device, and that of the row. `Confined` says so of a handler, with rules that follow its
text. So the calls of an event look at one part of the tables and write only there, as long as the
tables know the event under some tokens (`Covers`).
-/

namespace TripArchive

/-- Whether a row is of the segment of an event and of one of some vehicles. -/
def Segment.Concerns (event : SegmentEvent) (tokens : List Int) (row : Segment) : Prop :=
  row.id = event.id ∧ row.vehicleToken ∈ tokens

/-- The calls that are about the segment of an event and some vehicles. -/
def Call.Concerns (event : SegmentEvent) (tokens : List Int) : Call → Prop
  | getSegment id => id = event.id
  | getVehicle device => device = event.deviceId
  | priorSegment token => token ∈ tokens
  | insertSegment segment => segment.Concerns event tokens
  | updateSegment id _ => id = event.id
  | upsertVehicle _ _ => False
  | generateKey => True
  | generateNonce => True
  | fetch _ => True
  | upload _ => True

/-- The answers that show nothing but the segment of an event and some vehicles. -/
def Answered.Concerns (event : SegmentEvent) (tokens : List Int) : Answered → Prop
  | ⟨.getSegment _, .ok (some row)⟩ => row.Concerns event tokens
  | ⟨.getVehicle _, .ok (some vehicle)⟩ => vehicle.token ∈ tokens
  | _ => True

namespace Handler

variable {α β : Type} {event : SegmentEvent} {tokens : List Int} {post : α → Prop} {h : Handler α}

/-- Whether a handler calls for nothing but the segment of an event and some vehicles, and ends with
a value as it should, as long as it is shown nothing else. -/
def Confined (event : SegmentEvent) (tokens : List Int) (post : α → Prop) : Handler α → Prop
  | done a => post a
  | fail _ => True
  | call c next => c.Concerns event tokens ∧
      ∀ answer, Answered.Concerns event tokens ⟨c, answer⟩ →
        (next answer).Confined event tokens post

/-- Taking the value of an answer needs no call. -/
theorem confined_ofExcept {ε : Type} {wrap : ε → SegmentError} {answer : Except ε α}
    (hok : ∀ a, answer = .ok a → post a) :
    (ofExcept wrap answer).Confined event tokens post := by
  cases answer with
  | ok a => exact hok a rfl
  | error e => trivial

/-- A sequence is confined if its first handler is, and the second one is with its value. -/
theorem Confined.bind {f : α → Handler β} {post' : β → Prop}
    (hfirst : h.Confined event tokens post)
    (hsecond : ∀ a, post a → (f a).Confined event tokens post') :
    (h.bind f).Confined event tokens post' := by
  induction h with
  | done a => exact hsecond a hfirst
  | fail e => trivial
  | call c next ih =>
    exact ⟨hfirst.1, fun answer hanswer => ih answer (hfirst.2 answer hanswer)⟩

/-- A handler with a recovery is confined if both are. -/
theorem Confined.recover {f : SegmentError → Handler α}
    (hfirst : h.Confined event tokens post) (hsecond : ∀ e, (f e).Confined event tokens post) :
    (h.recover f).Confined event tokens post := by
  induction h with
  | done a => exact hfirst
  | fail e => exact hsecond e
  | call c next ih =>
    exact ⟨hfirst.1, fun answer hanswer => ih answer (hfirst.2 answer hanswer)⟩

/-- A handler is confined whose calls are whatever they are answered. -/
theorem Only.confined (honly : h.Only (Call.Concerns event tokens)) :
    h.Confined event tokens fun _ => True := by
  induction h with
  | done a => trivial
  | fail e => trivial
  | call c next ih => exact ⟨honly.1, fun answer _ => ih answer (honly.2 answer)⟩

end Handler

namespace Processor

open Handler

variable {event : SegmentEvent} {tokens : List Int}

/-- Reading the segment of an event. -/
theorem confined_getSegment (event : SegmentEvent) (tokens : List Int) :
    (Handler.getSegment event.id).Confined event tokens fun found =>
      ∀ row, found = some row → row.Concerns event tokens := by
  refine ⟨rfl, fun answer hanswer => confined_ofExcept ?_⟩
  rintro _ rfl row rfl
  exact hanswer

/-- Reading the previous segment of one of the vehicles. -/
theorem confined_priorSegment {token : Int} (htoken : token ∈ tokens) :
    (Handler.priorSegment token).Confined event tokens fun _ => True :=
  ⟨htoken, fun _ _ => confined_ofExcept fun _ _ => trivial⟩

/-- Opening the segment of an event. -/
theorem confined_openSegment (event : SegmentEvent) (tokens : List Int) :
    (openSegment event).Confined event tokens (Segment.Concerns event tokens) := by
  have hfound : (Handler.getVehicle event.deviceId).Confined event tokens fun found =>
      ∀ vehicle, found = some vehicle → vehicle.token ∈ tokens := by
    refine ⟨rfl, fun answer hanswer => confined_ofExcept ?_⟩
    rintro _ rfl vehicle rfl
    exact hanswer
  refine Confined.bind hfound fun found hvehicle => ?_
  cases found with
  | none => trivial
  | some vehicle =>
    have htoken := hvehicle vehicle rfl
    have hprior : (priorEnd vehicle event.start.location).Confined event tokens fun _ => True := by
      cases event.start.location with
      | none => trivial
      | some start => exact Confined.bind (confined_priorSegment htoken) fun _ _ => trivial
    refine Confined.bind hprior fun ended _ => ?_
    have hopened : (placed event vehicle
        (Placement.resolve ended event.start.location)).Concerns event tokens := ⟨rfl, htoken⟩
    have hinsert : (Handler.insertSegment (placed event vehicle
        (Placement.resolve ended event.start.location))).Confined event tokens fun _ => True :=
      ⟨hopened, fun _ _ => confined_ofExcept fun _ _ => trivial⟩
    exact Confined.bind hinsert fun _ _ => hopened

/-- A begin event. -/
theorem confined_begin (event : SegmentEvent) (tokens : List Int) :
    (begin event).Confined event tokens fun _ => True := by
  refine Confined.bind (confined_getSegment event tokens) fun existing _ => ?_
  split
  · trivial
  · exact Confined.bind (confined_openSegment event tokens) fun _ _ => trivial

/-- Loading the segment of a complete event. -/
theorem confined_loadOpen (event : SegmentEvent) (tokens : List Int) :
    (loadOpen event).Confined event tokens (Segment.Concerns event tokens) := by
  rw [loadOpen_eq]
  have hreload : (reload event).Confined event tokens (Segment.Concerns event tokens) := by
    refine Confined.bind (confined_getSegment event tokens) fun found hrow => ?_
    cases found with
    | none => trivial
    | some row => exact hrow row rfl
  refine Confined.bind (confined_getSegment event tokens) fun found hrow => ?_
  have hloaded : (found.elim (openOrReload event) done).Confined event tokens
      (Segment.Concerns event tokens) := by
    cases found with
    | some row => exact hrow row rfl
    | none =>
      refine Confined.recover (confined_openSegment event tokens) fun e => ?_
      split
      · exact hreload
      · trivial
  refine Confined.bind hloaded fun row hconcerns => ?_
  split
  · trivial
  · exact hconcerns

/-- Placing a late start. -/
theorem confined_placeLate {row : Segment} (hrow : row.Concerns event tokens)
    (start : Option Point) :
    (placeLate row start).Confined event tokens (Segment.Concerns event tokens) := by
  unfold placeLate
  split
  · exact hrow
  · split
    · refine Confined.bind (confined_priorSegment hrow.2) fun prior _ => ?_
      split
      · exact hrow
      · exact hrow
    · exact hrow

/-- A complete event. -/
theorem confined_complete (processor : Processor) (event : SegmentEvent) (tokens : List Int) :
    (processor.complete event).Confined event tokens fun _ => True := by
  cases hfinish : event.finish with
  | none =>
    unfold complete
    rw [hfinish]
    trivial
  | some finish =>
    rw [complete_eq processor event hfinish]
    refine Confined.bind (confined_loadOpen event tokens) fun loaded hloaded => ?_
    refine Confined.bind (confined_placeLate hloaded _) fun segment hsegment => ?_
    refine ⟨trivial, fun key _ => ?_⟩
    have harchive : (processor.archive event.deviceId segment finish.time key).Confined event tokens
        fun _ => True :=
      (only_archive processor _ segment _ key (fun _ => trivial) trivial fun _ => trivial).confined
    refine Confined.bind harchive fun archiveId _ => ?_
    exact ⟨hsegment.1, fun _ _ => confined_ofExcept fun _ _ => trivial⟩

end Processor

end TripArchive
