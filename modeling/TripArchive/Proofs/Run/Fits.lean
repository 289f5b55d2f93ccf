import TripArchive.Proofs.Event
import TripArchive.Proofs.Run.Safe
import TripArchive.Proofs.Segment.Completion

/-!
# Values that can be held

What is decoded has tokens of sixty-four bits and moments of the calendar (`Router.fits_request`).
The processor writes no other values than those of its requests, so that along a run the tables hold
such values only (`Reachable.fits`).
-/

namespace TripArchive

/-- Whether the token and the moments of a request can be held, as those of each event that is
decoded. -/
def Request.Fits : Request → Prop
  | begin event => event.Fits
  | complete event => event.Fits
  | vehicle event => IsInt64 event.data.tokenId

/-- The request that a message makes. -/
def Inbound.request? : Inbound → Option Request
  | segment task => some (.ofSegment task.event)
  | vehicle task => some (.vehicle task.event)
  | ignored _ _ => none

/-- The request that a routed message makes fits. -/
theorem Router.fits_request {router : Router} {delivery : Delivery} {payload : Option Bytes}
    {inbound : Inbound} (h : router.route delivery payload = .ok inbound) :
    ∀ request ∈ inbound.request?, request.Fits := by
  have hfits := fits_of_route h
  cases inbound with
  | segment task =>
    rintro _ ⟨⟩
    unfold Request.ofSegment
    split <;> exact hfits
  | vehicle task =>
    rintro _ ⟨⟩
    exact hfits
  | ignored => simp [Inbound.request?]

/-- Whether what a call writes at the start of a segment or of a vehicle can be held. -/
def Call.Fits : Call → Prop
  | insertSegment segment => segment.startTime.InCalendar
  | upsertVehicle _ token => IsInt64 token
  | _ => True

/-- Whether the tokens and the starts in the tables can be held. -/
structure Store.Fits (store : Store) : Prop where
  tokens : ∀ vehicle ∈ store.vehicles, IsInt64 vehicle.token
  starts : ∀ row ∈ store.segments, row.startTime.InCalendar

/-- A row is of a vehicle whose token can be held. -/
theorem Store.Fits.token {store : Store} (h : store.Fits) (hkeyed : store.Keyed) {row : Segment}
    (hmem : row ∈ store.segments) : IsInt64 row.vehicleToken := by
  obtain ⟨vehicle, hvehicle, htoken⟩ := Store.knows_iff.mp (hkeyed.known row hmem)
  exact htoken ▸ h.tokens vehicle hvehicle

/-- A call that fits leaves tables that fit. -/
theorem Store.Fits.step {store later : Store} {c : Call} {answer : c.Answer} (h : store.Fits)
    (hc : c.Fits) (hanswer : store.Answers c answer later) : later.Fits := by
  cases hanswer.tableStep with
  | kept => exact h
  | recorded device token =>
    refine ⟨fun vehicle hmem => ?_, h.starts⟩
    rcases List.mem_append.mp hmem with hold | hnew
    · exact h.tokens vehicle hold
    · rw [List.mem_singleton.mp hnew]
      exact hc
  | inserted segment =>
    refine ⟨h.tokens, fun row hmem => ?_⟩
    rcases List.mem_append.mp hmem with hold | hnew
    · exact h.starts row hold
    · rw [List.mem_singleton.mp hnew]
      exact hc
  | closed id row completion =>
    refine ⟨h.tokens, fun other hmem => ?_⟩
    have hstart := List.mem_map_of_mem (f := Segment.startTime) hmem
    rw [Store.map_complete_congr _ _ _ _ fun _ => rfl] at hstart
    obtain ⟨before, hbefore, hsame⟩ := List.mem_map.mp hstart
    exact hsame ▸ h.starts before hbefore

namespace Processor

open Handler

/-- The opening calls of an event that fits do. -/
theorem Opening.fits {event : SegmentEvent} {c : Call} (h : Opening event c) (hevent : event.Fits) :
    c.Fits := by
  cases h with
  | insertSegment vehicle placement => exact hevent.start
  | _ => trivial

/-- The calls of a request that fits do. -/
theorem fits_handler (processor : Processor) {request : Request} (h : request.Fits) :
    (request.handler processor).Only Call.Fits := by
  cases request with
  | begin event => exact (only_begin event).mono fun c hc => hc.fits h
  | vehicle event =>
    show (vehicleEvent event).Only Call.Fits
    unfold vehicleEvent
    split
    · exact ⟨h, fun answer => only_ofExcept answer⟩
    · trivial
  | complete event =>
    show (processor.complete event).Only Call.Fits
    cases hfinish : event.finish with
    | none =>
      unfold complete
      rw [hfinish]
      trivial
    | some finish =>
      rw [complete_eq processor event hfinish]
      refine Only.bind ((only_loadOpen event).mono fun c hc => hc.fits h) fun loaded => ?_
      have hplace := (only_placeLate event loaded event.start.location).mono fun c hc => hc.fits h
      refine Only.bind hplace fun segment => ⟨trivial, fun key => Only.bind ?_ fun archiveId => ?_⟩
      · exact only_archive processor _ segment _ key (fun _ => trivial) trivial fun _ => trivial
      · exact ⟨trivial, fun answer => only_ofExcept answer⟩

end Processor

namespace Run

open Handler Processor

variable {processor : Processor} {run : Run}

/-- If every request of a run fits, so do its tables. -/
theorem Reachable.fits (hrun : Reachable processor run)
    (hrequests : ∀ attempt ∈ run.attempts, attempt.request.Fits) : run.store.Fits := by
  induction hrun with
  | refl => exact ⟨List.forall_mem_nil _, List.forall_mem_nil _⟩
  | @tail middle _ hmiddle hstep ih =>
    cases hstep with
    | take request => exact ih fun attempt hmem => hrequests attempt (List.mem_append_left _ hmem)
    | @answer i request c next answer later hattempt hanswer =>
      have hlt : i < middle.attempts.length := (List.getElem?_eq_some_iff.mp hattempt).1
      have hearlier : ∀ attempt ∈ middle.attempts, attempt.request.Fits := by
        intro attempt hmem
        obtain ⟨j, hj⟩ := List.mem_iff_getElem?.mp hmem
        by_cases hij : i = j
        · subst hij
          rw [hattempt] at hj
          cases hj
          exact hrequests ⟨request, next answer⟩
            (List.mem_of_getElem? (List.getElem?_set_self hlt))
        · exact hrequests attempt (List.mem_of_getElem? ((List.getElem?_set_ne hij).trans hj))
      have hcalls := fits_handler processor (hearlier _ (List.mem_of_getElem? hattempt))
      have hrest := ((Reachable.path hmiddle hattempt).only hcalls).2
      exact (ih hearlier).step hrest.1 hanswer

end Run

end TripArchive
