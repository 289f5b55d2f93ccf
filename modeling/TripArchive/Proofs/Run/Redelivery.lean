import TripArchive.Proofs.Run.Lifecycle
import TripArchive.Proofs.Run.Provenance
import TripArchive.Proofs.Segment.Failure

/-!
# Requests that are delivered again

A request that succeeded has left something in the tables that stays: a begin event its row, a
complete event a closed row, a mint its token. Whoever handles it again is turned away by just that,
before it draws a key and without a writing, as long as the tables answer.
-/

namespace TripArchive

namespace Store

variable {store later : Store} {c : Call} {answer : c.Answer}

/-- What a call may be answered as long as the tables do not fail. -/
inductive Serves (store : Store) (c : Call) : c.Answer → Store → Prop
  /-- The tables answer. -/
  | served {answer : c.Answer} {later : Store} (h : store.answer? c = some (answer, later)) :
      Serves store c answer later
  /-- The call goes to another collaborator, which may answer anything. -/
  | elsewhere {answer : c.Answer} (h : store.answer? c = none) : Serves store c answer store

/-- Tables that do not fail give one of the answers to a call. -/
theorem Serves.answers (h : store.Serves c answer later) : store.Answers c answer later := by
  cases h with
  | served hserved => exact .served hserved
  | elsewhere helsewhere => exact .elsewhere helsewhere

/-- Every call is answered. -/
theorem exists_serves (store : Store) (c : Call) :
    ∃ (answer : c.Answer) (later : Store), store.Serves c answer later := by
  cases c with
  | generateKey => exact ⟨Run.filled 0, store, .elsewhere rfl⟩
  | generateNonce => exact ⟨Run.filled 0, store, .elsewhere rfl⟩
  | fetch => exact ⟨Except.ok [], store, .elsewhere rfl⟩
  | upload => exact ⟨Except.ok .blank, store, .elsewhere rfl⟩
  | _ => exact ⟨_, _, .served rfl⟩

/-- A known token stays known. -/
theorem Grows.knows (h : store.Grows later) {token : Int} (hknown : store.knows token = true) :
    later.knows token = true := by
  obtain ⟨vehicle, hmem, htoken⟩ := knows_iff.mp hknown
  exact knows_iff.mpr ⟨vehicle, h.vehicles.subset hmem, htoken⟩

/-- A vehicle that is recorded has a known token. -/
theorem Answers.knows_of_recorded {device : String} {token : Int}
    (h : store.Answers (.upsertVehicle device token) (.ok ()) later) :
    later.knows token = true := by
  cases h with
  | served hserved =>
    simp only [answer?, upsertVehicle, Option.some.injEq] at hserved
    split at hserved
    · next hknown =>
      cases hserved
      exact hknown
    · split at hserved
      · cases hserved
      · cases hserved
        simp [knows]
  | failed hfailed => cases hfailed
  | elsewhere helsewhere => cases helsewhere

end Store

/-- The answer that closes the segment of an identifier. -/
theorem Answered.exists_eq_of_closes {id : String} {answered : Answered}
    (h : answered.closes id = true) :
    ∃ written, answered = ⟨.updateSegment id written, .ok ()⟩ := by
  unfold closes at h
  split at h
  · next closed written =>
    obtain rfl : closed = id := of_decide_eq_true h
    exact ⟨written, rfl⟩
  · cases h

namespace Request

/-- What the tables hold once a request has succeeded. -/
def Fulfilled (store : Store) : Request → Prop
  | begin event => (∃ vehicle, store.vehicle? event.deviceId = some vehicle) ∧
      ∃ row, store.segment? event.id = some row
  | complete event => ∃ row, store.segment? event.id = some row ∧ row.isClosed = true
  | vehicle event => event.type = mintType → store.knows event.data.tokenId = true

/-- What the tables hold of a request they keep holding. -/
theorem Fulfilled.grows {store later : Store} {request : Request}
    (h : request.Fulfilled store) (hgrows : store.Grows later) : request.Fulfilled later := by
  cases request with
  | begin event =>
    obtain ⟨⟨vehicle, hvehicle⟩, row, hrow⟩ := h
    obtain ⟨next, hnext, _⟩ := hgrows.rows _ _ hrow
    exact ⟨⟨vehicle, hgrows.vehicle? hvehicle⟩, next, hnext⟩
  | complete event =>
    obtain ⟨row, hrow, hclosed⟩ := h
    obtain ⟨next, hnext, hbecomes⟩ := hgrows.rows _ _ hrow
    rw [hbecomes.eq_of_isClosed hclosed] at hnext
    exact ⟨row, hnext, hclosed⟩
  | vehicle event => exact fun htype => hgrows.knows (h htype)

end Request

namespace Handler

variable {α : Type} {post : Except SegmentError α → Store → Prop} {store : Store}

/-- A call that the tables answer, whatever they grow into, without being changed by it. -/
theorem safe_served {c : Call} {next : c.Answer → Handler α} {read : Store → c.Answer}
    (hread : ∀ before, store.Grows before → before.answer? c = some (read before, before))
    (hnext : ∀ before, store.Grows before → (next (read before)).Safe Store.Serves Store.Grows
      (fun before later => later = before) post before) :
    (call c next).Safe Store.Serves Store.Grows (fun before later => later = before) post
      store := by
  intro before answer later hgrows hserves
  have hread := hread before hgrows
  cases hserves with
  | served hserved =>
    rw [hread] at hserved
    cases hserved
    exact ⟨rfl, hnext before hgrows⟩
  | elsewhere helsewhere =>
    rw [hread] at helsewhere
    cases helsewhere

/-- A safe handler that leaves the tables as they are with each of its calls does so by itself. -/
theorem Safe.ends_unchanged {law : Law} {rely : Store → Store → Prop} {h : Handler α}
    {later : Store} {trace : List Answered} {result : Except SegmentError α}
    (hsafe : h.Safe law rely (fun before later => later = before) post store)
    (hrely : ∀ store, rely store store) (hends : h.Ends law store trace result later) :
    later = store ∧ post result later := by
  induction hends with
  | done a store => exact ⟨rfl, hsafe⟩
  | fail e store => exact ⟨rfl, hsafe⟩
  | call hanswer _ ih =>
    obtain ⟨rfl, hnext⟩ := hsafe _ _ _ (hrely _) hanswer
    exact ih hnext

end Handler

namespace Processor

open Handler

variable {event : SegmentEvent} {store : Store}

/-- Reading a segment among others. -/
theorem safe_getSegment_served (id : String) (store : Store) :
    (Handler.getSegment id).Safe Store.Serves Store.Grows (fun before later => later = before)
      (fun result later => store.Grows later ∧ result = .ok (later.segment? id)) store :=
  safe_served (fun _ _ => rfl) fun _ hgrows => ⟨hgrows, rfl⟩

/-- A segment that is there is not opened again. -/
theorem safe_openSegment_again (h : (Request.begin event).Fulfilled store) :
    (openSegment event).Safe Store.Serves Store.Grows (fun before later => later = before)
      (fun result _ => result = .error (.store (.duplicate (Store.segmentName event.id))))
      store := by
  obtain ⟨⟨vehicle, hvehicle⟩, row, hrow⟩ := h
  have hfound : (Handler.getVehicle event.deviceId).Safe Store.Serves Store.Grows
      (fun before later => later = before)
      (fun result later => store.Grows later ∧ result = .ok (some vehicle)) store :=
    safe_served (fun _ _ => rfl) fun before hgrows =>
      ⟨hgrows, congrArg Except.ok (hgrows.vehicle? hvehicle)⟩
  refine Safe.bind hfound ?_ fun _ _ he => nomatch he.2
  rintro _ found ⟨hgrown, ⟨⟩⟩
  have hprior : (priorEnd vehicle event.start.location).Safe Store.Serves Store.Grows
      (fun before later => later = before)
      (fun result later => store.Grows later ∧ ∃ ended, result = .ok ended) found := by
    cases event.start.location with
    | none => exact ⟨hgrown, none, rfl⟩
    | some start =>
      exact safe_served (fun _ _ => rfl) fun before hgrows => ⟨hgrown.trans hgrows, _, rfl⟩
  refine Safe.bind hprior ?_ fun _ _ he => nomatch he.2
  rintro ended later ⟨hlater, _⟩
  have hrefused (before : Store) (hgrows : later.Grows before) :
      before.answer? (.insertSegment (placed event vehicle
        (Placement.resolve ended event.start.location))) =
        some (.error (.duplicate (Store.segmentName event.id)), before) := by
    have hknown := (hlater.trans hgrows).knows (Store.knows_of_vehicle? hvehicle)
    obtain ⟨next, hnext, _⟩ := (hlater.trans hgrows).rows _ _ hrow
    have hrefusal : before.insertSegment (placed event vehicle
        (Placement.resolve ended event.start.location)) =
          .error (.duplicate (Store.segmentName event.id)) :=
      Store.insertSegment_of_segment? hknown hnext
    simp only [Store.answer?, hrefusal, Store.after]
  exact safe_served hrefused fun _ _ => rfl

/-- A begin event that is delivered again is refused by its row, open or closed. -/
theorem safe_begin_again (h : (Request.begin event).Fulfilled store) :
    (begin event).Safe Store.Serves Store.Grows (fun before later => later = before)
      (fun result _ => SegmentError.settles result = true) store := by
  refine Safe.bind (safe_getSegment_served event.id store) ?_ fun _ _ he => nomatch he.2
  rintro _ later ⟨hgrown, ⟨⟩⟩
  split
  · exact rfl
  · have hopen := safe_openSegment_again (h.grows hgrown)
    refine Safe.bind hopen (fun _ _ hok => nomatch hok) ?_
    rintro _ _ ⟨⟩
    exact rfl

/-- A complete event that is delivered again is refused by the closed row of its segment. -/
theorem safe_complete_again (processor : Processor)
    (h : (Request.complete event).Fulfilled store) :
    (processor.complete event).Safe Store.Serves Store.Grows (fun before later => later = before)
      (fun result _ => ∃ e, result = .error e ∧ e.stage = .state ∧
        e.errorClass.acknowledges = true) store := by
  cases hfinish : event.finish with
  | none =>
    unfold complete
    rw [hfinish]
    exact ⟨_, rfl, rfl, rfl⟩
  | some finish =>
    have hload : (loadOpen event).Safe Store.Serves Store.Grows
        (fun before later => later = before)
        (fun result _ => result = .error (.alreadyClosed event.id)) store := by
      rw [loadOpen_eq]
      refine Safe.bind (safe_getSegment_served event.id store) ?_ fun _ _ he => nomatch he.2
      rintro _ later ⟨hgrown, ⟨⟩⟩
      obtain ⟨row, hrow, hclosed⟩ := h.grows hgrown
      rw [hrow]
      show (if row.isClosed then fail _ else done row).Safe _ _ _ _ later
      rw [if_pos hclosed]
      exact rfl
    rw [complete_eq_closing processor hfinish]
    refine Safe.bind hload (fun _ _ hok => nomatch hok) ?_
    rintro _ _ ⟨⟩
    exact ⟨_, rfl, rfl, rfl⟩

/-- A vehicle event that is delivered again finds its token known. -/
theorem safe_vehicleEvent_again {event : CloudEvent MintEvent}
    (h : (Request.vehicle event).Fulfilled store) :
    (vehicleEvent event).Safe Store.Serves Store.Grows (fun before later => later = before)
      (fun result _ => result = .ok ()) store := by
  unfold vehicleEvent
  split
  · next htype =>
    have hkept (before : Store) (hgrows : store.Grows before) :
        before.answer? (.upsertVehicle event.data.deviceId event.data.tokenId) =
          some (.ok (), before) := by
      have hknown := hgrows.knows (h htype)
      simp only [Store.answer?, Store.upsertVehicle, hknown, if_true, Store.after]
    exact safe_served hkept fun _ _ => rfl
  · exact rfl

end Processor

namespace Request

variable {processor : Processor} {request : Request} {store later : Store}

/-- Whatever other workers do between its calls, a request that is delivered again leaves the tables
as they are with each of them, and is acknowledged. -/
theorem Fulfilled.safe_again (processor : Processor) (h : request.Fulfilled store) :
    (request.handler processor).Safe Store.Serves Store.Grows (fun before later => later = before)
      (fun result _ => SegmentError.settles result = true) store := by
  cases request with
  | begin event => exact Processor.safe_begin_again h
  | complete event =>
    apply (Processor.safe_complete_again processor h).weaken (fun _ _ h => h) (fun _ _ h => h)
    rintro _ _ ⟨e, rfl, _, hsettles⟩
    exact hsettles
  | vehicle event =>
    apply (Processor.safe_vehicleEvent_again h).weaken (fun _ _ h => h) (fun _ _ h => h)
    rintro _ _ rfl
    rfl

/-- A request that is delivered again goes through no phase. -/
theorem Fulfilled.phases_again {trace : List Answered} {result : Except SegmentError Unit}
    (h : request.Fulfilled store)
    (hends : (request.handler processor).Ends Store.Serves store trace result later) :
    phases trace = [] := by
  cases request with
  | begin event => exact phases_eq_nil_of_path hends.path (by simp)
  | vehicle event => exact phases_eq_nil_of_path hends.path (by simp)
  | complete event =>
    obtain ⟨e, rfl, hstage, _⟩ := (Processor.safe_complete_again processor h).ends .refl hends
    exact Processor.phases_of_complete (hends.weaken Store.Serves.answers) (Or.inr hstage)

end Request

namespace Run

variable {processor : Processor} {run later : Run} {i : Nat} {request : Request}

/-- A vehicle that was recorded has a known token. -/
theorem Reachable.knows_of_recorded (hrun : Reachable processor run) {device : String}
    {token : Int} (hmem : ⟨i, ⟨.upsertVehicle device token, .ok ()⟩⟩ ∈ run.log) :
    run.store.knows token = true := by
  induction hrun with
  | refl => cases hmem
  | tail _ hstep ih =>
    cases hstep with
    | take request => exact ih hmem
    | @answer j request c next answer stored hattempt hanswer =>
      rcases List.mem_append.mp hmem with hold | hnew
      · exact hanswer.grows.knows (ih hold)
      · cases List.mem_singleton.mp hnew
        exact hanswer.knows_of_recorded

/-- A request that succeeded in a reachable run is fulfilled there. -/
theorem Reachable.fulfilled (hrun : Reachable processor run)
    (hdone : run.attempts[i]? = some ⟨request, .done ()⟩) : request.Fulfilled run.store := by
  have hpath := hrun.path hdone
  cases request with
  | begin event =>
    obtain ⟨segment, hid, hinserted⟩ := Processor.begin_done hpath
    constructor
    · obtain ⟨_, vehicle, _, ⟨⟩, _, hfound⟩ := vouches_handler hpath hinserted
      exact ⟨vehicle, hrun.vehicle?_of_found (mem_trace.mp hfound)⟩
    · obtain ⟨row, hrow, _⟩ := hrun.shown (mem_trace.mp hinserted) (.inserted hid)
      exact ⟨row, hrow⟩
  | complete event =>
    obtain ⟨⟨j, answered⟩, hmem, rfl, hcloses⟩ := hrun.closes_of_complete hdone
    obtain ⟨written, rfl⟩ := Answered.exists_eq_of_closes hcloses
    obtain ⟨inserted, hrow⟩ := hrun.row_of_closes hmem
    exact ⟨_, hrow, rfl⟩
  | vehicle event =>
    intro htype
    have hrecorded : Handler.Path (Handler.upsertVehicle event.data.deviceId event.data.tokenId)
        (run.trace i) (.done ()) := by
      change Handler.Path (Processor.vehicleEvent event) _ _ at hpath
      unfold Processor.vehicleEvent at hpath
      rwa [if_pos htype] at hpath
    obtain ⟨answer, rest, htrace, hanswer⟩ := Handler.path_call_done hrecorded
    obtain ⟨_, rfl⟩ := Handler.path_ofExcept_done hanswer
    have hmem : (⟨.upsertVehicle event.data.deviceId event.data.tokenId, .ok ()⟩ : Answered) ∈
        run.trace i := by
      rw [htrace]
      exact List.mem_cons_self
    exact hrun.knows_of_recorded (mem_trace.mp hmem)

/-- A request that succeeded at some time of a run is harmless at every later time. Whoever handles
it again by itself, on tables that answer, comes to an end, and whatever the other collaborators
answer, this leaves the tables as they are, draws no key, fetches and uploads nothing, and is
acknowledged. -/
theorem redelivery_harmless (hrun : Reachable processor run)
    (hdone : run.attempts[i]? = some ⟨request, .done ()⟩) (hleads : Leads processor run later) :
    (∃ trace result, (request.handler processor).Ends Store.Serves later.store trace result
      later.store) ∧
    ∀ trace result last,
      (request.handler processor).Ends Store.Serves later.store trace result last →
        last = later.store ∧ phases trace = [] ∧ SegmentError.settles result = true := by
  have hfulfilled : request.Fulfilled later.store := (hrun.fulfilled hdone).grows hleads.grows
  have hsafe := hfulfilled.safe_again processor
  constructor
  · obtain ⟨trace, result, last, hends⟩ :=
      Handler.exists_ends Store.exists_serves (request.handler processor) later.store
    obtain ⟨rfl, _⟩ := hsafe.ends_unchanged .refl hends
    exact ⟨trace, result, hends⟩
  · intro trace result last hends
    obtain ⟨hlast, hsettles⟩ := hsafe.ends_unchanged .refl hends
    exact ⟨hlast, hfulfilled.phases_again hends, hsettles⟩

/-- A ride that two workers have raced to close is handled once more after the race: its row stays,
no phase is gone through again, and the event is acknowledged. -/
theorem closed_ride_again :
    ∃ trace result, ((Request.complete ride).handler offline).Ends Store.Serves
        ((start.play offline (race.take 14)).play offline (race.drop 14)).store trace result
        ((start.play offline (race.take 14)).play offline (race.drop 14)).store ∧
      phases trace = [] ∧ SegmentError.settles result = true := by
  have hdone : (start.play offline (race.take 14)).attempts[2]? =
      some ⟨.complete ride, .done ()⟩ := rfl
  obtain ⟨⟨trace, result, hends⟩, hharmless⟩ := redelivery_harmless
    (reachable_play offline (race.take 14)) hdone (leads_play offline _ (race.drop 14))
  obtain ⟨_, hphases, hsettles⟩ := hharmless _ _ _ hends
  exact ⟨trace, result, hends, hphases, hsettles⟩

end Run

end TripArchive
