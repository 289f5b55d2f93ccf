import TripArchive.Proofs.Run.Attempts
import TripArchive.Proofs.Run.Lifecycle
import TripArchive.Proofs.Run.Safe
import TripArchive.Proofs.Segment.Grounds
import TripArchive.Proofs.Segment.Placement
import TripArchive.Proofs.Segment.Provenance

/-!
# Where the starts of rows come from

Whoever writes the start of a row has grounds for it, and the answers that are the grounds were
given by earlier tables of the run. So a known start never changes (`Leads.start_kept`), and an
estimate is where another segment of the vehicle ended that had ended last when it was looked up
(`estimate_of_last_ended`). Nobody compares that end with the start of the row.
-/

namespace TripArchive

/-- The complete event that a request is about. -/
def Request.completing? : Request → Option SegmentEvent
  | begin _ => none
  | complete event => some event
  | vehicle _ => none

/-- Only the complete event itself is one. -/
theorem Request.eq_of_completing? {request : Request} {event : SegmentEvent}
    (h : request.completing? = some event) : request = .complete event := by
  cases request with
  | complete _ =>
    cases h
    rfl
  | begin _ => cases h
  | vehicle _ => cases h

namespace Run

open Processor

variable {processor : Processor} {run later : Run} {id : String} {row : Segment} {i : Nat}
  {request : Request}

/-- Every request is handled on grounds. -/
theorem grounded_handler (processor : Processor) (request : Request) :
    (request.handler processor).Grounded (StartGrounds request.completing?) (fun _ _ => True)
      [] := by
  cases request with
  | begin event => exact grounded_begin event
  | complete event => exact grounded_complete processor event
  | vehicle event => exact grounded_vehicleEvent event

/-- An attempt that stands at a call has the grounds for it in its answers. -/
theorem Reachable.grounds (hrun : Reachable processor run) {c : Call}
    {next : c.Answer → Handler Unit}
    (hattempt : run.attempts[i]? = some ⟨request, .call c next⟩) :
    StartGrounds request.completing? (run.trace i) c :=
  ((grounded_handler processor request).path (hrun.path hattempt)).1

/-- An attempt goes on with the request that it took up. -/
theorem Leads.same_request {rest : Handler Unit} (hleads : Leads processor run later)
    (hattempt : run.attempts[i]? = some ⟨request, rest⟩) :
    ∃ rest', later.attempts[i]? = some ⟨request, rest'⟩ := by
  induction hleads with
  | refl => exact ⟨rest, hattempt⟩
  | @tail middle _ _ hstep ih =>
    obtain ⟨rest', hmiddle⟩ := ih
    have hlt : i < middle.attempts.length := (List.getElem?_eq_some_iff.mp hmiddle).1
    cases hstep with
    | take => exact ⟨rest', by rwa [List.getElem?_append_left hlt]⟩
    | @answer j other c next answer stored hother _ =>
      by_cases hij : j = i
      · subst hij
        rw [hmiddle] at hother
        cases hother
        exact ⟨next answer, List.getElem?_set_self hlt⟩
      · exact ⟨rest', by rwa [List.getElem?_set_ne hij]⟩

/-- Every entry of the log was answered by the tables of an earlier run, where its attempt stood at
the call. -/
theorem Reachable.fired (hrun : Reachable processor run) {answered : Answered}
    (hmem : ⟨i, answered⟩ ∈ run.log) :
    ∃ before request next stored, Reachable processor before ∧ Leads processor before run ∧
      before.attempts[i]? = some ⟨request, .call answered.call next⟩ ∧
      before.store.Answers answered.call answered.answer stored := by
  induction hrun with
  | refl => cases hmem
  | @tail middle last hmiddle hstep ih =>
    cases hstep with
    | take request =>
      obtain ⟨before, other, next, stored, hbefore, hleads, hfired⟩ := ih hmem
      exact ⟨before, other, next, stored, hbefore, hleads.tail (.take middle request), hfired⟩
    | @answer j request c next answer stored hattempt hanswer =>
      rcases List.mem_append.mp hmem with hold | hnew
      · obtain ⟨before, other, next, earlier, hbefore, hleads, hfired⟩ := ih hold
        exact ⟨before, other, next, earlier, hbefore, hleads.tail (.answer hattempt hanswer),
          hfired⟩
      · cases List.mem_singleton.mp hnew
        exact ⟨middle, request, next, stored, hmiddle, .single (.answer hattempt hanswer), hattempt,
          hanswer⟩

/-- An attempt that is about to close an open row places that row: the row that it was shown is
still there. -/
theorem Reachable.placing (hrun : Reachable processor run) {written : Completion}
    {next : (Call.updateSegment id written).Answer → Handler Unit}
    (hattempt : run.attempts[i]? = some ⟨request, .call (.updateSegment id written) next⟩)
    (hrow : run.store.segment? id = some row) (hopen : row.isClosed = false) :
    ∃ event, request = .complete event ∧ event.id = id ∧
      Placing event.start.location (run.trace i) row written.startEstimate
        written.droppedData := by
  obtain ⟨event, loaded, hevent, hid, _, ⟨shown, hshown, hshows⟩, hplacing⟩ := hrun.grounds hattempt
  obtain ⟨current, hcurrent, hbecomes⟩ := hrun.shown (mem_trace.mp hshown) hshows
  have heventId : event.id = id := by
    rw [← Store.id_of_segment? hcurrent, hbecomes.identity.1, hid]
  rw [heventId, hrow] at hcurrent
  cases hcurrent
  have hsame : row = loaded := hbecomes.eq_of_isOpen hopen
  exact ⟨event, Request.eq_of_completing? hevent, heventId, hsame ▸ hplacing⟩

/-- A start that is known in the row of a run is the start of the row in every later run. -/
theorem Leads.start_kept (hrun : Reachable processor run) (hleads : Leads processor run later)
    (hrow : run.store.segment? id = some row) (hknown : row.startUnknown = false) :
    ∃ kept, later.store.segment? id = some kept ∧ row.SameStart kept := by
  induction hleads with
  | refl => exact ⟨row, hrow, .refl row⟩
  | @tail middle last hmiddle hstep ih =>
    obtain ⟨kept, hkept, hsame⟩ := ih
    cases hstep with
    | take => exact ⟨kept, hkept, hsame⟩
    | @answer j request c next answer stored hattempt hanswer =>
      have hrowStep := hanswer.rowStep id
      rw [hkept] at hrowStep
      generalize stored.segment? id = after at hrowStep ⊢
      cases hrowStep with
      | kept => exact ⟨kept, rfl, hsame⟩
      | closed _ written hopen =>
        obtain ⟨event, _, _, hplacing⟩ :=
          (hrun.leads hmiddle).placing hattempt hkept hopen
        refine ⟨kept.complete written, rfl, hsame.trans ?_⟩
        generalize hestimate : written.startEstimate = estimate at hplacing
        generalize hdropped : written.droppedData = dropped at hplacing
        cases hplacing with
        | kept => exact ⟨rfl, hestimate, hdropped⟩
        | late _ hunknown =>
          rw [hsame.startUnknown_eq, hknown] at hunknown
          cases hunknown

/-- Whether an attempt at an event of a segment is about to be told the previous segment of a
vehicle. -/
def LooksUp (run : Run) (id : String) (token : Int) : Prop :=
  ∃ (i : Nat) (request : Request) (event : SegmentEvent)
    (next : (Call.priorSegment token).Answer → Handler Unit),
    run.attempts[i]? = some ⟨request, .call (.priorSegment token) next⟩ ∧
      request.event? = some event ∧ event.id = id

/-- Where the estimate of a segment comes from: from the segment of its vehicle that had ended last
when it was looked up, or from a complete event that reported it when none of the vehicle had
ended. -/
inductive EstimateSource (processor : Processor) (run : Run) (id : String) (token : Int)
    (estimate : Point) : Prop
  | previous {before : Run} {prior : Segment} {finish : Instant}
      (hbefore : Reachable processor before) (hleads : Leads processor before run)
      (hlooks : before.LooksUp id token)
      (hlast : before.store.EndedLast token prior finish) (hother : prior.id ≠ id)
      (hended : prior.endPosition = some estimate)
  | reported {before : Run} {event : SegmentEvent} {rest : Handler Unit} {i : Nat}
      (hbefore : Reachable processor before) (hleads : Leads processor before run)
      (hlooks : before.LooksUp id token)
      (hnone : before.store.NoneEnded token)
      (hattempt : run.attempts[i]? = some ⟨.complete event, rest⟩) (hid : event.id = id)
      (hstart : event.start.location = some estimate)

variable {token : Int} {estimate : Point}

/-- A source in a run is one in all later runs. -/
theorem EstimateSource.mono (h : EstimateSource processor run id token estimate)
    (hlater : Leads processor run later) :
    EstimateSource processor later id token estimate := by
  cases h with
  | previous hbefore hleads hlooks hlast hother hended =>
    exact .previous hbefore (hleads.trans hlater) hlooks hlast hother hended
  | reported hbefore hleads hlooks hnone hattempt hid hstart =>
    obtain ⟨rest, hrest⟩ := hlater.same_request hattempt
    exact .reported hbefore (hleads.trans hlater) hlooks hnone hrest hid hstart

/-- A previous segment that an event of a segment looked up is what the tables of an earlier run
gave. -/
theorem Reachable.prior?_of_looked_up (hrun : Reachable processor run) {prior : Option Segment}
    {event : SegmentEvent} {rest : Handler Unit}
    (hattempt : run.attempts[i]? = some ⟨request, rest⟩) (hevent : request.event? = some event)
    (hmem : ⟨.priorSegment token, .ok prior⟩ ∈ run.trace i) :
    ∃ before, Reachable processor before ∧ Leads processor before run ∧
      before.LooksUp event.id token ∧ before.store.prior? token = prior := by
  obtain ⟨before, request', next, _, hbefore, hleads, hasks, hanswer⟩ :=
    hrun.fired (mem_trace.mp hmem)
  obtain ⟨_, hsame⟩ := hleads.same_request hasks
  rw [hattempt] at hsame
  cases hsame
  refine ⟨before, hbefore, hleads, ⟨i, request, event, next, hasks, hevent, rfl⟩, ?_⟩
  cases hanswer with
  | served hserved => exact Except.ok.inj (Prod.mk.inj (Option.some.inj hserved)).1
  | failed hfailed => cases hfailed
  | elsewhere helsewhere => cases helsewhere

/-- A row that has ended in a run is there in all later runs. -/
theorem segment?_of_endedLast {before : Run} {prior : Segment} {finish : Instant}
    (hbefore : Reachable processor before) (hleads : Leads processor before run)
    (hlast : before.store.EndedLast token prior finish) :
    run.store.segment? prior.id = some prior := by
  have hrow := hbefore.keyed.segment?_of_mem hlast.listed
  obtain ⟨kept, hkept, hbecomes⟩ := hleads.becomes hrow
  rw [hkept, hbecomes.eq_of_isClosed (Store.isClosed_of_endTime hlast.ended)]

/-- The attempt that inserted a segment is at an event of it. -/
theorem Reachable.event_of_inserted (hrun : Reachable processor run) {segment : Segment}
    (hmem : ⟨i, ⟨.insertSegment segment, .ok ()⟩⟩ ∈ run.log) {before : Run} {rest : Handler Unit}
    (hleads : Leads processor before run)
    (hattempt : before.attempts[i]? = some ⟨request, rest⟩) :
    ∃ event, request.event? = some event ∧ event.id = segment.id := by
  obtain ⟨_, hsame⟩ := hleads.same_request hattempt
  obtain ⟨event, vehicle, placement, hevent, rfl, _⟩ :=
    vouches_handler (hrun.path hsame) (mem_trace.mpr hmem)
  exact ⟨event, hevent, rfl⟩

/-- The estimate of an inserted row has a source. -/
theorem Reachable.source_of_inserted (hrun : Reachable processor run) {segment : Segment}
    (hmem : ⟨i, ⟨.insertSegment segment, .ok ()⟩⟩ ∈ run.log)
    (hestimate : segment.startEstimate = some estimate) :
    EstimateSource processor run segment.id segment.vehicleToken estimate := by
  obtain ⟨middle, request, _, _, hmiddle, hleads, hattempt, hanswer⟩ := hrun.fired hmem
  obtain ⟨event, hevent, hid⟩ := hrun.event_of_inserted hmem hleads hattempt
  obtain ⟨prior, hlooked, hended⟩ := hmiddle.grounds hattempt estimate hestimate
  obtain ⟨before, hbefore, hearlier, hlooks, hprior⟩ :=
    hmiddle.prior?_of_looked_up hattempt hevent hlooked
  obtain ⟨finish, hlast⟩ := Store.endedLast_of_prior? hprior
  refine .previous hbefore (hearlier.trans hleads) (hid ▸ hlooks) hlast ?_ hended
  -- The previous segment has a row by then, and the new one had none.
  intro hid
  have hthere := segment?_of_endedLast hbefore hearlier hlast
  have hnew : middle.store.segment? segment.id = none := by
    cases hanswer.tableStep with
    | inserted _ _ hnew => exact hnew
    | kept _ hwrites =>
      have hwritten := hwrites segment.id
      simp [Answered.writes, Answered.inserts] at hwritten
  rw [hid, hnew] at hthere
  cases hthere

/-- The estimate of an open row has a source. -/
theorem Reachable.source_of_open (hrun : Reachable processor run)
    (hrow : run.store.segment? id = some row) (hopen : row.isClosed = false)
    (hestimate : row.startEstimate = some estimate) :
    EstimateSource processor run id row.vehicleToken estimate := by
  have hlife := hrun.life id
  rw [hrow] at hlife
  generalize hwritten : run.writesOf id = written at hlife
  cases hlife with
  | opened i _ hid =>
    have hmem : (⟨i, ⟨.insertSegment row, .ok ()⟩⟩ : Entry) ∈ run.writesOf id := by
      rw [hwritten]
      exact List.mem_singleton_self _
    subst hid
    exact hrun.source_of_inserted (List.mem_filter.mp hmem).1 hestimate
  | closed => cases hopen

/-- The estimate that a late start allows is the reported start, or where the previous segment
ended. -/
theorem lateEstimate_cases {prior : Option Segment} {reported : Point}
    (h : lateEstimate prior reported = some estimate) :
    prior = none ∧ reported = estimate ∨
      ∃ segment, prior = some segment ∧ segment.endPosition = some estimate := by
  cases prior with
  | none => exact Or.inl ⟨rfl, Option.some.inj h⟩
  | some segment => exact Or.inr ⟨segment, rfl, (Option.filter_eq_some_iff.mp h).1⟩

/-- The estimate that a completion is about to write has a source. -/
theorem Reachable.source_of_placing (hrun : Reachable processor run) {event : SegmentEvent}
    {rest : Handler Unit} {dropped : Bool}
    (hattempt : run.attempts[i]? = some ⟨.complete event, rest⟩) (hid : event.id = id)
    (hrow : run.store.segment? id = some row) (hopen : row.isClosed = false)
    (hplacing : Placing event.start.location (run.trace i) row (some estimate) dropped) :
    EstimateSource processor run id row.vehicleToken estimate := by
  generalize hplaced : some estimate = placed at hplacing
  cases hplacing with
  | kept => exact hrun.source_of_open hrow hopen hplaced.symm
  | late hstart hunknown hlooked hestimate =>
    cases hplaced
    obtain ⟨before, hbefore, hleads, hlooks, hprior⟩ :=
      hrun.prior?_of_looked_up hattempt rfl hlooked
    rw [hid] at hlooks
    rcases lateEstimate_cases hestimate with ⟨rfl, rfl⟩ | ⟨prior, rfl, hended⟩
    · have hnone := Store.prior?_eq_none_iff.mp hprior
      exact .reported hbefore hleads hlooks hnone hattempt hid hstart
    · obtain ⟨finish, hlast⟩ := Store.endedLast_of_prior? hprior
      refine .previous hbefore hleads hlooks hlast ?_ hended
      -- The previous segment is closed and the one that is placed is open.
      intro hsame
      have hthere := segment?_of_endedLast hbefore hleads hlast
      rw [hsame, hrow] at hthere
      cases hthere
      rw [Store.isClosed_of_endTime hlast.ended] at hopen
      cases hopen

/-- Whoever closed a row found it open, and placed it. -/
theorem Reachable.closing (hrun : Reachable processor run) {written : Completion}
    (hmem : ⟨i, ⟨.updateSegment id written, .ok ()⟩⟩ ∈ run.log) :
    ∃ before event rest current, Reachable processor before ∧ Leads processor before run ∧
      before.attempts[i]? = some ⟨.complete event, rest⟩ ∧ event.id = id ∧
      before.store.segment? id = some current ∧ current.isClosed = false ∧
      Placing event.start.location (before.trace i) current written.startEstimate
        written.droppedData := by
  obtain ⟨before, request, next, stored, hbefore, hleads, hattempt, hanswer⟩ := hrun.fired hmem
  obtain ⟨current, hcurrent, hopen⟩ : ∃ current, before.store.segment? id = some current ∧
      current.isClosed = false := by
    cases hanswer.tableStep with
    | closed _ current _ hcurrent hopen => exact ⟨current, hcurrent, hopen⟩
    | kept _ hkept =>
      have hwritten := hkept id
      simp [Answered.writes, Answered.closes] at hwritten
  obtain ⟨event, rfl, hevent, hplacing⟩ := hbefore.placing hattempt hcurrent hopen
  exact ⟨before, event, _, current, hbefore, hleads, hattempt, hevent, hcurrent, hopen, hplacing⟩

/-- The estimate of a row has a source. -/
theorem Reachable.source (hrun : Reachable processor run)
    (hrow : run.store.segment? id = some row) (hestimate : row.startEstimate = some estimate) :
    EstimateSource processor run id row.vehicleToken estimate := by
  cases hclosed : row.isClosed with
  | false => exact hrun.source_of_open hrow hclosed hestimate
  | true =>
    have hlife := hrun.life id
    rw [hrow] at hlife
    have hlog : ∀ entry ∈ run.writesOf id, entry ∈ run.log :=
      fun entry hmem => (List.mem_filter.mp hmem).1
    generalize run.writesOf id = writes at hlife hlog
    cases hlife with
    | opened j _ hid =>
      obtain ⟨event, vehicle, placement, rfl⟩ :=
        hrun.placed_of_inserted (hlog _ (List.mem_singleton_self _))
      cases hclosed
    | closed j k segment written hid =>
      obtain ⟨before, event, rest, current, hbefore, hleads, hattempt, hevent, hcurrent, hopen,
        hplacing⟩ := hrun.closing (hlog _ (List.mem_cons_of_mem _ (List.mem_singleton_self _)))
      have hwritten : written.startEstimate = some estimate := hestimate
      rw [hwritten] at hplacing
      obtain ⟨later, hlater, hbecomes⟩ := hleads.becomes hcurrent
      rw [hrow] at hlater
      cases hlater
      rw [hbecomes.identity.2.1]
      exact (hbefore.source_of_placing hattempt hevent hcurrent hopen hplacing).mono hleads

/-- An estimate is where another segment of the vehicle ended that had ended last when an event of
the row looked it up, or what the complete event of the row reported when no segment of the vehicle
had ended. The other segment ended before the row started exactly if all segments did that had ended
by then: the lookup is not told when the row started. -/
theorem estimate_of_last_ended (hrun : Reachable processor run)
    (hrow : run.store.segment? id = some row) (hestimate : row.startEstimate = some estimate) :
    ∃ before, Reachable processor before ∧ Leads processor before run ∧
      before.LooksUp id row.vehicleToken ∧
      ((before.store.NoneEnded row.vehicleToken ∧ ∃ (i : Nat) (event : SegmentEvent)
          (rest : Handler Unit), run.attempts[i]? = some ⟨.complete event, rest⟩ ∧
          event.id = id ∧ event.start.location = some estimate) ∨
        ∃ prior finish, before.store.EndedLast row.vehicleToken prior finish ∧ prior.id ≠ id ∧
          prior.endPosition = some estimate ∧ run.store.segment? prior.id = some prior ∧
          (Instant.le finish row.startTime = true ↔ ∀ other ∈ before.store.segments,
            other.vehicleToken = row.vehicleToken → ∀ ended, other.endTime = some ended →
              Instant.le ended row.startTime = true)) := by
  cases hrun.source hrow hestimate with
  | @reported before event rest i hbefore hleads hlooks hnone hattempt hid hstart =>
    exact ⟨before, hbefore, hleads, hlooks,
      Or.inl ⟨hnone, i, event, rest, hattempt, hid, hstart⟩⟩
  | @previous before prior finish hbefore hleads hlooks hlast hother hended =>
    refine ⟨before, hbefore, hleads, hlooks, Or.inr ⟨prior, finish, hlast, hother, hended,
      segment?_of_endedLast hbefore hleads hlast, fun hearlier => ?_, fun hall => ?_⟩⟩
    · intro other hlisted hvehicle ended hfinish
      exact Instant.le_trans (hlast.last other hlisted hvehicle ended hfinish) hearlier
    · exact hall prior hlast.listed hlast.vehicle finish hlast.ended

/-- The place where the rides below end and start. -/
def depot : Point := ⟨0.0, 0.0⟩

/-- A ride from ten to eleven o'clock that ends at the depot. -/
def morningRide : SegmentEvent :=
  ⟨"morning", "device", true, ⟨⟨36000, 0⟩, none⟩, some ⟨⟨39600, 0⟩, some depot⟩⟩

/-- The begin event of a ride that starts at the depot. -/
def depotRide (began : Instant) : SegmentEvent :=
  ⟨"other", "device", false, ⟨began, some depot⟩, none⟩

/-- The morning ride is completed. -/
def morning : List Move :=
  [.take mint, .reply 0 .tables, .take (.complete morningRide), .reply 1 .tables, .reply 1 .tables,
    .reply 1 .tables, .reply 1 (.key (filled 1)), .reply 1 .tables]

/-- After the morning ride the begin event of the other ride is handled. -/
def afterMorning (began : Instant) : List Move :=
  morning ++ [.take (.begin (depotRide began)), .reply 2 .tables, .reply 2 .tables,
    .reply 2 .tables, .reply 2 .tables]

/-- The row of the morning ride once it is completed. -/
def morningRow : Segment :=
  { Segment.opened "morning" 7 ⟨36000, 0⟩ with
    endTime := some ⟨39600, 0⟩
    endPosition := some depot
    encryptionKey := some (List.replicate 32 1) }

/-- The row of the other ride with the depot as its estimate. -/
def continuedRow (began : Instant) : Segment :=
  { Segment.opened "other" 7 began with startEstimate := some depot, droppedData := true }

/-- A ride that starts at noon has its estimate from a ride that had ended last. -/
theorem noon_ride_continues :
    (start.play offline (afterMorning ⟨43200, 0⟩)).store.segment? "other" =
        some (continuedRow ⟨43200, 0⟩) ∧
      ∃ before prior finish,
        Leads offline before (start.play offline (afterMorning ⟨43200, 0⟩)) ∧
        before.store.EndedLast 7 prior finish ∧ prior.id ≠ "other" ∧
        prior.endPosition = some depot := by
  have hrow : (start.play offline (afterMorning ⟨43200, 0⟩)).store.segment? "other" =
      some (continuedRow ⟨43200, 0⟩) := by decide +kernel
  refine ⟨hrow, ?_⟩
  obtain ⟨before, _, hleads, _, hsource⟩ :=
    estimate_of_last_ended (reachable_play offline (afterMorning ⟨43200, 0⟩)) hrow rfl
  rcases hsource with
    ⟨_, i, event, rest, hattempt, hid, _⟩ | ⟨prior, finish, hlast, hother, hended, _⟩
  · -- Only the morning ride has a complete event.
    have hrequests : (start.play offline (afterMorning ⟨43200, 0⟩)).attempts.map Attempt.request =
        [mint, .complete morningRide, .begin (depotRide ⟨43200, 0⟩)] := rfl
    have hmem := List.mem_map_of_mem (f := Attempt.request) (List.mem_of_getElem? hattempt)
    rw [hrequests] at hmem
    simp only [mint, List.mem_cons, reduceCtorEq, Request.complete.injEq, List.not_mem_nil,
      or_false, false_or] at hmem
    rw [hmem] at hid
    exact absurd hid (by decide)
  · exact ⟨before, prior, finish, hleads, hlast, hother, hended⟩

/-- A ride that started at eight o'clock has its estimate from the ride that ended at eleven, as it
is reported after that one was completed. -/
theorem early_ride_continues_later_one :
    Reachable offline (start.play offline (afterMorning ⟨28800, 0⟩)) ∧
      ∃ row prior finish,
        (start.play offline (afterMorning ⟨28800, 0⟩)).store.segments = [prior, row] ∧
        row.vehicleToken = prior.vehicleToken ∧ row.startEstimate = some depot ∧
        prior.endPosition = some depot ∧ prior.endTime = some finish ∧
        Instant.lt row.startTime finish = true := by
  refine ⟨reachable_play offline _, continuedRow ⟨28800, 0⟩, morningRow, ⟨39600, 0⟩, ?_, rfl, rfl,
    rfl, rfl, rfl⟩
  decide +kernel

end Run

end TripArchive
