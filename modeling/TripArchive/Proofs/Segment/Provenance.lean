import TripArchive.Proofs.Segment.Phases

/-!
# Whose a segment and its telemetry are

A segment is inserted by one piece of text, which has looked up the device of its event before. So
whoever asks to insert a segment was answered the vehicle that the segment names, under the device
of its own event (`vouches_handler`). What is fetched and packed for a segment is the telemetry of
the device of the complete event, whoever opened the segment.
-/

namespace TripArchive

namespace Processor

open Handler

variable {α β : Type} {event : SegmentEvent} {first second trace : List Answered}

/-- Every segment that was to be inserted is of the vehicle found for the device of the event. -/
def Vouched (event : SegmentEvent) (trace : List Answered) : Prop :=
  ∀ segment answer, ⟨.insertSegment segment, answer⟩ ∈ trace →
    ∃ vehicle placement, segment = placed event vehicle placement ∧
      ⟨.getVehicle event.deviceId, .ok (some vehicle)⟩ ∈ trace

/-- Whatever a handler is answered, its insertions are vouched for. -/
def Vouches (event : SegmentEvent) (h : Handler α) : Prop :=
  ∀ trace rest, Path h trace rest → Vouched event trace

/-- The call is not an insertion. -/
def InsertsNothing (c : Call) : Prop := ∀ segment, c ≠ .insertSegment segment

/-- What was vouched for stays so among further answers. -/
theorem Vouched.append (hfirst : Vouched event first) (hsecond : Vouched event second) :
    Vouched event (first ++ second) := by
  intro segment answer hmem
  rcases List.mem_append.mp hmem with hin | hin
  · obtain ⟨vehicle, placement, hsegment, hfound⟩ := hfirst segment answer hin
    exact ⟨vehicle, placement, hsegment, List.mem_append_left _ hfound⟩
  · obtain ⟨vehicle, placement, hsegment, hfound⟩ := hsecond segment answer hin
    exact ⟨vehicle, placement, hsegment, List.mem_append_right _ hfound⟩

/-- A handler that inserts nothing has nothing to vouch for. -/
theorem vouches_of_only {h : Handler α} (honly : h.Only InsertsNothing) : Vouches event h :=
  fun _ _ hpath segment _ hmem => absurd rfl ((hpath.only honly).1 _ hmem segment)

/-- A sequence vouches for its insertions if both handlers do. -/
theorem Vouches.bind {h : Handler α} {f : α → Handler β} (hfirst : Vouches event h)
    (hsecond : ∀ a, Vouches event (f a)) : Vouches event (h.bind f) := by
  intro trace rest hpath
  rcases path_bind hpath with ⟨middle, hmiddle, _⟩ | ⟨before, after, a, rfl, hbefore, hafter⟩
  · exact hfirst _ _ hmiddle
  · exact (hfirst _ _ hbefore).append (hsecond a _ _ hafter)

/-- A handler with a recovery vouches for its insertions if both do. -/
theorem Vouches.recover {h : Handler α} {f : SegmentError → Handler α} (hfirst : Vouches event h)
    (hsecond : ∀ e, Vouches event (f e)) : Vouches event (h.recover f) := by
  intro trace rest hpath
  rcases path_recover hpath with ⟨middle, hmiddle, _⟩ | ⟨before, after, e, rfl, hbefore, hafter⟩
  · exact hfirst _ _ hmiddle
  · exact (hfirst _ _ hbefore).append (hsecond e _ _ hafter)

/-- Reading a segment inserts nothing. -/
theorem vouches_getSegment (event : SegmentEvent) (id : String) :
    Vouches event (Handler.getSegment id) :=
  vouches_of_only ⟨fun _ => nofun, fun answer => only_ofExcept answer⟩

/-- Opening a segment inserts it for the vehicle that was found. -/
theorem vouches_openSegment (event : SegmentEvent) : Vouches event (openSegment event) := by
  intro trace rest hpath
  rcases path_bind hpath with ⟨middle, hmiddle, _⟩ | ⟨before, after, found, rfl, hfound, hrest⟩
  · have hlookup : (Handler.getVehicle event.deviceId).Only InsertsNothing :=
      ⟨fun _ => nofun, fun answer => only_ofExcept answer⟩
    exact vouches_of_only hlookup _ _ hmiddle
  obtain ⟨answer, later, rfl, hanswer⟩ := path_call_done hfound
  obtain ⟨rfl, rfl⟩ := path_ofExcept_done hanswer
  cases found with
  | none =>
    obtain ⟨rfl, _⟩ := path_fail.mp hrest
    intro segment answer hmem
    cases List.mem_singleton.mp hmem
  | some vehicle =>
    -- From here on the only insertion is the one of this vehicle.
    have hprior : (priorEnd vehicle event.start.location).Only fun c =>
        ∀ segment, c = .insertSegment segment →
          ∃ placement, segment = placed event vehicle placement := by
      cases event.start.location with
      | none => trivial
      | some start =>
        exact Only.bind ⟨fun _ => nofun, fun answer => only_ofExcept answer⟩ fun _ => trivial
    have honly := (hrest.only (hprior.bind fun ended =>
      Only.bind ⟨fun segment hsegment => ⟨_, (Call.insertSegment.inj hsegment).symm⟩,
        fun answer => only_ofExcept answer⟩ fun _ => trivial)).1
    intro segment answer hmem
    rcases List.mem_append.mp hmem with hlookup | hinsert
    · cases List.mem_singleton.mp hlookup
    · obtain ⟨placement, hsegment⟩ := honly _ hinsert segment rfl
      exact ⟨vehicle, placement, hsegment, by simp⟩

/-- A begin event vouches for its insertion. -/
theorem vouches_begin (event : SegmentEvent) : Vouches event (begin event) := by
  unfold begin
  refine Vouches.bind (vouches_getSegment event event.id) fun existing => ?_
  split
  · exact vouches_of_only trivial
  · exact Vouches.bind (vouches_openSegment event) fun _ => vouches_of_only trivial

/-- Loading the segment of a complete event vouches for its insertion. -/
theorem vouches_loadOpen (event : SegmentEvent) : Vouches event (loadOpen event) := by
  rw [loadOpen_eq]
  have hreload : Vouches event (reload event) := by
    refine Vouches.bind (vouches_getSegment event event.id) fun found => vouches_of_only ?_
    cases found <;> trivial
  refine Vouches.bind (vouches_getSegment event event.id) fun found => Vouches.bind ?_ fun _ => ?_
  · cases found with
    | some segment => exact vouches_of_only trivial
    | none =>
      refine Vouches.recover (vouches_openSegment event) fun e => ?_
      split
      · exact hreload
      · exact vouches_of_only trivial
  · split <;> exact vouches_of_only trivial

/-- Placing a late start inserts nothing. -/
theorem vouches_placeLate (event : SegmentEvent) (segment : Segment) (start : Option Point) :
    Vouches event (placeLate segment start) := by
  refine vouches_of_only ?_
  unfold placeLate
  split
  · trivial
  · split
    · refine Only.bind ⟨fun _ => nofun, fun answer => only_ofExcept answer⟩ fun prior => ?_
      split <;> trivial
    · trivial

/-- A complete event vouches for its insertion. -/
theorem vouches_complete (processor : Processor) (event : SegmentEvent) :
    Vouches event (processor.complete event) := by
  cases hfinish : event.finish with
  | none =>
    unfold complete
    rw [hfinish]
    exact vouches_of_only trivial
  | some finish =>
    rw [complete_eq processor event hfinish]
    refine Vouches.bind (vouches_loadOpen event) fun loaded =>
      Vouches.bind (vouches_placeLate event loaded _) fun segment => ?_
    intro trace rest hpath inserted answer hmem
    rcases path_call.mp hpath with ⟨rfl, _⟩ | ⟨key, later, rfl, hlater⟩
    · cases hmem
    · rcases List.mem_cons.mp hmem with hkey | hfinishing
      · cases hkey
      · exact absurd rfl ((finishing_of_path hlater).phase?_ne_none _ hfinishing)

section Telemetry

variable {processor : Processor} {finish : Endpoint} {segment : Segment} {key : Package.SegmentKey}
  {range : Telemetry.Range} {fetched : Except Telemetry.Error Bytes} {item : Item}
  {answer : Except Archive.Error Archive.Receipt}

/-- Gathering fetches one range. -/
theorem range_eq_of_gathering {expected : Telemetry.Range}
    (h : trace.map Answered.call <+: [.fetch expected, .generateNonce])
    (hmem : ⟨.fetch range, fetched⟩ ∈ trace) : range = expected := by
  have hcall := h.subset (List.mem_map_of_mem hmem)
  rcases List.mem_cons.mp hcall with hfetch | hnonce
  · exact Call.fetch.inj hfetch
  · cases List.mem_singleton.mp hnonce

/-- An uploaded item holds what was fetched before it. -/
theorem range_eq_of_uploading {expected : Telemetry.Range} {raw : Bytes} {nonce : Package.Nonce}
    (hmem : ⟨.fetch range, fetched⟩ ∈ ([⟨.fetch expected, .ok raw⟩, ⟨.generateNonce, nonce⟩,
      ⟨.upload item, answer⟩] : List Answered)) : range = expected := by
  rcases List.mem_cons.mp hmem with hfetch | hlater
  · cases hfetch
    rfl
  · rcases List.mem_cons.mp hlater with hnonce | hupload
    · cases hnonce
    · cases List.mem_singleton.mp hupload

/-- An archiving that is done fetched the range of its segment, if any. -/
theorem Archived.range_eq {device : String} {ended : Instant} {archiveId : Option String}
    (h : Archived processor device segment ended key trace archiveId)
    (hmem : ⟨.fetch range, fetched⟩ ∈ trace) : range = ⟨device, segment.startTime, ended⟩ := by
  cases h with
  | skipped hcalls => exact range_eq_of_gathering hcalls hmem
  | uploaded hpack => exact range_eq_of_uploading hmem

/-- A complete event fetches the telemetry of its own device. -/
theorem Finishing.range_eq {rest : Handler Unit}
    (h : Finishing processor event finish segment key trace rest)
    (hmem : ⟨.fetch range, fetched⟩ ∈ trace) :
    range = ⟨event.deviceId, segment.startTime, finish.time⟩ := by
  cases h with
  | archiving harchiving =>
    cases harchiving with
    | gathering hcalls => exact range_eq_of_gathering hcalls hmem
    | refused hpack => exact range_eq_of_uploading hmem
    | done harchived => exact harchived.range_eq hmem
  | archived harchived => exact harchived.range_eq hmem
  | answered harchived answer =>
    rcases List.mem_append.mp hmem with hearly | hlast
    · exact harchived.range_eq hearly
    · cases List.mem_singleton.mp hlast

/-- Gathering uploads nothing. -/
theorem not_uploaded_of_gathering
    (h : trace.map Answered.call <+: [.fetch range, .generateNonce]) :
    ⟨.upload item, answer⟩ ∉ trace := by
  intro hmem
  rcases List.mem_cons.mp (h.subset (List.mem_map_of_mem hmem)) with hfetch | hnonce
  · cases hfetch
  · cases List.mem_singleton.mp hnonce

/-- One item is uploaded. -/
theorem item_eq_of_uploading {other : Item} {nonce : Package.Nonce}
    {answer' : Except Archive.Error Archive.Receipt}
    (hmem : ⟨.upload item, answer⟩ ∈ ([⟨.fetch range, fetched⟩, ⟨.generateNonce, nonce⟩,
      ⟨.upload other, answer'⟩] : List Answered)) : item = other := by
  rcases List.mem_cons.mp hmem with hfetch | hlater
  · cases hfetch
  · rcases List.mem_cons.mp hlater with hnonce | hupload
    · cases hnonce
    · cases List.mem_singleton.mp hupload
      rfl

/-- The item of an archiving that is done holds what was fetched. -/
theorem Archived.holds {device : String} {ended : Instant} {archiveId : Option String}
    (h : Archived processor device segment ended key trace archiveId)
    (hmem : ⟨.upload item, answer⟩ ∈ trace) :
    ∃ raw nonce, ⟨.fetch ⟨device, segment.startTime, ended⟩, .ok raw⟩ ∈ trace ∧
      processor.pack raw key nonce (label segment ended) = .ok item := by
  cases h with
  | skipped hcalls => exact absurd hmem (not_uploaded_of_gathering hcalls)
  | uploaded hpack =>
    cases item_eq_of_uploading hmem
    exact ⟨_, _, List.mem_cons_self, hpack⟩

/-- The item of a complete event holds what was fetched for its device. -/
theorem Finishing.holds {rest : Handler Unit}
    (h : Finishing processor event finish segment key trace rest)
    (hmem : ⟨.upload item, answer⟩ ∈ trace) :
    ∃ raw nonce,
      ⟨.fetch ⟨event.deviceId, segment.startTime, finish.time⟩, .ok raw⟩ ∈ trace ∧
      processor.pack raw key nonce (label segment finish.time) = .ok item := by
  cases h with
  | archiving harchiving =>
    cases harchiving with
    | gathering hcalls => exact absurd hmem (not_uploaded_of_gathering hcalls)
    | refused hpack =>
      cases item_eq_of_uploading hmem
      exact ⟨_, _, List.mem_cons_self, hpack⟩
    | done harchived => exact harchived.holds hmem
  | archived harchived => exact harchived.holds hmem
  | answered harchived answer =>
    rcases List.mem_append.mp hmem with hearly | hlast
    · obtain ⟨raw, nonce, hfetched, hpack⟩ := harchived.holds hearly
      exact ⟨raw, nonce, List.mem_append_left _ hfetched, hpack⟩
    · cases List.mem_singleton.mp hlast

end Telemetry

end Processor

/-- The segment event that a request is about. -/
def Request.event? : Request → Option SegmentEvent
  | begin event => some event
  | complete event => some event
  | vehicle _ => none

/-- A request that asks to insert a segment was answered its vehicle, for the device of its own
event. -/
theorem vouches_handler {processor : Processor} {request : Request} {trace : List Answered}
    {rest : Handler Unit} {segment : Segment} {answer : Except Store.Error Unit}
    (hpath : Handler.Path (request.handler processor) trace rest)
    (hmem : ⟨.insertSegment segment, answer⟩ ∈ trace) :
    ∃ event vehicle placement, request.event? = some event ∧
      segment = Processor.placed event vehicle placement ∧
      ⟨.getVehicle event.deviceId, .ok (some vehicle)⟩ ∈ trace := by
  cases request with
  | begin event =>
    obtain ⟨vehicle, placement, hvouched⟩ := Processor.vouches_begin event _ _ hpath _ _ hmem
    exact ⟨event, vehicle, placement, rfl, hvouched⟩
  | complete event =>
    obtain ⟨vehicle, placement, hvouched⟩ :=
      Processor.vouches_complete processor event _ _ hpath _ _ hmem
    exact ⟨event, vehicle, placement, rfl, hvouched⟩
  | vehicle event =>
    have honly : (Processor.vehicleEvent event).Only Processor.InsertsNothing := by
      unfold Processor.vehicleEvent
      split
      · exact ⟨fun _ => nofun, fun answer => Handler.only_ofExcept answer⟩
      · trivial
    exact absurd rfl ((hpath.only honly).1 _ hmem segment)

end TripArchive
