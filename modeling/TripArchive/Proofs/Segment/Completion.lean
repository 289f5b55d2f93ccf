import TripArchive.Proofs.Segment.Opening

/-!
# The calls that complete a segment

A complete event loads its segment, places a late start, draws a key, archives the telemetry and
closes the row, in this order. `Completing` says where a completion stands: before its key it only
makes opening calls, and after it the segment, the key and all later calls belong together.
-/

namespace TripArchive.Processor

open Handler

variable {processor : Processor} {event : SegmentEvent} {finish : Endpoint} {segment : Segment}
  {key : Package.SegmentKey} {trace : List Answered}

/-- What a complete event writes into the row of its segment. -/
def completion (finish : Endpoint) (segment : Segment) (key : Package.SegmentKey)
    (archiveId : Option String) : Completion where
  endTime := finish.time
  endPosition := finish.location
  startEstimate := segment.startEstimate
  droppedData := segment.droppedData
  encryptionKey := key.val
  archiveId := archiveId

/-- What a complete event does once it has its key. -/
def finishing (processor : Processor) (event : SegmentEvent) (finish : Endpoint)
    (segment : Segment) (key : Package.SegmentKey) : Handler Unit :=
  (processor.archive event.deviceId segment finish.time key).bind fun archiveId =>
    Handler.updateSegment segment.id (completion finish segment key archiveId)

/-- A complete event with an end loads, places, draws and finishes. -/
theorem complete_eq (processor : Processor) (event : SegmentEvent)
    (hfinish : event.finish = some finish) :
    processor.complete event = (loadOpen event).bind fun loaded =>
      (placeLate loaded event.start.location).bind fun segment =>
        .call .generateKey fun key => processor.finishing event finish segment key := by
  unfold complete
  rw [hfinish]
  rfl

/-- Archiving fetches, draws a nonce and uploads, and makes no other call. -/
theorem only_archive {P : Call → Prop} (processor : Processor) (device : String)
    (segment : Segment) (finish : Instant) (key : Package.SegmentKey)
    (hfetch : ∀ range, P (.fetch range)) (hnonce : P .generateNonce)
    (hupload : ∀ item, P (.upload item)) :
    (processor.archive device segment finish key).Only P := by
  unfold archive
  split
  · refine Only.bind ⟨hfetch _, fun answer => only_ofExcept answer⟩ fun raw => ?_
    refine Only.bind (h := ask .generateNonce) ⟨hnonce, fun _ => trivial⟩ fun nonce => ?_
    refine Only.bind (only_ofExcept _) fun item => ?_
    split
    · exact Only.bind ⟨hupload item, fun answer => only_ofExcept answer⟩ fun _ => trivial
    · trivial
  · trivial

/-- The answers with which the archiving of a segment is done, and the identifier that it gives. -/
inductive Archived (processor : Processor) (device : String) (segment : Segment)
    (finish : Instant) (key : Package.SegmentKey) : List Answered → Option String → Prop
  /-- Nothing was uploaded. -/
  | skipped {trace : List Answered}
      (hcalls : trace.map Answered.call <+:
        [.fetch ⟨device, segment.startTime, finish⟩, .generateNonce]) :
      Archived processor device segment finish key trace none
  /-- The telemetry was fetched, packed under the key and accepted by the archive. -/
  | uploaded {raw : Bytes} {nonce : Package.Nonce} {item : Item} {receipt : Archive.Receipt}
      (hpack : processor.pack raw key nonce (label segment finish) = .ok item) :
      Archived processor device segment finish key
        [⟨.fetch ⟨device, segment.startTime, finish⟩, .ok raw⟩, ⟨.generateNonce, nonce⟩,
          ⟨.upload item, .ok receipt⟩] (some item.id)

/-- Where the archiving of a segment stands after some answers. -/
inductive Archiving (processor : Processor) (device : String) (segment : Segment)
    (finish : Instant) (key : Package.SegmentKey) :
    List Answered → Handler (Option String) → Prop
  /-- It is fetching and packing, or has failed at it. -/
  | gathering {trace : List Answered} {rest : Handler (Option String)}
      (hcalls : trace.map Answered.call <+:
        [.fetch ⟨device, segment.startTime, finish⟩, .generateNonce])
      (hrest : ∀ id, rest ≠ done id) :
      Archiving processor device segment finish key trace rest
  /-- The archive refused the item. -/
  | refused {raw : Bytes} {nonce : Package.Nonce} {item : Item} {e : Archive.Error}
      (hpack : processor.pack raw key nonce (label segment finish) = .ok item) :
      Archiving processor device segment finish key
        [⟨.fetch ⟨device, segment.startTime, finish⟩, .ok raw⟩, ⟨.generateNonce, nonce⟩,
          ⟨.upload item, .error e⟩] (fail (.archive e))
  /-- It is done. -/
  | done {trace : List Answered} {archiveId : Option String}
      (harchived : Archived processor device segment finish key trace archiveId) :
      Archiving processor device segment finish key trace (done archiveId)

/-- Every archiving stands somewhere. -/
theorem archiving_of_path {device : String} {finish : Instant} {rest : Handler (Option String)}
    (hpath : Path (processor.archive device segment finish key) trace rest) :
    Archiving processor device segment finish key trace rest := by
  unfold archive at hpath
  split at hpath
  · change Path (.call (.fetch ⟨device, segment.startTime, finish⟩) fun answer =>
      (ofExcept .telemetry answer).bind fun raw => .call .generateNonce fun nonce =>
        (ofExcept .package (processor.pack raw key nonce
          (label segment finish))).bind fun item =>
            if processor.options.upload then .call (.upload item) fun answer =>
              (ofExcept .archive answer).bind fun _ => Handler.done (some item.id)
            else Handler.done none) trace rest at hpath
    rcases path_call.mp hpath with ⟨rfl, rfl⟩ | ⟨fetched, later, rfl, hfetched⟩
    · exact .gathering (by simp) (by simp)
    cases fetched with
    | error e =>
      obtain ⟨rfl, rfl⟩ := path_fail.mp hfetched
      exact .gathering (by simp) (by simp)
    | ok raw =>
      rcases path_call.mp hfetched with ⟨rfl, rfl⟩ | ⟨nonce, later, rfl, hnonced⟩
      · exact .gathering (by simp) (by simp)
      cases hpack : processor.pack raw key nonce (label segment finish) with
      | error e =>
        rw [hpack] at hnonced
        obtain ⟨rfl, rfl⟩ := path_fail.mp hnonced
        exact .gathering (by simp) (by simp)
      | ok item =>
        rw [hpack] at hnonced
        change Path (if processor.options.upload then .call (.upload item) fun answer =>
          (ofExcept .archive answer).bind fun _ => Handler.done (some item.id)
            else Handler.done none) later rest at hnonced
        split at hnonced
        · rcases path_call.mp hnonced with ⟨rfl, rfl⟩ | ⟨answer, later, rfl, huploaded⟩
          · exact .gathering (by simp) (by simp)
          cases answer with
          | error e =>
            obtain ⟨rfl, rfl⟩ := path_fail.mp huploaded
            exact .refused hpack
          | ok receipt =>
            obtain ⟨rfl, rfl⟩ := path_done.mp huploaded
            exact .done (.uploaded hpack)
        · obtain ⟨rfl, rfl⟩ := path_done.mp hnonced
          exact .done (.skipped (by simp))
  · obtain ⟨rfl, rfl⟩ := path_done.mp hpath
    exact .done (.skipped (by simp))

/-- Where the finishing of a complete event stands after some answers. -/
inductive Finishing (processor : Processor) (event : SegmentEvent) (finish : Endpoint)
    (segment : Segment) (key : Package.SegmentKey) : List Answered → Handler Unit → Prop
  /-- It is archiving, or has failed at it. -/
  | archiving {trace : List Answered} {middle : Handler (Option String)}
      (harchiving : Archiving processor event.deviceId segment finish.time key trace middle)
      (hmiddle : ∀ id, middle ≠ done id) :
      Finishing processor event finish segment key trace (middle.bind fun archiveId =>
        Handler.updateSegment segment.id (completion finish segment key archiveId))
  /-- It is about to close the row. -/
  | archived {trace : List Answered} {archiveId : Option String}
      (harchived : Archived processor event.deviceId segment finish.time key trace archiveId) :
      Finishing processor event finish segment key trace
        (Handler.updateSegment segment.id (completion finish segment key archiveId))
  /-- The store answered whether the row was closed. -/
  | answered {trace : List Answered} {archiveId : Option String}
      (harchived : Archived processor event.deviceId segment finish.time key trace archiveId)
      (answer : Except Store.Error Unit) :
      Finishing processor event finish segment key
        (trace ++ [⟨.updateSegment segment.id (completion finish segment key archiveId), answer⟩])
        (ofExcept .store answer)

/-- Every finishing stands somewhere. -/
theorem finishing_of_path {finish : Endpoint} {rest : Handler Unit}
    (hpath : Path (processor.finishing event finish segment key) trace rest) :
    Finishing processor event finish segment key trace rest := by
  rcases path_bind hpath with
    ⟨middle, hmiddle, rfl⟩ | ⟨first, second, archiveId, rfl, hfirst, hclose⟩
  · cases archiving_of_path hmiddle with
    | done harchived => exact .archived harchived
    | gathering hcalls hrest => exact .archiving (.gathering hcalls hrest) hrest
    | refused hpack => exact .archiving (.refused hpack) (by simp)
  · cases archiving_of_path hfirst with
    | gathering _ hrest => exact absurd rfl (hrest archiveId)
    | done harchived =>
      rcases path_call.mp hclose with ⟨rfl, rfl⟩ | ⟨answer, later, rfl, hanswer⟩
      · rw [List.append_nil]
        exact .archived harchived
      · obtain ⟨rfl, rfl⟩ := path_ofExcept hanswer
        exact .answered harchived answer

/-- Where a completion stands after some answers. -/
inductive Completing (processor : Processor) (event : SegmentEvent) :
    List Answered → Handler Unit → Prop
  /-- It has no key and has only looked up and opened its segment. -/
  | early {trace : List Answered} {rest : Handler Unit}
      (hcalls : ∀ answered ∈ trace, Opening event answered.call) (hrest : ∀ a, rest ≠ done a) :
      Completing processor event trace rest
  /-- It drew a key for the open segment it was shown and placed, and finishes with it. -/
  | keyed {finish : Endpoint} {loaded segment : Segment} {key : Package.SegmentKey}
      {before after : List Answered} {rest : Handler Unit}
      (hfinish : event.finish = some finish)
      (hcalls : ∀ answered ∈ before, Opening event answered.call)
      (hshown : ∃ answered ∈ before, answered.Shows event.id loaded)
      (hopen : loaded.isClosed = false)
      (hplaced : segment = { loaded with
        startEstimate := segment.startEstimate, droppedData := segment.droppedData })
      (hrest : Finishing processor event finish segment key after rest) :
      Completing processor event (before ++ ⟨.generateKey, key⟩ :: after) rest

/-- Every completion stands somewhere. -/
theorem completing_of_path {rest : Handler Unit}
    (hpath : Path (processor.complete event) trace rest) :
    Completing processor event trace rest := by
  cases hfinish : event.finish with
  | none =>
    unfold complete at hpath
    rw [hfinish] at hpath
    obtain ⟨rfl, rfl⟩ := path_fail.mp hpath
    exact .early (by simp) (by simp)
  | some finish =>
    rw [complete_eq processor event hfinish] at hpath
    rcases path_bind hpath with ⟨middle, hmiddle, rfl⟩ | ⟨first, second, loaded, rfl, hload, hrest⟩
    · exact .early (hmiddle.only (only_loadOpen event)).1 fun a =>
        bind_ne_done fun loaded => bind_ne_done fun segment => by simp
    have hfirst := (hload.only (only_loadOpen event)).1
    rcases path_bind hrest with ⟨middle, hmiddle, rfl⟩ | ⟨third, fourth, placed, rfl, hplace, hrest⟩
    · have hsecond := (hmiddle.only (only_placeLate event loaded _)).1
      refine .early (fun answered hmem => ?_) fun a => bind_ne_done fun segment => by simp
      exact (List.mem_append.mp hmem).elim (hfirst answered) (hsecond answered)
    have hthird := (hplace.only (only_placeLate event loaded _)).1
    have hopening : ∀ answered ∈ first ++ third, Opening event answered.call := fun answered hmem =>
      (List.mem_append.mp hmem).elim (hfirst answered) (hthird answered)
    rcases path_call.mp hrest with ⟨rfl, rfl⟩ | ⟨key, later, rfl, hlater⟩
    · rw [List.append_nil]
      exact .early hopening (by simp)
    · obtain ⟨hopen, answered, hmem, hshows⟩ := loadOpen_done hload
      rw [← List.append_assoc]
      exact .keyed hfinish hopening ⟨answered, List.mem_append_left third hmem, hshows⟩ hopen
        (placeLate_done hplace) (finishing_of_path hlater)

/-- A complete event that succeeds was shown its segment and has closed it. -/
theorem complete_done (hpath : Path (processor.complete event) trace (done ())) :
    ∃ loaded, (∃ answered ∈ trace, answered.Shows event.id loaded) ∧
      ∃ written, ⟨.updateSegment loaded.id written, .ok ()⟩ ∈ trace := by
  generalize hrest : (done () : Handler Unit) = rest at hpath
  cases completing_of_path hpath with
  | early _ hopen => exact absurd hrest.symm (hopen ())
  | @keyed finish loaded segment key before after _ _ _ hshown _ hplaced hfinishing =>
    have hid : segment.id = loaded.id := by rw [hplaced]
    obtain ⟨answered, hmem, hshows⟩ := hshown
    cases hfinishing with
    | archiving => exact absurd hrest.symm (bind_ne_done fun _ => by simp [updateSegment])
    | archived => cases hrest
    | @answered _ archiveId _ answer =>
      cases answer with
      | error e => cases hrest
      | ok =>
        refine ⟨loaded, ⟨answered, by simp [hmem], hshows⟩, ?_⟩
        rw [← hid]
        exact ⟨completion finish segment key archiveId, by simp⟩

end TripArchive.Processor
