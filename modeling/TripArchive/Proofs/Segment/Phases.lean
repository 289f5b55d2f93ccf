import TripArchive.Proofs.Run
import TripArchive.Proofs.Segment.Completion

/-!
# The phases of a completion

From its key on a completion goes through five phases, one call each: it draws the key, fetches,
draws a nonce, uploads and closes. It may leave phases out and stop anywhere, but it never goes
back, and no other request enters a phase.
-/

namespace TripArchive

/-- The phases of a completion from its key on. -/
inductive Phase
  | key
  | fetch
  | nonce
  | upload
  | close
  deriving DecidableEq

/-- The phases in their order. -/
def Phase.order : List Phase := [key, fetch, nonce, upload, close]

/-- The phase to which a call belongs. -/
def Call.phase? : Call → Option Phase
  | generateKey => some .key
  | fetch _ => some .fetch
  | generateNonce => some .nonce
  | upload _ => some .upload
  | updateSegment _ _ => some .close
  | _ => none

/-- The phases through which answers went. -/
def phases (trace : List Answered) : List Phase :=
  trace.filterMap fun answered => answered.call.phase?

variable {trace : List Answered}

/-- Two stretches of answers go through their phases in turn. -/
theorem phases_append (first second : List Answered) :
    phases (first ++ second) = phases first ++ phases second := List.filterMap_append

/-- Calls that belong to no phase go through none. -/
theorem phases_eq_nil (h : ∀ answered ∈ trace, answered.call.phase? = none) : phases trace = [] :=
  List.filterMap_eq_nil_iff.mpr h

/-- A call of a phase is among the phases gone through. -/
theorem mem_phases {answered : Answered} {phase : Phase} (hmem : answered ∈ trace)
    (hphase : answered.call.phase? = some phase) : phase ∈ phases trace :=
  List.mem_filterMap.mpr ⟨answered, hmem, hphase⟩

namespace Processor

open Handler

variable {processor : Processor} {event : SegmentEvent} {finish : Endpoint} {segment : Segment}
  {key : Package.SegmentKey}

/-- Opening calls belong to no phase. -/
theorem Opening.phase?_eq_none {c : Call} (h : Opening event c) : c.phase? = none := by
  cases h <;> rfl

/-- Opening a segment goes through no phase. -/
theorem phases_opening (h : ∀ answered ∈ trace, Opening event answered.call) : phases trace = [] :=
  phases_eq_nil fun answered hmem => (h answered hmem).phase?_eq_none

/-- Gathering telemetry goes through two phases at most. -/
theorem phases_gathering {range : Telemetry.Range}
    (h : trace.map Answered.call <+: [.fetch range, .generateNonce]) :
    (phases trace).Sublist [.fetch, .nonce] := by
  have hphases : phases trace = (trace.map Answered.call).filterMap Call.phase? := by
    rw [List.filterMap_map]
    rfl
  rw [hphases]
  exact h.sublist.filterMap Call.phase?

/-- Archiving goes through three phases at most. -/
theorem Archived.phases_sublist {device : String} {finish : Instant} {archiveId : Option String}
    (h : Archived processor device segment finish key trace archiveId) :
    (phases trace).Sublist [.fetch, .nonce, .upload] := by
  cases h with
  | skipped hcalls => exact (phases_gathering hcalls).trans (by decide)
  | uploaded => exact List.Sublist.refl _

/-- Gathering telemetry makes no call outside the phases. -/
theorem phase?_ne_none_of_gathering {range : Telemetry.Range}
    (h : trace.map Answered.call <+: [.fetch range, .generateNonce]) :
    ∀ answered ∈ trace, answered.call.phase? ≠ none := by
  intro answered hmem
  have hcall := h.subset (List.mem_map_of_mem hmem)
  rcases List.mem_cons.mp hcall with hfetch | hcall
  · rw [hfetch]
    simp [Call.phase?]
  · rw [List.mem_singleton.mp hcall]
    simp [Call.phase?]

/-- Archiving makes no call outside the phases. -/
theorem Archived.phase?_ne_none {device : String} {finish : Instant} {archiveId : Option String}
    (h : Archived processor device segment finish key trace archiveId) :
    ∀ answered ∈ trace, answered.call.phase? ≠ none := by
  cases h with
  | skipped hcalls => exact phase?_ne_none_of_gathering hcalls
  | uploaded => simp [Call.phase?]

/-- Finishing makes no call outside the phases. -/
theorem Finishing.phase?_ne_none {rest : Handler Unit}
    (h : Finishing processor event finish segment key trace rest) :
    ∀ answered ∈ trace, answered.call.phase? ≠ none := by
  cases h with
  | archiving harchiving =>
    cases harchiving with
    | gathering hcalls => exact phase?_ne_none_of_gathering hcalls
    | refused => simp [Call.phase?]
    | done harchived => exact harchived.phase?_ne_none
  | archived harchived => exact harchived.phase?_ne_none
  | answered harchived answer =>
    intro answered hmem
    rcases List.mem_append.mp hmem with hearly | hlast
    · exact harchived.phase?_ne_none answered hearly
    · rw [List.mem_singleton.mp hlast]
      simp [Call.phase?]

/-- Archiving goes through three phases at most, wherever it stands. -/
theorem Archiving.phases_sublist {device : String} {finish : Instant}
    {rest : Handler (Option String)}
    (h : Archiving processor device segment finish key trace rest) :
    (phases trace).Sublist [.fetch, .nonce, .upload] := by
  cases h with
  | gathering hcalls => exact (phases_gathering hcalls).trans (by decide)
  | refused => exact List.Sublist.refl _
  | done harchived => exact harchived.phases_sublist

/-- Finishing goes through the phases after the key. -/
theorem Finishing.phases_sublist {rest : Handler Unit}
    (h : Finishing processor event finish segment key trace rest) :
    (phases trace).Sublist [.fetch, .nonce, .upload, .close] := by
  cases h with
  | archiving harchiving => exact harchiving.phases_sublist.trans (by decide)
  | archived harchived => exact harchived.phases_sublist.trans (by decide)
  | answered harchived answer =>
    rw [phases_append]
    exact harchived.phases_sublist.append (List.Sublist.refl [Phase.close])

/-- Completing goes through the phases in their order. -/
theorem Completing.phases_sublist {rest : Handler Unit}
    (h : Completing processor event trace rest) : (phases trace).Sublist Phase.order := by
  cases h with
  | early hcalls =>
    rw [phases_opening hcalls]
    exact List.nil_sublist _
  | @keyed finish loaded segment key before after _ _ hcalls _ _ _ hrest =>
    have hkey : phases (⟨.generateKey, key⟩ :: after) = .key :: phases after := rfl
    rw [phases_append, phases_opening hcalls, List.nil_append, hkey]
    exact hrest.phases_sublist.cons_cons .key

/-- A completion that went through a phase behind the key was shown its segment open, and made the
call of that phase while finishing. -/
theorem Completing.finishing {rest : Handler Unit} {answered : Answered}
    (h : Completing processor event trace rest) (phase : Phase) (hmem : answered ∈ trace)
    (hphase : answered.call.phase? = some phase) (hbehind : phase ≠ .key) :
    ∃ finish loaded segment key before after, event.finish = some finish ∧
      (∃ shown ∈ before, shown.Shows event.id loaded) ∧ loaded.isClosed = false ∧
      segment = { loaded with
        startEstimate := segment.startEstimate, droppedData := segment.droppedData } ∧
      Finishing processor event finish segment key after rest ∧ answered ∈ after ∧
      trace = before ++ ⟨.generateKey, key⟩ :: after := by
  cases h with
  | early hcalls =>
    rw [(hcalls _ hmem).phase?_eq_none] at hphase
    cases hphase
  | @keyed finish loaded segment key before after _ hfinish hcalls hshown hopen hplaced hrest =>
    rcases List.mem_append.mp hmem with hbefore | hlater
    · rw [(hcalls _ hbefore).phase?_eq_none] at hphase
      cases hphase
    rcases List.mem_cons.mp hlater with rfl | hafter
    · cases hphase
      exact absurd rfl hbehind
    · exact ⟨finish, loaded, segment, key, before, after, hfinish, hshown, hopen, hplaced, hrest,
        hafter, rfl⟩

/-- Finishing asks to close the row with what came of the archiving, and last. -/
theorem Finishing.closed {rest : Handler Unit} {id : String} {written : Completion}
    {answer : Except Store.Error Unit}
    (h : Finishing processor event finish segment key trace rest)
    (hmem : ⟨.updateSegment id written, answer⟩ ∈ trace) :
    ∃ archiving archiveId, id = segment.id ∧
      written = completion finish segment key archiveId ∧
      Archived processor event.deviceId segment finish.time key archiving archiveId ∧
      trace = archiving ++ [⟨.updateSegment id written, answer⟩] := by
  have hphase : Call.phase? (.updateSegment id written) = some .close := rfl
  cases h with
  | archiving harchiving =>
    have hclose := harchiving.phases_sublist.subset (mem_phases hmem hphase)
    simp at hclose
  | archived harchived =>
    have hclose := harchived.phases_sublist.subset (mem_phases hmem hphase)
    simp at hclose
  | @answered archiving archiveId harchived answer =>
    rcases List.mem_append.mp hmem with hearly | hlast
    · have hclose := harchived.phases_sublist.subset (mem_phases hearly hphase)
      simp at hclose
    · cases List.mem_singleton.mp hlast
      exact ⟨archiving, archiveId, rfl, rfl, harchived, rfl⟩

/-- A completion that asked to close a row had archived the segment it was shown under the key it
drew, and asked to write what came of that. -/
theorem Completing.closed {rest : Handler Unit} {id : String} {written : Completion}
    {answer : Except Store.Error Unit} (h : Completing processor event trace rest)
    (hmem : ⟨.updateSegment id written, answer⟩ ∈ trace) :
    ∃ finish loaded segment key before archiving archiveId, event.finish = some finish ∧
      (∃ answered ∈ before, answered.Shows event.id loaded) ∧
      segment = { loaded with
        startEstimate := segment.startEstimate, droppedData := segment.droppedData } ∧
      id = segment.id ∧ written = completion finish segment key archiveId ∧
      Archived processor event.deviceId segment finish.time key archiving archiveId ∧
      trace = before ++ ⟨.generateKey, key⟩ ::
        (archiving ++ [⟨.updateSegment id written, answer⟩]) := by
  obtain ⟨finish, loaded, segment, key, before, after, hfinish, hshown, _, hplaced, hfinishing,
    hafter, htrace⟩ := h.finishing .close hmem rfl (by decide)
  obtain ⟨archiving, archiveId, hid, hwritten, harchived, rfl⟩ := hfinishing.closed hafter
  exact ⟨finish, loaded, segment, key, before, archiving, archiveId, hfinish, hshown, hplaced, hid,
    hwritten, harchived, htrace⟩

/-- An archiving that is done and made an upload gives the identifier of the accepted item. -/
theorem Archived.accepted {device : String} {finish : Instant} {archiveId : Option String}
    {item : Item} {answer : Except Archive.Error Archive.Receipt}
    (h : Archived processor device segment finish key trace archiveId)
    (hmem : ⟨.upload item, answer⟩ ∈ trace) :
    archiveId = some item.id ∧ (∃ receipt, answer = .ok receipt) ∧
      ∃ raw nonce,
        processor.pack raw key nonce (label segment finish) = .ok item := by
  cases h with
  | skipped hcalls =>
    have hphase : Call.phase? (.upload item) = some .upload := rfl
    have hupload := (phases_gathering hcalls).subset (mem_phases hmem hphase)
    simp at hupload
  | uploaded hpack =>
    rcases List.mem_cons.mp hmem with hfetch | hmem
    · cases hfetch
    rcases List.mem_cons.mp hmem with hnonce | hmem
    · cases hnonce
    cases List.mem_singleton.mp hmem
    exact ⟨rfl, ⟨_, rfl⟩, _, _, hpack⟩

/-- Finishing uploads an item packed under the key. If the upload was refused it failed; otherwise
it closes the row with the item, or was answered. -/
theorem Finishing.uploaded {rest : Handler Unit} {item : Item}
    {answer : Except Archive.Error Archive.Receipt}
    (h : Finishing processor event finish segment key trace rest)
    (hmem : ⟨.upload item, answer⟩ ∈ trace) :
    (∃ raw nonce, processor.pack raw key nonce (label segment finish.time) =
        .ok item) ∧
      ((∃ e, answer = .error e ∧ rest = fail (.archive e)) ∨
        (∃ receipt, answer = .ok receipt) ∧
          (rest = Handler.updateSegment segment.id
              (completion finish segment key (some item.id)) ∨
            ∃ closed, ⟨.updateSegment segment.id
                (completion finish segment key (some item.id)), closed⟩ ∈ trace ∧
              rest = ofExcept .store closed)) := by
  cases h with
  | archiving harchiving hmiddle =>
    cases harchiving with
    | gathering hgathering =>
      have hupload := (phases_gathering hgathering).subset (mem_phases hmem rfl)
      simp at hupload
    | @refused raw nonce _ e hpack =>
      rcases List.mem_cons.mp hmem with hfetch | hmem
      · cases hfetch
      rcases List.mem_cons.mp hmem with hnonce | hmem
      · cases hnonce
      cases List.mem_singleton.mp hmem
      exact ⟨⟨raw, nonce, hpack⟩, Or.inl ⟨e, rfl, rfl⟩⟩
    | @done _ archiveId _ => exact absurd rfl (hmiddle archiveId)
  | archived harchived =>
    obtain ⟨rfl, haccepted, hpack⟩ := harchived.accepted hmem
    exact ⟨hpack, Or.inr ⟨haccepted, Or.inl rfl⟩⟩
  | answered harchived closed =>
    rcases List.mem_append.mp hmem with hearly | hlast
    · obtain ⟨rfl, haccepted, hpack⟩ := harchived.accepted hearly
      exact ⟨hpack, Or.inr ⟨haccepted, Or.inr ⟨closed, by simp, rfl⟩⟩⟩
    · cases List.mem_singleton.mp hlast

/-- A completion that made an upload had packed the segment it was shown under the key it drew. If
the upload was refused it failed; otherwise it closes the row with the item, or was answered. -/
theorem Completing.uploaded {rest : Handler Unit} {item : Item}
    {answer : Except Archive.Error Archive.Receipt} (h : Completing processor event trace rest)
    (hmem : ⟨.upload item, answer⟩ ∈ trace) :
    ∃ finish loaded segment key raw nonce,
      (∃ answered ∈ trace, answered.Shows event.id loaded) ∧ loaded.isClosed = false ∧
      segment.id = loaded.id ∧ ⟨.generateKey, key⟩ ∈ trace ∧
      processor.pack raw key nonce (label segment finish.time) = .ok item ∧
      ((∃ e, answer = .error e ∧ rest = fail (.archive e)) ∨
        (∃ receipt, answer = .ok receipt) ∧
          (rest = Handler.updateSegment segment.id
              (completion finish segment key (some item.id)) ∨
            ∃ closed, ⟨.updateSegment segment.id
                (completion finish segment key (some item.id)), closed⟩ ∈ trace ∧
              rest = ofExcept .store closed)) := by
  obtain ⟨finish, loaded, segment, key, before, after, _, ⟨shown, hshown, hshows⟩, hopen, hplaced,
    hfinishing, hafter, rfl⟩ := h.finishing .upload hmem rfl (by decide)
  obtain ⟨⟨raw, nonce, hpack⟩, hrest⟩ := hfinishing.uploaded hafter
  have hid : segment.id = loaded.id := by rw [hplaced]
  refine ⟨finish, loaded, segment, key, raw, nonce, ⟨shown, List.mem_append_left _ hshown, hshows⟩,
    hopen, hid, by simp, hpack, ?_⟩
  rcases hrest with hrefused | ⟨haccepted, hpending | ⟨closed, hclosed, hanswered⟩⟩
  · exact Or.inl hrefused
  · exact Or.inr ⟨haccepted, Or.inl hpending⟩
  · have hin := List.mem_append_right before (List.mem_cons_of_mem ⟨.generateKey, key⟩ hclosed)
    exact Or.inr ⟨haccepted, Or.inr ⟨closed, hin, hanswered⟩⟩

end Processor

/-- Every call outside the phases opens a segment or records a vehicle. -/
theorem opening_of_phase?_eq_none {processor : Processor} {request : Request} {rest : Handler Unit}
    {answered : Answered} (hpath : Handler.Path (request.handler processor) trace rest)
    (hmem : answered ∈ trace) (hphase : answered.call.phase? = none) :
    (∃ event, Processor.Opening event answered.call) ∨
      ∃ device token, answered.call = .upsertVehicle device token := by
  cases request with
  | begin event => exact Or.inl ⟨event, (hpath.only (Processor.only_begin event)).1 _ hmem⟩
  | vehicle event =>
    have honly : (Processor.vehicleEvent event).Only fun c =>
        ∃ device token, c = .upsertVehicle device token := by
      unfold Processor.vehicleEvent
      split
      · exact ⟨⟨_, _, rfl⟩, fun answer => Handler.only_ofExcept answer⟩
      · trivial
    exact Or.inr ((hpath.only honly).1 _ hmem)
  | complete event =>
    refine Or.inl ⟨event, ?_⟩
    cases Processor.completing_of_path hpath with
    | early hcalls => exact hcalls _ hmem
    | keyed _ hcalls _ _ _ hrest =>
      rcases List.mem_append.mp hmem with hbefore | hlater
      · exact hcalls _ hbefore
      rcases List.mem_cons.mp hlater with rfl | hafter
      · cases hphase
      · exact absurd hphase (hrest.phase?_ne_none _ hafter)

/-- No request but a completion goes through a phase. -/
theorem phases_eq_nil_of_path {processor : Processor} {request : Request} {rest : Handler Unit}
    (hpath : Handler.Path (request.handler processor) trace rest)
    (hother : ∀ event, request ≠ .complete event) : phases trace = [] := by
  cases request with
  | begin event => exact Processor.phases_opening (hpath.only (Processor.only_begin event)).1
  | complete event => exact absurd rfl (hother event)
  | vehicle event =>
    have honly : (Processor.vehicleEvent event).Only fun c => c.phase? = none := by
      unfold Processor.vehicleEvent
      split
      · exact ⟨rfl, fun answer => Handler.only_ofExcept answer⟩
      · trivial
    exact phases_eq_nil (hpath.only honly).1

/-- Every request goes through the phases in their order. -/
theorem phases_sublist_of_path {processor : Processor} {request : Request} {rest : Handler Unit}
    (hpath : Handler.Path (request.handler processor) trace rest) :
    (phases trace).Sublist Phase.order := by
  cases request with
  | complete event => exact (Processor.completing_of_path hpath).phases_sublist
  | begin event =>
    rw [phases_eq_nil_of_path hpath (by simp)]
    exact List.nil_sublist _
  | vehicle event =>
    rw [phases_eq_nil_of_path hpath (by simp)]
    exact List.nil_sublist _

end TripArchive
