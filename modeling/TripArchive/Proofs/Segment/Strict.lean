import TripArchive.Proofs.Segment.Failure

/-!
# Failed calls end a completion

No handler goes on after a failed call, but for one: an insertion that is refused as a duplicate has
the segment looked up again. By itself a handler finds none then, so that a complete event that
succeeds by itself has had no failed call.
-/

namespace TripArchive

/-- Whether a call failed. -/
def Answered.failed : Answered → Bool
  | ⟨.getSegment _, .error _⟩ => true
  | ⟨.getVehicle _, .error _⟩ => true
  | ⟨.priorSegment _, .error _⟩ => true
  | ⟨.insertSegment _, .error _⟩ => true
  | ⟨.updateSegment _ _, .error _⟩ => true
  | ⟨.upsertVehicle _ _, .error _⟩ => true
  | ⟨.fetch _, .error _⟩ => true
  | ⟨.upload _, .error _⟩ => true
  | _ => false

/-- Whether no call of a stretch failed. -/
def Flawless (trace : List Answered) : Prop := ∀ answered ∈ trace, answered.failed = false

/-- Two stretches without a failed call make one. -/
theorem Flawless.append {first second : List Answered} (hfirst : Flawless first)
    (hsecond : Flawless second) : Flawless (first ++ second) :=
  List.forall_mem_append.mpr ⟨hfirst, hsecond⟩

namespace Handler

variable {α β : Type} {h : Handler α}

/-- A handler is strict that ends with a value only if none of its calls failed. -/
def Strict (h : Handler α) : Prop :=
  ∀ store trace a later, h.Ends Store.Answers store trace (.ok a) later → Flawless trace

/-- A handler without a call is strict. -/
theorem strict_done (a : α) : (done a).Strict := by
  intro store trace value later hends
  cases hends
  exact List.forall_mem_nil _

/-- So is a failed one. -/
theorem strict_fail (e : SegmentError) : (fail e : Handler α).Strict := by
  intro store trace value later hends
  cases hends

/-- Taking the value of an answer needs no call. -/
theorem strict_ofExcept {ε : Type} {wrap : ε → SegmentError} (answer : Except ε α) :
    (ofExcept wrap answer).Strict := by
  cases answer with
  | ok a => exact strict_done a
  | error e => exact strict_fail _

/-- A call that cannot fail is strict if the handler goes on strictly. -/
theorem strict_call {c : Call} {next : c.Answer → Handler α}
    (hcall : ∀ answer, Answered.failed ⟨c, answer⟩ = false)
    (hnext : ∀ answer, (next answer).Strict) : (call c next).Strict := by
  intro store trace a later hends
  cases hends with
  | call _ hrest => exact List.forall_mem_cons.mpr ⟨hcall _, hnext _ _ _ _ _ hrest⟩

/-- A single call is strict if its value stands for no failure. -/
theorem strict_ask {ε : Type} {wrap : ε → SegmentError} {c : Call} {read : c.Answer → Except ε α}
    (hread : ∀ answer a, read answer = .ok a → Answered.failed ⟨c, answer⟩ = false) :
    (Handler.call c fun answer => ofExcept wrap (read answer)).Strict := by
  intro store trace a later hends
  obtain ⟨answer, _, rfl, hresult⟩ := hends.of_ask
  cases hvalue : read answer with
  | error e =>
    rw [hvalue] at hresult
    cases hresult
  | ok value => exact List.forall_mem_singleton.mpr (hread answer value hvalue)

/-- A sequence is strict if both handlers are. -/
theorem Strict.bind {f : α → Handler β} (hfirst : h.Strict) (hsecond : ∀ a, (f a).Strict) :
    (h.bind f).Strict := by
  intro store trace b later hends
  rcases hends.of_bind with ⟨_, he, _⟩ | ⟨first, second, a, between, rfl, hbefore, hafter⟩
  · cases he
  · exact (hfirst _ _ _ _ hbefore).append (hsecond a _ _ _ _ hafter)

end Handler

namespace Processor

open Handler

variable {processor : Processor} {event : SegmentEvent}

/-- Reading a segment is strict. -/
theorem strict_getSegment (id : String) : (Handler.getSegment id).Strict :=
  strict_ask fun _ _ hanswer => hanswer ▸ rfl

/-- Reading the previous segment of a vehicle is strict. -/
theorem strict_priorSegment (token : Int) : (Handler.priorSegment token).Strict :=
  strict_ask fun _ _ hanswer => hanswer ▸ rfl

/-- Opening a segment is strict. -/
theorem strict_openSegment (event : SegmentEvent) : (openSegment event).Strict := by
  have hvehicle : (Handler.getVehicle event.deviceId).Strict :=
    strict_ask fun _ _ hanswer => hanswer ▸ rfl
  refine Strict.bind hvehicle fun found => ?_
  cases found with
  | none => exact strict_fail _
  | some vehicle =>
    have hprior : (priorEnd vehicle event.start.location).Strict := by
      cases event.start.location with
      | none => exact strict_done _
      | some start => exact Strict.bind (strict_priorSegment _) fun _ => strict_done _
    refine Strict.bind hprior fun ended => ?_
    have hinsert (segment : Segment) : (Handler.insertSegment segment).Strict :=
      strict_ask fun _ _ hanswer => hanswer ▸ rfl
    exact Strict.bind (hinsert _) fun _ => strict_done _

/-- Loading the segment of a complete event is strict: by itself a handler does not find the segment
whose insertion was refused. -/
theorem strict_loadOpen (event : SegmentEvent) : (loadOpen event).Strict := by
  intro store trace row later hends
  rw [loadOpen_eq] at hends
  rcases hends.of_bind with ⟨_, he, _⟩ | ⟨first, second, found, between, rfl, hread, hrest⟩
  · cases he
  refine (strict_getSegment event.id _ _ _ _ hread).append ?_
  obtain ⟨rfl, hsegment | ⟨_, he⟩⟩ := ends_getSegment hread
  case inr => cases he
  rcases hrest.of_bind with ⟨_, he, _⟩ | ⟨third, fourth, loaded, middle, rfl, hload, hguard⟩
  · cases he
  have hloaded : Flawless third := by
    cases found with
    | some found => exact strict_done found _ _ _ _ hload
    | none =>
      rcases Ends.of_recover hload with ⟨_, _, hopen⟩ | ⟨_, _, e, opened, rfl, hopen, hrecovered⟩
      · exact strict_openSegment event _ _ _ _ hopen
      · -- The recovery looks a refused row up again, and nobody else can have inserted it.
        exfalso
        rcases ends_openSegment hopen with ⟨rfl, _⟩ | ⟨_, hok, _⟩
        · split at hrecovered
          · obtain ⟨_, e, he⟩ := ends_reload hrecovered (Except.ok.inj hsegment).symm
            cases he
          · cases hrecovered
        · cases hok
  refine hloaded.append ?_
  split at hguard
  · exact strict_fail _ _ _ _ _ hguard
  · exact strict_done _ _ _ _ _ hguard

/-- Placing a late start is strict. -/
theorem strict_placeLate (segment : Segment) (start : Option Point) :
    (placeLate segment start).Strict := by
  unfold placeLate
  split
  · exact strict_done _
  · split
    · refine Strict.bind (strict_priorSegment _) fun prior => ?_
      split <;> exact strict_done _
    · exact strict_done _

/-- Archiving is strict. -/
theorem strict_archive (processor : Processor) (device : String) (segment : Segment)
    (finish : Instant) (key : Package.SegmentKey) :
    (processor.archive device segment finish key).Strict := by
  unfold archive
  split
  · have hfetch : (Handler.fetch ⟨device, segment.startTime, finish⟩).Strict :=
      strict_ask fun _ _ hanswer => hanswer ▸ rfl
    refine Strict.bind hfetch fun raw => ?_
    have hnonce : (ask .generateNonce).Strict := strict_call (fun _ => rfl) strict_done
    refine Strict.bind hnonce fun nonce => Strict.bind (strict_ofExcept _) fun item => ?_
    split
    · have hupload : (Handler.upload item).Strict :=
        strict_ask fun _ _ hanswer => hanswer ▸ rfl
      exact Strict.bind hupload fun _ => strict_done _
    · exact strict_done _
  · exact strict_done _

/-- A complete event is strict: any failed call makes it fail. -/
theorem strict_complete (processor : Processor) (event : SegmentEvent) :
    (processor.complete event).Strict := by
  cases hfinish : event.finish with
  | none =>
    unfold complete
    rw [hfinish]
    exact strict_fail _
  | some finish =>
    rw [complete_eq processor event hfinish]
    refine Strict.bind (strict_loadOpen event) fun loaded => ?_
    refine Strict.bind (strict_placeLate loaded _) fun segment => ?_
    have hfinishing (key : Package.SegmentKey) :
        (processor.finishing event finish segment key).Strict :=
      Strict.bind (strict_archive processor _ segment _ key) fun archiveId =>
        strict_ask fun _ _ hanswer => hanswer ▸ rfl
    exact strict_call (fun _ => rfl) hfinishing

end Processor

end TripArchive
