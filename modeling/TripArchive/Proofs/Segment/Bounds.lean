import TripArchive.Proofs.Segment.Completion

/-!
# How many calls a handler makes

A handler ends after a bounded number of calls, whatever they are answered: a begin event after
four, a complete event after eleven.
-/

namespace TripArchive

namespace Handler

variable {α β : Type} {h : Handler α} {m n : Nat}

/-- Whether a handler ends after at most `n` calls, whatever they are answered. -/
def Within (n : Nat) : Handler α → Prop
  | done _ => True
  | fail _ => True
  | call _ next => 0 < n ∧ ∀ answer, (next answer).Within (n - 1)

/-- Taking the value of an answer needs no call. -/
theorem within_ofExcept {ε : Type} {wrap : ε → SegmentError} (answer : Except ε α) :
    (ofExcept wrap answer).Within n := by
  cases answer <;> trivial

/-- What ends after few calls ends after more. -/
theorem Within.mono (hh : h.Within m) (hle : m ≤ n) : h.Within n := by
  induction h generalizing m n with
  | done a => trivial
  | fail e => trivial
  | call c next ih =>
    obtain ⟨hpos, hnext⟩ := hh
    exact ⟨by omega, fun answer => ih answer (hnext answer) (by omega)⟩

/-- A sequence makes the calls of both handlers. -/
theorem Within.bind {f : α → Handler β} (hh : h.Within m) (hf : ∀ a, (f a).Within n) :
    (h.bind f).Within (m + n) := by
  induction h generalizing m with
  | done a => exact (hf a).mono (by omega)
  | fail e => trivial
  | call c next ih =>
    obtain ⟨hpos, hnext⟩ := hh
    exact ⟨by omega, fun answer => (ih answer (hnext answer)).mono (by omega)⟩

/-- A recovery adds its calls to those of the handler. -/
theorem Within.recover {f : SegmentError → Handler α} (hh : h.Within m)
    (hf : ∀ e, (f e).Within n) : (h.recover f).Within (m + n) := by
  induction h generalizing m with
  | done a => trivial
  | fail e => exact (hf e).mono (by omega)
  | call c next ih =>
    obtain ⟨hpos, hnext⟩ := hh
    exact ⟨by omega, fun answer => (ih answer (hnext answer)).mono (by omega)⟩

end Handler

namespace Processor

open Handler

/-- Reading a segment is one call. -/
theorem within_getSegment (id : String) : (Handler.getSegment id).Within 1 :=
  ⟨Nat.one_pos, fun answer => within_ofExcept answer⟩

/-- Reading the previous segment of a vehicle is one call. -/
theorem within_priorSegment (token : Int) : (Handler.priorSegment token).Within 1 :=
  ⟨Nat.one_pos, fun answer => within_ofExcept answer⟩

/-- Opening a segment takes three calls at most. -/
theorem within_openSegment (event : SegmentEvent) : (openSegment event).Within 3 := by
  have hvehicle : (Handler.getVehicle event.deviceId).Within 1 :=
    ⟨Nat.one_pos, fun answer => within_ofExcept answer⟩
  refine Within.bind (n := 2) hvehicle fun found => ?_
  cases found with
  | none => trivial
  | some vehicle =>
    have hprior : (priorEnd vehicle event.start.location).Within 1 := by
      cases event.start.location with
      | none => trivial
      | some start =>
        exact Within.bind (n := 0) (within_priorSegment vehicle.token) fun _ => trivial
    refine Within.bind (n := 1) hprior fun ended => ?_
    have hinsert (segment : Segment) : (Handler.insertSegment segment).Within 1 :=
      ⟨Nat.one_pos, fun answer => within_ofExcept answer⟩
    exact Within.bind (n := 0) (hinsert _) fun _ => trivial

/-- A begin event takes four calls at most. -/
theorem within_begin (event : SegmentEvent) : (begin event).Within 4 := by
  refine Within.bind (n := 3) (within_getSegment event.id) fun existing => ?_
  split
  · trivial
  · exact Within.bind (n := 0) (within_openSegment event) fun _ => trivial

/-- Loading the segment of a complete event takes five calls at most. -/
theorem within_loadOpen (event : SegmentEvent) : (loadOpen event).Within 5 := by
  have hreload : (reload event).Within 1 := by
    refine Within.bind (n := 0) (within_getSegment event.id) fun found => ?_
    cases found <;> trivial
  rw [loadOpen_eq]
  refine Within.bind (n := 4) (within_getSegment event.id) fun found => ?_
  refine Within.bind (m := 4) (n := 0) ?_ fun segment => ?_
  · cases found with
    | some segment => trivial
    | none =>
      refine Within.recover (n := 1) (within_openSegment event) fun e => ?_
      split
      · exact hreload
      · trivial
  · split <;> trivial

/-- Placing a late start takes one call at most. -/
theorem within_placeLate (segment : Segment) (start : Option Point) :
    (placeLate segment start).Within 1 := by
  unfold placeLate
  split
  · trivial
  · split
    · refine Within.bind (n := 0) (within_priorSegment _) fun prior => ?_
      split <;> trivial
    · trivial

/-- Archiving takes three calls at most. -/
theorem within_archive (processor : Processor) (device : String) (segment : Segment)
    (finish : Instant) (key : Package.SegmentKey) :
    (processor.archive device segment finish key).Within 3 := by
  have hfetch (range : Telemetry.Range) : (Handler.fetch range).Within 1 :=
    ⟨Nat.one_pos, fun answer => within_ofExcept answer⟩
  have hnonce : (ask .generateNonce).Within 1 := ⟨Nat.one_pos, fun _ => trivial⟩
  have hupload (item : Item) : (Handler.upload item).Within 1 :=
    ⟨Nat.one_pos, fun answer => within_ofExcept answer⟩
  unfold archive
  split
  · refine Within.bind (n := 2) (hfetch _) fun raw => ?_
    refine Within.bind (n := 1) hnonce fun nonce => ?_
    refine Within.bind (m := 0) (n := 1) (within_ofExcept _) fun item => ?_
    split
    · exact Within.bind (n := 0) (hupload item) fun _ => trivial
    · trivial
  · trivial

/-- A complete event takes eleven calls at most. -/
theorem within_complete (processor : Processor) (event : SegmentEvent) :
    (processor.complete event).Within 11 := by
  cases hfinish : event.finish with
  | none =>
    unfold complete
    rw [hfinish]
    trivial
  | some finish =>
    have hclose (id : String) (written : Completion) :
        (Handler.updateSegment id written).Within 1 :=
      ⟨Nat.one_pos, fun answer => within_ofExcept answer⟩
    rw [complete_eq processor event hfinish]
    refine Within.bind (n := 6) (within_loadOpen event) fun loaded => ?_
    refine Within.bind (n := 5) (within_placeLate loaded _) fun segment => ?_
    refine ⟨by decide, fun key => ?_⟩
    exact Within.bind (n := 1) (within_archive processor _ segment _ key) fun _ => hclose _ _

end Processor

end TripArchive
