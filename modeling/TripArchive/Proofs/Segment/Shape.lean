import TripArchive.Proofs.Segment.Completion
import TripArchive.Proofs.Segment.Safe
import TripArchive.Proofs.Store.Tables

/-!
# The shape of a row

The fields of a row belong together: one start at most, a mark that goes with an estimate, and what
is written at the end only at the end. A handler writes a row in this shape whatever happens between
its calls, since the row that it completes is still the one it was shown.
-/

namespace TripArchive

namespace Segment

/-- Whether a row has one start at most, and is marked exactly if that is an estimate. -/
structure OneStart (row : Segment) : Prop where
  single : row.startPosition = none ∨ row.startEstimate = none
  dropped : row.droppedData = true ↔ row.startEstimate ≠ none

/-- Whether the fields of a row belong together, under options that say what is archived. -/
structure Shaped (options : Options) (row : Segment) : Prop extends row.OneStart where
  ended : row.endTime ≠ none ↔ row.encryptionKey ≠ none
  key : ∀ key, row.encryptionKey = some key → key.length = 32
  opened : row.endTime = none → row.endPosition = none ∧ row.archiveId = none
  archived : row.endTime ≠ none →
    (row.archiveId ≠ none ↔ options.fetch = true ∧ options.upload = true)

variable {options : Options} {row later : Segment}

/-- A row that is still open is the row that it was. -/
theorem Becomes.eq_of_isOpen (h : row.Becomes later) (hopen : later.isClosed = false) :
    later = row := by
  rcases h with rfl | ⟨_, completion, rfl⟩
  · rfl
  · cases hopen

/-- A row that is completed in the shape of its start has its shape. -/
theorem shaped_complete {written : Completion} (hstart : (row.complete written).OneStart)
    (hkey : written.encryptionKey.length = 32)
    (harchived : written.archiveId ≠ none ↔ options.fetch = true ∧ options.upload = true) :
    (row.complete written).Shaped options where
  toOneStart := hstart
  ended := by simp [complete]
  key := by
    rintro _ ⟨⟩
    exact hkey
  opened := by simp [complete]
  archived := fun _ => harchived

end Segment

namespace Processor

/-- An opened row has its shape: an estimate is the previous end, which is known if it is near. -/
theorem shaped_placed (options : Options) (event : SegmentEvent) (vehicle : Vehicle)
    (ended : Option Point) :
    (placed event vehicle (Placement.resolve ended event.start.location)).Shaped options := by
  have hstart : (placed event vehicle
      (Placement.resolve ended event.start.location)).OneStart := by
    unfold Placement.resolve
    split
    · next hnear =>
      have hended : ended ≠ none := by
        rintro rfl
        cases hnear
      constructor
      · exact Or.inl rfl
      · simp [placed, hended]
    · constructor
      · exact Or.inr rfl
      · simp [placed]
  exact ⟨hstart, by simp [placed, Segment.opened], by simp [placed, Segment.opened],
    fun _ => ⟨rfl, rfl⟩, fun hended => absurd rfl hended⟩

open Handler

/-- Whether every row has its shape. -/
def Shapely (options : Options) (store : Store) : Prop :=
  ∀ id row, store.segment? id = some row → row.Shaped options

/-- What a handler relies on: the others leave every row in its shape, and the tables only grow. -/
def ReliesOnShape (options : Options) (store before : Store) : Prop :=
  Shapely options before ∧ store.Grows before

/-- What a handler promises: its own calls leave every row in its shape. -/
def PromisesShape (options : Options) (_ later : Store) : Prop := Shapely options later

/-- A condition on the value that a handler gives, if it gives one. -/
def Returns {α : Type} (P : α → Store → Prop) : Except SegmentError α → Store → Prop
  | .ok a, store => P a store
  | .error _, _ => True

variable {α : Type} {options : Options} {store later : Store} {c : Call} {answer : c.Answer}

/-- An answered call leaves every row in its shape if what it inserts and what it completes has
it. -/
theorem Shapely.step (hstore : Shapely options store) (hanswer : store.Answers c answer later)
    (hinserted : ∀ segment, c = .insertSegment segment → segment.Shaped options)
    (hclosed : ∀ id written row, c = .updateSegment id written → store.segment? id = some row →
      row.isClosed = false → (row.complete written).Shaped options) :
    Shapely options later := by
  intro id row hrow
  have hstep := hanswer.rowStep id
  generalize hbefore : store.segment? id = before at hstep
  generalize hafter : later.segment? id = after at hstep
  rw [hafter] at hrow
  cases hstep with
  | inserted segment hid =>
    cases hrow
    exact hinserted row rfl
  | closed row written hopen =>
    cases hrow
    exact hclosed id written row rfl hbefore hopen
  | kept =>
    rw [hrow] at hbefore
    exact hstore id row hbefore

/-- A call that neither inserts nor completes a row keeps the promise by itself. -/
theorem safe_of_reading {next : c.Answer → Handler α} {post : Except SegmentError α → Store → Prop}
    (hinserts : ∀ segment, c ≠ .insertSegment segment)
    (hcloses : ∀ id written, c ≠ .updateSegment id written)
    (hnext : ∀ before answer later, store.Grows before → Shapely options later →
      before.Answers c answer later →
      (next answer).Safe Store.Answers (ReliesOnShape options) (PromisesShape options) post later) :
    (call c next).Safe Store.Answers (ReliesOnShape options) (PromisesShape options) post
      store := by
  intro before answer later hbefore hanswer
  have hlater : Shapely options later :=
    hbefore.1.step hanswer (fun segment heq => absurd heq (hinserts segment))
      (fun id written _ heq => absurd heq (hcloses id written))
  exact ⟨hlater, hnext before answer later hbefore.2 hlater hanswer⟩

/-- What the tables grow into from some earlier moment on is known to a handler to its end. -/
theorem safe_grown {h : Handler α} {post : Except SegmentError α → Store → Prop} {origin : Store}
    (hsafe : h.Safe Store.Answers (ReliesOnShape options) (PromisesShape options) post store)
    (hgrown : origin.Grows store) :
    h.Safe Store.Answers (ReliesOnShape options) (PromisesShape options)
      (fun result later => origin.Grows later ∧ post result later) store := by
  apply hsafe.remember
  · intro a b c hfirst hsecond
    exact hfirst.trans hsecond
  · intro before later hrely
    exact hrely.2
  · intro before c answer later hanswer _
    exact hanswer.grows
  · exact hgrown

variable {event : SegmentEvent} {segment : Segment}

/-- Reading the previous segment of a vehicle keeps the promise. -/
theorem safe_priorSegment (options : Options) (token : Int) (store : Store) :
    (Handler.priorSegment token).Safe Store.Answers (ReliesOnShape options) (PromisesShape options)
      (Returns fun _ _ => True) store := by
  apply safe_of_reading (by simp) (by simp)
  intro before answer later _ _ _
  exact safe_ofExcept (fun _ _ => trivial) fun _ _ => trivial

/-- Opening a segment keeps the promise, and gives the row that it added. -/
theorem safe_openSegment (options : Options) (event : SegmentEvent) (store : Store) :
    (openSegment event).Safe Store.Answers (ReliesOnShape options) (PromisesShape options)
      (Returns fun segment later => later.segment? event.id = some segment ∧
        segment.isClosed = false ∧ Shapely options later) store := by
  have hgetVehicle : (Handler.getVehicle event.deviceId).Safe Store.Answers
      (ReliesOnShape options) (PromisesShape options) (Returns fun _ _ => True) store := by
    apply safe_of_reading (by simp) (by simp)
    intro before answer later _ _ _
    exact safe_ofExcept (fun _ _ => trivial) fun _ _ => trivial
  refine Safe.bind hgetVehicle ?_ fun _ _ _ => trivial
  intro found later _
  cases found with
  | none => exact trivial
  | some vehicle =>
    have hprior : (priorEnd vehicle event.start.location).Safe Store.Answers
        (ReliesOnShape options) (PromisesShape options) (Returns fun _ _ => True) later := by
      cases event.start.location with
      | none => exact trivial
      | some start =>
        exact Safe.bind (safe_priorSegment options vehicle.token later) (fun _ _ _ => trivial)
          fun _ _ _ => trivial
    refine Safe.bind hprior ?_ fun _ _ _ => trivial
    intro ended later _ before answer last hbefore hanswer
    have hshaped := shaped_placed options event vehicle ended
    have hlast : Shapely options last := by
      apply hbefore.1.step hanswer
      · rintro _ ⟨⟩
        exact hshaped
      · simp
    refine ⟨hlast, ?_⟩
    cases answer with
    | error e => exact trivial
    | ok => exact ⟨hanswer.shows (.inserted rfl), rfl, hlast⟩

/-- Reading a segment keeps the promise, and gives its row. -/
theorem safe_getSegment (options : Options) (id : String) (store : Store) :
    (Handler.getSegment id).Safe Store.Answers (ReliesOnShape options) (PromisesShape options)
      (Returns fun found later => Shapely options later ∧
        ∀ segment, found = some segment → later.segment? id = some segment) store := by
  apply safe_of_reading (by simp) (by simp)
  intro before answer later _ hlater hanswer
  cases answer with
  | error e => exact trivial
  | ok found =>
    refine ⟨hlater, ?_⟩
    rintro segment rfl
    exact hanswer.shows .read

/-- A begin event keeps the promise. -/
theorem safe_begin (options : Options) (event : SegmentEvent) (store : Store) :
    (begin event).Safe Store.Answers (ReliesOnShape options) (PromisesShape options)
      (fun _ _ => True) store := by
  refine Safe.bind (safe_getSegment options event.id store) ?_ fun _ _ _ => trivial
  intro existing later _
  split
  · exact trivial
  · exact Safe.bind (safe_openSegment options event later) (fun _ _ _ => trivial)
      fun _ _ _ => trivial

/-- A vehicle event keeps the promise. -/
theorem safe_vehicleEvent (options : Options) (event : CloudEvent MintEvent) (store : Store) :
    (vehicleEvent event).Safe Store.Answers (ReliesOnShape options) (PromisesShape options)
      (fun _ _ => True) store := by
  unfold vehicleEvent
  split
  · apply safe_of_reading (by simp) (by simp)
    intro before answer later _ _ _
    exact safe_ofExcept (fun _ _ => trivial) fun _ _ => trivial
  · exact trivial

/-- Loading the segment of a complete event keeps the promise, and gives its open row. -/
theorem safe_loadOpen (options : Options) (event : SegmentEvent) (store : Store) :
    (loadOpen event).Safe Store.Answers (ReliesOnShape options) (PromisesShape options)
      (Returns fun segment later => later.segment? event.id = some segment ∧
        segment.isClosed = false ∧ Shapely options later) store := by
  have hreload (later : Store) : (reload event).Safe Store.Answers (ReliesOnShape options)
      (PromisesShape options) (Returns fun segment later =>
        later.segment? event.id = some segment ∧ Shapely options later) later := by
    refine Safe.bind (safe_getSegment options event.id later) ?_ fun _ _ _ => trivial
    rintro (_ | segment) last ⟨hlast, hfound⟩
    · exact trivial
    · exact ⟨hfound segment rfl, hlast⟩
  rw [loadOpen_eq]
  refine Safe.bind (safe_getSegment options event.id store) ?_ fun _ _ _ => trivial
  intro found later hfound
  have hloaded : (found.elim (openOrReload event) done).Safe Store.Answers
      (ReliesOnShape options) (PromisesShape options) (Returns fun segment later =>
        later.segment? event.id = some segment ∧ Shapely options later) later := by
    cases found with
    | some segment => exact ⟨hfound.2 segment rfl, hfound.1⟩
    | none =>
      refine Safe.recover (safe_openSegment options event later) ?_ ?_
      · intro segment last hopened
        exact ⟨hopened.1, hopened.2.2⟩
      · intro e last _
        split
        · exact hreload last
        · exact trivial
  refine Safe.bind hloaded ?_ fun _ _ _ => trivial
  intro segment last hsegment
  split
  · exact trivial
  · next hopen => exact ⟨hsegment.1, by simpa using hopen, hsegment.2⟩

/-- Placing a late start keeps the promise and the shape of the start, and changes only the estimate
and the mark. -/
theorem safe_placeLate (options : Options) (start : Option Point) (store : Store)
    (hstart : segment.OneStart) :
    (placeLate segment start).Safe Store.Answers (ReliesOnShape options) (PromisesShape options)
      (Returns fun placed _ => placed.OneStart ∧ placed =
        { segment with startEstimate := placed.startEstimate, droppedData := placed.droppedData })
      store := by
  unfold placeLate
  split
  · exact ⟨hstart, rfl⟩
  · next start =>
    split
    · next hunknown =>
      refine Safe.bind (safe_priorSegment options segment.vehicleToken store) ?_
        fun _ _ _ => trivial
      intro prior later _
      split
      · exact ⟨hstart, rfl⟩
      · have hnone : segment.startPosition = none := by
          have hboth := (Bool.and_eq_true _ _).mp hunknown
          simpa using hboth.1
        exact ⟨⟨Or.inl hnone, by simp⟩, rfl⟩
    · exact ⟨hstart, rfl⟩

variable {processor : Processor}

/-- Archiving keeps the promise, and gives an identifier exactly if it fetches and uploads. -/
theorem safe_archive (processor : Processor) (device : String) (segment : Segment)
    (finish : Instant) (key : Package.SegmentKey) (store : Store) :
    (processor.archive device segment finish key).Safe Store.Answers
      (ReliesOnShape processor.options) (PromisesShape processor.options)
      (Returns fun archiveId _ => archiveId ≠ none ↔
        processor.options.fetch = true ∧ processor.options.upload = true) store := by
  unfold archive
  split
  · next hfetch =>
    apply safe_of_reading (by simp) (by simp)
    intro before answer later _ _ _
    cases answer with
    | error e => exact trivial
    | ok raw =>
      apply safe_of_reading (by simp) (by simp)
      intro before nonce later _ _ _
      have hpacked : (ofExcept .package (processor.pack raw key nonce
          (label segment finish))).Safe Store.Answers (ReliesOnShape processor.options)
          (PromisesShape processor.options) (Returns fun _ _ => True) later :=
        safe_ofExcept (fun _ _ => trivial) fun _ _ => trivial
      change Safe _ _ _ _ (Handler.bind (ofExcept .package _) _) later
      refine Safe.bind hpacked ?_ fun _ _ _ => trivial
      intro item later _
      split
      · next hupload =>
        apply safe_of_reading (by simp) (by simp)
        intro before answer later _ _ _
        cases answer with
        | error e => exact trivial
        | ok receipt => exact ⟨fun _ => ⟨hfetch, hupload⟩, fun _ => by simp⟩
      · next hupload => simp [hupload, Safe, Returns]
  · next hfetch => simp [hfetch, Safe, Returns]

/-- A complete event keeps the promise: whatever became of the row that it was shown, the one that
it completes is still that row. -/
theorem safe_complete (processor : Processor) (event : SegmentEvent) (store : Store) :
    (processor.complete event).Safe Store.Answers (ReliesOnShape processor.options)
      (PromisesShape processor.options) (fun _ _ => True) store := by
  cases hfinish : event.finish with
  | none =>
    unfold complete
    rw [hfinish]
    exact trivial
  | some finish =>
    rw [complete_eq processor event hfinish]
    refine Safe.bind (safe_loadOpen processor.options event store) ?_ fun _ _ _ => trivial
    rintro loaded shown ⟨hshown, hopen, hshapely⟩
    have hplaced := safe_grown (safe_placeLate processor.options event.start.location shown
      (hshapely _ _ hshown).toOneStart) (.refl shown)
    refine Safe.bind hplaced ?_ fun _ _ _ => trivial
    rintro segment later ⟨hlater, hstart, hsegment⟩
    apply safe_of_reading (by simp) (by simp)
    intro before key drawn hbefore _ hanswer
    have harchived := safe_grown
      (safe_archive processor event.deviceId segment finish.time key drawn)
      ((hlater.trans hbefore).trans hanswer.grows)
    refine Safe.bind harchived ?_ fun _ _ _ => trivial
    rintro archiveId archived ⟨hgrown, harchiveId⟩ before answer last ⟨hshapely, hbefore⟩ hclose
    refine ⟨?_, safe_ofExcept (fun _ _ => trivial) fun _ _ => trivial⟩
    apply hshapely.step hclose (by simp)
    rintro _ _ row ⟨⟩ hrow hrowOpen
    have hid : segment.id = loaded.id := by rw [hsegment]
    have hposition : segment.startPosition = loaded.startPosition := by rw [hsegment]
    obtain ⟨next, hnext, hbecomes⟩ := (hgrown.trans hbefore).rows _ _ hshown
    rw [hid, Store.id_of_segment? hshown, hnext] at hrow
    cases hrow
    have hsame := hbecomes.eq_of_isOpen hrowOpen
    subst hsame
    exact Segment.shaped_complete ⟨hposition ▸ hstart.single, hstart.dropped⟩ key.property
      harchiveId

end Processor
end TripArchive
