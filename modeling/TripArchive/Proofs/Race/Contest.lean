import TripArchive.Proofs.Segment.Completion
import TripArchive.Proofs.Store.Prior
import TripArchive.Proofs.Store.Tables

/-!
# A segment that two events are about

A begin and a complete event report one new segment. What both may open and what the complete event
leaves are fixed before either is handled, as long as no other segment of the vehicle closes.
`Contest.Holds` says where the tables stand meanwhile, and `Moves` and `Quiet` what may happen to
them: anything that leads on, and the same without the closing of the segment.
-/

namespace TripArchive

namespace Store

variable {store later : Store}

/-- The vehicle of a device stays. -/
theorem Grows.vehicle? (h : store.Grows later) {device : String} {vehicle : Vehicle}
    (hvehicle : store.vehicle? device = some vehicle) : later.vehicle? device = some vehicle :=
  h.vehicles.find?_eq_some hvehicle

/-- The tables answer an insertion that succeeds. -/
theorem answers_of_insertSegment {segment : Segment} (h : store.insertSegment segment = .ok later) :
    store.Answers (.insertSegment segment) (.ok ()) later :=
  .served (by simp only [answer?, h, after])

/-- The tables answer a closing that succeeds. -/
theorem answers_of_closeSegment {id : String} {completion : Completion}
    (h : store.closeSegment id completion = .ok later) :
    store.Answers (.updateSegment id completion) (.ok ()) later :=
  .served (by simp only [answer?, h, after])

/-- Opening a row closes none. -/
theorem closedRows_append {token : Int} {row : Segment} (hopen : row.isClosed = false) :
    closedRows { store with segments := store.segments ++ [row] } token =
      store.closedRows token := by
  simp [closedRows, hopen]

end Store

/-- What is fixed about a segment that two events report. -/
structure Contest where
  /-- The complete event. -/
  event : SegmentEvent
  /-- The end that it reports. -/
  finish : Endpoint
  /-- The vehicle of its device. -/
  vehicle : Vehicle
  /-- Where the previous segment of the vehicle ended. -/
  ended : Option Point
  /-- The key under which the telemetry is archived. -/
  key : Package.SegmentKey
  /-- The identifier of the archived item. -/
  archiveId : Option String

namespace Contest

/-- The row that either event opens. -/
def opened (contest : Contest) : Segment :=
  Processor.placed contest.event contest.vehicle
    (Placement.resolve contest.ended contest.event.start.location)

/-- What the complete event writes into the row. -/
def written (contest : Contest) : Completion :=
  Processor.completion contest.finish contest.opened contest.key contest.archiveId

/-- The row that the complete event leaves. -/
def closed (contest : Contest) : Segment := contest.opened.complete contest.written

/-- Where the tables stand while the two events are handled. -/
structure Holds (contest : Contest) (store : Store) : Prop where
  keyed : store.Keyed
  vehicle : store.vehicle? contest.event.deviceId = some contest.vehicle
  /-- The row is missing, opened or closed. -/
  row : ∀ row, store.segment? contest.event.id = some row →
    row = contest.opened ∨ row = contest.closed
  /-- Until the row is closed, the previous end of the vehicle is still the one at the start. -/
  ended : store.segment? contest.event.id ≠ some contest.closed →
    (store.prior? contest.vehicle.token).bind Segment.endPosition = contest.ended

/-- What may happen to the tables while the two events are handled. -/
structure Moves (contest : Contest) (before later : Store) : Prop where
  holds : contest.Holds later
  grows : before.Grows later

/-- What may happen to the tables except that the segment is closed. -/
structure Quiet (contest : Contest) (before later : Store) : Prop extends
    contest.Moves before later where
  alreadyClosed : later.segment? contest.event.id = some contest.closed →
    before.segment? contest.event.id = some contest.closed

variable {contest : Contest} {store between later : Store} {c : Call} {answer : c.Answer}

theorem opened_ne_closed (contest : Contest) : contest.opened ≠ contest.closed := by
  intro h
  have hclosed := congrArg Segment.isClosed h
  cases hclosed

theorem Moves.trans (hfirst : contest.Moves store between) (hsecond : contest.Moves between later) :
    contest.Moves store later := ⟨hsecond.holds, hfirst.grows.trans hsecond.grows⟩

theorem Quiet.trans (hfirst : contest.Quiet store between) (hsecond : contest.Quiet between later) :
    contest.Quiet store later :=
  ⟨hfirst.toMoves.trans hsecond.toMoves, hfirst.alreadyClosed ∘ hsecond.alreadyClosed⟩

/-- Nothing happens to the tables. -/
theorem Holds.quiet (h : contest.Holds store) : contest.Quiet store store :=
  ⟨⟨h, .refl store⟩, id⟩

/-- A row that is there stays there. -/
theorem Moves.row (h : contest.Moves store later)
    (hrow : store.segment? contest.event.id ≠ none) :
    later.segment? contest.event.id ≠ none := by
  obtain ⟨row, hrow⟩ := Option.ne_none_iff_exists'.mp hrow
  obtain ⟨next, hnext, _⟩ := h.grows.rows _ _ hrow
  rw [hnext]
  exact Option.some_ne_none next

/-- A closed row stays as it is. -/
theorem Moves.closed (h : contest.Moves store later)
    (hrow : store.segment? contest.event.id = some contest.closed) :
    later.segment? contest.event.id = some contest.closed := by
  obtain ⟨next, hnext, hbecomes⟩ := h.grows.rows _ _ hrow
  rw [hnext, hbecomes.eq_of_isClosed rfl]

/-- A row that is there and not closed is the opened one. -/
theorem Holds.opened (h : contest.Holds store) (hsome : store.segment? contest.event.id ≠ none)
    (hopen : store.segment? contest.event.id ≠ some contest.closed) :
    store.segment? contest.event.id = some contest.opened := by
  obtain ⟨row, hrow⟩ := Option.ne_none_iff_exists'.mp hsome
  rcases h.row row hrow with rfl | rfl
  · exact hrow
  · exact absurd hrow hopen

/-- The opened row stays as it is unless it is closed. -/
theorem Quiet.opened (h : contest.Quiet store later)
    (hrow : store.segment? contest.event.id = some contest.opened) :
    later.segment? contest.event.id = some contest.opened := by
  apply h.holds.opened
  · apply h.row
    rw [hrow]
    exact Option.some_ne_none _
  · intro hclosed
    have hbefore := h.alreadyClosed hclosed
    rw [hrow] at hbefore
    exact contest.opened_ne_closed (Option.some.inj hbefore)

/-- Calls that neither write the row nor close a segment of the vehicle change nothing for it. -/
theorem Holds.elsewhere (h : contest.Holds store) (hanswer : store.Answers c answer later)
    (hrow : later.segment? contest.event.id = store.segment? contest.event.id)
    (hclosed : later.closedRows contest.vehicle.token = store.closedRows contest.vehicle.token) :
    contest.Quiet store later := by
  have hgrows := hanswer.grows
  refine ⟨⟨?_, hgrows⟩, fun hlater => hrow ▸ hlater⟩
  constructor
  · exact hanswer.tableStep.keyed h.keyed
  · exact hgrows.vehicle? h.vehicle
  · rw [hrow]
    exact h.row
  · rw [hrow, Store.prior?_congr hclosed]
    exact h.ended

/-- Inserting a segment that is there is refused as a duplicate. -/
theorem Holds.refuse (h : contest.Holds store)
    (hrow : store.segment? contest.event.id ≠ none) {segment : Segment}
    (hid : segment.id = contest.event.id) (htoken : segment.vehicleToken = contest.vehicle.token) :
    store.insertSegment segment =
      .error (.duplicate (Store.segmentName contest.event.id)) := by
  have hknown := Store.knows_of_vehicle? h.vehicle
  have hsome := Option.isSome_iff_ne_none.mpr hrow
  simp [Store.insertSegment, htoken, hid, hknown, hsome]

/-- Inserting the opened row succeeds if the segment is new. -/
theorem Holds.insert (h : contest.Holds store) (hrow : store.segment? contest.event.id = none) :
    ∃ later, store.insertSegment contest.opened = .ok later ∧ contest.Quiet store later ∧
      later.segment? contest.event.id = some contest.opened := by
  have hknown : store.knows contest.opened.vehicleToken = true := Store.knows_of_vehicle? h.vehicle
  have hnew : store.segment? contest.opened.id = none := hrow
  have hinsert : store.insertSegment contest.opened =
      .ok { store with segments := store.segments ++ [contest.opened] } := by
    simp [Store.insertSegment, hknown, hnew]
  have hanswer := Store.answers_of_insertSegment hinsert
  have hlater := (Store.segment?_of_insertSegment hinsert contest.event.id).2.trans (if_pos rfl)
  refine ⟨_, hinsert, ⟨⟨⟨?_, h.vehicle, ?_, ?_⟩, hanswer.grows⟩, ?_⟩, hlater⟩
  · exact hanswer.tableStep.keyed h.keyed
  · intro row hlaterRow
    rw [hlater] at hlaterRow
    exact Or.inl (Option.some.inj hlaterRow).symm
  · intro _
    rw [Store.prior?_congr (Store.closedRows_append rfl)]
    exact h.ended (by simp [hrow])
  · intro hclosed
    rw [hlater] at hclosed
    exact absurd (Option.some.inj hclosed) contest.opened_ne_closed

/-- Closing the opened segment succeeds. -/
theorem Holds.close (h : contest.Holds store)
    (hrow : store.segment? contest.event.id = some contest.opened) :
    ∃ later, store.closeSegment contest.event.id contest.written = .ok later ∧
      contest.Moves store later ∧ later.segment? contest.event.id = some contest.closed := by
  have hopen : contest.opened.isClosed = false := rfl
  obtain ⟨later, hclose⟩ :
      ∃ later, store.closeSegment contest.event.id contest.written = .ok later := by
    simp [Store.closeSegment, hrow, hopen]
  have hlater : later.segment? contest.event.id = some contest.closed := by
    obtain ⟨row, hbefore, _, hafter⟩ := Store.segment?_of_closeSegment hclose contest.event.id
    rw [hrow] at hbefore
    cases hbefore
    rw [hafter, if_pos rfl]
    rfl
  have hanswer := Store.answers_of_closeSegment hclose
  refine ⟨later, hclose, ⟨⟨?_, ?_, ?_, ?_⟩, hanswer.grows⟩, hlater⟩
  · exact hanswer.tableStep.keyed h.keyed
  · exact hanswer.grows.vehicle? h.vehicle
  · intro row hlaterRow
    rw [hlater] at hlaterRow
    exact Or.inr (Option.some.inj hlaterRow).symm
  · intro hunfinished
    exact absurd hlater hunfinished

end Contest

end TripArchive
