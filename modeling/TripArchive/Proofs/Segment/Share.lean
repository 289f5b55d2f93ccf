import TripArchive.Proofs.Segment.Confined
import TripArchive.Proofs.Segment.Provenance

/-!
# The share of an event in the tables

The segments that an event may see are those of its identifier and of the vehicles that it is about.
The calls of the event are answered from this share and write nothing else, so tables that agree on
it answer alike, and the share of an event of another vehicle stays as it is.
-/

namespace TripArchive

/-- Which segments an event may see: its own, and those of some vehicles. -/
def SegmentEvent.sees (event : SegmentEvent) (tokens : List Int) (id : String) (token : Int) :
    Bool := id = event.id || token ∈ tokens

/-- The segment that a call about an event reads or writes is that of the event. -/
theorem Call.Concerns.segment?_eq {c : Call} {event : SegmentEvent} {tokens : List Int}
    {id : String} (h : c.Concerns event tokens) (hsegment : c.segment? = some id) :
    id = event.id := by
  cases c <;> cases hsegment
  · exact h
  · exact h.1
  · exact h

/-- The handler of a segment event stays with its segment and vehicles. -/
theorem Request.confined (processor : Processor) {request : Request} {event : SegmentEvent}
    (hevent : request.event? = some event) (tokens : List Int) :
    (request.handler processor).Confined event tokens fun _ => True := by
  cases request with
  | begin other =>
    cases hevent
    exact Processor.confined_begin event tokens
  | complete other =>
    cases hevent
    exact Processor.confined_complete processor event tokens
  | vehicle other => cases hevent

namespace Store

/-- The tokens that an event is about: that of its device, and those of the rows under its
identifier. -/
def tokens (store : Store) (event : SegmentEvent) : List Int :=
  (store.vehicle? event.deviceId).toList.map Vehicle.token ++
    (store.rows event.id).map Segment.vehicleToken

/-- Whether some tokens are all that an event is about. -/
structure Covers (store : Store) (event : SegmentEvent) (tokens : List Int) : Prop where
  vehicle : ∀ vehicle, store.vehicle? event.deviceId = some vehicle → vehicle.token ∈ tokens
  rows : ∀ row ∈ store.segments, row.id = event.id → row.vehicleToken ∈ tokens

/-- Whether two tables have the same vehicles and show an event the same segments. -/
structure Agrees (event : SegmentEvent) (tokens : List Int) (a b : Store) : Prop where
  vehicles : a.vehicles = b.vehicles
  share : a.part (event.sees tokens) = b.part (event.sees tokens)

/-- Whether two tables hold the same vehicles, and under every identifier the same segments. -/
structure Alike (a b : Store) : Prop where
  vehicles : a.vehicles = b.vehicles
  rows : ∀ id, a.rows id = b.rows id

/-- Two events about different segments, and about vehicles of which none is the same. -/
structure Unrelated (store : Store) (event other : SegmentEvent) : Prop where
  ids : event.id ≠ other.id
  tokens : (store.tokens event).Disjoint (store.tokens other)

variable {store later a b : Store} {event : SegmentEvent} {tokens : List Int} {c : Call}
  {answer : c.Answer}

theorem Unrelated.symm {other : SegmentEvent} (h : store.Unrelated event other) :
    store.Unrelated other event :=
  ⟨h.ids.symm, fun _ hmem hmem' => h.tokens hmem' hmem⟩

/-- Tables that are alike are left so by all calls but for a previous segment: which of two that
ended at once is the later one depends on their order. -/
theorem tracks_alike (hc : ∀ token, c ≠ .priorSegment token) : Tracks Alike c := by
  intro a b a' answer h hanswer
  have hrows (id : String) :
      a.part (fun other _ => other = id) = b.part fun other _ => other = id := h.rows id
  have hsegment (id : String) : a.segment? id = b.segment? id :=
    segment?_congr (hrows id) (by simp)
  obtain ⟨b', hserved, hvehicles⟩ := answer?_alike h.vehicles (fun id _ => hsegment id)
    (fun token hprior => absurd hprior (hc token)) hanswer
  exact ⟨b', hserved, hvehicles, fun id =>
    part_congr (hrows id) (.served hanswer) (.served hserved)⟩

/-- Tables that are alike hold the same segments. -/
theorem Alike.perm (h : a.Alike b) : a.segments.Perm b.segments := by
  rw [List.perm_iff_count]
  intro row
  have hcount (store : Store) : store.segments.count row = (store.rows row.id).count row :=
    (List.count_filter (by simp)).symm
  rw [hcount, hcount, h.rows]

/-- The tokens that an event is about are all of them. -/
theorem covers_tokens (store : Store) (event : SegmentEvent) :
    store.Covers event (store.tokens event) where
  vehicle := by
    intro vehicle hvehicle
    simp [Store.tokens, hvehicle]
  rows := by
    intro row hmem hid
    have hrow : row ∈ store.rows event.id := List.mem_filter.mpr ⟨hmem, by simpa using hid⟩
    exact List.mem_append_right _ (List.mem_map_of_mem hrow)

/-- A call about a segment event changes no vehicle. -/
theorem Answers.vehicles_eq (h : store.Answers c answer later) (hc : c.Concerns event tokens) :
    later.vehicles = store.vehicles := by
  cases h.tableStep with
  | recorded => cases hc
  | inserted | closed | kept => rfl

/-- Tables that are covered by some tokens show an event nothing else. -/
theorem Covers.concerns (hcovers : store.Covers event tokens) (hc : c.Concerns event tokens)
    (h : store.Answers c answer later) : Answered.Concerns event tokens ⟨c, answer⟩ := by
  cases h with
  | failed hfailed =>
    cases c <;> cases hfailed <;> trivial
  | elsewhere helsewhere =>
    cases c with
    | generateKey | generateNonce | fetch | upload => trivial
    | _ => cases helsewhere
  | served hserved =>
    cases c with
    | getSegment id =>
      cases hserved
      cases hrow : store.segment? id with
      | none => trivial
      | some row =>
        have hid := id_of_segment? hrow
        obtain rfl : id = event.id := hc
        exact ⟨hid, hcovers.rows row (mem_of_segment? hrow) hid⟩
    | getVehicle device =>
      cases hserved
      obtain rfl : device = event.deviceId := hc
      cases hvehicle : store.vehicle? event.deviceId with
      | none => trivial
      | some vehicle => exact hcovers.vehicle vehicle hvehicle
    | _ => trivial

/-- A call that inserts no segment of an event but one of its vehicles leaves it covered, if it
changes no vehicle. -/
theorem Covers.answers (hcovers : store.Covers event tokens) (h : store.Answers c answer later)
    (hvehicles : later.vehicles = store.vehicles)
    (hinsert : ∀ segment, c = .insertSegment segment → segment.id = event.id →
      segment.vehicleToken ∈ tokens) : later.Covers event tokens := by
  constructor
  · unfold vehicle?
    rw [hvehicles]
    exact hcovers.vehicle
  · cases h.tableStep with
    | recorded | kept => exact hcovers.rows
    | inserted segment =>
      intro row hmem hid
      rcases List.mem_append.mp hmem with hold | hnew
      · exact hcovers.rows row hold hid
      · obtain rfl := List.mem_singleton.mp hnew
        exact hinsert row rfl hid
    | closed id row completion =>
      intro row hmem hid
      obtain ⟨other, hother, rfl⟩ := List.mem_map.mp hmem
      by_cases hclosed : other.id = id
      · rw [if_pos hclosed] at hid ⊢
        exact hcovers.rows other hother hid
      · rw [if_neg hclosed] at hid ⊢
        exact hcovers.rows other hother hid

/-- An event stays covered by its own calls. -/
theorem Covers.own (hcovers : store.Covers event tokens) (hc : c.Concerns event tokens)
    (h : store.Answers c answer later) : later.Covers event tokens := by
  apply hcovers.answers h (h.vehicles_eq hc)
  rintro segment rfl _
  exact hc.2

/-- Tables that agree for an event have the same closed segments of its vehicles. -/
theorem Agrees.closedRows_eq (h : Agrees event tokens a b) {token : Int} (hmem : token ∈ tokens) :
    a.closedRows token = b.closedRows token :=
  closedRows_congr_part h.share (by simp [SegmentEvent.sees, hmem])

/-- Tables that agree for an event answer its calls alike and agree afterwards. -/
theorem tracks_agrees (hc : c.Concerns event tokens) : Tracks (Agrees event tokens) c := by
  intro a b a' answer h hanswer
  have hsegment (id : String) (hid : c.segment? = some id) : a.segment? id = b.segment? id := by
    obtain rfl := hc.segment?_eq hid
    exact segment?_congr h.share (by simp [SegmentEvent.sees])
  have hprior (token : Int) (htoken : c = .priorSegment token) :
      a.prior? token = b.prior? token := by
    subst htoken
    exact prior?_congr (h.closedRows_eq hc)
  obtain ⟨b', hserved, hvehicles⟩ := answer?_alike h.vehicles hsegment hprior hanswer
  exact ⟨b', hserved, hvehicles, part_congr h.share (.served hanswer) (.served hserved)⟩

/-- The calls of an event leave the parts of the tables as they are in which it has no segment. -/
theorem Covers.part_eq (hcovers : store.Covers event tokens) (hc : c.Concerns event tokens)
    (h : store.Answers c answer later) {about : String → Int → Bool}
    (habout : ∀ token ∈ tokens, about event.id token = false) :
    later.part about = store.part about := by
  apply h.part_eq
  · rintro segment rfl
    rw [hc.1]
    exact habout _ hc.2
  · rintro id completion rfl row hmem hid
    obtain rfl : id = event.id := hc
    rw [hid]
    exact habout _ (hcovers.rows row hmem hid)

end Store

end TripArchive
