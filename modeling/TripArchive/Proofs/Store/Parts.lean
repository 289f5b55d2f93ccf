import TripArchive.Proofs.Store.Prior
import TripArchive.Proofs.Store.Tables

/-!
# Parts of the tables

Which segments belong together is said by their identifiers and tokens, and no call changes these: a
part of the tables is what such a choice selects. What a call makes of a part depends on nothing but
the part, and a call that writes elsewhere leaves it as it is. Tables that agree on the parts that a
call looks at answer it alike.
-/

namespace TripArchive

/-- What an answered call makes of the segments. -/
def Answered.effect : Answered → List Segment → List Segment
  | ⟨.insertSegment segment, .ok ()⟩ => fun rows => rows ++ [segment]
  | ⟨.updateSegment id completion, .ok ()⟩ => fun rows =>
    rows.map fun other => if other.id = id then other.complete completion else other
  | _ => id

/-- The segment that a call reads or writes. -/
def Call.segment? : Call → Option String
  | getSegment id => some id
  | insertSegment segment => some segment.id
  | updateSegment id _ => some id
  | _ => none

namespace Store

variable {store later : Store} {c : Call} {answer : c.Answer}

/-- The segments that a choice of identifiers and tokens selects. -/
def part (store : Store) (about : String → Int → Bool) : List Segment :=
  store.segments.filter fun row => about row.id row.vehicleToken

/-- The rows under an identifier are a part of the tables. -/
theorem rows_eq_part (store : Store) (id : String) :
    store.rows id = store.part fun other _ => other = id := rfl

/-- The segment of an identifier is the first of its rows. -/
theorem segment?_eq_head? (store : Store) (id : String) :
    store.segment? id = (store.rows id).head? := List.head?_filter.symm

/-- An answered call has its effect on the segments. -/
theorem Answers.segments_eq (h : store.Answers c answer later) :
    later.segments = Answered.effect ⟨c, answer⟩ store.segments := by
  generalize hanswered : (⟨c, answer⟩ : Answered) = answered
  have hstep := h.tableStep
  rw [hanswered] at hstep
  cases hstep with
  | recorded | inserted | closed => rfl
  | kept _ hwrites =>
    unfold Answered.effect
    split
    · next segment =>
      have hwritten := hwrites segment.id
      simp [Answered.writes, Answered.inserts] at hwritten
    · next id completion =>
      have hwritten := hwrites id
      simp [Answered.writes, Answered.closes] at hwritten
    · rfl

/-- Completing segments selects the same ones. -/
theorem filter_map_complete (rows : List Segment) (id : String) (completion : Completion)
    (about : String → Int → Bool) :
    ((rows.map fun other => if other.id = id then other.complete completion else other).filter
        fun row => about row.id row.vehicleToken) =
      (rows.filter fun row => about row.id row.vehicleToken).map fun other =>
        if other.id = id then other.complete completion else other := by
  rw [List.filter_map]
  congr 2
  funext other
  by_cases hid : other.id = id
  · simp [hid, Segment.complete]
  · simp [hid]

/-- What an answered call makes of the selected segments depends on nothing but these. -/
theorem exists_effect_part (answered : Answered) (about : String → Int → Bool) :
    ∃ f : List Segment → List Segment, ∀ rows,
      ((answered.effect rows).filter fun row => about row.id row.vehicleToken) =
        f (rows.filter fun row => about row.id row.vehicleToken) := by
  unfold Answered.effect
  split
  · next segment =>
    exact ⟨fun part => part ++ [segment].filter fun row => about row.id row.vehicleToken,
      fun rows => List.filter_append rows [segment]⟩
  · exact ⟨_, fun rows => filter_map_complete rows _ _ about⟩
  · exact ⟨id, fun rows => rfl⟩

section

variable {a b : Store} {about : String → Int → Bool}

/-- An answered call makes the same of two parts that are the same. -/
theorem part_congr {a' b' : Store} (h : a.part about = b.part about)
    (ha : a.Answers c answer a') (hb : b.Answers c answer b') : a'.part about = b'.part about := by
  obtain ⟨f, hf⟩ := exists_effect_part ⟨c, answer⟩ about
  unfold part at h ⊢
  rw [ha.segments_eq, hb.segments_eq, hf, hf, h]

/-- A call that inserts and closes no segment of a part leaves the part as it is. -/
theorem Answers.part_eq (h : store.Answers c answer later)
    (hinsert : ∀ segment, c = .insertSegment segment →
      about segment.id segment.vehicleToken = false)
    (hclose : ∀ id completion, c = .updateSegment id completion →
      ∀ row ∈ store.segments, row.id = id → about row.id row.vehicleToken = false) :
    later.part about = store.part about := by
  cases h.tableStep with
  | recorded | kept => rfl
  | inserted segment => simp [part, hinsert segment rfl]
  | closed id row completion =>
    unfold part
    rw [filter_map_complete]
    refine Eq.trans (List.map_congr_left fun other hother => if_neg fun hid => ?_) (List.map_id _)
    obtain ⟨hmem, habout⟩ := List.mem_filter.mp hother
    rw [hclose id completion rfl other hmem hid] at habout
    cases habout

/-- The rows under an identifier can be read off a part that holds all of them. -/
theorem rows_congr {id : String} (h : a.part about = b.part about)
    (habout : ∀ token, about id token = true) : a.rows id = b.rows id := by
  have hpart (store : Store) :
      store.rows id = (store.part about).filter fun row => row.id = id := by
    unfold rows part
    rw [List.filter_filter]
    congr
    funext row
    by_cases hid : row.id = id
    · simp [hid, habout]
    · simp [hid]
  rw [hpart, hpart, h]

/-- So can its segment. -/
theorem segment?_congr {id : String} (h : a.part about = b.part about)
    (habout : ∀ token, about id token = true) : a.segment? id = b.segment? id := by
  rw [segment?_eq_head?, segment?_eq_head?, rows_congr h habout]

/-- The closed rows of a vehicle can be read off a part that holds all of them. -/
theorem closedRows_congr {token : Int} (h : a.part about = b.part about)
    (ha : ∀ row ∈ a.segments, row.vehicleToken = token → row.isClosed = true →
      about row.id row.vehicleToken = true)
    (hb : ∀ row ∈ b.segments, row.vehicleToken = token → row.isClosed = true →
      about row.id row.vehicleToken = true) : a.closedRows token = b.closedRows token := by
  have hpart (store : Store) (hclosed : ∀ row ∈ store.segments, row.vehicleToken = token →
      row.isClosed = true → about row.id row.vehicleToken = true) :
      store.closedRows token =
        (store.part about).filter fun row => row.vehicleToken = token && row.isClosed := by
    unfold closedRows part
    rw [List.filter_filter]
    refine List.filter_congr fun row hrow => ?_
    by_cases hcase : row.vehicleToken = token ∧ row.isClosed = true
    · simp [hclosed row hrow hcase.1 hcase.2]
    · have hother : (decide (row.vehicleToken = token) && row.isClosed) = false := by
        simpa using hcase
      simp [hother]
  rw [hpart a ha, hpart b hb, h]

/-- So they can be read off a part that holds all rows of the vehicle. -/
theorem closedRows_congr_part {token : Int} (h : a.part about = b.part about)
    (habout : ∀ id, about id token = true) : a.closedRows token = b.closedRows token :=
  closedRows_congr h (fun row _ htoken _ => htoken ▸ habout row.id)
    fun row _ htoken _ => htoken ▸ habout row.id

/-- Tables with the same vehicles answer a call alike if they agree on what it looks at. -/
theorem answer?_alike (hvehicles : a.vehicles = b.vehicles)
    (hsegment : ∀ id, c.segment? = some id → a.segment? id = b.segment? id)
    (hprior : ∀ token, c = .priorSegment token → a.prior? token = b.prior? token) {a' : Store}
    (h : a.answer? c = some (answer, a')) :
    ∃ b', b.answer? c = some (answer, b') ∧ a'.vehicles = b'.vehicles := by
  have hvehicle (device : String) : b.vehicle? device = a.vehicle? device := by
    unfold vehicle?
    rw [hvehicles]
  have hknows (token : Int) : b.knows token = a.knows token := by
    unfold knows
    rw [hvehicles]
  cases c with
  | getSegment id =>
    cases h
    exact ⟨b, by rw [answer?, hsegment id rfl], hvehicles⟩
  | getVehicle device =>
    cases h
    exact ⟨b, by rw [answer?, hvehicle], hvehicles⟩
  | priorSegment token =>
    cases h
    exact ⟨b, by rw [answer?, hprior token rfl], hvehicles⟩
  | insertSegment segment =>
    have hrow := hsegment segment.id rfl
    simp only [answer?, insertSegment, hknows, ← hrow] at h ⊢
    split at h
    · next hunknown =>
      cases h
      exact ⟨b, by rw [if_pos hunknown, after], hvehicles⟩
    · next hknown =>
      rw [if_neg hknown]
      split at h
      · next htaken =>
        cases h
        exact ⟨b, by rw [if_pos htaken, after], hvehicles⟩
      · next hnew =>
        cases h
        exact ⟨{ b with segments := b.segments ++ [segment] }, by rw [if_neg hnew, after],
          hvehicles⟩
  | updateSegment id completion =>
    have hrow := hsegment id rfl
    simp only [answer?, closeSegment, ← hrow] at h ⊢
    split at h
    · cases h
      exact ⟨b, rfl, hvehicles⟩
    · split at h
      · next hclosed =>
        cases h
        exact ⟨b, by rw [if_pos hclosed, after], hvehicles⟩
      · next hopen =>
        cases h
        exact ⟨{ b with
          segments := b.segments.map fun other =>
            if other.id = id then other.complete completion else other },
          by rw [if_neg hopen, after], hvehicles⟩
  | upsertVehicle device token =>
    simp only [answer?, upsertVehicle, hknows, hvehicle] at h ⊢
    split at h
    · next hknown =>
      cases h
      exact ⟨b, by rw [if_pos hknown, after], hvehicles⟩
    · next hunknown =>
      rw [if_neg hunknown]
      split at h
      · next htaken =>
        cases h
        exact ⟨b, by rw [if_pos htaken, after], hvehicles⟩
      · next hnew =>
        cases h
        exact ⟨_, by rw [if_neg hnew, after], by rw [hvehicles]⟩
  | generateKey | generateNonce | fetch | upload => cases h

end

/-- Whether tables that stand in a relation answer a call alike and stand in it afterwards. -/
def Tracks (R : Store → Store → Prop) (c : Call) : Prop :=
  ∀ (a b a' : Store) (answer : c.Answer), R a b → a.answer? c = some (answer, a') →
    ∃ b', b.answer? c = some (answer, b') ∧ R a' b'

/-- Related tables stay related if a call fails or goes to another collaborator, too. -/
theorem Tracks.answers {R : Store → Store → Prop} (htracks : Tracks R c) {a b a' : Store}
    (hR : R a b) (h : a.Answers c answer a') : ∃ b', b.Answers c answer b' ∧ R a' b' := by
  cases h with
  | served hserved =>
    obtain ⟨b', hother, hR'⟩ := htracks a b a' answer hR hserved
    exact ⟨b', .served hother, hR'⟩
  | failed hfailed => exact ⟨b, .failed hfailed, hR⟩
  | elsewhere helsewhere =>
    refine ⟨b, .elsewhere ?_, hR⟩
    cases c with
    | generateKey | generateNonce | fetch | upload => rfl
    | _ => cases helsewhere

end Store

end TripArchive
