import TripArchive.Store

/-!
# The segment that ended last

The tables are searched for the previous segment of a vehicle by comparing ends one after the other.
What is found ended last: it is closed, and no closed segment of the vehicle has a later end
(`endedLast_of_prior?`). If no two of them have the same end, it is the only one of which this holds
(`EndedLast.prior?_eq`). Which of several is found that ended at once is up to a `TieBreak`.
-/

namespace TripArchive

namespace Instant

variable {r s t : Instant}

/-- The order of moments by their parts. -/
theorem le_iff : le s t = true ↔
    s.seconds < t.seconds ∨ s.seconds = t.seconds ∧ s.nanos ≤ t.nanos := by
  simp only [le, lt, Bool.not_eq_true', Bool.or_eq_false_iff, Bool.and_eq_false_iff,
    decide_eq_false_iff_not, beq_eq_false_iff_ne]
  omega

theorem le_refl (t : Instant) : le t t = true := le_iff.mpr (by omega)

theorem le_trans (hfirst : le r s = true) (hsecond : le s t = true) : le r t = true := by
  rw [le_iff] at hfirst hsecond ⊢
  omega

/-- Of two moments one is not after the other. -/
theorem le_total (s t : Instant) : le s t = true ∨ le t s = true := by
  rw [le_iff, le_iff]
  omega

theorem le_antisymm (hfirst : le s t = true) (hsecond : le t s = true) : s = t := by
  rw [le_iff] at hfirst hsecond
  have hseconds : s.seconds = t.seconds := by omega
  have hnanos : s.nanos = t.nanos := by omega
  cases s
  cases t
  cases hseconds
  cases hnanos
  rfl

end Instant

namespace Store

variable {store : Store} {token : Int} {row other best : Segment} {finish : Instant}

/-- A closed segment of a vehicle that no segment of the vehicle ended after. -/
structure EndedLast (store : Store) (token : Int) (row : Segment) (finish : Instant) : Prop where
  listed : row ∈ store.segments
  vehicle : row.vehicleToken = token
  ended : row.endTime = some finish
  last : ∀ other ∈ store.segments, other.vehicleToken = token →
    ∀ ended, other.endTime = some ended → Instant.le ended finish = true

/-- No segment of a vehicle has ended. -/
def NoneEnded (store : Store) (token : Int) : Prop :=
  ∀ row ∈ store.segments, row.vehicleToken = token → row.isClosed = false

/-- No two closed segments of a vehicle have the same end. -/
def DistinctEnds (store : Store) (token : Int) : Prop :=
  ∀ row ∈ store.segments, ∀ other ∈ store.segments, row.vehicleToken = token →
    other.vehicleToken = token → row.isClosed = true → row.endTime = other.endTime → row = other

/-- A closed segment has an end. -/
theorem exists_endTime_of_isClosed (h : row.isClosed = true) :
    ∃ finish, row.endTime = some finish := Option.isSome_iff_exists.mp h

/-- A segment with an end is closed. -/
theorem isClosed_of_endTime (h : row.endTime = some finish) : row.isClosed = true := by
  rw [Segment.isClosed, h]
  rfl

/-- Of two segments the one is chosen whose end is not before the other's. -/
theorem later_cases {s t : Instant} (hrow : row.endTime = some s)
    (hother : other.endTime = some t) :
    later row other = row ∧ Instant.le t s = true ∨
      later row other = other ∧ Instant.le s t = true := by
  unfold later
  rw [hrow, hother]
  dsimp only
  split
  · next hlt =>
    have hle : Instant.le s t = false := by rw [Instant.le, hlt]; rfl
    have htotal := Instant.le_total s t
    rw [hle] at htotal
    exact Or.inl ⟨rfl, htotal.resolve_left (by simp)⟩
  · next hlt => exact Or.inr ⟨rfl, by simp [Instant.le, hlt]⟩

/-- Whether a segment of a list ended, and none of the list ended after it. -/
def IsLatest (rows : List Segment) (row : Segment) : Prop :=
  row ∈ rows ∧ ∃ finish, row.endTime = some finish ∧
    ∀ other ∈ rows, ∀ ended, other.endTime = some ended → Instant.le ended finish = true

/-- The later of two segments may stand for both. -/
theorem IsLatest.of_later {rows : List Segment} (hbest : best.isClosed = true)
    (hother : other.isClosed = true) (h : IsLatest (later best other :: rows) row) :
    IsLatest (best :: other :: rows) row := by
  obtain ⟨s, hs⟩ := exists_endTime_of_isClosed hbest
  obtain ⟨t, ht⟩ := exists_endTime_of_isClosed hother
  obtain ⟨hmem, finish, hfinish, hlast⟩ := h
  have hrest : ∀ third ∈ rows, ∀ ended, third.endTime = some ended →
      Instant.le ended finish = true :=
    fun third hthird => hlast third (List.mem_cons_of_mem _ hthird)
  -- The chosen one bounds the other, and the latest of the rest bounds the chosen one.
  rcases later_cases hs ht with ⟨hchosen, hle⟩ | ⟨hchosen, hle⟩
  · rw [hchosen] at hmem hlast
    have hbound : Instant.le s finish = true := hlast best List.mem_cons_self s hs
    refine ⟨?_, finish, hfinish, ?_⟩
    · rcases List.mem_cons.mp hmem with rfl | hin
      · exact List.mem_cons_self
      · exact List.mem_cons_of_mem _ (List.mem_cons_of_mem _ hin)
    · rw [List.forall_mem_cons, List.forall_mem_cons]
      refine ⟨hlast best List.mem_cons_self, fun ended hended => ?_, hrest⟩
      rw [ht] at hended
      cases hended
      exact Instant.le_trans hle hbound
  · rw [hchosen] at hmem hlast
    have hbound : Instant.le t finish = true := hlast other List.mem_cons_self t ht
    refine ⟨List.mem_cons_of_mem _ hmem, finish, hfinish, ?_⟩
    rw [List.forall_mem_cons, List.forall_mem_cons]
    refine ⟨fun ended hended => ?_, hlast other List.mem_cons_self, hrest⟩
    rw [hs] at hended
    cases hended
    exact Instant.le_trans hle hbound

/-- Of two closed segments a closed one is chosen. -/
theorem isClosed_later (hbest : best.isClosed = true) (hother : other.isClosed = true) :
    (later best other).isClosed = true := by
  obtain ⟨s, hs⟩ := exists_endTime_of_isClosed hbest
  obtain ⟨t, ht⟩ := exists_endTime_of_isClosed hother
  rcases later_cases hs ht with ⟨hchosen, _⟩ | ⟨hchosen, _⟩
  · rwa [hchosen]
  · rwa [hchosen]

/-- One step of the search. -/
def searchStep (best : Option Segment) (segment : Segment) : Option Segment :=
  some (best.elim segment fun best => later best segment)

/-- The search from a closed segment on finds the latest. -/
theorem isLatest_search {rows : List Segment} (hrows : ∀ row ∈ rows, row.isClosed = true)
    (hbest : best.isClosed = true) :
    ∃ row, rows.foldl searchStep (some best) = some row ∧ IsLatest (best :: rows) row := by
  induction rows generalizing best with
  | nil =>
    obtain ⟨finish, hfinish⟩ := exists_endTime_of_isClosed hbest
    refine ⟨best, rfl, List.mem_cons_self, finish, hfinish, ?_⟩
    intro other hother ended hended
    rw [List.mem_singleton.mp hother, hfinish] at hended
    cases hended
    exact Instant.le_refl finish
  | cons segment rows ih =>
    obtain ⟨hsegment, hrest⟩ := List.forall_mem_cons.mp hrows
    obtain ⟨row, hfound, hlatest⟩ := ih hrest (isClosed_later hbest hsegment)
    exact ⟨row, hfound, hlatest.of_later hbest hsegment⟩

/-- The closed segments of a vehicle. -/
def closedRows (store : Store) (token : Int) : List Segment :=
  store.segments.filter fun segment => segment.vehicleToken = token && segment.isClosed

theorem mem_closedRows : row ∈ store.closedRows token ↔
    row ∈ store.segments ∧ row.vehicleToken = token ∧ row.isClosed = true := by
  simp [closedRows]

/-- The previous segment is searched among the closed segments of the vehicle. -/
theorem prior?_eq (store : Store) (token : Int) :
    store.prior? token = (store.closedRows token).foldl searchStep none := rfl

/-- The previous segment of a vehicle depends on its closed segments only. -/
theorem prior?_congr {later : Store} (h : later.closedRows token = store.closedRows token) :
    later.prior? token = store.prior? token := by
  rw [prior?_eq, prior?_eq, h]

/-- A way to find the latest of some closed segments, which it is told in the order in which they
were inserted. Of several that ended at once it may choose any. -/
structure TieBreak where
  choose : List Segment → Option Segment
  nothing : choose [] = none
  latest : ∀ rows, rows ≠ [] → (∀ row ∈ rows, row.isClosed = true) →
    ∃ row, choose rows = some row ∧ IsLatest rows row

namespace TieBreak

/-- The search chooses the segment that was inserted last. -/
def lastInserted : TieBreak where
  choose := List.foldl searchStep none
  nothing := rfl
  latest rows hsome hclosed := by
    obtain ⟨first, rest, rfl⟩ := List.exists_cons_of_ne_nil hsome
    obtain ⟨hfirst, hrest⟩ := List.forall_mem_cons.mp hclosed
    exact isLatest_search hrest hfirst

/-- The previous segment of a vehicle, as a tie-break finds it. -/
def prior? (ties : TieBreak) (store : Store) (token : Int) : Option Segment :=
  ties.choose (store.closedRows token)

/-- Either no segment of a vehicle has ended and none is found, or the latest is found. -/
theorem prior?_cases (ties : TieBreak) (store : Store) (token : Int) :
    ties.prior? store token = none ∧ store.NoneEnded token ∨
      ∃ row, ties.prior? store token = some row ∧ IsLatest (store.closedRows token) row := by
  unfold prior?
  by_cases hrows : store.closedRows token = []
  · refine Or.inl ⟨hrows ▸ ties.nothing, fun row hmem hvehicle => ?_⟩
    refine Bool.eq_false_iff.mpr fun hrow => ?_
    have hlisted := mem_closedRows.mpr ⟨hmem, hvehicle, hrow⟩
    rw [hrows] at hlisted
    cases hlisted
  · exact Or.inr (ties.latest _ hrows fun row hmem => (mem_closedRows.mp hmem).2.2)

end TieBreak

/-- Either no segment of a vehicle has ended and none is found, or the latest is found. -/
theorem prior?_cases (store : Store) (token : Int) :
    store.prior? token = none ∧ store.NoneEnded token ∨
      ∃ row, store.prior? token = some row ∧ IsLatest (store.closedRows token) row :=
  TieBreak.lastInserted.prior?_cases store token

/-- The latest of the closed segments of a vehicle ended last. -/
theorem endedLast_of_isLatest (h : IsLatest (store.closedRows token) row) :
    ∃ finish, store.EndedLast token row finish := by
  obtain ⟨hmem, finish, hfinish, hlast⟩ := h
  obtain ⟨hlisted, hvehicle, _⟩ := mem_closedRows.mp hmem
  refine ⟨finish, hlisted, hvehicle, hfinish, fun other hother htoken ended hended => ?_⟩
  exact hlast other (mem_closedRows.mpr ⟨hother, htoken, isClosed_of_endTime hended⟩) ended hended

/-- A segment that ended last is no witness of none having ended. -/
theorem EndedLast.not_noneEnded (h : store.EndedLast token row finish) :
    ¬ store.NoneEnded token := by
  intro hnone
  have hopen := hnone row h.listed h.vehicle
  rw [isClosed_of_endTime h.ended] at hopen
  cases hopen

/-- No segment is found exactly if none of the vehicle has ended. -/
theorem prior?_eq_none_iff : store.prior? token = none ↔ store.NoneEnded token := by
  rcases prior?_cases store token with ⟨hnone, hended⟩ | ⟨row, hfound, hlatest⟩
  · exact ⟨fun _ => hended, fun _ => hnone⟩
  · obtain ⟨finish, hlast⟩ := endedLast_of_isLatest hlatest
    rw [hfound]
    exact ⟨nofun, fun hended => absurd hended hlast.not_noneEnded⟩

/-- What is found ended last. -/
theorem endedLast_of_prior? (h : store.prior? token = some row) :
    ∃ finish, store.EndedLast token row finish := by
  rcases prior?_cases store token with ⟨hnone, _⟩ | ⟨found, hfound, hlatest⟩
  · rw [hnone] at h
    cases h
  · rw [hfound] at h
    cases h
    exact endedLast_of_isLatest hlatest

/-- Only one segment ended last if no two have the same end. -/
theorem EndedLast.unique (hdistinct : store.DistinctEnds token) {finish' : Instant}
    (h : store.EndedLast token row finish) (hother : store.EndedLast token other finish') :
    row = other := by
  have hsame : finish = finish' := Instant.le_antisymm
    (hother.last row h.listed h.vehicle finish h.ended)
    (h.last other hother.listed hother.vehicle finish' hother.ended)
  apply hdistinct row h.listed other hother.listed h.vehicle hother.vehicle
    (isClosed_of_endTime h.ended)
  rw [h.ended, hother.ended, hsame]

/-- The segment that ended last is found if no two have the same end. -/
theorem EndedLast.prior?_eq (h : store.EndedLast token row finish)
    (hdistinct : store.DistinctEnds token) : store.prior? token = some row := by
  cases hfound : store.prior? token with
  | none => exact absurd (prior?_eq_none_iff.mp hfound) h.not_noneEnded
  | some found =>
    obtain ⟨finish', hlast⟩ := endedLast_of_prior? hfound
    rw [hlast.unique hdistinct h]

/-- If no two segments of a vehicle have the same end, every tie-break finds the same one. -/
theorem TieBreak.prior?_eq (ties : TieBreak) (hdistinct : store.DistinctEnds token) :
    ties.prior? store token = store.prior? token := by
  rcases ties.prior?_cases store token with ⟨hnone, hended⟩ | ⟨row, hfound, hlatest⟩
  · rw [hnone, prior?_eq_none_iff.mpr hended]
  · obtain ⟨finish, hlast⟩ := endedLast_of_isLatest hlatest
    rw [hfound, hlast.prior?_eq hdistinct]

end Store

end TripArchive
