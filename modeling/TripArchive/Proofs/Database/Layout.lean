import TripArchive.Proofs.Database.Row
import TripArchive.Proofs.Store.Tables

/-!
# Tables of the database and of the store

Where the rows store the segments of a store in turn, a query and an update are answered as the
store answers, and the rows store the segments of the store that is left (`tables_follow_store`).
The one difference is the clock of the database, on which a time within a leap second counts on.
-/

namespace TripArchive

namespace Database

section Keyed

variable {store : Store} {id : String}

/-- In tables kept by key a segment is open if the one found by its identifier is. -/
theorem any_isOpenAs_iff (h : store.Keyed) :
    store.segments.any (Segment.isOpenAs id) = true ↔
      ∃ row, store.segment? id = some row ∧ row.isClosed = false := by
  rw [List.any_eq_true]
  constructor
  · rintro ⟨row, hmem, hopenAs⟩
    obtain ⟨rfl, hopen⟩ := Segment.isOpenAs_iff.mp hopenAs
    exact ⟨row, h.segment?_of_mem hmem, hopen⟩
  · rintro ⟨row, hrow, hopen⟩
    exact ⟨row, Store.mem_of_segment? hrow,
      Segment.isOpenAs_iff.mpr ⟨Store.id_of_segment? hrow, hopen⟩⟩

/-- Closing a segment completes the open ones with its identifier, of which there is one. -/
theorem closeSegment_of_open (h : store.Keyed) (completion : Completion)
    (hany : store.segments.any (Segment.isOpenAs id) = true) :
    store.closeSegment id completion =
      .ok { store with segments := store.segments.map fun segment =>
        if segment.isOpenAs id then segment.complete completion else segment } := by
  obtain ⟨row, hrow, hopen⟩ := (any_isOpenAs_iff h).mp hany
  have hmap : (store.segments.map fun segment =>
        if segment.id = id then segment.complete completion else segment) =
      store.segments.map fun segment =>
        if segment.isOpenAs id then segment.complete completion else segment := by
    refine List.map_congr_left fun segment hmem => ?_
    by_cases hid : segment.id = id
    · subst hid
      have hsame : some segment = some row := (h.segment?_of_mem hmem).symm.trans hrow
      cases hsame
      rw [if_pos rfl, if_pos (Segment.isOpenAs_iff.mpr ⟨rfl, hopen⟩)]
    · rw [if_neg hid, if_neg fun hopenAs => hid (Segment.isOpenAs_iff.mp hopenAs).1]
  simp [Store.closeSegment, hrow, hopen, hmap]

/-- Closing a segment is refused if none is open with its identifier. -/
theorem closeSegment_of_closed (h : store.Keyed) (completion : Completion)
    (hclosed : ¬ store.segments.any (Segment.isOpenAs id) = true) :
    store.closeSegment id completion = .error (.notOpen id) := by
  unfold Store.closeSegment
  split
  · rfl
  · next row hrow =>
    refine if_pos (Bool.of_not_eq_false fun hopen => ?_)
    exact hclosed ((any_isOpenAs_iff h).mpr ⟨row, hrow, hopen⟩)

/-- In tables kept by key, closing a segment completes the open ones with its identifier, and is
refused if there is none. -/
theorem after_closeSegment (h : store.Keyed) (id : String) (completion : Completion) :
    store.after (store.closeSegment id completion) =
      (if store.segments.any (Segment.isOpenAs id) then .ok () else .error (.notOpen id),
      { store with segments := store.segments.map fun segment =>
          if segment.isOpenAs id then segment.complete completion else segment }) := by
  by_cases hopen : store.segments.any (Segment.isOpenAs id) = true
  · rw [closeSegment_of_open h completion hopen, if_pos hopen]
    rfl
  · have hsame : (store.segments.map fun segment =>
        if segment.isOpenAs id then segment.complete completion else segment) = store.segments := by
      refine (List.map_congr_left fun segment hmem => if_neg fun hopenAs => ?_).trans
        (List.map_id _)
      exact hopen (List.any_eq_true.mpr ⟨segment, hmem, hopenAs⟩)
    rw [closeSegment_of_closed h completion hopen, if_neg hopen, hsame]
    rfl

end Keyed

/-- The rows of a table store the segments of a store in turn. -/
def Mirrors (rows : List Row) (store : Store) : Prop := List.Forall₂ Row.Stores rows store.segments

section Mirrors

variable {rows : List Row} {store : Store}

/-- A query for an identifier is answered with the segment of the store. -/
theorem answer?_selectSegment (h : Mirrors rows store)
    (hmicros : ∀ segment ∈ store.segments, segment.WholeMicros) (id : String) :
    ((selectSegment id).answer? rows).map segmentRead =
      some (.ok ((store.segment? id).map Segment.countedOn)) := by
  show some (segmentRead (.rows ((rows.filter (selectSegment id).meets).map
    (Statement.readRow segmentOutputs)))) = _
  congr 1
  obtain ⟨vehicles, segments⟩ := store
  unfold Mirrors at h
  unfold Store.segment?
  dsimp only at h hmicros ⊢
  induction h with
  | nil => rfl
  | @cons row segment rows segments hrow hrows ih =>
    by_cases hid : segment.id = id
    · have hread := segmentOf?_readRow hrow (hmicros segment List.mem_cons_self)
      rw [List.filter_cons_of_pos (by simp [meets_selectSegment hrow, hid]), List.map_cons,
        segmentRead, firstOf, hread]
      simp [hid]
    · rw [List.filter_cons_of_neg (by simp [meets_selectSegment hrow, hid]),
        ih fun segment hmem => hmicros segment (List.mem_cons_of_mem _ hmem)]
      simp [hid]

/-- The update of a segment is answered like its closing in the store. -/
theorem answer?_updateSegment (h : Mirrors rows store) (hkeyed : store.Keyed) (id : String)
    (completion : Completion) :
    ((updateSegment id completion).answer? rows).map (segmentClosed id) =
      some (store.after (store.closeSegment id completion)).1 := by
  rw [after_closeSegment hkeyed]
  show some (segmentClosed id (.affected (rows.countP (updateSegment id completion).meets))) = _
  congr 1
  dsimp only
  have hcount : rows.countP (updateSegment id completion).meets =
      store.segments.countP (Segment.isOpenAs id) := by
    unfold Mirrors at h
    generalize store.segments = segments at h ⊢
    induction h with
    | nil => rfl
    | cons hrow _ ih => rw [List.countP_cons, List.countP_cons, meets_updateSegment hrow, ih]
  rw [segmentClosed, hcount]
  by_cases hany : store.segments.any (Segment.isOpenAs id) = true
  · have hsome := List.countP_pos_iff.mpr (List.any_eq_true.mp hany)
    rw [if_pos hany, if_neg (by omega)]
  · have hnone := List.countP_eq_zero.mpr (List.any_eq_false.mp ((Bool.not_eq_true _).mp hany))
    rw [if_neg hany, if_pos hnone]

/-- The update of a segment leaves the rows of the store in which it is closed. -/
theorem mirrors_updateSegment (h : Mirrors rows store) (hkeyed : store.Keyed) (id : String)
    (completion : Completion) :
    Mirrors (rows.map (updateSegment id completion).changed)
      (store.after (store.closeSegment id completion)).2 := by
  rw [after_closeSegment hkeyed]
  refine List.rel_map (fun row segment hrow => ?_) h
  split
  · next hopen => exact stores_changed hrow hopen
  · next hkept =>
    have hmeets : (updateSegment id completion).meets row = false := by
      rw [meets_updateSegment hrow]
      exact (Bool.not_eq_true _).mp hkept
    unfold Command.changed
    rw [hmeets]
    exact hrow

/-- The times in the store after a segment is closed are those before and the end. -/
theorem wholeMicros_closeSegment (hkeyed : store.Keyed)
    (hmicros : ∀ segment ∈ store.segments, segment.WholeMicros) {completion : Completion}
    (hend : completion.endTime.WholeMicros) (id : String) :
    ∀ segment ∈ (store.after (store.closeSegment id completion)).2.segments,
      segment.WholeMicros := by
  rw [after_closeSegment hkeyed]
  intro segment hmem
  obtain ⟨before, hbefore, rfl⟩ := List.mem_map.mp hmem
  split
  · exact (hmicros before hbefore).complete hend
  · exact hmicros before hbefore

end Mirrors

/-- The tables of the database follow the store. Of any segment with times in whole microseconds a
row is added that is read as the segment; and where the rows store the segments of a store, the
update of one is answered as its closing in the store is, and afterwards every query is answered
with the segment that the store then has. A time is read on a clock without leap seconds, so that
a segment is read as it was exactly if none of its times is within one. -/
theorem tables_follow_store :
    (∀ segment : Segment, segment.WholeMicros →
      ∃ row, (insertSegment segment).added? = some row ∧ row.Stores segment ∧
        ((selectSegment segment.id).answer? [row]).map segmentRead =
          some (.ok (some segment.countedOn))) ∧
    (∀ (store : Store) (rows : List Row) (id : String) (completion : Completion),
      store.Keyed → Mirrors rows store → (∀ segment ∈ store.segments, segment.WholeMicros) →
      completion.endTime.WholeMicros →
      ((updateSegment id completion).answer? rows).map (segmentClosed id) =
        some (store.after (store.closeSegment id completion)).1 ∧
      ∀ other, ((selectSegment other).answer?
          (rows.map (updateSegment id completion).changed)).map segmentRead =
        some (.ok (((store.after (store.closeSegment id completion)).2.segment? other).map
          Segment.countedOn))) ∧
    ∀ segment : Segment, segment.countedOn = segment ↔ ∀ t ∈ segment.times, ¬ t.InLeapSecond := by
  refine ⟨?_, ?_, fun _ => Segment.countedOn_eq_self_iff⟩
  · intro segment hmicros
    have hadded : (insertSegment segment).added? =
        some (Statement.newRow segmentColumns (segmentParams segment)) := rfl
    have hstores := stores_added hadded
    have hmirrors : Mirrors [Statement.newRow segmentColumns (segmentParams segment)]
        ⟨[], [segment]⟩ := .cons hstores .nil
    have hread := answer?_selectSegment hmirrors (by simpa using hmicros) segment.id
    refine ⟨_, hadded, hstores, hread.trans ?_⟩
    simp [Store.segment?]
  · intro store rows id completion hkeyed hmirrors hmicros hend
    refine ⟨answer?_updateSegment hmirrors hkeyed id completion, ?_⟩
    exact answer?_selectSegment (mirrors_updateSegment hmirrors hkeyed id completion)
      (wholeMicros_closeSegment hkeyed hmicros hend id)

/-- A ride that has begun at a known place. -/
def begun : Segment :=
  { Segment.opened "ride" 7 ⟨1683190800, 250000000⟩ with startPosition := some ⟨40.74, -73.98⟩ }

/-- How the ride ends: elsewhere, with a key and without an archived item. -/
def ended : Completion :=
  ⟨⟨1683194400, 999999000⟩, some ⟨33.85, -118.39⟩, none, false, List.replicate 32 1, none⟩

/-- The ride is read from its row as it began, and after the update as it ended. -/
theorem begun_ends :
    ∃ row, (insertSegment begun).added? = some row ∧
      ((selectSegment "ride").answer? [row]).map segmentRead = some (.ok (some begun)) ∧
      ((selectSegment "ride").answer? [(updateSegment "ride" ended).changed row]).map segmentRead =
        some (.ok (some (begun.complete ended))) := by
  have hmicros : begun.WholeMicros := by
    intro t hmem
    rw [List.mem_singleton.mp hmem]
    decide
  obtain ⟨row, hadded, hstores, hread⟩ := tables_follow_store.1 begun hmicros
  have hkeyed : Store.Keyed ⟨[⟨7, "device"⟩], [begun]⟩ :=
    ⟨by decide, by decide, by decide, by decide⟩
  have hclosed := (tables_follow_store.2.1 ⟨[⟨7, "device"⟩], [begun]⟩ [row] "ride" ended hkeyed
    (.cons hstores .nil) (by simpa using hmicros) (by decide)).2 "ride"
  exact ⟨row, hadded, hread, hclosed⟩

/-- A ride that begins half a second into the leap second at the end of 2016 is read from its row
as one that begins half a second into 2017. -/
theorem leap_second_not_stored :
    (Segment.opened "ride" 7 ⟨1483228799, 1500000000⟩).WholeMicros ∧
    ((insertSegment (Segment.opened "ride" 7 ⟨1483228799, 1500000000⟩)).added?.bind fun row =>
        ((selectSegment "ride").answer? [row]).map segmentRead) =
      some (.ok (some (Segment.opened "ride" 7 ⟨1483228800, 500000000⟩))) ∧
    Segment.opened "ride" 7 ⟨1483228800, 500000000⟩ ≠
      Segment.opened "ride" 7 ⟨1483228799, 1500000000⟩ := by
  refine ⟨?_, by rfl, by decide⟩
  intro t hmem
  rw [List.mem_singleton.mp hmem]
  decide

end Database

end TripArchive
