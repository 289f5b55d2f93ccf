import TripArchive.Proofs.Gzip.Stored
import TripArchive.Proofs.Package.RoundTrip
import TripArchive.Proofs.Run.Attempts
import TripArchive.Proofs.Run.Schedule

/-!
# Items accepted for one segment

An item is uploaded before the row of its segment closes, and nothing is looked up in between. So a
completion whose closing call fails leaves its item in the archive, and the next delivery of the
event uploads another one. What holds is that of all items of a segment one at most comes from an
event that succeeded, which is the one the row points to.
-/

namespace TripArchive.Run

open Processor

/-- An item labelled with a segment was accepted from an attempt, at a place of the log. -/
def AcceptedAt (run : Run) (id : String) (place i : Nat) (item : Item) : Prop :=
  item.tag? "Segment-ID" = some id ∧
    ∃ receipt, run.log[place]? = some ⟨i, ⟨.upload item, .ok receipt⟩⟩

/-- What became of an item that was accepted from an attempt. -/
inductive Fate (run : Run) (id : String) (i : Nat) (item : Item) : Prop
  /-- The completion succeeded and the closed row points to the item. -/
  | pointed {event : SegmentEvent} {row : Segment}
      (hdone : run.attempts[i]? = some ⟨.complete event, .done ()⟩)
      (hrow : run.store.segment? id = some row) (hclosed : row.isClosed = true)
      (hpointer : row.archiveId = some item.id)
  /-- The call that was to close the row with the item failed, and the completion with it. -/
  | refused {event : SegmentEvent} {e : Store.Error} {written : Completion}
      (hfailed : run.attempts[i]? = some ⟨.complete event, .fail (.store e)⟩)
      (hwritten : written.archiveId = some item.id)
      (hanswer : ⟨i, ⟨.updateSegment id written, .error e⟩⟩ ∈ run.log)
  /-- The call that is to close the row with the item was not answered yet. -/
  | pending {event : SegmentEvent} {written : Completion}
      (hpending : run.attempts[i]? = some ⟨.complete event, Handler.updateSegment id written⟩)
      (hwritten : written.archiveId = some item.id)

variable {processor : Processor} {run later : Run} {id : String} {place other i j : Nat}
  {item copy : Item}

/-- An accepted item comes from a completion that was shown its segment open and has since closed
the row with it, or failed at that, or has not been answered. -/
theorem Reachable.accepted (hrun : Reachable processor run)
    (haccepted : AcceptedAt run id place i item) :
    ∃ event rest loaded written, run.attempts[i]? = some ⟨.complete event, rest⟩ ∧
      (∃ entry ∈ run.log, entry.attempt = i ∧ entry.answered.Shows id loaded) ∧
      loaded.isClosed = false ∧ written.archiveId = some item.id ∧
      (rest = Handler.updateSegment id written ∨
        ∃ closed, ⟨i, ⟨.updateSegment id written, closed⟩⟩ ∈ run.log ∧
          rest = Handler.ofExcept .store closed) := by
  obtain ⟨hlabel, receipt, hplace⟩ := haccepted
  have hmem := List.mem_of_getElem? hplace
  obtain ⟨event, rest, hattempt, hcompleting⟩ := hrun.completing .upload hmem rfl
  obtain ⟨finish, loaded, segment, key, raw, nonce, ⟨answered, hshown, hshows⟩, hopen, hid, _,
    hpack, hrest⟩ := hcompleting.uploaded (mem_trace.mpr hmem)
  have hsegment : segment.id = id := by
    have htag := (Package.tag?_of_pack hpack).2.1
    rw [hlabel] at htag
    cases htag
    rfl
  obtain ⟨row, hrow, hbecomes⟩ := hrun.shown (mem_trace.mp hshown) hshows
  have hevent : event.id = id := by
    rw [← Store.id_of_segment? hrow, hbecomes.identity.1, ← hid, hsegment]
  refine ⟨event, rest, loaded, completion finish segment key (some item.id), hattempt,
    ⟨_, mem_trace.mp hshown, rfl, hevent ▸ hshows⟩, hopen, rfl, ?_⟩
  rcases hrest with ⟨e, he, _⟩ | ⟨_, hpending | ⟨closed, hclosed, hdone⟩⟩
  · cases he
  · exact Or.inl (hsegment ▸ hpending)
  · exact Or.inr ⟨closed, hsegment ▸ mem_trace.mp hclosed, hdone⟩

/-- An accepted item of a completion that succeeded is the one the closed row points to. -/
theorem Reachable.pointer_of_accepted (hrun : Reachable processor run) {event : SegmentEvent}
    (haccepted : AcceptedAt run id place i item)
    (hdone : run.attempts[i]? = some ⟨.complete event, .done ()⟩) :
    (∃ written, ⟨i, ⟨.updateSegment id written, .ok ()⟩⟩ ∈ run.log) ∧
      ∃ row, run.store.segment? id = some row ∧ row.isClosed = true ∧
        row.archiveId = some item.id := by
  obtain ⟨_, rest, _, written, hattempt, _, _, hwritten, hrest⟩ := hrun.accepted haccepted
  rw [hdone] at hattempt
  cases hattempt
  rcases hrest with hpending | ⟨closed, hclosed, hanswer⟩
  · cases hpending
  · cases closed with
    | error e => cases hanswer
    | ok =>
      obtain ⟨inserted, hrow⟩ := hrun.row_of_closes hclosed
      exact ⟨⟨written, hclosed⟩, _, hrow, rfl, hwritten⟩

/-- An attempt has one accepted item at most. -/
theorem Reachable.eq_of_accepted (hrun : Reachable processor run) {label : String}
    (hfirst : AcceptedAt run id place i item) (hsecond : AcceptedAt run label other i copy) :
    place = other := by
  obtain ⟨_, receipt, hplace⟩ := hfirst
  obtain ⟨_, receipt', hother⟩ := hsecond
  exact hrun.eq_of_phase .upload hplace hother rfl rfl

/-- Two accepted items of one segment whose events both succeeded are one. -/
theorem Reachable.eq_of_accepted_done (hrun : Reachable processor run)
    {first second : SegmentEvent} (hfirst : AcceptedAt run id place i item)
    (hsecond : AcceptedAt run id other j copy)
    (hdone : run.attempts[i]? = some ⟨.complete first, .done ()⟩)
    (hdone' : run.attempts[j]? = some ⟨.complete second, .done ()⟩) : place = other := by
  obtain ⟨⟨written, hclosed⟩, _⟩ := hrun.pointer_of_accepted hfirst hdone
  obtain ⟨⟨written', hclosed'⟩, _⟩ := hrun.pointer_of_accepted hsecond hdone'
  have hentry := hrun.eq_of_closes id hclosed hclosed' (by simp [Answered.closes])
    (by simp [Answered.closes])
  have hattempt : i = j := congrArg Entry.attempt hentry
  subst hattempt
  exact hrun.eq_of_accepted hfirst hsecond

/-- An accepted item belongs to the closed row, or its completion failed at the closing call, or
stands at it. -/
theorem Reachable.fate_of_accepted (hrun : Reachable processor run)
    (haccepted : AcceptedAt run id place i item) : Fate run id i item := by
  obtain ⟨event, rest, _, written, hattempt, _, _, hwritten, hrest⟩ := hrun.accepted haccepted
  rcases hrest with rfl | ⟨closed, hclosed, rfl⟩
  · exact .pending hattempt hwritten
  · cases closed with
    | error e => exact .refused hattempt hwritten hclosed
    | ok =>
      obtain ⟨_, row, hrow, hrowClosed, hpointer⟩ := hrun.pointer_of_accepted haccepted hattempt
      exact .pointed hattempt hrow hrowClosed hpointer

/-- No completion that is taken up after a row closed has an item of it accepted. -/
theorem Reachable.not_accepted_of_closed (hrun : Reachable processor run) {row : Segment}
    (hrow : run.store.segment? id = some row) (hclosed : row.isClosed = true)
    (hleads : Leads processor run later) (htaken : run.attempts.length ≤ i) :
    ¬ AcceptedAt later id place i item := by
  intro haccepted
  obtain ⟨_, _, loaded, _, _, ⟨entry, hmem, rfl, hshows⟩, hopen, _⟩ :=
    (hrun.leads hleads).accepted haccepted
  rw [hleads.shown_closed hrun hrow hclosed hmem htaken hshows, hclosed] at hopen
  cases hopen

/-- The items accepted for one segment in a reachable run: an attempt has one at most; of the events
that succeeded one at most has one, and the closed row points to it; any other is of a completion
that failed at its closing call or stands at it; and none is of a completion taken up after the row
had closed. -/
theorem accepted_once_by_success (hrun : Reachable processor run) :
    (∀ id label place other i item copy, AcceptedAt run id place i item →
      AcceptedAt run label other i copy → place = other) ∧
    (∀ id place other i j item copy first second, AcceptedAt run id place i item →
      AcceptedAt run id other j copy →
      run.attempts[i]? = some ⟨.complete first, .done ()⟩ →
      run.attempts[j]? = some ⟨.complete second, .done ()⟩ → place = other) ∧
    (∀ id place i item, AcceptedAt run id place i item → Fate run id i item) ∧
    ∀ (later : Run) (id : String) (row : Segment), run.store.segment? id = some row →
      row.isClosed = true → Leads processor run later →
      ∀ place i item, run.attempts.length ≤ i → ¬ AcceptedAt later id place i item := by
  refine ⟨?_, ?_, ?_, ?_⟩
  · intro id label place other i item copy hfirst hsecond
    exact hrun.eq_of_accepted hfirst hsecond
  · intro id place other i j item copy first second hfirst hsecond hdone hdone'
    exact hrun.eq_of_accepted_done hfirst hsecond hdone hdone'
  · intro id place i item haccepted
    exact hrun.fate_of_accepted haccepted
  · intro later id row hrow hclosed hleads place i item htaken
    exact hrun.not_accepted_of_closed hrow hclosed hleads htaken

/-- A processor that fetches and uploads. -/
def uploader : Processor := ⟨.stored, Signer.ofSeed (filled 0), ⟨true, true⟩⟩

/-- The answers to a completion from its key on, up to the accepted upload. -/
def archived (i : Nat) (seed : UInt8) : List Move :=
  [.reply i (.key (filled seed)), .reply i (.telemetry (.ok [1, 2, 3])),
    .reply i (.nonce (filled seed)), .reply i (.archive (.ok .blank))]

/-- A completion whose closing call fails is delivered again. -/
def redelivery : List Move :=
  [.take mint, .reply 0 .tables, .take (.complete ride), .reply 1 .tables, .reply 1 .tables,
    .reply 1 .tables] ++ archived 1 1 ++ [.reply 1 (.broken (.database "reset")),
    .take (.complete ride), .reply 2 .tables] ++ archived 2 2 ++ [.reply 2 .tables]

/-- The failed completion is left for another delivery, and that one has a second item accepted for
the same segment. -/
theorem redelivery_archives_twice :
    Reachable uploader (start.play uploader redelivery) ∧
      (start.play uploader redelivery).attempts[1]? =
        some ⟨.complete ride, .fail (.store (.database "reset"))⟩ ∧
      SegmentError.settles (.error (.store (.database "reset"))) = false ∧
      ∃ first second,
        AcceptedAt (start.play uploader redelivery) "ride" 7 1 first ∧
          AcceptedAt (start.play uploader redelivery) "ride" 13 2 second := by
  refine ⟨reachable_play uploader redelivery, rfl, rfl, ?_⟩
  refine ⟨_, _, ⟨?_, _, rfl⟩, ?_, _, rfl⟩
  · rfl
  · rfl

/-- Of the two items of a redelivery the second belongs to the closed row. -/
theorem redelivery_points_to_second :
    ∃ item row, AcceptedAt (start.play uploader redelivery) "ride" 13 2 item ∧
      (start.play uploader redelivery).store.segment? "ride" = some row ∧ row.isClosed = true ∧
      row.archiveId = some item.id := by
  have hsecond : ∃ item, AcceptedAt (start.play uploader redelivery) "ride" 13 2 item := by
    refine ⟨_, ?_, _, rfl⟩
    rfl
  obtain ⟨item, haccepted⟩ := hsecond
  have hdone : (start.play uploader redelivery).attempts[2]? = some ⟨.complete ride, .done ()⟩ :=
    rfl
  cases (accepted_once_by_success (reachable_play uploader redelivery)).2.2.1 _ _ _ _ haccepted with
  | pointed _ hrow hclosed hpointer => exact ⟨item, _, haccepted, hrow, hclosed, hpointer⟩
  | refused hfailed _ _ =>
    rw [hdone] at hfailed
    cases hfailed
  | pending hpending _ =>
    rw [hdone] at hpending
    cases hpending

end TripArchive.Run
