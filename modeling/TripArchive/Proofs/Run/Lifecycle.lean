import TripArchive.Proofs.Gzip.Stored
import TripArchive.Proofs.Run.Rows
import TripArchive.Proofs.Run.Schedule
import TripArchive.Proofs.Segment.Completion

/-!
# The lifecycle of a segment

The store refuses a second insertion and a second completion of a row, and a handler that succeeds
has made its write. So of all begin events of an identifier one at most succeeds, and of all its
complete events one at most, whatever stands between the reads and the writes of each.
-/

namespace TripArchive.Run

variable {processor : Processor} {run : Run}

/-- A begin event that succeeded has inserted its identifier. -/
theorem Reachable.inserts_of_begin (hrun : Reachable processor run) {i : Nat} {event : SegmentEvent}
    (hattempt : run.attempts[i]? = some ⟨.begin event, .done ()⟩) :
    ∃ entry ∈ run.log, entry.attempt = i ∧ entry.answered.inserts event.id = true := by
  obtain ⟨segment, hid, hmem⟩ := Processor.begin_done (hrun.path hattempt)
  exact ⟨_, mem_trace.mp hmem, rfl, by simp [Answered.inserts, hid]⟩

/-- A complete event that succeeded has closed its identifier. -/
theorem Reachable.closes_of_complete (hrun : Reachable processor run) {i : Nat}
    {event : SegmentEvent} (hattempt : run.attempts[i]? = some ⟨.complete event, .done ()⟩) :
    ∃ entry ∈ run.log, entry.attempt = i ∧ entry.answered.closes event.id = true := by
  obtain ⟨loaded, ⟨answered, hshown, hshows⟩, written, hmem⟩ :=
    Processor.complete_done (hrun.path hattempt)
  obtain ⟨row, hrow, hbecomes⟩ := hrun.shown (mem_trace.mp hshown) hshows
  have hid : loaded.id = event.id := by
    rw [← hbecomes.identity.1]
    exact Store.id_of_segment? hrow
  exact ⟨_, mem_trace.mp hmem, rfl, by simp [Answered.closes, hid]⟩

/-- The lifecycle of segments is safe in every reachable run: an identifier is inserted and closed
at most once, one begin event and one complete event of it at most succeed, and a row is never
removed, keeps what it is about, and once closed keeps everything. -/
theorem lifecycle_safe (hrun : Reachable processor run) :
    (∀ id, (run.log.countP fun entry => entry.answered.inserts id) ≤ 1 ∧
      (run.log.countP fun entry => entry.answered.closes id) ≤ 1) ∧
    (∀ (i j : Nat) (first second : SegmentEvent), first.id = second.id →
      run.attempts[i]? = some ⟨.complete first, .done ()⟩ →
      run.attempts[j]? = some ⟨.complete second, .done ()⟩ → i = j) ∧
    (∀ (i j : Nat) (first second : SegmentEvent), first.id = second.id →
      run.attempts[i]? = some ⟨.begin first, .done ()⟩ →
      run.attempts[j]? = some ⟨.begin second, .done ()⟩ → i = j) ∧
    ∀ (later : Run) (id : String) (row : Segment), Leads processor run later →
      run.store.segment? id = some row →
      ∃ kept, later.store.segment? id = some kept ∧ kept.id = row.id ∧
        kept.vehicleToken = row.vehicleToken ∧ kept.startTime = row.startTime ∧
        kept.startPosition = row.startPosition ∧ (row.isClosed = true → kept = row) := by
  refine ⟨hrun.once, ?_, ?_, ?_⟩
  · intro i j first second hid hfirst hsecond
    obtain ⟨a, ha, hi, hcloses⟩ := hrun.closes_of_complete hfirst
    obtain ⟨b, hb, hj, hother⟩ := hrun.closes_of_complete hsecond
    rw [← hi, ← hj, hrun.eq_of_closes _ ha hb hcloses (hid ▸ hother)]
  · intro i j first second hid hfirst hsecond
    obtain ⟨a, ha, hi, hinserts⟩ := hrun.inserts_of_begin hfirst
    obtain ⟨b, hb, hj, hother⟩ := hrun.inserts_of_begin hsecond
    rw [← hi, ← hj, hrun.eq_of_inserts _ ha hb hinserts (hid ▸ hother)]
  · intro later id row hleads hrow
    obtain ⟨kept, hkept, hbecomes⟩ := hleads.becomes hrow
    obtain ⟨hid, htoken, hstart, hposition⟩ := hbecomes.identity
    exact ⟨kept, hkept, hid, htoken, hstart, hposition, hbecomes.eq_of_isClosed⟩

/-- A processor that closes segments and archives nothing. -/
def offline : Processor := ⟨.stored, Signer.ofSeed (filled 0), ⟨false, false⟩⟩

/-- Two workers complete one segment: both find it missing, one inserts it and closes it between
the other's calls. -/
def race : List Move :=
  [.take mint, .reply 0 .tables, .take (.complete ride), .take (.complete ride),
    .reply 1 .tables, .reply 2 .tables, .reply 1 .tables, .reply 2 .tables, .reply 1 .tables,
    .reply 2 .tables, .reply 2 .tables, .reply 1 (.key (filled 1)),
    .reply 2 (.key (filled 2)), .reply 2 .tables,
    .reply 1 (.broken (.database "reset")), .take (.complete ride), .reply 3 .tables]

/-- In the race the second worker succeeds, the segment is closed once and its row is final. -/
theorem race_closes_once :
    (start.play offline race).attempts[2]? = some ⟨.complete ride, .done ()⟩ ∧
      ((start.play offline race).log.countP fun entry => entry.answered.closes "ride") ≤ 1 ∧
      ∃ row, (start.play offline race).store.segment? "ride" = some row ∧ row.isClosed = true ∧
        ∀ later, Leads offline (start.play offline race) later →
          later.store.segment? "ride" = some row := by
  have hsafe := lifecycle_safe (reachable_play offline race)
  refine ⟨rfl, (hsafe.1 "ride").2, _, rfl, rfl, ?_⟩
  intro later hleads
  obtain ⟨kept, hkept, _, _, _, _, hclosed⟩ := hsafe.2.2.2 later "ride" _ hleads rfl
  rw [hkept, hclosed rfl]

end TripArchive.Run
