import TripArchive.Proofs.Gzip.Stored
import TripArchive.Proofs.Package.RoundTrip
import TripArchive.Proofs.Run.Attempts
import TripArchive.Proofs.Run.Schedule

/-!
# What an archive pointer promises

The key, the item and the range of telemetry of a closed row come from one attempt, since one
conditional update writes them together. So whoever follows the pointer of a row finds the item
that was accepted before the row closed, and opens it with the key in the row.
-/

namespace TripArchive.Run

open Processor

variable {processor : Processor} {run : Run} {id : String} {row : Segment}

/-- A closed row was written by one completion, with the key it drew and what its archiving gave,
for the segment as the row has it. -/
theorem Reachable.completed (hrun : Reachable processor run)
    (hrow : run.store.segment? id = some row) (hclosed : row.isClosed = true) :
    ∃ i event rest finish segment key before archiving,
      run.attempts[i]? = some ⟨.complete event, rest⟩ ∧
      segment.id = row.id ∧ segment.vehicleToken = row.vehicleToken ∧
      segment.startTime = row.startTime ∧ row.endTime = some finish.time ∧
      row.encryptionKey = some key.val ∧
      Archived processor event.deviceId segment finish.time key archiving row.archiveId ∧
      run.trace i = before ++ ⟨.generateKey, key⟩ :: (archiving ++
        [⟨.updateSegment row.id (completion finish segment key row.archiveId), .ok ()⟩]) := by
  have hlife := hrun.life id
  rw [hrow] at hlife
  generalize hwritten : run.writesOf id = written at hlife
  have hlog : ∀ entry ∈ written, entry ∈ run.log := by
    intro entry hmem
    rw [← hwritten] at hmem
    exact (List.mem_filter.mp hmem).1
  cases hlife with
  | opened i _ hid =>
    have hinsert : (⟨i, ⟨.insertSegment row, .ok ()⟩⟩ : Entry) ∈ run.log := hlog _ (by simp)
    obtain ⟨event, vehicle, placement, rfl⟩ := hrun.placed_of_inserted hinsert
    cases hclosed
  | closed i j inserted written hid =>
    have hclose : (⟨j, ⟨.updateSegment id written, .ok ()⟩⟩ : Entry) ∈ run.log :=
      hlog _ (by simp)
    obtain ⟨event, rest, hattempt, hcompleting⟩ := hrun.completing .close hclose rfl
    obtain ⟨finish, loaded, segment, key, before, archiving, archiveId, _, hshown, hplaced, rfl,
      rfl, harchived, hwhole⟩ := hcompleting.closed (mem_trace.mpr hclose)
    obtain ⟨answered, hanswered, hshows⟩ := hshown
    have hmem : ⟨j, answered⟩ ∈ run.log := mem_trace.mp (by rw [hwhole]; simp [hanswered])
    obtain ⟨next, hnext, hbecomes⟩ := hrun.shown hmem hshows
    obtain ⟨hnextId, htoken, hstart, _⟩ := hbecomes.identity
    have hevent : event.id = segment.id := by
      rw [← Store.id_of_segment? hnext, hnextId, hplaced]
    rw [hevent, hrow] at hnext
    cases hnext
    have hrowId : (inserted.complete (completion finish segment key archiveId)).id = segment.id :=
      hid
    refine ⟨j, event, rest, finish, segment, key, before, archiving, hattempt, hid.symm, ?_, ?_,
      rfl, rfl, harchived, ?_⟩
    · rw [htoken, hplaced]
    · rw [hstart, hplaced]
    · rw [hwhole, hrowId]
      rfl

/-- What stands behind the archive pointer of a row: an attempt at a completion drew the key, got
the telemetry, had the item accepted and then closed the row, in this order; the item is labelled
with the row, it travels unharmed, and it opens under the key in the row to the telemetry. -/
structure Archival (processor : Processor) (run : Run) (row : Segment) (item : Item) (i : Nat)
    (event : SegmentEvent) (finish : Instant) (key : Package.SegmentKey) (raw : Bytes) : Prop where
  attempt : ∃ rest, run.attempts[i]? = some ⟨.complete event, rest⟩
  pointer : row.archiveId = some item.id
  ended : row.endTime = some finish
  keyed : row.encryptionKey = some key.val
  order : ∃ receipt written,
    [⟨i, ⟨.generateKey, key⟩⟩,
      ⟨i, ⟨.fetch ⟨event.deviceId, row.startTime, finish⟩, .ok raw⟩⟩,
      ⟨i, ⟨.upload item, .ok receipt⟩⟩,
      ⟨i, ⟨.updateSegment row.id written, .ok ()⟩⟩].Sublist run.log
  token : item.tag? "Vehicle-Token-ID" = some (toString row.vehicleToken)
  segment : item.tag? "Segment-ID" = some row.id
  startTime : item.tag? "Start-Time" = some (Rfc3339.write .millis row.startTime)
  endTime : item.tag? "End-Time" = some (Rfc3339.write .millis finish)
  travels : Item.ofBytes item.toBytes = .ok item
  opens : ∃ name, Package.unpack processor.signer.scheme item key = .ok [⟨name, raw⟩]

/-- The item uploaded at a place of the log was packed under the key drawn at another. -/
def PackedUnder (processor : Processor) (run : Run) (draw upload : Nat) : Prop :=
  ∃ i key item answer raw nonce label, run.log[draw]? = some ⟨i, ⟨.generateKey, key⟩⟩ ∧
    run.log[upload]? = some ⟨i, ⟨.upload item, answer⟩⟩ ∧
    processor.pack raw key nonce label = .ok item

/-- The row of an identifier was closed with the key drawn at a place of the log. -/
def ClosedUnder (run : Run) (draw : Nat) (id : String) : Prop :=
  ∃ i key written row, run.log[draw]? = some ⟨i, ⟨.generateKey, key⟩⟩ ∧
    ⟨i, ⟨.updateSegment id written, .ok ()⟩⟩ ∈ run.log ∧ run.store.segment? id = some row ∧
    row.encryptionKey = some key.val

/-- The pointer of a closed row is valid. -/
theorem Reachable.archival (hsound : processor.signer.scheme.Sound)
    (hrun : Reachable processor run) (hrow : run.store.segment? id = some row)
    (hclosed : row.isClosed = true) {archiveId : String}
    (hpointer : row.archiveId = some archiveId) :
    ∃ item i event finish key raw, item.id = archiveId ∧
      Archival processor run row item i event finish key raw := by
  obtain ⟨i, event, rest, finish, segment, key, before, archiving, hattempt, hid, htoken, hstart,
    hended, hkeyed, harchived, htrace⟩ := hrun.completed hrow hclosed
  rw [hpointer] at harchived
  cases harchived with
  | @uploaded raw nonce item receipt hpack =>
    have hlabel : label segment finish.time = label row finish.time := by
      unfold label
      rw [hid, htoken, hstart]
    rw [hlabel] at hpack
    obtain ⟨htokenTag, hidTag, hstartTag, hendTag, _⟩ := Package.tag?_of_pack hpack
    refine ⟨item, i, event, finish.time, key, raw, rfl, ⟨rest, hattempt⟩, hpointer, hended, hkeyed,
      ⟨receipt, completion finish segment key row.archiveId, ?_⟩, htokenTag, hidTag, hstartTag,
      hendTag, Package.ofBytes_of_pack hpack, ⟨_, Package.unpack_of_pack hsound hpack⟩⟩
    refine List.Sublist.trans ?_ (trace_sublist run i)
    rw [htrace, ← hstart]
    simp only [List.map_append, List.map_cons, List.map_nil, List.cons_append, List.nil_append]
    refine List.Sublist.trans ?_ (List.sublist_append_right _ _)
    exact ((List.Sublist.refl _).cons _).cons_cons _ |>.cons_cons _

/-- Every uploaded item was packed under a drawn key. -/
theorem Reachable.packedUnder (hrun : Reachable processor run) {upload i : Nat} {item : Item}
    {answer : Except Archive.Error Archive.Receipt}
    (hupload : run.log[upload]? = some ⟨i, ⟨.upload item, answer⟩⟩) :
    ∃ draw, PackedUnder processor run draw upload := by
  have hmem := List.mem_of_getElem? hupload
  obtain ⟨event, rest, _, hcompleting⟩ := hrun.completing .upload hmem rfl
  obtain ⟨finish, loaded, segment, key, raw, nonce, _, _, _, hkey, hpack, _⟩ :=
    hcompleting.uploaded (mem_trace.mpr hmem)
  obtain ⟨draw, hdraw⟩ := List.mem_iff_getElem?.mp (mem_trace.mp hkey)
  exact ⟨draw, i, key, item, answer, raw, nonce, _, hdraw, hupload, hpack⟩

/-- One item at most is uploaded under the key of a draw. -/
theorem Reachable.eq_of_packedUnder (hrun : Reachable processor run) {draw upload other : Nat}
    (hfirst : PackedUnder processor run draw upload)
    (hsecond : PackedUnder processor run draw other) : upload = other := by
  obtain ⟨i, key, item, answer, _, _, _, hdraw, hupload, _⟩ := hfirst
  obtain ⟨j, _, _, _, _, _, _, hsame, hother, _⟩ := hsecond
  rw [hdraw] at hsame
  cases hsame
  exact hrun.eq_of_phase .upload hupload hother rfl rfl

/-- Every closed row was closed with a drawn key. -/
theorem Reachable.closedUnder (hrun : Reachable processor run)
    (hrow : run.store.segment? id = some row) (hclosed : row.isClosed = true) :
    ∃ draw, ClosedUnder run draw id := by
  obtain ⟨i, event, rest, finish, segment, key, before, archiving,
      _, _, _, _, _, hkeyed, _, htrace⟩ :=
    hrun.completed hrow hclosed
  have hkey : ⟨.generateKey, key⟩ ∈ run.trace i := by
    rw [htrace]
    simp
  have hclose : ⟨.updateSegment row.id (completion finish segment key row.archiveId), .ok ()⟩ ∈
      run.trace i := by
    rw [htrace]
    simp
  obtain ⟨draw, hdraw⟩ := List.mem_iff_getElem?.mp (mem_trace.mp hkey)
  rw [Store.id_of_segment? hrow] at hclose
  exact ⟨draw, i, key, _, row, hdraw, mem_trace.mp hclose, hrow, hkeyed⟩

/-- One row at most is closed with the key of a draw. -/
theorem Reachable.eq_of_closedUnder (hrun : Reachable processor run) {draw : Nat}
    {other : String} (hfirst : ClosedUnder run draw id) (hsecond : ClosedUnder run draw other) :
    id = other := by
  obtain ⟨i, key, _, _, hdraw, hclose, _⟩ := hfirst
  obtain ⟨j, _, _, _, hsame, hother, _⟩ := hsecond
  rw [hdraw] at hsame
  cases hsame
  obtain ⟨p, hp⟩ := List.mem_iff_getElem?.mp hclose
  obtain ⟨q, hq⟩ := List.mem_iff_getElem?.mp hother
  have hplace := hrun.eq_of_phase .close hp hq rfl rfl
  rw [← hplace, hp] at hq
  cases hq
  rfl

/-- In every reachable run the pointer of each closed row leads to the item that was accepted before
the row closed and that opens to its telemetry, and no key of one draw serves two uploaded items or
two closed rows. -/
theorem archive_pointers_valid (hsound : processor.signer.scheme.Sound)
    (hrun : Reachable processor run) :
    (∀ (id : String) (row : Segment) (archiveId : String), run.store.segment? id = some row →
      row.isClosed = true → row.archiveId = some archiveId →
      ∃ item i event finish key raw, item.id = archiveId ∧
        Archival processor run row item i event finish key raw) ∧
    (∀ upload i item answer, run.log[upload]? = some ⟨i, ⟨.upload item, answer⟩⟩ →
      ∃ draw, PackedUnder processor run draw upload) ∧
    (∀ draw upload other, PackedUnder processor run draw upload →
      PackedUnder processor run draw other → upload = other) ∧
    (∀ (id : String) (row : Segment), run.store.segment? id = some row → row.isClosed = true →
      ∃ draw, ClosedUnder run draw id) ∧
    ∀ (draw : Nat) (id other : String), ClosedUnder run draw id → ClosedUnder run draw other →
      id = other := by
  refine ⟨?_, ?_, ?_, ?_, ?_⟩
  · intro id row archiveId hrow hclosed hpointer
    exact hrun.archival hsound hrow hclosed hpointer
  · intro upload i item answer hupload
    exact hrun.packedUnder hupload
  · intro draw upload other hfirst hsecond
    exact hrun.eq_of_packedUnder hfirst hsecond
  · intro id row hrow hclosed
    exact hrun.closedUnder hrow hclosed
  · intro draw id other hfirst hsecond
    exact hrun.eq_of_closedUnder hfirst hsecond

/-- A processor that fetches and uploads, with a signer whose signatures are accepted. -/
noncomputable def archiver : Processor :=
  ⟨.stored, ⟨Ed25519.scheme.exact, filled 0⟩, ⟨true, true⟩⟩

/-- One worker completes and archives a ride. -/
def delivery : List Move :=
  [.take mint, .reply 0 .tables, .take (.complete ride), .reply 1 .tables, .reply 1 .tables,
    .reply 1 .tables, .reply 1 (.key (filled 1)),
    .reply 1 (.telemetry (.ok [1, 2, 3])), .reply 1 (.nonce (filled 1)),
    .reply 1 (.archive (.ok .blank)), .reply 1 .tables]

/-- After a delivery the pointer of the ride is valid. -/
theorem delivery_archival :
    ∃ row item i event finish key raw,
      (start.play archiver delivery).store.segment? "ride" = some row ∧
        Archival archiver (start.play archiver delivery) row item i event finish key raw := by
  have hvalid := archive_pointers_valid (SignatureScheme.exact_sound Ed25519.scheme)
    (reachable_play archiver delivery)
  obtain ⟨item, i, event, finish, key, raw, _, harchival⟩ := hvalid.1 "ride" _ _ rfl rfl rfl
  exact ⟨_, item, i, event, finish, key, raw, rfl, harchival⟩

end TripArchive.Run
