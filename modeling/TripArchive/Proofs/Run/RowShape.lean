import TripArchive.Proofs.Run.ArchivePointer
import TripArchive.Proofs.Run.Safe
import TripArchive.Proofs.Segment.Shape

/-!
# Rows and vehicles of a run

Four calls write the two tables: a begin event inserts a row, a complete event inserts or completes
one, and a vehicle event adds a vehicle. Along every run each row has its shape, stands under its
own identifier and is of a recorded vehicle, and vehicles are a lasting one-to-one mapping.
-/

namespace TripArchive.Run

variable {processor : Processor} {run : Run}

/-- Every row of a reachable run has its shape. -/
theorem Reachable.shapely (hrun : Reachable processor run) :
    Processor.Shapely processor.options run.store := by
  apply hrun.holds_of_safe
  · intro id row hrow
    cases hrow
  · intro request store
    cases request with
    | begin event => exact Processor.safe_begin processor.options event store
    | complete event => exact Processor.safe_complete processor event store
    | vehicle event => exact Processor.safe_vehicleEvent processor.options event store

/-- In every reachable run each row has its shape, is found under its own identifier and is of a
recorded vehicle; no token and no device stands twice among the vehicles, and in every later run
each vehicle is still there, as the vehicle of its device. -/
theorem rows_in_shape (hrun : Reachable processor run) :
    (∀ row ∈ run.store.segments, row.Shaped processor.options) ∧
    (∀ row ∈ run.store.segments, run.store.segment? row.id = some row ∧
      ∃ vehicle ∈ run.store.vehicles, vehicle.token = row.vehicleToken) ∧
    (run.store.vehicles.map Vehicle.token).Nodup ∧
    (run.store.vehicles.map Vehicle.device).Nodup ∧
    ∀ later, Leads processor run later → ∀ vehicle ∈ run.store.vehicles,
      vehicle ∈ later.store.vehicles ∧ later.store.vehicle? vehicle.device = some vehicle := by
  have hkeyed := hrun.keyed
  refine ⟨?_, ?_, hkeyed.tokens, hkeyed.devices, ?_⟩
  · intro row hmem
    exact hrun.shapely row.id row (hkeyed.segment?_of_mem hmem)
  · intro row hmem
    exact ⟨hkeyed.segment?_of_mem hmem, Store.knows_iff.mp (hkeyed.known row hmem)⟩
  · intro later hleads vehicle hmem
    have hlater := hleads.grows.vehicles.subset hmem
    exact ⟨hlater, (hrun.leads hleads).keyed.vehicle?_of_mem hlater⟩

/-- After a delivery the row of the ride is closed in its shape: with a key of thirty-two bytes and
an archive pointer, since the processor uploads. -/
theorem delivery_in_shape :
    ∃ row ∈ (start.play archiver delivery).store.segments, row.Shaped archiver.options ∧
      row.isClosed = true ∧ row.archiveId ≠ none := by
  have hshape := (rows_in_shape (reachable_play archiver delivery)).1
  obtain ⟨row, hmem, hclosed⟩ :
      ∃ row ∈ (start.play archiver delivery).store.segments, row.isClosed = true :=
    ⟨_, List.mem_singleton_self _, rfl⟩
  have hrow := hshape row hmem
  have hended : row.endTime ≠ none := by
    rw [← Option.isSome_iff_ne_none]
    exact hclosed
  exact ⟨row, hmem, hrow, hclosed, (hrow.archived hended).mpr ⟨rfl, rfl⟩⟩

end TripArchive.Run
