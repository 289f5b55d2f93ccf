import TripArchive.Proofs.Race.Contest
import TripArchive.Proofs.Run.Safe
import TripArchive.Proofs.Run.Uploads
import TripArchive.Proofs.Segment.Provenance

/-!
# Whose telemetry is archived

A row is opened for the vehicle of one device, and it is closed by a complete event that may name
another: nothing relates the two. What is fetched and packed under the token of the row is the
telemetry of the completing device, and `telemetry_of_completing_device` says when that device is
the one registered for the token.
-/

namespace TripArchive.Run

open Processor

variable {processor : Processor} {run : Run} {id device : String} {row : Segment} {i : Nat}

/-- A device is registered for a token. -/
def Registered (run : Run) (device : String) (token : Int) : Prop :=
  run.store.vehicle? device = some ⟨token, device⟩

/-- The row of an identifier was opened on an event of a device. -/
def OpenedBy (run : Run) (id device : String) : Prop :=
  ∃ i attempt event segment, run.attempts[i]? = some attempt ∧
    attempt.request.event? = some event ∧ event.deviceId = device ∧ segment.id = id ∧
    ⟨i, ⟨.insertSegment segment, .ok ()⟩⟩ ∈ run.log

/-- What is known of the devices when an attempt archives the telemetry of a row: it completes the
row on an event of one device, and the row was opened on an event of one device. -/
structure Provenance (run : Run) (i : Nat) (event : SegmentEvent) (row : Segment)
    (opener : String) : Prop where
  attempt : ∃ rest, run.attempts[i]? = some ⟨.complete event, rest⟩
  stored : run.store.segment? event.id = some row
  opened : ∀ device, run.OpenedBy event.id device ↔ device = opener
  registered : run.Registered opener row.vehicleToken
  /-- The completing device is registered for the token of the row exactly if it opened the row. -/
  own : run.Registered event.deviceId row.vehicleToken ↔ event.deviceId = opener

/-- A vehicle that was found stays the one of its device. -/
theorem Reachable.vehicle?_of_found (hrun : Reachable processor run) {vehicle : Vehicle}
    (hmem : ⟨i, ⟨.getVehicle device, .ok (some vehicle)⟩⟩ ∈ run.log) :
    run.store.vehicle? device = some vehicle := by
  induction hrun with
  | refl => cases hmem
  | tail _ hstep ih =>
    cases hstep with
    | take request => exact ih hmem
    | @answer j request c next answer later hattempt hanswer =>
      rcases List.mem_append.mp hmem with hold | hnew
      · exact hanswer.grows.vehicle? (ih hold)
      · cases List.mem_singleton.mp hnew
        cases hanswer with
        | served hserved =>
          obtain ⟨hfound, hkept⟩ := Prod.mk.inj (Option.some.inj hserved)
          rw [← hkept]
          exact Except.ok.inj hfound
        | failed hfailed => cases hfailed
        | elsewhere helsewhere => cases helsewhere

/-- A row was inserted once, under its identifier and with its token. -/
theorem Reachable.inserted (hrun : Reachable processor run)
    (hrow : run.store.segment? id = some row) :
    ∃ i segment, ⟨i, ⟨.insertSegment segment, .ok ()⟩⟩ ∈ run.log ∧ segment.id = id ∧
      segment.vehicleToken = row.vehicleToken := by
  have hlife := hrun.life id
  rw [hrow] at hlife
  have hlog : ∀ entry ∈ run.writesOf id, entry ∈ run.log :=
    fun entry hmem => (List.mem_filter.mp hmem).1
  generalize run.writesOf id = written at hlife hlog
  cases hlife with
  | opened i _ hid => exact ⟨i, row, hlog _ (by simp), hid, rfl⟩
  | closed i j segment completion hid => exact ⟨i, segment, hlog _ (by simp), hid, rfl⟩

/-- Two devices of which each opened a row are one. -/
theorem Reachable.eq_of_openedBy (hrun : Reachable processor run) {other : String}
    (hfirst : run.OpenedBy id device) (hsecond : run.OpenedBy id other) : device = other := by
  obtain ⟨i, attempt, event, segment, hattempt, hevent, rfl, hid, hmem⟩ := hfirst
  obtain ⟨j, attempt', event', segment', hattempt', hevent', rfl, hid', hmem'⟩ := hsecond
  have hentry := hrun.eq_of_inserts id hmem hmem' (by simp [Answered.inserts, hid])
    (by simp [Answered.inserts, hid'])
  have hsame : i = j := congrArg Entry.attempt hentry
  subst hsame
  rw [hattempt] at hattempt'
  cases hattempt'
  rw [hevent] at hevent'
  rw [Option.some.inj hevent']

/-- A row was opened on an event of the device registered for its token. -/
theorem Reachable.opened (hrun : Reachable processor run)
    (hrow : run.store.segment? id = some row) :
    ∃ opener, run.OpenedBy id opener ∧ run.Registered opener row.vehicleToken := by
  obtain ⟨i, segment, hmem, hid, htoken⟩ := hrun.inserted hrow
  obtain ⟨attempt, hattempt, htrace⟩ := hrun.attempt_of_mem hmem
  obtain ⟨event, vehicle, placement, hevent, hsegment, hfound⟩ :=
    vouches_handler (hrun.path hattempt) htrace
  refine ⟨event.deviceId, ⟨i, attempt, event, segment, hattempt, hevent, rfl, hid, hmem⟩, ?_⟩
  have hvehicle := hrun.vehicle?_of_found (mem_trace.mp hfound)
  have hdevice : vehicle.device = event.deviceId := by
    simpa using List.find?_some hvehicle
  unfold Registered
  rw [hvehicle, ← hdevice, ← htoken, hsegment]
  rfl

/-- A token is registered for one device. -/
theorem Reachable.eq_of_registered (hrun : Reachable processor run) {other : String} {token : Int}
    (hfirst : run.Registered device token) (hsecond : run.Registered other token) :
    device = other := by
  have hmem := List.mem_of_find?_eq_some hfirst
  have hmem' := List.mem_of_find?_eq_some hsecond
  exact congrArg Vehicle.device
    (List.inj_on_of_nodup_map hrun.keyed.tokens hmem hmem' rfl)

/-- A completion beyond its key has a provenance. -/
theorem Reachable.provenance (hrun : Reachable processor run) {event : SegmentEvent}
    {rest : Handler Unit} (hattempt : run.attempts[i]? = some ⟨.complete event, rest⟩)
    (hrow : run.store.segment? event.id = some row) :
    ∃ opener, Provenance run i event row opener := by
  obtain ⟨opener, hopened, hregistered⟩ := hrun.opened hrow
  refine ⟨opener, ⟨rest, hattempt⟩, hrow, fun device => ⟨fun hdevice => ?_, ?_⟩, hregistered,
    fun hown => hrun.eq_of_registered hown hregistered, ?_⟩
  · exact hrun.eq_of_openedBy hdevice hopened
  · rintro rfl
    exact hopened
  · intro hdevice
    rw [hdevice]
    exact hregistered

/-- A completion that went through a phase behind the key works on the row of its event. -/
theorem Reachable.finishing (hrun : Reachable processor run) {answered : Answered} (phase : Phase)
    (hmem : ⟨i, answered⟩ ∈ run.log) (hphase : answered.call.phase? = some phase)
    (hbehind : phase ≠ .key) :
    ∃ event row opener finish segment key after rest, Provenance run i event row opener ∧
      segment.id = row.id ∧ segment.vehicleToken = row.vehicleToken ∧
      segment.startTime = row.startTime ∧
      Finishing processor event finish segment key after rest ∧ answered ∈ after ∧
      ∀ other ∈ after, ⟨i, other⟩ ∈ run.log := by
  obtain ⟨event, rest, hattempt, hcompleting⟩ := hrun.completing phase hmem hphase
  obtain ⟨finish, loaded, segment, key, before, after, _, ⟨shown, hshown, hshows⟩, _, hplaced,
    hfinishing, hafter, htrace⟩ :=
    hcompleting.finishing phase (mem_trace.mpr hmem) hphase hbehind
  have hlog : ∀ other ∈ before ++ ⟨.generateKey, key⟩ :: after, ⟨i, other⟩ ∈ run.log := by
    rw [← htrace]
    exact fun other => mem_trace.mp
  obtain ⟨row, hrow, hbecomes⟩ := hrun.shown (hlog shown (List.mem_append_left _ hshown)) hshows
  obtain ⟨hid, htoken, hstart, _⟩ := hbecomes.identity
  obtain ⟨opener, hprovenance⟩ := hrun.provenance hattempt hrow
  refine ⟨event, row, opener, finish, segment, key, after, rest, hprovenance, ?_, ?_, ?_,
    hfinishing, hafter, fun other hother => ?_⟩
  · rw [hid, hplaced]
  · rw [htoken, hplaced]
  · rw [hstart, hplaced]
  · exact hlog other (List.mem_append_right _ (List.mem_cons_of_mem _ hother))

/-- The telemetry that is archived for a row is that of the completing device. Whatever was fetched,
it was for the device of the complete event, and every uploaded item holds it under the token of the
row; that device is registered for the token exactly if the row was opened on an event of the same
device. -/
theorem telemetry_of_completing_device (hrun : Reachable processor run) :
    (∀ i range answer, ⟨i, ⟨.fetch range, answer⟩⟩ ∈ run.log →
      ∃ event row opener finish, Provenance run i event row opener ∧
        range = ⟨event.deviceId, row.startTime, finish⟩) ∧
    ∀ i item answer, ⟨i, ⟨.upload item, answer⟩⟩ ∈ run.log →
      ∃ event row opener finish key raw nonce, Provenance run i event row opener ∧
        ⟨i, ⟨.fetch ⟨event.deviceId, row.startTime, finish⟩, .ok raw⟩⟩ ∈ run.log ∧
        processor.pack raw key nonce (label row finish) = .ok item ∧
        item.tag? "Vehicle-Token-ID" = some (toString row.vehicleToken) := by
  constructor
  · intro i range answer hmem
    obtain ⟨event, row, opener, finish, segment, key, after, rest, hprovenance, _, _, hstart,
      hfinishing, hafter, _⟩ := hrun.finishing .fetch hmem rfl (by decide)
    refine ⟨event, row, opener, finish.time, hprovenance, ?_⟩
    rw [← hstart]
    exact hfinishing.range_eq hafter
  · intro i item answer hmem
    obtain ⟨event, row, opener, finish, segment, key, after, rest, hprovenance, hid, htoken, hstart,
      hfinishing, hafter, hlog⟩ := hrun.finishing .upload hmem rfl (by decide)
    obtain ⟨raw, nonce, hfetched, hpack⟩ := hfinishing.holds hafter
    have hlabel : label segment finish.time = label row finish.time := by
      unfold label
      rw [hid, htoken, hstart]
    rw [hlabel] at hpack
    rw [hstart] at hfetched
    exact ⟨event, row, opener, finish.time, key, raw, nonce, hprovenance, hlog _ hfetched, hpack,
      (Package.tag?_of_pack hpack).1⟩

/-- The ride as another device has it. -/
def strangeRide : SegmentEvent := { ride with deviceId := "other" }

/-- The request that records the other device as another vehicle. -/
def otherMint : Request := .vehicle ⟨"", "", "", "", none, mintType, ⟨none, none, "other", 8⟩⟩

/-- A ride begins on an event of its own device and is completed on an event. -/
def completedOn (event : SegmentEvent) : List Move :=
  [.take mint, .reply 0 .tables, .take otherMint, .reply 1 .tables, .take (.begin ride),
    .reply 2 .tables, .reply 2 .tables, .reply 2 .tables, .take (.complete event),
    .reply 3 .tables] ++ archived 3 1 ++ [.reply 3 .tables]

/-- A ride that its own device completes is archived with the telemetry of its vehicle. -/
theorem own_ride_archived :
    ∃ row raw finish, Provenance (start.play uploader (completedOn ride)) 3 ride row "device" ∧
      ⟨3, ⟨.fetch ⟨"device", row.startTime, finish⟩, .ok raw⟩⟩ ∈
        (start.play uploader (completedOn ride)).log ∧
      (start.play uploader (completedOn ride)).Registered "device" row.vehicleToken := by
  have hrun := reachable_play uploader (completedOn ride)
  obtain ⟨item, hupload⟩ : ∃ item,
      (start.play uploader (completedOn ride)).log[9]? = some ⟨3, ⟨.upload item, .ok .blank⟩⟩ :=
    ⟨_, rfl⟩
  obtain ⟨event, row, opener, finish, key, raw, nonce, hprovenance, hfetched, _⟩ :=
    (telemetry_of_completing_device hrun).2 _ _ _ (List.mem_of_getElem? hupload)
  obtain ⟨rest, hattempt⟩ := hprovenance.attempt
  have hride : (start.play uploader (completedOn ride)).attempts[3]? =
      some ⟨.complete ride, .done ()⟩ := rfl
  rw [hride] at hattempt
  cases hattempt
  have htoken : ((start.play uploader (completedOn ride)).store.segment? "ride").map
      Segment.vehicleToken = some 7 := rfl
  have hstored : (start.play uploader (completedOn ride)).store.segment? "ride" = some row :=
    hprovenance.stored
  rw [hstored] at htoken
  have hregistered :
      (start.play uploader (completedOn ride)).Registered "device" row.vehicleToken := by
    rw [Option.some.inj htoken]
    rfl
  cases hprovenance.own.mp hregistered
  exact ⟨row, raw, finish, hprovenance, hfetched, hregistered⟩

/-- A ride that another device completes is archived with the telemetry of that device, under the
token of the ride. -/
theorem strange_ride_archived :
    Reachable uploader (start.play uploader (completedOn strangeRide)) ∧
      ((start.play uploader (completedOn strangeRide)).store.segment? "ride").map
        Segment.vehicleToken = some 7 ∧
      (start.play uploader (completedOn strangeRide)).Registered "device" 7 ∧
      (start.play uploader (completedOn strangeRide)).Registered "other" 8 ∧
      ⟨3, ⟨.fetch ⟨"other", ⟨60, 0⟩, ⟨120, 0⟩⟩, .ok [1, 2, 3]⟩⟩ ∈
        (start.play uploader (completedOn strangeRide)).log ∧
      ∃ item, ⟨3, ⟨.upload item, .ok .blank⟩⟩ ∈
          (start.play uploader (completedOn strangeRide)).log ∧
        item.tag? "Vehicle-Token-ID" = some "7" := by
  refine ⟨reachable_play uploader _, rfl, rfl, rfl, ?_, ?_⟩
  · have hplace : (start.play uploader (completedOn strangeRide)).log[7]? =
        some ⟨3, ⟨.fetch ⟨"other", ⟨60, 0⟩, ⟨120, 0⟩⟩, .ok [1, 2, 3]⟩⟩ := rfl
    exact List.mem_of_getElem? hplace
  · obtain ⟨item, hplace, htag⟩ : ∃ item,
        (start.play uploader (completedOn strangeRide)).log[9]? =
          some ⟨3, ⟨.upload item, .ok .blank⟩⟩ ∧
        item.tag? "Vehicle-Token-ID" = some "7" := ⟨_, rfl, rfl⟩
    exact ⟨item, List.mem_of_getElem? hplace, htag⟩

end TripArchive.Run
