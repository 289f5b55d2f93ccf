import TripArchive.Proofs.Segment.Failure
import TripArchive.Proofs.Telemetry.Exchanges

/-!
# Failed searches

A complete event whose telemetry cannot be fetched fails with the error of the fetch, and with no
error of telemetry otherwise (`fail_iff_of_fetch`). Over HTTP that error has the class of what went
wrong with the exchange that ended the reading (`failure_told_by_exchange`).
-/

namespace TripArchive

namespace Handler

variable {α : Type} {h rest : Handler α} {trace : List Answered} {P : SegmentError → Prop}

/-- Further along a path a handler fails as it may at its start. -/
theorem Path.fails (hpath : Path h trace rest) (hfails : h.Fails P) : rest.Fails P := by
  induction hpath with
  | nil => exact hfails
  | cons _ ih => exact ih (hfails _)

end Handler

namespace Processor

open Handler

variable {processor : Processor} {event : SegmentEvent} {finish : Endpoint} {segment : Segment}
  {key : Package.SegmentKey} {trace : List Answered} {rest : Handler Unit}
  {range : Telemetry.Range} {answer : Except Telemetry.Error Bytes}

/-- What a complete event does with the telemetry of its segment before it closes the row. -/
def keeping (processor : Processor) (segment : Segment) (finish : Instant)
    (key : Package.SegmentKey) (raw : Bytes) : Handler (Option String) := do
  let nonce ← ask .generateNonce
  let item ← ofExcept .package (processor.pack raw key nonce (label segment finish))
  if processor.options.upload then
    let _ ← Handler.upload item
    done (some item.id)
  else done none

/-- Telemetry that was fetched is not fetched again. -/
theorem only_keeping (processor : Processor) (segment : Segment) (finish : Instant)
    (key : Package.SegmentKey) (raw : Bytes) :
    (processor.keeping segment finish key raw).Only fun c => ∀ range, c ≠ .fetch range := by
  refine Only.bind (h := ask .generateNonce) ⟨nofun, fun _ => trivial⟩ fun nonce => ?_
  refine Only.bind (only_ofExcept _) fun item => ?_
  split
  · exact Only.bind ⟨nofun, fun answer => only_ofExcept answer⟩ fun _ => trivial
  · trivial

/-- Once telemetry was fetched, no failure is one of telemetry. -/
theorem fails_keeping (processor : Processor) (segment : Segment) (finish : Instant)
    (key : Package.SegmentKey) (raw : Bytes) :
    (processor.keeping segment finish key raw).Fails fun e => e.stage ≠ .telemetry := by
  refine Fails.bind (h := ask .generateNonce) (fun _ => trivial) fun nonce => ?_
  refine Fails.bind (fails_ofExcept _ fun error => nofun) fun item => ?_
  split
  · exact Fails.bind (fun answer => fails_ofExcept answer fun error => nofun) fun _ => trivial
  · trivial

/-- What a complete event does from its key on, if it fetches: an error of the fetch ends it. -/
theorem path_finishing_of_fetch
    (hpath : Path (processor.finishing event finish segment key) trace rest)
    (hmem : ⟨.fetch range, answer⟩ ∈ trace) (e : Telemetry.Error) :
    rest = fail (.telemetry e) ↔ answer = .error e := by
  unfold finishing archive at hpath
  split at hpath
  · change Path (.call (.fetch ⟨event.deviceId, segment.startTime, finish.time⟩) fun answer =>
      ((ofExcept .telemetry answer).bind fun raw =>
        processor.keeping segment finish.time key raw).bind fun archiveId =>
          Handler.updateSegment segment.id (completion finish segment key archiveId)) trace rest
      at hpath
    rcases path_call.mp hpath with ⟨rfl, rfl⟩ | ⟨fetched, later, rfl, hfetched⟩
    · cases hmem
    cases fetched with
    | error error =>
      obtain ⟨rfl, rfl⟩ := path_fail.mp hfetched
      cases List.mem_singleton.mp hmem
      simp
    | ok raw =>
      change Path ((processor.keeping segment finish.time key raw).bind _) later rest at hfetched
      have honly := hfetched.only ((processor.only_keeping segment finish.time key raw).bind
        fun archiveId => ⟨nofun, fun answer => only_ofExcept answer⟩)
      have hfails := hfetched.fails ((processor.fails_keeping segment finish.time key raw).bind
        fun archiveId answer => fails_ofExcept answer fun error => nofun)
      rcases List.mem_cons.mp hmem with hfirst | hagain
      · cases hfirst
        refine ⟨?_, nofun⟩
        rintro rfl
        exact absurd rfl hfails
      · exact absurd rfl (honly.1 _ hagain range)
  · change Path (Handler.updateSegment segment.id (completion finish segment key none)) trace rest
      at hpath
    have honly := (hpath.only (P := fun c => ∀ range, c ≠ .fetch range)
      ⟨nofun, fun answer => only_ofExcept answer⟩).1
    exact absurd rfl (honly _ hmem range)

/-- A complete event that fetches fails with the error of the fetch, if it gets one, whatever else
its calls are answered, and with no error of telemetry otherwise. -/
theorem fail_iff_of_fetch (hpath : Path (processor.complete event) trace rest)
    (hmem : ⟨.fetch range, answer⟩ ∈ trace) (e : Telemetry.Error) :
    rest = fail (.telemetry e) ↔ answer = .error e := by
  have hopening {calls : List Answered} (h : ∀ answered ∈ calls, Opening event answered.call) :
      ⟨.fetch range, answer⟩ ∉ calls := fun hearly => by cases h _ hearly
  cases hfinish : event.finish with
  | none =>
    unfold complete at hpath
    rw [hfinish] at hpath
    obtain ⟨rfl, _⟩ := path_fail.mp hpath
    cases hmem
  | some finish =>
    rw [complete_eq processor event hfinish] at hpath
    rcases path_bind hpath with ⟨middle, hload, _⟩ | ⟨first, second, loaded, rfl, hload, hplacing⟩
    · exact absurd hmem (hopening (hload.only (only_loadOpen event)).1)
    have hmem := (List.mem_append.mp hmem).resolve_left
      (hopening (hload.only (only_loadOpen event)).1)
    rcases path_bind hplacing with
      ⟨middle, hplace, _⟩ | ⟨third, fourth, segment, rfl, hplace, hkeyed⟩
    · exact absurd hmem (hopening (hplace.only (only_placeLate event loaded _)).1)
    have hmem := (List.mem_append.mp hmem).resolve_left
      (hopening (hplace.only (only_placeLate event loaded _)).1)
    rcases path_call.mp hkeyed with ⟨rfl, _⟩ | ⟨key, later, rfl, hfinishing⟩
    · cases hmem
    rcases List.mem_cons.mp hmem with hkey | hlater
    · cases hkey
    · exact path_finishing_of_fetch hfinishing hlater e

open Telemetry (Mishap Client)

variable {client : Client} {exchanges : Nat → Http.Exchange}

/-- What became of a complete event that asked the index for its telemetry over HTTP is told by the
exchange to which its reading came, whatever else its calls were answered. The event fails and is
left for another delivery exactly if the round trip failed in another way than by a body that broke
off. It fails and is acknowledged exactly if the body of a reply broke off, was no page or held a
full page without a sort key. -/
theorem failure_told_by_exchange (hpath : Path (processor.complete event) trace rest)
    (hmem : ⟨.fetch range, answer⟩ ∈ trace) (hfetch : client.Fetches range exchanges answer) :
    ∃ k, client.ComesTo exchanges k ∧
      (∃ ending, Telemetry.Closes client.pageSize (Telemetry.ofExchange (exchanges k)) ending) ∧
      ((∃ e, rest = fail (.telemetry e) ∧ e.errorClass = .transient ∧
          SegmentError.settles (.error (.telemetry e)) = false) ↔
        ∃ mishap : Mishap, mishap.Befalls client.pageSize (exchanges k) ∧
          mishap.isBroken = true ∧ mishap ≠ .cut) ∧
      ((∃ e, rest = fail (.telemetry e) ∧ e.errorClass = .invalid ∧
          SegmentError.settles (.error (.telemetry e)) = true) ↔
        ∃ mishap : Mishap, mishap.Befalls client.pageSize (exchanges k) ∧
          (mishap = .cut ∨ mishap = .malformed ∨ mishap = .unkeyed)) := by
  obtain ⟨k, ending, hcomes, hcloses, hanswer⟩ := Telemetry.fetches_iff.mp hfetch
  -- The error of the event is that of the exchange, so that their classes are one, and the class
  -- alone says whether the event is acknowledged.
  have hclass (c : ErrorClass) : (∃ e, rest = fail (.telemetry e) ∧ e.errorClass = c ∧
      SegmentError.settles (.error (.telemetry e)) = c.acknowledges) ↔
      ∃ mishap : Mishap, mishap.Befalls client.pageSize (exchanges k) ∧ mishap.errorClass = c := by
    constructor
    · rintro ⟨e, hrest, rfl, _⟩
      rw [fail_iff_of_fetch hpath hmem] at hrest
      rw [hrest] at hanswer
      cases ending with
      | none => cases hanswer
      | some error =>
        cases hanswer
        obtain ⟨mishap, hbefalls, hsame⟩ := Telemetry.befalls_of_closes hcloses
        exact ⟨mishap, hbefalls, hsame.symm⟩
    · rintro ⟨mishap, hbefalls, rfl⟩
      obtain ⟨error, herror, hsame⟩ := hbefalls.closes
      obtain rfl := hcloses.unique herror
      exact ⟨error, (fail_iff_of_fetch hpath hmem error).mpr hanswer.symm, hsame,
        congrArg ErrorClass.acknowledges hsame⟩
  refine ⟨k, hcomes, ⟨ending, hcloses⟩, (hclass .transient).trans ?_, (hclass .invalid).trans ?_⟩
  · exact exists_congr fun mishap => and_congr_right fun _ => mishap.errorClass_eq_transient_iff
  · exact exists_congr fun mishap => and_congr_right fun _ => mishap.errorClass_eq_invalid_iff

/-- The answers to a ride whose telemetry cannot be fetched. -/
theorem exists_unfetched_path (e : Telemetry.Error) :
    ∃ trace, Path (Request.archiving.complete Run.ride) trace (fail (.telemetry e)) ∧
      ⟨.fetch ⟨"device", ⟨60, 0⟩, ⟨120, 0⟩⟩, .error e⟩ ∈ trace := by
  have hpath : Path (Request.archiving.complete Run.ride)
      [⟨.getSegment "ride", .ok none⟩, ⟨.getVehicle "device", .ok (some ⟨7, "device"⟩)⟩,
        ⟨.insertSegment (Segment.opened "ride" 7 ⟨60, 0⟩), .ok ()⟩,
        ⟨.generateKey, Run.filled 1⟩, ⟨.fetch ⟨"device", ⟨60, 0⟩, ⟨120, 0⟩⟩, .error e⟩]
      (fail (.telemetry e)) :=
    .cons (.cons (.cons (.cons (.cons (.nil _)))))
  exact ⟨_, hpath, by simp⟩

/-- A client that reads in pages of one record. -/
def singly : Client := Client.ofSettings "device-status" 1 .rfc3339

/-- A ride whose search is refused by an overloaded index is left for another delivery, also if the
words of the refusal break off. -/
theorem refused_ride_left : ∃ trace e,
    Path (Request.archiving.complete Run.ride) trace (fail (.telemetry e)) ∧
    ⟨.fetch ⟨"device", ⟨60, 0⟩, ⟨120, 0⟩⟩, .error e⟩ ∈ trace ∧
    singly.Fetches ⟨"device", ⟨60, 0⟩, ⟨120, 0⟩⟩ (fun _ => .reply 503 [] false) (.error e) ∧
    SegmentError.settles (.error (.telemetry e)) = false := by
  have hfetch : singly.Fetches ⟨"device", ⟨60, 0⟩, ⟨120, 0⟩⟩ (fun _ => .reply 503 [] false)
      (.error (.status 503 "")) :=
    Telemetry.fetches_iff.mpr ⟨0, some _, nofun, .failed _, rfl⟩
  obtain ⟨trace, hpath, hmem⟩ := exists_unfetched_path (.status 503 "")
  obtain ⟨_, _, _, hleft, _⟩ := failure_told_by_exchange hpath hmem hfetch
  obtain ⟨e, hrest, _, hsettles⟩ := hleft.mpr
    ⟨.refused, .refused (by decide) _ _, rfl, nofun⟩
  cases hrest
  exact ⟨trace, _, hpath, hmem, hfetch, hsettles⟩

/-- A ride whose search is answered, but by a body that breaks off behind its first byte, is
acknowledged as one whose telemetry is malformed. -/
theorem cut_ride_acknowledged : ∃ trace e,
    Path (Request.archiving.complete Run.ride) trace (fail (.telemetry e)) ∧
    ⟨.fetch ⟨"device", ⟨60, 0⟩, ⟨120, 0⟩⟩, .error e⟩ ∈ trace ∧
    singly.Fetches ⟨"device", ⟨60, 0⟩, ⟨120, 0⟩⟩ (fun _ => .reply 200 [0x7b] false) (.error e) ∧
    e.errorClass = .invalid ∧ e.errorClass ≠ .transient ∧
    SegmentError.settles (.error (.telemetry e)) = true := by
  obtain ⟨trace, hpath, hmem⟩ := exists_unfetched_path (.decode "the body broke off")
  exact ⟨trace, _, hpath, hmem, Telemetry.fetches_iff.mpr ⟨0, some _, nofun, .failed _, rfl⟩,
    rfl, nofun, rfl⟩

end Processor

end TripArchive
