import TripArchive.Proofs.Race.Contest
import TripArchive.Proofs.Segment.Healthy

/-!
# The two handlers of a contest

Under healthy collaborators a begin event never closes the segment, and relies on nothing but that
the tables lead on. A complete event relies on no one else closing the segment; then it finds the
opened row whether it inserts the row itself or not, and closes it.
-/

namespace TripArchive

/-- Unless a start is reported, the previous end does not matter for where the segment begins. -/
theorem Placement.resolve_none (ended : Option Point) :
    resolve ended none = ⟨none, none, false⟩ := by
  cases ended <;> rfl

namespace Contest

open Handler Processor

variable {contest : Contest} {healthy : Healthy} {processor : Processor} {store : Store}

/-- A start that is reported is placed. -/
theorem startUnknown_opened {start : Point} (hstart : contest.event.start.location = some start) :
    contest.opened.startUnknown = false := by
  unfold Contest.opened Placement.resolve
  rw [hstart]
  split
  · next hnear =>
    cases hended : contest.ended with
    | none =>
      rw [hended] at hnear
      cases hnear
    | some ended => rfl
  · rfl

/-- Looking up where the previous segment ended leads to the placement that was to be, as long as
the segment is new. -/
theorem safe_priorEnd (contest : Contest) (healthy : Healthy) (store : Store) :
    (priorEnd contest.vehicle contest.event.start.location).Safe healthy.law contest.Moves
      contest.Quiet (fun result later => ∃ ended, result = .ok ended ∧
        (later.segment? contest.event.id = none →
          placed contest.event contest.vehicle
            (Placement.resolve ended contest.event.start.location) = contest.opened)) store := by
  unfold Contest.opened
  cases contest.event.start.location with
  | none => exact ⟨none, rfl, fun _ => by simp only [Placement.resolve_none]⟩
  | some start =>
    refine safe_reading (fun _ => rfl) (fun before hbefore => hbefore.holds.quiet) ?_
    intro before hbefore
    -- Once the segment is closed, it may itself be the previous one; but then it is not new.
    refine ⟨_, rfl, fun hnew => ?_⟩
    rw [hbefore.holds.ended (by simp [hnew])]

/-- Opening the segment gives the row that was to be opened, or is refused as a duplicate. Either
way the row is there. -/
theorem safe_openSegment (contest : Contest) (healthy : Healthy) (store : Store) :
    (openSegment contest.event).Safe healthy.law contest.Moves contest.Quiet
      (fun result later => later.segment? contest.event.id ≠ none ∧
        (result = .ok contest.opened ∨
          result = .error (.store (.duplicate (Store.segmentName contest.event.id))))) store := by
  have hfound : (Handler.getVehicle contest.event.deviceId).Safe healthy.law contest.Moves
      contest.Quiet (fun result _ => result = .ok (some contest.vehicle)) store := by
    refine safe_reading (fun _ => rfl) (fun before hbefore => hbefore.holds.quiet) ?_
    intro before hbefore
    exact congrArg Except.ok hbefore.holds.vehicle
  refine Safe.bind hfound ?_ fun _ _ he => nomatch he
  rintro _ found ⟨⟩
  refine Safe.bind (safe_priorEnd contest healthy found) ?_ fun _ _ he => nomatch he
  rintro _ later ⟨ended, ⟨⟩, hplaced⟩ before answer last hbefore hanswer
  change before.after (before.insertSegment _) = (answer, last) at hanswer
  -- A row that was inserted since the lookup refuses this one, wherever it would have begun.
  by_cases hnew : before.segment? contest.event.id = none
  · obtain ⟨inserted, hinsert, hquiet, hrow⟩ := hbefore.holds.insert hnew
    rw [hplaced (by_contra fun hrow => hbefore.row hrow hnew)] at hanswer ⊢
    rw [hinsert] at hanswer
    cases hanswer
    refine ⟨hquiet, ?_⟩
    constructor
    · rw [hrow]
      exact Option.some_ne_none _
    · exact Or.inl rfl
  · rw [hbefore.holds.refuse hnew rfl rfl] at hanswer
    cases hanswer
    exact ⟨hbefore.holds.quiet, hnew, Or.inr rfl⟩

/-- Reading the segment shows its row. -/
theorem safe_getSegment (contest : Contest) (healthy : Healthy)
    {rely promise : Store → Store → Prop}
    (hpromise : ∀ before, rely store before → promise before before) :
    (Handler.getSegment contest.event.id).Safe healthy.law rely promise
      (fun result later => rely store later ∧
        result = .ok (later.segment? contest.event.id)) store := by
  refine safe_reading (fun _ => rfl) hpromise ?_
  intro before hbefore
  exact ⟨hbefore, rfl⟩

/-- How a begin event about a segment may end that is opened and closed meanwhile. -/
inductive Begun (id : String) : Except SegmentError Unit → Prop
  | opened : Begun id (.ok ())
  | duplicate : Begun id (.error (.store (.duplicate (Store.segmentName id))))
  | closed : Begun id (.error (.alreadyClosed id))

/-- A begin event opens the segment, is refused as a duplicate, or finds the segment closed. -/
theorem safe_begin (contest : Contest) (healthy : Healthy) (store : Store) :
    (begin contest.event).Safe healthy.law contest.Moves contest.Quiet
      (fun result _ => Begun contest.event.id result) store := by
  have hread : (Handler.getSegment contest.event.id).Safe healthy.law contest.Moves contest.Quiet
      (fun result later => contest.Moves store later ∧
        result = .ok (later.segment? contest.event.id)) store :=
    safe_getSegment contest healthy fun before hbefore => hbefore.holds.quiet
  refine Safe.bind hread ?_ fun _ _ he => nomatch he.2
  rintro _ later ⟨_, ⟨⟩⟩
  split
  · exact .closed
  · refine Safe.bind (safe_openSegment contest healthy later) (fun _ _ _ => .opened) ?_
    rintro e last ⟨_, hresult | hresult⟩
    · cases hresult
    · cases hresult
      exact .duplicate

/-- Whether a handler was given the opened row and the row is still open. -/
def Loads (contest : Contest) (result : Except SegmentError Segment) (later : Store) : Prop :=
  result = .ok contest.opened ∧ later.segment? contest.event.id = some contest.opened

/-- A complete event loads the opened row, whoever inserted it. -/
theorem safe_loadOpen (contest : Contest) (healthy : Healthy)
    (hopen : store.segment? contest.event.id ≠ some contest.closed) :
    (loadOpen contest.event).Safe healthy.law contest.Quiet contest.Moves (Loads contest)
      store := by
  have hread (later : Store) : (Handler.getSegment contest.event.id).Safe healthy.law contest.Quiet
      contest.Moves (fun result last => contest.Quiet later last ∧
        result = .ok (last.segment? contest.event.id)) later :=
    safe_getSegment contest healthy fun before hbefore => hbefore.holds.quiet.toMoves
  have hreload (later : Store) (hlater : contest.Quiet store later)
      (hsome : later.segment? contest.event.id ≠ none) : (reload contest.event).Safe healthy.law
      contest.Quiet contest.Moves (Loads contest) later := by
    refine Safe.bind (hread later) ?_ fun _ _ he => nomatch he.2
    rintro _ last ⟨hlast, ⟨⟩⟩
    have hrow := hlast.holds.opened (hlast.row hsome)
      (hopen ∘ hlater.alreadyClosed ∘ hlast.alreadyClosed)
    rw [hrow]
    exact ⟨rfl, hrow⟩
  have hopened (later : Store) (hlater : contest.Quiet store later) :
      (openOrReload contest.event).Safe healthy.law contest.Quiet contest.Moves (Loads contest)
        later := by
    have hquiet := (safe_openSegment contest healthy later).weaken
      (fun before later (h : contest.Quiet before later) => h.toMoves) (fun _ _ h => h)
      (fun _ _ h => h)
    have hremembered := hquiet.remember
      (fun {a b c} (hfirst : contest.Quiet a b) hsecond => hfirst.trans hsecond)
      (fun h => h) (fun _ h => h) hlater
    refine Safe.recover (hremembered.weaken (fun _ _ h => h) (fun _ _ h => h.toMoves)
      (fun _ _ h => h)) ?_ ?_
    · rintro segment last ⟨hlast, hsome, hresult | hresult⟩
      · cases hresult
        exact ⟨rfl, hlast.holds.opened hsome (hopen ∘ hlast.alreadyClosed)⟩
      · cases hresult
    · rintro e last ⟨hlast, hsome, hresult | hresult⟩
      · cases hresult
      · cases hresult
        exact hreload last hlast hsome
  rw [loadOpen_eq]
  refine Safe.bind (hread store) ?_ fun _ _ he => nomatch he.2
  rintro _ later ⟨hlater, ⟨⟩⟩
  have hloaded : ((later.segment? contest.event.id).elim (openOrReload contest.event) done).Safe
      healthy.law contest.Quiet contest.Moves (Loads contest) later := by
    cases hrow : later.segment? contest.event.id with
    | none => exact hopened later hlater
    | some row =>
      have hsame := hlater.holds.opened (by simp [hrow]) (hopen ∘ hlater.alreadyClosed)
      rw [hrow] at hsame
      cases hsame
      exact ⟨rfl, hrow⟩
  refine Safe.bind hloaded ?_ fun _ _ he => nomatch he.1
  rintro _ last ⟨⟨⟩, hrow⟩
  exact ⟨rfl, hrow⟩

/-- The opened row needs no late start. -/
theorem placeLate_opened (contest : Contest) :
    placeLate contest.opened contest.event.start.location = done contest.opened := by
  cases hstart : contest.event.start.location with
  | none => rfl
  | some start =>
    unfold placeLate
    simp only [startUnknown_opened hstart, Bool.false_eq_true, if_false]

/-- Whether the telemetry of the segment can be archived, and the identifier that this gives. -/
def Archives (processor : Processor) (healthy : Healthy) (contest : Contest) : Prop :=
  if processor.options.fetch then
    ∃ item, processor.pack
        (healthy.telemetry ⟨contest.event.deviceId, contest.opened.startTime, contest.finish.time⟩)
        contest.key healthy.nonce (label contest.opened contest.finish.time) = .ok item ∧
      contest.archiveId = if processor.options.upload then some item.id else none
  else contest.archiveId = none

/-- Archiving leaves the opened row as it is and gives the identifier that was to be. -/
theorem safe_archive (harchives : Archives processor healthy contest)
    (hrow : store.segment? contest.event.id = some contest.opened) :
    (processor.archive contest.event.deviceId contest.opened contest.finish.time contest.key).Safe
      healthy.law contest.Quiet contest.Moves (fun result later => result = .ok contest.archiveId ∧
        later.segment? contest.event.id = some contest.opened) store := by
  have hkept (later before : Store) (hbefore : contest.Quiet later before) :
      contest.Moves before before := hbefore.holds.quiet.toMoves
  unfold Archives at harchives
  unfold archive
  split at harchives
  · next hfetch =>
    obtain ⟨item, hpack, harchiveId⟩ := harchives
    rw [if_pos hfetch]
    refine safe_reading (fun _ => rfl) (hkept store) fun fetched hfetched => ?_
    refine safe_reading (fun _ => rfl) (hkept fetched) fun drawn hdrawn => ?_
    have hopened := hdrawn.opened (hfetched.opened hrow)
    change ((ofExcept .package (processor.pack (healthy.telemetry
      ⟨contest.event.deviceId, contest.opened.startTime, contest.finish.time⟩) contest.key
        healthy.nonce (label contest.opened contest.finish.time))).bind _).Safe _ _ _ _ drawn
    rw [hpack, harchiveId]
    change (if processor.options.upload then _ else _ : Handler _).Safe _ _ _ _ drawn
    split
    · refine safe_reading (fun _ => rfl) (hkept drawn) fun uploaded huploaded => ?_
      exact ⟨rfl, huploaded.opened hopened⟩
    · exact ⟨rfl, hopened⟩
  · next hfetch =>
    rw [if_neg hfetch, harchives]
    exact ⟨rfl, hrow⟩

/-- A complete event succeeds and leaves the closed row. -/
theorem safe_complete (hfinish : contest.event.finish = some contest.finish)
    (hkey : healthy.key = contest.key) (harchives : Archives processor healthy contest)
    (hopen : store.segment? contest.event.id ≠ some contest.closed) :
    (processor.complete contest.event).Safe healthy.law contest.Quiet contest.Moves
      (fun result later => result = .ok () ∧
        later.segment? contest.event.id = some contest.closed) store := by
  rw [complete_eq processor contest.event hfinish]
  refine Safe.bind (safe_loadOpen contest healthy hopen) ?_ fun _ _ he => nomatch he.1
  rintro _ loaded ⟨⟨⟩, hloaded⟩
  rw [placeLate_opened]
  refine safe_reading (fun _ => rfl) (fun before hbefore => hbefore.holds.quiet.toMoves) ?_
  intro drawn hdrawn
  have hdraw : (healthy.answer drawn .generateKey).1 = contest.key := hkey
  rw [hdraw]
  refine Safe.bind (safe_archive harchives (hdrawn.opened hloaded)) ?_ fun _ _ he => nomatch he.1
  rintro _ archived ⟨⟨⟩, harchived⟩ before answer last hbefore hanswer
  change before.after (before.closeSegment contest.event.id contest.written) = (answer, last)
    at hanswer
  obtain ⟨closed, hclose, hmoves, hrow⟩ := hbefore.holds.close (hbefore.opened harchived)
  rw [hclose] at hanswer
  cases hanswer
  exact ⟨hmoves, rfl, hrow⟩

end Contest

end TripArchive
