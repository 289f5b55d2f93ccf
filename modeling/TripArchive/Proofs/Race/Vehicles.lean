import TripArchive.Proofs.Gzip.Stored
import TripArchive.Proofs.Race
import TripArchive.Proofs.Segment.Outcomes
import TripArchive.Proofs.Segment.Share

/-!
# Events of different vehicles

Two events about different segments of different vehicles are handled side by side. Each handler
sees and writes its own share of the tables, so it goes on as it does by itself: `Side` keeps the
tables that it would have by itself next to the real ones. Where both end is then fixed, and
handling one after the other is one of the interleavings. None of this depends on which segment is
found as the previous one where several of a vehicle ended at once.
-/

namespace TripArchive

/-- Where the handler of an event stands beside others: it is confined to its event, which its
tokens cover, and goes on as it does by itself. -/
structure Side (ties : Store.TieBreak) (outcomes : Outcomes) (event : SegmentEvent)
    (tokens : List Int) (whole : Except SegmentError Unit × Store) (h : Handler Unit)
    (store : Store) : Prop where
  confined : h.Confined event tokens fun _ => True
  covers : store.Covers event tokens
  /-- The tables that the handler would have by itself show it the same. -/
  alone : ∃ alone, Store.Agrees event tokens store alone ∧
    h.run (Handler.serveBy (outcomes.answerBy ties)) alone = whole

namespace Side

variable {ties : Store.TieBreak} {outcomes : Outcomes} {event other : SegmentEvent}
  {tokens others : List Int}
  {whole : Except SegmentError Unit × Store} {h : Handler Unit} {store later a b : Store} {c : Call}
  {answer : c.Answer}

/-- A handler starts as it does by itself. -/
theorem start (hconfined : h.Confined event (store.tokens event) fun _ => True)
    (ties : Store.TieBreak) (outcomes : Outcomes) : Side ties outcomes event (store.tokens event)
      (h.run (Handler.serveBy (outcomes.answerBy ties)) store) h store :=
  ⟨hconfined, store.covers_tokens event, store, ⟨rfl, rfl⟩, rfl⟩

/-- Tables that agree for an event answer its calls alike with a tie-break, and agree afterwards. -/
theorem answerBy_agrees (hc : c.Concerns event tokens) (hagrees : Store.Agrees event tokens a b) :
    (outcomes.answerBy ties a c).1 = (outcomes.answerBy ties b c).1 ∧
      Store.Agrees event tokens (outcomes.answerBy ties a c).2 (outcomes.answerBy ties b c).2 := by
  cases c with
  | priorSegment token =>
    refine ⟨?_, hagrees⟩
    show Except.ok (ties.prior? a token) = Except.ok (ties.prior? b token)
    rw [Store.TieBreak.prior?, Store.TieBreak.prior?, hagrees.closedRows_eq hc]
  | _ => exact outcomes.answer_tracks (Store.tracks_agrees hc) hagrees

/-- Tables that are covered by some tokens show an event nothing else with a tie-break either. -/
theorem concerns_answerBy (hcovers : store.Covers event tokens) (hc : c.Concerns event tokens) :
    Answered.Concerns event tokens ⟨c, (outcomes.answerBy ties store c).1⟩ := by
  cases c with
  | priorSegment token => trivial
  | _ => exact hcovers.concerns hc (outcomes.answers store _)

/-- A call of its own takes a handler as far as it would by itself. -/
theorem own {next : c.Answer → Handler Unit}
    (hside : Side ties outcomes event tokens whole (.call c next) store) :
    Side ties outcomes event tokens whole (next (outcomes.answerBy ties store c).1)
      (outcomes.answerBy ties store c).2 := by
  obtain ⟨⟨hc, hnext⟩, hcovers, alone, hagrees, halone⟩ := hside
  obtain ⟨hanswer, hagrees'⟩ := answerBy_agrees hc hagrees
  obtain ⟨_, hanswers⟩ := outcomes.exists_answers ties store c
  constructor
  · exact hnext _ (concerns_answerBy hcovers hc)
  · exact hcovers.own hc hanswers
  · refine ⟨_, hagrees', ?_⟩
    rw [hanswer]
    exact halone

/-- A call of another handler, about another segment and other vehicles, leaves a handler where it
is. -/
theorem beside (hside : Side ties outcomes event tokens whole h store)
    (hcovers : store.Covers other others) (hc : c.Concerns other others)
    (hanswer : store.Answers c answer later) (hid : other.id ≠ event.id)
    (hothers : ∀ token ∈ others, token ∉ tokens) :
    Side ties outcomes event tokens whole h later := by
  obtain ⟨alone, hagrees, halone⟩ := hside.alone
  have hvehicles := hanswer.vehicles_eq hc
  have hshare : later.part (event.sees tokens) = store.part (event.sees tokens) := by
    apply hcovers.part_eq hc hanswer
    intro token htoken
    simp [SegmentEvent.sees, hid, hothers token htoken]
  constructor
  · exact hside.confined
  · apply hside.covers.answers hanswer hvehicles
    rintro segment rfl hsame
    exact absurd (hc.1.symm.trans hsame) hid
  · exact ⟨alone, ⟨hvehicles.trans hagrees.vehicles, hshare.trans hagrees.share⟩, halone⟩

/-- A handler that has ended has ended as it does by itself. -/
theorem ended (hside : Side ties outcomes event tokens whole h store)
    {result : Except SegmentError Unit} (hresult : h.result? = some result) :
    result = whole.1 ∧ Store.Agrees event tokens store whole.2 := by
  obtain ⟨alone, hagrees, rfl⟩ := hside.alone
  cases h with
  | done a | fail e =>
    cases hresult
    exact ⟨rfl, hagrees⟩
  | call c next => cases hresult

end Side

/-- A handler that has ended with a result. -/
@[simp] theorem Handler.result?_ofExcept {α : Type} (result : Except SegmentError α) :
    (ofExcept id result).result? = some result := by
  cases result <;> rfl

namespace Race

/-- One step of two handlers side by side: the call of either is answered. -/
inductive Beside (ties : Store.TieBreak) (one other : Outcomes) : Race → Race → Prop
  | first (store : Store) (c : Call) (next : c.Answer → Handler Unit) (last : Handler Unit) :
      Beside ties one other ⟨store, .call c next, last⟩
        ⟨(one.answerBy ties store c).2, next (one.answerBy ties store c).1, last⟩
  | last (store : Store) (c : Call) (next : c.Answer → Handler Unit) (first : Handler Unit) :
      Beside ties one other ⟨store, first, .call c next⟩
        ⟨(other.answerBy ties store c).2, first, next (other.answerBy ties store c).1⟩

/-- Both handlers have ended. -/
def Ended (race : Race) : Prop := race.first.result?.isSome ∧ race.last.result?.isSome

/-- The first handler is run to its end, and then the last one. -/
def inOrder (ties : Store.TieBreak) (one other : Outcomes) (race : Race) : Race :=
  let first := race.first.run (Handler.serveBy (one.answerBy ties)) race.store
  let last := race.last.run (Handler.serveBy (other.answerBy ties)) first.2
  ⟨last.2, Handler.ofExcept id first.1, Handler.ofExcept id last.1⟩

variable {ties : Store.TieBreak} {one other : Outcomes}

/-- Where two handlers of unrelated events stand that started from some tables: each goes on as it
does by itself, and all other rows are the ones at the start. -/
structure Apart (ties : Store.TieBreak) (one other : Outcomes) (start : Race)
    (event rival : SegmentEvent) (race : Race) : Prop where
  first : Side ties one event (start.store.tokens event)
    (start.first.run (Handler.serveBy (one.answerBy ties)) start.store) race.first race.store
  last : Side ties other rival (start.store.tokens rival)
    (start.last.run (Handler.serveBy (other.answerBy ties)) start.store) race.last race.store
  rest : race.store.part (fun id _ => id ≠ event.id && id ≠ rival.id) =
    start.store.part fun id _ => id ≠ event.id && id ≠ rival.id

variable {start race later : Race} {event rival : SegmentEvent}

/-- A step keeps the handlers of unrelated events apart. -/
theorem Apart.step (hapart : Apart ties one other start event rival race)
    (hunrelated : start.store.Unrelated event rival) (hstep : Beside ties one other race later) :
    Apart ties one other start event rival later := by
  cases hstep with
  | first store c next rest =>
    have hc := hapart.first.confined.1
    obtain ⟨_, hanswer⟩ := one.exists_answers ties store c
    refine ⟨hapart.first.own, ?_, ?_⟩
    · exact hapart.last.beside hapart.first.covers hc hanswer hunrelated.ids
        fun _ hmem => hunrelated.tokens hmem
    · rw [← hapart.rest]
      exact hapart.first.covers.part_eq hc hanswer (by simp)
  | last store c next rest =>
    have hc := hapart.last.confined.1
    obtain ⟨_, hanswer⟩ := other.exists_answers ties store c
    refine ⟨?_, hapart.last.own, ?_⟩
    · exact hapart.first.beside hapart.last.covers hc hanswer hunrelated.symm.ids
        fun _ hmem => hunrelated.symm.tokens hmem
    · rw [← hapart.rest]
      exact hapart.last.covers.part_eq hc hanswer (by simp)

/-- Wherever two handlers of unrelated events end, the tables are alike. -/
theorem Apart.alike (hrace : Apart ties one other start event rival race)
    (hlater : Apart ties one other start event rival later) (hended : race.Ended)
    (hends : later.Ended) : race.store.Alike later.store := by
  obtain ⟨_, hfirst⟩ := hrace.first.ended (Option.some_get hended.1).symm
  obtain ⟨_, hlast⟩ := hrace.last.ended (Option.some_get hended.2).symm
  obtain ⟨_, hfirst'⟩ := hlater.first.ended (Option.some_get hends.1).symm
  obtain ⟨_, hlast'⟩ := hlater.last.ended (Option.some_get hends.2).symm
  constructor
  · rw [hfirst.vehicles, hfirst'.vehicles]
  · intro id
    by_cases hid : id = event.id
    · apply Store.rows_congr (hfirst.share.trans hfirst'.share.symm)
      simp [SegmentEvent.sees, hid]
    · by_cases hid' : id = rival.id
      · apply Store.rows_congr (hlast.share.trans hlast'.share.symm)
        simp [SegmentEvent.sees, hid']
      · apply Store.rows_congr (hrace.rest.trans hlater.rest.symm)
        simp [hid, hid']

/-- Telemetry that is there and an archive that takes it. -/
def served : Outcomes where
  key := Run.filled 1
  nonce := Run.filled 2
  telemetry := fun _ => .ok [1, 2, 3]
  archive := fun _ => .ok .blank

end Race

end TripArchive
