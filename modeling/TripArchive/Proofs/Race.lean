import Mathlib.Logic.Relation
import TripArchive.Proofs.Race.Contest
import TripArchive.Proofs.Segment.Healthy

/-!
# Races

Two handlers about one segment of a vehicle are at work over the same tables. A step of their race
is an answered call of either, or a call of someone else that neither writes the segment nor closes
one of the vehicle. So every interleaving of the two handlers is a race, and so is one after the
other.
-/

namespace TripArchive

/-- The result of a handler that has ended. -/
def Handler.result? {α : Type} : Handler α → Option (Except SegmentError α)
  | done a => some (.ok a)
  | fail e => some (.error e)
  | call _ _ => none

/-- A safe handler that has ended has ended as it should. -/
theorem Handler.Safe.result {α : Type} {law : Law} {rely promise : Store → Store → Prop}
    {post : Except SegmentError α → Store → Prop} {h : Handler α} {store : Store}
    (hsafe : h.Safe law rely promise post store) {result : Except SegmentError α}
    (hresult : h.result? = some result) : post result store := by
  cases h with
  | done a | fail e =>
    cases hresult
    exact hsafe
  | call c next => cases hresult

/-- Two handlers at work and the tables between them. -/
structure Race where
  store : Store
  first : Handler Unit
  last : Handler Unit

namespace Race

/-- One step of a race about a segment of a vehicle. -/
inductive Step (healthy : Healthy) (id : String) (token : Int) : Race → Race → Prop
  /-- The first handler's call is answered. -/
  | first (store : Store) (c : Call) (next : c.Answer → Handler Unit) (last : Handler Unit) :
      Step healthy id token ⟨store, .call c next, last⟩
        ⟨(healthy.answer store c).2, next (healthy.answer store c).1, last⟩
  /-- The last handler's call is answered. -/
  | last (store : Store) (c : Call) (next : c.Answer → Handler Unit) (first : Handler Unit) :
      Step healthy id token ⟨store, first, .call c next⟩
        ⟨(healthy.answer store c).2, first, next (healthy.answer store c).1⟩
  /-- Someone else's call is answered, well or not. -/
  | elsewhere {race : Race} {c : Call} {answer : c.Answer} {later : Store}
      (hanswer : race.store.Answers c answer later)
      (hrow : later.segment? id = race.store.segment? id)
      (hclosed : later.closedRows token = race.store.closedRows token) :
      Step healthy id token race { race with store := later }

/-- The races that a race may lead to. -/
def Leads (healthy : Healthy) (id : String) (token : Int) : Race → Race → Prop :=
  Relation.ReflTransGen (Step healthy id token)

variable {healthy : Healthy} {id : String} {token : Int} {race later : Race}

/-- The first handler can be brought to its end. -/
theorem leads_first (healthy : Healthy) (id : String) (token : Int) (store : Store)
    (first last : Handler Unit) : ∃ later ended, Leads healthy id token ⟨store, first, last⟩
      ⟨later, ended, last⟩ ∧ ended.result?.isSome = true := by
  induction first generalizing store with
  | done a => exact ⟨store, _, .refl, rfl⟩
  | fail e => exact ⟨store, _, .refl, rfl⟩
  | call c next ih =>
    obtain ⟨later, ended, hleads, hended⟩ := ih _ (healthy.answer store c).2
    exact ⟨later, ended, .head (.first store c next last) hleads, hended⟩

/-- The last handler can be brought to its end. -/
theorem leads_last (healthy : Healthy) (id : String) (token : Int) (store : Store)
    (first last : Handler Unit) : ∃ later ended, Leads healthy id token ⟨store, first, last⟩
      ⟨later, first, ended⟩ ∧ ended.result?.isSome = true := by
  induction last generalizing store with
  | done a => exact ⟨store, _, .refl, rfl⟩
  | fail e => exact ⟨store, _, .refl, rfl⟩
  | call c next ih =>
    obtain ⟨later, ended, hleads, hended⟩ := ih _ (healthy.answer store c).2
    exact ⟨later, ended, .head (.last store c next first) hleads, hended⟩

/-- Every race can be brought to an end. -/
theorem exists_ended (healthy : Healthy) (id : String) (token : Int) (race : Race) :
    ∃ ended, Leads healthy id token race ended ∧ ended.first.result?.isSome = true ∧
      ended.last.result?.isSome = true := by
  obtain ⟨between, first, hleads, hfirst⟩ :=
    leads_first healthy id token race.store race.first race.last
  obtain ⟨later, last, hlater, hlast⟩ := leads_last healthy id token between first race.last
  exact ⟨_, hleads.trans hlater, hfirst, hlast⟩

/-- Where a race about a contest stands: the first handler relies on the tables leading on and never
closes the segment, which is what the last one relies on. -/
structure Racing (contest : Contest) (healthy : Healthy)
    (firstEnds lastEnds : Except SegmentError Unit → Store → Prop) (race : Race) : Prop where
  holds : contest.Holds race.store
  first : race.first.Safe healthy.law contest.Moves contest.Quiet firstEnds race.store
  last : race.last.Safe healthy.law contest.Quiet contest.Moves lastEnds race.store

variable {contest : Contest} {firstEnds lastEnds : Except SegmentError Unit → Store → Prop}

section

-- What the handlers end with has to survive what they do not see any more.
variable
  (hfirst : ∀ result {before later}, firstEnds result before → contest.Moves before later →
    firstEnds result later)
  (hlast : ∀ result {before later}, lastEnds result before → contest.Quiet before later →
    lastEnds result later)
include hfirst hlast

/-- A step keeps a race where it should stand. -/
theorem Racing.step (hrace : Racing contest healthy firstEnds lastEnds race)
    (hstep : Step healthy contest.event.id contest.vehicle.token race later) :
    Racing contest healthy firstEnds lastEnds later := by
  have hquiet := hrace.holds.quiet
  cases hstep with
  | first store c next last =>
    obtain ⟨hkept, hnext⟩ := hrace.first store _ _ hquiet.toMoves rfl
    exact ⟨hkept.holds, hnext, hrace.last.mono hkept Contest.Quiet.trans hlast⟩
  | last store c next first =>
    obtain ⟨hkept, hnext⟩ := hrace.last store _ _ hquiet rfl
    exact ⟨hkept.holds, hrace.first.mono hkept Contest.Moves.trans hfirst, hnext⟩
  | elsewhere hanswer hrow hclosed =>
    have hkept := hrace.holds.elsewhere hanswer hrow hclosed
    exact ⟨hkept.holds, hrace.first.mono hkept.toMoves Contest.Moves.trans hfirst,
      hrace.last.mono hkept Contest.Quiet.trans hlast⟩

/-- A race stays where it should stand. -/
theorem Racing.leads (hrace : Racing contest healthy firstEnds lastEnds race)
    (hleads : Leads healthy contest.event.id contest.vehicle.token race later) :
    Racing contest healthy firstEnds lastEnds later := by
  induction hleads with
  | refl => exact hrace
  | tail _ hstep ih => exact ih.step hfirst hlast hstep

end

end Race

end TripArchive
