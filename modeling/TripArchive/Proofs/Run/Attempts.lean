import TripArchive.Proofs.Run.Rows
import TripArchive.Proofs.Segment.Phases

/-!
# What the attempts of a run did

Every entry of the log stands on the path of its attempt. So an attempt is in the log once at most
for each phase, only completions enter phases, and the segment of a completion is the row of its
identifier up to what a completion writes.
-/

namespace TripArchive

/-- Two places of a list with the same image are one, if the images do not repeat. -/
theorem eq_of_nodup_filterMap {α β : Type} {l : List α} {f : α → Option β} {p q : Nat} {a b : α}
    {c : β} (hnodup : (l.filterMap f).Nodup) (hp : l[p]? = some a) (hq : l[q]? = some b)
    (ha : f a = some c) (hb : f b = some c) : p = q := by
  have hpair := List.pairwise_iff_getElem.mp (List.pairwise_filterMap.mp hnodup)
  obtain ⟨hplt, hpa⟩ := List.getElem?_eq_some_iff.mp hp
  obtain ⟨hqlt, hqb⟩ := List.getElem?_eq_some_iff.mp hq
  rcases Nat.lt_trichotomy p q with hlt | heq | hgt
  · exact absurd rfl (hpair p q hplt hqlt hlt c (hpa ▸ ha) c (hqb ▸ hb))
  · exact heq
  · exact absurd rfl (hpair q p hqlt hplt hgt c (hqb ▸ hb) c (hpa ▸ ha))

namespace Run

variable {processor : Processor} {run : Run} {i : Nat}

/-- The phases of an attempt do not repeat. -/
theorem Reachable.nodup_phases (hrun : Reachable processor run) (i : Nat) :
    (phases (run.trace i)).Nodup := by
  by_cases hi : i < run.attempts.length
  · have hpath := hrun.path (List.getElem?_eq_getElem hi)
    exact (phases_sublist_of_path hpath).nodup (by decide)
  · have hnone : run.trace i = [] := by
      refine List.eq_nil_iff_forall_not_mem.mpr fun answered hmem => ?_
      exact hi (hrun.consistent.known _ (mem_trace.mp hmem))
    rw [hnone]
    exact List.nodup_nil

/-- An attempt has one entry at most of a phase. -/
theorem Reachable.eq_of_phase (hrun : Reachable processor run) {p q : Nat} {a b : Answered}
    (phase : Phase) (hp : run.log[p]? = some ⟨i, a⟩) (hq : run.log[q]? = some ⟨i, b⟩)
    (ha : a.call.phase? = some phase) (hb : b.call.phase? = some phase) : p = q := by
  have hnodup := hrun.nodup_phases i
  have hlog : phases (run.trace i) = run.log.filterMap fun entry =>
      if entry.attempt = i then entry.answered.call.phase? else none := by
    unfold phases trace
    rw [List.filterMap_map, List.filterMap_filter]
    congr
    funext entry
    simp
  rw [hlog] at hnodup
  exact eq_of_nodup_filterMap hnodup hp hq (by simpa using ha) (by simpa using hb)

/-- Only a completion enters a phase. -/
theorem Reachable.completing (hrun : Reachable processor run) {answered : Answered} (phase : Phase)
    (hmem : ⟨i, answered⟩ ∈ run.log) (hphase : answered.call.phase? = some phase) :
    ∃ event rest, run.attempts[i]? = some ⟨.complete event, rest⟩ ∧
      Processor.Completing processor event (run.trace i) rest := by
  obtain ⟨⟨request, rest⟩, hattempt, htrace⟩ := hrun.attempt_of_mem hmem
  have hpath := hrun.path hattempt
  cases request with
  | complete event => exact ⟨event, rest, hattempt, Processor.completing_of_path hpath⟩
  | begin event =>
    have hnil := phases_eq_nil_of_path hpath (by simp)
    have hphases := mem_phases htrace hphase
    rw [hnil] at hphases
    cases hphases
  | vehicle event =>
    have hnil := phases_eq_nil_of_path hpath (by simp)
    have hphases := mem_phases htrace hphase
    rw [hnil] at hphases
    cases hphases

/-- A segment is inserted as an event opens it. -/
theorem Reachable.placed_of_inserted (hrun : Reachable processor run) {segment : Segment}
    {answer : Except Store.Error Unit} (hmem : ⟨i, ⟨.insertSegment segment, answer⟩⟩ ∈ run.log) :
    ∃ event vehicle placement, segment = Processor.placed event vehicle placement := by
  obtain ⟨attempt, hattempt, htrace⟩ := hrun.attempt_of_mem hmem
  rcases opening_of_phase?_eq_none (hrun.path hattempt) htrace rfl with ⟨event, hopening⟩ | hvehicle
  · cases hopening with
    | insertSegment vehicle placement => exact ⟨event, vehicle, placement, rfl⟩
  · obtain ⟨device, token, hcall⟩ := hvehicle
    cases hcall

end Run

end TripArchive
