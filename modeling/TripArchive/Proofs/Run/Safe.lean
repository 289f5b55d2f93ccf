import TripArchive.Proofs.Run
import TripArchive.Proofs.Segment.Safe
import TripArchive.Proofs.Store.Tables

/-!
# What all handlers keep up

The tables of a reachable run are kept by key and only grow, whoever writes them. A condition that
every handler keeps up as long as the others do holds along every run, however many attempts are at
work and wherever they stand.
-/

namespace TripArchive.Run

variable {processor : Processor} {run later : Run}

/-- The tables of a run only grow. -/
theorem Leads.grows (hleads : Leads processor run later) : run.store.Grows later.store := by
  induction hleads with
  | refl => exact .refl _
  | tail _ hstep ih =>
    cases hstep with
    | take request => exact ih
    | answer _ hanswer => exact ih.trans hanswer.grows

/-- The tables of a reachable run are kept by key. -/
theorem Reachable.keyed (hrun : Reachable processor run) : run.store.Keyed := by
  induction hrun with
  | refl => exact Store.keyed_empty
  | tail _ hstep ih =>
    cases hstep with
    | take request => exact ih
    | answer _ hanswer => exact hanswer.tableStep.keyed ih

/-- A condition on the tables that every handler keeps up, relying on the others to keep it up,
holds in every reachable run. -/
theorem Reachable.holds_of_safe {holds : Store → Prop} (hempty : holds Store.empty)
    (hsafe : ∀ (request : Request) (store : Store), (request.handler processor).Safe Store.Answers
      (fun store before => holds before ∧ store.Grows before) (fun _ later => holds later)
      (fun _ _ => True) store)
    (hrun : Reachable processor run) : holds run.store := by
  suffices hall : holds run.store ∧ ∀ (i : Nat) (attempt : Attempt),
      run.attempts[i]? = some attempt → attempt.rest.Safe Store.Answers
        (fun store before => holds before ∧ store.Grows before) (fun _ later => holds later)
        (fun _ _ => True) run.store from hall.1
  induction hrun with
  | refl =>
    refine ⟨hempty, fun i attempt hattempt => ?_⟩
    cases hattempt
  | @tail middle _ _ hstep ih =>
    obtain ⟨hholds, hattempts⟩ := ih
    cases hstep with
    | take request =>
      refine ⟨hholds, fun i attempt hattempt => ?_⟩
      rcases List.mem_append.mp (List.mem_of_getElem? hattempt) with hold | hnew
      · obtain ⟨j, hj⟩ := List.mem_iff_getElem?.mp hold
        exact hattempts j attempt hj
      · rw [List.mem_singleton.mp hnew]
        exact hsafe request _
    | @answer i request c next answer stored hattempt hanswer =>
      have hgrows := hanswer.grows
      obtain ⟨hkept, hnext⟩ := hattempts i _ hattempt _ _ _ ⟨hholds, .refl _⟩ hanswer
      refine ⟨hkept, fun j other hother => ?_⟩
      rcases List.mem_or_eq_of_mem_set (List.mem_of_getElem? hother) with hold | rfl
      · obtain ⟨k, hk⟩ := List.mem_iff_getElem?.mp hold
        apply (hattempts k other hk).mono ⟨hkept, hgrows⟩
        · intro a b c hfirst hsecond
          exact ⟨hsecond.1, hfirst.2.trans hsecond.2⟩
        · intro _ _ _ _ _
          trivial
      · exact hnext

end TripArchive.Run
