import TripArchive.Proofs.Segment.Path
import TripArchive.Store.Answers

/-!
# The life of a row

A segment is a row under its identifier. The tables may answer a call, or the call fails and
changes nothing. Either way a row is only ever opened where there was none, or closed where it was
open: `RowStep` says which call does which, and `Segment.Becomes` what may become of a row in any
number of calls.
-/

namespace TripArchive

namespace Segment

/-- What may become of a row: it stays, or it is open and gets its completion. -/
def Becomes (row later : Segment) : Prop :=
  later = row ∨ row.isClosed = false ∧ ∃ completion, later = row.complete completion

/-- A completed row is closed. -/
@[simp] theorem isClosed_complete (row : Segment) (completion : Completion) :
    (row.complete completion).isClosed = true := rfl

theorem Becomes.refl (row : Segment) : row.Becomes row := Or.inl rfl

/-- A row is completed at most once, so two stretches of its life make one. -/
theorem Becomes.trans {first second third : Segment} (hfirst : first.Becomes second)
    (hsecond : second.Becomes third) : first.Becomes third := by
  rcases hfirst with rfl | ⟨hopen, completion, rfl⟩
  · exact hsecond
  · rcases hsecond with rfl | ⟨hclosed, _⟩
    · exact Or.inr ⟨hopen, completion, rfl⟩
    · rw [isClosed_complete] at hclosed
      cases hclosed

/-- A closed row stays as it is. -/
theorem Becomes.eq_of_isClosed {row later : Segment} (h : row.Becomes later)
    (hclosed : row.isClosed = true) : later = row := by
  rcases h with rfl | ⟨hopen, _⟩
  · rfl
  · rw [hopen] at hclosed
    cases hclosed

/-- What a row is about never changes: the completion writes none of these. -/
theorem Becomes.identity {row later : Segment} (h : row.Becomes later) :
    later.id = row.id ∧ later.vehicleToken = row.vehicleToken ∧
      later.startTime = row.startTime ∧ later.startPosition = row.startPosition := by
  rcases h with rfl | ⟨_, completion, rfl⟩
  · exact ⟨rfl, rfl, rfl, rfl⟩
  · exact ⟨rfl, rfl, rfl, rfl⟩

end Segment

namespace Store

variable {store later : Store} {id : String}

/-- The row of an identifier carries it. -/
theorem id_of_segment? {row : Segment} (h : store.segment? id = some row) : row.id = id := by
  simpa using List.find?_some h

/-- An inserted segment is the row of its identifier, which had none; all other rows stay. -/
theorem segment?_of_insertSegment {segment : Segment}
    (h : store.insertSegment segment = .ok later) (id : String) :
    store.segment? segment.id = none ∧
      later.segment? id = if id = segment.id then some segment else store.segment? id := by
  unfold insertSegment at h
  split at h
  · cases h
  · split at h
    · cases h
    · next hnew =>
      have hnone : store.segment? segment.id = none := by simpa using hnew
      cases h
      refine ⟨hnone, ?_⟩
      unfold segment? at hnone ⊢
      rw [List.find?_append]
      by_cases hid : id = segment.id
      · subst hid
        simp [hnone]
      · have hother : ¬ segment.id = id := fun h => hid h.symm
        simp [hid, hother]

/-- Closing needs an open row, which gets the completion; all other rows stay. -/
theorem segment?_of_closeSegment {closed : String} {completion : Completion}
    (h : store.closeSegment closed completion = .ok later) (id : String) :
    ∃ row, store.segment? closed = some row ∧ row.isClosed = false ∧
      later.segment? id = if id = closed then some (row.complete completion)
        else store.segment? id := by
  unfold closeSegment at h
  split at h
  · cases h
  · next row hrow =>
    split at h
    · cases h
    · next hopen =>
      cases h
      refine ⟨row, hrow, by simpa using hopen, ?_⟩
      have hcomp : ((fun segment : Segment => decide (segment.id = id)) ∘ fun other : Segment =>
          if other.id = closed then other.complete completion else other) =
            fun segment => decide (segment.id = id) := by
        funext other
        by_cases hother : other.id = closed
        · simp [hother, Segment.complete]
        · simp [hother]
      unfold segment? at hrow ⊢
      simp only [List.find?_map, hcomp]
      by_cases hid : id = closed
      · subst hid
        have hrowId : row.id = id := by simpa using List.find?_some hrow
        simp [hrow, hrowId]
      · rw [if_neg hid]
        cases hfind : store.segments.find? fun segment => decide (segment.id = id) with
        | none => rfl
        | some other =>
          have hother : other.id = id := by simpa using List.find?_some hfind
          have hne : ¬ other.id = closed := fun heq => hid (hother.symm.trans heq)
          simp [hne]

/-- Recording a vehicle touches no segment. -/
theorem segment?_of_upsertVehicle {device : String} {token : Int}
    (h : store.upsertVehicle device token = .ok later) (id : String) :
    later.segment? id = store.segment? id := by
  unfold upsertVehicle at h
  split at h
  · cases h
    rfl
  · split at h
    · cases h
    · cases h
      rfl

end Store

/-- The answer of a call to the tables that fails with an error; the other collaborators have
answers of their own. -/
def Call.failure? (e : Store.Error) : (c : Call) → Option c.Answer
  | .getSegment _ => some (.error e)
  | .getVehicle _ => some (.error e)
  | .priorSegment _ => some (.error e)
  | .insertSegment _ => some (.error e)
  | .updateSegment _ _ => some (.error e)
  | .upsertVehicle _ _ => some (.error e)
  | .generateKey => none
  | .generateNonce => none
  | .fetch _ => none
  | .upload _ => none

namespace Store

variable {store later : Store} {id : String}

/-- What a call may be answered, and the tables after it. -/
inductive Answers (store : Store) (c : Call) : c.Answer → Store → Prop
  /-- The tables answer. -/
  | served {answer : c.Answer} {later : Store} (h : store.answer? c = some (answer, later)) :
      Answers store c answer later
  /-- The call to the tables fails and changes nothing. -/
  | failed {answer : c.Answer} {e : Error} (h : c.failure? e = some answer) :
      Answers store c answer store
  /-- The call goes to another collaborator, which may answer anything. -/
  | elsewhere {answer : c.Answer} (h : store.answer? c = none) : Answers store c answer store

/-- What one answered call does to the row of an identifier: it inserts the row where there was
none, it closes the open row, or it does neither and leaves the row as it is. -/
inductive RowStep (id : String) : Option Segment → Answered → Option Segment → Prop
  | inserted (segment : Segment) (hid : segment.id = id) :
      RowStep id none ⟨.insertSegment segment, .ok ()⟩ (some segment)
  | closed (row : Segment) (completion : Completion) (hopen : row.isClosed = false) :
      RowStep id (some row) ⟨.updateSegment id completion, .ok ()⟩
        (some (row.complete completion))
  | kept (row : Option Segment) (answered : Answered) (hinserts : answered.inserts id = false)
      (hcloses : answered.closes id = false) : RowStep id row answered row

/-- Every answered call takes every row one step. -/
theorem Answers.rowStep {c : Call} {answer : c.Answer} (h : store.Answers c answer later)
    (id : String) : RowStep id (store.segment? id) ⟨c, answer⟩ (later.segment? id) := by
  cases h with
  | failed h => cases c <;> cases h <;> exact .kept _ _ rfl rfl
  | elsewhere h =>
    cases c with
    | generateKey | generateNonce | fetch | upload => exact .kept _ _ rfl rfl
    | _ => cases h
  | served h =>
    cases c with
    | getSegment | getVehicle | priorSegment => cases h; exact .kept _ _ rfl rfl
    | generateKey | generateNonce | fetch | upload => cases h
    | insertSegment segment =>
      cases hinsert : store.insertSegment segment with
      | error e => simp only [answer?, hinsert, Store.after] at h; cases h; exact .kept _ _ rfl rfl
      | ok stored =>
        simp only [answer?, hinsert, Store.after] at h
        cases h
        obtain ⟨hnone, hrow⟩ := segment?_of_insertSegment hinsert id
        rw [hrow]
        by_cases hid : id = segment.id
        · rw [if_pos hid, hid, hnone]
          exact .inserted segment rfl
        · rw [if_neg hid]
          exact .kept _ _ (by simpa [Answered.inserts] using Ne.symm hid) rfl
    | updateSegment closed completion =>
      cases hclose : store.closeSegment closed completion with
      | error e => simp only [answer?, hclose, Store.after] at h; cases h; exact .kept _ _ rfl rfl
      | ok stored =>
        simp only [answer?, hclose, Store.after] at h
        cases h
        obtain ⟨row, hrow, hopen, hafter⟩ := segment?_of_closeSegment hclose id
        rw [hafter]
        by_cases hid : id = closed
        · subst hid
          rw [if_pos rfl, hrow]
          exact .closed row completion hopen
        · rw [if_neg hid]
          exact .kept _ _ rfl (by simpa [Answered.closes] using Ne.symm hid)
    | upsertVehicle device token =>
      cases hupsert : store.upsertVehicle device token with
      | error e => simp only [answer?, hupsert, Store.after] at h; cases h; exact .kept _ _ rfl rfl
      | ok stored =>
        simp only [answer?, hupsert, Store.after] at h
        cases h
        rw [segment?_of_upsertVehicle hupsert id]
        exact .kept _ _ rfl rfl

/-- A row that a call shows is in the tables. -/
theorem Answers.shows {c : Call} {answer : c.Answer} {row : Segment}
    (h : store.Answers c answer later) (hshows : Answered.Shows id row ⟨c, answer⟩) :
    later.segment? id = some row := by
  cases hshows with
  | read =>
    cases h with
    | served h =>
      simp only [answer?, Option.some.injEq, Prod.mk.injEq, Except.ok.injEq] at h
      rw [← h.2]
      exact h.1
    | failed h => cases h
    | elsewhere h => cases h
  | inserted hid =>
    cases h with
    | served h =>
      cases hinsert : store.insertSegment row with
      | error e =>
        simp only [answer?, hinsert, Store.after] at h
        cases h
      | ok stored =>
        simp only [answer?, hinsert, Store.after] at h
        cases h
        rw [(segment?_of_insertSegment hinsert id).2, if_pos hid.symm]
    | failed h => cases h
    | elsewhere h => cases h

/-- A row that is there stays there, open or completed. -/
theorem RowStep.becomes {row : Segment} {answered : Answered} {result : Option Segment}
    (h : RowStep id (some row) answered result) :
    ∃ next, result = some next ∧ row.Becomes next := by
  cases h with
  | closed _ completion hopen => exact ⟨_, rfl, Or.inr ⟨hopen, completion, rfl⟩⟩
  | kept => exact ⟨row, rfl, .refl row⟩

end Store

end TripArchive
