import TripArchive.Proofs.Segment.Healthy
import TripArchive.Proofs.Segment.Alone
import TripArchive.Proofs.Store.Parts

/-!
# Fixed outcomes of the other collaborators

The tables answer for themselves, and what the other collaborators make of the calls of a handler is
fixed: a key, a nonce, and for each range and each item what becomes of it, well or not. Then a
handler has one run from given tables, and runs from related tables stay side by side.
-/

namespace TripArchive

/-- What the collaborators beside the tables make of the calls of one handler. -/
structure Outcomes where
  key : Package.SegmentKey
  nonce : Package.Nonce
  telemetry : Telemetry.Range → Except Telemetry.Error Bytes
  archive : Item → Except Archive.Error Archive.Receipt

/-- Relations between tables that replies keep. -/
theorem Store.Tracks.reply {R : Store → Store → Prop} {c : Call} (htracks : Tracks R c)
    {a b a' : Store} {reply : Reply} {answer : c.Answer} (hR : R a b)
    (h : reply.answer? a c = some (answer, a')) :
    ∃ b', reply.answer? b c = some (answer, b') ∧ R a' b' := by
  cases reply with
  | tables => exact htracks a b a' answer hR h
  | broken e =>
    obtain ⟨failure, hfailure, hpair⟩ := Option.map_eq_some_iff.mp h
    cases hpair
    exact ⟨b, by simp [Reply.answer?, hfailure], hR⟩
  | key | nonce | telemetry | archive =>
    cases c <;> cases h
    exact ⟨b, rfl, hR⟩

namespace Outcomes

/-- What replies to a call. -/
def reply (outcomes : Outcomes) : Call → Reply
  | .generateKey => .key outcomes.key
  | .generateNonce => .nonce outcomes.nonce
  | .fetch range => .telemetry (outcomes.telemetry range)
  | .upload item => .archive (outcomes.archive item)
  | _ => .tables

/-- Every call is replied to. -/
theorem isSome_answer? (outcomes : Outcomes) (store : Store) (c : Call) :
    ((outcomes.reply c).answer? store c).isSome = true := by
  cases c <;> rfl

/-- The answer to a call, and the tables after it. -/
def answer (outcomes : Outcomes) (store : Store) (c : Call) : c.Answer × Store :=
  ((outcomes.reply c).answer? store c).get (outcomes.isSome_answer? store c)

/-- A call is answered by its reply. -/
theorem answer?_reply (outcomes : Outcomes) (store : Store) (c : Call) :
    (outcomes.reply c).answer? store c = some (outcomes.answer store c) :=
  (Option.some_get (outcomes.isSome_answer? store c)).symm

/-- A fixed outcome is one of the answers to a call. -/
theorem answers (outcomes : Outcomes) (store : Store) (c : Call) :
    store.Answers c (outcomes.answer store c).1 (outcomes.answer store c).2 :=
  Reply.answers (outcomes.answer?_reply store c)

/-- A run on fixed outcomes is one way to end. -/
theorem ends (outcomes : Outcomes) {α : Type} (h : Handler α) (store : Store) :
    ∃ trace, h.Ends Store.Answers store trace (h.run (Handler.serveBy outcomes.answer) store).1
      (h.run (Handler.serveBy outcomes.answer) store).2 := by
  induction h generalizing store with
  | done a => exact ⟨[], .done a store⟩
  | fail e => exact ⟨[], .fail e store⟩
  | call c next ih =>
    obtain ⟨trace, hends⟩ := ih (outcomes.answer store c).1 (outcomes.answer store c).2
    exact ⟨_, .call (outcomes.answers store c) hends⟩

/-- Related tables are left related, and answer alike. -/
theorem answer_tracks (outcomes : Outcomes) {R : Store → Store → Prop} {c : Call} {a b : Store}
    (htracks : Store.Tracks R c) (hR : R a b) :
    (outcomes.answer a c).1 = (outcomes.answer b c).1 ∧
      R (outcomes.answer a c).2 (outcomes.answer b c).2 := by
  obtain ⟨b', hother, hR'⟩ := htracks.reply hR (outcomes.answer?_reply a c)
  rw [outcomes.answer?_reply b c] at hother
  rw [Option.some.inj hother]
  exact ⟨rfl, hR'⟩

/-- A handler has one result from related tables and leaves them related. -/
theorem run_tracks (outcomes : Outcomes) {R : Store → Store → Prop} {α : Type} {h : Handler α}
    {a b : Store} (honly : h.Only (Store.Tracks R)) (hR : R a b) :
    (h.run (Handler.serveBy outcomes.answer) a).1 =
        (h.run (Handler.serveBy outcomes.answer) b).1 ∧
      R (h.run (Handler.serveBy outcomes.answer) a).2
        (h.run (Handler.serveBy outcomes.answer) b).2 := by
  induction h generalizing a b with
  | done x => exact ⟨rfl, hR⟩
  | fail e => exact ⟨rfl, hR⟩
  | call c next ih =>
    obtain ⟨hanswer, hR'⟩ := outcomes.answer_tracks honly.1 hR
    have hgone (store : Store) : (Handler.call c next).run (Handler.serveBy outcomes.answer) store =
        (next (outcomes.answer store c).1).run (Handler.serveBy outcomes.answer)
          (outcomes.answer store c).2 := rfl
    rw [hgone, hgone, ← hanswer]
    exact ih _ (honly.2 _) hR'

/-- The answer to a call where a tie-break finds the previous segment, and the tables after it. -/
def answerBy (outcomes : Outcomes) (ties : Store.TieBreak) (store : Store) :
    (c : Call) → c.Answer × Store
  | .priorSegment token => (.ok (ties.prior? store token), store)
  | c => outcomes.answer store c

/-- With the tie-break of the search these are the answers of the tables. -/
theorem answerBy_lastInserted (outcomes : Outcomes) (store : Store) (c : Call) :
    outcomes.answerBy .lastInserted store c = outcomes.answer store c := by
  cases c <;> rfl

/-- The tables after a call with a tie-break are those after one of the answers to it. -/
theorem exists_answers (outcomes : Outcomes) (ties : Store.TieBreak) (store : Store) (c : Call) :
    ∃ answer, store.Answers c answer (outcomes.answerBy ties store c).2 := by
  cases c <;> exact ⟨_, outcomes.answers store _⟩

end Outcomes

namespace Healthy

/-- The outcomes of healthy collaborators. -/
def outcomes (healthy : Healthy) : Outcomes where
  key := healthy.key
  nonce := healthy.nonce
  telemetry := fun range => .ok (healthy.telemetry range)
  archive := fun item => .ok (healthy.receipt item)

/-- Healthy collaborators answer by their outcomes. -/
theorem serve_eq (healthy : Healthy) : healthy.serve = Handler.serveBy healthy.outcomes.answer := by
  funext c store
  cases c <;> rfl

end Healthy

/-- With healthy collaborators a handler ends as it runs. -/
theorem Handler.Ends.run_eq {α : Type} {h : Handler α} {healthy : Healthy} {store later : Store}
    {trace : List Answered} {result : Except SegmentError α}
    (hends : h.Ends healthy.law store trace result later) :
    h.run (Handler.serveBy healthy.outcomes.answer) store = (result, later) := by
  rw [← healthy.serve_eq]
  induction hends with
  | done | fail => rfl
  | @call c next answer _ between _ _ _ hanswer _ ih =>
    rw [← ih]
    show (next (healthy.answer _ c).1).run healthy.serve (healthy.answer _ c).2 = _
    rw [hanswer]

end TripArchive
