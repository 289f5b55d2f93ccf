import TripArchive.Proofs.Run.Schedule
import TripArchive.Proofs.Segment.Safe

/-!
# Healthy collaborators

The tables answer for themselves and nothing else fails: a fixed key and nonce, the telemetry of
each range, and a receipt for each item. Such collaborators answer every call, so that a handler
always goes on, and a handler that is safe under them ends alone as it does among others.
-/

namespace TripArchive

/-- What the collaborators beside the tables answer when none of them fails. -/
structure Healthy where
  key : Package.SegmentKey
  nonce : Package.Nonce
  telemetry : Telemetry.Range → Bytes
  receipt : Item → Archive.Receipt

namespace Healthy

/-- What replies to a call. -/
def reply (healthy : Healthy) : Call → Reply
  | .generateKey => .key healthy.key
  | .generateNonce => .nonce healthy.nonce
  | .fetch range => .telemetry (.ok (healthy.telemetry range))
  | .upload item => .archive (.ok (healthy.receipt item))
  | _ => .tables

/-- Every call is replied to. -/
theorem isSome_answer? (healthy : Healthy) (store : Store) (c : Call) :
    ((healthy.reply c).answer? store c).isSome = true := by
  cases c <;> rfl

/-- The answer to a call, and the tables after it. -/
def answer (healthy : Healthy) (store : Store) (c : Call) : c.Answer × Store :=
  ((healthy.reply c).answer? store c).get (healthy.isSome_answer? store c)

/-- The one way in which healthy collaborators answer. -/
def law (healthy : Healthy) : Law := fun store c answer later =>
  healthy.answer store c = (answer, later)

/-- How a handler is run by itself. -/
def serve (healthy : Healthy) (c : Call) : StateM Store c.Answer := fun store =>
  healthy.answer store c

variable {healthy : Healthy} {store later : Store} {c : Call} {answer : c.Answer}

/-- A healthy answer is one of the answers to a call. -/
theorem answers (h : healthy.law store c answer later) : store.Answers c answer later := by
  have hreply : (healthy.reply c).answer? store c = some (answer, later) := by
    rw [← Option.some_get (healthy.isSome_answer? store c)]
    exact congrArg some h
  exact Reply.answers hreply

end Healthy

namespace Handler

variable {α : Type} {healthy : Healthy} {rely promise : Store → Store → Prop}
  {post : Except SegmentError α → Store → Prop} {h : Handler α} {store : Store} {c : Call}
  {next : c.Answer → Handler α}

/-- A call that leaves the tables as they are is safe if the handler goes on safely. -/
theorem safe_reading (hreads : ∀ before, (healthy.answer before c).2 = before)
    (hpromise : ∀ before, rely store before → promise before before)
    (hnext : ∀ before, rely store before →
      (next (healthy.answer before c).1).Safe healthy.law rely promise post before) :
    (call c next).Safe healthy.law rely promise post store := by
  intro before answer later hbefore hanswer
  have hlater : before = later := (hreads before).symm.trans (congrArg Prod.snd hanswer)
  have hshown : (healthy.answer before c).1 = answer := congrArg Prod.fst hanswer
  subst hlater hshown
  exact ⟨hpromise before hbefore, hnext before hbefore⟩

/-- A safe handler that is run by itself keeps up what it relies on and ends as it should. -/
theorem Safe.run (hsafe : h.Safe healthy.law rely promise post store) (hrely : rely store store)
    (hpromise : ∀ {before later}, promise before later → rely later later) :
    rely (h.run healthy.serve store).2 (h.run healthy.serve store).2 ∧
      post (h.run healthy.serve store).1 (h.run healthy.serve store).2 := by
  induction h generalizing store with
  | done a => exact ⟨hrely, hsafe⟩
  | fail e => exact ⟨hrely, hsafe⟩
  | call c next ih =>
    obtain ⟨hkept, hnext⟩ := hsafe store _ _ hrely rfl
    exact ih _ hnext (hpromise hkept)

end Handler

end TripArchive
