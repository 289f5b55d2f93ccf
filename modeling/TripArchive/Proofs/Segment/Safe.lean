import TripArchive.Proofs.Segment.Path
import TripArchive.Store

/-!
# Handlers side by side

Between two calls of a handler the tables change under it. `Safe` says what a handler makes of that:
as long as the others change the tables only as it relies on, every answered call of its own keeps
its promise, and its result fits a condition on the tables it ends with. The rules follow the way
handlers are put together, so that a handler is safe by its text.
-/

namespace TripArchive

/-- Which answer a call may get from some tables, and which tables it leaves. -/
abbrev Law := Store → (c : Call) → c.Answer → Store → Prop

namespace Handler

variable {α β : Type} {law : Law} {rely promise : Store → Store → Prop}
  {post : Except SegmentError α → Store → Prop} {h : Handler α} {store later : Store}

/-- Whether a handler that goes on from some tables keeps its promise and ends as it should, if the
others keep what it relies on and its calls are answered by a law. -/
def Safe (law : Law) (rely promise : Store → Store → Prop)
    (post : Except SegmentError α → Store → Prop) : Handler α → Store → Prop
  | done a, store => post (.ok a) store
  | fail e, store => post (.error e) store
  | call c next, store => ∀ before answer later, rely store before → law before c answer later →
      promise before later ∧ (next answer).Safe law rely promise post later

/-- Taking the value of an answer ends with it. -/
theorem safe_ofExcept {ε : Type} {wrap : ε → SegmentError} {answer : Except ε α}
    (hok : ∀ a, answer = .ok a → post (.ok a) store)
    (herror : ∀ e, answer = .error e → post (.error (wrap e)) store) :
    (ofExcept wrap answer).Safe law rely promise post store := by
  cases answer with
  | ok a => exact hok a rfl
  | error e => exact herror e rfl

/-- A handler that relies on less, promises more and ends better is safe for others too. -/
theorem Safe.weaken {rely' promise' : Store → Store → Prop}
    {post' : Except SegmentError α → Store → Prop} (hsafe : h.Safe law rely promise post store)
    (hrely : ∀ before later, rely' before later → rely before later)
    (hpromise : ∀ before later, promise before later → promise' before later)
    (hpost : ∀ result later, post result later → post' result later) :
    h.Safe law rely' promise' post' store := by
  induction h generalizing store with
  | done a => exact hpost _ _ hsafe
  | fail e => exact hpost _ _ hsafe
  | call c next ih =>
    intro before answer later hbefore hanswer
    obtain ⟨hkept, hnext⟩ := hsafe before answer later (hrely _ _ hbefore) hanswer
    exact ⟨hpromise _ _ hkept, ih answer hnext⟩

/-- A handler stays safe while the others change the tables. -/
theorem Safe.mono (hsafe : h.Safe law rely promise post store) (hgrown : rely store later)
    (htrans : ∀ {a b c}, rely a b → rely b c → rely a c)
    (hstable : ∀ result {before later}, post result before → rely before later →
      post result later) : h.Safe law rely promise post later := by
  cases h with
  | done a => exact hstable _ hsafe hgrown
  | fail e => exact hstable _ hsafe hgrown
  | call c next =>
    intro before answer last hbefore hanswer
    exact hsafe before answer last (htrans hgrown hbefore) hanswer

/-- A sequence is safe if its first handler is, and the second one is from where the first ends. -/
theorem Safe.bind {f : α → Handler β} {post' : Except SegmentError β → Store → Prop}
    (hfirst : h.Safe law rely promise post store)
    (hok : ∀ a later, post (.ok a) later → (f a).Safe law rely promise post' later)
    (herror : ∀ e later, post (.error e) later → post' (.error e) later) :
    (h.bind f).Safe law rely promise post' store := by
  induction h generalizing store with
  | done a => exact hok a store hfirst
  | fail e => exact herror e store hfirst
  | call c next ih =>
    intro before answer later hbefore hanswer
    obtain ⟨hkept, hnext⟩ := hfirst before answer later hbefore hanswer
    exact ⟨hkept, ih answer hnext⟩

/-- A handler with a recovery is safe if the handler is, and the recovery is from where it fails. -/
theorem Safe.recover {f : SegmentError → Handler α}
    {post' : Except SegmentError α → Store → Prop}
    (hfirst : h.Safe law rely promise post store)
    (hok : ∀ a later, post (.ok a) later → post' (.ok a) later)
    (herror : ∀ e later, post (.error e) later → (f e).Safe law rely promise post' later) :
    (h.recover f).Safe law rely promise post' store := by
  induction h generalizing store with
  | done a => exact hok a store hfirst
  | fail e => exact herror e store hfirst
  | call c next ih =>
    intro before answer later hbefore hanswer
    obtain ⟨hkept, hnext⟩ := hfirst before answer later hbefore hanswer
    exact ⟨hkept, ih answer hnext⟩

/-- What the others and the handler's own calls keep is kept from the start of a handler to its
end. -/
theorem Safe.remember {kept : Store → Store → Prop} {origin : Store}
    (hsafe : h.Safe law rely promise post store)
    (htrans : ∀ {a b c}, kept a b → kept b c → kept a c)
    (hrely : ∀ {before later}, rely before later → kept before later)
    (hstep : ∀ {before c answer later}, law before c answer later → promise before later →
      kept before later)
    (horigin : kept origin store) :
    h.Safe law rely promise (fun result later => kept origin later ∧ post result later) store := by
  induction h generalizing store with
  | done a => exact ⟨horigin, hsafe⟩
  | fail e => exact ⟨horigin, hsafe⟩
  | call c next ih =>
    intro before answer later hbefore hanswer
    obtain ⟨hkept, hnext⟩ := hsafe before answer later hbefore hanswer
    have hlater := htrans (htrans horigin (hrely hbefore)) (hstep hanswer hkept)
    exact ⟨hkept, ih answer hnext hlater⟩

end Handler

end TripArchive
