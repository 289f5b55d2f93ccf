import TripArchive.Proofs.Segment.Safe

/-!
# A handler by itself

`Ends` says how a handler ends that nobody disturbs: a law answers its calls one after another, and
only these calls change the tables. Such an end is taken apart along the text of a handler, and what
a safe handler ends with among others it also ends with alone.
-/

namespace TripArchive.Handler

variable {α β : Type} {law : Law} {h : Handler α} {store later : Store} {trace : List Answered}
  {result : Except SegmentError α}

/-- How a handler ends by itself: the answers that it got by a law, its result and the tables that
it left. -/
inductive Ends (law : Law) :
    Handler α → Store → List Answered → Except SegmentError α → Store → Prop
  | done (a : α) (store : Store) : Ends law (done a) store [] (.ok a) store
  | fail (e : SegmentError) (store : Store) : Ends law (fail e) store [] (.error e) store
  | call {c : Call} {next : c.Answer → Handler α} {answer : c.Answer} {store between later : Store}
      {trace : List Answered} {result : Except SegmentError α}
      (hanswer : law store c answer between)
      (hnext : Ends law (next answer) between trace result later) :
      Ends law (call c next) store (⟨c, answer⟩ :: trace) result later

/-- Whatever is asked, a law that answers every call brings a handler to its end. -/
theorem exists_ends (hlaw : ∀ store c, ∃ answer later, law store c answer later) (h : Handler α)
    (store : Store) : ∃ trace result later, h.Ends law store trace result later := by
  induction h generalizing store with
  | done a => exact ⟨[], _, _, .done a store⟩
  | fail e => exact ⟨[], _, _, .fail e store⟩
  | call c next ih =>
    obtain ⟨answer, between, hanswer⟩ := hlaw store c
    obtain ⟨trace, result, later, hnext⟩ := ih answer between
    exact ⟨_, result, later, .call hanswer hnext⟩

/-- The answers of an end lead the handler to its result. -/
theorem Ends.path (hends : h.Ends law store trace result later) :
    Path h trace (ofExcept id result) := by
  induction hends with
  | done a store => exact .nil _
  | fail e store => exact .nil _
  | call _ _ ih => exact .cons ih

/-- What a law allows, a law that allows more does too. -/
theorem Ends.weaken {law' : Law} (hends : h.Ends law store trace result later)
    (hlaw : ∀ {store c answer later}, law store c answer later → law' store c answer later) :
    h.Ends law' store trace result later := by
  induction hends with
  | done a store => exact .done a store
  | fail e store => exact .fail e store
  | call hanswer _ ih => exact .call (hlaw hanswer) ih

/-- Taking the value of an answer leaves the tables as they are. -/
theorem Ends.of_ofExcept {ε : Type} {wrap : ε → SegmentError} {answer : Except ε α}
    (hends : (ofExcept wrap answer).Ends law store trace result later) :
    trace = [] ∧ result = answer.mapError wrap ∧ later = store := by
  cases answer with
  | ok a =>
    cases hends
    exact ⟨rfl, rfl, rfl⟩
  | error e =>
    cases hends
    exact ⟨rfl, rfl, rfl⟩

/-- Taking the value of an answer ends at once. -/
theorem ends_ofExcept {ε : Type} (wrap : ε → SegmentError) (answer : Except ε α) (store : Store) :
    (ofExcept wrap answer).Ends law store [] (answer.mapError wrap) store := by
  cases answer with
  | ok a => exact .done a store
  | error e => exact .fail (wrap e) store

/-- A single call ends with its answer. -/
theorem Ends.of_ask {ε : Type} {wrap : ε → SegmentError} {c : Call} {read : c.Answer → Except ε α}
    (hends : (Handler.call c fun answer => ofExcept wrap (read answer)).Ends law store trace result
      later) :
    ∃ answer, law store c answer later ∧ trace = [⟨c, answer⟩] ∧
      result = (read answer).mapError wrap := by
  cases hends with
  | call hanswer hnext =>
    obtain ⟨rfl, hresult, rfl⟩ := hnext.of_ofExcept
    exact ⟨_, hanswer, rfl, hresult⟩

/-- A sequence ends where its first handler fails, or where its second one ends after it. -/
theorem Ends.of_bind {f : α → Handler β} {result : Except SegmentError β}
    (hends : (h.bind f).Ends law store trace result later) :
    (∃ e, result = .error e ∧ h.Ends law store trace (.error e) later) ∨
      ∃ first second a between, trace = first ++ second ∧
        h.Ends law store first (.ok a) between ∧ (f a).Ends law between second result later := by
  induction h generalizing store trace with
  | done a => exact Or.inr ⟨[], trace, a, store, rfl, .done a store, hends⟩
  | fail e =>
    cases hends
    exact Or.inl ⟨e, rfl, .fail e _⟩
  | call c next ih =>
    cases hends with
    | call hanswer hnext =>
      rcases ih _ hnext with
        ⟨e, hresult, hfirst⟩ | ⟨first, second, a, between, rfl, hfirst, hsecond⟩
      · exact Or.inl ⟨e, hresult, .call hanswer hfirst⟩
      · exact Or.inr ⟨_, second, a, between, rfl, .call hanswer hfirst, hsecond⟩

/-- A handler with a recovery ends with its value, or where the recovery ends after its failure. -/
theorem Ends.of_recover {f : SegmentError → Handler α}
    (hends : (h.recover f).Ends law store trace result later) :
    (∃ a, result = .ok a ∧ h.Ends law store trace (.ok a) later) ∨
      ∃ first second e between, trace = first ++ second ∧
        h.Ends law store first (.error e) between ∧ (f e).Ends law between second result later := by
  induction h generalizing store trace with
  | done a =>
    cases hends
    exact Or.inl ⟨a, rfl, .done a _⟩
  | fail e => exact Or.inr ⟨[], trace, e, store, rfl, .fail e store, hends⟩
  | call c next ih =>
    cases hends with
    | call hanswer hnext =>
      rcases ih _ hnext with
        ⟨a, hresult, hfirst⟩ | ⟨first, second, e, between, rfl, hfirst, hsecond⟩
      · exact Or.inl ⟨a, hresult, .call hanswer hfirst⟩
      · exact Or.inr ⟨_, second, e, between, rfl, .call hanswer hfirst, hsecond⟩

section

variable {rely promise : Store → Store → Prop} {post : Except SegmentError α → Store → Prop}

/-- A safe handler ends by itself as it should. -/
theorem Safe.ends (hsafe : h.Safe law rely promise post store) (hrely : ∀ store, rely store store)
    (hends : h.Ends law store trace result later) : post result later := by
  induction hends with
  | done a store => exact hsafe
  | fail e store => exact hsafe
  | call hanswer _ ih => exact ih (hsafe _ _ _ (hrely _) hanswer).2

end

section

variable {P : SegmentError → Prop}

/-- Every failure of a handler satisfies `P`, whatever its calls are answered. -/
def Fails (P : SegmentError → Prop) : Handler α → Prop
  | done _ => True
  | fail e => P e
  | call _ next => ∀ answer, (next answer).Fails P

/-- Taking the value of an answer fails with its error. -/
theorem fails_ofExcept {ε : Type} {wrap : ε → SegmentError} (answer : Except ε α)
    (hwrap : ∀ error, P (wrap error)) : (ofExcept wrap answer).Fails P := by
  cases answer with
  | ok a => trivial
  | error error => exact hwrap error

/-- A sequence fails as one of its handlers does. -/
theorem Fails.bind {f : α → Handler β} (hfirst : h.Fails P) (hsecond : ∀ a, (f a).Fails P) :
    (h.bind f).Fails P := by
  induction h with
  | done a => exact hsecond a
  | fail e => exact hfirst
  | call c next ih => exact fun answer => ih answer (hfirst answer)

/-- A handler that ends in a failure ends in one of its own. -/
theorem Ends.fails {e : SegmentError} (hends : h.Ends law store trace (.error e) later)
    (hfails : h.Fails P) : P e := by
  generalize hresult : Except.error e = result at hends
  induction hends with
  | done => cases hresult
  | fail =>
    cases hresult
    exact hfails
  | call _ _ ih => exact ih (hfails _) hresult

end

/-- How a handler is run by itself on collaborators that have one answer to each call. -/
def serveBy (answer : Store → (c : Call) → c.Answer × Store) (c : Call) : StateM Store c.Answer :=
  fun store => answer store c

variable {answer : Store → (c : Call) → c.Answer × Store}

/-- A sequence runs its second handler on what the first one leaves. -/
theorem run_bind (h : Handler α) (f : α → Handler β) (store : Store) :
    (h.bind f).run (serveBy answer) store =
      match h.run (serveBy answer) store with
      | (.ok a, between) => (f a).run (serveBy answer) between
      | (.error e, later) => (.error e, later) := by
  induction h generalizing store with
  | done a => rfl
  | fail e => rfl
  | call c next ih => exact ih (answer store c).1 (answer store c).2

/-- A handler with a recovery runs the recovery on what its failure leaves. -/
theorem run_recover (h : Handler α) (f : SegmentError → Handler α) (store : Store) :
    (h.recover f).run (serveBy answer) store =
      match h.run (serveBy answer) store with
      | (.ok a, later) => (.ok a, later)
      | (.error e, between) => (f e).run (serveBy answer) between := by
  induction h generalizing store with
  | done a => rfl
  | fail e => rfl
  | call c next ih => exact ih (answer store c).1 (answer store c).2

/-- A handler that ends with a value needs no recovery. -/
theorem run_recover_of_ok {h : Handler α} {a : α} {store later : Store}
    (hrun : h.run (serveBy answer) store = (.ok a, later)) (f : SegmentError → Handler α) :
    (h.recover f).run (serveBy answer) store = (.ok a, later) := by
  rw [run_recover, hrun]

end TripArchive.Handler
