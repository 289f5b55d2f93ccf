import TripArchive.Segment.Handler

/-!
# Paths through a handler

A handler is a tree of calls, and the answers it gets pick one path through it. What is left of a
handler after some answers is described here once, for a call, for a sequence of two handlers and
for a recovery, so that later proofs follow the text of a handler and never unfold the tree.
-/

namespace TripArchive

/-- A call together with what it was answered. -/
structure Answered where
  call : Call
  answer : call.Answer

namespace Answered

/-- Whether a segment was inserted under an identifier. -/
def inserts (id : String) : Answered → Bool
  | ⟨.insertSegment segment, .ok ()⟩ => segment.id = id
  | _ => false

/-- Whether the segment of an identifier was closed. -/
def closes (id : String) : Answered → Bool
  | ⟨.updateSegment closed _, .ok ()⟩ => closed = id
  | _ => false

/-- Whether the row of an identifier was written. -/
def writes (id : String) (answered : Answered) : Bool := answered.inserts id || answered.closes id

/-- The answers that show a handler the row of an identifier: it read the row, or inserted it. -/
inductive Shows (id : String) (row : Segment) : Answered → Prop
  | read : Shows id row ⟨.getSegment id, .ok (some row)⟩
  | inserted (hid : row.id = id) : Shows id row ⟨.insertSegment row, .ok ()⟩

end Answered

namespace Handler

variable {α β : Type}

/-- `Path h trace rest` says that the answers of `trace`, in their order, leave `rest` of `h`. -/
inductive Path : Handler α → List Answered → Handler α → Prop
  | nil (h : Handler α) : Path h [] h
  | cons {c : Call} {next : c.Answer → Handler α} {answer : c.Answer} {trace : List Answered}
      {rest : Handler α} : Path (next answer) trace rest →
      Path (call c next) (⟨c, answer⟩ :: trace) rest

/-- One more answer takes a path one call further. -/
theorem Path.snoc {h : Handler α} {trace : List Answered} {c : Call}
    {next : c.Answer → Handler α} (hpath : Path h trace (call c next)) (answer : c.Answer) :
    Path h (trace ++ [⟨c, answer⟩]) (next answer) := by
  generalize hrest : call c next = rest at hpath
  induction hpath with
  | nil h =>
    subst hrest
    exact .cons (.nil _)
  | cons _ ih => exact .cons (ih hrest)

/-- A finished handler takes no answers. -/
@[simp] theorem path_done {a : α} {trace : List Answered} {rest : Handler α} :
    Path (done a) trace rest ↔ trace = [] ∧ rest = done a := by
  constructor
  · intro hpath
    cases hpath
    exact ⟨rfl, rfl⟩
  · rintro ⟨rfl, rfl⟩
    exact .nil _

/-- A failed handler takes no answers. -/
@[simp] theorem path_fail {e : SegmentError} {trace : List Answered} {rest : Handler α} :
    Path (fail e) trace rest ↔ trace = [] ∧ rest = fail e := by
  constructor
  · intro hpath
    cases hpath
    exact ⟨rfl, rfl⟩
  · rintro ⟨rfl, rfl⟩
    exact .nil _

/-- A handler at a call is still there, or it goes on from the answer. -/
theorem path_call {c : Call} {next : c.Answer → Handler α} {trace : List Answered}
    {rest : Handler α} :
    Path (call c next) trace rest ↔
      trace = [] ∧ rest = call c next ∨
        ∃ answer later, trace = ⟨c, answer⟩ :: later ∧ Path (next answer) later rest := by
  constructor
  · intro hpath
    cases hpath with
    | nil => exact Or.inl ⟨rfl, rfl⟩
    | cons hnext => exact Or.inr ⟨_, _, rfl, hnext⟩
  · rintro (⟨rfl, rfl⟩ | ⟨answer, later, rfl, hnext⟩)
    · exact .nil _
    · exact .cons hnext

/-- A handler at a call that is done later got its answer. -/
theorem path_call_done {c : Call} {next : c.Answer → Handler α} {trace : List Answered} {a : α}
    (hpath : Path (call c next) trace (done a)) :
    ∃ answer later, trace = ⟨c, answer⟩ :: later ∧ Path (next answer) later (done a) := by
  rcases path_call.mp hpath with ⟨_, hrest⟩ | hnext
  · cases hrest
  · exact hnext

/-- Only an answer without an error has a value. -/
theorem path_ofExcept_done {ε : Type} {wrap : ε → SegmentError} {answer : Except ε α}
    {trace : List Answered} {a : α} (hpath : Path (ofExcept wrap answer) trace (done a)) :
    trace = [] ∧ answer = .ok a := by
  cases answer with
  | ok value =>
    obtain ⟨htrace, hrest⟩ := path_done.mp hpath
    cases hrest
    exact ⟨htrace, rfl⟩
  | error e =>
    obtain ⟨_, hrest⟩ := path_fail.mp hpath
    cases hrest

/-- Taking the value of an answer needs no further answer. -/
theorem path_ofExcept {ε : Type} {wrap : ε → SegmentError} {answer : Except ε α}
    {trace : List Answered} {rest : Handler α} (hpath : Path (ofExcept wrap answer) trace rest) :
    trace = [] ∧ rest = ofExcept wrap answer := by
  cases answer with
  | ok value => exact path_done.mp hpath
  | error e => exact path_fail.mp hpath

/-- A sequence is not done as long as its second handler is not done. -/
theorem bind_ne_done {h : Handler α} {f : α → Handler β} {b : β} (hf : ∀ a, f a ≠ done b) :
    h.bind f ≠ done b := by
  intro hdone
  cases h with
  | done a => exact hf a hdone
  | fail e => cases hdone
  | call c next => cases hdone

/-- A path of a sequence stays in the first handler, or it finishes the first one and goes on in
the second. -/
theorem path_bind {h : Handler α} {f : α → Handler β} {trace : List Answered} {rest : Handler β}
    (hpath : Path (h.bind f) trace rest) :
    (∃ middle, Path h trace middle ∧ rest = middle.bind f) ∨
      ∃ first second a, trace = first ++ second ∧ Path h first (done a) ∧
        Path (f a) second rest := by
  induction h generalizing trace with
  | done a => exact Or.inr ⟨[], trace, a, rfl, .nil _, hpath⟩
  | fail e =>
    obtain ⟨rfl, rfl⟩ := path_fail.mp hpath
    exact Or.inl ⟨fail e, .nil _, rfl⟩
  | call c next ih =>
    rcases path_call.mp hpath with ⟨rfl, rfl⟩ | ⟨answer, later, rfl, hnext⟩
    · exact Or.inl ⟨call c next, .nil _, rfl⟩
    · rcases ih answer hnext with
        ⟨middle, hmiddle, hrest⟩ | ⟨first, second, a, rfl, hfirst, hsecond⟩
      · exact Or.inl ⟨middle, .cons hmiddle, hrest⟩
      · exact Or.inr ⟨_ :: first, second, a, rfl, .cons hfirst, hsecond⟩

/-- A sequence that is done has finished both of its handlers. -/
theorem path_bind_done {h : Handler α} {f : α → Handler β} {trace : List Answered} {b : β}
    (hpath : Path (h.bind f) trace (done b)) :
    ∃ first second a, trace = first ++ second ∧ Path h first (done a) ∧
      Path (f a) second (done b) := by
  rcases path_bind hpath with ⟨middle, hmiddle, hrest⟩ | hboth
  · cases middle with
    | done a => exact ⟨trace, [], a, by simp, hmiddle, hrest ▸ .nil _⟩
    | fail e => cases hrest
    | call c next => cases hrest
  · exact hboth

/-- A path of a handler with a recovery stays in the handler, or the handler fails and the path
goes on in the recovery. -/
theorem path_recover {h : Handler α} {f : SegmentError → Handler α} {trace : List Answered}
    {rest : Handler α} (hpath : Path (h.recover f) trace rest) :
    (∃ middle, Path h trace middle ∧ rest = middle.recover f) ∨
      ∃ first second e, trace = first ++ second ∧ Path h first (fail e) ∧
        Path (f e) second rest := by
  induction h generalizing trace with
  | done a =>
    obtain ⟨rfl, rfl⟩ := path_done.mp hpath
    exact Or.inl ⟨done a, .nil _, rfl⟩
  | fail e => exact Or.inr ⟨[], trace, e, rfl, .nil _, hpath⟩
  | call c next ih =>
    rcases path_call.mp hpath with ⟨rfl, rfl⟩ | ⟨answer, later, rfl, hnext⟩
    · exact Or.inl ⟨call c next, .nil _, rfl⟩
    · rcases ih answer hnext with
        ⟨middle, hmiddle, hrest⟩ | ⟨first, second, e, rfl, hfirst, hsecond⟩
      · exact Or.inl ⟨middle, .cons hmiddle, hrest⟩
      · exact Or.inr ⟨_ :: first, second, e, rfl, .cons hfirst, hsecond⟩

/-- A handler with a recovery that is done was done by itself, or failed and was recovered. -/
theorem path_recover_done {h : Handler α} {f : SegmentError → Handler α} {trace : List Answered}
    {a : α} (hpath : Path (h.recover f) trace (done a)) :
    Path h trace (done a) ∨
      ∃ first second e, trace = first ++ second ∧ Path h first (fail e) ∧
        Path (f e) second (done a) := by
  rcases path_recover hpath with ⟨middle, hmiddle, hrest⟩ | hfailed
  · cases middle with
    | done b =>
      cases hrest
      exact Or.inl hmiddle
    | fail e => exact Or.inr ⟨trace, [], e, by simp, hmiddle, hrest ▸ .nil _⟩
    | call c next => cases hrest
  · exact Or.inr hfailed

/-- Every call that a handler can make satisfies `P`, whatever it is answered. -/
def Only (P : Call → Prop) : Handler α → Prop
  | done _ => True
  | fail _ => True
  | call c next => P c ∧ ∀ answer, (next answer).Only P

variable {P Q : Call → Prop}

/-- What follows from a condition on all calls of a handler holds for all of them. -/
theorem Only.mono {h : Handler α} (honly : h.Only P) (hmore : ∀ c, P c → Q c) : h.Only Q := by
  induction h with
  | done a => trivial
  | fail e => trivial
  | call c next ih => exact ⟨hmore c honly.1, fun answer => ih answer (honly.2 answer)⟩

/-- A sequence makes the calls of its two handlers. -/
theorem Only.bind {h : Handler α} {f : α → Handler β} (hfirst : h.Only P)
    (hsecond : ∀ a, (f a).Only P) : (h.bind f).Only P := by
  induction h with
  | done a => exact hsecond a
  | fail e => trivial
  | call c next ih => exact ⟨hfirst.1, fun answer => ih answer (hfirst.2 answer)⟩

/-- A handler with a recovery makes the calls of both. -/
theorem Only.recover {h : Handler α} {f : SegmentError → Handler α} (hfirst : h.Only P)
    (hsecond : ∀ e, (f e).Only P) : (h.recover f).Only P := by
  induction h with
  | done a => trivial
  | fail e => exact hsecond e
  | call c next ih => exact ⟨hfirst.1, fun answer => ih answer (hfirst.2 answer)⟩

/-- Taking the value of an answer needs no call. -/
theorem only_ofExcept {ε : Type} {wrap : ε → SegmentError} (answer : Except ε α) :
    (ofExcept wrap answer).Only P := by
  cases answer <;> trivial

/-- The answers on a path belong to calls that the handler can make. -/
theorem Path.only {h rest : Handler α} {trace : List Answered} (hpath : Path h trace rest)
    (honly : h.Only P) : (∀ answered ∈ trace, P answered.call) ∧ rest.Only P := by
  induction hpath with
  | nil => exact ⟨by simp, honly⟩
  | cons _ ih =>
    obtain ⟨hlater, hrest⟩ := ih (honly.2 _)
    exact ⟨List.forall_mem_cons.mpr ⟨honly.1, hlater⟩, hrest⟩

end Handler

end TripArchive
