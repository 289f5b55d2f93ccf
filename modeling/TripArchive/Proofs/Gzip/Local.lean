import TripArchive.Gzip.Member
import TripArchive.Proofs.Except

/-!
# Readers that stop

A reader takes bytes from the front of its input and leaves the rest. It is `Local` if it never goes
back and if what it gives depends on nothing that it leaves: followed by other bytes, its input is
read in the same way and these bytes are left. Readers put together from local ones are local, and
so is a loop over a local step, whose fuel is the number of bits that are left.
-/

namespace TripArchive.Gzip

variable {α β σ τ υ : Type}

/-- Repeats a step that changes a value and says whether to go on. -/
def repeated (step : β → σ → Except Fault ((Bool × β) × σ)) :
    (fuel : Nat) → β → σ → Except Fault (β × σ)
  | 0, _, _ => .error .truncated
  | fuel + 1, x, s => do
    let ((more, x), s) ← step x s
    if more then repeated step fuel x s else .ok (x, s)

/-- A repetition is its first step and, if that says so, a repetition with less fuel. -/
theorem repeated_eq_ok {step : β → σ → Except Fault ((Bool × β) × σ)} {fuel : Nat} {x y : β}
    {s t : σ} :
    repeated step (fuel + 1) x s = .ok (y, t) ↔ ∃ more x' s', step x s = .ok ((more, x'), s') ∧
      (if more then repeated step fuel x' s' else .ok (x', s')) = .ok (y, t) := by
  rw [repeated, bind_eq_ok]
  constructor
  · rintro ⟨⟨⟨more, x'⟩, s'⟩, hstep, hthen⟩
    exact ⟨more, x', s', hstep, hthen⟩
  · rintro ⟨more, x', s', hstep, hthen⟩
    exact ⟨_, hstep, hthen⟩

/-- What readers read. -/
class Input (σ : Type) where
  /-- The bytes of which nothing is taken yet. -/
  rest : σ → Bytes
  /-- The number of bits that are left. -/
  left : σ → Nat
  /-- The input with more bytes behind it. -/
  followedBy : σ → Bytes → σ

open Input

instance : Input Bytes where
  rest bytes := bytes
  left bytes := 8 * bytes.length
  followedBy bytes tail := bytes ++ tail

/-- The stream with more bytes behind it. Where no byte is begun, the first of them is next. -/
def Bits.followedBy (s : Bits) (tail : Bytes) : Bits :=
  if s.bytes = [] then ofBytes tail else ⟨s.bytes ++ tail, s.used⟩

instance : Input Bits where
  rest := Bits.rest
  left := Bits.left
  followedBy := Bits.followedBy

variable [Input σ] [Input τ] [Input υ]

/-- A reading of an input that may be followed by any bytes stops before them: if it leaves those
that follow, it leaves whatever follows, and gives the same. -/
def Stops (run : Bytes → Except Fault (α × τ)) : Prop :=
  ∀ tail a t, run tail = .ok (a, t) → tail <:+ rest t →
    ∃ last, t = followedBy last tail ∧ ∀ other, run other = .ok (a, followedBy last other)

/-- A reader that never goes back, and stops before whatever follows what it takes. -/
structure Local (read : σ → Except Fault (α × τ)) : Prop where
  advances : ∀ {s a t}, read s = .ok (a, t) → rest t <:+ rest s
  shrinks : ∀ {s a t}, read s = .ok (a, t) → left t ≤ left s
  stops : ∀ s, Stops fun other => read (followedBy s other)

/-- Readings in sequence stop if each of them does. -/
theorem Stops.bind {first : Bytes → Except Fault (α × σ)}
    {next : Bytes → α × σ → Except Fault (β × τ)} (hfirst : Stops first)
    (hadvances : ∀ {other p b t}, first other = .ok p → next other p = .ok (b, t) →
      rest t <:+ rest p.2)
    (hnext : ∀ a s, (∃ other, first other = .ok (a, followedBy s other)) →
      Stops fun other => next other (a, followedBy s other)) :
    Stops fun other => first other >>= next other := by
  intro tail b t h htail
  obtain ⟨⟨a, s⟩, hread, hthen⟩ := bind_eq_ok.mp h
  obtain ⟨last, rfl, hfirst⟩ := hfirst tail a s hread (htail.trans (hadvances hread hthen))
  obtain ⟨last', rfl, hnext⟩ := hnext a last ⟨tail, hread⟩ tail b t hthen htail
  exact ⟨last', rfl, fun other => bind_eq_ok.mpr ⟨_, hfirst other, hnext other⟩⟩

/-- Reading nothing is local. -/
theorem local_ok (a : α) : Local fun s : σ => (.ok (a, s) : Except Fault (α × σ)) where
  advances h := by
    cases h
    exact List.suffix_rfl
  shrinks h := by
    cases h
    exact Nat.le_refl _
  stops s _ _ _ h _ := by
    cases h
    exact ⟨s, rfl, fun _ => rfl⟩

/-- Refusing every input is local. -/
theorem local_error (fault : Fault) :
    Local fun _ : σ => (.error fault : Except Fault (α × τ)) where
  advances h := by cases h
  shrinks h := by cases h
  stops _ _ _ _ h _ := by cases h

/-- A sequence of local readers is local. The second one has to be local only for the values that
the first one gives. -/
theorem Local.bind {read : σ → Except Fault (α × τ)} {next : α × τ → Except Fault (β × υ)}
    (hread : Local read)
    (hnext : ∀ a, (∃ s t, read s = .ok (a, t)) → Local fun t => next (a, t)) :
    Local fun s => read s >>= next where
  advances h := by
    obtain ⟨⟨a, t⟩, hfirst, hthen⟩ := bind_eq_ok.mp h
    exact ((hnext a ⟨_, t, hfirst⟩).advances hthen).trans (hread.advances hfirst)
  shrinks h := by
    obtain ⟨⟨a, t⟩, hfirst, hthen⟩ := bind_eq_ok.mp h
    exact Nat.le_trans ((hnext a ⟨_, t, hfirst⟩).shrinks hthen) (hread.shrinks hfirst)
  stops s := Stops.bind (hread.stops s)
    (fun hfirst hthen => (hnext _ ⟨_, _, hfirst⟩).advances hthen)
    fun a t ⟨_, hfirst⟩ => (hnext a ⟨_, _, hfirst⟩).stops t

/-- A choice that does not depend on the input, between local readers, is local. -/
theorem local_ite {p : Prop} [Decidable p] {read other : σ → Except Fault (α × τ)}
    (hread : p → Local read) (hother : ¬p → Local other) :
    Local fun s => if p then read s else other s := by
  by_cases h : p
  · simpa only [if_pos h] using hread h
  · simpa only [if_neg h] using hother h

/-- A value that does not depend on the input, and a local reader for it, is local. -/
theorem local_given {given : Except Fault α} {next : α → σ → Except Fault (β × τ)}
    (hnext : ∀ a, given = .ok a → Local (next a)) : Local fun s => given >>= fun a => next a s := by
  cases given with
  | error fault => exact local_error fault
  | ok a => exact hnext a rfl

section Repeated

variable {step : β → σ → Except Fault ((Bool × β) × σ)}

/-- A repetition of local steps never goes back. -/
theorem repeated_advances (hstep : ∀ x, Local (step x)) {fuel : Nat} {x y : β} {s t : σ}
    (h : repeated step fuel x s = .ok (y, t)) : rest t <:+ rest s ∧ left t ≤ left s := by
  induction fuel generalizing x s with
  | zero => cases h
  | succ fuel ih =>
    obtain ⟨more, x', s', hfirst, hthen⟩ := repeated_eq_ok.mp h
    have hrest := (hstep x).advances hfirst
    have hleft := (hstep x).shrinks hfirst
    cases more
    · cases hthen
      exact ⟨hrest, hleft⟩
    · obtain ⟨hrest', hleft'⟩ := ih hthen
      exact ⟨hrest'.trans hrest, Nat.le_trans hleft' hleft⟩

/-- A repetition of local steps that each take something stops before whatever follows, with any
fuel that is at least what is left. -/
theorem repeated_stops (hstep : ∀ x, Local (step x))
    (htakes : ∀ {x s p t}, step x s = .ok (p, t) → left t < left s) {fuel : Nat} {x y : β} {s t : σ}
    {tail : Bytes} (h : repeated step fuel x (followedBy s tail) = .ok (y, t))
    (htail : tail <:+ rest t) :
    ∃ last, t = followedBy last tail ∧ ∀ other fuel', left (followedBy s other) ≤ fuel' →
      repeated step fuel' x (followedBy s other) = .ok (y, followedBy last other) := by
  induction fuel generalizing x s with
  | zero => cases h
  | succ fuel ih =>
    obtain ⟨more, x', s', hfirst, hthen⟩ := repeated_eq_ok.mp h
    have hmore : tail <:+ rest s' := by
      cases more
      · cases hthen
        exact htail
      · exact htail.trans (repeated_advances hstep hthen).1
    obtain ⟨next, rfl, hnext⟩ := (hstep x).stops s tail _ _ hfirst hmore
    -- With whatever follows, the first step takes some of the fuel and leaves enough of it.
    have hgo (last : σ) (hlast : ∀ other fuel', left (followedBy next other) ≤ fuel' →
        (if more then repeated step fuel' x' (followedBy next other)
          else .ok (x', followedBy next other)) = .ok (y, followedBy last other)) :
        ∀ other fuel', left (followedBy s other) ≤ fuel' →
          repeated step fuel' x (followedBy s other) = .ok (y, followedBy last other) := by
      intro other fuel' hfuel
      have hless := htakes (hnext other)
      obtain ⟨fuel', rfl⟩ : ∃ less, fuel' = less + 1 := ⟨fuel' - 1, by omega⟩
      exact repeated_eq_ok.mpr ⟨more, x', _, hnext other, hlast other fuel' (by omega)⟩
    cases more
    · cases hthen
      exact ⟨next, rfl, hgo next fun _ _ _ => rfl⟩
    · obtain ⟨last, rfl, hlast⟩ := ih hthen
      exact ⟨last, rfl, hgo last hlast⟩

end Repeated

/-- A loop is local if each of its steps begins with a local reader that takes something and goes on
locally. Its fuel is what is left. -/
theorem local_repeated {first : σ → Except Fault (α × σ)}
    {next : β → α × σ → Except Fault ((Bool × β) × σ)} (hfirst : Local first)
    (htakes : ∀ {s a t}, first s = .ok (a, t) → left t < left s)
    (hnext : ∀ x a, Local fun t => next x (a, t)) (x : β) :
    Local fun s => repeated (fun x s => first s >>= next x) (left s) x s := by
  have hstep (x : β) : Local fun s => first s >>= next x := hfirst.bind fun a _ => hnext x a
  have hless {x : β} {s t : σ} {p : Bool × β} (h : first s >>= next x = .ok (p, t)) :
      left t < left s := by
    obtain ⟨⟨a, s'⟩, hread, hthen⟩ := bind_eq_ok.mp h
    exact Nat.lt_of_le_of_lt ((hnext x a).shrinks hthen) (htakes hread)
  exact {
    advances := fun h => (repeated_advances hstep h).1
    shrinks := fun h => (repeated_advances hstep h).2
    stops := by
      intro s tail y t h htail
      obtain ⟨last, ht, hlast⟩ := repeated_stops hstep hless h htail
      exact ⟨last, ht, fun other => hlast other _ (Nat.le_refl _)⟩ }

/-- If a local reader leaves what follows some bytes, it leaves whatever follows them, and gives the
same. -/
theorem Local.append {read : Bytes → Except Fault (α × Bytes)} (hread : Local read)
    {front tail : Bytes} {a : α} (h : read (front ++ tail) = .ok (a, tail)) (other : Bytes) :
    read (front ++ other) = .ok (a, other) := by
  obtain ⟨last, hlast, hother⟩ := hread.stops front tail a tail h List.suffix_rfl
  obtain rfl : last = [] := List.self_eq_append_left.mp hlast
  exact hother other

/-- Taking a number of bytes is local. -/
theorem local_takeBytes (n : Nat) : Local (takeBytes n) where
  advances {bytes a t} h := by
    unfold takeBytes at h
    split at h
    · cases h
      exact List.drop_suffix n bytes
    · cases h
  shrinks {bytes a t} h := by
    unfold takeBytes at h
    split at h
    · cases h
      show 8 * (bytes.drop n).length ≤ 8 * bytes.length
      rw [List.length_drop]
      omega
    · cases h
  stops bytes tail a t h htail := by
    change takeBytes n (bytes ++ tail) = _ at h
    unfold takeBytes at h
    split at h
    · next hroom =>
      cases h
      have hshort : n ≤ bytes.length := by
        have hleft := htail.length_le
        change tail.length ≤ ((bytes ++ tail).drop n).length at hleft
        rw [List.length_drop, List.length_append] at hleft
        rw [List.length_append] at hroom
        omega
      refine ⟨bytes.drop n, List.drop_append_of_le_length hshort, fun other => ?_⟩
      show takeBytes n (bytes ++ other) = .ok (_, bytes.drop n ++ other)
      rw [takeBytes, if_pos (by rw [List.length_append]; omega),
        List.take_append_of_le_length hshort, List.take_append_of_le_length hshort,
        List.drop_append_of_le_length hshort]
    · cases h

namespace Bits

variable {s t : Bits} {tail : Bytes}

/-- Following a stream by more bytes adds them to what is left. -/
theorem rest_followedBy (s : Bits) (tail : Bytes) : (s.followedBy tail).rest = s.rest ++ tail := by
  obtain ⟨bytes, used⟩ := s
  cases bytes with
  | nil => simp [followedBy, rest, ofBytes]
  | cons b bytes =>
    simp only [followedBy, rest, List.cons_append, List.tail_cons, reduceCtorEq, if_false]
    split <;> rfl

/-- The stream of a byte string is followed by more bytes as the byte string is. -/
theorem followedBy_ofBytes (bytes tail : Bytes) :
    (ofBytes bytes).followedBy tail = ofBytes (bytes ++ tail) := by
  cases bytes <;> rfl

/-- Takes one bit. -/
def take (s : Bits) : Except Fault (Bool × Bits) :=
  match s.next? with
  | none => .error .truncated
  | some (bit, s) => .ok (bit, s)

/-- A bit is taken from the byte that is next, which is left behind with its last bit. -/
theorem take_cons (b : UInt8) (bytes : Bytes) (used : Fin 8) :
    take ⟨b :: bytes, used⟩ = .ok (b.toNat.testBit used,
      if used = 7 then ofBytes bytes else ⟨b :: bytes, used + 1⟩) := by
  by_cases hlast : used = 7 <;> simp [take, next?, hlast, ofBytes]

/-- Taking a bit leaves one less. -/
theorem left_take {bit : Bool} (h : s.take = .ok (bit, t)) : t.left + 1 = s.left := by
  unfold take at h
  split at h
  · cases h
  · next hnext =>
    cases h
    exact left_next? hnext

/-- A byte of which a bit is taken is no longer left. -/
theorem rest_taken (b : UInt8) (bytes : Bytes) (used : Fin 8) :
    (if used = 7 then ofBytes bytes else ⟨b :: bytes, used + 1⟩ : Bits).rest = bytes := by
  by_cases hlast : used = 7
  · rw [if_pos hlast]
    rfl
  · have hmore : used + 1 ≠ 0 := by
      revert hlast
      revert used
      decide
    rw [if_neg hlast, rest, if_neg hmore]
    rfl

/-- What is left once a bit is taken is followed by more bytes as before. -/
theorem followedBy_taken (b : UInt8) (bytes : Bytes) (used : Fin 8) (tail : Bytes) :
    (if used = 7 then ofBytes bytes else ⟨b :: bytes, used + 1⟩ : Bits).followedBy tail =
      if used = 7 then ofBytes (bytes ++ tail) else ⟨b :: (bytes ++ tail), used + 1⟩ := by
  split
  · exact followedBy_ofBytes bytes tail
  · rfl

/-- Taking a bit is local. -/
theorem local_take : Local take where
  advances {s bit t} h := by
    obtain ⟨bytes, used⟩ := s
    cases bytes with
    | nil => cases h
    | cons b bytes =>
      rw [take_cons] at h
      cases h
      show Bits.rest _ <:+ Bits.rest _
      rw [rest_taken, rest]
      split
      · exact List.suffix_cons b bytes
      · exact List.suffix_rfl
  shrinks h := Nat.le_of_succ_le (Nat.le_of_eq (left_take h))
  stops s tail bit t h htail := by
    obtain ⟨bytes, used⟩ := s
    cases bytes with
    | nil =>
      -- The bit would come from the bytes that follow.
      cases tail with
      | nil => cases h
      | cons b tail =>
        change take ⟨b :: tail, 0⟩ = _ at h
        rw [take_cons] at h
        cases h
        exact absurd htail.length_le (by simp [Input.rest, rest])
    | cons b bytes =>
      change take ⟨b :: (bytes ++ tail), used⟩ = _ at h
      rw [take_cons] at h
      cases h
      refine ⟨_, (followedBy_taken b bytes used tail).symm, fun other => ?_⟩
      show take ⟨b :: (bytes ++ other), used⟩ = _
      rw [take_cons, ← followedBy_taken]
      rfl

/-- A number takes its lowest bit first. -/
theorem number_succ (count : Nat) (s : Bits) :
    s.number (count + 1) = s.take >>= fun (bit, s) => s.number count >>= fun (n, s) =>
      .ok (bit.toNat + 2 * n, s) := by
  rw [number, take]
  cases s.next? <;> rfl

/-- Reading a number takes its bits. -/
theorem left_number {count n : Nat} (h : s.number count = .ok (n, t)) :
    t.left + count = s.left := by
  induction count generalizing n s with
  | zero =>
    cases h
    rfl
  | succ count ih =>
    rw [number_succ] at h
    obtain ⟨⟨bit, s'⟩, htake, h⟩ := bind_eq_ok.mp h
    obtain ⟨⟨n', t'⟩, hnumber, h⟩ := bind_eq_ok.mp h
    cases h
    have hfirst := left_take htake
    have hrest := ih hnumber
    omega

/-- Reading a number is local. -/
theorem local_number (count : Nat) : Local (number count) := by
  induction count with
  | zero => exact local_ok 0
  | succ count ih =>
    have hsucc : number (count + 1) = _ := funext (number_succ count)
    rw [hsucc]
    exact local_take.bind fun bit _ => ih.bind fun n _ => local_ok _

end Bits

namespace Tree

/-- A word goes on with its next bit. -/
theorem walk_node (zero one : Tree) (s : Bits) :
    (node zero one).walk s = s.take >>= fun (bit, s) => (if bit then one else zero).walk s := by
  rw [walk, Bits.take]
  rcases s.next? with _ | ⟨_ | _, t⟩ <;> rfl

/-- Following a word is local. -/
theorem local_walk (tree : Tree) : Local tree.walk := by
  induction tree with
  | empty => exact local_error .corrupt
  | leaf symbol => exact local_ok symbol
  | node zero one hzero hone =>
    have hnode : (node zero one).walk = _ := funext (walk_node zero one)
    rw [hnode]
    refine Bits.local_take.bind fun bit _ => ?_
    cases bit
    · exact hzero
    · exact hone

/-- What is read is a word of the code. -/
theorem read_eq_ok {tree : Tree} {s t : Bits} {symbol : Nat} :
    tree.read s = .ok (symbol, t) ↔ tree.walk s = .ok (symbol, t) := by
  unfold read
  split
  · next h => simp [h]
  · exact Iff.rfl

/-- Reading a word is local. -/
theorem local_read (tree : Tree) : Local tree.read where
  advances h := tree.local_walk.advances (read_eq_ok.mp h)
  shrinks h := tree.local_walk.shrinks (read_eq_ok.mp h)
  stops s tail symbol t h htail := by
    obtain ⟨last, ht, hother⟩ := tree.local_walk.stops s tail symbol t (read_eq_ok.mp h) htail
    exact ⟨last, ht, fun other => read_eq_ok.mpr (hother other)⟩

end Tree

end TripArchive.Gzip
