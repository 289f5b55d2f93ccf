import TripArchive.Json.Raw

/-!
# Numbers end where they end

A number is read up to a byte that cannot go on with it, whatever follows: each part of its grammar
is such a reader, and they are put together (`number?_local`). A value that begins as a number does
is read as one (`value?_of_number?`), and no other is (`number?_of_value?`).
-/

namespace TripArchive.Json

namespace Raw

variable {α : Type} {bytes rest : Bytes}

/-- Whether some bytes do not go on with a number. -/
def EndsNumber (rest : Bytes) : Prop :=
  ∀ b ∈ rest.head?, isDigit b = false ∧ b ≠ 0x2e ∧ b ≠ 0x65 ∧ b ≠ 0x45

/-- Readers that leave an end of what they were given, and that read the same when bytes follow that
do not go on with a number. -/
structure Local (read : Bytes → Option (α × Bytes)) : Prop where
  suffix {bytes left : Bytes} {a : α} : read bytes = some (a, left) → left <:+ bytes
  append {bytes left rest : Bytes} {a : α} : read bytes = some (a, left) → EndsNumber rest →
    read (bytes ++ rest) = some (a, left ++ rest)

/-- Digits are taken up to bytes that do not go on with them. -/
theorem takeWhile_append (bytes : Bytes) (h : EndsNumber rest) :
    (bytes ++ rest).takeWhile isDigit = bytes.takeWhile isDigit ∧
      (bytes ++ rest).dropWhile isDigit = bytes.dropWhile isDigit ++ rest := by
  induction bytes with
  | nil =>
    cases rest with
    | nil => exact ⟨rfl, rfl⟩
    | cons b rest =>
      have hb : ¬ isDigit b = true := by simp [(h b rfl).1]
      simp [hb]
  | cons b bytes ih =>
    by_cases hb : isDigit b = true
    · simp [hb, ih]
    · simp [hb]

/-- Digits are read by themselves. -/
theorem digits?_local : Local digits? where
  suffix := by
    intro bytes left found h
    unfold digits? at h
    split at h
    · cases h
    · cases h
      exact List.dropWhile_suffix _
  append := by
    intro bytes left rest found h hrest
    obtain ⟨htaken, hdropped⟩ := takeWhile_append bytes hrest
    unfold digits? at h ⊢
    rw [htaken, hdropped]
    split at h
    · cases h
    · next hsome =>
      cases h
      exact if_neg hsome

/-- The digits before the point are read by themselves. -/
theorem whole?_local : Local whole? where
  suffix := by
    intro bytes left found h
    unfold whole? at h
    split at h
    · split at h
      · cases h
      · cases h
        exact List.suffix_cons _ _
    · exact digits?_local.suffix h
  append := by
    intro bytes left rest found h hrest
    unfold whole? at h
    split at h
    · next tail =>
      split at h
      · cases h
      · next hnone =>
        cases h
        show (if (((left ++ rest).head?.map isDigit).getD false) = true then none
          else some ([0x30], left ++ rest)) = _
        refine if_neg ?_
        cases left with
        | nil =>
          cases rest with
          | nil => simp
          | cons b rest => simp [(hrest b rfl).1]
        | cons b left => exact hnone
    · next hzero =>
      unfold whole?
      split
      · next tail hbytes =>
        cases bytes with
        | nil => cases h
        | cons b bytes =>
          cases hbytes
          exact absurd rfl (hzero bytes)
      · exact digits?_local.append h hrest

/-- What is made of what is read does not matter. -/
theorem Local.map {β : Type} {read : Bytes → Option (α × Bytes)} (h : Local read) (make : α → β) :
    Local fun bytes => (read bytes).map fun found => (make found.1, found.2) where
  suffix := by
    intro bytes left b hread
    obtain ⟨⟨a, found⟩, hfound, hb⟩ := Option.map_eq_some_iff.mp hread
    cases hb
    exact h.suffix hfound
  append := by
    intro bytes left rest b hread hrest
    obtain ⟨⟨a, found⟩, hfound, hb⟩ := Option.map_eq_some_iff.mp hread
    cases hb
    dsimp only
    rw [h.append hfound hrest]
    rfl

/-- The digits after the point are read by themselves. -/
theorem fraction?_local : Local fraction? where
  suffix := by
    intro bytes left found h
    unfold fraction? at h
    split at h
    · exact ((digits?_local.map some).suffix h).trans (List.suffix_cons _ _)
    · cases h
      exact List.suffix_refl _
  append := by
    intro bytes left rest found h hrest
    unfold fraction? at h
    split at h
    · exact (digits?_local.map some).append h hrest
    · next hpoint =>
      cases h
      unfold fraction?
      split
      · next tail hbytes =>
        cases bytes with
        | nil =>
          rw [List.nil_append] at hbytes
          subst hbytes
          exact absurd rfl (hrest 0x2e rfl).2.1
        | cons b bytes =>
          cases hbytes
          exact absurd rfl (hpoint bytes)
      · rfl

/-- Reads the digits of an exponent after its sign. -/
def exponentDigits? (negative : Bool) (bytes : Bytes) : Option (Option Int × Bytes) :=
  (digits? bytes).map fun found =>
    (some (if negative then -(digitsValue found.1 : Int) else digitsValue found.1), found.2)

/-- The digits of an exponent are read by themselves. -/
theorem exponentDigits?_local (negative : Bool) : Local (exponentDigits? negative) :=
  digits?_local.map fun digits =>
    some (if negative then -(digitsValue digits : Int) else digitsValue digits)

/-- The byte behind the mark of an exponent settles its sign and where its digits begin. -/
theorem exists_exponent?_cons {b : UInt8} (hmark : b = 0x65 ∨ b = 0x45) (sign : UInt8)
    (tail : Bytes) : ∃ negative digits, digits <:+ sign :: tail ∧ ∀ rest,
      exponent? (b :: sign :: tail ++ rest) = exponentDigits? negative (digits ++ rest) := by
  by_cases hplus : sign = 0x2b
  · subst hplus
    refine ⟨false, tail, List.suffix_cons _ _, fun rest => ?_⟩
    rw [List.cons_append, List.cons_append, exponent?, if_pos hmark]
    rfl
  · by_cases hminus : sign = 0x2d
    · subst hminus
      refine ⟨true, tail, List.suffix_cons _ _, fun rest => ?_⟩
      rw [List.cons_append, List.cons_append, exponent?, if_pos hmark]
      rfl
    · refine ⟨false, sign :: tail, List.suffix_refl _, fun rest => ?_⟩
      rw [List.cons_append, List.cons_append, exponent?, if_pos hmark]
      · rfl
      · rintro _ ⟨⟩
        exact hplus rfl
      · rintro _ ⟨⟩
        exact hminus rfl

/-- An exponent is read as its digits, whatever follows, or there is no mark of one. -/
theorem exponent?_cases {found : Option Int} {left : Bytes}
    (h : exponent? bytes = some (found, left)) :
    (found = none ∧ left = bytes ∧ ∀ b ∈ bytes.head?, b ≠ 0x65 ∧ b ≠ 0x45) ∨
      ∃ negative digits, digits <:+ bytes ∧
        ∀ rest, exponent? (bytes ++ rest) = exponentDigits? negative (digits ++ rest) := by
  cases bytes with
  | nil =>
    cases h
    exact .inl ⟨rfl, rfl, nofun⟩
  | cons b tail =>
    by_cases hmark : b = 0x65 ∨ b = 0x45
    · cases tail with
      | nil => simp [exponent?, hmark, digits?] at h
      | cons sign tail =>
        obtain ⟨negative, digits, hdigits, hread⟩ := exists_exponent?_cons hmark sign tail
        exact .inr ⟨negative, digits, hdigits.trans (List.suffix_cons _ _), hread⟩
    · have hnone : exponent? (b :: tail) = some (none, b :: tail) := if_neg hmark
      rw [hnone] at h
      cases h
      refine .inl ⟨rfl, rfl, ?_⟩
      rintro _ ⟨⟩
      exact not_or.mp hmark

/-- An exponent is read by itself. -/
theorem exponent?_local : Local exponent? where
  suffix := by
    intro bytes left found h
    rcases exponent?_cases h with ⟨-, rfl, -⟩ | ⟨negative, digits, hdigits, hread⟩
    · exact List.suffix_refl _
    · have hwhole := hread []
      rw [List.append_nil, List.append_nil, h] at hwhole
      exact ((exponentDigits?_local negative).suffix hwhole.symm).trans hdigits
  append := by
    intro bytes left rest found h hrest
    rcases exponent?_cases h with ⟨rfl, rfl, hnone⟩ | ⟨negative, digits, -, hread⟩
    · have hlater : ∀ b ∈ (left ++ rest).head?, ¬ (b = 0x65 ∨ b = 0x45) := by
        intro b hb
        cases left with
        | nil => exact not_or.mpr (hrest b hb).2.2
        | cons first left => exact not_or.mpr (hnone b hb)
      cases hbytes : left ++ rest with
      | nil => rfl
      | cons b tail =>
        rw [hbytes] at hlater
        exact if_neg (hlater b rfl)
    · have hwhole := hread []
      rw [List.append_nil, List.append_nil, h] at hwhole
      rw [hread]
      exact (exponentDigits?_local negative).append hwhole.symm hrest

/-- What is read after another reader is read by itself. -/
theorem Local.bind {β : Type} {read : Bytes → Option (α × Bytes)}
    {next : α → Bytes → Option (β × Bytes)} (h : Local read) (hnext : ∀ a, Local (next a)) :
    Local fun bytes => (read bytes).bind fun found => next found.1 found.2 where
  suffix := by
    intro bytes left b hread
    obtain ⟨⟨a, middle⟩, hfirst, hsecond⟩ := Option.bind_eq_some_iff.mp hread
    exact ((hnext a).suffix hsecond).trans (h.suffix hfirst)
  append := by
    intro bytes left rest b hread hrest
    obtain ⟨⟨a, middle⟩, hfirst, hsecond⟩ := Option.bind_eq_some_iff.mp hread
    rw [h.append hfirst hrest]
    exact (hnext a).append hsecond hrest

/-- Reads a number after its sign. -/
def unsigned? (negative : Bool) (bytes : Bytes) : Option (Raw × Bytes) :=
  (whole? bytes).bind fun whole => (fraction? whole.2).bind fun fraction =>
    (exponent? fraction.2).map fun exponent =>
      (.number (numberOf negative whole.1 fraction.1 exponent.1), exponent.2)

/-- A number after its sign is read by itself. -/
theorem unsigned?_local (negative : Bool) : Local (unsigned? negative) :=
  whole?_local.bind fun whole => fraction?_local.bind fun fraction =>
    exponent?_local.map fun exponent => Raw.number (numberOf negative whole fraction exponent)

/-- A number with a sign. -/
theorem number?_minus (bytes : Bytes) : number? (0x2d :: bytes) = unsigned? true bytes := by
  unfold number? unsigned?
  simp only [Option.map_eq_bind]
  rfl

/-- A number without a sign. -/
theorem number?_of_ne {bytes : Bytes} (h : ∀ b ∈ bytes.head?, b ≠ 0x2d) :
    number? bytes = unsigned? false bytes := by
  rw [number?]
  · unfold unsigned?
    simp only [Option.map_eq_bind]
    rfl
  · rintro rest rfl
    exact h 0x2d rfl rfl

/-- A number is read after its sign. -/
theorem unsigned?_of_number? {found : Raw × Bytes} (h : number? bytes = some found) :
    ∃ negative tail, tail <:+ bytes ∧ unsigned? negative tail = some found := by
  by_cases hminus : ∀ b ∈ bytes.head?, b ≠ 0x2d
  · rw [number?_of_ne hminus] at h
    exact ⟨false, bytes, List.suffix_refl _, h⟩
  · cases bytes with
    | nil => simp at hminus
    | cons b bytes =>
      obtain rfl : b = 0x2d := by simpa using hminus
      rw [number?_minus] at h
      exact ⟨true, bytes, List.suffix_cons _ _, h⟩

/-- A number is read by itself. -/
theorem number?_local : Local number? where
  suffix := by
    intro bytes left raw h
    obtain ⟨negative, tail, htail, hunsigned⟩ := unsigned?_of_number? h
    exact ((unsigned?_local negative).suffix hunsigned).trans htail
  append := by
    intro bytes left rest raw h hrest
    cases bytes with
    | nil => cases h
    | cons b bytes =>
      by_cases hminus : b = 0x2d
      · subst hminus
        rw [number?_minus] at h
        rw [List.cons_append, number?_minus]
        exact (unsigned?_local true).append h hrest
      · have hne (tail : Bytes) : ∀ first ∈ (b :: tail).head?, first ≠ 0x2d := by
          rintro _ ⟨⟩
          exact hminus
        rw [number?_of_ne (hne _)] at h
        rw [List.cons_append, number?_of_ne (hne _)]
        exact (unsigned?_local false).append h hrest

/-- A number begins with a minus or a digit. -/
theorem head_of_number? {b : UInt8} {found : Raw × Bytes} (h : number? (b :: bytes) = some found) :
    b = 0x2d ∨ isDigit b = true := by
  by_cases hminus : b = 0x2d
  · exact .inl hminus
  · refine .inr ?_
    rw [number?_of_ne (by rintro _ ⟨⟩; exact hminus)] at h
    obtain ⟨whole, hwhole, -⟩ := Option.bind_eq_some_iff.mp h
    unfold whole? at hwhole
    split at hwhole
    · next heq =>
      cases heq
      decide
    · unfold digits? at hwhole
      split at hwhole
      · cases hwhole
      · next hsome =>
        cases hdigit : isDigit b with
        | true => rfl
        | false => simp [hdigit] at hsome

/-- Where a number is read, it is the value that is read. -/
theorem value?_of_number? {fuel : Nat} {found : Raw × Bytes} (h : number? bytes = some found) :
    value? (fuel + 1) bytes = some found := by
  cases bytes with
  | nil => cases h
  | cons b bytes =>
    have hhead := head_of_number? h
    have hne (other : UInt8) (hother : ¬ (other = 0x2d ∨ isDigit other = true)) : b ≠ other := by
      rintro rfl
      exact hother hhead
    have hspace : isSpace b = false := by
      simp [isSpace, hne 0x20 (by decide), hne 0x0a (by decide), hne 0x0d (by decide),
        hne 0x09 (by decide)]
    have hskip : skipSpace (b :: bytes) = b :: bytes := by simp [skipSpace, hspace]
    unfold value?
    rw [hskip]
    split
    · next heq => cases heq
    · next heq => cases heq; exact absurd rfl (hne 0x6e (by decide))
    · next heq => cases heq; exact absurd rfl (hne 0x74 (by decide))
    · next heq => cases heq; exact absurd rfl (hne 0x66 (by decide))
    · next heq => cases heq; exact absurd rfl (hne 0x22 (by decide))
    · next heq => cases heq; exact absurd rfl (hne 0x5b (by decide))
    · next heq => cases heq; exact absurd rfl (hne 0x7b (by decide))
    · next heq => cases heq; exact h

/-- A value that is a number is read as one. -/
theorem number?_of_value? {fuel : Nat} {bytes left : Bytes} {n : Option Number}
    (h : value? fuel bytes = some (.number n, left)) :
    number? (skipSpace bytes) = some (.number n, left) := by
  cases fuel with
  | zero => cases h
  | succ fuel =>
    unfold value? at h
    split at h
    · cases h
    · obtain ⟨_, _, hn⟩ := Option.map_eq_some_iff.mp h
      cases hn
    · obtain ⟨_, _, hn⟩ := Option.map_eq_some_iff.mp h
      cases hn
    · obtain ⟨_, _, hn⟩ := Option.map_eq_some_iff.mp h
      cases hn
    · obtain ⟨_, _, hn⟩ := Option.map_eq_some_iff.mp h
      cases hn
    · split at h
      · cases h
      · simp only [Option.bind_eq_bind, Option.bind_eq_some_iff] at h
        obtain ⟨_, _, _, _, hn⟩ := h
        cases hn
    · split at h
      · cases h
      · simp only [Option.bind_eq_bind, Option.bind_eq_some_iff] at h
        obtain ⟨_, _, _, _, hn⟩ := h
        cases hn
    · next heq =>
      rw [heq]
      exact h

/-- Nothing is skipped of bytes that are no white space. -/
theorem skipSpace_eq_self {bytes : Bytes} (h : ∀ b ∈ bytes, isSpace b = false) :
    skipSpace bytes = bytes := by
  cases bytes with
  | nil => rfl
  | cons b bytes => simp [skipSpace, h b List.mem_cons_self]

end Raw

end TripArchive.Json
