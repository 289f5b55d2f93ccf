import TripArchive.Event.Router
import TripArchive.Proofs.Except
import TripArchive.Proofs.Time.Rfc3339

/-!
# What a decoded event can hold

A time is read only if the calendar holds it, and a token only if it has sixty-four bits. So the
moments of a segment event that is routed and the token of a mint can be held, whatever a message
says.
-/

namespace TripArchive

/-- Whether the moments of an event can be held. -/
structure SegmentEvent.Fits (event : SegmentEvent) : Prop where
  start : event.start.time.InCalendar
  finish : ∀ finish ∈ event.finish, finish.time.InCalendar

namespace Relaxed

/-- A digit has a value below ten. -/
theorem digitValue_lt {c : Char} (h : isDigit c = true) : digitValue c < 10 := by
  simp only [isDigit, Bool.and_eq_true, decide_eq_true_eq] at h
  have hnine : c.toNat ≤ '9'.toNat := h.2
  have hvalue : '9'.toNat = 57 := rfl
  unfold digitValue
  omega

/-- Digits spell a number below the power of ten of their count. -/
theorem digitsValue_lt {digits : List Char} (h : ∀ c ∈ digits, isDigit c = true) :
    digitsValue digits < 10 ^ digits.length := by
  suffices hfold : ∀ n, digits.foldl (fun n c => 10 * n + digitValue c) n <
      (n + 1) * 10 ^ digits.length by simpa [digitsValue] using hfold 0
  induction digits with
  | nil => simp
  | cons c digits ih =>
    intro n
    have hdigit := digitValue_lt (h c List.mem_cons_self)
    calc (c :: digits).foldl (fun n c => 10 * n + digitValue c) n
        < (10 * n + digitValue c + 1) * 10 ^ digits.length :=
          ih (fun d hd => h d (List.mem_cons_of_mem _ hd)) _
      _ ≤ (10 * (n + 1)) * 10 ^ digits.length := Nat.mul_le_mul_right _ (by omega)
      _ = (n + 1) * 10 ^ (c :: digits).length := by rw [List.length_cons, Nat.pow_succ]; ac_rfl

/-- The fraction of a time is below one second. -/
theorem fraction?_lt {chars rest : List Char} {nanos : Nat}
    (h : fraction? chars = some (nanos, rest)) : nanos < 1000000000 := by
  unfold fraction? at h
  split at h
  · next digits =>
    dsimp only at h
    split at h
    · cases h
    · cases h
      generalize hkept : (digits.takeWhile isDigit).take 9 = kept
      have hlength : kept.length ≤ 9 := hkept ▸ List.length_take_le _ _
      have hdigits : ∀ c ∈ kept, isDigit c = true := fun c hc =>
        List.all_eq_true.mp List.all_takeWhile c (List.mem_of_mem_take (hkept ▸ hc))
      calc digitsValue kept * 10 ^ (9 - kept.length)
          < 10 ^ kept.length * 10 ^ (9 - kept.length) :=
            Nat.mul_lt_mul_of_pos_right (digitsValue_lt hdigits) (Nat.pow_pos (by decide))
        _ = 1000000000 := by rw [← Nat.pow_add, Nat.add_sub_cancel' hlength]
  · cases h
    decide

/-- A moment that is put together can be held. -/
theorem inCalendar_of_moment? {date : Calendar.Date} {hour minute second nanos : Nat} {offset : Int}
    {t : Instant} (hnanos : nanos < 1000000000)
    (h : moment? date hour minute second nanos offset = some t) : t.InCalendar := by
  unfold moment? at h
  dsimp only at h
  generalize hreading : (if second = 60 then (59, nanos + 1000000000) else (second, nanos)) =
    reading at h
  have hbelow : reading.2 < 2000000000 := by
    rw [← hreading]
    split <;> dsimp only <;> omega
  split at h
  · split at h
    · next hrange =>
      cases h
      exact ⟨hrange, hbelow⟩
    · cases h
  · cases h

/-- With an offset of whole minutes a leap second ends its minute. -/
theorem leap_of_moment? {date : Calendar.Date} {hour minute second nanos : Nat} {offset : Int}
    {t : Instant} (hnanos : nanos < 1000000000) (hoffset : offset % 60 = 0)
    (h : moment? date hour minute second nanos offset = some t) :
    t.nanos < 1000000000 ∨ t.seconds % 60 = 59 := by
  unfold moment? at h
  dsimp only at h
  split at h
  · split at h
    · split at h
      · cases h
        refine .inr ?_
        show (_ - offset) % 60 = 59
        omega
      · cases h
    · split at h
      · cases h
        exact .inl hnanos
      · cases h
  · cases h

/-- An offset is a number of whole minutes. -/
theorem offset?_mod {chars rest : List Char} {offset : Int}
    (h : offset? chars = some (offset, rest)) : offset % 60 = 0 := by
  have hsize {chars rest : List Char} {size : Nat} (h : offsetSize? chars = some (size, rest)) :
      size % 60 = 0 := by
    obtain ⟨⟨hours, _⟩, _, h⟩ := Option.bind_eq_some_iff.mp h
    obtain ⟨⟨minutes, _⟩, _, h⟩ := Option.bind_eq_some_iff.mp h
    dsimp only at h
    split at h
    · cases h
      omega
    · cases h
  have hsigned (sign : Nat → Int) (hsign : ∀ n, n % 60 = 0 → sign n % 60 = 0)
      {chars rest : List Char}
      (h : ((offsetSize? chars).map fun found => (sign found.1, found.2)) = some (offset, rest)) :
      offset % 60 = 0 := by
    obtain ⟨⟨size, _⟩, hfound, h⟩ := Option.map_eq_some_iff.mp h
    cases h
    exact hsign size (hsize hfound)
  unfold offset? at h
  split at h
  · cases h
    rfl
  · cases h
    rfl
  · exact hsigned (fun n => (n : Int)) (fun n hn => by omega) h
  · exact hsigned (fun n => -(n : Int)) (fun n hn => by omega) h
  · exact hsigned (fun n => -(n : Int)) (fun n hn => by omega) h
  · split at h
    · cases h
      rfl
    · cases h
  · cases h

/-- A time that is read is put together from its parts: the fraction is below one second, and the
offset is a number of whole minutes. -/
theorem exists_moment?_of_read? {text : String} {t : Instant} (h : read? text = some t) :
    ∃ date hour minute second nanos offset, nanos < 1000000000 ∧ offset % 60 = 0 ∧
      moment? date hour minute second nanos offset = some t := by
  obtain ⟨⟨year, rest⟩, _, h⟩ := Option.bind_eq_some_iff.mp h
  obtain ⟨rest, _, h⟩ := Option.bind_eq_some_iff.mp h
  obtain ⟨⟨month, rest⟩, _, h⟩ := Option.bind_eq_some_iff.mp h
  obtain ⟨rest, _, h⟩ := Option.bind_eq_some_iff.mp h
  obtain ⟨⟨day, rest⟩, _, h⟩ := Option.bind_eq_some_iff.mp h
  dsimp only at h
  split at h
  · split at h
    · obtain ⟨rest, _, h⟩ := Option.bind_eq_some_iff.mp h
      obtain ⟨⟨hour, rest⟩, _, h⟩ := Option.bind_eq_some_iff.mp h
      obtain ⟨rest, _, h⟩ := Option.bind_eq_some_iff.mp h
      obtain ⟨⟨minute, rest⟩, _, h⟩ := Option.bind_eq_some_iff.mp h
      obtain ⟨rest, _, h⟩ := Option.bind_eq_some_iff.mp h
      obtain ⟨⟨second, rest⟩, _, h⟩ := Option.bind_eq_some_iff.mp h
      obtain ⟨⟨nanos, rest⟩, hfraction, h⟩ := Option.bind_eq_some_iff.mp h
      obtain ⟨⟨offset, rest⟩, hoffset, h⟩ := Option.bind_eq_some_iff.mp h
      dsimp only at h
      split at h
      · exact ⟨_, _, _, _, _, _, fraction?_lt hfraction, offset?_mod hoffset, h⟩
      · cases h
    · cases h
  · cases h

/-- A time that is read can be held. -/
theorem inCalendar_of_read? {text : String} {t : Instant} (h : read? text = some t) :
    t.InCalendar := by
  obtain ⟨_, _, _, _, _, _, hnanos, _, hmoment⟩ := exists_moment?_of_read? h
  exact inCalendar_of_moment? hnanos hmoment

end Relaxed

namespace Json.Reader

variable {α : Type} {P : α → Prop} {read : Reader α}

/-- Whether everything that a reader reads satisfies `P`. -/
def Yields (P : α → Prop) (read : Reader α) : Prop :=
  ∀ depth raw a, read depth raw = some a → P a

/-- A required field is read by its reader. -/
theorem Yields.required (h : Yields P read) {slots : Slots} {i depth : Nat} {a : α}
    (hread : slots.required i read depth = some a) : P a := by
  obtain ⟨raw, _, hraw⟩ := Option.bind_eq_some_iff.mp hread
  exact h depth raw a hraw

/-- A field with a default is read by its reader, or it is the default. -/
theorem Yields.withDefault (h : Yields P read) {default : α} (hdefault : P default) {slots : Slots}
    {i depth : Nat} {a : α} (hread : slots.withDefault i default read depth = some a) : P a := by
  unfold Slots.withDefault at hread
  split at hread
  · cases hread
    exact hdefault
  · exact h depth _ a hread

/-- What is read in place of null satisfies what the reader yields. -/
theorem Yields.nullable (h : Yields P read) :
    Yields (fun found => ∀ a ∈ found, P a) read.nullable := by
  intro depth raw found hread
  unfold Reader.nullable at hread
  split at hread
  · cases hread
    nofun
  · obtain ⟨a, hraw, rfl⟩ := Option.map_eq_some_iff.mp hread
    rintro _ ⟨⟩
    exact h depth _ a hraw

/-- A record is read from its fields. -/
theorem Yields.record {names : List String} {fields : Slots → (depth : Nat) → Option α}
    (h : ∀ slots depth a, fields slots depth = some a → P a) : Yields P (record names fields) := by
  intro depth raw a hread
  unfold Reader.record at hread
  split at hread
  · cases hread
  · obtain ⟨slots, _, hslots⟩ := Option.bind_eq_some_iff.mp hread
    exact h slots _ a hslots

end Json.Reader

open Json.Reader

/-- Times are read within the calendar. -/
theorem Instant.yields_reader : Yields Instant.InCalendar Instant.reader := by
  intro depth raw t hread
  obtain ⟨text, _, htext⟩ := Option.bind_eq_some_iff.mp hread
  exact Relaxed.inCalendar_of_read? htext

/-- Endpoints are read within the calendar. -/
theorem Endpoint.yields_reader :
    Yields (fun endpoint => endpoint.time.InCalendar) Endpoint.reader := by
  refine Yields.record fun slots depth endpoint hread => ?_
  simp only [Option.bind_eq_bind, Option.bind_eq_some_iff] at hread
  obtain ⟨time, htime, location, _, hendpoint⟩ := hread
  cases hendpoint
  exact Instant.yields_reader.required htime

/-- Segment events are read with moments that can be held. -/
theorem SegmentEvent.yields_reader : Yields SegmentEvent.Fits SegmentEvent.reader := by
  refine Yields.record fun slots depth event hread => ?_
  simp only [Option.bind_eq_bind, Option.bind_eq_some_iff] at hread
  obtain ⟨id, _, device, _, completed, _, start, hstart, finish, hfinish, hevent⟩ := hread
  cases hevent
  exact ⟨Endpoint.yields_reader.required hstart,
    Endpoint.yields_reader.nullable.withDefault (by simp) hfinish⟩

/-- Tokens are read with sixty-four bits. -/
theorem MintEvent.yields_reader : Yields (fun mint => IsInt64 mint.tokenId) MintEvent.reader := by
  have hint : Yields IsInt64 (Json.Reader.int minInt64 maxInt64) := by
    intro depth raw n hread
    unfold Json.Reader.int at hread
    split at hread
    · split at hread
      · next hrange =>
        cases hread
        exact hrange
      · cases hread
    · cases hread
  have htoken : Yields IsInt64 MintEvent.tokenReader :=
    Yields.record fun slots depth n hread => hint.required hread
  refine Yields.record fun slots depth mint hread => ?_
  simp only [Option.bind_eq_bind, Option.bind_eq_some_iff] at hread
  obtain ⟨_, _, _, _, device, _, token, hread, hmint⟩ := hread
  cases hmint
  exact htoken.required hread

/-- The data of an event are read by their reader. -/
theorem CloudEvent.yields_reader {α : Type} {P : α → Prop} {read : Json.Reader α}
    (h : Yields P read) : Yields (fun event => P event.data) (CloudEvent.reader read) := by
  refine Yields.record fun slots depth event hread => ?_
  simp only [Option.bind_eq_bind, Option.bind_eq_some_iff] at hread
  obtain ⟨_, _, _, _, _, _, _, _, _, _, _, _, data, hdata, hevent⟩ := hread
  cases hevent
  exact h.required hdata

/-- Whether the data of a message can be held. -/
def Inbound.Fits : Inbound → Prop
  | segment task => task.event.data.Fits
  | vehicle task => IsInt64 task.event.data.tokenId
  | ignored _ _ => True

namespace Router

/-- What is decoded is what the reader yields. -/
theorem yields_decode {α : Type} {P : α → Prop} {read : Json.Reader α} {payload : Bytes} {a : α}
    (h : Yields P read) (hdecode : decode read payload = .ok a) : P a := by
  unfold decode at hdecode
  cases hread : Json.decode? read payload with
  | none =>
    rw [hread] at hdecode
    cases hdecode
  | some value =>
    rw [hread] at hdecode
    cases hdecode
    obtain ⟨raw, _, hraw⟩ := Option.bind_eq_some_iff.mp hread
    exact h _ raw a hraw

/-- Whatever a message says, the data that it turns out to hold can be held. -/
theorem fits_of_route {router : Router} {delivery : Delivery} {payload : Option Bytes}
    {inbound : Inbound} (h : router.route delivery payload = .ok inbound) : inbound.Fits := by
  unfold route at h
  split at h
  · cases h
  · split at h
    · obtain ⟨event, hevent, hinbound⟩ := bind_eq_ok.mp h
      have hfits := yields_decode (CloudEvent.yields_reader SegmentEvent.yields_reader) hevent
      cases hinbound
      exact hfits
    · split at h
      · obtain ⟨envelope, _, hrest⟩ := bind_eq_ok.mp h
        split at hrest
        · split at hrest
          · cases hrest
          · next mint hmint =>
            cases hrest
            exact MintEvent.yields_reader _ _ mint hmint
        · cases hrest
          trivial
      · cases h

end Router

end TripArchive
