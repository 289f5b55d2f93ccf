import TripArchive.Proofs.Telemetry.Answers
import TripArchive.Segment.Error
import TripArchive.Telemetry.Search

/-!
# Readings over HTTP

What an exchange with the index means for the reading that asked. A reading comes to its first
exchange that brings no full page with a sort key, and ends as this one says (`fetches_iff`). The
error that it then gives has the class of what went wrong with that exchange (`Mishap.errorClass`).
-/

namespace TripArchive.Telemetry

/-- What goes wrong with an exchange. -/
inductive Mishap
  /-- No reply came. -/
  | unanswered
  /-- The request was refused, whatever the body says and however much of it arrived. -/
  | refused
  /-- The body of a reply that is no refusal broke off before its announced end. -/
  | cut
  /-- The body arrived in full and is no page of records. -/
  | malformed
  /-- The last record of a full page has no sort key. -/
  | unkeyed
  deriving DecidableEq, Repr

namespace Mishap

/-- Whether the round trip failed, so that asking again may help. -/
def isBroken : Mishap → Bool
  | unanswered | refused | cut => true
  | malformed | unkeyed => false

/-- The class of the error that tells of a mishap. A body that broke off counts as one that arrived
and is malformed. -/
def errorClass : Mishap → ErrorClass
  | unanswered | refused => .transient
  | cut | malformed | unkeyed => .invalid

/-- The only failed round trip that does not pass as one is a body that broke off. -/
theorem errorClass_eq_transient_iff (mishap : Mishap) :
    mishap.errorClass = .transient ↔ mishap.isBroken = true ∧ mishap ≠ .cut := by
  cases mishap <;> decide

/-- A mishap passes as malformed telemetry if no other page is to be expected, or if a body broke
off. -/
theorem errorClass_eq_invalid_iff (mishap : Mishap) :
    mishap.errorClass = .invalid ↔ mishap = .cut ∨ mishap = .malformed ∨ mishap = .unkeyed := by
  cases mishap <;> decide

end Mishap

/-- What goes wrong with an exchange in a reading with pages of a size. -/
inductive Mishap.Befalls (size : Nat) : Mishap → Http.Exchange → Prop
  | unanswered (reason : String) : Befalls size .unanswered (.failed reason)
  | refused {status : Nat} (hstatus : 400 ≤ status) (body : Bytes) (complete : Bool) :
      Befalls size .refused (.reply status body complete)
  | cut {status : Nat} (hstatus : status < 400) (body : Bytes) :
      Befalls size .cut (.reply status body false)
  | noText {status : Nat} {body : Bytes} (hstatus : status < 400)
      (hbody : Json.parse? body = none) : Befalls size .malformed (.reply status body true)
  | noPage {status : Nat} {body : Bytes} {page : Json} (hstatus : status < 400)
      (hbody : Json.parse? body = some page) (hpage : Json.convert? pageReader page = none) :
      Befalls size .malformed (.reply status body true)
  | unkeyed {status : Nat} {body : Bytes} {page : Json} {front : List Hit} {last : Hit}
      (hstatus : status < 400) (hbody : Json.parse? body = some page)
      (hpage : Json.convert? pageReader page = some (front ++ [last]))
      (hfull : size ≤ (front ++ [last]).length) (hkey : last.sort = none) :
      Befalls size .unkeyed (.reply status body true)

variable {size : Nat} {exchange : Http.Exchange} {mishap : Mishap} {error : Error}

section Replies

variable {status : Nat} {body : Bytes} {complete : Bool}

/-- A refusal is an error with its status. -/
theorem ofExchange_refused (h : 400 ≤ status) : ofExchange (.reply status body complete) =
    .error (.status status (Http.refusalText body complete)) :=
  if_pos (decide_eq_true h)

/-- A body that broke off counts as malformed, whatever arrived of it. -/
theorem ofExchange_cut (h : status < 400) :
    ofExchange (.reply status body false) = .error (.decode "the body broke off") :=
  if_neg fun hrefusal => absurd (of_decide_eq_true hrefusal) (Nat.not_le.mpr h)

/-- A body that arrived in full is an answer if it is a JSON text. -/
theorem ofExchange_full (h : status < 400) : ofExchange (.reply status body true) =
    match Json.parse? body with
    | none => .error (.decode "the body is no JSON text")
    | some page => .ok page :=
  if_neg fun hrefusal => absurd (of_decide_eq_true hrefusal) (Nat.not_le.mpr h)

end Replies

/-- An exchange with which something went wrong closes a reading with an error of its class. -/
theorem Mishap.Befalls.closes (h : mishap.Befalls size exchange) :
    ∃ error, Closes size (ofExchange exchange) (some error) ∧
      error.errorClass = mishap.errorClass := by
  cases h with
  | unanswered reason => exact ⟨_, .failed _, rfl⟩
  | refused hstatus body complete =>
    rw [ofExchange_refused hstatus]
    exact ⟨_, .failed _, rfl⟩
  | cut hstatus body =>
    rw [ofExchange_cut hstatus]
    exact ⟨_, .failed _, rfl⟩
  | noText hstatus hbody =>
    rw [ofExchange_full hstatus, hbody]
    exact ⟨_, .failed _, rfl⟩
  | noPage hstatus hbody hpage =>
    rw [ofExchange_full hstatus, hbody]
    exact ⟨_, .malformed hpage, rfl⟩
  | unkeyed hstatus hbody hpage hfull hkey =>
    rw [ofExchange_full hstatus, hbody]
    exact ⟨_, .unkeyed hpage hfull hkey, rfl⟩

/-- If an exchange closes a reading with an error, something went wrong with it. -/
theorem befalls_of_closes (h : Closes size (ofExchange exchange) (some error)) :
    ∃ mishap : Mishap, mishap.Befalls size exchange ∧ error.errorClass = mishap.errorClass := by
  cases exchange with
  | failed reason =>
    cases h
    exact ⟨.unanswered, .unanswered reason, rfl⟩
  | reply status body complete =>
    by_cases hstatus : status < 400
    · cases complete with
      | false =>
        rw [ofExchange_cut hstatus] at h
        cases h
        exact ⟨.cut, .cut hstatus body, rfl⟩
      | true =>
        rw [ofExchange_full hstatus] at h
        cases hbody : Json.parse? body with
        | none =>
          rw [hbody] at h
          cases h
          exact ⟨.malformed, .noText hstatus hbody, rfl⟩
        | some page =>
          rw [hbody] at h
          cases h with
          | malformed hpage => exact ⟨.malformed, .noPage hstatus hbody hpage, rfl⟩
          | unkeyed hpage hfull hkey =>
            exact ⟨.unkeyed, .unkeyed hstatus hbody hpage hfull hkey, rfl⟩
    · have hrefused := Nat.le_of_not_lt hstatus
      rw [ofExchange_refused hrefused] at h
      cases h
      exact ⟨.refused, .refused hrefused body complete, rfl⟩

/-- An answer closes a reading in one way. -/
theorem Closes.unique {answer : Answer} {ending other : Ending} (h : Closes size answer ending)
    (hother : Closes size answer other) : ending = other := by
  cases h with
  | failed error =>
    cases hother
    rfl
  | malformed hpage =>
    cases hother with
    | malformed => rfl
    | short hhits | unkeyed hhits =>
      rw [hpage] at hhits
      cases hhits
  | short hpage hfew =>
    cases hother with
    | malformed hnone =>
      rw [hpage] at hnone
      cases hnone
    | short => rfl
    | unkeyed hhits hfull =>
      rw [hpage] at hhits
      cases hhits
      exact absurd hfew (Nat.not_lt.mpr hfull)
  | unkeyed hpage hfull =>
    cases hother with
    | malformed hnone =>
      rw [hpage] at hnone
      cases hnone
    | short hhits hfew =>
      rw [hpage] at hhits
      cases hhits
      exact absurd hfew (Nat.not_lt.mpr hfull)
    | unkeyed => rfl

/-- Among the first answers none closes a reading, or one does first. -/
theorem exists_first_closing (hsize : 0 < size) (answers : Nat → Answer) (count : Nat) :
    (∀ i < count, ∃ key, Continues size (answers i) key) ∨
      ∃ k < count, (∀ i < k, ∃ key, Continues size (answers i) key) ∧
        ∃ ending, Closes size (answers k) ending := by
  induction count with
  | zero => exact .inl nofun
  | succ count ih =>
    rcases ih with hall | ⟨k, hk, hfirst⟩
    · rcases closes_or_continues hsize (answers count) with hcloses | hcontinues
      · exact .inr ⟨count, Nat.lt_succ_self count, hall, hcloses⟩
      · refine .inl fun i hi => ?_
        rcases Nat.lt_succ_iff_lt_or_eq.mp hi with hbefore | rfl
        · exact hall i hbefore
        · exact hcontinues
    · exact .inr ⟨k, Nat.lt_succ_of_lt hk, hfirst⟩

variable {client : Client} {range : Range} {exchanges : Nat → Http.Exchange}

/-- The first answer that closes it ends a reading, whatever would be answered after it. -/
theorem run_of_first_closing {answers : Nat → Answer} {k : Nat} {ending : Ending}
    (hfirst : ∀ i < k, ∃ key, Continues client.pageSize (answers i) key)
    (hlast : Closes client.pageSize (answers k) ending) (behind : List Answer) :
    ((Reading.begin client range).run ((List.range (k + 1)).map answers ++ behind)).2 =
      some (ending.result (sourcesOf answers (k + 1))) := by
  rw [List.range_succ, List.map_append, List.append_assoc, run_begin_append range hfirst,
    sourcesOf_succ]
  show ((Reading.after client range answers k).run (answers k :: behind)).2 = _
  rw [Reading.run, receive_of_closes hlast]
  rfl

/-- Whether a client gives an answer for a range when its requests meet the given exchanges, one
after the other. -/
def Client.Fetches (client : Client) (range : Range) (exchanges : Nat → Http.Exchange)
    (answer : Except Error Bytes) : Prop :=
  ∃ count result, ((Reading.begin client range).run
      ((List.range count).map fun i => ofExchange (exchanges i))).2 = some result ∧
    result.map recordBytes = answer

/-- Whether a reading comes to the exchange of a number: those before bring full pages with sort
keys. -/
def Client.ComesTo (client : Client) (exchanges : Nat → Http.Exchange) (k : Nat) : Prop :=
  ∀ i < k, ∃ key, Continues client.pageSize (ofExchange (exchanges i)) key

/-- What a client gives is told by the first exchange that closes its reading. -/
theorem fetches_iff {answer : Except Error Bytes} :
    client.Fetches range exchanges answer ↔ ∃ k ending, client.ComesTo exchanges k ∧
      Closes client.pageSize (ofExchange (exchanges k)) ending ∧
      (ending.result (sourcesOf (fun i => ofExchange (exchanges i)) (k + 1))).map recordBytes =
        answer := by
  constructor
  · rintro ⟨count, result, hreading, hanswer⟩
    rcases exists_first_closing client.pageSize_pos (fun i => ofExchange (exchanges i)) count with
      hall | ⟨k, hk, hfirst, ending, hlast⟩
    · have hopen := run_begin_append range hall []
      rw [List.append_nil] at hopen
      rw [hopen] at hreading
      cases hreading
    · obtain ⟨more, rfl⟩ := Nat.exists_eq_add_of_le (Nat.succ_le_of_lt hk)
      rw [List.range_add, List.map_append, run_of_first_closing hfirst hlast] at hreading
      cases hreading
      exact ⟨k, ending, hfirst, hlast, hanswer⟩
  · rintro ⟨k, ending, hfirst, hlast, hanswer⟩
    refine ⟨k + 1, ending.result (sourcesOf (fun i => ofExchange (exchanges i)) (k + 1)), ?_,
      hanswer⟩
    rw [← run_of_first_closing hfirst hlast [], List.append_nil]

end TripArchive.Telemetry
