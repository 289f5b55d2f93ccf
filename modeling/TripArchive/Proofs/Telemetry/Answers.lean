import TripArchive.Proofs.Except
import TripArchive.Proofs.Json.Text
import TripArchive.Proofs.Telemetry.Index

/-!
# Readings from any server

Whatever a server answers, an answer either closes a reading or has a sort key with which it goes
on (`closes_or_continues`). So a reading is told by its answers alone: it sends one request for each
up to the first that closes it, each after the first with the sort key of the answer before, and
ends as that answer says (`run_answers`). What it gives are the records of all answers, archived as
one JSON array (`isArrayOf_recordBytes`).
-/

namespace TripArchive

namespace Json

/-- An object with a field set; the other fields stay as they are. -/
def withField (object : Json) (key : String) (value : Json) : Json :=
  match object with
  | .object fields => .object (putSorted key value fields)
  | other => other

/-- Some items of an array are written with commas between them. -/
theorem write_append_writeItems (item : Json) (items : List Json) :
    write item ++ writeItems items = [','].intercalate ((item :: items).map write) ++ [']'] := by
  induction items generalizing item with
  | nil => rw [List.map_singleton, List.intercalate_singleton, writeItems]
  | cons next items ih =>
    rw [writeItems, ih, List.map_cons, List.map_cons, List.map_cons, List.intercalate_cons_cons]
    simp only [List.append_assoc, List.cons_append, List.nil_append]

/-- The text of an array: those of its items in order, with commas between them and in brackets. -/
theorem text_array (items : List Json) :
    (Json.array items).text = "[" ++ ",".intercalate (items.map text) ++ "]" := by
  have htexts : String.toList ∘ text = write := funext fun item => String.toList_ofList
  have hopen : "[".toList = ['['] := rfl
  have hcomma : ",".toList = [','] := rfl
  have hclose : "]".toList = [']'] := rfl
  apply String.toList_injective
  rw [String.toList_append, String.toList_append, String.toList_intercalate, List.map_map, htexts,
    hopen, hcomma, hclose, text, String.toList_ofList]
  cases items with
  | nil => rfl
  | cons item items =>
    rw [write, write_append_writeItems]
    rfl

end Json

namespace Telemetry

/-- What a server answers to one request. -/
abbrev Answer := Except Error Json

/-- How a reading that is closed has ended: with all its records, or with an error. -/
abbrev Ending := Option Error

/-- The answers that close a reading with pages of a size, and how it ends. -/
inductive Closes (size : Nat) : Answer → Ending → Prop
  /-- The request failed. -/
  | failed (error : Error) : Closes size (.error error) (some error)
  /-- The answer is no page. -/
  | malformed {page : Json} (hpage : Json.convert? pageReader page = none) :
      Closes size (.ok page) (some (.decode "the answer is no page of records"))
  /-- The page is not full. -/
  | short {page : Json} {hits : List Hit} (hpage : Json.convert? pageReader page = some hits)
      (hfew : hits.length < size) : Closes size (.ok page) none
  /-- The last record of a full page has no sort key. -/
  | unkeyed {page : Json} {front : List Hit} {last : Hit}
      (hpage : Json.convert? pageReader page = some (front ++ [last]))
      (hfull : size ≤ (front ++ [last]).length) (hkey : last.sort = none) :
      Closes size (.ok page) (some .missingSortKey)

/-- The answers that let a reading go on: full pages whose last record has a sort key. -/
inductive Continues (size : Nat) : Answer → List Json → Prop
  | keyed {page : Json} {front : List Hit} {last : Hit} {key : List Json}
      (hpage : Json.convert? pageReader page = some (front ++ [last]))
      (hfull : size ≤ (front ++ [last]).length) (hkey : last.sort = some key) :
      Continues size (.ok page) key

/-- The hits of an answer; there are none if it is no page. -/
def hitsOf : Answer → List Hit
  | .error _ => []
  | .ok page => (Json.convert? pageReader page).getD []

/-- The sources of all hits of the first answers, in order. -/
def sourcesOf (answers : Nat → Answer) (count : Nat) : List Json :=
  (List.range count).flatMap fun i => (hitsOf (answers i)).map Hit.source

/-- The sort key of the last hit of an answer. -/
def lastKey (answer : Answer) : Option (List Json) := (hitsOf answer).getLast?.bind Hit.sort

variable {size : Nat} {answer : Answer} {ending : Ending} {key : List Json}

/-- An answer that lets a reading go on has a sort key. -/
theorem Continues.lastKey_eq (h : Continues size answer key) : lastKey answer = some key := by
  obtain ⟨hpage, -, hkey⟩ := h
  simp [lastKey, hitsOf, hpage, hkey]

/-- An answer that lets a reading go on does not close it. -/
theorem Continues.not_closes (h : Continues size answer key) : ¬Closes size answer ending := by
  obtain ⟨hpage, hfull, hkey⟩ := h
  intro hcloses
  cases hcloses with
  | malformed hnone =>
    rw [hpage] at hnone
    cases hnone
  | short hshort hfew =>
    rw [hpage] at hshort
    cases hshort
    exact absurd hfew (Nat.not_lt.mpr hfull)
  | unkeyed hlast _ hnone =>
    rw [hpage, Option.some.injEq] at hlast
    obtain ⟨-, hsame⟩ := List.append_inj' hlast rfl
    cases hsame
    rw [hkey] at hnone
    cases hnone

/-- Every answer closes a reading or lets it go on. -/
theorem closes_or_continues (hsize : 0 < size) (answer : Answer) :
    (∃ ending, Closes size answer ending) ∨ ∃ key, Continues size answer key := by
  cases answer with
  | error error => exact .inl ⟨_, .failed error⟩
  | ok page =>
    cases hpage : Json.convert? pageReader page with
    | none => exact .inl ⟨_, .malformed hpage⟩
    | some hits =>
      by_cases hfew : hits.length < size
      · exact .inl ⟨_, .short hpage hfew⟩
      · obtain rfl | ⟨front, last, rfl⟩ := List.eq_nil_or_concat hits
        · exact absurd hsize hfew
        · rw [List.concat_eq_append] at hpage hfew
          cases hkey : last.sort with
          | none => exact .inl ⟨_, .unkeyed hpage (Nat.le_of_not_lt hfew) hkey⟩
          | some key => exact .inr ⟨key, .keyed hpage (Nat.le_of_not_lt hfew) hkey⟩

/-- Whether bytes are the JSON array of some records: their text is the texts of the records in
order, and they are read as the array of the records, as far as these can be read back at all. -/
structure IsArrayOf (bytes : Bytes) (records : List Json) : Prop where
  text : bytes = Utf8.encode ("[" ++ ",".intercalate (records.map Json.text) ++ "]")
  reads : Json.LegibleItems records → Json.Raw.parse? bytes = some (Json.array records).toRaw

/-- Records are archived as one JSON array. -/
theorem isArrayOf_recordBytes (records : List Json) : IsArrayOf (recordBytes records) records where
  text := by rw [recordBytes, Json.text_array]
  reads h := Json.Raw.parse?_text h

/-- What a reading gives that has ended. -/
def Ending.result (ending : Ending) (records : List Json) : Except Error (List Json) :=
  match ending with
  | none => .ok records
  | some error => .error error

section Receive

variable {reading : Reading}

/-- A closing answer ends a reading with its records and those of the answer, or with an error. -/
theorem receive_of_closes (h : Closes reading.client.pageSize answer ending) :
    reading.receive answer = .finished
      (Ending.result ending (reading.records ++ (hitsOf answer).map Hit.source)) := by
  cases h with
  | failed error => rfl
  | malformed hpage => simp [Reading.receive, hpage, Ending.result]
  | short hpage hfew =>
    simp [Reading.receive, hpage, Reading.absorb, hfew, hitsOf, Ending.result]
  | unkeyed hpage hfull hkey =>
    simp only [Reading.receive, hpage, Reading.absorb, if_neg (Nat.not_lt.mpr hfull)]
    simp [hkey, Ending.result]

/-- After any other answer a reading goes on behind the sort key. -/
theorem receive_of_continues (h : Continues reading.client.pageSize answer key) :
    reading.receive answer = .more ⟨reading.client, reading.range, some key,
      reading.records ++ (hitsOf answer).map Hit.source⟩ := by
  obtain ⟨hpage, hfull, hkey⟩ := h
  simp only [Reading.receive, hpage, Reading.absorb, if_neg (Nat.not_lt.mpr hfull), hitsOf]
  simp [hkey]

end Receive

section Run

variable (client : Client) (range : Range) (answers : Nat → Answer)

/-- The sort key behind which a page is asked for: that of the answer before. -/
def cursorAt : Nat → Option (List Json)
  | 0 => none
  | i + 1 => lastKey (answers i)

/-- A reading that has gone on after a number of answers. -/
def Reading.after (count : Nat) : Reading :=
  ⟨client, range, cursorAt answers count, sourcesOf answers count⟩

/-- The sources of one more answer come last. -/
theorem sourcesOf_succ (count : Nat) : sourcesOf answers (count + 1) =
    sourcesOf answers count ++ (hitsOf (answers count)).map Hit.source := by
  simp [sourcesOf, List.range_succ]

variable {client answers} {k : Nat}

/-- The next answer, if it does not close a reading, is taken in. -/
theorem receive_after {i : Nat} (h : Continues client.pageSize (answers i) key) :
    (Reading.after client range answers i).receive (answers i) =
      .more (Reading.after client range answers (i + 1)) := by
  rw [receive_of_continues h, Reading.after, Reading.after, cursorAt, h.lastKey_eq, sourcesOf_succ]

/-- As long as no answer closes it a reading takes in one after the other, and asks for the next
page each time. -/
theorem run_begin_append (hmore : ∀ i < k, ∃ key, Continues client.pageSize (answers i) key)
    (behind : List Answer) :
    (Reading.begin client range).run ((List.range k).map answers ++ behind) =
      ((List.range k).map (fun i => (Reading.after client range answers i).query) ++
          ((Reading.after client range answers k).run behind).1,
        ((Reading.after client range answers k).run behind).2) := by
  induction k generalizing behind with
  | zero => rfl
  | succ k ih =>
    obtain ⟨key, hkey⟩ := hmore k (Nat.lt_succ_self k)
    have hrest := ih (fun i hi => hmore i (Nat.lt_succ_of_lt hi)) (answers k :: behind)
    rw [Reading.run, receive_after range hkey] at hrest
    simp only [List.range_succ, List.map_append, List.append_assoc, List.map_cons, List.map_nil,
      List.cons_append, List.nil_append, hrest]

/-- The requests of a reading: each after the first is the first one with the sort key of the last
record of the answer before. -/
structure Follows (first : Json) (answers : Nat → Answer) (queries : List Json) : Prop where
  head : queries[0]? = some first
  next : ∀ i, i + 1 < queries.length → ∃ key, lastKey (answers i) = some key ∧
    queries[i + 1]? = some (first.withField "search_after" (.array key))

/-- A request with a sort key is the request without one, with the key set. -/
theorem query_some (client : Client) (range : Range) (key : List Json) :
    client.query range (some key) =
      (client.query range none).withField "search_after" (.array key) := by
  have hquery : ¬"search_after" < "query" := by decide
  have hsize : "search_after" < "size" := by decide
  simp [Client.query, Json.withField, Json.putSorted, hquery, hsize]

/-- The requests for the first pages follow the answers. -/
theorem follows_queries
    (hmore : ∀ i < k, ∃ key, Continues client.pageSize (answers i) key) :
    Follows (client.query range none) answers
      ((List.range (k + 1)).map fun j => (Reading.after client range answers j).query) := by
  constructor
  · simp [List.range_succ_eq_map]
    rfl
  · intro i hi
    rw [List.length_map, List.length_range] at hi
    obtain ⟨key, hkey⟩ := hmore i (by omega)
    refine ⟨key, hkey.lastKey_eq, ?_⟩
    rw [List.getElem?_map, List.getElem?_range hi, Option.map_some, Reading.query, Reading.after,
      cursorAt, hkey.lastKey_eq, query_some]

end Run

/-- A reading from a server that gives any answers. If one of them closes it, then the first of
these does: the reading has sent one request for each answer up to it, whatever the server would
answer further, and ends with the records of all these answers in the order in which they came,
which are archived as the JSON array of them, or with the error of that answer alone. If none does,
the reading never ends. -/
theorem run_answers (client : Client) (range : Range) (answers : Nat → Answer) :
    (client.query range none).field? "search_after" = none ∧
    (∀ k ending, (∀ i < k, ∀ other, ¬Closes client.pageSize (answers i) other) →
      Closes client.pageSize (answers k) ending → ∀ count, k < count → ∃ queries result,
        (Reading.begin client range).run ((List.range count).map answers) =
          (queries, some result) ∧
        queries.length = k + 1 ∧ Follows (client.query range none) answers queries ∧
        match ending with
        | none => result = .ok (sourcesOf answers (k + 1)) ∧ ∃ bytes,
            result.map recordBytes = .ok bytes ∧ IsArrayOf bytes (sourcesOf answers (k + 1))
        | some error => result = .error error) ∧
    ((∀ i ending, ¬Closes client.pageSize (answers i) ending) → ∀ count, ∃ queries,
      (Reading.begin client range).run ((List.range count).map answers) = (queries, none) ∧
      queries.length = count + 1 ∧ Follows (client.query range none) answers queries) := by
  have hmore {i : Nat} (h : ∀ ending, ¬Closes client.pageSize (answers i) ending) :
      ∃ key, Continues client.pageSize (answers i) key :=
    (closes_or_continues client.pageSize_pos (answers i)).resolve_left fun ⟨ending, hcloses⟩ =>
      h ending hcloses
  refine ⟨rfl, ?_, ?_⟩
  · intro k ending hfirst hlast count hcount
    have hbefore : ∀ i < k, ∃ key, Continues client.pageSize (answers i) key :=
      fun i hi => hmore (hfirst i hi)
    obtain ⟨behind, hbehind⟩ : ∃ behind, (List.range count).map answers =
        (List.range k).map answers ++ answers k :: behind := by
      obtain ⟨more, rfl⟩ : ∃ more, count = k + (1 + more) := ⟨count - k - 1, by omega⟩
      rw [List.range_add, List.range_add]
      exact ⟨(List.range more).map fun j => answers (k + (1 + j)), by simp [Function.comp_def]⟩
    have hclosed : (Reading.after client range answers k).run (answers k :: behind) =
        ([(Reading.after client range answers k).query],
          some (ending.result (sourcesOf answers (k + 1)))) := by
      rw [Reading.run, receive_of_closes hlast, sourcesOf_succ]
      rfl
    refine ⟨_, ending.result (sourcesOf answers (k + 1)), ?_, ?_, follows_queries range hbefore, ?_⟩
    · rw [hbehind, run_begin_append range hbefore, hclosed, List.range_succ, List.map_append]
      rfl
    · rw [List.length_map, List.length_range]
    · cases ending with
      | none => exact ⟨rfl, _, rfl, isArrayOf_recordBytes _⟩
      | some error => rfl
  · intro hnone count
    have hall : ∀ i < count, ∃ key, Continues client.pageSize (answers i) key :=
      fun i _ => hmore (hnone i)
    have hrun := run_begin_append range hall []
    rw [List.append_nil] at hrun
    refine ⟨_, hrun.trans ?_, ?_, follows_queries range hall⟩
    · rw [List.range_succ, List.map_append]
      rfl
    · rw [List.length_map, List.length_range]

/-- A server that answers with one keyed record, and after that always in one way. -/
def oneRecord (later : Answer) : Nat → Answer
  | 0 => .ok (plainPage [⟨.bool true, some [.ofInt 1]⟩])
  | _ => later

/-- In pages of one record a reading gives the record of the first page if an empty one follows, and
nothing but the error if the second request fails. -/
theorem run_oneRecord :
    let reading :=
      Reading.begin (Client.ofSettings "device-status" 1 .rfc3339) ⟨"a", ⟨0, 0⟩, ⟨1, 0⟩⟩
    (∃ queries, reading.run ((List.range 5).map (oneRecord (.ok (plainPage [])))) =
        (queries, some (.ok [.bool true])) ∧ queries.length = 2 ∧
        recordBytes [.bool true] = Utf8.encode "[true]") ∧
      ∃ queries, reading.run ((List.range 5).map (oneRecord (.error (.transport "reset")))) =
        (queries, some (.error (.transport "reset"))) ∧ queries.length = 2 := by
  intro reading
  have hpage := plainPage_reads [⟨.bool true, some [.ofInt 1]⟩] (by
    simp [Hit.Canonical, Json.Canonical, Json.CanonicalItems, Json.ofInt])
  have hempty : Json.convert? pageReader (plainPage []) = some [] := plainPage_reads [] nofun
  have hgoes (later : Answer) : Continues 1 (oneRecord later 0) [.ofInt 1] :=
    .keyed (hpage.trans (congrArg some (List.nil_append [_]).symm)) (Nat.le_refl 1) rfl
  have hopen (later : Answer) : ∀ i < 1, ∀ other, ¬Closes 1 (oneRecord later i) other := by
    intro i hi other
    obtain rfl : i = 0 := by omega
    exact (hgoes later).not_closes
  constructor
  · obtain ⟨queries, result, hrun, hlength, -, rfl, bytes, hbytes, harray⟩ :=
      (run_answers (Client.ofSettings "device-status" 1 .rfc3339) ⟨"a", ⟨0, 0⟩, ⟨1, 0⟩⟩
        (oneRecord (.ok (plainPage [])))).2.1 1 none (hopen _) (.short hempty (by decide)) 5
          (by decide)
    have hsources : sourcesOf (oneRecord (.ok (plainPage []))) 2 = [.bool true] := by
      simp [sourcesOf, hitsOf, oneRecord, List.range_succ, hpage, hempty]
    rw [hsources] at hrun hbytes harray
    cases hbytes
    exact ⟨queries, hrun, hlength, harray.text⟩
  · obtain ⟨queries, result, hrun, hlength, -, rfl⟩ :=
      (run_answers (Client.ofSettings "device-status" 1 .rfc3339) ⟨"a", ⟨0, 0⟩, ⟨1, 0⟩⟩
        (oneRecord (.error (.transport "reset")))).2.1 1 (some (.transport "reset")) (hopen _)
          (.failed _) 5 (by decide)
    exact ⟨queries, hrun, hlength⟩

end Telemetry

end TripArchive
