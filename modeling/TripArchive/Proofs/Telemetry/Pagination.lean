import Mathlib.Data.Int.Order.Basic
import Mathlib.Data.List.Nodup
import TripArchive.Proofs.Telemetry.Index

/-!
# Reading an index page by page

Each request after the first asks for what lies behind the last record seen. So of the records with
the timestamp of that record those are passed over that did not fit on its page, and no others:
`Pages` says in which pages a list is read, and `reading_complete` that a reading ends with them.
-/

namespace TripArchive.Telemetry

/-- A reading from a source that answers every request for itself sends some requests and ends. -/
def Reading.Ends (reading : Reading) (source : Json → Except Error Json) (queries : List Json)
    (result : Except Error (List Json)) : Prop :=
  reading.run (queries.map source) = (queries, some result)

namespace Reading.Ends

variable {reading next : Reading} {source : Json → Except Error Json} {queries others : List Json}
  {result other : Except Error (List Json)}

/-- A reading may end with its first answer. -/
theorem last (h : reading.receive (source reading.query) = .finished result) :
    reading.Ends source [reading.query] result := by
  unfold Ends
  rw [List.map_singleton, run, h]

/-- A reading may go on after its first answer. -/
theorem more (h : reading.receive (source reading.query) = .more next)
    (hnext : next.Ends source queries result) :
    reading.Ends source (reading.query :: queries) result := by
  unfold Ends at hnext ⊢
  simp only [List.map_cons, run, h, hnext]

/-- A reading that ends did so with its first answer or went on after it. -/
theorem first (h : reading.Ends source queries result) :
    (queries = [reading.query] ∧ reading.receive (source reading.query) = .finished result) ∨
      ∃ next later, queries = reading.query :: later ∧
        reading.receive (source reading.query) = .more next ∧ next.Ends source later result := by
  unfold Ends at h ⊢
  cases queries with
  | nil => simp [run] at h
  | cons query later =>
    rw [List.map_cons, run] at h
    split at h
    · next ended hended =>
      obtain ⟨hquery, hresult⟩ := Prod.mk.inj h
      obtain ⟨rfl, rfl⟩ := List.cons.inj hquery
      cases hresult
      exact Or.inl ⟨rfl, hended⟩
    · next next hnext =>
      obtain ⟨hquery, hresult⟩ := Prod.mk.inj h
      obtain ⟨rfl, hlater⟩ := List.cons.inj hquery
      exact Or.inr ⟨next, later, rfl, hnext, Prod.ext hlater hresult⟩

/-- A reading from one source sends the same requests and ends in the same way each time. -/
theorem unique (hfirst : reading.Ends source queries result)
    (hsecond : reading.Ends source others other) : others = queries ∧ other = result := by
  induction queries generalizing reading others with
  | nil => simp [Ends, run] at hfirst
  | cons query queries ih =>
    rcases hfirst.first with ⟨hqueries, hended⟩ | ⟨next, later, hqueries, hnext, hlater⟩
    · rcases hsecond.first with ⟨rfl, hother⟩ | ⟨_, _, _, hgoes, _⟩
      · rw [hended] at hother
        cases hother
        exact ⟨hqueries.symm, rfl⟩
      · rw [hended] at hgoes
        cases hgoes
    · rcases hsecond.first with ⟨_, hother⟩ | ⟨_, _, rfl, hgoes, hothers⟩
      · rw [hnext] at hother
        cases hother
      · rw [hnext] at hgoes
        cases hgoes
        obtain ⟨rfl, rfl⟩ := List.cons.inj hqueries
        obtain ⟨rfl, rfl⟩ := ih hlater hothers
        exact ⟨rfl, rfl⟩

end Reading.Ends

section Pages

variable {α τ : Type} [LinearOrder τ] {time : α → τ} {place : α → Nat} {size : Nat}
  {records : List α} {pages : List (List α)}

/-- The pages in which records are read. What does not fill a page is the last one; after a full
page those are read that are later than its last record. -/
inductive Pages (time : α → τ) (size : Nat) : List α → List (List α) → Prop
  | last {records : List α} (hfew : records.length < size) : Pages time size records [records]
  | more {records : List α} {last : α} {pages : List (List α)} (hfull : size ≤ records.length)
      (hlast : (records.take size).getLast? = some last)
      (hrest : Pages time size (records.filter fun a => time last < time a) pages) :
      Pages time size records (records.take size :: pages)

/-- Any records can be read in pages. -/
theorem exists_pages (hsize : 0 < size) (time : α → τ) (records : List α) :
    ∃ pages, Pages time size records pages := by
  induction hlength : records.length using Nat.strongRecOn generalizing records with
  | ind n ih =>
    subst hlength
    by_cases hfew : records.length < size
    · exact ⟨[records], .last hfew⟩
    · have hne : records.take size ≠ [] := by
        rw [← List.length_pos_iff, List.length_take]
        omega
      have hlast := List.getLast?_eq_some_getLast hne
      have hmem := List.mem_of_mem_take (List.getLast_mem hne)
      have hfewer :
          (records.filter fun a => time ((records.take size).getLast hne) < time a).length <
            records.length :=
        List.length_filter_lt_length_iff_exists.mpr ⟨_, hmem, by simp⟩
      obtain ⟨pages, hpages⟩ := ih _ hfewer _ rfl
      exact ⟨_, .more (by omega) hlast hpages⟩

/-- No record of a page is later than its last one. -/
theorem le_last (hordered : records.Pairwise fun a b => time a ≤ time b ∧ place a < place b)
    {last a : α} (hlast : (records.take size).getLast? = some last) (ha : a ∈ records.take size) :
    time a ≤ time last ∧ place a ≤ place last := by
  obtain ⟨front, hfront⟩ := List.getLast?_eq_some_iff.mp hlast
  have htake := hordered.sublist (List.take_sublist size records)
  rw [hfront] at htake ha
  rcases List.mem_append.mp ha with hbefore | hself
  · have hle := (List.pairwise_append.mp htake).2.2 a hbefore last (List.mem_singleton_self last)
    exact ⟨hle.1, Nat.le_of_lt hle.2⟩
  · rw [List.mem_singleton.mp hself]
    exact ⟨le_rfl, Nat.le_refl _⟩

/-- No record behind a page is earlier than its last one. -/
theorem last_le (hordered : records.Pairwise fun a b => time a ≤ time b ∧ place a < place b)
    {last a : α} (hlast : (records.take size).getLast? = some last) (ha : a ∈ records.drop size) :
    time last ≤ time a ∧ place last < place a := by
  rw [← List.take_append_drop size records] at hordered
  exact (List.pairwise_append.mp hordered).2.2 last (List.mem_of_getLast? hlast) a ha

/-- The later records than the last of a page lie behind the page. -/
theorem filter_later (hordered : records.Pairwise fun a b => time a ≤ time b ∧ place a < place b)
    {last : α} (hlast : (records.take size).getLast? = some last) :
    (records.filter fun a => time last < time a) =
      (records.drop size).filter fun a => time last < time a := by
  conv_lhs => rw [← List.take_append_drop size records]
  rw [List.filter_append]
  have hnone : ((records.take size).filter fun a => time last < time a) = [] := by
    refine List.filter_eq_nil_iff.mpr fun a ha => ?_
    simpa using (le_last hordered hlast ha).1
  rw [hnone, List.nil_append]

/-- The pages hold records in their order and each at most once. -/
theorem Pages.sublist (h : Pages time size records pages)
    (hordered : records.Pairwise fun a b => time a ≤ time b ∧ place a < place b) :
    pages.flatten.Sublist records := by
  induction h with
  | last => simp
  | @more records last pages hfull hlast hrest ih =>
    have hlater := ih (hordered.sublist List.filter_sublist)
    rw [filter_later hordered hlast] at hlater
    rw [List.flatten_cons]
    conv_rhs => rw [← List.take_append_drop size records]
    exact (List.Sublist.refl _).append (hlater.trans List.filter_sublist)

/-- A record is passed over if it follows the last record of a full page with the same time. -/
theorem Pages.not_mem_iff (h : Pages time size records pages)
    (hordered : records.Pairwise fun a b => time a ≤ time b ∧ place a < place b)
    {a : α} (ha : a ∈ records) :
    a ∉ pages.flatten ↔ ∃ page ∈ pages, page.length = size ∧
      ∃ last ∈ page.getLast?, time last = time a ∧ place last < place a := by
  induction h with
  | @last records hfew =>
    refine iff_of_false (by simpa using ha) ?_
    rintro ⟨page, hpage, hfull, -⟩
    rw [List.mem_singleton.mp hpage] at hfull
    omega
  | @more records last pages hfull hlast hrest ih =>
    have hrestOrdered := hordered.sublist (List.filter_sublist (p := fun a => time last < time a))
    have hlater : ∀ b ∈ pages.flatten, time last < time b := fun b hb => by
      simpa using (List.mem_filter.mp ((hrest.sublist hrestOrdered).subset hb)).2
    have hlength : (records.take size).length = size := by
      rw [List.length_take]
      omega
    rw [List.flatten_cons, List.mem_append, not_or]
    by_cases hfirst : a ∈ records.take size
    · -- What stands on the page is neither behind its last record nor as late as a later page.
      obtain ⟨htime, hplace⟩ := le_last hordered hlast hfirst
      refine iff_of_false (fun h => h.1 hfirst) ?_
      rintro ⟨page, hpage, -, other, hother, hsame, hbehind⟩
      rcases List.mem_cons.mp hpage with rfl | hpage
      · rw [hlast] at hother
        cases hother
        omega
      · have hlate := hlater other (List.mem_flatten.mpr ⟨page, hpage, List.mem_of_getLast? hother⟩)
        exact absurd (hsame ▸ htime) (not_le_of_gt hlate)
    · have hafter : a ∈ records.drop size := by
        rw [← List.take_append_drop size records] at ha
        exact (List.mem_append.mp ha).resolve_left hfirst
      obtain ⟨htime, hplace⟩ := last_le hordered hlast hafter
      rcases (lt_or_eq_of_le htime).symm with hsame | hlate
      · refine iff_of_true ⟨hfirst, fun hmem => ?_⟩ ?_
        · exact absurd hsame (ne_of_lt (hlater a hmem))
        · exact ⟨_, List.mem_cons_self, hlength, last, hlast, hsame, hplace⟩
      · have hkept : a ∈ records.filter fun a => time last < time a :=
          List.mem_filter.mpr ⟨ha, by simpa using hlate⟩
        rw [and_iff_right hfirst, ih hrestOrdered hkept]
        constructor
        · rintro ⟨page, hpage, hrest⟩
          exact ⟨page, List.mem_cons_of_mem _ hpage, hrest⟩
        · rintro ⟨page, hpage, hfilled, other, hother, hsame, hbehind⟩
          rcases List.mem_cons.mp hpage with rfl | hpage
          · rw [hlast] at hother
            cases hother
            exact absurd hsame (ne_of_lt hlate)
          · exact ⟨page, hpage, hfilled, other, hother, hsame, hbehind⟩

/-- With times that do not repeat the records behind a page are those later than its last. -/
theorem filter_eq_drop (hordered : records.Pairwise fun a b => time a < time b ∧ place a < place b)
    {last : α} (hlast : (records.take size).getLast? = some last) :
    (records.filter fun a => time last < time a) = records.drop size := by
  rw [filter_later (hordered.imp fun h => ⟨le_of_lt h.1, h.2⟩) hlast, List.filter_eq_self]
  intro a ha
  rw [← List.take_append_drop size records] at hordered
  have hlate := (List.pairwise_append.mp hordered).2.2 last (List.mem_of_getLast? hlast) a ha
  simpa using hlate.1

/-- With times that do not repeat the pages hold every record. -/
theorem Pages.flatten_eq (h : Pages time size records pages)
    (hordered : records.Pairwise fun a b => time a < time b ∧ place a < place b) :
    pages.flatten = records := by
  induction h with
  | last => simp
  | @more records last pages hfull hlast hrest ih =>
    rw [List.flatten_cons, ih (hordered.sublist List.filter_sublist), filter_eq_drop hordered hlast,
      List.take_append_drop]

/-- With times that do not repeat there is a page for each full one and a last one. -/
theorem Pages.length_eq (h : Pages time size records pages) (hsize : 0 < size)
    (hordered : records.Pairwise fun a b => time a < time b ∧ place a < place b) :
    pages.length = records.length / size + 1 := by
  induction h with
  | last hfew => rw [List.length_singleton, Nat.div_eq_of_lt hfew]
  | @more records last pages hfull hlast hrest ih =>
    rw [List.length_cons, ih (hordered.sublist List.filter_sublist), filter_eq_drop hordered hlast,
      List.length_drop, Nat.div_eq_sub_div hsize hfull]

end Pages

variable {τ : Type} [LinearOrder τ] (index : Index τ) (client : Client) {range : Range}

namespace Index

/-- The records of a range, with their places among each other. -/
def found (range : Range) : List (Document τ × Nat) := (index.matching range).zipIdx

/-- What lies behind a sort key is followed by what lies behind it too. -/
theorem isBehind_of_lt {key : Option Json} {t u : τ} (h : index.isBehind key t = true)
    (hlt : t < u) : index.isBehind key u = true := by
  cases key with
  | none => rfl
  | some key =>
    simp only [isBehind, Option.all_some, Option.any_eq_true, decide_eq_true_eq] at h ⊢
    obtain ⟨last, hlast, hbehind⟩ := h
    exact ⟨last, hlast, lt_trans hbehind hlt⟩

/-- The records found are in the order of their times and of their places. -/
theorem pairwise_found (range : Range) :
    (index.found range).Pairwise fun a b => a.1.timestamp ≤ b.1.timestamp ∧ a.2 < b.2 := by
  have hordered := index.pairwise_matching range
  rw [List.pairwise_iff_getElem] at hordered ⊢
  intro i j hi hj hij
  simp only [found, List.length_zipIdx, List.getElem_zipIdx] at hi hj ⊢
  exact ⟨hordered i j hi hj hij, by omega⟩

/-- The records found without their places are those that match. -/
theorem map_found (range : Range) : (index.found range).map Prod.fst = index.matching range :=
  List.zipIdx_map_fst 0 _

end Index

/-- A reading that is about to ask for what lies behind a sort key. -/
def Reading.behind (client : Client) (range : Range) (key : Option Json) (records : List Json) :
    Reading := ⟨client, range, key.map fun key => [key], records⟩

/-- Its next request is answered with the first page of what lies behind the key, and takes the hits
of that page in. -/
theorem receive_answer (hstart : range.start.InCalendar) (hfinish : range.finish.InCalendar)
    {found : List (Document τ × Nat)} {key : Option Json}
    (hfound : found = (index.found range).filter fun hit => index.isBehind key hit.1.timestamp)
    (records : List Json) :
    index.answer (Reading.behind client range key records).query =
        .ok (index.page ((found.take client.pageSize).map fun hit => index.hit hit.1)) ∧
      (Reading.behind client range key records).receive
          (index.answer (Reading.behind client range key records).query) =
        (Reading.behind client range key records).absorb
          ((found.take client.pageSize).map fun hit => index.hit hit.1) := by
  have hanswer : index.answer (Reading.behind client range key records).query =
      .ok (index.page ((found.take client.pageSize).map fun hit => index.hit hit.1)) := by
    show index.answer (client.query range (key.map fun key => [key])) = _
    rw [index.answer_query client hstart hfinish, ← index.map_found, List.filter_map,
      ← List.map_take, List.map_map, hfound]
    rfl
  have hreads := index.page_reads ((found.take client.pageSize).map fun hit => index.hit hit.1)
    fun hit hmem => by
      obtain ⟨document, _, rfl⟩ := List.mem_map.mp hmem
      exact index.canonical_hit document.1
  refine ⟨hanswer, ?_⟩
  simp only [hanswer, Reading.receive, hreads]

/-- A page that is not full ends a reading. -/
theorem absorb_few (reading : Reading) {documents : List (Document τ × Nat)}
    (hfew : documents.length < reading.client.pageSize) :
    reading.absorb (documents.map fun hit => index.hit hit.1) =
      .finished (.ok (reading.records ++ documents.map fun hit => hit.1.source)) := by
  rw [← List.length_map fun hit => index.hit hit.1] at hfew
  rw [Reading.absorb, if_pos hfew, List.map_map]
  rfl

/-- After a full page a reading goes on behind the sort key of its last record. -/
theorem absorb_full (records : List Json) (key : Option Json) {documents : List (Document τ × Nat)}
    {last : Document τ × Nat} (hfull : client.pageSize ≤ documents.length)
    (hlast : documents.getLast? = some last) :
    (Reading.behind client range key records).absorb
        (documents.map fun hit => index.hit hit.1) =
      .more (Reading.behind client range (some (index.key last.1.timestamp))
        (records ++ documents.map fun hit => hit.1.source)) := by
  rw [← List.length_map fun hit => index.hit hit.1] at hfull
  rw [Reading.absorb]
  have hnot : ¬ (documents.map fun hit => index.hit hit.1).length <
      (Reading.behind client range key records).client.pageSize := Nat.not_lt.mpr hfull
  rw [if_neg hnot, List.getLast?_map, hlast, List.map_map]
  rfl

/-- A reading of what lies behind a sort key gets the pages of that, and ends with their records
after those that it had. -/
theorem ends_of_pages {found : List (Document τ × Nat)} {pages : List (List (Document τ × Nat))}
    (h : Pages (fun hit : Document τ × Nat => hit.1.timestamp) client.pageSize found pages)
    (hstart : range.start.InCalendar) (hfinish : range.finish.InCalendar) {key : Option Json}
    (hfound : found = (index.found range).filter fun hit => index.isBehind key hit.1.timestamp)
    (records : List Json) :
    ∃ queries, (Reading.behind client range key records).Ends index.answer queries
        (.ok (records ++ pages.flatten.map fun hit => hit.1.source)) ∧
      queries.map index.answer =
        pages.map fun page => .ok (index.page (page.map fun hit => index.hit hit.1)) := by
  induction h generalizing key records with
  | @last found hfew =>
    obtain ⟨hanswer, hreceive⟩ := receive_answer index client hstart hfinish hfound records
    rw [List.take_of_length_le (Nat.le_of_lt hfew)] at hanswer hreceive
    refine ⟨[(Reading.behind client range key records).query], .last ?_, ?_⟩
    · rw [hreceive, List.flatten_singleton]
      exact absorb_few index _ hfew
    · rw [List.map_singleton, hanswer, List.map_singleton]
  | @more found last pages hfull hlast hrest ih =>
    obtain ⟨hanswer, hreceive⟩ := receive_answer index client hstart hfinish hfound records
    have hlastBehind : index.isBehind key last.1.timestamp = true := by
      have hmem := List.mem_of_mem_take (List.mem_of_getLast? hlast)
      rw [hfound] at hmem
      exact (List.mem_filter.mp hmem).2
    -- What is later than the last record of the page lay behind the sort key before it, too.
    have hlater : (found.filter fun hit => last.1.timestamp < hit.1.timestamp) =
        (index.found range).filter fun hit =>
          index.isBehind (some (index.key last.1.timestamp)) hit.1.timestamp := by
      rw [hfound, List.filter_filter]
      refine List.filter_congr fun hit _ => ?_
      rw [index.isBehind_key]
      by_cases hlt : last.1.timestamp < hit.1.timestamp
      · simp [hlt, index.isBehind_of_lt hlastBehind hlt]
      · simp [hlt]
    have hfilled : client.pageSize ≤ (found.take client.pageSize).length := by
      rw [List.length_take]
      omega
    obtain ⟨queries, hends, hpages⟩ :=
      ih hlater (records ++ (found.take client.pageSize).map fun hit => hit.1.source)
    refine ⟨(Reading.behind client range key records).query :: queries, ?_, ?_⟩
    · rw [List.flatten_cons, List.map_append, ← List.append_assoc]
      exact .more (hreceive.trans (absorb_full index client records key hfilled hlast)) hends
    · rw [List.map_cons, hanswer, hpages, List.map_cons]

/-- A reading from an index ends, and in one way only. It returns records of the range, in their
order and each at most once, and passes over exactly those that follow the last record of a full
page with its timestamp. So if no timestamp repeats it returns all records of the range, whatever
the size of a page and the format of the limits, and sends one request for each full page and one
more. -/
theorem reading_complete (name : String) (pageSize : Nat) (format : TimestampFormat)
    (hstart : range.start.InCalendar) (hfinish : range.finish.InCalendar) :
    ∃ (queries : List Json) (pages : List (List (Document τ × Nat))),
      (Reading.begin (Client.ofSettings name pageSize format) range).Ends index.answer queries
        (.ok (pages.flatten.map fun hit => hit.1.source)) ∧
      (∀ others result,
        (Reading.begin (Client.ofSettings name pageSize format) range).Ends index.answer others
          result → others = queries ∧ result = .ok (pages.flatten.map fun hit => hit.1.source)) ∧
      (queries.map index.answer =
        pages.map fun page => .ok (index.page (page.map fun hit => index.hit hit.1))) ∧
      pages.flatten.Sublist (index.found range) ∧
      (∀ hit ∈ index.found range, hit ∉ pages.flatten ↔
        ∃ page ∈ pages, page.length = max pageSize 1 ∧ ∃ last ∈ page.getLast?,
          last.1.timestamp = hit.1.timestamp ∧ last.2 < hit.2) ∧
      (((index.matching range).map Document.timestamp).Nodup →
        pages.flatten.map Prod.fst = index.matching range ∧
        queries.length = (index.matching range).length / max pageSize 1 + 1) := by
  have hordered := index.pairwise_found range
  obtain ⟨pages, hpages⟩ := exists_pages (Client.ofSettings name pageSize format).pageSize_pos
    (fun hit : Document τ × Nat => hit.1.timestamp) (index.found range)
  have hall : index.found range =
      (index.found range).filter fun hit => index.isBehind none hit.1.timestamp :=
    (List.filter_eq_self.mpr fun _ _ => rfl).symm
  obtain ⟨queries, hends, hanswers⟩ :=
    ends_of_pages index (Client.ofSettings name pageSize format) hpages hstart hfinish hall []
  rw [List.nil_append] at hends
  refine ⟨queries, pages, hends, fun others result => hends.unique, hanswers,
    hpages.sublist hordered, fun hit hmem => hpages.not_mem_iff hordered hmem, fun hnodup => ?_⟩
  have hcount : queries.length = pages.length := by
    simpa using congrArg List.length hanswers
  rw [← index.map_found, List.map_map] at hnodup
  have hstrict : (index.found range).Pairwise fun a b =>
      a.1.timestamp < b.1.timestamp ∧ a.2 < b.2 :=
    (hordered.and (List.pairwise_map.mp hnodup)).imp fun h =>
      ⟨lt_of_le_of_ne h.1.1 h.2, h.1.2⟩
  have hlength : (index.found range).length = (index.matching range).length := List.length_zipIdx
  rw [hpages.flatten_eq hstrict, index.map_found, hcount,
    hpages.length_eq (Client.pageSize_pos _) hstrict, hlength]
  exact ⟨rfl, rfl⟩

/-- An index that sorts by milliseconds and writes plain pages. -/
def Index.ofMillis (documents : List (Document Int))
    (ordered : documents.Pairwise fun a b => a.timestamp ≤ b.timestamp) : Index Int where
  documents := documents
  ordered := ordered
  moment t := ⟨t / 1000, (t % 1000).toNat * 1000000⟩
  key := Json.ofInt
  key_canonical _ := trivial
  ofKey?
    | .number (.int t) => some t
    | _ => none
  ofKey?_key _ := rfl
  page := plainPage
  page_reads := plainPage_reads

/-- A record of a device that holds nothing but its time. -/
def record (device : String) (t : Int) : Document Int := ⟨device, t, .ofInt t, trivial⟩

/-- Records of two devices. -/
def twoDevices : Index Int :=
  Index.ofMillis [record "a" 1000, record "b" 1005, record "a" 1010, record "a" 1020,
    record "a" 1030, record "a" 2000] (by decide)

/-- Four records of a device are read in two full pages and an empty one; those of another device
and of another time are left out. -/
theorem exact_multiple_sends_another_request :
    ∃ queries, (Reading.begin (Client.ofSettings "device-status" 2 .epochMillis)
        ⟨"a", ⟨0, 0⟩, ⟨1, 500000000⟩⟩).Ends twoDevices.answer queries
          (.ok [.ofInt 1000, .ofInt 1010, .ofInt 1020, .ofInt 1030]) ∧ queries.length = 3 := by
  obtain ⟨queries, pages, hends, -, -, -, -, hunique⟩ := @reading_complete _ _ twoDevices
    ⟨"a", ⟨0, 0⟩, ⟨1, 500000000⟩⟩ "device-status" 2 .epochMillis (by decide) (by decide)
  obtain ⟨hpages, hlength⟩ := hunique (by decide)
  refine ⟨queries, ?_, hlength⟩
  have hsources : (pages.flatten.map fun hit => hit.1.source) =
      (pages.flatten.map Prod.fst).map Document.source := by
    rw [List.map_map]
    rfl
  rw [hsources, hpages] at hends
  exact hends

end TripArchive.Telemetry
