import TripArchive.Proofs.Segment.Failure
import TripArchive.Proofs.Segment.Outcomes
import TripArchive.Proofs.Segment.Share

/-!
# Tables that are ahead by an opened row

A complete event that failed may have left its segment opened. `Ahead` compares such tables with
those where the event was never handled: they differ by the open row alone, which is the one that
the event would open. Requests about other vehicles do not notice the difference and keep it as it
is.
-/

namespace TripArchive

open Processor

namespace Store

variable {store later a b : Store} {event : SegmentEvent} {vehicle : Vehicle} {c : Call}
  {answer : c.Answer}

/-- Tables where an event has opened its row already, next to tables where it has not. -/
structure Ahead (event : SegmentEvent) (vehicle : Vehicle) (a b : Store) : Prop where
  vehicles : a.vehicles = b.vehicles
  registered : b.vehicle? event.deviceId = some vehicle
  others : a.part (fun id _ => id ≠ event.id) = b.part fun id _ => id ≠ event.id
  fresh : b.rows event.id = []
  opened : a.rows event.id = [b.opening event vehicle]

/-- An event that opens its segment leaves the tables ahead. -/
theorem Opens.ahead {row : Segment} (h : b.Opens event row a) :
    ∃ vehicle, Ahead event vehicle a b := by
  obtain ⟨vehicle, hvehicle, rfl⟩ := h.placed
  obtain rfl := h.added
  have hfresh : b.rows event.id = [] := by
    rw [← List.head?_eq_none_iff, ← segment?_eq_head?]
    exact h.fresh
  have hid : (b.opening event vehicle).id = event.id := rfl
  refine ⟨vehicle, rfl, hvehicle, ?_, hfresh, ?_⟩
  · simp [part, hid]
  · have hrows : b.segments.filter (fun segment => segment.id = event.id) = [] := hfresh
    simp [rows, hid, hrows]

/-- A row of the segment is open in tables that are ahead, and there is none in the others. -/
theorem Ahead.prior?_eq (h : Ahead event vehicle a b) (token : Int) :
    a.prior? token = b.prior? token := by
  apply prior?_congr
  apply closedRows_congr h.others
  · intro row hmem _ hclosed
    by_contra hid
    have hrow : row ∈ a.rows event.id := List.mem_filter.mpr ⟨hmem, by simpa using hid⟩
    rw [h.opened, List.mem_singleton] at hrow
    subst hrow
    cases hclosed
  · intro row hmem _ _
    by_contra hid
    have hrow : row ∈ b.rows event.id := List.mem_filter.mpr ⟨hmem, by simpa using hid⟩
    rw [h.fresh] at hrow
    cases hrow

/-- The calls of an event of another vehicle do not notice that the tables are ahead, and leave them
so. -/
theorem tracks_ahead {other : SegmentEvent} {tokens : List Int} (hc : c.Concerns other tokens)
    (hid : other.id ≠ event.id) (htoken : vehicle.token ∉ tokens) :
    Tracks (fun a b => Ahead event vehicle a b ∧ a.Covers other tokens ∧ b.Covers other tokens)
      c := by
  rintro a b a' answer ⟨h, hcovers, hcovers'⟩ hanswer
  have hsegment (id : String) (hcall : c.segment? = some id) : a.segment? id = b.segment? id := by
    obtain rfl := hc.segment?_eq hcall
    exact segment?_congr h.others (by simp [hid])
  obtain ⟨b', hserved, hvehicles⟩ :=
    answer?_alike h.vehicles hsegment (fun token _ => h.prior?_eq token) hanswer
  have ha : a.Answers c answer a' := .served hanswer
  have hb : b.Answers c answer b' := .served hserved
  have hrows : a'.rows event.id = a.rows event.id := by
    rw [rows_eq_part, rows_eq_part]
    exact hcovers.part_eq hc ha (by simp [hid])
  have hrows' : b'.rows event.id = b.rows event.id := by
    rw [rows_eq_part, rows_eq_part]
    exact hcovers'.part_eq hc hb (by simp [hid])
  -- The row that is still to be opened is placed by the previous segment of its vehicle.
  have hprior : b'.prior? vehicle.token = b.prior? vehicle.token := by
    have hpart : b'.part (fun _ token => token = vehicle.token) =
        b.part fun _ token => token = vehicle.token := by
      apply hcovers'.part_eq hc hb
      intro token hmem
      have hother : token ≠ vehicle.token := by
        rintro rfl
        exact htoken hmem
      simpa using hother
    exact prior?_congr (closedRows_congr_part hpart (by simp))
  refine ⟨b', hserved, ⟨hvehicles, ?_, part_congr h.others ha hb, ?_, ?_⟩, hcovers.own hc ha,
    hcovers'.own hc hb⟩
  · unfold vehicle?
    rw [hb.vehicles_eq hc]
    exact h.registered
  · rw [hrows', h.fresh]
  · rw [hrows, h.opened]
    unfold opening
    rw [hprior]

/-- Recording a vehicle does not notice that the tables are ahead either. -/
theorem tracks_ahead_upsertVehicle (device : String) (token : Int) :
    Tracks (Ahead event vehicle) (.upsertVehicle device token) := by
  intro a b a' answer h hanswer
  obtain ⟨b', hserved, hvehicles⟩ := answer?_alike h.vehicles (by simp [Call.segment?]) (by simp)
    hanswer
  have ha : a.Answers (.upsertVehicle device token) answer a' := .served hanswer
  have hb : b.Answers (.upsertVehicle device token) answer b' := .served hserved
  have hkept {store later : Store}
      (h : store.Answers (.upsertVehicle device token) answer later)
      (about : String → Int → Bool) : later.part about = store.part about :=
    h.part_eq (by simp) (by simp)
  refine ⟨b', hserved, hvehicles, hb.grows.vehicle? h.registered, part_congr h.others ha hb, ?_,
    ?_⟩
  · rw [rows_eq_part, hkept hb]
    exact h.fresh
  · have hprior : b'.prior? vehicle.token = b.prior? vehicle.token :=
      prior?_congr (closedRows_congr_part (hkept hb fun _ _ => true) fun _ => rfl)
    rw [rows_eq_part, hkept ha]
    unfold opening
    rw [hprior]
    exact h.opened

/-- With the row that it opens, tables are alike that an event left behind. -/
theorem Ahead.alike (h : Ahead event vehicle a b) :
    a.Alike { b with segments := b.segments ++ [b.opening event vehicle] } := by
  have hopening : (b.opening event vehicle).id = event.id := rfl
  refine ⟨h.vehicles, fun id => ?_⟩
  by_cases hid : id = event.id
  · have hfresh : b.segments.filter (fun segment => segment.id = event.id) = [] := h.fresh
    rw [hid, h.opened]
    simp [rows, hfresh, hopening]
  · have hother : ¬ event.id = id := fun hsame => hid hsame.symm
    have hrows : a.rows id = b.rows id := rows_congr h.others (by simp [hid])
    rw [hrows]
    simp [rows, hopening, hother]

end Store

namespace Handler

variable {α : Type} {h : Handler α} {event : SegmentEvent} {tokens : List Int} {post : α → Prop}
  {R : Store → Store → Prop} {a b later : Store} {trace : List Answered}
  {result : Except SegmentError α}

/-- By itself, the handler of an event ends alike from tables in a relation that its calls keep. -/
theorem Ends.tracks (hends : h.Ends Store.Answers a trace result later)
    (hconfined : h.Confined event tokens post)
    (htracks : ∀ c, c.Concerns event tokens → Store.Tracks R c)
    (hcovers : ∀ {a b}, R a b → a.Covers event tokens) (hR : R a b) :
    ∃ b', h.Ends Store.Answers b trace result b' ∧ R later b' := by
  induction hends generalizing b with
  | done x store => exact ⟨b, .done x b, hR⟩
  | fail e store => exact ⟨b, .fail e b, hR⟩
  | call hanswer _ ih =>
    obtain ⟨hc, hnext⟩ := hconfined
    obtain ⟨between, hanswer', hR'⟩ := (htracks _ hc).answers hR hanswer
    obtain ⟨b', hends', hlater⟩ := ih (hnext _ ((hcovers hR).concerns hc hanswer)) hR'
    exact ⟨b', .call hanswer' hends', hlater⟩

end Handler

/-- Whether a request is about no segment event but one of other vehicles. -/
def Request.Beside (store : Store) (event : SegmentEvent) (request : Request) : Prop :=
  ∀ other, request.event? = some other → (store.tokens event).Disjoint (store.tokens other)

/-- Requests about other vehicles end alike on tables that are ahead, and leave them so. -/
theorem Store.Ahead.request {event : SegmentEvent} {vehicle : Vehicle} {a b later : Store}
    {processor : Processor} {request : Request} {trace : List Answered}
    {result : Except SegmentError Unit} (h : Ahead event vehicle a b)
    (hbeside : request.Beside a event)
    (hends : (request.handler processor).Ends Store.Answers a trace result later) :
    ∃ b', (request.handler processor).Ends Store.Answers b trace result b' ∧
      Ahead event vehicle later b' := by
  cases hevent : request.event? with
  | none =>
    cases request with
    | begin event | complete event => cases hevent
    | vehicle minted =>
      by_cases htype : minted.type = mintType
      · have hrecord : (Request.vehicle minted).handler processor =
            Handler.upsertVehicle minted.data.deviceId minted.data.tokenId := if_pos htype
        rw [hrecord] at hends ⊢
        cases hends with
        | call hanswer hnext =>
          obtain ⟨b', hanswer', hahead⟩ :=
            (tracks_ahead_upsertVehicle _ _).answers h hanswer
          obtain ⟨rfl, rfl, rfl⟩ := hnext.of_ofExcept
          exact ⟨b', .call hanswer' (Handler.ends_ofExcept _ _ b'), hahead⟩
      · have hpassed : (Request.vehicle minted).handler processor = .done () := if_neg htype
        rw [hpassed] at hends ⊢
        cases hends
        exact ⟨b, .done () b, h⟩
  | some other =>
    have hdisjoint := hbeside other hevent
    have hopened : vehicle.token ∈ (a.rows event.id).map Segment.vehicleToken := by
      rw [h.opened]
      exact List.mem_singleton_self _
    have hid : other.id ≠ event.id := by
      intro hsame
      have hrows : vehicle.token ∈ (a.rows other.id).map Segment.vehicleToken := hsame ▸ hopened
      exact hdisjoint (List.mem_append_right _ hopened) (List.mem_append_right _ hrows)
    have hvehicle : vehicle.token ∉ a.tokens other := hdisjoint (List.mem_append_right _ hopened)
    have htokens : a.tokens other = b.tokens other := by
      unfold Store.tokens Store.vehicle?
      rw [h.vehicles, Store.rows_congr h.others (by simp [hid])]
    have hcovers : b.Covers other (a.tokens other) := htokens ▸ b.covers_tokens other
    -- The relation carries the tokens along: what the other event is shown stays among them.
    obtain ⟨b', hends', hahead, _⟩ := hends.tracks (request.confined processor hevent _)
      (fun c hc => Store.tracks_ahead hc hid hvehicle) (fun hR => hR.2.1)
      ⟨h, a.covers_tokens other, hcovers⟩
    exact ⟨b', hends', hahead⟩

end TripArchive
