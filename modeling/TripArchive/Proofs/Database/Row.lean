import TripArchive.Database

/-!
# Segments as rows

What the commands do to one row: an insertion adds it, an update changes it if it meets the
conditions, and a query reads it if it meets its own. A row that stores a segment is read as that
segment (`segmentOf?_readRow`), and is changed into one that stores the completed segment
(`stores_changed`). The database counts microseconds and knows no leap seconds, so a time within one
is read as the moment that stands at the same count.
-/

namespace TripArchive

namespace Instant

variable {t : Instant}

/-- Whether a moment is a whole number of microseconds. -/
def WholeMicros (t : Instant) : Prop := t.nanos % 1000 = 0

/-- Whether a moment is within a leap second. -/
def InLeapSecond (t : Instant) : Prop := 1000000000 ≤ t.nanos

instance (t : Instant) : Decidable t.WholeMicros := inferInstanceAs (Decidable (_ = _))

instance (t : Instant) : Decidable t.InLeapSecond := inferInstanceAs (Decidable (_ ≤ _))

/-- A moment on a clock without leap seconds, which counts on through one. -/
def countedOn (t : Instant) : Instant :=
  ⟨t.seconds + (t.nanos / 1000000000 : Nat), t.nanos % 1000000000⟩

/-- Only a moment within a leap second is another one on a clock without them. -/
theorem countedOn_eq_self_iff : t.countedOn = t ↔ ¬ t.InLeapSecond := by
  obtain ⟨seconds, nanos⟩ := t
  unfold countedOn InLeapSecond
  rw [Instant.mk.injEq]
  dsimp only
  omega

end Instant

namespace Segment

/-- The times of a segment. -/
def times (segment : Segment) : List Instant := segment.startTime :: segment.endTime.toList

/-- Whether the times of a segment are whole numbers of microseconds. -/
def WholeMicros (segment : Segment) : Prop := ∀ t ∈ segment.times, t.WholeMicros

/-- A completed segment has the end of its completion. -/
theorem WholeMicros.complete {segment : Segment} {completion : Completion}
    (h : segment.WholeMicros) (hend : completion.endTime.WholeMicros) :
    (segment.complete completion).WholeMicros := by
  intro t hmem
  rcases List.mem_cons.mp hmem with rfl | hmem
  · exact h _ List.mem_cons_self
  · rw [List.mem_singleton.mp hmem]
    exact hend

/-- Whether a segment is open and has an identifier. -/
def isOpenAs (id : String) (segment : Segment) : Bool :=
  decide (segment.id = id) && !segment.isClosed

/-- An open segment with an identifier. -/
theorem isOpenAs_iff {id : String} {segment : Segment} :
    segment.isOpenAs id = true ↔ segment.id = id ∧ segment.isClosed = false := by
  simp [isOpenAs]

/-- A segment with its times on a clock without leap seconds. -/
def countedOn (segment : Segment) : Segment :=
  { segment with
    startTime := segment.startTime.countedOn
    endTime := segment.endTime.map Instant.countedOn }

/-- Only a segment with a time within a leap second is another one on a clock without them. -/
theorem countedOn_eq_self_iff {segment : Segment} :
    segment.countedOn = segment ↔ ∀ t ∈ segment.times, ¬ t.InLeapSecond := by
  obtain ⟨id, token, start, finish⟩ := segment
  cases finish <;> simp [countedOn, times, Instant.countedOn_eq_self_iff]

end Segment

namespace Database

/-! ## Times -/

/-- A whole number of microseconds comes back on the clock of the database. -/
theorem ofMicros_micros {t : Instant} (h : t.WholeMicros) : ofMicros (micros t) = t.countedOn := by
  obtain ⟨seconds, nanos⟩ := t
  obtain ⟨count, rfl⟩ : ∃ count, nanos = 1000 * count :=
    ⟨nanos / 1000, (Nat.mul_div_cancel' (Nat.dvd_of_mod_eq_zero h)).symm⟩
  have hmicros : micros ⟨seconds, 1000 * count⟩ = seconds * 1000000 + count := by
    have hfactor : (seconds - epoch) * 1000000000 + ((1000 * count : Nat) : Int) =
        1000 * ((seconds - epoch) * 1000000 + count) := by
      omega
    unfold micros
    dsimp only
    rw [hfactor, Int.mul_tdiv_cancel_left _ (by decide)]
    unfold epoch
    omega
  rw [hmicros]
  unfold ofMicros Instant.countedOn
  rw [Instant.mk.injEq]
  dsimp only
  omega

/-! ## Commands on rows -/

/-- Another column is looked up as if a column were not there. -/
theorem lookup_filter_ne {row : Row} {column other : String} (h : other ≠ column) :
    (row.filter fun entry => entry.1 ≠ column).lookup other = row.lookup other := by
  induction row with
  | nil => rfl
  | cons entry row ih =>
    obtain ⟨name, value⟩ := entry
    by_cases hname : name = column
    · have hother : (other == name) = false := by simpa [hname] using h
      rw [List.filter_cons_of_neg (by simpa using hname), List.lookup_cons, hother, ih]
    · rw [List.filter_cons_of_pos (by simpa using hname), List.lookup_cons, List.lookup_cons, ih]

/-- The value of a column after one has been set. -/
theorem Row.get_set (row : Row) (column other : String) (value : Value) :
    (row.set column value).get other = if other = column then value else row.get other := by
  unfold Row.set Row.get
  rw [List.lookup_cons]
  by_cases hother : other = column
  · simp [hother]
  · have hfirst : (other == column) = false := by simpa using hother
    rw [hfirst, lookup_filter_ne hother, if_neg hother]

/-- A column that is changed once has the new value, and any other the old one. -/
theorem get_changedRow {changes : List (String × Expr)} {params : List Value} {row : Row}
    {column : String} (h : (changes.map Prod.fst).Nodup) :
    (Statement.changedRow changes params row).get column =
      (changes.lookup column).elim (row.get column) fun value => value.eval params := by
  induction changes generalizing row with
  | nil => rfl
  | cons change changes ih =>
    obtain ⟨name, value⟩ := change
    obtain ⟨hfresh, hrest⟩ := List.nodup_cons.mp h
    have hstep : Statement.changedRow ((name, value) :: changes) params row =
        Statement.changedRow changes params (row.set name (value.eval params)) := rfl
    rw [hstep, ih hrest, Row.get_set, List.lookup_cons]
    by_cases hname : column = name
    · subst hname
      have hlater : changes.lookup column = none := by
        rw [List.lookup_eq_none_iff]
        intro entry hmem
        have hother : ¬ column = entry.1 := by
          rintro rfl
          exact hfresh (List.mem_map.mpr ⟨entry, hmem, rfl⟩)
        simpa using hother
      simp [hlater]
    · have hother : (column == name) = false := by simpa using hname
      simp only [hother, if_neg hname]

/-- Whether a row meets a condition. Only texts and integers are compared, and null equals
nothing. -/
def Condition.meets (params : List Value) (row : Row) : Condition → Bool
  | equals column n => row.get column ≠ .null && row.get column = Expr.paramValue params n
  | isNull column => row.get column = .null
  | notNull column => row.get column ≠ .null

namespace Command

/-- The row that an insertion adds, unless a constraint of the table refuses it. -/
def added? (command : Command) : Option Row :=
  match command.statement with
  | .insert _ columns _ _ => some (Statement.newRow columns command.params)
  | _ => none

/-- The conditions of an update or a query. -/
def conditions (command : Command) : List Condition :=
  match command.statement with
  | .update _ _ conditions => conditions
  | .select _ _ conditions _ => conditions
  | _ => []

/-- Whether an update or a query is about a row. -/
def meets (command : Command) (row : Row) : Bool :=
  command.conditions.all fun condition => condition.meets command.params row

/-- A row after an update. -/
def changed (command : Command) (row : Row) : Row :=
  match command.statement with
  | .update _ changes _ =>
    if command.meets row then Statement.changedRow changes command.params row else row
  | _ => row

/-- What is answered to an update of rows and to a query that asks for no order. -/
def answer? (command : Command) (rows : List Row) : Option Reply :=
  match command.statement with
  | .update _ _ _ => some (.affected (rows.countP command.meets))
  | .select outputs _ _ none =>
    some (.rows ((rows.filter command.meets).map (Statement.readRow outputs)))
  | _ => none

end Command

/-! ## Rows of segments -/

/-- A point as the value of a column, the longitude first. -/
def pointValue (p : Point) : Value := .point p.longitude p.latitude

/-- The columns of a row hold a segment. -/
structure Row.Stores (row : Row) (segment : Segment) : Prop where
  id : row.get "id" = .text segment.id
  vehicleToken : row.get "vehicle_token_id" = .int segment.vehicleToken
  startTime : row.get "start_time" = time segment.startTime
  endTime : row.get "end_time" = .ofOption time segment.endTime
  startPosition : row.get "start_position" = .ofOption pointValue segment.startPosition
  startEstimate : row.get "start_position_estimate" = .ofOption pointValue segment.startEstimate
  endPosition : row.get "end_position" = .ofOption pointValue segment.endPosition
  droppedData : row.get "dropped_data" = .bool segment.droppedData
  encryptionKey : row.get "encryption_key" = .ofOption .bytes segment.encryptionKey
  archiveId : row.get "bundlr_id" = .ofOption .text segment.archiveId

section Stores

variable {row : Row} {segment : Segment} {id : String} {completion : Completion}

/-- A point of two parameters is null without the point. -/
theorem ofOption_pointValue (p : Option Point) :
    (match Value.ofOption (fun p : Point => .double p.longitude) p,
        Value.ofOption (fun p : Point => .double p.latitude) p with
      | .double x, .double y => Value.point x y
      | _, _ => .null) = .ofOption pointValue p := by
  cases p <;> rfl

/-- The row that is added for a segment stores it. -/
theorem stores_added (h : (insertSegment segment).added? = some row) : row.Stores segment := by
  cases h
  constructor
  case startPosition | startEstimate | endPosition => exact ofOption_pointValue _
  all_goals rfl

/-- The row of a segment is updated exactly if it is the open segment with the identifier. -/
theorem meets_updateSegment (h : row.Stores segment) :
    (updateSegment id completion).meets row = segment.isOpenAs id := by
  have hparam : Expr.paramValue (completionParams id completion) 1 = .text id := rfl
  have hopen : decide (Value.ofOption time segment.endTime = .null) = !segment.isClosed := by
    unfold Segment.isClosed
    cases segment.endTime <;> rfl
  simp [Command.meets, Command.conditions, updateSegment, Condition.meets, h.id, h.endTime, hparam,
    hopen, Segment.isOpenAs]

/-- The row of a segment is read exactly if it is the segment with the identifier. -/
theorem meets_selectSegment (h : row.Stores segment) :
    (selectSegment id).meets row = decide (segment.id = id) := by
  have hparam : Expr.paramValue [.text id] 1 = .text id := rfl
  simp [Command.meets, Command.conditions, selectSegment, Condition.meets, h.id, hparam]

/-- An update leaves the completed segment in the row of an open one. -/
theorem stores_changed (h : row.Stores segment) (hopen : segment.isOpenAs id = true) :
    ((updateSegment id completion).changed row).Stores (segment.complete completion) := by
  have hmeets : (updateSegment id completion).meets row = true := by
    rw [meets_updateSegment h, hopen]
  have hget (column : String) : ((updateSegment id completion).changed row).get column =
      (completionColumns.lookup column).elim (row.get column) fun value =>
        value.eval (completionParams id completion) := by
    unfold Command.changed
    rw [hmeets]
    exact get_changedRow (by decide)
  constructor
  case endPosition | startEstimate => exact (hget _).trans (ofOption_pointValue _)
  case id => exact (hget _).trans h.id
  case vehicleToken => exact (hget _).trans h.vehicleToken
  case startTime => exact (hget _).trans h.startTime
  case startPosition => exact (hget _).trans h.startPosition
  all_goals exact hget _

/-- A point is read from its two coordinates. -/
theorem pointOf_coordinates {column longitude latitude : String} {p : Option Point}
    (h : row.get column = .ofOption pointValue p) :
    pointOf ((Output.coordinate column .x longitude).eval row)
      ((Output.coordinate column .y latitude).eval row) = p := by
  simp only [Output.eval, h]
  cases p <;> rfl

/-- A row is read as the segment that it stores, on the clock of the database. -/
theorem segmentOf?_readRow (h : row.Stores segment) (hmicros : segment.WholeMicros) :
    segmentOf? (Statement.readRow segmentOutputs row) = some segment.countedOn := by
  have hstart : (time segment.startTime).time? = some segment.startTime.countedOn :=
    congrArg some (ofMicros_micros (hmicros segment.startTime List.mem_cons_self))
  have hfinish : (Value.ofOption time segment.endTime).time? =
      segment.endTime.map Instant.countedOn := by
    cases hend : segment.endTime with
    | none => rfl
    | some finish =>
      have hmem : finish ∈ segment.times := by simp [Segment.times, hend]
      exact congrArg some (ofMicros_micros (hmicros finish hmem))
  have hkey : (Value.ofOption .bytes segment.encryptionKey).bytes? = segment.encryptionKey := by
    cases segment.encryptionKey <;> rfl
  have harchive : (Value.ofOption .text segment.archiveId).text? = segment.archiveId := by
    cases segment.archiveId <;> rfl
  have hread : segmentOf? (Statement.readRow segmentOutputs row) = (do
      let id ← (row.get "id").text?
      let vehicleToken ← (row.get "vehicle_token_id").int?
      let startTime ← (row.get "start_time").time?
      let droppedData ← (row.get "dropped_data").bool?
      some ⟨id, vehicleToken, startTime, (row.get "end_time").time?,
        pointOf ((Output.coordinate "start_position" .x "start_lon").eval row)
          ((Output.coordinate "start_position" .y "start_lat").eval row),
        pointOf ((Output.coordinate "start_position_estimate" .x "start_est_lon").eval row)
          ((Output.coordinate "start_position_estimate" .y "start_est_lat").eval row),
        pointOf ((Output.coordinate "end_position" .x "end_lon").eval row)
          ((Output.coordinate "end_position" .y "end_lat").eval row),
        droppedData, (row.get "encryption_key").bytes?, (row.get "bundlr_id").text?⟩) := rfl
  rw [hread, h.id, h.vehicleToken, h.startTime, h.endTime, h.droppedData, h.encryptionKey,
    h.archiveId, hstart, hfinish, hkey, harchive, pointOf_coordinates h.startPosition,
    pointOf_coordinates h.startEstimate, pointOf_coordinates h.endPosition]
  rfl

end Stores

end Database

end TripArchive
