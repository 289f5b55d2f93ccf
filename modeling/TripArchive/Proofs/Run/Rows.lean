import TripArchive.Proofs.Run

/-!
# Rows along a run

Between the reads and the writes of one handler stand the calls of all others. The answered writes
of an identifier tell the whole life of its row: an insertion, and at most one completion after it.
So a row that a handler was once shown is still there at every later moment, open or completed.
-/

namespace TripArchive

namespace Run

/-- The answered writes of an identifier and the row that they leave. -/
inductive Life (id : String) : List Entry → Option Segment → Prop
  | unknown : Life id [] none
  | opened (i : Nat) (segment : Segment) (hid : segment.id = id) :
      Life id [⟨i, ⟨.insertSegment segment, .ok ()⟩⟩] (some segment)
  | closed (i j : Nat) (segment : Segment) (completion : Completion) (hid : segment.id = id) :
      Life id
        [⟨i, ⟨.insertSegment segment, .ok ()⟩⟩, ⟨j, ⟨.updateSegment id completion, .ok ()⟩⟩]
        (some (segment.complete completion))

/-- The answered writes of an identifier, in order. -/
def writesOf (run : Run) (id : String) : List Entry :=
  run.log.filter fun entry => entry.answered.writes id

variable {processor : Processor} {run later : Run} {id : String}

/-- One answered call takes the life of a row one step further. -/
theorem Life.step {i : Nat} {answered : Answered} {written : List Entry}
    {row result : Option Segment} (h : Life id written row)
    (hstep : Store.RowStep id row answered result) :
    Life id (written ++ if answered.writes id then [⟨i, answered⟩] else []) result := by
  cases hstep with
  | inserted segment hid =>
    have hnone : written = [] := by
      cases h
      rfl
    have hwrites : Answered.writes id ⟨.insertSegment segment, .ok ()⟩ = true := by
      simp [Answered.writes, Answered.inserts, hid]
    rw [hnone, if_pos hwrites]
    exact .opened i segment hid
  | closed row completion hopen =>
    have hwrites : Answered.writes id ⟨.updateSegment id completion, .ok ()⟩ = true := by
      simp [Answered.writes, Answered.closes]
    rw [if_pos hwrites]
    cases h with
    | opened j _ hid => exact .closed j i row completion hid
    | closed j k segment earlier hid =>
      rw [Segment.isClosed_complete] at hopen
      cases hopen
  | kept _ _ hinserts hcloses =>
    have hwrites : ¬ answered.writes id = true := by simp [Answered.writes, hinserts, hcloses]
    rw [if_neg hwrites, List.append_nil]
    exact h

/-- In every reachable run the answered writes of an identifier are the life of its row. -/
theorem Reachable.life (hrun : Reachable processor run) (id : String) :
    Life id (run.writesOf id) (run.store.segment? id) := by
  induction hrun with
  | refl => exact .unknown
  | tail _ hstep ih =>
    cases hstep with
    | take request => exact ih
    | @answer i request c next answer stored hattempt hanswer =>
      have hlife := ih.step (i := i) (hanswer.rowStep id)
      unfold writesOf at hlife ⊢
      rw [List.filter_append]
      by_cases hwrites : Answered.writes id ⟨c, answer⟩ = true
      · rw [if_pos hwrites] at hlife
        simpa [hwrites] using hlife
      · rw [if_neg hwrites] at hlife
        simpa [hwrites] using hlife

/-- Of the writes in the life of a row at most one inserts it and at most one closes it. -/
theorem Life.once {written : List Entry} {row : Option Segment} (h : Life id written row) :
    (written.countP fun entry => entry.answered.inserts id) ≤ 1 ∧
      (written.countP fun entry => entry.answered.closes id) ≤ 1 := by
  cases h with
  | unknown => simp
  | opened i segment hid => simp [Answered.inserts, Answered.closes, hid]
  | closed i j segment completion hid => simp [Answered.inserts, Answered.closes, hid]

/-- The insertion in the life of a row is one entry. -/
theorem Life.eq_of_inserts {written : List Entry} {row : Option Segment} {a b : Entry}
    (h : Life id written row) (ha : a ∈ written) (hb : b ∈ written)
    (hfirst : a.answered.inserts id = true) (hsecond : b.answered.inserts id = true) : a = b := by
  cases h with
  | unknown => cases ha
  | opened i segment hid => rw [List.mem_singleton.mp ha, List.mem_singleton.mp hb]
  | closed i j segment completion hid =>
    simp only [List.mem_cons, List.not_mem_nil, or_false] at ha hb
    rcases ha with rfl | rfl
    · rcases hb with rfl | rfl
      · rfl
      · cases hsecond
    · cases hfirst

/-- The completion in the life of a row is one entry. -/
theorem Life.eq_of_closes {written : List Entry} {row : Option Segment} {a b : Entry}
    (h : Life id written row) (ha : a ∈ written) (hb : b ∈ written)
    (hfirst : a.answered.closes id = true) (hsecond : b.answered.closes id = true) : a = b := by
  cases h with
  | unknown => cases ha
  | opened i segment hid => rw [List.mem_singleton.mp ha, List.mem_singleton.mp hb]
  | closed i j segment completion hid =>
    simp only [List.mem_cons, List.not_mem_nil, or_false] at ha hb
    rcases ha with rfl | rfl
    · cases hfirst
    · rcases hb with rfl | rfl
      · cases hsecond
      · rfl

/-- In every reachable run an identifier was inserted at most once and closed at most once. -/
theorem Reachable.once (hrun : Reachable processor run) (id : String) :
    (run.log.countP fun entry => entry.answered.inserts id) ≤ 1 ∧
      (run.log.countP fun entry => entry.answered.closes id) ≤ 1 := by
  have honce := (hrun.life id).once
  have hinserts (answered : Answered) :
      (answered.inserts id && answered.writes id) = answered.inserts id := by
    cases hcase : answered.inserts id <;> simp [Answered.writes, hcase]
  have hcloses (answered : Answered) :
      (answered.closes id && answered.writes id) = answered.closes id := by
    cases hcase : answered.closes id <;> simp [Answered.writes, hcase]
  simpa only [writesOf, List.countP_filter, hinserts, hcloses] using honce

/-- Two entries of a reachable run that insert one identifier are the same. -/
theorem Reachable.eq_of_inserts (hrun : Reachable processor run) (id : String) {a b : Entry}
    (ha : a ∈ run.log) (hb : b ∈ run.log) (hfirst : a.answered.inserts id = true)
    (hsecond : b.answered.inserts id = true) : a = b := by
  have hmem {entry : Entry} (hentry : entry ∈ run.log)
      (hinserts : entry.answered.inserts id = true) : entry ∈ run.writesOf id :=
    List.mem_filter.mpr ⟨hentry, by simp [Answered.writes, hinserts]⟩
  exact (hrun.life id).eq_of_inserts (hmem ha hfirst) (hmem hb hsecond) hfirst hsecond

/-- Two entries of a reachable run that close one identifier are the same. -/
theorem Reachable.eq_of_closes (hrun : Reachable processor run) (id : String) {a b : Entry}
    (ha : a ∈ run.log) (hb : b ∈ run.log) (hfirst : a.answered.closes id = true)
    (hsecond : b.answered.closes id = true) : a = b := by
  have hmem {entry : Entry} (hentry : entry ∈ run.log)
      (hcloses : entry.answered.closes id = true) : entry ∈ run.writesOf id :=
    List.mem_filter.mpr ⟨hentry, by simp [Answered.writes, hcloses]⟩
  exact (hrun.life id).eq_of_closes (hmem ha hfirst) (hmem hb hsecond) hfirst hsecond

/-- An identifier that was closed has the row that was written. -/
theorem Reachable.row_of_closes (hrun : Reachable processor run) {i : Nat} {written : Completion}
    (hmem : ⟨i, ⟨.updateSegment id written, .ok ()⟩⟩ ∈ run.log) :
    ∃ inserted : Segment, run.store.segment? id = some (inserted.complete written) := by
  have hwrite : (⟨i, ⟨.updateSegment id written, .ok ()⟩⟩ : Entry) ∈ run.writesOf id :=
    List.mem_filter.mpr ⟨hmem, by simp [Answered.writes, Answered.closes]⟩
  have hlife := hrun.life id
  generalize run.writesOf id = writes at hwrite hlife
  generalize run.store.segment? id = row at hlife
  cases hlife with
  | unknown => cases hwrite
  | opened j segment hid => cases List.mem_singleton.mp hwrite
  | closed j k segment completion hid =>
    rcases List.mem_cons.mp hwrite with hinsert | hclose
    · cases hinsert
    · cases List.mem_singleton.mp hclose
      exact ⟨segment, rfl⟩

/-- A row that is there is still there in every later run, open or completed. -/
theorem Leads.becomes {row : Segment} (hleads : Leads processor run later)
    (hrow : run.store.segment? id = some row) :
    ∃ next, later.store.segment? id = some next ∧ row.Becomes next := by
  induction hleads with
  | refl => exact ⟨row, hrow, .refl row⟩
  | tail _ hstep ih =>
    obtain ⟨next, hnext, hbecomes⟩ := ih
    cases hstep with
    | take request => exact ⟨next, hnext, hbecomes⟩
    | answer hattempt hanswer =>
      have hrowStep := hanswer.rowStep id
      rw [hnext] at hrowStep
      obtain ⟨last, hlast, hlater⟩ := hrowStep.becomes
      exact ⟨last, hlast, hbecomes.trans hlater⟩

/-- A row that a handler was shown is still there, open or completed. -/
theorem Reachable.shown (hrun : Reachable processor run) {entry : Entry} {row : Segment}
    (hmem : entry ∈ run.log) (hshows : entry.answered.Shows id row) :
    ∃ next, run.store.segment? id = some next ∧ row.Becomes next := by
  induction hrun with
  | refl => simp [start] at hmem
  | @tail middle last _ hstep ih =>
    cases hstep with
    | take request => exact ih hmem
    | @answer i request c next answer stored hattempt hanswer =>
      rcases List.mem_append.mp hmem with hold | hnew
      · have hleads : Leads processor middle _ := .single (.answer hattempt hanswer)
        obtain ⟨between, hbetween, hbecomes⟩ := ih hold
        obtain ⟨last, hlast, hlater⟩ := hleads.becomes hbetween
        exact ⟨last, hlast, hbecomes.trans hlater⟩
      · rw [List.mem_singleton.mp hnew] at hshows
        exact ⟨row, hanswer.shows hshows, .refl row⟩

/-- Whoever is taken up after a row closed is shown the row as it closed. -/
theorem Leads.shown_closed {row shown : Segment} {entry : Entry}
    (hrun : Reachable processor run) (hrow : run.store.segment? id = some row)
    (hclosed : row.isClosed = true) (hleads : Leads processor run later)
    (hmem : entry ∈ later.log) (htaken : run.attempts.length ≤ entry.attempt)
    (hshows : entry.answered.Shows id shown) : shown = row := by
  induction hleads with
  | refl =>
    have hknown := hrun.consistent.known entry hmem
    omega
  | @tail middle last hleads hstep ih =>
    cases hstep with
    | take request => exact ih hmem
    | @answer i request c next answer stored hattempt hanswer =>
      rcases List.mem_append.mp hmem with hold | hnew
      · exact ih hold
      · have hnext : Leads processor run _ := hleads.tail (.answer hattempt hanswer)
        obtain ⟨kept, hkept, hbecomes⟩ := hnext.becomes hrow
        rw [List.mem_singleton.mp hnew] at hshows
        have hsame := hanswer.shows hshows
        rw [hkept, hbecomes.eq_of_isClosed hclosed] at hsame
        cases hsame
        rfl

end Run

end TripArchive
