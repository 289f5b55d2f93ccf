import TripArchive.Proofs.Run

/-!
# Runs by schedule

A schedule names the worker that goes on and what the collaborators reply to it. `play` carries a
schedule out and passes over the moves that do not fit, so that whatever it plays from a run is a
run that the first one leads to.
-/

namespace TripArchive

/-- What a collaborator replies to the call at which an attempt stands. -/
inductive Reply
  /-- The tables answer. -/
  | tables
  /-- The call to the tables fails. -/
  | broken (e : Store.Error)
  | key (key : Package.SegmentKey)
  | nonce (nonce : Package.Nonce)
  | telemetry (answer : Except Telemetry.Error Bytes)
  | archive (answer : Except Archive.Error Archive.Receipt)

/-- The answer that a reply gives to a call, if it fits the call, and the tables after it. -/
def Reply.answer? (store : Store) : Reply → (c : Call) → Option (c.Answer × Store)
  | .tables, c => store.answer? c
  | .broken e, c => (c.failure? e).map fun answer => (answer, store)
  | .key drawn, .generateKey => some (drawn, store)
  | .nonce drawn, .generateNonce => some (drawn, store)
  | .telemetry answer, .fetch _ => some (answer, store)
  | .archive answer, .upload _ => some (answer, store)
  | _, _ => none

/-- A reply that fits a call is one of its answers. -/
theorem Reply.answers {store later : Store} {reply : Reply} {c : Call} {answer : c.Answer}
    (h : reply.answer? store c = some (answer, later)) : store.Answers c answer later := by
  cases reply with
  | tables => exact .served h
  | broken e =>
    obtain ⟨failure, hfailure, hpair⟩ := Option.map_eq_some_iff.mp h
    cases hpair
    exact .failed hfailure
  | key | nonce | telemetry | archive =>
    cases c <;> cases h
    exact .elsewhere rfl

/-- What happens next in a run. -/
inductive Move
  /-- A worker takes up a request. -/
  | take (request : Request)
  /-- The call of an attempt is replied to. -/
  | reply (i : Nat) (reply : Reply)

namespace Run

/-- The run after a move; a move that does not fit changes nothing. -/
def move (processor : Processor) (run : Run) : Move → Run
  | .take request =>
    { run with attempts := run.attempts ++ [⟨request, request.handler processor⟩] }
  | .reply i reply =>
    match run.attempts[i]? with
    | some ⟨request, .call c next⟩ =>
      match reply.answer? run.store c with
      | some (answer, later) =>
        ⟨later, run.attempts.set i ⟨request, next answer⟩, run.log ++ [⟨i, ⟨c, answer⟩⟩]⟩
      | none => run
    | _ => run

/-- The run after the moves of a schedule. -/
def play (processor : Processor) (run : Run) (moves : List Move) : Run :=
  moves.foldl (move processor) run

/-- A move is a step or changes nothing. -/
theorem leads_move (processor : Processor) (run : Run) (next : Move) :
    Leads processor run (run.move processor next) := by
  cases next with
  | take request => exact .single (.take run request)
  | reply i reply =>
    simp only [move]
    split
    · next request c rest hattempt =>
      split
      · next answer later hanswer => exact .single (.answer hattempt (Reply.answers hanswer))
      · exact .refl
    · exact .refl

/-- A run leads to whatever is played from it. -/
theorem leads_play (processor : Processor) (run : Run) (moves : List Move) :
    Leads processor run (run.play processor moves) := by
  induction moves generalizing run with
  | nil => exact .refl
  | cons next moves ih => exact (leads_move processor run next).trans (ih _)

/-- Whatever is played from the start is reachable. -/
theorem reachable_play (processor : Processor) (moves : List Move) :
    Reachable processor (start.play processor moves) := leads_play processor start moves

/-- The request that records the device of the rides below as a vehicle. -/
def mint : Request := .vehicle ⟨"", "", "", "", none, mintType, ⟨none, none, "device", 7⟩⟩

/-- A key or a nonce that is one byte repeated. -/
def filled {n : Nat} (byte : UInt8) : Octets n := ⟨List.replicate n byte, List.length_replicate⟩

/-- The completion of a ride that was never begun. -/
def ride : SegmentEvent := ⟨"ride", "device", true, ⟨⟨60, 0⟩, none⟩, some ⟨⟨120, 0⟩, none⟩⟩

end Run

end TripArchive
