import TripArchive.Segment.Handler

/-!
# The store as a collaborator

What the tables answer to the calls of a handler. A call that is refused leaves them as they are.
-/

namespace TripArchive.Store

/-- The tables after an operation, or as they were if it was refused. -/
def after (store : Store) (changed : Except Error Store) : Except Error Unit × Store :=
  match changed with
  | .ok store => (.ok (), store)
  | .error e => (.error e, store)

/-- What the tables answer to a call, and the tables after it; `none` for the calls that go to
other collaborators. -/
def answer? (store : Store) : (c : Call) → Option (c.Answer × Store)
  | .getSegment id => some (.ok (store.segment? id), store)
  | .getVehicle device => some (.ok (store.vehicle? device), store)
  | .priorSegment token => some (.ok (store.prior? token), store)
  | .insertSegment segment => some (store.after (store.insertSegment segment))
  | .updateSegment id completion => some (store.after (store.closeSegment id completion))
  | .upsertVehicle device token => some (store.after (store.upsertVehicle device token))
  | .generateKey => none
  | .generateNonce => none
  | .fetch _ => none
  | .upload _ => none

end TripArchive.Store
