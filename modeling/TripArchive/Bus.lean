import TripArchive.Config
import TripArchive.Event.Router

/-!
# The event bus

Which configurations the bus accepts, and the topics that are read from it.
-/

namespace TripArchive.Bus

/-- Why the bus cannot be read. -/
inductive Error
  /-- A setting is out of its range or does not fit the others. -/
  | settings
  /-- The topics are not two different ones. -/
  | topics
  deriving DecidableEq, Repr

/-- The words for an error. -/
def Error.message : Error → String
  | settings => "Failed to create Kafka consumer"
  | topics => "Failed to subscribe to trip event topics"

/-- Where reading may begin without a stored position. -/
def resetWords : List String :=
  ["smallest", "earliest", "beginning", "largest", "latest", "end", "error"]

/-- The longest session, in milliseconds. -/
def maxSession : Nat := 3600000

/-- The longest time between two polls, in milliseconds. -/
def maxPoll : Nat := 86400000

/-- Whether a credential is given. -/
def isGiven (credential : Option String) : Bool := credential.any fun s => !s.isEmpty

/-- Whether what an encrypted connection needs is there. Nothing of it matters without one. -/
def isSecured (readable : String → Bool) (config : Config.Bus) : Bool :=
  !config.secure ||
    (isGiven config.username && isGiven config.password && config.authority.all readable)

/-- Whether the settings are in their ranges. A session is not longer than the time between two
polls. -/
def isTimely (config : Config.Bus) : Bool :=
  1 ≤ config.sessionTimeout && config.sessionTimeout ≤ maxSession &&
    1 ≤ config.pollInterval && config.pollInterval ≤ maxPoll &&
    config.sessionTimeout ≤ config.pollInterval

/-- Whether the word for where reading begins is known, in any case of letters. -/
def hasReset (config : Config.Bus) : Bool :=
  resetWords.contains (String.ofList (config.offsetReset.toList.map Char.toLower))

/-- Whether the topics can be read together. -/
def hasTopics (config : Config.Bus) : Bool :=
  !config.segmentTopic.isEmpty && !config.vehicleTopic.isEmpty &&
    config.segmentTopic != config.vehicleTopic

/-- Joins the bus and gives the router of its messages. `readable` says which files can be read. -/
def join (readable : String → Bool) (config : Config.Bus) : Except Error Router :=
  if !(hasReset config && isTimely config && isSecured readable config) then .error .settings
  else if !hasTopics config then .error .topics
  else .ok ⟨config.segmentTopic, config.vehicleTopic⟩

end TripArchive.Bus
