import TripArchive.Database
import TripArchive.Main
import TripArchive.Package.Fresh
import TripArchive.Proofs.Database.Layout
import TripArchive.Proofs.Event.Routing
import TripArchive.Proofs.Event.Written
import TripArchive.Proofs.Gzip.Progress
import TripArchive.Proofs.Item.Binding
import TripArchive.Proofs.Item.BlockCounts
import TripArchive.Proofs.Item.Spelling
import TripArchive.Proofs.Item.Truncation
import TripArchive.Proofs.Item.Words
import TripArchive.Proofs.Pool.Timed
import TripArchive.Proofs.Race.Outcome
import TripArchive.Proofs.Race.Vehicles
import TripArchive.Proofs.Run.ArchivePointer
import TripArchive.Proofs.Run.Lifecycle
import TripArchive.Proofs.Run.NoPriorEnd
import TripArchive.Proofs.Run.Placement
import TripArchive.Proofs.Run.Provenance
import TripArchive.Proofs.Run.Redelivery
import TripArchive.Proofs.Run.RowShape
import TripArchive.Proofs.Run.Starts
import TripArchive.Proofs.Run.Success
import TripArchive.Proofs.Segment.Ahead
import TripArchive.Proofs.Segment.Alone
import TripArchive.Proofs.Segment.Confined
import TripArchive.Proofs.Segment.Grounds
import TripArchive.Proofs.Segment.Outcomes
import TripArchive.Proofs.Segment.Retry
import TripArchive.Proofs.Segment.Search
import TripArchive.Proofs.Segment.Share
import TripArchive.Proofs.Segment.Strict
import TripArchive.Proofs.Store.Prior
import TripArchive.Proofs.Telemetry.Limits
import TripArchive.Proofs.Telemetry.Pagination
import TripArchive.Store.Answers
