import YouRoute.StepSystem
import YouRoute.Geometry
import YouRoute.GreedySelection
import YouRoute.NonMaxSuppression
import YouRoute.GreedySuppression
import YouRoute.SuppressionOrder
import YouRoute.SuppressionCounter
import YouRoute.Intervals
import YouRoute.RectangleOverlap
import YouRoute.Activations
import YouRoute.Decoder
import YouRoute.SuppressionResize
import YouRoute.TensorLayout
import YouRoute.RowMajor
import YouRoute.BufferBounds
import YouRoute.CellCentres
import YouRoute.ClassScores
import YouRoute.Firestore
import YouRoute.Controllers
import YouRoute.StoryLabels
import YouRoute.DetectionSafety
import YouRoute.SnapshotMirrors
import YouRoute.TagLine
import YouRoute.TripDays
import YouRoute.HandlerTraps
import YouRoute.References
import YouRoute.TagSearch
import YouRoute.TravelSearch
import YouRoute.ShownMatches
import YouRoute.AsyncSlots
import YouRoute.CellReuse
import YouRoute.StoryPage
import YouRoute.MainPicture
import YouRoute.CompletionOrder
import YouRoute.MapRoutes
import YouRoute.SortedLists
import YouRoute.DocumentSets
import YouRoute.ViewChanges
import YouRoute.Views
import YouRoute.ViewDiffs
import YouRoute.ViewRuns
import YouRoute.FirstMembers
import YouRoute.IncrementalViews
import YouRoute.QueryListeners
import YouRoute.EventManagers
import YouRoute.DocumentListeners
import YouRoute.Separators
import YouRoute.StoragePaths
import YouRoute.GalleryListing
import YouRoute.SignIn
import YouRoute.LlrbNodes
import YouRoute.LlrbTrees
import YouRoute.LlrbErasure
import YouRoute.TreeSortedMaps
import YouRoute.LlrbIterators
import YouRoute.SortedMaps
import YouRoute.WatchChanges
import YouRoute.Streams
import YouRoute.RemoteStores
import YouRoute.WatchTargets
import YouRoute.WatchProtocols
import YouRoute.WatchStreams
import YouRoute.WatchSessions
import YouRoute.ReferenceSets
