import Miare.Commit.Proofs.FreeRuns
import Miare.Commit.Proofs.Metadata
import Miare.Misc.Guard
import Miare.Page.Parse
import Miare.Tree.Mutable
import Miare.Tree.Store
import Miare.Tree.Load
import Miare.Tree.LoadFixed
import Miare.Tree.Persist
import Miare.Page.Proofs.Frame
import Miare.Page.Proofs.Keys
import Miare.Tree.Proofs.Store
import Miare.Tree.Proofs.OrderedPages
import Miare.Misc.PagedTree
import Miare.Tree.Proofs.Shape
import Miare.Tree.Proofs.Load
import Miare.Tree.Proofs.LoadOrdered
import Miare.Tree.Proofs.Mutable
import Miare.Tree.Proofs.Placement
import Miare.Tree.Proofs.Persist
import Miare.Tree.Proofs.PersistOrdered
import Miare.Tree.Proofs.FixedPages
import Miare.Tree.Proofs.LoadFixed
import Miare.Tree.Proofs.PersistCatalog
import Miare.Tree.Proofs.LoadSound
import Miare.Page.Proofs.Canonical
import Miare.Tree.Proofs.CanonicalOrdered
import Miare.Allocator.Load
import Miare.Allocator.Proofs.Canonical
import Miare.Tree.Proofs.CanonicalFixed
import Miare.Tree.Proofs.Heights
import Miare.Format.Publication
import Miare.Format.Proofs.Selection
import Miare.Format.Proofs.Creation
import Miare.Format.Proofs.NextSlot
import Miare.Format.Extent
import Miare.Format.Proofs.Extent
import Miare.Format.Proofs.Framing
import Miare.Format.Proofs.Binding
import Miare.Blob.Load
import Miare.Format.Proofs.FileStore
import Miare.Format.Proofs.Boundary
import Miare.Cursor.Ordered
import Miare.Cursor.Proofs.Walk
import Miare.Cursor.Proofs.Movement
import Miare.Cursor.Proofs.Refinement
import Miare.Cursor.Proofs.Range
import Miare.Blob.Stream
import Miare.Blob.Proofs.Chunk
import Miare.Blob.Proofs.NextBlock
import Miare.Blob.Proofs.Reader
import Miare.Blob.Proofs.StreamBooks
import Miare.Blob.Proofs.Stream
import Miare.Blob.Proofs.StreamRun
import Miare.Blob.Proofs.StreamExact
import Miare.Blob.Capacity
import Miare.Blob.Proofs.Capacity
import Miare.Blob.Proofs.Profile
import Miare.Allocator.Proofs.Order
import Miare.Tree.Proofs.Fanout
import Miare.Allocator.Proofs.RoundTrip
import Miare.Format.Blake2b
import Miare.Format.Proofs.Blake2b
import Miare.Misc.Checked
import Miare.Page.Checked
import Miare.Page.Proofs.Checked
import Miare.Allocator.Proofs.Checked
import Miare.Misc.Program
import Miare.Session.State
import Miare.Session.Close
import Miare.Session.Proofs.Close
import Miare.Tree.Fill
import Miare.Tree.Proofs.Fill
import Miare.Tree.Proofs.LazyLoad
import Miare.Tree.Proofs.PersistFixed
import Miare.Blob.Persist
import Miare.Blob.Proofs.Persist
import Miare.Allocator.Proofs.Partition
import Miare.Blob.Cache
import Miare.Blob.Proofs.Cache
import Miare.Blob.Proofs.RoundTrip
import Miare.Misc.Tickets
import Miare.Session.Lane
import Miare.Session.Proofs.Lane
import Miare.Session.Proofs.LaneQueue
import Miare.Session.Proofs.LaneRuns
import Miare.Commit.Proofs.Publish
