import Columnar.Chunk.Edit
import Columnar.Column.Inspect
import Columnar.Json.Library
import Columnar.Json.Standard
import Columnar.LittleEndian.Lemmas
import Columnar.LogicalType.Canonical
import Columnar.LogicalType.Form
import Columnar.LogicalType.Serialized
import Columnar.Proofs.Bits
import Columnar.Proofs.Encoded
import Columnar.Proofs.Encoding
import Columnar.Proofs.Extent
import Columnar.Proofs.LeafBytes
import Columnar.Proofs.Leaves
import Columnar.Proofs.TwoWords
import Columnar.Proofs.Literals
import Columnar.Proofs.Packing
import Columnar.Proofs.Opened
import Columnar.Proofs.Opening
import Columnar.Proofs.Outcome
import Columnar.Proofs.Reach
import Columnar.Proofs.ReadBack
import Columnar.Proofs.RoundTrip
import Columnar.Proofs.Samples
import Columnar.Proofs.Rows
import Columnar.Proofs.Safety
import Columnar.Proofs.Slicing
import Columnar.Proofs.Typing
import Columnar.Sample
import Columnar.Scalar.UuidStandard
import Columnar.View
import Columnar.Proofs.MapsAndUnions
import Columnar.Proofs.Origin
import Columnar.Proofs.Blame
import Columnar.Proofs.Nulls
import Columnar.Proofs.WellFormed
import Columnar.Proofs.EagerLists
import Columnar.Proofs.DeadSlots
import Columnar.Proofs.Readable
import Columnar.Proofs.Labels
import Columnar.Proofs.ScalarTexts
import Columnar.Proofs.DecimalText
import Columnar.Proofs.BitStrings
import Columnar.Proofs.FaithfulJson
import Columnar.Proofs.Refusals
import Columnar.Proofs.Reports
import Columnar.Proofs.Footprint
import Columnar.Proofs.NestingLimit
import Columnar.Proofs.ColumnFailures
import Columnar.Proofs.JsonReading
import Columnar.Proofs.JsonLibrary
import Columnar.Proofs.TypeForms
import Columnar.Proofs.ObjectMembers
import Columnar.Proofs.ChunkJson
import Columnar.Proofs.VectorParts
import Columnar.Proofs.Arena
import Columnar.Proofs.WellTyped
import Columnar.Proofs.SharedVectors
import Columnar.Proofs.EarlierColumns
import Columnar.Proofs.Numbers
import Columnar.Proofs.Narrowing
import Columnar.Proofs.UuidOrder
import Columnar.Proofs.PackedTimes
import Columnar.Proofs.TimeTexts
import Columnar.Proofs.UnionTags
import Columnar.Proofs.MissingRows
import Columnar.Proofs.ValidityWindows
import Columnar.Proofs.HeapSearch
import Columnar.Proofs.BlobText
