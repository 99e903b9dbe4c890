import Upsert.Binary64.Basic
import Upsert.Binary64.Rounding
import Upsert.Binary64.Arithmetic
import Upsert.Binary64.Bits
import Upsert.Binary64.Decimal
import Upsert.Md5
import Upsert.KeyHash
import Upsert.SortedMap
import Upsert.Fault
import Upsert.Record
import Upsert.Profile
import Upsert.FileName
import Upsert.Table.Error
import Upsert.Timeline
import Upsert.Table.BaseFile
import Upsert.Table.Basic
import Upsert.SizeEstimate
import Upsert.SmallFile
import Upsert.Pool
import Upsert.Fanout
import Upsert.Search
import Upsert.InsertTable
import Upsert.Bucket
import Upsert.Plan.Sizing
import Upsert.Plan.Basic
import Upsert.Plan.Build
import Upsert.Text.Digits
import Upsert.Text.Unprintable
import Upsert.Text.Quoted
import Upsert.Uuid
import Upsert.Plan.Route
import Upsert.Config
import Upsert.Partitioner
import Upsert.Proofs.Plan.Ownership
import Upsert.Proofs.Plan.Numbering
import Upsert.Proofs.Plan.Overfilling
import Upsert.Proofs.Plan.Intervals
import Upsert.Proofs.Plan.Domain
import Upsert.Proofs.Plan.PendingClustering
import Upsert.Proofs.Partitioner.Construction
import Upsert.Proofs.Partitioner.Outcome
import Upsert.Proofs.Partitioner.Faultless
import Upsert.Proofs.Pool
import Upsert.Proofs.Table.BaseFile
import Upsert.Proofs.Table.History
import Upsert.Proofs.Table.Identity
import Upsert.Proofs.Table.Listing
import Upsert.Proofs.Table.Stability
import Upsert.Proofs.Profile.Tally
import Upsert.Proofs.LinearSearch
import Upsert.Proofs.Plan.Coverage
import Upsert.Proofs.Plan.UpdateLookup
import Upsert.Proofs.Plan.Independence
import Upsert.Proofs.Partitioner.Restriction
import Upsert.Proofs.Table.Estimate
import Upsert.Proofs.KeyPlace
import Upsert.Proofs.Text
