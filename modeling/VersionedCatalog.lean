import VersionedCatalog.Bytes
import VersionedCatalog.Checksum
import VersionedCatalog.Document
import VersionedCatalog.Document.Access
import VersionedCatalog.Document.Cbor
import VersionedCatalog.Document.Json
import VersionedCatalog.Document.Numeral
import VersionedCatalog.Document.Reading
import VersionedCatalog.Entity
import VersionedCatalog.Entity.Change
import VersionedCatalog.Entity.Kind
import VersionedCatalog.Entity.Payload
import VersionedCatalog.EntityId
import VersionedCatalog.Exchange.Answer
import VersionedCatalog.Exchange.Request
import VersionedCatalog.Frame
import VersionedCatalog.History.Key
import VersionedCatalog.History.Stamp
import VersionedCatalog.History.Version
import VersionedCatalog.Locks
import VersionedCatalog.Locks.Nodes
import VersionedCatalog.Millis
import VersionedCatalog.Name
import VersionedCatalog.OrderedMap
import VersionedCatalog.Proofs.Keys
import VersionedCatalog.Proofs.Names
import VersionedCatalog.Proofs.Outcomes
import VersionedCatalog.Proofs.Ranges
import VersionedCatalog.Proofs.Stamps
import VersionedCatalog.Settings
import VersionedCatalog.Span
import VersionedCatalog.Storage.Backend
import VersionedCatalog.Storage.Disk
import VersionedCatalog.Storage.Fault
import VersionedCatalog.Storage.Folder
import VersionedCatalog.Storage.Journal
import VersionedCatalog.Storage.Medium
import VersionedCatalog.Storage.Provider
import VersionedCatalog.Storage.Record
import VersionedCatalog.Storage.Rows
import VersionedCatalog.Store.Alteration
import VersionedCatalog.Store.Collection
import VersionedCatalog.Store.Creation
import VersionedCatalog.Store.Error
import VersionedCatalog.Store.Mutation
import VersionedCatalog.Store.Opening
import VersionedCatalog.Store.Reading
import VersionedCatalog.Store.Removal
import VersionedCatalog.Store.State
import VersionedCatalog.Text.Blank
import VersionedCatalog.Text.ExtendingMark
import VersionedCatalog.Text.Hex
import VersionedCatalog.Text.Numeral
import VersionedCatalog.Text.Quoted
import VersionedCatalog.Text.Unprintable
import VersionedCatalog.Text.Utf8
import VersionedCatalog.Proofs.CborReading
import VersionedCatalog.Proofs.JsonReading
import VersionedCatalog.Proofs.LogRecords
import VersionedCatalog.Proofs.Payloads
import VersionedCatalog.Proofs.Actions
import VersionedCatalog.Proofs.Altering
import VersionedCatalog.Proofs.Creating
import VersionedCatalog.Proofs.Dropping
import VersionedCatalog.Proofs.Atomicity
import VersionedCatalog.Proofs.Hierarchies
import VersionedCatalog.Proofs.Identities
import VersionedCatalog.Proofs.Traffic
import VersionedCatalog.Proofs.LateSweeps
import VersionedCatalog.Proofs.Recovery
import VersionedCatalog.Proofs.Damage
import VersionedCatalog.Proofs.Engines
import VersionedCatalog.Proofs.CleanCalls
import VersionedCatalog.Proofs.Histories
import VersionedCatalog.Proofs.Retention
import VersionedCatalog.Proofs.Sessions
import VersionedCatalog.Proofs.LockHistories
import VersionedCatalog.Proofs.Formats
import VersionedCatalog.Proofs.Locations
import VersionedCatalog.Proofs.KeyOrder
import VersionedCatalog.Proofs.Columns
import VersionedCatalog.Proofs.Reads
import VersionedCatalog.Proofs.Renaming
import VersionedCatalog.Proofs.Tags
import VersionedCatalog.Proofs.Admission
import VersionedCatalog.Proofs.Clocks
import VersionedCatalog.Proofs.Listings
import VersionedCatalog.Proofs.Collecting
import VersionedCatalog.Proofs.Cascades
import VersionedCatalog.Proofs.ExactRecords
import VersionedCatalog.Proofs.Delimiting
import VersionedCatalog.Proofs.Omissions
import VersionedCatalog.Proofs.Joining
import VersionedCatalog.Proofs.Trying
import VersionedCatalog.Proofs.Switching
import VersionedCatalog.Proofs.Echoes
import VersionedCatalog.Proofs.Commuting
import VersionedCatalog.Proofs.Closing
import VersionedCatalog.Proofs.Scans
import VersionedCatalog.Proofs.Stems
import VersionedCatalog.Proofs.LogSizes
import VersionedCatalog.Proofs.Bursts
import VersionedCatalog.Proofs.Rebasing
import VersionedCatalog.Proofs.Spelling
