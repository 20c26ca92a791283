import RakuAtlas.Workspace.Host
import RakuAtlas.Proofs.Declarations
import RakuAtlas.Proofs.Modes
import RakuAtlas.Proofs.Order
import RakuAtlas.Proofs.Tables
import RakuAtlas.Proofs.Index.Consistent
import RakuAtlas.Proofs.Index.Image
import RakuAtlas.Proofs.Index.History
import RakuAtlas.Proofs.Lexical.Reach
import RakuAtlas.Proofs.Lexical.Lookahead
import RakuAtlas.Proofs.Lexical.Steps
import RakuAtlas.Proofs.Lexical.Tiling
import RakuAtlas.Proofs.Lexical.Carried
import RakuAtlas.Proofs.Lexical.Runs
import RakuAtlas.Proofs.Lexical.Rewording
import RakuAtlas.Proofs.Disk.Places
import RakuAtlas.Proofs.Workspace.Loading
import RakuAtlas.Proofs.Workspace.Recency
import RakuAtlas.Proofs.Session.Basic
import RakuAtlas.Proofs.Session.Documents
import RakuAtlas.Proofs.Session.Replies
import RakuAtlas.Proofs.Session.Caching
import RakuAtlas.Proofs.Session.Indexing
import RakuAtlas.Proofs.Session.Tables
import RakuAtlas.Proofs.Text.Lines
import RakuAtlas.Proofs.Text.Breaks
import RakuAtlas.Proofs.Text.Templates
import RakuAtlas.Proofs.Query.Deduplicate
import RakuAtlas.Proofs.Query.Occurrences
import RakuAtlas.Proofs.Query.Edits
import RakuAtlas.Proofs.Query.Names
import RakuAtlas.Proofs.Query.Rename
import RakuAtlas.Proofs.Query.Resolution
import RakuAtlas.Proofs.Session.Renaming
import RakuAtlas.Proofs.Workspace.Numbering
import RakuAtlas.Proofs.Session.Folders
import RakuAtlas.Proofs.Session.Closing
import RakuAtlas.Proofs.Session.Deletion
import RakuAtlas.Proofs.Query.Hits
import RakuAtlas.Proofs.Query.Uses
import RakuAtlas.Proofs.Query.References
import RakuAtlas.Proofs.Query.Exactness
import RakuAtlas.Proofs.Query.Cursor
import RakuAtlas.Proofs.Query.Coverage
import RakuAtlas.Proofs.Query.Identity
import RakuAtlas.Proofs.Query.NewNames
import RakuAtlas.Proofs.Query.Refusals
import RakuAtlas.Proofs.Query.Seats
import RakuAtlas.Proofs.Query.Reversal
import RakuAtlas.Proofs.Query.OneByOne
import RakuAtlas.Proofs.Extents
import RakuAtlas.Proofs.Scopes
import RakuAtlas.Proofs.WellFormed
import RakuAtlas.Proofs.Nesting
import RakuAtlas.Proofs.Causality
import RakuAtlas.Proofs.Shift
import RakuAtlas.Proofs.Text.Stops
import RakuAtlas.Proofs.Parameters.Arguments
import RakuAtlas.Proofs.Parameters.Defaults
import RakuAtlas.Proofs.Headers
import RakuAtlas.Proofs.OpenLists
import RakuAtlas.Proofs.Query.Tiers
import RakuAtlas.Proofs.Query.Qualified
import RakuAtlas.Proofs.Query.Isolation
import RakuAtlas.Proofs.FailOpen
import RakuAtlas.Proofs.Disk.Ceiling
import RakuAtlas.Proofs.Disk.Linkless
import RakuAtlas.Proofs.Workspace.Discovery
import RakuAtlas.Proofs.Disk.Following
import RakuAtlas.Proofs.Disk.Trees
import RakuAtlas.Proofs.Disk.Reachable
import RakuAtlas.Proofs.Query.SymbolList
import RakuAtlas.Proofs.Query.Folding
import RakuAtlas.Proofs.Text.Offsets
import RakuAtlas.Proofs.Text.Slices
import RakuAtlas.Proofs.Lexical.Openings
import RakuAtlas.Proofs.Lexical.Scanning
import RakuAtlas.Proofs.Query.Columns
