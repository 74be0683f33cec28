import NeoServer.Text
import NeoServer.Xml
import NeoServer.Prog
import NeoServer.Sql.Lexer
import NeoServer.Sql.Syntax
import NeoServer.Sql.Parser
import NeoServer.Sql.Spelling
import NeoServer.Sql.Eval
import NeoServer.Sqlutil
import NeoServer.Filter.Token
import NeoServer.Filter.Quoted
import NeoServer.Filter.Compiler
import NeoServer.Filter.Tree
import NeoServer.Filter.Grammar
import NeoServer.Filter.Relate
import NeoServer.Filter.Pieces
import NeoServer.Filter.Reparse
import NeoServer.Filter.Dialects
import NeoServer.Filter.Complete
import NeoServer.Filter.Mirror
import NeoServer.Wfs.Fes.Models
import NeoServer.Wfs.Fes.Structure
import NeoServer.Wfs.Fes.Predicates
import NeoServer.Wfs.Fes.Compiler
import NeoServer.Wfs.Fes.Meaning
import NeoServer.Wfs.Fes.Leaves
import NeoServer.Wfs.Fes.Correct
import NeoServer.Wfs.Fes.Monotone
import NeoServer.Wfs.Fes.GmlId
import NeoServer.Glob
import NeoServer.Wfs.Fes.Like
import NeoServer.Machine
import NeoServer.Wfs.Lock.Store
import NeoServer.Wfs.Lock.Exclusion
import NeoServer.Wfs.Lock.Partition
import NeoServer.Wfs.Lock.Restore
import NeoServer.Wfs.Access
import NeoServer.Wfs.Transaction.Execute
import NeoServer.Wfs.Transaction.Gate
import NeoServer.Wfs.Transaction.WithLock
import NeoServer.Wfs.Lock.Feature
import NeoServer.Wfs.Transaction.Handle
import NeoServer.Wfs.Visibility
import NeoServer.Wfs.Noninterference
import NeoServer.Wfs.Version.Store
import NeoServer.Wfs.Version.Batch
import NeoServer.Wfs.Version.Mirror
import NeoServer.Wfs.Version.Reload
import NeoServer.Wfs.Version.OneByOne
import NeoServer.Tiles.Fetch
import NeoServer.Tiles.Coherence
import NeoServer.Tiles.Freshness
import NeoServer.Tiles.Revision
import NeoServer.Tilecache.Identity
import NeoServer.Proc
import NeoServer.Tally
import NeoServer.Tilecache.Index
import NeoServer.Tilecache.Manager
import NeoServer.Tilecache.Usage
import NeoServer.Tilecache.Sequential
import NeoServer.Tilecache.Quota
import NeoServer.Tilecache.Restore
import NeoServer.Lineage
import NeoServer.Tilecache.Ownership
import NeoServer.Tilejobs.Jobs
import NeoServer.Tilejobs.Worker
import NeoServer.Tilejobs.Cancel
import NeoServer.Tilejobs.Complete
import NeoServer.Cache.Keys
import NeoServer.Cache.Manager
import NeoServer.Cache.Stale
import NeoServer.Cache.Layer
import NeoServer.Wcs.Plan
import NeoServer.Wcs.PassThrough
import NeoServer.Wcs.Cells
import NeoServer.Wfs.Identifier
import NeoServer.Sql.Nesting
import NeoServer.Duckdbsqlview
import NeoServer.Registry.Groups
import NeoServer.Store.Roles
import NeoServer.Mosaic.Catalog
import NeoServer.Mosaic.Generations
import NeoServer.Mosaic.Listing
import NeoServer.Mosaic.Harvest
import NeoServer.Registry.Agree
import NeoServer.Wfs.Lock.Expiry
import NeoServer.Datasource.Pathpolicy
import NeoServer.Workspace.Visible
import NeoServer.Identity.Transport
import NeoServer.Sld.Filter
import NeoServer.Sld.Rules
import NeoServer.Sld.Compare
import NeoServer.Datasource.Remotecache
import NeoServer.Datasource.Prepare
