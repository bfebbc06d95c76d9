import MetalOrm.Spec.CacheCodecGrammar
import MetalOrm.Spec.TransactionProtocol
import MetalOrm.Spec.PersistRemove
import MetalOrm.Spec.RelationSnapshot
import MetalOrm.Spec.RelationCalls
import MetalOrm.Spec.TenantIsolation
import MetalOrm.Spec.TagInvalidation
import MetalOrm.Spec.ConnectionDiscipline
import MetalOrm.Spec.PlaceholderNumbering
import MetalOrm.Spec.FilterPolicy
import MetalOrm.Native.BulkChunks
import MetalOrm.Spec.ChunkPartition
import MetalOrm.Spec.TagReachability
import MetalOrm.Native.BulkInsert
import MetalOrm.Spec.BulkChunking
import MetalOrm.Spec.SchemaSafety
import MetalOrm.Spec.SchemaAgreement
import MetalOrm.Spec.EagerLoading
import MetalOrm.Spec.PivotFlush
import MetalOrm.Spec.DdlRoundTrip
import MetalOrm.Spec.CursorRoundTrip
import MetalOrm.Spec.TreeValidation
import MetalOrm.Spec.TreeFailure
import MetalOrm.Spec.TreeRecoverExact
import MetalOrm.Spec.StaleResults
import MetalOrm.Spec.RowKeys
import MetalOrm.Spec.LoadPurity
import MetalOrm.Spec.ScopeResets
import MetalOrm.Native.CacheClients
import MetalOrm.Spec.FilterValues
import MetalOrm.Spec.CursorBounds
import MetalOrm.Spec.PageFlags
import MetalOrm.Spec.PageRuns
import MetalOrm.Spec.PoolWakeups
import MetalOrm.Spec.EventDelivery
import MetalOrm.Spec.QueryAliasing
import MetalOrm.ForStd.ForestPaths
import MetalOrm.ForStd.Threading
import MetalOrm.Spec.TreeSpacing
import MetalOrm.Spec.TreeReads
import MetalOrm.Spec.SiblingSwap
import MetalOrm.ForStd.Worklist
import MetalOrm.Spec.CascadePersist
import MetalOrm.Native.RemoteCache
import MetalOrm.Spec.RemoteEntries
import MetalOrm.ForStd.FirstBy
import MetalOrm.Native.OffsetPage
import MetalOrm.Spec.OffsetPages
import MetalOrm.Spec.AddedColumns
import MetalOrm.Spec.PivotUndo
import MetalOrm.Spec.SyncByIds
import MetalOrm.Spec.CheckMatching
import MetalOrm.Spec.FailingPlans
import MetalOrm.ForStd.TextSearch
import MetalOrm.Native.SqliteIntrospection
import MetalOrm.Spec.FreshIntrospection
import MetalOrm.ForStd.Greedy
import MetalOrm.Spec.CheckReplay
import MetalOrm.Spec.CheckOrder
import MetalOrm.Spec.CheckConvergence
import MetalOrm.Native.GraphPersistence
import MetalOrm.Spec.GraphCollections
import MetalOrm.Native.IdentityMap
import MetalOrm.Spec.KeySeparation
import MetalOrm.Native.TagMaps
import MetalOrm.Spec.TagAssociations
import MetalOrm.Native.CacheDuration
import MetalOrm.Spec.CacheLifetimes
import MetalOrm.Native.DmlQuery
import MetalOrm.Native.BulkWhere
import MetalOrm.Spec.DmlConditions
import MetalOrm.Spec.BulkTargets
import MetalOrm.Native.OpenApiSchema
import MetalOrm.Spec.ComponentNames
import MetalOrm.Spec.GeneratedNames
import MetalOrm.Spec.ScannerAgreement
import MetalOrm.Spec.GeneratedDefaults
import MetalOrm.Spec.AliasHygiene
import MetalOrm.Spec.SchemaReferences
import MetalOrm.ForStd.RowActions
import MetalOrm.Native.BulkUpdate
import MetalOrm.Spec.BulkOrder
