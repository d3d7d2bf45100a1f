import Woodstar.Runs
import Woodstar.KeyedSets
import Woodstar.Primitives
import Woodstar.SantaTargets
import Woodstar.SantaSync
import Woodstar.SantaSessions
import Woodstar.SantaConvergence
import Woodstar.SantaTransitive
import Woodstar.SantaPostflight
import Woodstar.SantaSerial
import Woodstar.UniqueColumns
import Woodstar.PriorityOrder
import Woodstar.KeyedRows
import Woodstar.Targeting
import Woodstar.PolicyModel
import Woodstar.PolicyRemediation
import Woodstar.PolicyStore
import Woodstar.PolicyRuns
import Woodstar.PolicyEpisodes
import Woodstar.PolicyMigration
import Woodstar.PolicyExecutions
import Woodstar.PolicyEvaluations
import Woodstar.LockOrder
import Woodstar.PolicyLocks
import Woodstar.GoText
import Woodstar.LabelModel
import Woodstar.DynamicLabels
import Woodstar.DesiredFanout
import Woodstar.LiveQueries
import Woodstar.DistributionStore
import Woodstar.DistributionSessions
import Woodstar.DistributionRedirects
import Woodstar.SantaUploads
import Woodstar.Saturation
import Woodstar.MunkiPackages
import Woodstar.MunkiProjection
import Woodstar.MunkiRepository
import Woodstar.InodeFiles
import Woodstar.MirrorJobs
import Woodstar.MirrorFiles
import Woodstar.MirrorSets
import Woodstar.MirrorConvergence
import Woodstar.ReadCommitted
import Woodstar.DerivedLabels
import Woodstar.DerivedRefresh
import Woodstar.SantaPayloads
import Woodstar.SantaQuiescence
import Woodstar.QueryNames
import Woodstar.FirstWins
import Woodstar.SantaRules
import Woodstar.SantaResolution
import Woodstar.SantaRuleStatuses
import Woodstar.InventoryRefresh
import Woodstar.RowLocks
import Woodstar.SoftwarePruning
import Woodstar.SoftwareLinks
import Woodstar.DecimalFloats
import Woodstar.LexicalPaths
import Woodstar.JsonValues
import Woodstar.PkginfoDerivation
import Woodstar.PkginfoPublication
import Woodstar.PkginfoLaws
import Woodstar.LatestRows
import Woodstar.KeyedUpserts
import Woodstar.ProviderSnapshots
import Woodstar.ProviderReconciliation
import Woodstar.ProviderExactness
import Woodstar.ProviderLaws
import Woodstar.Attrition
import Woodstar.Retention
import Woodstar.TextPieces
import Woodstar.ReferenceNames
import Woodstar.LatestWins
import Woodstar.ReportObservations
import Woodstar.UrlEscape
import Woodstar.Base64Url
import Woodstar.UrlText
import Woodstar.RedirectGrants
import Woodstar.KeyedRelations
import Woodstar.SantaIngestion
import Woodstar.SantaSharedRows
import Woodstar.SantaIngestionLaws
import Woodstar.Tilings
import Woodstar.MultipartUpload
import Woodstar.Placeholders
import Woodstar.CertificateNames
import Woodstar.LikePatterns
import Woodstar.Paging
import Woodstar.ExactLookup
import Woodstar.ShownUsers
import Woodstar.LastWrites
import Woodstar.HostEnrollment
import Woodstar.HostIdentities
import Woodstar.HostHistories
import Woodstar.SoftwareCatalog
import Woodstar.CatalogRows
import Woodstar.SoftwareSnapshots
import Woodstar.GoNumbers
import Woodstar.CivilTimes
import Woodstar.DetailRows
import Woodstar.DetailStore
import Woodstar.Reorderings
import Woodstar.DetailValues
import Woodstar.LiveEffects
import Woodstar.DetailEffects
import Woodstar.EvaluationOrder
import Woodstar.DistributedWrites
import Woodstar.Heartbeats
import Woodstar.StatusHistory
import Woodstar.HistoryCharts
import Woodstar.MergePatches
import Woodstar.SerialRows
import Woodstar.SoftwareTitles
import Woodstar.TitlePatches
import Woodstar.RankedTables
import Woodstar.SantaConfigurations
import Woodstar.SantaPriorities
import Woodstar.WebTexts
import Woodstar.SantaForms
import Woodstar.FollowUps
import Woodstar.EntraSync
import Woodstar.RecordCodecs
import Woodstar.PackageMutations
import Woodstar.ChildRows
import Woodstar.PackageStore
import Woodstar.PackageHistories
import Woodstar.PackagePatches
