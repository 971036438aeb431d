import Deblob.Lib.TransitionSystem
import Deblob.Core.Identity
import Deblob.Kafka.Relay
import Deblob.Kafka.ExactlyOnce
import Deblob.Kafka.Rebalance
import Deblob.Redis.VersionedStore
import Deblob.Redis.SemanticConsistency
import Deblob.Redis.Lifecycle
import Deblob.Match.TagStability
import Deblob.Fingerprint.ParseExact
import Deblob.Fingerprint.Canon
import Deblob.Monoid.Generalized
import Deblob.Monoid.Laws
import Deblob.Umbrella.Soundness
import Deblob.Redis.IndexRebuild
import Deblob.Cold.Clustering
import Deblob.Cold.Consumer
import Deblob.Cold.ProvisionalTags
import Deblob.Cold.Stranded
import Deblob.Redis.UmbrellaRefinement
import Deblob.Umbrella.Governance
import Deblob.Umbrella.AlignedCohorts
import Deblob.Semantic.NeighborCoverage
import Deblob.Semantic.BytesIdentity
import Deblob.Semantic.PathGrammars
import Deblob.Semantic.Drift
import Deblob.Retrieval.SelfRetrieval
import Deblob.Retrieval.Accepted
import Deblob.Redis.SampleRetention
import Deblob.Dlp.Soundness
import Deblob.Models.Promotions
import Deblob.Cold.GeneralizedSummary
import Deblob.Fingerprint.Rearrangement
import Deblob.Semantic.NeighborOrder
import Deblob.Semantic.StrengthOrder
import Deblob.Redis.FeedbackExport
import Deblob.Umbrella.RequiredSources
import Deblob.Cold.FieldGate
import Deblob.Slm.Prompt
import Deblob.Semantic.MachineDecimal
import Deblob.Cold.SummaryAgreement
import Deblob.Semantic.Features
import Deblob.Semantic.WeightedSimilarity
import Deblob.Semantic.SignatureIdentity
import Deblob.Lib.Segments
import Deblob.Umbrella.GoldPaths
import Deblob.Redis.SchemaRecords
import Deblob.Cold.PromotedRecord
import Deblob.Redis.IndexAudit
import Deblob.Cold.Conservation
import Deblob.Lib.Affine
import Deblob.Umbrella.Quantities
import Deblob.Umbrella.ExactExecutor
import Deblob.Umbrella.UnitChains
import Deblob.Umbrella.ValueLeaves
import Deblob.Umbrella.ChildFields
import Deblob.Umbrella.KeyTexts
import Deblob.Umbrella.ConformingEvents
import Deblob.Umbrella.LeafJoin
import Deblob.Lib.PairScan
import Deblob.Umbrella.ValueGuard
import Deblob.Retrieval.CanonicalRanking
import Deblob.Kafka.SettleRuns
import Deblob.Lib.ScoreInterval
import Deblob.Models.WilsonGate
import Deblob.Dlp.CardNumbers
import Deblob.Lib.Window
import Deblob.Redis.SourceRegistry
import Deblob.Core.TagText
import Deblob.Kafka.Results
import Deblob.Http.TagLaw
import Deblob.Kafka.ProduceSize
import Deblob.Cold.SampleIdentity
import Deblob.Lib.Naming
import Deblob.Retrieval.Indiscernible
import Deblob.Retrieval.Positions
import Deblob.Retrieval.Flattening
import Deblob.Retrieval.KeptStructure
import Deblob.Slm.Contract
import Deblob.Slm.Shadow
import Deblob.Lib.JoinedCodes
import Deblob.Slm.PathTexts
import Deblob.Slm.ViewNodes
import Deblob.Redis.RevisionHistory
import Deblob.Lib.CappedGroups
import Deblob.Retrain.Curation
import Deblob.Lib.TextLines
import Deblob.Retrain.Holdout
import Deblob.Core.FamilyText
import Deblob.Slm.CacheKey
import Deblob.Slm.HttpInferencer
import Deblob.Experiment.FamilyPool
import Deblob.Experiment.Tiers
import Deblob.Lib.GroupOrder
import Deblob.Slm.PromptLines
import Deblob.Slm.PromptLines
import Deblob.Redis.StoredText
import Deblob.Semantic.StoredLevels
import Deblob.Semantic.AnnotationRuns
import Deblob.Cold.StoredCandidates
import Deblob.Redis.CandidateIndex
import Deblob.Redis.VaultRuns
import Deblob.Redis.SchemaNames
import Deblob.Cold.Unattended
import Deblob.Retrieval.Neighborhood
