import DbfAnonymizer.Engine.NumericSafety
import DbfAnonymizer.Engine.EvidenceReads
import DbfAnonymizer.Engine.TextResume
import DbfAnonymizer.Preflight.CapacityExact
import DbfAnonymizer.Vault.FlowAssignment
import DbfAnonymizer.Vault.TextAllocation
import DbfAnonymizer.Vault.TemporalShift
import DbfAnonymizer.Vault.MemoRuns
import DbfAnonymizer.Vault.WriterExclusion
import DbfAnonymizer.Verification.ValueSoundness
import DbfAnonymizer.Engine.ReversibleColumns
import DbfAnonymizer.Vault.NumericRequests
import DbfAnonymizer.Verification.RecordCounts
import DbfAnonymizer.Engine.EvidenceComparison
import DbfAnonymizer.Engine.EvidencePreserved
import DbfAnonymizer.Engine.PublicationCleanup
import DbfAnonymizer.Lib.JsonRoundTrip
import DbfAnonymizer.Transfer.BundleRoundTrip
import DbfAnonymizer.Lib.Canonical
import DbfAnonymizer.Engine.FreeTokenWalks
import DbfAnonymizer.Lib.Flow
import DbfAnonymizer.Transforms.TokenOrder
import DbfAnonymizer.Vault.FlowOptimum
import DbfAnonymizer.Vault.PlanNetwork
import DbfAnonymizer.Engine.DatasetWalk
import DbfAnonymizer.Engine.FingerprintFraming
import DbfAnonymizer.Engine.ReceiptJson
import DbfAnonymizer.Engine.ReceiptRoundTrip
import DbfAnonymizer.Relationships.AssuranceDerivation
import DbfAnonymizer.Relationships.DocumentIdentity
import DbfAnonymizer.Transfer.ArtifactPaths
import DbfAnonymizer.Lib.JsonSchema
import DbfAnonymizer.Relationships.DocumentRoundTrip
import DbfAnonymizer.Relationships.SurrogatePaths
import DbfAnonymizer.Relationships.ExternalSchema
import DbfAnonymizer.Relationships.SchemaParity
import DbfAnonymizer.Engine.PassTwoReruns
import DbfAnonymizer.Engine.RelationsPreserved
import DbfAnonymizer.Recovery.RoundTrip
import DbfAnonymizer.Engine.ParallelTables
