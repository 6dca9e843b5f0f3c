import ExtraAccounts.ConfigurationUse
import ExtraAccounts.Derivation.ProgramAddress
import ExtraAccounts.Instruction
import ExtraAccounts.Plan.Run
import ExtraAccounts.Proofs.Memo
import ExtraAccounts.Proofs.Resolutions
import ExtraAccounts.Proofs.Prefetch
import ExtraAccounts.Proofs.Settings
import ExtraAccounts.Proofs.Snapshot
import ExtraAccounts.Proofs.RecordByRecord
import ExtraAccounts.Proofs.Growth
import ExtraAccounts.Proofs.Absence
import ExtraAccounts.Proofs.Composition
import ExtraAccounts.Proofs.CacheSchedules
import ExtraAccounts.Proofs.ConfigurationLayout
import ExtraAccounts.Proofs.PackedSeeds
import ExtraAccounts.Proofs.Publication
import ExtraAccounts.Proofs.Noninterference
import ExtraAccounts.Proofs.SeedLengths
import ExtraAccounts.Proofs.Augmentation
import ExtraAccounts.Proofs.MergedStores
import ExtraAccounts.Proofs.SeedGrammar
import ExtraAccounts.Proofs.SeedEvaluation
import ExtraAccounts.Proofs.SeedPacking
import ExtraAccounts.Proofs.SeedRequests
import ExtraAccounts.Proofs.SeedLimits
import ExtraAccounts.Proofs.CanonicalBump
import ExtraAccounts.Proofs.PointerWindow
import ExtraAccounts.Proofs.RequestBounds
import ExtraAccounts.Proofs.Retries
import ExtraAccounts.Proofs.LogLines
import ExtraAccounts.Proofs.CallLog
