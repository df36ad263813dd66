import Pnlx.Properties.BatchRecovery
import Pnlx.Properties.CheckpointDurability
import Pnlx.Properties.CloseSettlement
import Pnlx.Properties.CollateralAsset
import Pnlx.Properties.CommitmentGriefing
import Pnlx.Properties.CopyConstraints
import Pnlx.Properties.FeeReserves
import Pnlx.Properties.FileRoundTrip
import Pnlx.Properties.FundingAccrual
import Pnlx.Properties.FundingIndex
import Pnlx.Properties.ImpactPrice
import Pnlx.Properties.LiquidationTerms
import Pnlx.Properties.LockedMargin
import Pnlx.Properties.LookupArgument
import Pnlx.Properties.MakerAllocations
import Pnlx.Properties.MakerNoteStatuses
import Pnlx.Properties.MakerRegistration
import Pnlx.Properties.MarginConservation
import Pnlx.Properties.MarkPrices
import Pnlx.Properties.MatchArithmetic
import Pnlx.Properties.MatcherAgreement
import Pnlx.Properties.MembershipRoots
import Pnlx.Properties.MerkleProofs
import Pnlx.Properties.NoteConservation
import Pnlx.Properties.NoteReconciliation
import Pnlx.Properties.OpeningSoundness
import Pnlx.Properties.OracleLiveness
import Pnlx.Properties.OrderLifecycle
import Pnlx.Properties.OrderOwnership
import Pnlx.Properties.OrderPayload
import Pnlx.Properties.PositionMirror
import Pnlx.Properties.PositionTree
import Pnlx.Properties.ProofSoundness
import Pnlx.Properties.ResidualClaims
import Pnlx.Properties.SnapshotRoundTrip
import Pnlx.Properties.SpendNullifier
import Pnlx.Properties.StoreAtomicity
import Pnlx.Properties.StoreRestart
import Pnlx.Properties.SumcheckSoundness
import Pnlx.Properties.TranscriptBinding
import Pnlx.Properties.VaultIsolation
import Pnlx.Properties.VaultNotes
import Pnlx.Properties.VaultOwners
import Pnlx.Properties.VaultRounding
import Pnlx.Properties.VaultSolvency
import Pnlx.Properties.WithdrawalBacking
import Pnlx.Properties.WithdrawalPayment
import Pnlx.Properties.ZeroSum
