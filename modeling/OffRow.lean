import OffRow.Session.Run
import OffRow.Proofs.StringContents
import OffRow.Proofs.PoolRepresentation
import OffRow.Proofs.PoolLifetime
import OffRow.Proofs.TemporaryStrings
import OffRow.Proofs.RefusedOperations
import OffRow.Proofs.ScopedAccess
import OffRow.Proofs.PoolMemory
import OffRow.Proofs.ArenaStorage
import OffRow.Proofs.Store.Quiet
import OffRow.Proofs.PoolTeardown
import OffRow.Proofs.Store.Separation
import OffRow.Proofs.Separation
import OffRow.Proofs.Store.Routes
import OffRow.Proofs.Routing
import OffRow.Proofs.Ledger
import OffRow.Proofs.RegistryAccounts
import OffRow.Proofs.LeakReport
import OffRow.Proofs.ScratchBytes
import OffRow.Proofs.Store.Drafts
import OffRow.Proofs.TemporaryContents
import OffRow.Proofs.ArenaBookkeeping
import OffRow.Proofs.ArenaPlacement
import OffRow.Proofs.PoolAsVector
import OffRow.Proofs.FreeChecks
import OffRow.Proofs.SizeLadder
import OffRow.Proofs.GrowthLimits
import OffRow.Proofs.GrowthPacing
import OffRow.Proofs.DestroyOrder
import OffRow.Proofs.SlotAddressing
import OffRow.Proofs.TraceLog
