import PaaRuntime.Lib.Prog
import PaaRuntime.Lib.StampedLog
import PaaRuntime.Lib.Interleaving
import PaaRuntime.Lib.GuardedTable
import PaaRuntime.Declarations
import PaaRuntime.PublishSafety
import PaaRuntime.Walk
import PaaRuntime.LoaderDecides
import PaaRuntime.LoaderFailures
import PaaRuntime.Contexts
import PaaRuntime.Partitions
import PaaRuntime.Settled
import PaaRuntime.Approval
import PaaRuntime.Demotions
import PaaRuntime.OperatingLog
import PaaRuntime.Lookups
import PaaRuntime.Listing
import PaaRuntime.ReadingOrder
import PaaRuntime.Operable
import PaaRuntime.OperatingReports
import PaaRuntime.OperatingSealed
import PaaRuntime.MutationsSpec
import PaaRuntime.AppendOnly
import PaaRuntime.TimeOrder
import PaaRuntime.Provenance
import PaaRuntime.InForce
import PaaRuntime.Transfer
import PaaRuntime.Lib.Tickets
import PaaRuntime.Ledger
import PaaRuntime.WriteLock
import PaaRuntime.Turns
import PaaRuntime.Lib.Delimited
import PaaRuntime.DemotionEvidence
import PaaRuntime.Lib.Yields
import PaaRuntime.Granted
import PaaRuntime.Lib.Civil
import PaaRuntime.ServiceClock
import PaaRuntime.EventSchema
import PaaRuntime.Lib.Serial
import PaaRuntime.Alone
import PaaRuntime.Linearizable
import PaaRuntime.Audit
