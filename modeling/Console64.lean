import Console64.Bus.Admission
import Console64.Main
import Console64.Proofs.BlockShape
import Console64.Proofs.BoundedWork
import Console64.Proofs.ByteWalk
import Console64.Proofs.CacheProtocol
import Console64.Proofs.Confinement
import Console64.Proofs.ControlState
import Console64.Proofs.ControllerPolls
import Console64.Proofs.CoprocessorState
import Console64.Proofs.CycleAccounting
import Console64.Proofs.DecodeAgreement
import Console64.Proofs.DoublewordGating
import Console64.Proofs.EntryRoundTrip
import Console64.Proofs.ExceptionEntry
import Console64.Proofs.FailureRecords
import Console64.Proofs.InstructionClasses
import Console64.Proofs.InterruptReturn
import Console64.Proofs.InterruptStatus
import Console64.Proofs.Lockstep
import Console64.Proofs.LostWrites
import Console64.Proofs.NestedTransfers
import Console64.Proofs.PreciseExceptions
import Console64.Proofs.RefillService
import Console64.Proofs.RegisterView
import Console64.Proofs.ResetEntries
import Console64.Proofs.RouteAgreement
import Console64.Proofs.ScanConfinement
import Console64.Proofs.SerialRoundTrip
import Console64.Proofs.SignalTransfers
import Console64.Proofs.StaleBlocks
import Console64.Proofs.TimerInterrupt
import Console64.Proofs.UnalignedPairs
import Console64.Proofs.WiredEntries
import Console64.Proofs.WriteJournal
import Console64.Proofs.VideoTime
import Console64.Proofs.ChecksumRepair
import Console64.Proofs.FloatTraps
import Console64.Proofs.RecentEntries
import Console64.Proofs.FloatMoves
import Console64.Proofs.BusScript
import Console64.Proofs.SemaphoreProtocol
import Console64.Proofs.StatusCommands
