import ShortMessage.Client
import ShortMessage.Server
import ShortMessage.Proofs.Wire
import ShortMessage.Proofs.Routing
import ShortMessage.Proofs.Bounds
import ShortMessage.FifoQueue
import ShortMessage.Proofs.Fifo
import ShortMessage.Delivery
import ShortMessage.Proofs.Effects
import ShortMessage.Proofs.Archive
import ShortMessage.Proofs.Clearing
import ShortMessage.Lib.Backoff
import ShortMessage.Lib.Keyed
import ShortMessage.Proofs.Retry
import ShortMessage.Concurrent
import ShortMessage.Proofs.Race
import ShortMessage.Lib.LastWrite
import ShortMessage.Location
import ShortMessage.Proofs.Location
import ShortMessage.Proofs.Login
import ShortMessage.Proofs.Connections
import ShortMessage.Proofs.Emission
import ShortMessage.Proofs.FifoBounds
import ShortMessage.Proofs.Receipts
import ShortMessage.Proofs.Retransmit
import ShortMessage.Proofs.Counting
import ShortMessage.Proofs.SameRoute
import ShortMessage.Lib.ShiftRegister
import ShortMessage.Lib.Remainder
import ShortMessage.Crc
import ShortMessage.Proofs.Crc
import ShortMessage.Proofs.Selection
import ShortMessage.Proofs.CoverList
import ShortMessage.Proofs.Pool
import ShortMessage.Proofs.Packed
import ShortMessage.Lib.SlotRing
import ShortMessage.Proofs.Receiver
import ShortMessage.Proofs.Rejected
import ShortMessage.Proofs.InPlace
import ShortMessage.Lib.Interleaving
import ShortMessage.Interleaved
import ShortMessage.Proofs.Serial
import ShortMessage.Proofs.Operations
import ShortMessage.Proofs.Leases
import ShortMessage.Proofs.Safety
import ShortMessage.Proofs.Errands
import ShortMessage.Proofs.Kept
import ShortMessage.Proofs.HandedOut
import ShortMessage.Lib.Mutex
import ShortMessage.LockedQueue
import ShortMessage.Proofs.LockedQueue
import ShortMessage.Lib.Reader
import ShortMessage.Lib.Thrift
import ShortMessage.Lib.BinaryProtocol
import ShortMessage.Rpc
import ShortMessage.Proofs.Rpc
import ShortMessage.Proofs.Remote
