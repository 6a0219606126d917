import P2Party.Base.Bytes
import P2Party.Base.OrdMap
import P2Party.Base.OneTime
import P2Party.Base.Exec
import P2Party.Base.TwoParty
import P2Party.Base.Process
import P2Party.Base.HashTree
import P2Party.Base.Codec
import P2Party.Base.Utf8
import P2Party.Base.Utf8Cut
import P2Party.Base.Runs
import P2Party.Base.Simulation
import P2Party.Base.Assertion
import P2Party.Base.Table
import P2Party.Base.KeyRange
import P2Party.Base.ByteFile
import P2Party.Base.JsString
import P2Party.Base.PromiseLock
import P2Party.Base.Regroup
import P2Party.Persistence.Database
import P2Party.Persistence.ReceiveStore
import P2Party.Persistence.SendQueue
import P2Party.Persistence.MessageCount
import P2Party.Persistence.Layout
import P2Party.Persistence.ReceiveCompleteness
import P2Party.Persistence.Placement
import P2Party.Persistence.PlacementInvariant
import P2Party.Persistence.RatchetWrap
import P2Party.Persistence.RatchetWrapBinding
import P2Party.Persistence.RatchetGuard
import P2Party.Persistence.RatchetWorker
import P2Party.Room.Policy
import P2Party.Room.Slice
import P2Party.Room.PolicyImmutability
import P2Party.Room.Wordlist
import P2Party.Room.Invite
import P2Party.Room.InviteCodec
import P2Party.Room.PolicyCodec
import P2Party.Cryptography.LibCrypto
import P2Party.Cryptography.SealedCell
import P2Party.Cryptography.Ratchet
import P2Party.Cryptography.RatchetSteps
import P2Party.Cryptography.RatchetAgreement
import P2Party.PqHealing.Record
import P2Party.PqHealing.RecordCanonicity
import P2Party.PqHealing.FrameBinding
import P2Party.PqHealing.Machine
import P2Party.PqHealing.Transitions
import P2Party.PqHealing.Frame
import P2Party.PqHealing.Runtime
import P2Party.PqHealing.Accept
import P2Party.PqHealing.Checkpoint
import P2Party.PqHealing.Protocol
import P2Party.Traffic.Order
import P2Party.PqHealing.Refinement
import P2Party.PqHealing.Orchestrator
import P2Party.PqHealing.HealingAgreement
import P2Party.PqHealing.Delivery
import P2Party.PqHealing.Retransmission
import P2Party.Cryptography.RatchetInvariant
import P2Party.Cryptography.RatchetTurns
import P2Party.Traffic.RatchetInOrder
import P2Party.Cryptography.SkippedKeys
import P2Party.Cryptography.RatchetClone
import P2Party.Messages.ChunkFrame
import P2Party.Messages.Merkle
import P2Party.Messages.Metadata
import P2Party.Messages.MetadataCodec
import P2Party.Messages.MessageChunk
import P2Party.Messages.ChunkParity
import P2Party.Messages.ChannelLabel
import P2Party.Messages.CommitOnAuthentication
import P2Party.Messages.ChunkTraffic
import P2Party.Messages.MerkleBinding
import P2Party.Messages.MerkleCompleteness
import P2Party.Messages.Split
import P2Party.Messages.SplitIdentity
import P2Party.Messages.SendGeometry
import P2Party.Messages.TransferCipher
import P2Party.Messages.TransferAbort
import P2Party.Messages.FlowControl
import P2Party.Session.Session
import P2Party.Session.Snapshot
import P2Party.Session.SnapshotCanonicity
import P2Party.Session.SealedMessage
import P2Party.Session.Run
import P2Party.Session.RoundTrip
import P2Party.Session.HonestTraffic
import P2Party.Traffic.Conversation
import P2Party.PqHealing.MachineRuns
import P2Party.Session.ControlAtomicity
import P2Party.PqHealing.CheckpointCodec
import P2Party.Cover.CoverCell
import P2Party.Cover.KeySeparation
import P2Party.Cover.Scheduler
import P2Party.Cover.Timeline
import P2Party.Cover.Independence
import P2Party.Cover.FullCycles
import P2Party.Cover.JobPlaces
import P2Party.Cover.SlotTasks
import P2Party.Cover.Accounting
import P2Party.Cover.ReplayWindow
import P2Party.Cover.SlotGrid
import P2Party.Cover.Admission
import P2Party.Cover.Cancellation
import P2Party.Cover.Settlement
import P2Party.Cover.ScheduledEdge
import P2Party.Edge.Ownership
import P2Party.Edge.Transactions
import P2Party.Edge.Durability
import P2Party.Edge.ReceiveKeys
import P2Party.Edge.Eviction
import P2Party.Traffic.MessageInProgress
import P2Party.Edge.Admission
import P2Party.Handshake.Core
import P2Party.Handshake.Agreement
import P2Party.Cryptography.WebCrypto
import P2Party.Messages.Queueing
import P2Party.Messages.QueueingInvariant
import P2Party.Handshake.RatchetGate
import P2Party.Handshake.Fingerprint
import P2Party.Handshake.Inbox
import P2Party.Base.FifoMutex
import P2Party.Locks.TailLock
import P2Party.Locks.AsyncMutex
import P2Party.Locks.Fairness
import P2Party.Base.Double
import P2Party.Base.Rejection
import P2Party.Base.Shuffle
import P2Party.Cryptography.Sampling
import P2Party.Base.BitText
import P2Party.Cryptography.Mnemonic
import P2Party.Session.Replay
import P2Party.Session.Persistence
import P2Party.Transfer.Receipts
import P2Party.Transfer.Delivery
import P2Party.Transfer.Staged
import P2Party.Transfer.Confirmation
import P2Party.Transfer.Reliable
import P2Party.Throttle.PinAttempts
import P2Party.Throttle.GuessRate
