import BoostActor.Core.AbstractActor
import BoostActor.Core.ActorFlags
import BoostActor.Core.ActorPool
import BoostActor.Core.ActorSteps
import BoostActor.Core.AnnouncedTypes
import BoostActor.Core.Answers
import BoostActor.Core.AtomText
import BoostActor.Core.Binary
import BoostActor.Core.BlockingActor
import BoostActor.Core.BuilderSnapshots
import BoostActor.Core.CacheTraversal
import BoostActor.Core.CommandLine
import BoostActor.Core.ConfigServer
import BoostActor.Core.ConfigUpdates
import BoostActor.Core.CooperativeActors
import BoostActor.Core.Coordinator
import BoostActor.Core.Counting
import BoostActor.Core.Decoding
import BoostActor.Core.DecodingSafety
import BoostActor.Core.DoubleEndedQueue
import BoostActor.Core.Duration
import BoostActor.Core.EventBasedActor
import BoostActor.Core.ExitNotifications
import BoostActor.Core.Extract
import BoostActor.Core.ExtractOpts
import BoostActor.Core.GroupManager
import BoostActor.Core.GroupProxy
import BoostActor.Core.HostIdText
import BoostActor.Core.IntegerParsing
import BoostActor.Core.LateRequests
import BoostActor.Core.Links
import BoostActor.Core.Logging
import BoostActor.Core.Mailbox
import BoostActor.Core.MailboxElement
import BoostActor.Core.MatchAttempts
import BoostActor.Core.MatchCase
import BoostActor.Core.MatchCursor
import BoostActor.Core.MemoryCache
import BoostActor.Core.Message
import BoostActor.Core.MessageBuilder
import BoostActor.Core.MessageBuilding
import BoostActor.Core.MessageData
import BoostActor.Core.MessageHeap
import BoostActor.Core.MessageId
import BoostActor.Core.MessageIsolation
import BoostActor.Core.MessageLists
import BoostActor.Core.MessageSharing
import BoostActor.Core.MessageValues
import BoostActor.Core.MessageWrites
import BoostActor.Core.Migration
import BoostActor.Core.Monitors
import BoostActor.Core.MutableAt
import BoostActor.Core.NamedActors
import BoostActor.Core.NodeId
import BoostActor.Core.NodeOrder
import BoostActor.Core.PartitionedList
import BoostActor.Core.PlainValues
import BoostActor.Core.PoolMessages
import BoostActor.Core.Primitives
import BoostActor.Core.Printer
import BoostActor.Core.PriorityMailbox
import BoostActor.Core.QueueInvariant
import BoostActor.Core.QueueOrder
import BoostActor.Core.ReentrantCache
import BoostActor.Core.RefCounted
import BoostActor.Core.Requests
import BoostActor.Core.ResponseHandlers
import BoostActor.Core.Ripemd160
import BoostActor.Core.RoundRobin
import BoostActor.Core.RoundTrip
import BoostActor.Core.RunningCount
import BoostActor.Core.SchedulerPolicy
import BoostActor.Core.SchedulerRuns
import BoostActor.Core.Scheduling
import BoostActor.Core.SharedSpinlock
import BoostActor.Core.SingleReaderQueue
import BoostActor.Core.Singletons
import BoostActor.Core.SinkHandles
import BoostActor.Core.SkippedMessages
import BoostActor.Core.StaleState
import BoostActor.Core.StringSerialization
import BoostActor.Core.Subscriptions
import BoostActor.Core.SynchronizedQueue
import BoostActor.Core.TextElements
import BoostActor.Core.TextGrammar
import BoostActor.Core.TextMessages
import BoostActor.Core.TextObjects
import BoostActor.Core.TextReading
import BoostActor.Core.TextRoundTrip
import BoostActor.Core.TextSequences
import BoostActor.Core.TextWriting
import BoostActor.Core.Timeouts
import BoostActor.Core.TimerActor
import BoostActor.Core.TryMatch
import BoostActor.Core.TypeMap
import BoostActor.Core.TypeNames
import BoostActor.Core.TypeTokens
import BoostActor.Core.UserTypes
import BoostActor.Core.ValueHandlers
import BoostActor.Core.ValueSemantics
import BoostActor.Core.Wakeup
import BoostActor.Core.WorkSharing
import BoostActor.Core.WorkStealing
import BoostActor.Io.Activity
import BoostActor.Io.ActorNamespace
import BoostActor.Io.Actors
import BoostActor.Io.Addresses
import BoostActor.Io.Announcements
import BoostActor.Io.Blacklist
import BoostActor.Io.Broker
import BoostActor.Io.BrokerNetwork
import BoostActor.Io.Callee
import BoostActor.Io.Cleanup
import BoostActor.Io.ContextIds
import BoostActor.Io.DataStep
import BoostActor.Io.DeadReceivers
import BoostActor.Io.DirectRoutes
import BoostActor.Io.Emissions
import BoostActor.Io.FaithfulNetwork
import BoostActor.Io.Flushes
import BoostActor.Io.Framing
import BoostActor.Io.Handles
import BoostActor.Io.Header
import BoostActor.Io.Hops
import BoostActor.Io.Instance
import BoostActor.Io.Isolation
import BoostActor.Io.Kept
import BoostActor.Io.KnownPeers
import BoostActor.Io.Link
import BoostActor.Io.LocalActors
import BoostActor.Io.Lookup
import BoostActor.Io.Namespace
import BoostActor.Io.NoFaults
import BoostActor.Io.OpenRoutes
import BoostActor.Io.PacketStream
import BoostActor.Io.Pieces
import BoostActor.Io.Promises
import BoostActor.Io.Quiet
import BoostActor.Io.Reachability
import BoostActor.Io.RoutingTable
import BoostActor.Io.SelfRoutes
import BoostActor.Io.SpawnServers
import BoostActor.Io.State
import BoostActor.Io.Steps
import BoostActor.Io.StreamInput
import BoostActor.Io.StreamOutput
import BoostActor.Io.Streams
import BoostActor.Io.Successors
import BoostActor.Io.Turns
import BoostActor.Io.Versions
import BoostActor.Io.WellFormed
import BoostActor.Io.Wiring
import BoostActor.Lib.Decimal
import BoostActor.Lib.Deque
import BoostActor.Lib.DoublyLinked
import BoostActor.Lib.Hexadecimal
import BoostActor.Lib.LinkedList
import BoostActor.Lib.ListSegment
import BoostActor.Lib.LittleEndian
import BoostActor.Lib.LowerBound
import BoostActor.Lib.MerkleDamgard
import BoostActor.Lib.Multimap
import BoostActor.Lib.Program
import BoostActor.Lib.ReadersWriters
import BoostActor.Lib.Related
import BoostActor.Lib.RoundRobin
import BoostActor.Lib.Run
import BoostActor.Lib.SortedList
import BoostActor.Lib.Threads
import BoostActor.Lib.Unfolding
import BoostActor.Lib.UnorderedMap
import BoostActor.Lib.UnorderedSet
import BoostActor.Lib.Wildcards
