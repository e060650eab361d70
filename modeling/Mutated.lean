import Mutated.Verified.Exec
import Mutated.Verified.Circular
import Mutated.Verified.History
import Mutated.Verified.Endian
import Mutated.Verified.Groups
import Mutated.Verified.Decimal
import Mutated.Verified.Loops
import Mutated.Verified.Rounding
import Mutated.Verified.RelativeErrors
import Mutated.Verified.Triple
import Mutated.Verified.Ranks
import Mutated.Verified.Shares
import Mutated.Verified.Framing
import Mutated.Verified.Simulation
import Mutated.Ports.Opts
import Mutated.Ports.Schedule
import Mutated.Ports.ScheduleRecord
import Mutated.Ports.Buffer
import Mutated.Ports.BufferCalls
import Mutated.Ports.BufferFifo
import Mutated.Ports.BufferIter
import Mutated.Ports.Sock
import Mutated.Ports.SockQueues
import Mutated.Ports.SockRx
import Mutated.Ports.SockReceive
import Mutated.Ports.SockTx
import Mutated.Ports.SockWrites
import Mutated.Ports.SockStream
import Mutated.Ports.SockProgress
import Mutated.Ports.SockOutput
import Mutated.Ports.SockPoints
import Mutated.Ports.SockRuns
import Mutated.Ports.SockWire
import Mutated.Ports.SockPrompt
import Mutated.Ports.SockWakeups
import Mutated.Ports.SockHeaders
import Mutated.Ports.SockCounts
import Mutated.Ports.SockGiven
import Mutated.Ports.SockCancel
import Mutated.Ports.SockPlaces
import Mutated.Ports.SockWorlds
import Mutated.Ports.Generator
import Mutated.Ports.GeneratorRuns
import Mutated.Ports.GeneratorLockstep
import Mutated.Ports.GeneratorClient
import Mutated.Ports.Memcache
import Mutated.Ports.GeneratorCancel
import Mutated.Ports.MemcacheResponses
import Mutated.Ports.MemcacheLoad
import Mutated.Ports.MemcachePrompt
import Mutated.Ports.MemcacheProgress
import Mutated.Ports.MemcacheWindow
import Mutated.Ports.MemcacheFraming
import Mutated.Ports.MemcacheTable
import Mutated.Ports.MemcacheKeys
import Mutated.Ports.MemcacheCodec
import Mutated.Ports.MemcacheRequests
import Mutated.Ports.MemcacheLoadKeys
import Mutated.Ports.MemcacheWire
import Mutated.Ports.MemcacheAsked
import Mutated.Ports.MemcacheStore
import Mutated.Ports.Synthetic
import Mutated.Ports.SyntheticRuns
import Mutated.Ports.GeneratorLifecycle
import Mutated.Ports.SyntheticLifecycle
import Mutated.Ports.SyntheticSendOnly
import Mutated.Ports.Lifetime
import Mutated.Ports.Connections
import Mutated.Ports.ConnectionRefs
import Mutated.Ports.ConnectionRuns
import Mutated.Ports.Packets
import Mutated.Ports.Client
import Mutated.Ports.ClientAccounting
import Mutated.Ports.ClientTimers
import Mutated.Ports.ClientLateness
import Mutated.Ports.ClientRules
import Mutated.Ports.ClientRuns
import Mutated.Ports.ClientTotals
import Mutated.Ports.ClientDues
import Mutated.Ports.CommandLine
import Mutated.Ports.Admission
import Mutated.Ports.ClientOutput
import Mutated.Ports.Percentiles
import Mutated.Ports.ClientSummary
import Mutated.Ports.ClientMeans
import Mutated.Ports.CommandLineForms
import Mutated.Ports.Doubles
import Mutated.Ports.Coordinator
import Mutated.Ports.CoordinatorRuns
import Mutated.Ports.CoordinatorParts
import Mutated.Ports.CoordinatorDisplay
import Mutated.Ports.GeneratorLedger
import Mutated.Ports.Program
import Mutated.Ports.ProgramSamples
import Mutated.Ports.ProgramCalls
import Mutated.Ports.ProgramTurns
import Mutated.Ports.ProgramConnections
import Mutated.Ports.ProgramRequests
import Mutated.Ports.ProgramLoop
import Mutated.Ports.ProgramRuns
import Mutated.Ports.ProgramShares
import Mutated.Ports.ProgramWaits
import Mutated.Ports.CoordinatorSources
import Mutated.Ports.CoordinatorSpawns
