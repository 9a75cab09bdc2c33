import HolyRust.Capabilities.Audit
import HolyRust.Capabilities.MaskBuilders
import HolyRust.Capabilities.OpenRange
import HolyRust.Capabilities.RangeCheck
import HolyRust.Capabilities.Registry
import HolyRust.Capabilities.WindowCheck
import HolyRust.Capabilities.WindowMasks
import HolyRust.Capabilities.WordAccess
import HolyRust.Compilation.BodyText
import HolyRust.Compilation.CompileTimeReads
import HolyRust.Compilation.Congruence
import HolyRust.Compilation.Consumption
import HolyRust.Compilation.Coverage
import HolyRust.Compilation.CrateLexer
import HolyRust.Compilation.Emitter
import HolyRust.Compilation.ErrorAtomicity
import HolyRust.Compilation.ExpressionTrees
import HolyRust.Compilation.Expressions
import HolyRust.Compilation.Faults
import HolyRust.Compilation.Filling
import HolyRust.Compilation.Flattening
import HolyRust.Compilation.IndexedLexer
import HolyRust.Compilation.Lexer
import HolyRust.Compilation.Limits
import HolyRust.Compilation.LineEnds
import HolyRust.Compilation.Literals
import HolyRust.Compilation.Lookahead
import HolyRust.Compilation.LoopCompilers
import HolyRust.Compilation.Native
import HolyRust.Compilation.Outcomes
import HolyRust.Compilation.Parser
import HolyRust.Compilation.ParserSafety
import HolyRust.Compilation.Progress
import HolyRust.Compilation.RawParser
import HolyRust.Compilation.RawRuns
import HolyRust.Compilation.RawState
import HolyRust.Compilation.ReachedPeeks
import HolyRust.Compilation.ReachedReads
import HolyRust.Compilation.Requests
import HolyRust.Compilation.State
import HolyRust.Compilation.StatementChecks
import HolyRust.Compilation.StreamShape
import HolyRust.Compilation.SymbolMap
import HolyRust.Compilation.Tables
import HolyRust.Compilation.Tokens
import HolyRust.Drivers.AuditDump
import HolyRust.Drivers.AuditTrail
import HolyRust.Drivers.BarSizing
import HolyRust.Drivers.BitEdits
import HolyRust.Drivers.Console
import HolyRust.Drivers.DmaReservations
import HolyRust.Drivers.DmaRing
import HolyRust.Drivers.FlashStore
import HolyRust.Drivers.Frames
import HolyRust.Drivers.GpioPins
import HolyRust.Drivers.Grants
import HolyRust.Drivers.JitSlots
import HolyRust.Drivers.LineEditor
import HolyRust.Drivers.Linearity
import HolyRust.Drivers.LoadedPrograms
import HolyRust.Drivers.Origins
import HolyRust.Drivers.PcieEnumeration
import HolyRust.Drivers.Peripherals
import HolyRust.Drivers.Printing
import HolyRust.Drivers.ProgramMap
import HolyRust.Drivers.Pstore
import HolyRust.Drivers.RegistryIntegrity
import HolyRust.Drivers.Rendering
import HolyRust.Drivers.Repl
import HolyRust.Drivers.Replies
import HolyRust.Drivers.RxReader
import HolyRust.Drivers.Screen
import HolyRust.Drivers.SerialOutput
import HolyRust.Drivers.SpiExchange
import HolyRust.Drivers.SramCarve
import HolyRust.Drivers.StoreSlots
import HolyRust.Drivers.StoreWindow
import HolyRust.Drivers.SuperuserGrants
import HolyRust.Drivers.TaskHandlers
import HolyRust.Drivers.TickHandlers
import HolyRust.Drivers.Waveform
import HolyRust.Execution.Arithmetic
import HolyRust.Execution.Backends
import HolyRust.Execution.CapGuards
import HolyRust.Execution.CodeFences
import HolyRust.Execution.CodeSize
import HolyRust.Execution.Definitions
import HolyRust.Execution.Encodings
import HolyRust.Execution.ExpressionStreams
import HolyRust.Execution.ImmediateLoads
import HolyRust.Execution.NativeAgreement
import HolyRust.Execution.NativeBlocks
import HolyRust.Execution.NativeMeaning
import HolyRust.Execution.SourceRuns
import HolyRust.Execution.StreamRuns
import HolyRust.Execution.Threaded
import HolyRust.Foundation.Bus
import HolyRust.Foundation.BusProgram
import HolyRust.Foundation.Checked
import HolyRust.Foundation.Congruential
import HolyRust.Foundation.Fences
import HolyRust.Foundation.Interruptions
import HolyRust.Foundation.Lockstep
import HolyRust.Foundation.Memory
import HolyRust.Foundation.Preemption
import HolyRust.Foundation.Program
import HolyRust.Foundation.RegisterBits
import HolyRust.Foundation.Ring
import HolyRust.Foundation.Settling
import HolyRust.Foundation.Tandem
import HolyRust.Foundation.Terminal
import HolyRust.Foundation.Trail
import HolyRust.Isa.Armv7m
import HolyRust.Isa.Leaf
import HolyRust.Isa.Rv32
import HolyRust.Isa.Thumb2
import HolyRust.Kernel.Boot
import HolyRust.Kernel.ContextSwitch
import HolyRust.Kernel.CounterTasks
import HolyRust.Kernel.Fuzz
import HolyRust.Kernel.Memory
import HolyRust.Kernel.Multitask
import HolyRust.Kernel.Pool
import HolyRust.Kernel.PoolHistory
import HolyRust.Kernel.RoundRobin
import HolyRust.Kernel.SpawnedTasks
import HolyRust.Platform
import HolyRust.Scheduler.Ledger
import HolyRust.Scheduler.QueueObservers
import HolyRust.Scheduler.ResponseTime
import HolyRust.Scheduler.Schedulability
import HolyRust.Scheduler.ShadowStack
import HolyRust.Scheduler.TaskQueue
