import DeltaOS.Runs
import DeltaOS.Sched
import DeltaOS.ReadyQueue
import DeltaOS.Termination
import DeltaOS.Placement
import DeltaOS.RoundRobin
import DeltaOS.PreemptiveRounds
import DeltaOS.TimerPaths
import DeltaOS.Keyboard
import DeltaOS.Interrupts
import DeltaOS.InterruptDispatch
import DeltaOS.SavedContexts
import DeltaOS.SwitchPaths
import DeltaOS.TimerIsr
import DeltaOS.Heap
import DeltaOS.Ranges
import DeltaOS.HeapIsolation
import DeltaOS.HeapProfiles
import DeltaOS.HeapAlignment
import DeltaOS.RadixTree
import DeltaOS.Paging
import DeltaOS.PageTables
import DeltaOS.AddressSpace
import DeltaOS.VmmRefinement
import DeltaOS.FirstFit
import DeltaOS.HugePages
import DeltaOS.MemoryMap
import DeltaOS.MemoryIsolation
import DeltaOS.PmmAccounting
import DeltaOS.PmmIsolation
import DeltaOS.TaskStacks
import DeltaOS.ByteSlices
import DeltaOS.Cursor
import DeltaOS.Ntfs
import DeltaOS.NtfsSafety
import DeltaOS.NtfsRoundTrip
import DeltaOS.RunLists
import DeltaOS.FileSystem
import DeltaOS.NtfsFiles
import DeltaOS.SequentialReads
import DeltaOS.MountPaths
import DeltaOS.OpenFiles
import DeltaOS.Interleaving
import DeltaOS.Descriptors
import DeltaOS.BootPaging
import DeltaOS.Acpi
import DeltaOS.AcpiBounds
import DeltaOS.HeapConservation
import DeltaOS.SystemTasks
import DeltaOS.Modules
import DeltaOS.Blocking
import DeltaOS.Resuming
import DeltaOS.Selection
import DeltaOS.Quanta
import DeltaOS.TickRounds
import DeltaOS.PmmWindows
import DeltaOS.HeapFailures
import DeltaOS.KeyboardFifo
import DeltaOS.KeyboardDrivers
import DeltaOS.Terminal
import DeltaOS.Vga
import DeltaOS.VgaTerminal
import DeltaOS.PmmRanges
import DeltaOS.PmmReserved
import DeltaOS.IdentityMap
import DeltaOS.NtfsSpans
import DeltaOS.NtfsLeaks
import DeltaOS.NtfsContainment
import DeltaOS.NtfsMetadata
import DeltaOS.ResidentReads
import DeltaOS.Journal
import DeltaOS.NtfsGeometry
import DeltaOS.Clocks
import DeltaOS.IoApic
import DeltaOS.MadtDecoding
import DeltaOS.RsdpSearch
import DeltaOS.ShellLine
import DeltaOS.NumberParsing
import DeltaOS.CStrings
import DeltaOS.PidText
import DeltaOS.Tokenizer
import DeltaOS.UserHeap
import DeltaOS.Memmove
import DeltaOS.LeastFirst
import DeltaOS.Signals
import DeltaOS.KernelLoad
import DeltaOS.IsrStubs
import DeltaOS.KeyboardRace
import DeltaOS.Locks
import DeltaOS.Multitasking
import DeltaOS.SchedLocks
import DeltaOS.Syscalls
import DeltaOS.Traps
import DeltaOS.CStringOps
import DeltaOS.Processes
import DeltaOS.ShellRefinement
import DeltaOS.UserOnKernel
import DeltaOS.Abstractions
import DeltaOS.KernelShell
import DeltaOS.ShellSession
import DeltaOS.ProcessTable
import DeltaOS.ShellInterrupts
