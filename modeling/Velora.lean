import Velora.Runs
import Velora.RingBuffer
import Velora.VirtAddr
import Velora.Scheduler
import Velora.SchedulerSafety
import Velora.Preemption
import Velora.Zombies
import Velora.Ownership
import Velora.Context
import Velora.Resources
import Velora.KernelSafety
import Velora.Reclaim
import Velora.RoundRobin
import Velora.Launch
import Velora.Streams
import Velora.Executor
import Velora.X86
import Velora.SwitchTo
import Velora.Multitasking
import Velora.Buffers
import Velora.Keyboard
import Velora.Shell
import Velora.LineEditor
import Velora.Console
import Velora.Fat16
import Velora.Fs
import Velora.FsRead
import Velora.OpenFiles
import Velora.Pids
import Velora.Locks
import Velora.RadixHeap
import Velora.PageTable
import Velora.UserRange
import Velora.Mapping
import Velora.BootInfoFrameAllocator
import Velora.Tables
import Velora.AddressSpace
import Velora.Elf
import Velora.ElfPages
import Velora.ElfPanics
import Velora.ElfIsolation
import Velora.ElfImage
import Velora.Permissions
import Velora.SpawnUser
import Velora.SysSpawn
import Velora.FrameCirculation
import Velora.FreedFrames
import Velora.FsLimits
import Velora.History
import Velora.Keypresses
import Velora.TaskQueue
import Velora.Ata
import Velora.FailedLoad
import Velora.Shares
import Velora.SpaceLedger
import Velora.Heap
import Velora.Lifecycle
import Velora.Confinement
import Velora.Isolation
import Velora.MachineCode
import Velora.Traces
import Velora.Dispatch
import Velora.CallIsolation
import Velora.ProgramView
import Velora.UserMode
import Velora.Shellcode
import Velora.DemoSpaces
import Velora.Demos
import Velora.InputQueue
import Velora.SyscallEntry
import Velora.Terminal
import Velora.VgaBuffer
import Velora.OpenReadDemo
import Velora.Spawning
import Velora.SpawnWaitDemo
