import AISafeOS.Cap.Exact
import AISafeOS.Cap.Inherit
import AISafeOS.Syscall.VmMap
import AISafeOS.Mm.BuddyAccounts
import AISafeOS.Syscall.Results
import AISafeOS.Syscall.Boundary
import AISafeOS.Mm.VmDestroy
import AISafeOS.Mm.VmConsistent
import AISafeOS.Mm.KmallocStats
import AISafeOS.Ipc.NotificationRuns
import AISafeOS.Ipc.EndpointPaths
import AISafeOS.Ipc.PulseQueue
import AISafeOS.Mm.Shm
import AISafeOS.Mm.SlabRuns
import AISafeOS.Mm.SlabClients
import AISafeOS.Ipc.Connections
import AISafeOS.Ipc.ShardedQueue
import AISafeOS.Sched.Priority
import AISafeOS.Sched.Smp
import AISafeOS.Sched.Mutex
import AISafeOS.Sched.Arinc653
import AISafeOS.Sched.Spinlock
import AISafeOS.Net.Checksum
import AISafeOS.Net.Reassembly
import AISafeOS.Net.TcpCong
import AISafeOS.Fs.RamfsHash
import AISafeOS.Sched.Process
import AISafeOS.Ipc.Ic2
import AISafeOS.Fs.Gpt
import AISafeOS.Services.Security
import AISafeOS.Services.Path
import AISafeOS.Mm.PcpuPool
import AISafeOS.Drivers.Virtq
import AISafeOS.Mm.Elf
import AISafeOS.Mm.RbSequence
import AISafeOS.Mm.PageBlocks
import AISafeOS.Sched.UserTimer
import AISafeOS.Fs.FatBounds
import AISafeOS.Net.TcpOptions
import AISafeOS.Services.DetMalloc
