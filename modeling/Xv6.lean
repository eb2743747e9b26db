import Xv6.Signal.Equiv.Trap
import Xv6.Table.Equiv.Pages
import Xv6.Table.Equiv.Trapframe
import Xv6.Sched.Equiv.Locks
import Xv6.Exit.Equiv.Release
import Xv6.Signal.Equiv.Loops
import Xv6.Life.Equiv.Sleeplocks
import Xv6.Life.Equiv.Wait
import Xv6.Life.Equiv.Tree
import Xv6.Kthread.Equiv.Reuse
import Xv6.Sem.Equiv.Threads
import Xv6.Log.Equiv.Tx
import Xv6.Files.Equiv.Safety
import Xv6.Bio.Equiv.Calls
import Xv6.Pipe.Equiv.Awake
import Xv6.Signal.Equiv.Backup
import Xv6.Disk.Equiv.Virtio
import Xv6.Bio.Equiv.Lru
import Xv6.Fs.Equiv.Table
import Xv6.Mkfs.Equiv.Files
import Xv6.Signal.Equiv.Ignore
import Xv6.Kthread.Equiv.Create
import Xv6.Console.Equiv.Line
import Xv6.Fs.Equiv.Files
import Xv6.Vm.Equiv.Sbrk
import Xv6.Vm.Equiv.User
import Xv6.Dir.Equiv.Entries
import Xv6.Dir.Equiv.Paths
import Xv6.User.Equiv.Grep
import Xv6.Pipe.Equiv.Read
import Xv6.Sleep.Equiv.Locks
import Xv6.Dir.Equiv.Open
import Xv6.Files.Equiv.Alloc
import Xv6.Signal.Equiv.Calls
import Xv6.Life.Equiv.Dead
import Xv6.Fs.Equiv.Logged
import Xv6.Kthread.Equiv.Refine
