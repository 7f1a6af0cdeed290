import RustPosix.Audit.Journal
import RustPosix.Libc.Atoi
import RustPosix.Libc.UserData
import RustPosix.Libc.Widths
import RustPosix.Mm.HeapLoss
import RustPosix.Mm.PmmInit
import RustPosix.Mm.UserAccess
import RustPosix.Mm.VmaSurgery
import RustPosix.Posix.Agreement
import RustPosix.Posix.AnonymousMmap
import RustPosix.Posix.AsyncSignals
import RustPosix.Posix.ExecFailure
import RustPosix.Posix.ExecSignals
import RustPosix.Posix.FileOffsets
import RustPosix.Posix.Listing
import RustPosix.Posix.MmapFailure
import RustPosix.Process.ElfTotal
import RustPosix.Sched.GsParity
import RustPosix.Sched.Parents
import RustPosix.Sched.RoundRobin
import RustPosix.Sched.WaitEffects
import RustPosix.Shell.Connected
import RustPosix.Shell.Draft
import RustPosix.Shell.Fuzzy
import RustPosix.Shell.Paste
import RustPosix.Shell.Remove
import RustPosix.Sync.SpinLock
import RustPosix.Userland.CopyData
import RustPosix.Vfs.PathLaws
import RustPosix.Vfs.PipeWriters
import RustPosix.Vfs.Readiness
