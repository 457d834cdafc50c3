import Libtux.Lib.Word
import Libtux.Lib.Bytes
import Libtux.Lib.Exec
import Libtux.Lib.Relate
import Libtux.Lib.Run
import Libtux.Lib.Steps
import Libtux.Lib.Locks
import Libtux.Align
import Libtux.Pal.Vm
import Libtux.Pal.Mapping
import Libtux.Pal.Calls
import Libtux.Pal.Ranges
import Libtux.Pal.Guard
import Libtux.Pal.Book
import Libtux.Elf.Image
import Libtux.Elf.Load
import Libtux.Elf.Segment
import Libtux.Elf.Faithful
import Libtux.Elf.Copy
import Libtux.Elf.Course
import Libtux.Arch.Regs
import Libtux.Proc.Setup
import Libtux.Proc.Layout
import Libtux.Proc.Entry
import Libtux.Proc.Stack
import Libtux.Proc.Alike
import Libtux.Proc.Args
import Libtux.Proc.Roundtrip
import Libtux.Proc.Refuse
import Libtux.Proc.Fatal
import Libtux.Proc.Reads
import Libtux.Fd.Table
import Libtux.Fd.Ownership
import Libtux.Fd.Tux
import Libtux.Fd.Threads
import Libtux.Fd.Lookup
import Libtux.Sys.World
import Libtux.Sys.File
import Libtux.Sys.Thread
import Libtux.Sys.Misc
import Libtux.Sys.Brk
import Libtux.Sys.Heap
import Libtux.Sys.Reserve
import Libtux.Sys.Break
import Libtux.Sys.Abort
import Libtux.Sys.Dispatch
import Libtux.Sys.Runs
import Libtux.Sys.Errno
import Libtux.Sys.Confine
import Libtux.Sys.Fail
import Libtux.Thread.Publish
import Libtux.Thread.Join
import Libtux.Thread.Sandbox
import Libtux.Sys.Clone
import Libtux.Thread.Requeue
import Libtux.Elf.Bias
import Libtux.Lib.Layout
import Libtux.Pal.Atomic
import Libtux.Pal.Release
import Libtux.Proc.Auxv
import Libtux.Proc.Interp
import Libtux.Sys.Getcwd
import Libtux.Sys.Mmap
import Libtux.Sys.Open
import Libtux.Sys.Pages
import Libtux.Sys.Stat
import Libtux.Sys.Truncate
import Libtux.Thread.Inherit
import Libtux.Lib.OpenFile
import Libtux.Lib.Prefix
import Libtux.Lib.Slots
import Libtux.Arch.Instr
import Libtux.Arch.Runtime
import Libtux.Elf.Round
import Libtux.Proc.Perf
import Libtux.Sys.Descriptors
import Libtux.Sys.Dirents
import Libtux.Sys.Flags
import Libtux.Sys.Pread
import Libtux.Sys.Vector
import Libtux.Thread.Positional
import Libtux.Lib.Trace
import Libtux.Sys.Frame
import Libtux.Pal.Local
import Libtux.Sys.Local
import Libtux.Pal.Window
import Libtux.Pal.Context
import Libtux.Proc.Window
import Libtux.Proc.Local
import Libtux.Sys.Window
import Libtux.Sys.Concurrent
import Libtux.Sys.System
import Libtux.Sys.Isolation
import Libtux.Sys.Shared
import Libtux.Sys.Noninterference
import Libtux.Arch.InstrArm
import Libtux.Arch.RuntimeArm
