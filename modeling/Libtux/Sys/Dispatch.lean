import Libtux.Sys.File
import Libtux.Sys.Misc
import Libtux.Sys.Thread

/-!
# Dispatching system calls

Model of `syshandle` (`src/sys.c`), built with `CONFIG_THREADS`, and of `arch_syshandle`
(`src/arch/*/sys.c`). A system call is named by a `Sysno`; the numbers of `src/arch/*/arch_sys.h` that
one of the two functions handles are in `Arch.numbers`. The x64 function handles some calls itself that
arm64 does not number, so one function on names serves both. Arguments are the six words the guest
passes, and each call cuts them down to the C types of its parameters. `strace` and the warnings print,
and are left out.
-/

namespace Libtux
open Lib

/-- The system calls that have a case. -/
inductive Sysno where
  | getpid | write | read | lseek | exit | exitGroup | brk | openat | close | writev | readv | pread64
  | mmap | mprotect | munmap | getdents64 | newfstatat | fstat | fchmod | truncate | ftruncate | fchown
  | fsync | chdir | fchdir | mkdirat | getrandom | getcwd | clockGettime | unlinkat | renameat
  | faccessat | readlinkat | ioctl | fcntl | gettid | futex | clone | setTidAddress | schedGetaffinity
  | schedSetaffinity | schedYield | rtSigaction | rtSigprocmask | rtSigreturn | uname | sysinfo
  | getrlimit | prctl | setRobustList | membarrier | statx | rseq | prlimit64 | statfs | getxattr
  | lgetxattr | socket | mremap | utimensat
  -- The cases of `arch_syshandle` on x64.
  | archPrctl | readlink | access | unlink | time | chown | chmod | rename | mkdir | open | stat | lstat
  deriving DecidableEq

/-- The architectures. -/
inductive Arch where
  | x64
  | arm64
  deriving DecidableEq

/-- The registers of an architecture. -/
def Arch.machine : Arch → Machine
  | .x64 => .x64
  | .arm64 => .arm64

/-- The words that the guest passes. -/
structure Args where
  a0 : Word
  a1 : Word
  a2 : Word
  a3 : Word
  a4 : Word
  a5 : Word

/-- The `int` that an argument becomes. -/
def toInt (a : Word) : CInt := a.setWidth 32

/-- The numbers that are handled. -/
def Arch.numbers : Arch → List (Word × Sysno)
  | .x64 =>
    [(0, .read), (1, .write), (2, .open), (3, .close), (4, .stat), (5, .fstat), (6, .lstat), (8, .lseek),
     (9, .mmap), (10, .mprotect), (11, .munmap), (12, .brk), (13, .rtSigaction), (14, .rtSigprocmask),
     (15, .rtSigreturn), (16, .ioctl), (17, .pread64), (19, .readv), (20, .writev), (21, .access),
     (24, .schedYield), (25, .mremap), (39, .getpid), (41, .socket), (56, .clone), (60, .exit),
     (63, .uname), (72, .fcntl), (74, .fsync), (76, .truncate), (77, .ftruncate), (79, .getcwd),
     (80, .chdir), (81, .fchdir), (82, .rename), (83, .mkdir), (87, .unlink), (89, .readlink),
     (90, .chmod), (91, .fchmod), (92, .chown), (93, .fchown), (97, .getrlimit), (99, .sysinfo),
     (137, .statfs), (157, .prctl), (158, .archPrctl), (186, .gettid), (191, .getxattr),
     (192, .lgetxattr), (201, .time), (202, .futex), (203, .schedSetaffinity), (204, .schedGetaffinity),
     (217, .getdents64), (218, .setTidAddress), (228, .clockGettime), (231, .exitGroup), (257, .openat),
     (258, .mkdirat), (262, .newfstatat), (263, .unlinkat), (264, .renameat), (267, .readlinkat),
     (269, .faccessat), (273, .setRobustList), (280, .utimensat), (302, .prlimit64), (318, .getrandom),
     (324, .membarrier), (332, .statx), (334, .rseq)]
  | .arm64 =>
    [(8, .getxattr), (9, .lgetxattr), (17, .getcwd), (25, .fcntl), (29, .ioctl), (34, .mkdirat),
     (35, .unlinkat), (38, .renameat), (43, .statfs), (45, .truncate), (46, .ftruncate),
     (48, .faccessat), (49, .chdir), (50, .fchdir), (52, .fchmod), (55, .fchown), (56, .openat),
     (57, .close), (61, .getdents64), (62, .lseek), (63, .read), (64, .write), (65, .readv),
     (66, .writev), (67, .pread64), (78, .readlinkat), (79, .newfstatat), (80, .fstat), (82, .fsync),
     (88, .utimensat), (93, .exit), (94, .exitGroup), (96, .setTidAddress), (98, .futex),
     (99, .setRobustList), (113, .clockGettime), (122, .schedSetaffinity), (123, .schedGetaffinity),
     (124, .schedYield), (134, .rtSigaction), (135, .rtSigprocmask), (139, .rtSigreturn), (160, .uname),
     (163, .getrlimit), (167, .prctl), (172, .getpid), (178, .gettid), (179, .sysinfo), (198, .socket),
     (214, .brk), (215, .munmap), (216, .mremap), (220, .clone), (222, .mmap), (226, .mprotect),
     (261, .prlimit64), (278, .getrandom), (283, .membarrier), (291, .statx), (293, .rseq)]

/-- The call that a number stands for. -/
def Arch.sysno (A : Arch) (n : Word) : Option Sysno := A.numbers.lookup n

section
variable {L : LibMMap} (H : HostVm) (O : HostOs) (opts : TuxOptions) (A : Arch)

/-- The body of a case of `syshandle`, or of `arch_syshandle` on x64. -/
def syscall (n : Sysno) (a : Args) : Sys L A.machine Word :=
  match n with
  | .getpid | .fcntl | .schedSetaffinity | .rtSigaction | .rtSigprocmask | .getrlimit | .setRobustList
  | .membarrier => pure 0
  | .statx | .rseq | .prlimit64 | .statfs | .getxattr | .lgetxattr | .socket | .mremap | .utimensat =>
    pure (negErr TUX_ENOSYS)
  | .write => sysWrite O (toInt a.a0) a.a1 a.a2
  | .read => sysRead O (toInt a.a0) a.a1 a.a2
  | .lseek => sysLseek O (toInt a.a0) (toInt a.a2)
  | .exit => sysExit O opts a.a0
  | .exitGroup => sysExitGroup opts a.a0
  | .brk => sysBrk H opts a.a0
  | .openat => sysOpenat O (toInt a.a0) a.a1
  | .close => sysClose (toInt a.a0)
  | .writev => sysWritev O (toInt a.a0) a.a1 a.a2
  | .readv => sysReadv O (toInt a.a0) a.a1 a.a2
  | .pread64 => sysPread64 O (toInt a.a0) a.a1 a.a2
  | .mmap => sysMmap H opts a.a0 a.a1 (toInt a.a2) (toInt a.a3) (toInt a.a4)
  | .mprotect => sysMprotect H a.a0 a.a1 (toInt a.a2)
  | .munmap => sysMunmap H a.a0 a.a1
  | .getdents64 => sysGetdents64 O (toInt a.a0) a.a1 a.a2
  | .newfstatat => sysNewfstatat O (toInt a.a0) a.a1 a.a2 (toInt a.a3)
  | .fstat => sysNewfstatat O (toInt a.a0) 0 a.a1 TUX_AT_EMPTY_PATH
  | .fchmod => sysFchmod O (toInt a.a0)
  | .truncate => sysTruncate O a.a0
  | .ftruncate => sysFtruncate O (toInt a.a0)
  | .fchown => sysFchown O (toInt a.a0)
  | .fsync => sysFsync O (toInt a.a0)
  | .chdir => sysChdir O a.a0
  | .fchdir => sysFchdir O (toInt a.a0)
  | .mkdirat => sysMkdirat O (toInt a.a0) a.a1
  | .getrandom => sysGetrandom O a.a0 a.a1 (toInt a.a2)
  | .getcwd => sysGetcwd O a.a0 a.a1
  | .clockGettime => sysClockGettime O (toInt a.a0) a.a1
  | .unlinkat => sysUnlinkat O (toInt a.a0) a.a1 (toInt a.a2)
  | .renameat => sysRenameat O (toInt a.a0) a.a1 (toInt a.a2) a.a3
  | .faccessat => sysFaccessat O (toInt a.a0) a.a1
  | .readlinkat => sysReadlinkat O (toInt a.a0) a.a1 a.a2 a.a3
  | .ioctl => sysIoctl O (toInt a.a0) a.a1 a.a2
  | .gettid => sysGettid
  | .futex => sysFutex O a.a0 (toInt a.a1) (toInt a.a2) a.a3
  | .clone =>
    -- The last two pointers are swapped on arm64.
    match A with
    | .x64 => sysClone O a.a0 a.a1 a.a2 a.a3 a.a4
    | .arm64 => sysClone O a.a0 a.a1 a.a2 a.a4 a.a3
  | .setTidAddress => sysSetTidAddress a.a0
  | .schedGetaffinity => sysSchedGetaffinity O a.a1 a.a2
  | .schedYield => sysSchedYield O
  | .rtSigreturn => sysRtSigreturn
  | .uname => sysUname a.a0
  | .sysinfo => sysSysinfo O a.a0
  | .prctl => sysPrctl O (toInt a.a0) a.a1
  | .archPrctl => sysArchPrctl (toInt a.a0) a.a1
  | .readlink => sysReadlink O a.a0 a.a1 a.a2
  | .access => sysAccess O a.a0
  | .unlink => sysUnlink O a.a0
  | .time => sysTime O a.a0
  | .chown => sysChown O a.a0
  | .chmod => sysChmod O a.a0
  | .rename => sysRename O a.a0 a.a1
  | .mkdir => sysMkdir O a.a0
  | .open => sysOpen O a.a0
  | .stat => sysStat O a.a0 a.a1
  | .lstat => sysLstat O a.a0 a.a1

/-- The number and the arguments of the call, as the guest leaves them in its registers. -/
def Arch.request : (A : Arch) → A.machine.Regs → Word × Args
  | .x64, (regs : X64.TuxRegs) => (regs.rax, ⟨regs.rdi, regs.rsi, regs.rdx, regs.r10, regs.r8, regs.r9⟩)
  | .arm64, (regs : Arm64.TuxRegs) => (regs.x 8, ⟨regs.x 0, regs.x 1, regs.x 2, regs.x 3, regs.x 4, regs.x 5⟩)

/-- `syshandle`, together with the cases of `arch_syshandle`. -/
def syshandle (n : Word) (a : Args) : Sys L A.machine Word :=
  match A.sysno n with
  | none => Exec.stop (.assertion .unhandledSyscall)
  | some n => syscall H O opts A n a

/-- `arch_syshandle`. -/
def archSyshandle : Sys L A.machine Unit := do
  let w ← Exec.get
  let r ← syshandle H O opts A (A.request w.p.regs).1 (A.request w.p.regs).2
  Exec.modify fun w => { w with p := { w.p with regs := A.machine.regsReturn w.p.regs r } }

end
end Libtux
