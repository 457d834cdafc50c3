import Libtux.Sys.World

/-!
# System calls on files

Model of `src/syscalls/sys_file.c` and `src/syscalls/sys_cwd.c`, with the wrappers of
`src/host/posix/file.c`, `src/host/linux/dir.c` and `src/host/linux/path.c` that they end in. What the
host does to its own files is not modelled; what it does to guest memory is.
-/

namespace Libtux
open Lib

section
variable {L : LibMMap} {M : Machine} (O : HostOs)

/-! ## Transfers -/

/-- `sys_write`. The buffer is handed to the host's `write`. -/
def sysWrite (fd : CInt) (bufp size : Word) : Sys L M Word :=
  if size = 0 then pure 0
  else withHandler fd .write TUX_EPERM do
    match ← procbuf bufp size with
    | none => pure (negErr TUX_EFAULT)
    | some buf =>
      touch buf size.toNat
      hostSize O

/-- `sys_read`. -/
def sysRead (fd : CInt) (bufp size : Word) : Sys L M Word :=
  if size = 0 then pure 0
  else withHandler fd .read TUX_EPERM do
    match ← procbuf bufp size with
    | none => pure (negErr TUX_EFAULT)
    | some buf => hostFill O buf size

/-- The loop of `sys_writev` and `sys_readv`, from entry `i` on. -/
def iovLoop (io : Word → Word → Sys L M Word) (iov : Word) : Nat → Nat → Word → Sys L M Word
  | 0, _, total => pure total
  | n + 1, i, total => do
    let entry := iov + BitVec.ofNat 64 (16 * i)
    touch entry 16
    let w ← Exec.get
    let r ← io (le w.mem entry 8 64) (le w.mem (entry + 8) 8 64)
    if r.msb then pure r else iovLoop io iov n (i + 1) (total + r)

/-- `sys_writev` and `sys_readv`. The array has `iovcnt` entries of 16 bytes, whatever the product is as
a `size_t`. -/
def sysIov (io : Word → Word → Sys L M Word) (iovp iovcnt : Word) : Sys L M Word := do
  ask iovp (iovcnt.toNat * 16)
  match ← procbufalign iovp (iovcnt * 16) 8 with
  | none => pure (negErr TUX_EFAULT)
  | some iov => iovLoop io iov iovcnt.toNat 0 0

/-- `sys_writev`. -/
def sysWritev (fd : CInt) (iovp iovcnt : Word) : Sys L M Word := sysIov (sysWrite O fd) iovp iovcnt

/-- `sys_readv`. -/
def sysReadv (fd : CInt) (iovp iovcnt : Word) : Sys L M Word := sysIov (sysRead O fd) iovp iovcnt

/-- `sys_pread64`: three seeks around a read. -/
def sysPread64 (fd : CInt) (bufp size : Word) : Sys L M Word :=
  withHandler fd .read TUX_EPERM <| withHandler fd .lseek TUX_EPERM do
    match ← procbuf bufp size with
    | none => pure (negErr TUX_EFAULT)
    | some buf =>
      let _ ← hostSize O
      let _ ← hostSize O
      let n ← hostFill O buf size
      let _ ← hostSize O
      pure n

/-- `sys_getdents64`. -/
def sysGetdents64 (fd : CInt) (dirp count : Word) : Sys L M Word :=
  withHandler fd .getdents TUX_EPERM do
    match ← procbufalign dirp count 8 with
    | none => pure (negErr TUX_EFAULT)
    | some buf => hostFill O buf count

/-! ## Descriptors -/

/-- `sys_lseek`. `seekwhence` refuses an unknown `whence` with an assertion. -/
def sysLseek (fd whence : CInt) : Sys L M Word :=
  withHandler fd .lseek TUX_EPERM do
    Exec.check (whence = 0 ∨ whence = 1 ∨ whence = 2) (.assertion .seekwhence)
    hostSize O

/-- `sys_ftruncate`, `sys_fchown`, `sys_fchmod` and `sys_fsync`: run a handler. -/
def sysHandler (op : FileOp) (fd : CInt) : Sys L M Word := withHandler fd op TUX_EPERM (hostInt O)

/-- `sys_ftruncate`. -/
def sysFtruncate (fd : CInt) : Sys L M Word := sysHandler O .truncate fd

/-- `sys_fchown`. -/
def sysFchown (fd : CInt) : Sys L M Word := sysHandler O .chown fd

/-- `sys_fchmod`. -/
def sysFchmod (fd : CInt) : Sys L M Word := sysHandler O .chmod fd

/-- `sys_fsync`. -/
def sysFsync (fd : CInt) : Sys L M Word := sysHandler O .sync fd

/-- `sys_close`. -/
def sysClose (fd : CInt) : Sys L M Word := do
  let w ← Exec.get
  Exec.modify fun w =>
    { w with fds := (w.fds.close w.files fd).1, files := (w.fds.close w.files fd).2 }
  if w.fds.fdtable.fdget fd = none then pure (negErr TUX_EBADF) else pure 0

/-! ## Paths -/

/-- A syscall that takes one path, and goes on with `body` when `procpath` accepts it. -/
def withPath (pathp : Word) (body : Word → Sys L M Word) : Sys L M Word := do
  match ← procpath pathp with
  | none => pure (negErr TUX_EFAULT)
  | some path => body path

/-- A syscall that looks up its directory first. -/
def withDir (dirfd : CInt) (body : Option HostFile → Sys L M Word) : Sys L M Word := do
  match ← getfdir O dirfd with
  | none => pure (negErr TUX_EBADF)
  | some dir => body dir

/-- `sys_openat`. -/
def sysOpenat (dirfd : CInt) (pathp : Word) : Sys L M Word :=
  withDir O dirfd fun _ => withPath pathp fun _ => do
    let w ← Exec.get
    let r := O.newfile w.ncall
    let o := w.fds.openat w.files r
    Exec.modify fun w => { w with fds := o.2.1, files := o.2.2, ncall := w.ncall + 1 }
    match o.1 with
    | some fd => pure (BitVec.ofNat 64 fd)
    | none => pure (negErr (if r = .ok then TUX_EMFILE else TUX_ENOENT))

/-- `sys_open`. -/
def sysOpen (pathp : Word) : Sys L M Word := sysOpenat O TUX_AT_FDCWD pathp

/-- `sys_newfstatat`. The structure is filled, from `st_dev` to `st_ctim`, when the host call
succeeds. -/
def sysNewfstatat (dirfd : CInt) (pathp statbufp : Word) (flags : CInt) : Sys L M Word := do
  match ← procbufalign statbufp (BitVec.ofNat 64 M.statSize) 8 with
  | none => pure (negErr TUX_EFAULT)
  | some stat =>
    let copystat : Sys L M Word := do
      let w ← Exec.get
      if (O.ret w.ncall).isSome then
        touch stat 120
        Exec.modify fun w => w.fill O stat 120
      hostInt O
    if flags &&& TUX_AT_EMPTY_PATH = 0 then
      withPath pathp fun _ => withDir O dirfd fun _ => copystat
    else withHandler dirfd .stat TUX_EACCES copystat

/-- `sys_fstat`. -/
def sysFstat (fd : CInt) (statbufp : Word) : Sys L M Word :=
  sysNewfstatat O fd 0 statbufp TUX_AT_EMPTY_PATH

/-- `sys_stat`. -/
def sysStat (pathp statbufp : Word) : Sys L M Word := sysNewfstatat O TUX_AT_FDCWD pathp statbufp 0

/-- `sys_lstat`. -/
def sysLstat (pathp statbufp : Word) : Sys L M Word := sysStat O pathp statbufp

/-- `sys_readlinkat`. The result goes through an `int`. -/
def sysReadlinkat (dirfd : CInt) (pathp bufp size : Word) : Sys L M Word :=
  withDir O dirfd fun _ => do
    let path ← procpath pathp
    let buf ← procbuf bufp size
    match path, buf with
    | some _, some buf =>
      let n ← Exec.gets (·.ncall)
      let r ← hostFill O buf size
      let r : CInt := r.setWidth 32
      if r.msb then pure (negErr (O.errno n)) else pure (r.setWidth 64)
    | _, _ => pure (negErr TUX_EFAULT)

/-- `sys_readlink`. -/
def sysReadlink (pathp bufp size : Word) : Sys L M Word := sysReadlinkat O TUX_AT_FDCWD pathp bufp size

/-- `sys_truncate`. A relative path is joined to the current directory, which `host_getpath` stores
outside of guest memory. -/
def sysTruncate (pathp : Word) : Sys L M Word :=
  withPath pathp fun path => do
    let w ← Exec.get
    if w.mem path ≠ 0x2f then
      let r ← hostInt O
      if r.msb then pure r else hostInt O
    else hostInt O

/-- `sys_chown` and `sys_chmod`: a path below the current directory. -/
def sysChown (pathp : Word) : Sys L M Word := withPath pathp fun _ => hostInt O

/-- `sys_chmod`. -/
def sysChmod (pathp : Word) : Sys L M Word := withPath pathp fun _ => hostInt O

/-- `sys_unlinkat`. -/
def sysUnlinkat (dirfd : CInt) (pathp : Word) (flags : CInt) : Sys L M Word :=
  withDir O dirfd fun _ =>
    if flags ≠ 0 ∧ flags ≠ TUX_AT_REMOVEDIR then pure (negErr TUX_EINVAL)
    else withPath pathp fun _ => hostInt O

/-- `sys_unlink`. -/
def sysUnlink (pathp : Word) : Sys L M Word := sysUnlinkat O TUX_AT_FDCWD pathp 0

/-- `sys_renameat`. Both directories are looked up, and then both paths, before anything is refused. -/
def sysRenameat (olddir : CInt) (oldpathp : Word) (newdir : CInt) (newpathp : Word) : Sys L M Word := do
  let oldf ← getfdir O olddir
  let newf ← getfdir O newdir
  match oldf, newf with
  | some _, some _ =>
    let oldpath ← procpath oldpathp
    let newpath ← procpath newpathp
    match oldpath, newpath with
    | some _, some _ => hostInt O
    | _, _ => pure (negErr TUX_EFAULT)
  | _, _ => pure (negErr TUX_EBADF)

/-- `sys_rename`. -/
def sysRename (oldpathp newpathp : Word) : Sys L M Word :=
  sysRenameat O TUX_AT_FDCWD oldpathp TUX_AT_FDCWD newpathp

/-- `sys_faccessat2`. -/
def sysFaccessat2 (dirfd : CInt) (pathp : Word) (flags : CInt) : Sys L M Word :=
  withDir O dirfd fun _ =>
    if flags ≠ 0 then pure (negErr TUX_EINVAL) else withPath pathp fun _ => hostInt O

/-- `sys_faccessat`. -/
def sysFaccessat (dirfd : CInt) (pathp : Word) : Sys L M Word := sysFaccessat2 O dirfd pathp 0

/-- `sys_access`. -/
def sysAccess (pathp : Word) : Sys L M Word := sysFaccessat2 O TUX_AT_FDCWD pathp 0

/-- `sys_mkdirat`. -/
def sysMkdirat (dirfd : CInt) (pathp : Word) : Sys L M Word :=
  withDir O dirfd fun _ => withPath pathp fun _ => hostInt O

/-- `sys_mkdir`. -/
def sysMkdir (pathp : Word) : Sys L M Word := sysMkdirat O TUX_AT_FDCWD pathp

/-! ## The current directory -/

/-- `host_getpath` into guest memory: `getcwd` or `readlink` fills the buffer, the link with room for
the zero that follows it. -/
def hostGetpath (dir : Option HostFile) (buf size : Word) : Sys L M Word := do
  let w ← Exec.get
  match dir with
  | none =>
    touch buf size.toNat
    if (O.ret w.ncall).isSome then Exec.modify fun w => w.fill O buf size
  | some _ =>
    touch buf (size - 1).toNat
    match O.ret w.ncall with
    | none => pure ()
    | some r =>
      let r := BitVec.ofNat 64 (min r (size - 1).toNat)
      Exec.modify fun w => w.fill O buf r
      touch (buf + r) 1
      Exec.modify fun w => w.setMem (splice w.mem (buf + r) 1 fun _ => 0)
  hostInt O

/-- `sys_getcwd`. -/
def sysGetcwd (bufp size : Word) : Sys L M Word :=
  if size = 0 then pure 0
  else do
    match ← procbuf bufp size with
    | none => pure (negErr TUX_EFAULT)
    | some buf =>
      let size := if size.toNat < TUX_PATH_MAX then size else BitVec.ofNat 64 TUX_PATH_MAX
      let w ← Exec.get
      let r ← hostGetpath O w.fds.cwd.file buf size
      if r.msb then pure 0
      else
        touch (buf + size - 1) 1
        Exec.modify fun w => w.setMem (splice w.mem (buf + size - 1) 1 fun _ => 0)
        pure buf

/-- `sys_chdir`. -/
def sysChdir (pathp : Word) : Sys L M Word :=
  withPath pathp fun _ => do
    let w ← Exec.get
    let o := w.fds.chdir w.files (O.ret w.ncall).isSome
    Exec.modify fun w => { w with fds := o.1, files := o.2, ncall := w.ncall + 1 }
    pure 0

/-- `sys_fchdir`. -/
def sysFchdir (fd : CInt) : Sys L M Word :=
  withHandler fd .file TUX_EACCES do
    let isdir ← hostIsdir O
    if isdir then
      Exec.modify fun w =>
        { w with fds := (w.fds.fchdir w.files fd true).1, files := (w.fds.fchdir w.files fd true).2 }
      pure 0
    else pure (negErr TUX_ENOTDIR)

end
end Libtux
