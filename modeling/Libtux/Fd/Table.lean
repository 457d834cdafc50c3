import Libtux.Pal.Vm

/-!
# File objects and descriptor tables

Model of `src/fd.c`, of `filefnew` and `filenew` in `src/file.c`, and of what `src/host/posix/file.c`
does to host handles. A file object (C `struct FDFile`) is known by its address in a heap; an address is
never used twice, so a dangling pointer is an address that is no longer allocated. Host handles
(C `struct HostFile*`) are numbered in the order in which they are opened, after the three standard
ones.

The heap remembers for which objects the close handler ran, in that order. `malloc` and the host may
fail at any call; the outcome is an argument.
-/

namespace Libtux
open Lib

abbrev TUX_NOFILE : Nat := 128

/-- The operations of a file object. -/
inductive FileOp where
  | read
  | write
  | lseek
  | close
  | stat
  | getdents
  | chown
  | chmod
  | truncate
  | sync
  | file
  deriving DecidableEq

/-- A file object (C `struct FDFile`): the host file behind `dev`, the reference count, and which of the
handlers are not null. -/
structure FDFile where
  file : HostFile
  refs : Word
  has : FileOp → Bool

/-- The address of a file object. -/
abbrev FileRef := Nat

/-- The heap of file objects and the host's handles. -/
structure Files where
  objs : FileRef → Option FDFile
  nobj : FileRef
  isOpen : HostFile → Bool
  nhandle : HostFile
  /-- The objects whose close handler ran. -/
  closed : List FileRef

/-- C `struct FDTable`. -/
structure FDTable where
  files : Fin TUX_NOFILE → Option FileRef

/-- The current directory (C `struct Dir`): a handle of its own, or the one of a file object. -/
structure Dir where
  file : Option HostFile
  fd : Option FileRef

namespace Files

/-- `host_openat` that succeeds: a fresh handle. -/
def hostOpen (s : Files) : Files :=
  { s with isOpen := Function.update s.isOpen s.nhandle true, nhandle := s.nhandle + 1 }

/-- `host_close`. -/
def hostClose (s : Files) (h : HostFile) : Files :=
  { s with isOpen := Function.update s.isOpen h false }

/-- `filefnew`, when its allocations succeed: a new object with all handlers, held by nobody. -/
def filefnew (s : Files) (file : HostFile) : Files :=
  { s with
    objs := Function.update s.objs s.nobj (some ⟨file, 0, fun _ => true⟩)
    nobj := s.nobj + 1 }

/-- Count one more reference. -/
def addref (s : Files) (f : FileRef) : Files :=
  { s with objs := Function.update s.objs f ((s.objs f).map fun o => { o with refs := o.refs + 1 }) }

/-- Run the close handler, if there is one (C `fileclose`). -/
def close (s : Files) (f : FileRef) (o : FDFile) : Files :=
  if o.has .close then { s.hostClose o.file with closed := s.closed ++ [f] } else s

/-- `fdrelease`. -/
def fdrelease (s : Files) (f : FileRef) : Files :=
  match s.objs f with
  | none => s
  | some o =>
    let refs := o.refs - 1
    if refs = 0 then
      let s := s.close f o
      { s with objs := Function.update s.objs f none }
    else { s with objs := Function.update s.objs f (some { o with refs }) }

end Files

/-- What becomes of a `filenew`: no host file, no memory for the object of the host file that was
opened, or an object. -/
inductive NewFile where
  | nofile
  | nomem
  | ok
  deriving DecidableEq

/-- `filenew`: the object, or `none` for a null pointer. A host file that gets no object stays open. -/
def filenew (s : Files) : NewFile → Files × Option FileRef
  | .nofile => (s, none)
  | .nomem => (s.hostOpen, none)
  | .ok => (s.hostOpen.filefnew s.nhandle, some s.nobj)

namespace FDTable

/-- `fdassign`. -/
def fdassign (t : FDTable) (s : Files) (fd : Fin TUX_NOFILE) (ff : FileRef) : FDTable × Files :=
  (⟨Function.update t.files fd (some ff)⟩, s.addref ff)

/-- `fdalloc`: the lowest free slot, or `none` for `-1`. -/
def fdalloc (t : FDTable) : Option (Fin TUX_NOFILE) :=
  (List.finRange TUX_NOFILE).find? fun i => (t.files i).isNone

/-- The slot of a descriptor in range (the first two tests of C `fdhas_x`). -/
def slot (fd : CInt) : Option (Fin TUX_NOFILE) :=
  if h : fd.toNat < TUX_NOFILE then some ⟨fd.toNat, h⟩ else none

/-- `fdget`. -/
def fdget (t : FDTable) (fd : CInt) : Option FileRef := (slot fd).bind t.files

/-- `fdremove_x`, for a slot. -/
def fdremoveSlot (t : FDTable) (s : Files) (fd : Fin TUX_NOFILE) : FDTable × Files :=
  match t.files fd with
  | none => (t, s)
  | some f => (⟨Function.update t.files fd none⟩, s.fdrelease f)

/-- `fdremove`: the result says whether the descriptor was open. -/
def fdremove (t : FDTable) (s : Files) (fd : CInt) : Bool × FDTable × Files :=
  match slot fd with
  | none => (false, t, s)
  | some i => ((t.files i).isSome, t.fdremoveSlot s i)

/-- The loop of `fdclear`. -/
def fdclearFrom : List (Fin TUX_NOFILE) → FDTable → Files → FDTable × Files
  | [], t, s => (t, s)
  | fd :: fds, t, s => fdclearFrom fds (t.fdremoveSlot s fd).1 (t.fdremoveSlot s fd).2

/-- `fdclear`. -/
def fdclear (t : FDTable) (s : Files) : FDTable × Files := fdclearFrom (List.finRange TUX_NOFILE) t s

/-- A table as `calloc` leaves it. -/
def empty : FDTable := ⟨fun _ => none⟩

/-- `fdinit`. -/
def fdinit (s : Files) (fstdin fstdout fstderr : FileRef) : FDTable × Files :=
  let (t, s) := empty.fdassign s 0 fstdin
  let (t, s) := t.fdassign s 1 fstdout
  t.fdassign s 2 fstderr

end FDTable

/-- A process, as far as files go. -/
structure ProcFiles where
  fdtable : FDTable
  cwd : Dir

namespace ProcFiles

/-- Give up the current directory (the middle of C `sys_chdir` and `sys_fchdir`). -/
def leave (p : ProcFiles) (s : Files) : ProcFiles × Files :=
  match p.cwd.fd, p.cwd.file with
  | some f, _ => ({ p with cwd := { p.cwd with fd := none } }, s.fdrelease f)
  | none, some h => (p, s.hostClose h)
  | none, none => (p, s)

/-- `sys_chdir`, once the path is accepted. The directory is opened first; when that fails there is no
current directory any more. -/
def chdir (p : ProcFiles) (s : Files) (opened : Bool) : ProcFiles × Files :=
  let s' := if opened then s.hostOpen else s
  let (p, s') := p.leave s'
  ({ p with cwd := { p.cwd with file := if opened then some s.nhandle else none } }, s')

/-- `sys_fchdir`, past its checks, for the object `f` with handle `file`. -/
def fchdirTo (p : ProcFiles) (s : Files) (f : FileRef) (file : HostFile) : ProcFiles × Files :=
  let (p, s) := p.leave s
  ({ p with cwd := ⟨some file, some f⟩ }, s.addref f)

/-- The host file behind a descriptor that has the `file` handler. -/
def fileOf (p : ProcFiles) (s : Files) (fd : CInt) : Option (FileRef × HostFile) := do
  let f ← p.fdtable.fdget fd
  let o ← s.objs f
  if o.has .file then pure (f, o.file) else none

/-- `sys_fchdir`. -/
def fchdir (p : ProcFiles) (s : Files) (fd : CInt) (isdir : Bool) : ProcFiles × Files :=
  match p.fileOf s fd with
  | none => (p, s)
  | some (f, file) => if isdir then p.fchdirTo s f file else (p, s)

/-- `sys_openat`, once directory and path are accepted. The result is the descriptor; a new object that
gets no descriptor is released. -/
def openat (p : ProcFiles) (s : Files) (r : NewFile) : Option (Fin TUX_NOFILE) × ProcFiles × Files :=
  match filenew s r with
  | (s, none) => (none, p, s)
  | (s, some f) =>
    match p.fdtable.fdalloc with
    | none => (none, p, s.fdrelease f)
    | some fd =>
      let (t, s) := p.fdtable.fdassign s fd f
      (some fd, { p with fdtable := t }, s)

/-- `fdclear` on the table of the process. -/
def clear (p : ProcFiles) (s : Files) : ProcFiles × Files :=
  ({ p with fdtable := (p.fdtable.fdclear s).1 }, (p.fdtable.fdclear s).2)

/-- `sys_close`. -/
def close (p : ProcFiles) (s : Files) (fd : CInt) : ProcFiles × Files :=
  let (_, t, s) := p.fdtable.fdremove s fd
  ({ p with fdtable := t }, s)

end ProcFiles
end Libtux
