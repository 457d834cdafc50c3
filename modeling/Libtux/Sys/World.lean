import Libtux.Fd.Table
import Libtux.Proc.Setup

/-!
# What system calls work on

The state of a system call is the calling thread with its process, the heap of file objects, the threads
it started, and how many host calls were made. The host is a parameter (`HostOs`): the outcome of the
`n`-th call is arbitrary, so a statement for every `HostOs` is one for every host.

The accessors of `src/syscalls/syscalls.h` come next. Each of them says with an `ask` which range of
guest memory it was called for. An access to guest memory, or handing a range to a host call that reads
or writes it, is a `touch`. Return values are words, as `syshandle` returns them: an error is negative.
-/

namespace Libtux
open Lib

def TUX_EPERM : Nat := 1
def TUX_ENOENT : Nat := 2
def TUX_EBADF : Nat := 9
def TUX_EAGAIN : Nat := 11
def TUX_ENOMEM : Nat := 12
def TUX_EACCES : Nat := 13
def TUX_EFAULT : Nat := 14
def TUX_ENOTDIR : Nat := 20
def TUX_EINVAL : Nat := 22
def TUX_EMFILE : Nat := 24
def TUX_ENOSYS : Nat := 38

def TUX_PATH_MAX : Nat := 4096

def TUX_AT_FDCWD : CInt := -100
def TUX_AT_REMOVEDIR : CInt := 0x200
def TUX_AT_EMPTY_PATH : CInt := 0x1000

/-- The value of `-e`. -/
def negErr (e : Nat) : Word := -BitVec.ofNat 64 e

/-- The calls of the host, numbered in the order in which they are made. -/
structure HostOs where
  /-- The result, or `none` when the call fails. -/
  ret : Nat → Option Nat
  /-- The error number a failed call leaves. -/
  errno : Nat → Nat
  /-- The bytes the call stores in the memory it is given. -/
  data : Nat → Word → Byte
  /-- The answer of `host_isdir`. -/
  isdir : Nat → Bool
  /-- What becomes of a `filenew`. -/
  newfile : Nat → NewFile
  ret_lt : ∀ {n r}, ret n = some r → r < 2 ^ 63
  errno_pos : ∀ n, 0 < errno n
  errno_lt : ∀ n, errno n < 4096

/-- A thread that was started. -/
structure Spawned (M : Machine) where
  regs : M.Regs
  sys : Word
  tp : Word
  ctid : Word
  tid : CInt

/-- The futex calls of the host: the word, the operation as it was passed, and its operands. -/
inductive FutexCall where
  | wait (uaddr : Word) (op val : CInt) (timeout : Option Word)
  | wake (uaddr : Word) (op val : CInt)
  | requeue (uaddr : Word) (op val : CInt)
  deriving DecidableEq

/-- The state of a system call. -/
structure World (L : LibMMap) (M : Machine) where
  /-- The calling thread, with the address space and the heap of its process. -/
  p : TuxThread L M
  /-- The descriptors and the current directory of the process. -/
  fds : ProcFiles
  files : Files
  /-- The threads started so far, the last one first. -/
  started : List (Spawned M)
  /-- The counter of `nexttid`. -/
  nexttid : CInt
  /-- The futex calls made to the host, the last one first. -/
  futexes : List FutexCall
  ncall : Nat

/-- A system call. -/
abbrev Sys (L : LibMMap) (M : Machine) := Exec Stop Ev (World L M)

section
variable {L : LibMMap} {M : Machine} (O : HostOs)

/-- Run on the address space. -/
def onSpace {α : Type} (x : Vm L α) : Sys L M α :=
  Exec.zoom (·.p.as) (fun as w => { w with p := { w.p with as } }) x

/-- Guest memory. -/
def World.mem (w : World L M) : Word → Byte := w.p.as.mem

/-- The placement of the address space. -/
def World.info (w : World L M) : LFIAddrSpaceInfo := w.p.as.info

/-- The world with other memory. -/
def World.setMem (w : World L M) (mem : Word → Byte) : World L M :=
  { w with p := { w.p with as := { w.p.as with mem } } }

/-! ## Memory -/

/-- A range is accessed. -/
def touch (ptr : Word) (len : Nat) : Sys L M Unit := Exec.tell (.touch ⟨ptr, len⟩)

/-- A range is asked for. -/
def ask (ptr : Word) (len : Nat) : Sys L M Unit := Exec.tell (.ask ⟨ptr, len⟩)

/-- Store a 32-bit word in guest memory. -/
def store32 (ptr : Word) (v : CInt) : Sys L M Unit := do
  touch ptr 4
  Exec.modify fun w => w.setMem (splice w.mem ptr 4 (bytes64 (v.setWidth 64)))

/-- The 32-bit word at an address. -/
def World.word (w : World L M) (ptr : Word) : CInt := le w.mem ptr 4 32

/-- The four addresses of a 32-bit word. -/
def inWord (ptr x : Word) : Prop := x - ptr < 4

instance (ptr x : Word) : Decidable (inWord ptr x) := inferInstanceAs (Decidable (_ < _))

/-- A word of four bytes. -/
lemma le32_eq (f : Word → Byte) (ptr : Word) : le f ptr 4 32 = BitVec.ofNat 32
    ((f ptr).toNat + 256 * ((f (ptr + 1)).toNat + 256 * ((f (ptr + 1 + 1)).toNat +
      256 * (f (ptr + 1 + 1 + 1)).toNat))) := by
  simp only [le, leBytes, Nat.mul_zero, Nat.add_zero]

/-- What is stored is what is read. -/
lemma le32_splice (f : Word → Byte) (ptr : Word) (v : CInt) :
    le (splice f ptr 4 (bytes64 (v.setWidth 64))) ptr 4 32 = v := by
  have hbyte : ∀ {k : Nat} {x : Word}, k < 4 → x - ptr = BitVec.ofNat 64 k →
      (splice f ptr 4 (bytes64 (v.setWidth 64)) x).toNat = v.toNat / 2 ^ (8 * k) % 256 := by
    intro k x hk hx
    have hlt : x - ptr < 4 := by
      rw [hx]
      bv_omega
    have hknat : (BitVec.ofNat 64 k).toNat = k := by
      rw [BitVec.toNat_ofNat]
      exact Nat.mod_eq_of_lt (by omega)
    have hv : (v.setWidth 64).toNat = v.toNat := by
      rw [BitVec.toNat_setWidth]
      exact Nat.mod_eq_of_lt (lt_trans v.isLt (by decide))
    rw [splice_of_lt hlt, hx, bytes64, BitVec.toNat_setWidth, BitVec.toNat_ushiftRight, hknat, hv,
      Nat.shiftRight_eq_div_pow]
  have h0 := hbyte (k := 0) (x := ptr) (by omega) (by bv_omega)
  have h1 := hbyte (k := 1) (x := ptr + 1) (by omega) (by bv_omega)
  have h2 := hbyte (k := 2) (x := ptr + 1 + 1) (by omega) (by bv_omega)
  have h3 := hbyte (k := 3) (x := ptr + 1 + 1 + 1) (by omega) (by bv_omega)
  apply BitVec.eq_of_toNat_eq
  have := v.isLt
  rw [le32_eq, h0, h1, h2, h3, BitVec.toNat_ofNat]
  omega

/-- A word does not change unless one of its bytes does. -/
lemma le32_congr {f g : Word → Byte} {ptr : Word} (h : ∀ x, inWord ptr x → f x = g x) :
    le f ptr 4 32 = le g ptr 4 32 := by
  rw [le32_eq, le32_eq, h ptr (by unfold inWord; bv_omega), h (ptr + 1) (by unfold inWord; bv_omega),
    h (ptr + 1 + 1) (by unfold inWord; bv_omega), h (ptr + 1 + 1 + 1) (by unfold inWord; bv_omega)]

/-- Store bytes that the host provides in guest memory. -/
def World.fill (w : World L M) (ptr len : Word) : World L M :=
  w.setMem (splice w.mem ptr len (O.data w.ncall))

/-- `procaddr`: no check is made. -/
def procaddr (addr : Word) : Word := lfiAsValidptr addr

/-- `procbuf`, with `none` for a null pointer. The size is not looked at. -/
def procbuf (bufp size : Word) : Sys L M (Option Word) := do
  ask bufp size.toNat
  Exec.gets fun w => lfiAsFmptr w.info bufp

/-- `procbufalign`. -/
def procbufalign (bufp size : Word) (align : Nat) : Sys L M (Option Word) := do
  ask bufp size.toNat
  Exec.gets fun w =>
    match lfiAsFmptr w.info bufp with
    | none => none
    | some buf => if buf.toNat % align ≠ 0 then none else some buf

/-- The number of bytes before the first zero from `str` on, and `n` when there is none among the first
`n`. -/
def strnlenAt (mem : Word → Byte) (str : Word) : Nat → Nat
  | 0 => 0
  | n + 1 => if mem str = 0 then 0 else strnlenAt mem (str + 1) n + 1

/-- `procpath`. `strnlen` reads up to and including the zero, and then `str[len]` is read. -/
def procpath (pathp : Word) : Sys L M (Option Word) := do
  let w ← Exec.get
  match lfiAsFmptr w.info pathp with
  | none => pure none
  | some str =>
    let len := strnlenAt w.mem str TUX_PATH_MAX
    touch str (min (len + 1) TUX_PATH_MAX)
    if str + BitVec.ofNat 64 len ≥ w.info.maxaddr then pure none
    else
      touch (str + BitVec.ofNat 64 len) 1
      if w.mem (str + BitVec.ofNat 64 len) ≠ 0 then pure none else pure (some str)

/-! ## Host calls -/

/-- One host call, by what it returns. -/
def hostCall : Sys L M (Option Nat) := ⟨fun w =>
  ⟨.ok (O.ret w.ncall), { w with ncall := w.ncall + 1 }, []⟩⟩

/-- A host call that returns a size; on failure the wrapper returns `tuxerr(errno)`. -/
def hostSize : Sys L M Word := do
  let n ← Exec.gets (·.ncall)
  match ← hostCall O with
  | none => pure (BitVec.ofInt 64 (tuxerr (O.errno n)))
  | some r => pure (BitVec.ofNat 64 r)

/-- A host call whose wrapper returns `0` when it succeeds. -/
def hostInt : Sys L M Word := do
  let n ← Exec.gets (·.ncall)
  match ← hostCall O with
  | none => pure (BitVec.ofInt 64 (tuxerr (O.errno n)))
  | some _ => pure 0

/-- A host call that stores up to `len` bytes at `ptr` and returns how many (C `host_read`,
`host_getdents64`, `host_getrandom`, `host_readlinkat`). -/
def hostFill (ptr len : Word) : Sys L M Word := do
  touch ptr len.toNat
  let w ← Exec.get
  match O.ret w.ncall with
  | none => pure ()
  | some r => Exec.modify fun w => w.fill O ptr (BitVec.ofNat 64 (min r len.toNat))
  hostSize O

/-- `host_isdir`. -/
def hostIsdir : Sys L M Bool := ⟨fun w => ⟨.ok (O.isdir w.ncall), { w with ncall := w.ncall + 1 }, []⟩⟩

/-! ## Descriptors -/

/-- The file object of a descriptor (C `fdget`). -/
def World.fdfile (w : World L M) (fd : CInt) : Option FDFile :=
  (w.fds.fdtable.fdget fd).bind w.files.objs

/-- A syscall that runs one handler of a descriptor: `EBADF` without an object, `e` when the object has
no such handler. -/
def withHandler (fd : CInt) (op : FileOp) (e : Nat) (body : Sys L M Word) : Sys L M Word := do
  let w ← Exec.get
  match w.fdfile fd with
  | none => pure (negErr TUX_EBADF)
  | some f => if f.has op then body else pure (negErr e)

/-- `getfdir`, with what the callers make of the result: `none` is the directory they refuse, and
`some dir` the one they go on with, where no directory at all means that of the host process. -/
def getfdir (dirfd : CInt) : Sys L M (Option (Option HostFile)) := do
  let w ← Exec.get
  if dirfd = TUX_AT_FDCWD then pure (some w.fds.cwd.file)
  else
    match w.fdfile dirfd with
    | none => pure none
    | some f =>
      if f.has .file then
        if ← hostIsdir O then pure (some (some f.file)) else pure none
      else pure none

end

/-- A host on which every call returns `0`. -/
def HostOs.plain : HostOs where
  ret _ := some 0
  errno _ := 1
  data _ _ := 0
  isdir _ := false
  newfile _ := .ok
  ret_lt h := by
    cases h
    decide
  errno_pos _ := by decide
  errno_lt _ := by decide

/-- The state of the first thread of a process that has no files. -/
def World.ofThread {L : LibMMap} {M : Machine} (p : TuxThread L M) : World L M where
  p
  fds := ⟨.empty, ⟨none, none⟩⟩
  files := ⟨fun _ => none, 0, fun _ => false, 0, []⟩
  started := []
  nexttid := p.tid + 1
  futexes := []
  ncall := 0

end Libtux
