import Libtux.Sys.World

/-!
# The other system calls

Model of `src/syscalls/sys_clock.c`, `sys_info.c`, `sys_ioctl.c`, `sys_prctl.c`, `sys_random.c`,
`sys_signal.c`, `sys_fcntl.c` and `sys_mem.c`, with `procmapany` and `procmapat` (`src/proc.c`), and of
`sys_arch_prctl` (`src/arch/x64/sys.c`).
-/

namespace Libtux
open Lib

section
variable {L : LibMMap} {M : Machine} (H : HostVm) (O : HostOs) (opts : TuxOptions)

/-- Fill a structure of `len` bytes of guest memory with what the host call before it returned. -/
def fillStruct (ptr : Word) (len : Nat) : Sys L M Unit := do
  touch ptr len
  Exec.modify fun w => w.fill O ptr (BitVec.ofNat 64 len)

/-! ## Clock -/

/-- `sys_clock_gettime`. -/
def sysClockGettime (clockid : CInt) (tp : Word) : Sys L M Word :=
  if clockid ≠ 0 ∧ clockid ≠ 1 then pure (negErr TUX_EINVAL)
  else do
    match ← procbufalign tp 16 8 with
    | none => pure (negErr TUX_EFAULT)
    | some t =>
      let n ← Exec.gets (·.ncall)
      match ← hostCall O with
      | none => pure (negErr (O.errno n))
      | some _ =>
        fillStruct O t 16
        pure 0

/-- `sys_time`. -/
def sysTime (tlocp : Word) : Sys L M Word :=
  if tlocp ≠ 0 then pure (negErr TUX_EINVAL) else hostSize O

/-! ## Information -/

/-- `UTSNAME_LENGTH`. -/
def UTSNAME_LENGTH : Nat := 65

/-- Copy a string with its zero to guest memory (C `strcpy`). -/
def strcpyTo (ptr : Word) (s : List Byte) : Sys L M Unit := do
  touch ptr (s.length + 1)
  Exec.modify fun w => w.setMem
    (splice w.mem ptr (BitVec.ofNat 64 (s.length + 1)) fun k => s.getD k.toNat 0)

/-- The bytes of a string of ASCII characters. -/
def ascii (s : String) : List Byte := s.toList.map fun c => BitVec.ofNat 8 c.toNat

/-- `LINUX_VERSION` and the name of the emulator. -/
def UTS_RELEASE : String := "4.5.0-libtux"

/-- `sys_uname`. -/
def sysUname (bufp : Word) : Sys L M Word := do
  match ← procbufalign bufp (BitVec.ofNat 64 (5 * UTSNAME_LENGTH)) 1 with
  | none => pure (negErr TUX_EFAULT)
  | some uts =>
    strcpyTo uts (ascii "Linux")
    strcpyTo (uts + BitVec.ofNat 64 (2 * UTSNAME_LENGTH)) (ascii UTS_RELEASE)
    strcpyTo (uts + BitVec.ofNat 64 (3 * UTSNAME_LENGTH)) (ascii "0.0.0-unknown")
    strcpyTo (uts + BitVec.ofNat 64 (4 * UTSNAME_LENGTH)) (ascii "x86_64")
    pure 0

/-- `sizeof(struct SysInfo)`. -/
def sysinfoSize : Nat := 368

/-- `sys_sysinfo`. -/
def sysSysinfo (infop : Word) : Sys L M Word := do
  match ← procbufalign infop (BitVec.ofNat 64 sysinfoSize) 8 with
  | none => pure (negErr TUX_EFAULT)
  | some info =>
    let n ← Exec.gets (·.ncall)
    match ← hostCall O with
    | none => pure (BitVec.ofInt 64 (tuxerr (O.errno n)))
    | some _ =>
      fillStruct O info sysinfoSize
      pure 0

def TUX_TIOCGWINSZ : Word := 0x5413

/-- `sys_ioctl`. -/
def sysIoctl (fd : CInt) (request va0 : Word) : Sys L M Word :=
  if fd ≠ 0 ∧ fd ≠ 1 ∧ fd ≠ 2 then pure (negErr TUX_EINVAL)
  else if request ≠ TUX_TIOCGWINSZ then pure (negErr TUX_EINVAL)
  else do
    match ← procbufalign va0 8 2 with
    | none => pure (negErr TUX_EFAULT)
    | some ws =>
      let n ← Exec.gets (·.ncall)
      match ← hostCall O with
      | none => pure (negErr (O.errno n))
      | some _ =>
        fillStruct O ws 8
        pure 0

def TUX_PR_SET_NAME : CInt := 15

/-- `sys_prctl`. The name is handed to the host's `prctl`. -/
def sysPrctl (op : CInt) (arg2 : Word) : Sys L M Word :=
  if op = TUX_PR_SET_NAME then do
    match ← procbuf arg2 16 with
    | none => pure (negErr TUX_EFAULT)
    | some name =>
      touch name 16
      hostInt O
  else pure (negErr TUX_EINVAL)

/-- `sys_getrandom`. -/
def sysGetrandom (bufp buflen : Word) (flags : CInt) : Sys L M Word := do
  match ← procbuf bufp buflen with
  | none => pure (negErr TUX_EINVAL)
  | some buf => if flags &&& ~~~3 ≠ 0 then pure (negErr TUX_EINVAL) else hostFill O buf buflen

/-- `sys_rt_sigreturn`. -/
def sysRtSigreturn : Sys L M Word := Exec.stop (.assertion .rtSigreturn)

/-- `sys_arch_prctl`. -/
def sysArchPrctl (code : CInt) (addr : Word) : Sys L M Word :=
  if code = 0x1002 then do
    Exec.modify fun w => { w with p := { w.p with tp := procaddr addr } }
    pure 0
  else pure (negErr TUX_EINVAL)

/-! ## Memory -/

/-- The host file of a mapping: none for a negative descriptor, an error for a descriptor without one. -/
def mapfile (fd : CInt) : Sys L M (Except Word (Option HostFile)) := do
  let w ← Exec.get
  if fd.msb then pure (.ok none)
  else
    match w.fdfile fd with
    | none => pure (.error (negErr TUX_EBADF))
    | some f => if f.has .file then pure (.ok (some f.file)) else pure (.error (negErr TUX_EACCES))

/-- `procmapany`, with the address of the mapping as the result. -/
def procmapany (size : Word) (prot fd : CInt) : Sys L M Word := do
  match ← mapfile fd with
  | .error e => pure e
  | .ok hf =>
    let addr ← onSpace (lfiAsMapany H size prot hf)
    if addr = mapFailed then pure (negErr TUX_EINVAL) else pure addr

/-- `procmapat`, with the address of the mapping as the result. -/
def procmapat (start size : Word) (prot fd : CInt) : Sys L M Word := do
  match ← mapfile fd with
  | .error e => pure e
  | .ok hf =>
    let addr ← onSpace (lfiAsMapat H start size prot hf)
    if addr = mapFailed then pure (negErr TUX_EINVAL) else pure start

/-- The flags that `sys_mmap` knows. -/
def mmapLegal : CInt :=
  LFI_MAP_ANONYMOUS ||| LFI_MAP_PRIVATE ||| LFI_MAP_NORESERVE ||| LFI_MAP_DENYWRITE ||| LFI_MAP_FIXED

/-- `sys_mmap`. -/
def sysMmap (addrup length : Word) (prot flags fd : CInt) : Sys L M Word :=
  if length = 0 then pure (negErr TUX_EINVAL)
  else
    let length := ceilp length opts.pagesize
    if flags &&& ~~~mmapLegal ≠ 0 then pure (negErr TUX_EINVAL)
    else if flags &&& LFI_MAP_FIXED ≠ 0 then
      procmapat H (procaddr (truncp addrup opts.pagesize)) length prot fd
    else procmapany H length prot fd

/-- `sys_mprotect`. -/
def sysMprotect (addrup length : Word) (prot : CInt) : Sys L M Word := do
  let r ← onSpace (lfiAsMprotect H (procaddr addrup) length prot)
  pure (BitVec.ofInt 64 r)

/-- `sys_munmap`. -/
def sysMunmap (addrup length : Word) : Sys L M Word := do
  let r ← onSpace (lfiAsMunmap H (procaddr addrup) length)
  pure (BitVec.ofInt 64 r)

/-- Set the break (the end of `sys_brk`). -/
def setbrk (newsize : Word) : Sys L M Word := do
  Exec.modify fun w => { w with p := { w.p with brksize := newsize } }
  Exec.gets fun w => w.p.brkbase + w.p.brksize

/-- The break that `sys_brk(addr)` aims at, after its two clamps. -/
def brkTo (p : TuxThread L M) (addr : Word) : Word :=
  let brkp := if addr ≠ 0 then procaddr addr else p.brkbase + p.brksize
  let brkp := if brkp < p.brkbase then p.brkbase else brkp
  if brkp ≥ p.brkbase + TUX_BRKMAXSIZE then p.brkbase + TUX_BRKMAXSIZE else brkp

/-- The size of the heap at that break. -/
def brkSize (p : TuxThread L M) (addr : Word) : Word := brkTo p addr - p.brkbase

/-- The call of `lfi_as_mapat` with which `sys_brk` grows the heap to `newsize`. -/
def brkMap (p : TuxThread L M) (newsize : Word) : Vm L Word :=
  let prot := LFI_PROT_READ ||| LFI_PROT_WRITE
  if p.brksize = 0 then lfiAsMapat H p.brkbase newsize prot none
  else lfiAsMapat H (ceilp (p.brkbase + p.brksize) opts.pagesize) (newsize - p.brksize) prot none

/-- `sys_brk`. -/
def sysBrk (addr : Word) : Sys L M Word := do
  let p ← Exec.gets World.p
  Exec.check (brkSize p addr < TUX_BRKMAXSIZE) (.assertion .brkNewsize)
  if brkSize p addr = p.brksize then pure (brkTo p addr)
  else if brkTo p addr ≥ p.brkbase + p.brksize then
    let map ← onSpace (brkMap H opts p (brkSize p addr))
    if map = mapFailed then pure (-1) else setbrk (brkSize p addr)
  else setbrk (brkSize p addr)

end
end Libtux
