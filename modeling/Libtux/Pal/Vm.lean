import Libtux.Align
import Libtux.Lib.Exec

/-!
# Address spaces

Model of `src/pal/vm.c`, with what it calls of `src/host/posix/file.c` (`host_mmap`,
`host_mprotect`) and `src/host/error.h` (`tuxerr`).

Two libraries outside the repository are parameters. `LibMMap` is libmmap's record of the mapped
ranges: `mm_mapat_cb`, `mm_mapany` and `mm_unmap_cb` over a table, with the one law the model relies
on, that a fixed mapping calls back only on pieces of its own range. `HostVm` is the host's answer to
each `mmap` and `mprotect`, numbered in the order in which the calls are made, so that a run over
every `HostVm` is a run over every host outcome; its laws are those of a fixed `mmap`, which refuses
an unaligned address, before it does anything, and a range that reaches the top of memory. A call
that the host refuses need not leave its range as it was: a fixed `mmap` may have removed what it was
to replace, and an `mprotect` may have changed a part of its pages. libboxmap only contributes the
base of a new address space, which is why `LFIAddrSpaceInfo` carries what its options ask for.

Memory is one function from addresses to bytes and one to the protection in force there. A host call
acts on whole pages (`covers`). Events are emitted for the calls the layout results talk about.
-/

namespace Libtux
open Lib

/-- A range of guest addresses. -/
structure Range where
  ptr : Word
  len : Nat
  deriving DecidableEq

/-- The assertions of the source that a run can fail. -/
inductive Assert where
  | mapatRange
  | mprotectRange
  | cbunmap
  | toptr
  | loadelfHeader
  | brkNewsize
  | seekwhence
  | fstatatFlags
  | fork
  | freeMachine
  | rtSigreturn
  | unhandledSyscall
  | unreachable
  deriving DecidableEq

/-- Why a run did not return to its caller. `undefined` is an access outside an array of the host, or to
memory that is never mapped, and `fault` a copy that met memory which is not open to it. -/
inductive Stop where
  | assertion (a : Assert)
  | undefined
  | fault
  | exit (code : Word)
  | pause (code : Word)
  deriving DecidableEq

/-- What a run does that the results are about. `ask` is a range of guest memory that a system call was
given, `touch` an access to one, by the emulator or by a host call it is handed to; `mapat` is a call
of `lfi_as_mapat`, `munmap` a call of `lfi_as_munmap` that went past its guard, and `segcopy` the copy
of `count` bytes to `dst` made for a segment mapped at `[lo, hi)`. -/
inductive Ev where
  | ask (r : Range)
  | touch (r : Range)
  | mapat (addr size : Word)
  | munmap (addr size : Word)
  | segcopy (lo hi dst count : Word)
  deriving DecidableEq

/-! ## The host -/

/-- Error numbers become the guest's (C `tuxerr`). The callers pass `errno` itself, which is positive,
so the first branch is the one they take. -/
def tuxerr (err : Int) : Int :=
  if err ≥ 0 then err
  else if err = -38 then -38
  else -22

/-- The host's memory calls. The outcome of the `n`-th call of each kind may depend on its operands. -/
structure HostVm where
  /-- The page size of the host. -/
  pagesize : Word
  /-- Does this `mmap` succeed? -/
  mmap : Nat → Word → Word → Bool
  /-- Has this `mmap`, if it is refused, removed what was at an address of its range? -/
  removed : Nat → Word → Word → Word → Bool
  /-- Does this `mprotect` succeed? -/
  mprotect : Nat → Word → Word → Bool
  /-- Has this `mprotect`, if it is refused, changed an address of its range? -/
  changed : Nat → Word → Word → Word → Bool
  /-- Does an allocation of this size succeed? -/
  malloc : Nat → Word → Bool
  /-- The error number a failed call leaves. -/
  errno : Nat → Nat
  /-- What a mapping of a file shows. -/
  file : Nat → Word → Byte
  pagesize_pos : 0 < pagesize.toNat
  mmap_aligned : ∀ {n addr len}, mmap n addr len = true → pagesize.toNat ∣ addr.toNat
  mmap_top : ∀ {n addr len}, mmap n addr len = true → addr.toNat + len.toNat < 2 ^ 64
  removed_aligned : ∀ {n addr len x}, removed n addr len x = true → pagesize.toNat ∣ addr.toNat
  errno_pos : ∀ n, 0 < errno n

/-- The `n`-th `mprotect` changes the protection of `x`: all of its range if it succeeds, else a part. -/
def HostVm.protects (H : HostVm) (n : Nat) (addr len x : Word) : Bool :=
  H.mprotect n addr len || H.changed n addr len x

/-- libmmap: the table of recorded ranges. A fixed mapping returns the table that records it and the
pieces of older records it replaced, an unmapping the pieces it removed. -/
structure LibMMap where
  Table : Type
  mapat : Table → Word → Word → Option (Table × List (Word × Word))
  mapany : Table → Word → Option (Table × Word)
  unmap : Table → Word → Word → Option (Table × List (Word × Word))
  mapat_piece : ∀ {t t' addr size ps b n}, mapat t addr size = some (t', ps) → (b, n) ∈ ps →
    addr.toNat ≤ b.toNat ∧ b.toNat + n.toNat ≤ addr.toNat + size.toNat

/-- `(lfiptr_t) -1`, the answer of a mapping call that failed. -/
def mapFailed : Word := -1

/-- A host file, by its identity (C `struct HostFile*`). -/
abbrev HostFile := Nat

def LFI_PROT_NONE : CInt := 0
def LFI_PROT_READ : CInt := 1
def LFI_PROT_WRITE : CInt := 2
def LFI_PROT_EXEC : CInt := 4

def LFI_MAP_PRIVATE : CInt := 2
def LFI_MAP_FIXED : CInt := 16
def LFI_MAP_ANONYMOUS : CInt := 32
def LFI_MAP_DENYWRITE : CInt := 2048
def LFI_MAP_NORESERVE : CInt := 16384

/-- The host's protection bits, `PROT_READ`, `PROT_WRITE` and `PROT_EXEC` (C `mmapprot`). -/
def mmapprot (prot : CInt) : CInt :=
  (if prot &&& LFI_PROT_READ ≠ 0 then 1 else 0) |||
  (if prot &&& LFI_PROT_WRITE ≠ 0 then 2 else 0) |||
  (if prot &&& LFI_PROT_EXEC ≠ 0 then 4 else 0)

/-! ## The address space -/

/-- `guardsize()`: the unmapped margin at either end of an address space. -/
def guardsize : Word := 80 * 1024

/-- `gb(x)`. -/
def gb (x : Word) : Word := x * 1024 * 1024 * 1024

/-- The placement of an address space (C `struct LFIAddrSpaceInfo`, as `lfi_as_new` fills it in). The
base is libboxmap's: not `0`, aligned to the `minalign` of `lfi_new_plat`, with the whole space below
the top of memory. -/
structure LFIAddrSpaceInfo where
  base : Word
  /-- The page size of the platform. -/
  pagesize : Word
  base_pos : 0 < base.toNat
  base_aligned : 2 ^ 32 ∣ base.toNat
  base_top : base.toNat + 2 ^ 32 < 2 ^ 64

namespace LFIAddrSpaceInfo

/-- `plat->opts.vmsize`. -/
def size (_ : LFIAddrSpaceInfo) : Word := gb 4

/-- The lowest usable address, above the guard and the sys page. -/
def minaddr (i : LFIAddrSpaceInfo) : Word := i.base + guardsize + i.pagesize

/-- The end of the usable addresses. -/
def maxaddr (i : LFIAddrSpaceInfo) : Word := i.base + i.size - guardsize

/-- An address space has 4 GiB, -/
lemma size_toNat (i : LFIAddrSpaceInfo) : i.size.toNat = 2 ^ 32 := by
  unfold size
  rfl

/-- ends a guard below them, -/
lemma maxaddr_toNat (i : LFIAddrSpaceInfo) : i.maxaddr.toNat = i.base.toNat + 2 ^ 32 - 81920 := by
  have := i.base_top
  simp only [maxaddr, size, gb, guardsize]
  bv_omega

/-- and starts a guard and a page above its base. -/
lemma minaddr_toNat (i : LFIAddrSpaceInfo) (h : i.pagesize.toNat < 2 ^ 32 - 81920) :
    i.minaddr.toNat = i.base.toNat + 81920 + i.pagesize.toNat := by
  have := i.base_top
  simp only [minaddr, guardsize]
  bv_omega

end LFIAddrSpaceInfo

/-- An address space: libmmap's table, the memory and its protections, and how many host memory calls
were made so far (C `struct LFIAddrSpace`). -/
structure LFIAddrSpace (L : LibMMap) where
  info : LFIAddrSpaceInfo
  mm : L.Table
  mem : Word → Byte
  prot : Word → CInt
  nmmap : Nat
  nmprotect : Nat

/-- Writes are allowed to the `n` addresses from `dst` on. -/
def LFIAddrSpace.Writable {L : LibMMap} (as : LFIAddrSpace L) (dst n : Word) : Prop :=
  ∀ k : Nat, k < n.toNat → as.prot (dst + BitVec.ofNat 64 k) &&& LFI_PROT_WRITE ≠ 0

instance {L : LibMMap} (as : LFIAddrSpace L) (dst n : Word) : Decidable (as.Writable dst n) :=
  Nat.decidableBallLT n.toNat fun k _ => as.prot (dst + BitVec.ofNat 64 k) &&& LFI_PROT_WRITE ≠ 0

/-- The page of `x` meets `[addr, addr + len)`. -/
def covers (pagesize addr len x : Word) : Prop :=
  0 < len.toNat ∧
  x.toNat / pagesize.toNat * pagesize.toNat < addr.toNat + len.toNat ∧
  addr.toNat < (x.toNat / pagesize.toNat + 1) * pagesize.toNat

instance (pagesize addr len x : Word) : Decidable (covers pagesize addr len x) :=
  inferInstanceAs (Decidable (_ ∧ _ ∧ _))

section
variable {L : LibMMap} (H : HostVm)

/-- A computation on an address space. -/
abbrev Vm (L : LibMMap) := Exec Stop Ev (LFIAddrSpace L)

/-- The state after a successful `mmap` of `[addr, addr + len)`: fresh pages, of the file if there is
one. -/
def LFIAddrSpace.mapped (as : LFIAddrSpace L) (addr len : Word) (prot : CInt)
    (file : Option HostFile) : LFIAddrSpace L :=
  { as with
    mem := fun x =>
      if covers H.pagesize addr len x then
        if file.isSome then H.file as.nmmap x else 0
      else as.mem x
    prot := fun x => if covers H.pagesize addr len x then mmapprot prot else as.prot x
    nmmap := as.nmmap + 1 }

/-- The host took `x` away when it refused to map `[addr, addr + len)`. -/
def LFIAddrSpace.Lost (as : LFIAddrSpace L) (addr len x : Word) : Prop :=
  covers H.pagesize addr len x ∧ H.removed as.nmmap addr len x = true

instance (as : LFIAddrSpace L) (addr len x : Word) : Decidable (as.Lost H addr len x) :=
  inferInstanceAs (Decidable (_ ∧ _))

/-- The state after a refused `mmap` of `[addr, addr + len)`. Nothing is left of the pages it removed. -/
def LFIAddrSpace.refused (as : LFIAddrSpace L) (addr len : Word) : LFIAddrSpace L :=
  { as with
    mem := fun x => if as.Lost H addr len x then 0 else as.mem x
    prot := fun x => if as.Lost H addr len x then LFI_PROT_NONE else as.prot x
    nmmap := as.nmmap + 1 }

/-- The state after an `mprotect` of `[addr, addr + len)`. -/
def LFIAddrSpace.mprotected (as : LFIAddrSpace L) (addr len : Word) (prot : CInt) : LFIAddrSpace L :=
  { as with
    prot := fun x =>
      if covers H.pagesize addr len x ∧ H.protects as.nmprotect addr len x then mmapprot prot
      else as.prot x
    nmprotect := as.nmprotect + 1 }

/-- Map fixed pages on the host (C `host_mmap` with `MAP_FIXED`). -/
def hostMmap (addr len : Word) (prot : CInt) (file : Option HostFile) : Vm L Bool := ⟨fun as =>
  if H.mmap as.nmmap addr len then ⟨.ok true, as.mapped H addr len prot file, []⟩
  else ⟨.ok false, as.refused H addr len, []⟩⟩

/-- Protect pages on the host (C `host_mprotect`). -/
def hostMprotect (addr len : Word) (prot : CInt) : Vm L Int := ⟨fun as =>
  ⟨.ok (if H.mprotect as.nmprotect addr len then 0 else tuxerr (H.errno as.nmprotect)),
    as.mprotected H addr len prot, []⟩⟩

/-- `asmap`. -/
def asmap (start size : Word) (prot : CInt) (hf : Option HostFile) : Vm L Int := do
  let n ← Exec.gets (·.nmmap)
  let ok ← hostMmap H start size prot hf
  if ok then pure 0 else pure (-(H.errno n))

/-- Make a piece that libmmap dropped inaccessible (C `cbunmap`). -/
def cbunmap (start len : Word) : Vm L Unit := do
  let ok ← hostMmap H start len LFI_PROT_NONE none
  Exec.check (ok = true) (.assertion .cbunmap)

/-- libmmap calling back on each piece. -/
def cbunmaps : List (Word × Word) → Vm L Unit
  | [] => pure ()
  | (start, len) :: ps => do
    cbunmap H start len
    cbunmaps ps

/-- `mm_unmap`: drop the records of a range, without a callback. -/
def mmUnmap (addr size : Word) : Vm L Unit :=
  Exec.modify fun as =>
    match L.unmap as.mm addr size with
    | some (mm, _) => { as with mm }
    | none => as

/-- `lfi_as_mapany`. -/
def lfiAsMapany (size : Word) (prot : CInt) (hf : Option HostFile) : Vm L Word := do
  let as ← Exec.get
  match L.mapany as.mm size with
  | none => pure 0
  | some (mm, addr) =>
    Exec.modify fun as => { as with mm }
    let r ← asmap H addr size prot hf
    if r < 0 then
      mmUnmap addr size
      pure mapFailed
    else pure addr

/-- `lfi_as_mapat`. -/
def lfiAsMapat (addr size : Word) (prot : CInt) (hf : Option HostFile) : Vm L Word := do
  let as ← Exec.get
  Exec.tell (.mapat addr size)
  Exec.check (addr ≥ as.info.minaddr ∧ addr + size ≤ as.info.maxaddr) (.assertion .mapatRange)
  match L.mapat as.mm addr size with
  | none => pure mapFailed
  | some (mm, pieces) =>
    Exec.modify fun as => { as with mm }
    cbunmaps H pieces
    let r ← asmap H addr size prot hf
    if r < 0 then
      mmUnmap addr size
      pure mapFailed
    else pure addr

/-- `lfi_as_mprotect`. -/
def lfiAsMprotect (addr size : Word) (prot : CInt) : Vm L Int := do
  let as ← Exec.get
  Exec.check (addr ≥ as.info.minaddr ∧ addr + size ≤ as.info.maxaddr) (.assertion .mprotectRange)
  hostMprotect H addr size prot

/-- `lfi_as_munmap`. -/
def lfiAsMunmap (addr size : Word) : Vm L Int := do
  let as ← Exec.get
  if addr ≥ as.info.minaddr ∧ addr + size < as.info.maxaddr then
    Exec.tell (.munmap addr size)
    match L.unmap as.mm addr size with
    | none => pure (-1)
    | some (mm, pieces) =>
      Exec.modify fun as => { as with mm }
      cbunmaps H pieces
      pure 0
  else pure (-1)

end

/-- `lfi_as_toptr`. -/
def lfiAsToptr {L : LibMMap} (p : Word) : Vm L Word := do
  let as ← Exec.get
  Exec.check (p ≥ as.info.minaddr ∧ p < as.info.maxaddr) (.assertion .toptr)
  pure p

/-- Store a word in guest memory. -/
def store64 {L : LibMMap} (p v : Word) : Vm L Unit :=
  Exec.modify fun as => { as with mem := splice as.mem p 8 (bytes64 v) }

/-- Load a word from guest memory. -/
def load64 {L : LibMMap} (p : Word) : Vm L Word := Exec.gets fun as => le as.mem p 8 64

/-- `lfi_as_fmptr`: `none` is the null pointer. -/
def lfiAsFmptr (i : LFIAddrSpaceInfo) (userp : Word) : Option Word :=
  if userp ≥ i.minaddr ∧ userp < i.maxaddr then some userp else none

/-- `lfi_as_validptr`. -/
def lfiAsValidptr (asp : Word) : Word := asp

end Libtux
