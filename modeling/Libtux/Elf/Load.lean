import Libtux.Elf.Image
import Libtux.Pal.Vm

/-!
# The loader

Model of `src/elfload.c`: `load` maps the segments of one image, `lfi_proc_loadelf` the stack, the
program and its interpreter. A `goto err1` is the result `none` (C `false`).

The loop body of `load` is cut in two. `segPlan` is its arithmetic, up to the last check before the
segment is mapped: it skips a header, refuses it, or says where the segment goes. `loadSeg` acts on
the plan. `sanitize` does nothing, as `TUX_SANITIZE_CODE` is not defined by the build; the warning
about overwritten segments is only printed.

`bufread` ends in a `memcpy` of as many bytes as it makes out. Of the file header it never copies more than
there is. The copy of the program headers can overrun the array they go to, and that of a segment goes
through with `memcpy` only if every byte can be read and every address is open to writes; what a copy that
does not may have done before it ended the process is not kept.
-/

namespace Libtux.Elf
open Lib

def STACKSIZE : Word := 2 * 1024 * 1024
def CODEMAX : Word := 1 * 1024 * 1024 * 1024

/-- `elfcheck`. -/
def elfcheck (ehdr : FileHeader) : Bool :=
  ehdr.magic = ELF_MAGIC ∧ ehdr.width = ELFCLASS64 ∧ ehdr.version = EV_CURRENT ∧
    (ehdr.type = ET_DYN ∨ ehdr.type = ET_EXEC)

/-- `pflags`. -/
def pflags (prot : CInt) : CInt :=
  (if prot &&& PF_R ≠ 0 then LFI_PROT_READ else 0) |||
  (if prot &&& PF_W ≠ 0 then LFI_PROT_WRITE else 0) |||
  (if prot &&& PF_X ≠ 0 then LFI_PROT_EXEC else 0)

/-- Where a segment goes, relative to the load base, and where its address lies in its first page. -/
structure Seg where
  start : Word
  stop : Word
  offset : Word
  deriving DecidableEq

/-- What `load` decides about one program header. -/
inductive SegPlan where
  | skip
  | refuse
  | map (s : Seg)
  deriving DecidableEq

/-- A fixed image is given in absolute addresses; `load` counts them from the load base. -/
def rebase (i : LFIAddrSpaceInfo) (type : BitVec 16) (base x : Word) : Word :=
  if type = ET_EXEC then x - (base - i.base) else x

/-- The arithmetic of the loop body of `load`. -/
def segPlan (i : LFIAddrSpaceInfo) (type : BitVec 16) (base pagesize : Word) (p : ProgHeader) :
    SegPlan :=
  if p.type ≠ PT_LOAD then .skip
  else if p.memsz = 0 then .skip
  else if p.align % pagesize ≠ 0 then .refuse
  else
    let start := truncp p.vaddr p.align
    let stop := ceilp (p.vaddr + p.memsz) p.align
    let offset := p.vaddr - start
    if type = ET_EXEC ∧ start < base - i.base then .refuse
    else
      let start := rebase i type base start
      let stop := rebase i type base stop
      if p.memsz < p.filesz then .refuse
      else if stop ≤ start ∨ start ≥ CODEMAX ∨ stop ≥ CODEMAX then .refuse
      else .map ⟨start, stop, offset⟩

/-- The variables of the loop of `load`. -/
structure LoadState where
  base : Word
  first : Word
  last : Word
  deriving DecidableEq

/-- The results of `load` (`*pfirst`, `*plast`, `*pentry`). -/
structure LoadOut where
  first : Word
  last : Word
  entry : Word
  deriving DecidableEq

section
variable {L : LibMMap} (H : HostVm)

/-- The address space after `n` bytes of an image were copied to `dst`. -/
def copied (as : LFIAddrSpace L) (dst n : Word) (buf : Buf) (p_offset : Word) : LFIAddrSpace L :=
  { as with mem := splice as.mem dst n (fun k => buf.data (p_offset + k)) }

/-- `memcpy` from an image to guest memory. -/
def memcpy (dst n : Word) (buf : Buf) (p_offset : Word) : Vm L Unit := ⟨fun as =>
  if buf.Readable p_offset n ∧ as.Writable dst n then ⟨.ok (), copied as dst n buf p_offset, []⟩
  else ⟨.error .fault, as, []⟩⟩

/-- `bufreadelfseg`. -/
def bufreadelfseg (start offset stop p_offset filesz : Word) (prot : CInt) (buf : Buf) :
    Vm L Bool := do
  let p ← lfiAsMapat H start (stop - start) (LFI_PROT_READ ||| LFI_PROT_WRITE) none
  if p = mapFailed then pure false
  else do
    let n := bufread buf filesz p_offset
    Exec.tell (.segcopy start stop (start + offset) n)
    memcpy (start + offset) n buf p_offset
    if n ≠ filesz then pure false
    else do
      let r ← lfiAsMprotect H start (stop - start) prot
      if r < 0 then pure false else pure true

/-- One iteration of the loop of `load`. -/
def loadSeg (buf : Buf) (pagesize elfbase : Word) (st : LoadState) (p : ProgHeader) :
    Vm L (Option LoadState) := do
  let as ← Exec.get
  match segPlan as.info buf.ehdr.type st.base pagesize p with
  | .skip => pure (some st)
  | .refuse => pure none
  | .map s =>
    let ok ← bufreadelfseg H (st.base + s.start) s.offset (st.base + s.stop) p.offset p.filesz
      (pflags p.flags) buf
    if ok then
      let lowest := elfbase + truncp p.vaddr p.align
      let base := if st.base = 0 then st.base + s.start else st.base
      pure (some
        { base
          first := if st.first = 0 ∨ lowest < st.first then lowest else st.first
          last := if base + s.stop > st.last then base + s.stop else st.last })
    else pure none

/-- The loop of `load`. -/
def loadSegs (buf : Buf) (pagesize elfbase : Word) :
    LoadState → List ProgHeader → Vm L (Option LoadState)
  | st, [] => pure (some st)
  | st, p :: ps => do
    match ← loadSeg H buf pagesize elfbase st p with
    | none => pure none
    | some st => loadSegs buf pagesize elfbase st ps

/-- The base the addresses of an image are relative to: the load base, or the base of the address
space for a fixed image (C `elfbase`). -/
def elfBase (i : LFIAddrSpaceInfo) (type : BitVec 16) (base : Word) : Word :=
  if type = ET_DYN then base else i.base

/-- `load`. -/
def load (buf : Buf) (base pagesize : Word) : Vm L (Option LoadOut) := do
  let as ← Exec.get
  let ehdr := buf.ehdr
  if bufread buf FileHeader.bytes 0 ≠ FileHeader.bytes then pure none
  else if ¬ elfcheck ehdr then pure none
  else if ¬ H.malloc as.nmmap buf.phbytes then pure none
  else do
    let n := bufread buf buf.phbytes ehdr.phoff
    Exec.check (buf.Readable ehdr.phoff n) .fault
    Exec.check (n ≤ buf.phbytes) .undefined
    if n ≠ buf.phbytes then pure none
    else if ehdr.entry ≥ CODEMAX then pure none
    else do
      match ← loadSegs H buf pagesize (elfBase as.info ehdr.type base) ⟨base, 0, 0⟩ buf.phdrs with
      | none => pure none
      | some st =>
        pure (some
          { first := st.first
            last := st.last
            entry := if ehdr.type = ET_DYN then st.base + ehdr.entry else as.info.base + ehdr.entry })

/-- What `lfi_proc_loadelf` reports (C `struct LFILoadInfo`). -/
structure LFILoadInfo where
  stack : Word
  stacksize : Word
  lastva : Word
  elfentry : Word
  ldentry : Word
  elfbase : Word
  ldbase : Word
  elfphoff : Word
  elfphnum : BitVec 16
  elfphentsize : BitVec 16
  deriving DecidableEq

/-- The options of `lfi_proc_loadelf` (C `struct LFILoadOpts`). `perf` is the outcome of
`perf_output_jit_interface_file` when the perf map is asked for. -/
structure LFILoadOpts where
  stacksize : Word
  pagesize : Word
  perf : Option Bool

/-- Load the interpreter, if there is one, from the end of the program on. -/
def loadInterp (interp : Option Buf) (plast pagesize : Word) : Vm L (Option (Option LoadOut)) :=
  match interp with
  | none => pure (some none)
  | some ib => do
    match ← load H ib plast pagesize with
    | none => pure none
    | some o => pure (some (some o))

/-- What `lfi_proc_loadelf` reports, from the results of its calls. -/
def loadInfo (prog : Buf) (stack stacksize : Word) (p : LoadOut) (i : Option LoadOut) :
    LFILoadInfo where
  stack
  stacksize
  lastva := (i.map LoadOut.last).getD p.last
  elfentry := p.entry
  ldentry := (i.map LoadOut.entry).getD 0
  elfbase := p.first
  ldbase := (i.map LoadOut.first).getD p.first
  elfphoff := prog.ehdr.phoff
  elfphnum := prog.ehdr.phnum
  elfphentsize := prog.ehdr.phentsize

/-- `lfi_proc_loadelf`. An absent interpreter is a null `interpdat`. -/
def lfiProcLoadelf (prog : Buf) (interp : Option Buf) (opts : LFILoadOpts) :
    Vm L (Option LFILoadInfo) := do
  let as ← Exec.get
  let stack ← lfiAsMapat H (as.info.maxaddr - opts.stacksize) opts.stacksize
    (LFI_PROT_READ ||| LFI_PROT_WRITE) none
  if stack = mapFailed then pure none
  else do
    match ← load H prog as.info.minaddr opts.pagesize with
    | none => pure none
    | some p =>
      match ← loadInterp H interp p.last opts.pagesize with
      | none => pure none
      | some i =>
        if opts.perf = some false then pure none
        else do
          Exec.check (bufread prog FileHeader.bytes 0 = FileHeader.bytes) (.assertion .loadelfHeader)
          pure (some (loadInfo prog stack opts.stacksize p i))

end
end Libtux.Elf
