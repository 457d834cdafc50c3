import Libtux.Elf.Bias
import Libtux.Proc.Entry

/-!
# The perf map

Model of `perf_output_jit_interface_file` (`src/perf.c`), with libelf as a parameter: what it answers about an
image. The writer adds one number to the value of every symbol, the first address of the image that `load`
hands on. `load` counts from its bias. So the map is right exactly for an image whose lowest page is its
page `0` (`perf_matches_iff`), which a fixed image never is.
-/

namespace Libtux.Elf
open Lib

def SHT_SYMTAB : BitVec 32 := 2
def SHN_UNDEF : BitVec 16 := 0

/-- A symbol (C `GElf_Sym`). -/
structure Sym where
  name : BitVec 32
  shndx : BitVec 16
  value : Word
  size : Word
  deriving DecidableEq

/-- A section header (C `GElf_Shdr`). -/
structure Shdr where
  type : BitVec 32
  link : BitVec 32
  size : Word
  entsize : Word

/-- What `gelf_getshdr`, `elf_getdata` and `gelf_getsym` answer about a section. -/
structure Scn where
  shdr : Option Shdr
  data : Option (Nat → Option Sym)

/-- What libelf answers, and whether the map file can be opened. -/
structure LibElf where
  memory : Buf → Bool
  fopen : Bool
  version : Bool
  getshdrstrndx : Buf → Bool
  sections : Buf → List Scn
  strptr : Buf → BitVec 32 → BitVec 32 → Option (List Byte)

/-- The text for a symbol without a name, `<no name>`. -/
def NO_NAME : List Byte := [60, 110, 111, 32, 110, 97, 109, 101, 62]

/-- A line of the perf map. -/
structure PerfLine where
  addr : Word
  size : Word
  name : List Byte
  deriving DecidableEq

/-- How the writer ends: it returns `0` or `1`, or divides by the entry size `0`. -/
inductive PerfEnd where
  | ok
  | err
  | trap
  deriving DecidableEq

/-- What is left of a run: its return value, and the lines that it wrote. -/
structure PerfRun where
  ret : PerfEnd
  lines : List PerfLine

section
variable (E : LibElf) (buf : Buf) (offset : Word)

/-- The symbols of a table, those that `gelf_getsym` fails for left out. -/
def Shdr.symbols (shdr : Shdr) (getsym : Nat → Option Sym) : List Sym :=
  (List.range (shdr.size / shdr.entsize).toNat).filterMap getsym

/-- The line of a symbol. -/
def perfLine (shdr : Shdr) (sym : Sym) : PerfLine where
  addr := sym.value + offset
  size := sym.size
  name := (E.strptr buf shdr.link sym.name).getD NO_NAME

/-- The loop of `perf_output_jit_interface_file` over the sections. -/
def perfSections : List Scn → PerfRun
  | [] => ⟨.ok, []⟩
  | scn :: scns =>
    match scn.shdr with
    | none => ⟨.err, []⟩
    | some shdr =>
      if shdr.type = SHT_SYMTAB then
        match scn.data with
        | none => ⟨.err, []⟩
        | some getsym =>
          if shdr.entsize = 0 then ⟨.trap, []⟩
          else
            let r := perfSections scns
            ⟨r.ret, (shdr.symbols getsym).map (perfLine E buf offset shdr) ++ r.lines⟩
      else perfSections scns

/-- `perf_output_jit_interface_file`. -/
def perfOutputJitInterfaceFile : PerfRun :=
  if ¬ E.memory buf then ⟨.err, []⟩
  else if ¬ E.fopen then ⟨.err, []⟩
  else if ¬ E.version then ⟨.err, []⟩
  else if ¬ E.getshdrstrndx buf then ⟨.err, []⟩
  else perfSections E buf offset (E.sections buf)

end

/-- The symbols of the tables among some sections. -/
def scnSymbols (scns : List Scn) : List Sym :=
  scns.flatMap fun scn =>
    match scn.shdr, scn.data with
    | some shdr, some getsym => if shdr.type = SHT_SYMTAB then shdr.symbols getsym else []
    | _, _ => []

/-- The symbols of an image. -/
def LibElf.symbols (E : LibElf) (buf : Buf) : List Sym := scnSymbols (E.sections buf)

/-- The addresses of the lines are those of the symbols, in order. -/
lemma perfSections_addrs {E : LibElf} {buf : Buf} {offset : Word} {scns : List Scn}
    (h : (perfSections E buf offset scns).ret = .ok) :
    (perfSections E buf offset scns).lines.map PerfLine.addr =
      (scnSymbols scns).map fun sym => sym.value + offset := by
  induction scns with
  | nil => rfl
  | cons scn scns ih =>
    obtain ⟨shdr, data⟩ := scn
    rw [scnSymbols, List.flatMap_cons, List.map_append]
    unfold perfSections at h ⊢
    cases shdr with
    | none => cases h
    | some shdr =>
      dsimp only at h ⊢
      by_cases hty : shdr.type = SHT_SYMTAB
      · rw [if_pos hty] at h ⊢
        cases data with
        | none => cases h
        | some getsym =>
          dsimp only at h ⊢
          by_cases h0 : shdr.entsize = 0
          · rw [if_pos h0] at h
            cases h
          · rw [if_neg h0] at h ⊢
            rw [if_pos hty, List.map_append, List.map_map]
            exact congrArg _ (ih h)
      · rw [if_neg hty] at h ⊢
        rw [ih h]
        cases data with
        | none => rfl
        | some getsym =>
          dsimp only
          rw [if_neg hty]
          rfl

/-- There is one line a symbol, at its value and the offset. -/
lemma perf_addrs {E : LibElf} {buf : Buf} {offset : Word}
    (h : (perfOutputJitInterfaceFile E buf offset).ret = .ok) :
    (perfOutputJitInterfaceFile E buf offset).lines.map PerfLine.addr =
      (E.symbols buf).map fun sym => sym.value + offset := by
  unfold perfOutputJitInterfaceFile at h ⊢
  by_cases h1 : E.memory buf = true
  case neg =>
    rw [if_pos h1] at h
    cases h
  by_cases h2 : E.fopen = true
  case neg =>
    rw [if_neg (not_not.mpr h1), if_pos h2] at h
    cases h
  by_cases h3 : E.version = true
  case neg =>
    rw [if_neg (not_not.mpr h1), if_neg (not_not.mpr h2), if_pos h3] at h
    cases h
  by_cases h4 : E.getshdrstrndx buf = true
  case neg =>
    rw [if_neg (not_not.mpr h1), if_neg (not_not.mpr h2), if_neg (not_not.mpr h3), if_pos h4] at h
    cases h
  rw [if_neg (not_not.mpr h1), if_neg (not_not.mpr h2), if_neg (not_not.mpr h3), if_neg (not_not.mpr h4)]
    at h ⊢
  exact perfSections_addrs h

/-- The symbol is defined, and its value lies in the header. -/
def Sym.In (sym : Sym) (p : ProgHeader) : Prop :=
  sym.shndx ≠ SHN_UNDEF ∧ p.mapped = true ∧ p.vaddr.toNat ≤ sym.value.toNat ∧
    sym.value.toNat < p.vaddr.toNat + p.memsz.toNat

/-- Every line of the map whose symbol lies in a segment gives the address the symbol's byte was loaded to, in
a run of `load` with trace `l`. -/
def PerfMatches (E : LibElf) (prog : Buf) (pfirst : Word) (l : List Ev) : Prop :=
  ∀ (n : Nat) (sym : Sym) (line : PerfLine), (E.symbols prog)[n]? = some sym →
    (perfOutputJitInterfaceFile E prog pfirst).lines[n]? = some line →
    ∀ pd ∈ prog.placed l, sym.In pd.1 → line.addr = pd.2 + (sym.value - pd.1.vaddr)

/-- The outcome of the writer that `lfi_proc_loadelf` goes on from. -/
def PerfRun.done (r : PerfRun) : Bool := r.ret = .ok

/-- The map of an accepted program matches the loaded code exactly when no symbol lies in a segment, or the
lowest page of the program is its page `0`. -/
theorem perf_matches_iff {L : LibMMap} {H : HostVm} (E : LibElf) {opts : LFILoadOpts} {prog : Buf}
    {interp : Option Buf} {as : LFIAddrSpace L} {info : LFILoadInfo}
    (hpg : as.info.pagesize.toNat ≤ 2 ^ 20)
    (h : ((lfiProcLoadelf H prog interp opts).run as).val = .ok (some info))
    (hperf : opts.perf = some (perfOutputJitInterfaceFile E prog info.elfbase).done) :
    PerfMatches E prog info.elfbase (progRun H opts prog as).out ↔
      ((∃ sym ∈ E.symbols prog, ∃ p ∈ prog.phdrs, sym.In p) → Lowest prog.phdrs 0) := by
  obtain ⟨p, i, -, hinfo, ho, -, hnf, rfl, -, -⟩ := lfiProcLoadelf_run h
  have hret : (perfOutputJitInterfaceFile E prog p.first).ret = .ok := by
    rw [hperf] at hnf
    simpa [PerfRun.done, loadInfo] using hnf
  have haddrs := perf_addrs hret
  have hpg' : (stackRun H opts as).st.info.pagesize.toNat ≤ 2 ^ 30 := by
    rw [hinfo]
    omega
  have hplaced := load_placed hpg' ho
  have hfirst := fun hmaps => load_first_iff hpg' ho hmaps 0
  rw [hinfo] at hfirst
  simp only [loadInfo]
  rw [show (progRun H opts prog as).out = ((load H prog as.info.minaddr opts.pagesize).run
    (stackRun H opts as).st).out from rfl]
  unfold PerfMatches
  rw [hplaced, hinfo]
  generalize elfBase as.info prog.ehdr.type as.info.minaddr = bias at hfirst ⊢
  -- a line is right when the number added to the symbol is the bias
  have hline : ∀ (sym : Sym) (q : ProgHeader),
      sym.value + p.first = bias + q.vaddr + (sym.value - q.vaddr) ↔ p.first = bias := by
    intro sym q
    rw [show bias + q.vaddr + (sym.value - q.vaddr) = sym.value + bias by bv_omega]
    exact BitVec.add_right_inj _
  constructor
  · rintro hall ⟨sym, hsym, q, hq, hin⟩
    obtain ⟨n, hn⟩ := List.mem_iff_getElem?.mp hsym
    have haddr := congrArg (fun l => l[n]?) haddrs
    simp only [List.getElem?_map, hn, Option.map_some, Option.map_eq_some_iff] at haddr
    obtain ⟨line, hl, haddr⟩ := haddr
    have hpd : (q, bias + q.vaddr) ∈ (prog.phdrs.filter ProgHeader.mapped).map fun p =>
        (p, bias + p.vaddr) := List.mem_map_of_mem (List.mem_filter.mpr ⟨hq, hin.2.1⟩)
    have heq := hall n sym line hn hl _ hpd hin
    rw [haddr, hline] at heq
    refine (hfirst ⟨q, hq, hin.2.1⟩).mp ?_
    rw [heq]
    exact (BitVec.add_zero _).symm
  · intro hlow n sym line hn hl pd hpd hin
    obtain ⟨q, hq, rfl⟩ := List.mem_map.mp hpd
    obtain ⟨hq, hm⟩ := List.mem_filter.mp hq
    have haddr := congrArg (fun l => l[n]?) haddrs
    simp only [List.getElem?_map, hn, hl, Option.map_some, Option.some.injEq] at haddr
    rw [haddr, hline]
    have hz := (hfirst ⟨q, hq, hm⟩).mpr (hlow ⟨sym, List.mem_of_getElem? hn, q, hq, hin⟩)
    rw [hz]
    exact BitVec.add_zero _

/-! ## An image with a symbol table -/

/-- What libelf answers about a well-formed image with sections, the first of which, section `0`, is not one:
the fields are at their offsets in the file. -/
def LibElf.reader : LibElf where
  memory _ := true
  fopen := true
  version := true
  getshdrstrndx _ := true
  sections buf :=
    let shoff : Word := le buf.data 40 8 64
    let shnum : BitVec 16 := le buf.data 60 2 16
    (List.range' 1 (shnum.toNat - 1)).map fun i =>
      let p := shoff + 64 * BitVec.ofNat 64 i
      let offset : Word := le buf.data (p + 24) 8 64
      { shdr := some
          { type := le buf.data (p + 4) 4 32
            link := le buf.data (p + 40) 4 32
            size := le buf.data (p + 32) 8 64
            entsize := le buf.data (p + 56) 8 64 }
        data := some fun k =>
          let q := offset + 24 * BitVec.ofNat 64 k
          some
            { name := le buf.data q 4 32
              shndx := le buf.data (q + 6) 2 16
              value := le buf.data (q + 8) 8 64
              size := le buf.data (q + 16) 8 64 } }
  strptr buf link name :=
    let shoff : Word := le buf.data 40 8 64
    let p := shoff + 64 * link.setWidth 64
    let offset : Word := le buf.data (p + 24) 8 64
    let size : Word := le buf.data (p + 32) 8 64
    some (((List.range (size.toNat - name.toNat)).map fun k =>
      buf.data (offset + name.setWidth 64 + BitVec.ofNat 64 k)).takeWhile (· ≠ 0))

/-- The bytes of a section header for the bytes at `offset`. -/
def Shdr.write (shdr : Shdr) (offset : Nat) : List Byte :=
  toLe 4 0 ++ toLe 4 shdr.type.toNat ++ toLe 8 0 ++ toLe 8 0 ++ toLe 8 offset ++ toLe 8 shdr.size.toNat ++
    toLe 4 shdr.link.toNat ++ toLe 4 0 ++ toLe 8 0 ++ toLe 8 shdr.entsize.toNat

/-- An image with one segment at `vaddr`, two bytes of code in it, and a symbol `f` for them. -/
def symImage (type : BitVec 16) (vaddr : Word) : Buf :=
  let table := toLe 24 0 ++ toLe 4 1 ++ toLe 2 2 ++ toLe 2 1 ++ toLe 8 vaddr.toNat ++ toLe 8 2
  let names := [0, 102, 0, 0, 0, 0]
  let shdrs := toLe 64 0 ++ Shdr.write ⟨SHT_SYMTAB, 2, 48, 24⟩ 122 ++ Shdr.write ⟨3, 0, 6, 0⟩ 170
  let buf := Buf.write type vaddr [{ textHeader with vaddr }] ([0x0f, 0x05] ++ table ++ names ++ shdrs)
  -- the section headers are at `176`, three of them
  { buf with data := fun k => if k = 40 then 176 else if k = 58 then 64 else if k = 60 then 3 else buf.data k }

/-- The options of `elfload` with a perf map that could be written. -/
def perfOpts : LFILoadOpts where
  stacksize := 2 * 1024 * 1024
  pagesize := 4096
  perf := some true

/-- What `lfi_proc_loadelf` reports for `symImage`, an image with one segment at `vaddr` in page `start`. -/
def symInfo (bias start vaddr : Word) : LFILoadInfo where
  stack := LFIAddrSpaceInfo.plain.maxaddr - perfOpts.stacksize
  stacksize := perfOpts.stacksize
  lastva := bias + start + 4096
  elfentry := bias + vaddr
  ldentry := 0
  elfbase := bias + start
  ldbase := bias + start
  elfphoff := 64
  elfphnum := 1
  elfphentsize := 56

/-- The map of an image that starts in its page `0` matches. -/
theorem perf_matches_symImage :
    PerfMatches .reader (symImage ET_DYN 8) LFIAddrSpaceInfo.plain.minaddr
      (progRun (.plain fun _ _ _ => true) perfOpts (symImage ET_DYN 8) (.fresh .plain)).out := by
  have hval : ((lfiProcLoadelf (.plain fun _ _ _ => true) (symImage ET_DYN 8) none perfOpts).run
      (.fresh .plain)).val = .ok (some (symInfo LFIAddrSpaceInfo.plain.minaddr 0 8)) := by decide +kernel
  have hdone : perfOpts.perf = some (perfOutputJitInterfaceFile .reader (symImage ET_DYN 8)
      (symInfo LFIAddrSpaceInfo.plain.minaddr 0 8).elfbase).done := by decide +kernel
  refine (perf_matches_iff .reader (by decide) hval hdone).mpr fun _ => ?_
  decide +kernel

/-- The map of a fixed image puts its symbol as far above its code as the image is above the base. -/
theorem perf_mismatches_fixed :
    ((lfiProcLoadelf (.plain fun _ _ _ => true) (symImage ET_EXEC 90120) none perfOpts).run
      (.fresh .plain)).val = .ok (some (symInfo LFIAddrSpaceInfo.plain.base 90112 90120)) ∧
    perfOpts.perf = some (perfOutputJitInterfaceFile .reader (symImage ET_EXEC 90120)
      (symInfo LFIAddrSpaceInfo.plain.base 90112 90120).elfbase).done ∧
    ¬ PerfMatches .reader (symImage ET_EXEC 90120) (symInfo LFIAddrSpaceInfo.plain.base 90112 90120).elfbase
      (progRun (.plain fun _ _ _ => true) perfOpts (symImage ET_EXEC 90120) (.fresh .plain)).out := by
  refine ⟨by decide +kernel, by decide +kernel, fun hm => ?_⟩
  have heq := hm 1 ⟨1, 1, 90120, 2⟩ ⟨LFIAddrSpaceInfo.plain.base + 180232, 2, [102]⟩ (by decide +kernel)
    (by decide +kernel) ({ textHeader with vaddr := 90120 }, LFIAddrSpaceInfo.plain.base + 90120)
    (by decide +kernel) ⟨by decide, by decide, by decide, by decide⟩
  revert heq
  decide

end Libtux.Elf
