import Libtux.Proc.Layout

/-!
# Where a process starts

A process that `procsetup` has set up starts inside its address space, whatever the images are. No
assumption on what the images map is needed: the heap reservation goes to `lastva`, so a setup that
returned true has an end above `minaddr`, and an image that maps nothing would have left `0`
(`load_last_zero`), with or without an interpreter after it (`load_at_zero`).
-/

namespace Libtux
open Lib Elf

variable {L : LibMMap} {M : Machine} {H : HostVm}

namespace Elf

section
open Exec

/-- A mapping leaves where the address space is, -/
lemma keeps_lfiAsMapat (addr size : Word) (prot : CInt) :
    Keeps (·.info) (lfiAsMapat H addr size prot none : Vm L Word) := by
  intro as
  obtain ⟨_, h⟩ | ⟨_, _, hst, h | h⟩ | ⟨_, _, _, _, hf, h⟩ := lfiAsMapat_cases (H := H) addr size prot as
  · rw [h]
  · rw [h]
    exact hst
  · rw [h]
    exact hst
  · rw [h]
    exact hf.info

/-- and so does a segment, -/
lemma keeps_bufreadelfseg (start offset stop p_offset filesz : Word) (prot : CInt) (buf : Buf) :
    Keeps (·.info) (bufreadelfseg H start offset stop p_offset filesz prot buf : Vm L Bool) := by
  intro as
  have hinv := bufreadelfseg_inv (H := H) start offset stop p_offset filesz prot buf as
  generalize (bufreadelfseg H start offset stop p_offset filesz prot buf).run as = r at hinv
  cases hinv with
  | outside _ => rfl
  | unmapped _ _ hst => exact hst
  | fault sm _ => exact sm.fresh.info
  | short sm _ => exact sm.fresh.info
  | done sm _ _ _ => exact sm.fresh.info

/-- a header, -/
lemma keeps_loadSeg (buf : Buf) (pagesize elfbase : Word) (st : LoadState) (p : ProgHeader) :
    Keeps (·.info) (loadSeg H buf pagesize elfbase st p : Vm L _) := by
  refine .bind keeps_get fun as => ?_
  cases segPlan as.info buf.ehdr.type st.base pagesize p with
  | skip => exact keeps_pure _
  | refuse => exact keeps_pure _
  | map s => exact .bind (keeps_bufreadelfseg _ _ _ _ _ _ _) fun ok => .ite (keeps_pure _) (keeps_pure _)

/-- all headers, by induction, -/
lemma keeps_loadSegs (buf : Buf) (pagesize elfbase : Word) (st : LoadState) (ps : List ProgHeader) :
    Keeps (·.info) (loadSegs H buf pagesize elfbase st ps : Vm L _) := by
  induction ps generalizing st with
  | nil => exact keeps_pure _
  | cons p ps ih =>
    refine .bind (keeps_loadSeg _ _ _ _ _) fun o => ?_
    cases o with
    | none => exact keeps_pure _
    | some st => exact ih st

/-- an image, -/
lemma keeps_load (buf : Buf) (base pagesize : Word) :
    Keeps (·.info) (load H buf base pagesize : Vm L _) := by
  refine .bind keeps_get fun as => ?_
  refine .ite (keeps_pure _) (.ite (keeps_pure _) (.ite (keeps_pure _) ?_))
  refine .bind (quiet_check _ _).keeps fun _ => .bind (quiet_check _ _).keeps fun _ => ?_
  refine .ite (keeps_pure _) (.ite (keeps_pure _) ?_)
  refine .bind (keeps_loadSegs _ _ _ _ _) fun o => ?_
  cases o with
  | none => exact keeps_pure _
  | some st => exact keeps_pure _

/-- and the interpreter. -/
lemma keeps_loadInterp (interp : Option Buf) (plast pagesize : Word) :
    Keeps (·.info) (loadInterp H interp plast pagesize : Vm L _) := by
  cases interp with
  | none => exact keeps_pure _
  | some ib =>
    refine .bind (keeps_load _ _ _) fun o => ?_
    cases o with
    | none => exact keeps_pure _
    | some o => exact keeps_pure _

/-- Loading never moves the address space. -/
lemma keeps_lfiProcLoadelf (prog : Buf) (interp : Option Buf) (opts : LFILoadOpts) :
    Keeps (·.info) (lfiProcLoadelf H prog interp opts : Vm L _) := by
  refine .bind keeps_get fun as => .bind (keeps_lfiAsMapat _ _ _) fun stack => ?_
  refine .ite (keeps_pure _) (.bind (keeps_load _ _ _) fun o => ?_)
  cases o with
  | none => exact keeps_pure _
  | some p =>
    refine .bind (keeps_loadInterp _ _ _) fun o => ?_
    cases o with
    | none => exact keeps_pure _
    | some i => exact .ite (keeps_pure _) (.bind (quiet_check _ _).keeps fun _ => keeps_pure _)

end

/-- The loop of `load` over headers that are all skipped. -/
lemma loadSegs_unmapped {buf : Buf} {pagesize elfbase : Word} {st : LoadState} {ps : List ProgHeader}
    (as : LFIAddrSpace L) (h : ∀ p ∈ ps, p.mapped = false) :
    (loadSegs H buf pagesize elfbase st ps).run as = ⟨.ok (some st), as, []⟩ := by
  induction ps with
  | nil => exact Exec.pure_run _ _
  | cons p ps ih =>
    have hskip : (loadSeg H buf pagesize elfbase st p).run as = ⟨.ok (some st), as, []⟩ := by
      have hp : segPlan as.info buf.ehdr.type st.base pagesize p = .skip :=
        segPlan_skip.mpr (h p (List.mem_cons_self ..))
      simp only [loadSeg, Exec.bind_run, Exec.get_run, Exec.andThen_ok_nil, hp, Exec.pure_run]
    rw [loadSegs, Exec.bind_run, hskip, Exec.andThen_ok_nil]
    exact ih fun q hq => h q (List.mem_cons_of_mem _ hq)

/-- A segment counted from `0` lies below every address space. -/
lemma not_inGuard_of_lt {i : LFIAddrSpaceInfo} {x n : Word} (hpg : i.pagesize.toNat ≤ 2 ^ 20)
    (hx : x < CODEMAX) : ¬ InGuard i x n := by
  rintro ⟨hle, -⟩
  have hmin := i.minaddr_toNat (by omega)
  obtain ⟨c, hc⟩ := i.base_aligned
  have hpos := i.base_pos
  have hle : i.minaddr.toNat ≤ x.toNat := hle
  have hx : x.toNat < 2 ^ 30 := hx
  have : 0 < c := by
    rcases Nat.eq_zero_or_pos c with rfl | h
    · omega
    · exact h
  omega

/-- A loop that starts at load base `0` goes through only if it maps nothing. -/
lemma loadSegs_at_zero {buf : Buf} {pagesize elfbase : Word} {st st' : LoadState}
    {ps : List ProgHeader} {as : LFIAddrSpace L} (hpg : as.info.pagesize.toNat ≤ 2 ^ 20)
    (hb : st.base = 0) (h : ((loadSegs H buf pagesize elfbase st ps).run as).val = .ok (some st')) :
    st' = st := by
  induction ps with
  | nil =>
    simp only [loadSegs, Exec.pure_run, Except.ok.injEq, Option.some.injEq] at h
    exact h.symm
  | cons p ps ih =>
    obtain ⟨st1, h1, h2, -, -⟩ := loadSegs_cons_some h
    obtain ⟨-, rfl, hr⟩ | ⟨s, pl, sd, -, -⟩ := loadSeg_some h1
    · rw [hr] at h2
      exact ih h2
    · have hg := sd.guard
      rw [hb, show 0 + s.start = s.start from BitVec.zero_add _] at hg
      exact absurd hg (not_inGuard_of_lt hpg pl.start_lt)

/-- An image that is loaded at zero ends there: none of its segments is mapped. -/
lemma load_at_zero {buf : Buf} {pagesize : Word} {out : LoadOut} {as : LFIAddrSpace L}
    (hpg : as.info.pagesize.toNat ≤ 2 ^ 20)
    (h : ((load H buf 0 pagesize).run as).val = .ok (some out)) : out.last = 0 := by
  obtain ⟨-, st, hs, -, -, rfl⟩ := load_some h
  rw [loadSegs_at_zero hpg rfl hs]

/-- An image that maps nothing ends at `0`. -/
lemma load_last_zero {buf : Buf} {base pagesize : Word} {out : LoadOut} {as : LFIAddrSpace L}
    (hm : ¬ buf.Maps) (h : ((load H buf base pagesize).run as).val = .ok (some out)) :
    out.last = 0 := by
  obtain ⟨-, st, hs, -, -, rfl⟩ := load_some h
  have hun : ∀ p ∈ buf.phdrs, p.mapped = false := by
    intro p hp
    by_contra hne
    exact hm ⟨p, hp, by simpa using hne⟩
  rw [loadSegs_unmapped as hun] at hs
  cases hs
  rfl

/-- What a heap above `minaddr` says about the images: the program maps something, and both entry points
are addresses of the address space. -/
lemma lfiProcLoadelf_entries {opts : LFILoadOpts} {prog : Buf} {interp : Option Buf}
    {info : LFILoadInfo} {as : LFIAddrSpace L} (hpg : as.info.pagesize.toNat ≤ 2 ^ 20)
    (h : ((lfiProcLoadelf H prog interp opts).run as).val = .ok (some info))
    (hlast : info.lastva ≠ 0) :
    info.stack = as.info.maxaddr - opts.stacksize ∧ info.stacksize = opts.stacksize ∧
      as.info.Has info.elfentry ∧ (interp.isSome → as.info.Has info.ldentry) := by
  obtain ⟨p, i, le, rfl⟩ := lfiProcLoadelf_some h
  have hmin := as.info.minaddr_toNat (by omega)
  have htop := as.info.base_top
  have hb0 : as.info.minaddr ≠ 0 := by
    intro h0
    rw [h0, show (0 : Word).toNat = 0 from rfl] at hmin
    omega
  obtain ⟨hpm, hp2, he1, he2, hpinfo, -⟩ := load_bounds (by omega) hb0 le.prog_ok
  rw [le.info] at he1 he2 hpinfo
  refine ⟨rfl, rfl, LFIAddrSpaceInfo.has_entry (by omega) (by omega) he1 he2, fun hsome => ?_⟩
  obtain ⟨ib, rfl⟩ := Option.isSome_iff_exists.mp hsome
  obtain ⟨o, rfl, ho⟩ := le.interp_ok ib rfl
  have hpinfo : (progRun H opts prog as).st.info = as.info := hpinfo
  -- a program that maps nothing leaves load base `0`, and then the interpreter maps nothing either
  have hm : prog.Maps := by
    by_contra hm
    rw [interpRun, load_last_zero hm le.prog_ok] at ho
    exact hlast (load_at_zero (hpinfo ▸ hpg) ho)
  have hp1 := hpm hm
  have hl0 : p.last ≠ 0 := by
    intro h0
    rw [h0] at hp1
    exact Nat.not_lt_zero _ hp1
  obtain ⟨-, -, hie1, hie2, -, -⟩ := load_bounds (by omega) hl0 ho
  rw [hpinfo] at hie1 hie2
  exact LFIAddrSpaceInfo.has_entry (by omega) (by omega) hie1 hie2

end Elf

/-- `stacksetup` that returns true gives the stack pointer two blocks below the top of the stack. -/
lemma stacksetup_sp {pagesize : Word} {argv : List (List Byte)} {info : LFILoadInfo} {sp : Word}
    {as : LFIAddrSpace L} (h : ((stacksetup pagesize argv info).run as).val = .ok (some sp)) :
    sp = info.stack + info.stacksize - 2 * ARG_BLOCK := by
  unfold stacksetup at h
  obtain ⟨o, -, h, -⟩ := Exec.bind_ok h
  cases o with
  | none => cases h
  | some ptrs =>
    obtain ⟨_, -, h, -⟩ := Exec.bind_ok h
    obtain ⟨ok, -, h, -⟩ := Exec.bind_ok h
    cases ok with
    | false => cases h
    | true =>
      rw [if_pos rfl] at h
      obtain ⟨_, -, h, -⟩ := Exec.bind_ok h
      obtain ⟨_, -, h, -⟩ := Exec.bind_ok h
      obtain ⟨_, -, h, -⟩ := Exec.bind_ok h
      obtain ⟨_, -, h, -⟩ := Exec.bind_ok h
      obtain ⟨_, -, h, -⟩ := Exec.bind_ok h
      obtain ⟨_, -, h, -⟩ := Exec.bind_ok h
      obtain ⟨_, -, h, -⟩ := Exec.bind_ok h
      obtain ⟨_, -, h, -⟩ := Exec.bind_ok h
      obtain ⟨_, -, h, -⟩ := Exec.bind_ok h
      exact (Option.some.inj (Except.ok.inj h)).symm

/-- A process that was set up starts inside its address space, with its stack pointer below the top of
the stack. -/
lemma procsetup_entry {opts : TuxOptions} {prog : Buf} {interp : Option Buf} {p : TuxThread L M}
    {argv : List (List Byte)} (hpg : p.as.info.pagesize.toNat ≤ 2 ^ 20)
    (h : ((procsetup H opts prog interp argv).run p).val = .ok true) :
    ∃ entry, p.as.info.Has entry ∧ ((procsetup H opts prog interp argv).run p).st.sys = p.sys ∧
      ((procsetup H opts prog interp argv).run p).st.as.info = p.as.info ∧
      ((procsetup H opts prog interp argv).run p).st.regs =
        M.regsInit p.regs entry (p.as.info.maxaddr - 2 * ARG_BLOCK) := by
  obtain ⟨info, as1, out1, sp, as2, out2, map, as3, out3, hmap, he, hs, hb, hst⟩ := procsetup_true h
  have hinfo1 : as1.info = p.as.info := by
    have := keeps_lfiProcLoadelf (H := H) prog interp opts.load p.as
    rwa [show (lfiProcLoadelf H prog interp opts.load).run p.as = _ from he] at this
  have hinfo2 : as2.info = as1.info := by
    have := (quiet_stacksetup opts.pagesize argv info as1).2
    rwa [hs] at this
  have hinfo3 : as3.info = as2.info := by
    have := keeps_lfiAsMapat (H := H) info.lastva TUX_BRKMAXSIZE LFI_PROT_NONE as2
    rwa [hb] at this
  have hlast : info.lastva ≠ 0 := by
    intro h0
    obtain ⟨_, hr⟩ | ⟨hg, _⟩ | ⟨hg, _⟩ :=
      lfiAsMapat_cases (H := H) info.lastva TUX_BRKMAXSIZE LFI_PROT_NONE as2
    · rw [hb] at hr
      cases hr
    all_goals
      rw [h0, hinfo2, hinfo1] at hg
      exact not_inGuard_of_lt hpg (by decide) hg
  obtain ⟨hstack, hsize, helf, hld⟩ := lfiProcLoadelf_entries hpg (congrArg Res.val he) hlast
  have hsp : sp = p.as.info.maxaddr - 2 * ARG_BLOCK := by
    rw [stacksetup_sp (congrArg Res.val hs), hstack, hsize, BitVec.sub_add_cancel]
  rw [hst]
  refine ⟨_, ?_, rfl, hinfo3.trans (hinfo2.trans hinfo1), by rw [hsp]⟩
  by_cases hi : interp.isSome
  · rw [if_pos hi]
    exact hld hi
  · rw [if_neg hi]
    exact helf

end Libtux
