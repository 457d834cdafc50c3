import Libtux.Elf.Faithful
import Libtux.Proc.Setup

/-!
# The layout of a process

Where `procsetup` puts things. The program is loaded from `minaddr` on, its interpreter from the end of
the program on, the heap is reserved after the last of them and the stack ends at `maxaddr`. The
bounds come from two places: a segment starts at or above the load base and ends less than `CODEMAX`
above it, since `load` counts both ends of it from the load base (`loadSegs_bounds`), and two images and
the heap reservation leave room below the stack in 4 GiB.

The results are about the calls of `lfi_as_mapat` that a run makes, in its trace.
-/

namespace Libtux
open Lib Elf

variable {L : LibMMap} {M : Machine} {H : HostVm}

/-- The calls of `lfi_as_mapat` in a trace. -/
def mapats (l : List Ev) : List (Word × Word) :=
  l.filterMap fun
    | .mapat addr size => some (addr, size)
    | _ => none

/-- The mappings of two runs, one after the other. -/
lemma mapats_append (l l' : List Ev) : mapats (l ++ l') = mapats l ++ mapats l' :=
  List.filterMap_append

/-- The range of a call lies in `[lo, hi)`. -/
def Within (lo hi : Nat) (r : Word × Word) : Prop :=
  lo ≤ r.1.toNat ∧ r.1.toNat + r.2.toNat ≤ hi

/-- Two ranges have no address in common. -/
def Apart (r t : Word × Word) : Prop :=
  r.1.toNat + r.2.toNat ≤ t.1.toNat ∨ t.1.toNat + t.2.toNat ≤ r.1.toNat

/-- A range within wider bounds. -/
lemma Within.mono {lo hi lo' hi' : Nat} {r : Word × Word} (h : Within lo hi r) (hlo : lo' ≤ lo)
    (hhi : hi ≤ hi') : Within lo' hi' r := ⟨hlo.trans h.1, h.2.trans hhi⟩

/-- Ranges on either side of a bound are apart. -/
lemma Within.apart {lo mid mid' hi : Nat} {r t : Word × Word} (hr : Within lo mid r)
    (ht : Within mid' hi t) (h : mid ≤ mid') : Apart r t := .inl ((hr.2.trans h).trans ht.1)

/-- Ranges are apart from each other. -/
lemma Apart.symm {r t : Word × Word} (h : Apart r t) : Apart t r := Or.symm h

/-- A range inside the usable addresses passes the guard of the mapping calls. -/
lemma Within.inGuard {i : LFIAddrSpaceInfo} {r : Word × Word}
    (h : Within i.minaddr.toNat i.maxaddr.toNat r) : InGuard i r.1 r.2 := by
  obtain ⟨h1, h2⟩ := h
  exact ⟨h1, by bv_omega⟩

/-! ## Images -/

namespace Elf

/-- Some header of the image is mapped. -/
def Buf.Maps (buf : Buf) : Prop := ∃ p ∈ buf.phdrs, p.mapped = true

/-- The loop of `load`, from a load base in the lower half of the address space: what is mapped lies
between the load base and `last`, which stays below the limit of the image. -/
lemma loadSegs_bounds {buf : Buf} {pagesize elfbase : Word} {st st' : LoadState}
    {ps : List ProgHeader} {as : LFIAddrSpace L} (hb : st.base.toNat + 2 ^ 31 < 2 ^ 64)
    (hb0 : st.base ≠ 0)
    (h : ((loadSegs H buf pagesize elfbase st ps).run as).val = .ok (some st')) :
    st'.base = st.base ∧ st.last.toNat ≤ st'.last.toNat ∧
    (st.last.toNat ≤ st.base.toNat + 2 ^ 30 → st'.last.toNat ≤ st.base.toNat + 2 ^ 30) ∧
    ((∃ p ∈ ps, p.mapped = true) → st.base.toNat < st'.last.toNat) ∧
    ((loadSegs H buf pagesize elfbase st ps).run as).st.info = as.info ∧
    ∀ r ∈ mapats ((loadSegs H buf pagesize elfbase st ps).run as).out,
      Within st.base.toNat st'.last.toNat r ∧ InGuard as.info r.1 r.2 := by
  induction ps generalizing st as with
  | nil =>
    simp only [loadSegs, Exec.pure_run, Except.ok.injEq, Option.some.injEq] at h ⊢
    subst h
    refine ⟨rfl, le_rfl, id, ?_, trivial, ?_⟩
    · rintro ⟨p, hp, _⟩
      cases hp
    · intro r hr
      cases hr
  | cons p ps ih =>
    obtain ⟨st1, h1, h2, hst, hout⟩ := loadSegs_cons_some h
    rw [hst, hout, mapats_append]
    obtain ⟨hm, rfl, hr⟩ | ⟨s, pl, sd, hev, rfl⟩ := loadSeg_some h1
    · rw [hr] at h2 ⊢
      obtain ⟨hbase, hle, hlim, hmap, hinfo, hin⟩ := ih hb hb0 h2
      refine ⟨hbase, hle, hlim, ?_, hinfo, hin⟩
      rintro ⟨q, hq, hqm⟩
      obtain rfl | hq := List.mem_cons.mp hq
      · rw [hm] at hqm
        cases hqm
      · exact hmap ⟨q, hq, hqm⟩
    · have hsb : (st.next elfbase p s).base = st.base := by simp only [LoadState.next, if_neg hb0]
      obtain ⟨hbase, hle, hlim, -, hinfo, hin⟩ := ih (by rw [hsb]; exact hb) (by rw [hsb]; exact hb0) h2
      rw [hsb] at hbase hlim hin
      -- the segment lies less than `CODEMAX` above the load base, so none of its ends wraps
      have hlt := pl.lt
      have hstop := pl.stop_lt
      simp only [CODEMAX] at hstop
      have hsstop : (st.base + s.stop).toNat = st.base.toNat + s.stop.toNat := by bv_omega
      have hlast : (st.next elfbase p s).last.toNat = max st.last.toNat (st.base + s.stop).toNat := by
        simp only [LoadState.next, if_neg hb0]
        split
        · bv_omega
        · bv_omega
      have hseg : Within st.base.toNat (st.base + s.stop).toNat
          (st.base + s.start, s.stop - s.start) := by
        refine ⟨?_, ?_⟩ <;> bv_omega
      have hstop' : s.stop.toNat < 2 ^ 30 := by bv_omega
      have hpos : 0 < s.stop.toNat := by bv_omega
      refine ⟨hbase, by omega, fun hl => hlim (by omega), fun _ => by omega, hinfo.trans sd.info, ?_⟩
      intro r hr
      rcases List.mem_append.mp hr with hr | hr
      · rw [hev] at hr
        simp only [mapats, List.filterMap_cons, List.filterMap_nil, List.mem_singleton] at hr
        subst hr
        exact ⟨⟨hseg.1, hseg.2.trans (by omega)⟩, sd.guard⟩
      · obtain ⟨hw, hg⟩ := hin r hr
        exact ⟨hw, sd.info ▸ hg⟩

/-- `load`, from a load base in the lower half of the address space. -/
lemma load_bounds {buf : Buf} {base pagesize : Word} {out : LoadOut} {as : LFIAddrSpace L}
    (hb : base.toNat + 2 ^ 31 < 2 ^ 64) (hb0 : base ≠ 0)
    (h : ((load H buf base pagesize).run as).val = .ok (some out)) :
    (buf.Maps → base.toNat < out.last.toNat) ∧ out.last.toNat ≤ base.toNat + 2 ^ 30 ∧
    out.entry.toNat < (elfBase as.info buf.ehdr.type base).toNat + 2 ^ 30 ∧
    (elfBase as.info buf.ehdr.type base).toNat ≤ out.entry.toNat ∧
    ((load H buf base pagesize).run as).st.info = as.info ∧
    ∀ r ∈ mapats ((load H buf base pagesize).run as).out,
      Within base.toNat out.last.toNat r ∧ InGuard as.info r.1 r.2 := by
  obtain ⟨ac, st, hs, hst, hout, rfl⟩ := load_some h
  obtain ⟨hbase, -, hlim, hmap, hinfo, hin⟩ := loadSegs_bounds hb hb0 hs
  rw [hst, hout]
  have hentry := ac.entry
  simp only [CODEMAX] at hentry
  have htop := as.info.base_top
  have hen : (elfBase as.info buf.ehdr.type base + buf.ehdr.entry).toNat =
      (elfBase as.info buf.ehdr.type base).toNat + buf.ehdr.entry.toNat := by
    unfold elfBase
    split <;> bv_omega
  have heq : (if buf.ehdr.type = ET_DYN then st.base + buf.ehdr.entry
      else as.info.base + buf.ehdr.entry) = elfBase as.info buf.ehdr.type base + buf.ehdr.entry := by
    unfold elfBase
    rw [hbase]
    split <;> rfl
  have hlt : buf.ehdr.entry.toNat < 2 ^ 30 := by bv_omega
  refine ⟨hmap, hlim (by simp), ?_, ?_, hinfo, hin⟩
  · simp only [heq, hen]
    omega
  · simp only [heq, hen]
    omega

/-- The run of the stack mapping of `lfi_proc_loadelf`. -/
def stackRun (H : HostVm) (opts : LFILoadOpts) (as : LFIAddrSpace L) : Res Stop Ev (LFIAddrSpace L) Word :=
  (lfiAsMapat H (as.info.maxaddr - opts.stacksize) opts.stacksize (LFI_PROT_READ ||| LFI_PROT_WRITE)
    none).run as

/-- The run of `load` for the program. -/
def progRun (H : HostVm) (opts : LFILoadOpts) (prog : Buf) (as : LFIAddrSpace L) :
    Res Stop Ev (LFIAddrSpace L) (Option LoadOut) :=
  (load H prog as.info.minaddr opts.pagesize).run (stackRun H opts as).st

/-- The run of `load` for an interpreter, after a program that ends at `plast`. -/
def interpRun (H : HostVm) (opts : LFILoadOpts) (prog ib : Buf) (plast : Word) (as : LFIAddrSpace L) :
    Res Stop Ev (LFIAddrSpace L) (Option LoadOut) :=
  (load H ib plast opts.pagesize).run (progRun H opts prog as).st

/-- Inversion for the interpreter. -/
lemma loadInterp_some {interp : Option Buf} {plast pagesize : Word} {i : Option LoadOut}
    {as : LFIAddrSpace L} (h : ((loadInterp H interp plast pagesize).run as).val = .ok (some i)) :
    (interp = none ∧ i = none ∧ (loadInterp H interp plast pagesize).run as = ⟨.ok (some none), as, []⟩) ∨
    ∃ ib o, interp = some ib ∧ i = some o ∧
      ((load H ib plast pagesize).run as).val = .ok (some o) ∧
      ((loadInterp H interp plast pagesize).run as).st = ((load H ib plast pagesize).run as).st ∧
      ((loadInterp H interp plast pagesize).run as).out = ((load H ib plast pagesize).run as).out := by
  cases interp with
  | none =>
    simp only [loadInterp, Exec.pure_run, Except.ok.injEq, Option.some.injEq] at h
    exact .inl ⟨rfl, h.symm, rfl⟩
  | some ib =>
    right
    simp only [loadInterp, Exec.bind_run] at h ⊢
    generalize hr : (load H ib plast pagesize).run as = r at h ⊢
    obtain ⟨v, st, l⟩ := r
    cases v with
    | error e => cases h
    | ok o =>
      cases o with
      | none => simp at h
      | some o =>
        simp only [Exec.andThen_ok, Exec.pure_run, Except.ok.injEq, Option.some.injEq] at h
        refine ⟨ib, o, rfl, h.symm, ?_, ?_, ?_⟩
        · rw [hr]
        · simp [hr]
        · simp [hr]

/-- The calls of an `lfi_proc_loadelf` that returned true. -/
structure LoadedElf (H : HostVm) (opts : LFILoadOpts) (prog : Buf) (interp : Option Buf)
    (as : LFIAddrSpace L) (p : LoadOut) (i : Option LoadOut) (out : List Ev) : Prop where
  guard : InGuard as.info (as.info.maxaddr - opts.stacksize) opts.stacksize
  info : (stackRun H opts as).st.info = as.info
  prog_ok : (progRun H opts prog as).val = .ok (some p)
  interp_ok : ∀ ib, interp = some ib →
    ∃ o, i = some o ∧ (interpRun H opts prog ib p.last as).val = .ok (some o)
  no_interp : interp = none → i = none
  out_eq : out = .mapat (as.info.maxaddr - opts.stacksize) opts.stacksize :: (progRun H opts prog as).out ++
    (interp.map fun ib => (interpRun H opts prog ib p.last as).out).getD []

/-- The runs of an `lfi_proc_loadelf` that returns true, one after the other. -/
lemma lfiProcLoadelf_run {opts : LFILoadOpts} {prog : Buf} {interp : Option Buf} {info : LFILoadInfo}
    {as : LFIAddrSpace L}
    (h : ((lfiProcLoadelf H prog interp opts).run as).val = .ok (some info)) :
    ∃ p i, InGuard as.info (as.info.maxaddr - opts.stacksize) opts.stacksize ∧
      (stackRun H opts as).st.info = as.info ∧
      (progRun H opts prog as).val = .ok (some p) ∧
      ((loadInterp H interp p.last opts.pagesize).run (progRun H opts prog as).st).val = .ok (some i) ∧
      opts.perf ≠ some false ∧
      info = loadInfo prog (as.info.maxaddr - opts.stacksize) opts.stacksize p i ∧
      ((lfiProcLoadelf H prog interp opts).run as).st =
        ((loadInterp H interp p.last opts.pagesize).run (progRun H opts prog as).st).st ∧
      ((lfiProcLoadelf H prog interp opts).run as).out =
        .mapat (as.info.maxaddr - opts.stacksize) opts.stacksize :: (progRun H opts prog as).out ++
          ((loadInterp H interp p.last opts.pagesize).run (progRun H opts prog as).st).out := by
  unfold lfiProcLoadelf at h ⊢
  obtain ⟨as', has, h, hst, hout⟩ := Exec.bind_ok h
  cases has
  obtain ⟨stack, hstack, h, hst1, hout1⟩ := Exec.bind_ok h
  rw [hst, hst1, hout, hout1]
  simp only [Exec.get_run] at hstack h ⊢
  obtain ⟨_, hr⟩ | ⟨_, st, _, hr | hr⟩ | ⟨hg, _, _, st, hf, hr⟩ := lfiAsMapat_cases (H := H)
    (as.info.maxaddr - opts.stacksize) opts.stacksize (LFI_PROT_READ ||| LFI_PROT_WRITE) as
  · rw [hr] at hstack
    cases hstack
  · rw [hr] at hstack h
    rw [if_pos (Except.ok.inj hstack).symm] at h
    cases h
  · rw [hr] at hstack
    cases hstack
  rw [hr] at hstack
  have hstk := Except.ok.inj hstack
  have hinfo : (stackRun H opts as).st.info = as.info := by
    rw [stackRun, hr]
    exact hf.info
  have hsout : (stackRun H opts as).out = [.mapat (as.info.maxaddr - opts.stacksize) opts.stacksize] := by
    rw [stackRun, hr]
  have hst : ((lfiAsMapat H (as.info.maxaddr - opts.stacksize) opts.stacksize
    (LFI_PROT_READ ||| LFI_PROT_WRITE) none).run as) = stackRun H opts as := rfl
  rw [hst, hsout]
  rw [hst] at h
  by_cases hne : stack = mapFailed
  · rw [if_pos hne] at h
    cases h
  rw [if_neg hne] at h ⊢
  obtain ⟨o, ho, h, hst, hout⟩ := Exec.bind_ok h
  have hprog : (load H prog as.info.minaddr opts.pagesize).run (stackRun H opts as).st =
    progRun H opts prog as := rfl
  rw [hst, hout]
  rw [hprog] at ho h ⊢
  cases o with
  | none => cases h
  | some p =>
    obtain ⟨i, hi, h, hst, hout⟩ := Exec.bind_ok h
    simp only at h ⊢
    rw [hst, hout]
    cases i with
    | none => cases h
    | some i =>
      simp only at h ⊢
      by_cases hperf : opts.perf = some false
      · rw [if_pos hperf] at h
        cases h
      rw [if_neg hperf] at h ⊢
      obtain ⟨_, hck, h, hst, hout⟩ := Exec.bind_ok h
      have hinf : loadInfo prog stack opts.stacksize p i = info := Option.some.inj (Except.ok.inj h)
      rw [hst, hout, (Exec.quiet_check (f := id) _ _ _).1]
      refine ⟨p, i, hg, hinfo, ho, hi, hperf, by rw [hstk, hinf], ?_, by simp⟩
      rw [Exec.pure_run]
      exact (Exec.quiet_check (f := id) _ _ _).2

/-- Inversion for an `lfi_proc_loadelf` that returns true. -/
lemma lfiProcLoadelf_some {opts : LFILoadOpts} {prog : Buf} {interp : Option Buf} {info : LFILoadInfo}
    {as : LFIAddrSpace L}
    (h : ((lfiProcLoadelf H prog interp opts).run as).val = .ok (some info)) :
    ∃ p i, LoadedElf H opts prog interp as p i ((lfiProcLoadelf H prog interp opts).run as).out ∧
      info = loadInfo prog (as.info.maxaddr - opts.stacksize) opts.stacksize p i := by
  obtain ⟨p, i, hg, hinfo, ho, hi, -, rfl, -, hout⟩ := lfiProcLoadelf_run h
  rw [hout]
  refine ⟨p, i, ⟨hg, hinfo, ho, ?_, ?_, ?_⟩, rfl⟩
  · rintro ib rfl
    obtain ⟨hno, _⟩ | ⟨ib', o, hib, ho, hval, _⟩ := loadInterp_some hi
    · cases hno
    · cases hib
      exact ⟨o, ho, hval⟩
  · rintro rfl
    obtain ⟨_, hi, _⟩ | ⟨ib', o, hib, _⟩ := loadInterp_some hi
    · exact hi
    · cases hib
  · obtain ⟨rfl, _, heq⟩ | ⟨ib', o, rfl, _, _, _, hiout⟩ := loadInterp_some hi
    · rw [heq]
      simp
    · rw [hiout]
      simp [interpRun]

end Elf

/-! ## The setup -/

section
open Exec

/-- A store maps nothing, -/
lemma quiet_store64 (p v : Word) : Quiet (·.info) (store64 p v : Vm L Unit) := quiet_modify fun _ => rfl

/-- and neither does one to the stack, -/
lemma quiet_stackStore (stack_top p v : Word) : Quiet (·.info) (stackStore stack_top p v : Vm L Unit) :=
  .bind (quiet_check _ _) fun _ => quiet_store64 p v

/-- a check of a pointer, -/
lemma quiet_lfiAsToptr (p : Word) : Quiet (·.info) (lfiAsToptr p : Vm L Word) :=
  .bind quiet_get fun _ => .bind (quiet_check _ _) fun _ => quiet_pure _

/-- the strings, -/
lemma quiet_stackStrings (stack_top : Word) (argv : List (List Byte)) (p_argv : Word)
    (ptrs : List Word) : Quiet (·.info) (stackStrings stack_top p_argv argv ptrs : Vm L _) := by
  induction argv generalizing p_argv ptrs with
  | nil => exact quiet_pure _
  | cons arg argv ih =>
    refine .ite (quiet_pure _) ?_
    exact .bind (quiet_modify fun _ => rfl) fun _ => .bind (quiet_check _ _) fun _ => ih _ _

/-- the pointers to them, -/
lemma quiet_stackPointers (stack_top p_argvp : Word) (i : Nat) (ptrs : List Word) :
    Quiet (·.info) (stackPointers stack_top p_argvp i ptrs : Vm L _) := by
  induction ptrs generalizing i with
  | nil => exact quiet_pure _
  | cons ptr ptrs ih =>
    refine .ite (quiet_pure _) ?_
    exact .bind (quiet_lfiAsToptr _) fun _ => .bind (quiet_stackStore _ _ _) fun _ => ih _

/-- or the vector. -/
lemma quiet_stackAuxv (stack_top av : Word) (l : List (Word × Word)) :
    Quiet (·.info) (stackAuxv stack_top av l : Vm L _) := by
  induction l generalizing av with
  | nil => exact quiet_pure _
  | cons e l ih =>
    exact .bind (quiet_stackStore _ _ _) fun _ => .bind (quiet_stackStore _ _ _) fun _ => ih _

/-- `stacksetup` maps nothing. -/
lemma quiet_stacksetup (pagesize : Word) (argv : List (List Byte)) (info : LFILoadInfo) :
    Quiet (·.info) (stacksetup pagesize argv info : Vm L _) := by
  refine .bind (quiet_stackStrings _ _ _ _) fun o => ?_
  cases o with
  | none => exact quiet_pure _
  | some ptrs =>
    refine .bind (quiet_stackStore _ _ _) fun _ => .bind (quiet_stackPointers _ _ _ _) fun ok => ?_
    refine .ite ?_ (quiet_pure _)
    refine .bind (quiet_stackStore _ _ _) fun _ => .bind (quiet_stackStore _ _ _) fun _ => ?_
    refine .bind (quiet_stackAuxv _ _ _) fun _ => .bind (quiet_gets _) fun _ => ?_
    refine .bind (quiet_lfiAsToptr _) fun _ => .bind (quiet_stackAuxv _ _ _) fun _ => ?_
    refine .bind (quiet_gets _) fun _ => .bind (quiet_lfiAsToptr _) fun _ => ?_
    exact .bind (quiet_stackAuxv _ _ _) fun _ => quiet_pure _

end

/-- A call of `lfi_as_mapat` is one mapping call. -/
lemma lfiAsMapat_out (addr size : Word) (prot : CInt) (as : LFIAddrSpace L) :
    ((lfiAsMapat H addr size prot none).run as).out = [.mapat addr size] := by
  obtain ⟨_, h⟩ | ⟨_, _, _, h | h⟩ | ⟨_, _, _, _, _, h⟩ := lfiAsMapat_cases (H := H) addr size prot as
  all_goals rw [h]

/-- After the images are loaded, `procsetup` makes at most one mapping call, the heap reservation, and
makes it if it returns true. -/
lemma procsetup_out {opts : TuxOptions} {prog : Buf} {interp : Option Buf} {info : LFILoadInfo}
    {p : TuxThread L M} (argv : List (List Byte))
    (h : ((elfload H opts prog interp).run p.as).val = .ok (some info)) :
    ∃ b, ((procsetup H opts prog interp argv).run p).out =
        ((elfload H opts prog interp).run p.as).out ++ b ∧
      (b = [] ∨ b = [.mapat info.lastva TUX_BRKMAXSIZE]) ∧
      (((procsetup H opts prog interp argv).run p).val = .ok true →
        b = [.mapat info.lastva TUX_BRKMAXSIZE]) := by
  simp only [procsetup, Exec.bind_run, onAs_run]
  generalize (elfload H opts prog interp).run p.as = r at h
  obtain ⟨v, as, l⟩ := r
  simp only at h
  subst h
  rw [Exec.andThen_ok]
  have hq := quiet_stacksetup (L := L) opts.pagesize argv info as
  simp only [Exec.bind_run, onAs_run]
  generalize (stacksetup opts.pagesize argv info).run as = r at hq
  obtain ⟨v, as1, l1⟩ := r
  obtain ⟨rfl, -⟩ := hq
  cases v with
  | error e => exact ⟨[], rfl, .inl rfl, fun hc => by cases hc⟩
  | ok o =>
    rw [Exec.andThen_ok_nil]
    cases o with
    | none => exact ⟨[], rfl, .inl rfl, fun hc => by cases hc⟩
    | some sp =>
      refine ⟨[.mapat info.lastva TUX_BRKMAXSIZE], ?_, .inr rfl, fun _ => rfl⟩
      simp only [Exec.bind_run, Exec.modify_run, Exec.andThen_ok_nil, onAs_run]
      have hout := lfiAsMapat_out (H := H) info.lastva TUX_BRKMAXSIZE LFI_PROT_NONE as1
      generalize (lfiAsMapat H info.lastva TUX_BRKMAXSIZE LFI_PROT_NONE none).run as1 = r at hout
      obtain ⟨v, as2, l2⟩ := r
      simp only at hout
      subst hout
      cases v with
      | error e => rfl
      | ok a =>
        rw [Exec.andThen_ok_ite]
        split <;> rfl

/-- Inversion of a `procsetup` that returned true. -/
lemma procsetup_true {opts : TuxOptions} {prog : Buf} {interp : Option Buf} {p : TuxThread L M}
    {argv : List (List Byte)} (h : ((procsetup H opts prog interp argv).run p).val = .ok true) :
    ∃ info as1 out1 sp as2 out2 map as3 out3, map ≠ mapFailed ∧
      (elfload H opts prog interp).run p.as = ⟨.ok (some info), as1, out1⟩ ∧
      (stacksetup opts.pagesize argv info).run as1 = ⟨.ok (some sp), as2, out2⟩ ∧
      (lfiAsMapat H info.lastva TUX_BRKMAXSIZE LFI_PROT_NONE none).run as2 = ⟨.ok map, as3, out3⟩ ∧
      ((procsetup H opts prog interp argv).run p).st =
        { p with
          as := as3
          regs := M.regsInit p.regs (if interp.isSome then info.ldentry else info.elfentry) sp
          brkbase := info.lastva
          brksize := 0 } := by
  unfold procsetup at h ⊢
  obtain ⟨o, ho, h, hst, _⟩ := Exec.bind_ok h
  obtain ⟨as1, out1, he, hp1⟩ := onAs_ok ho
  rw [hst]
  rw [hp1] at h ⊢
  cases o with
  | none => cases h
  | some info =>
    obtain ⟨o, ho, h, hst, _⟩ := Exec.bind_ok h
    obtain ⟨as2, out2, hs, hp2⟩ := onAs_ok ho
    rw [hst]
    rw [hp2] at h ⊢
    cases o with
    | none => cases h
    | some sp =>
      obtain ⟨_, _, h, hst, _⟩ := Exec.bind_ok h
      rw [hst]
      rw [Exec.modify_run] at h ⊢
      obtain ⟨map, ho, h, hst, _⟩ := Exec.bind_ok h
      obtain ⟨as3, out3, hb, hp3⟩ := onAs_ok ho
      rw [hst]
      rw [hp3] at h ⊢
      have hmap : map ≠ mapFailed := by
        rintro rfl
        rw [if_pos rfl] at h
        cases h
      rw [if_neg hmap, Exec.pure_run]
      exact ⟨info, as1, out1, sp, as2, out2, map, as3, out3, hmap, he, hs, hb, rfl⟩

/-- The mapping calls of a process setup, by what they are for. -/
structure Regions where
  stack : List (Word × Word)
  prog : List (Word × Word)
  interp : List (Word × Word)
  brk : List (Word × Word)

/-- All regions, in the order in which they are mapped. -/
def Regions.all (g : Regions) : List (Word × Word) := g.stack ++ g.prog ++ g.interp ++ g.brk

/-- The layout of a process whose program ends at `plast` and whose heap starts at `lastva`. -/
structure Layout (i : LFIAddrSpaceInfo) (plast lastva : Word) (g : Regions) : Prop where
  stack : g.stack = [(i.maxaddr - STACKSIZE, STACKSIZE)]
  prog : ∀ r ∈ g.prog, Within i.minaddr.toNat plast.toNat r
  interp : ∀ r ∈ g.interp, Within plast.toNat lastva.toNat r
  brk : ∀ r ∈ g.brk, r = (lastva, TUX_BRKMAXSIZE)
  guard : ∀ r ∈ g.all, InGuard i r.1 r.2
  inside : ∀ r ∈ g.all, Within i.minaddr.toNat i.maxaddr.toNat r
  apart : [g.stack, g.prog, g.interp, g.brk].Pairwise fun xs ys => ∀ r ∈ xs, ∀ t ∈ ys, Apart r t

/-- What the bounds of the two images give for the layout. The stack starts at `top`. -/
lemma Layout.of_bounds {i : LFIAddrSpaceInfo} {plast lastva : Word} {g : Regions}
    (hpg : i.pagesize.toNat ≤ 2 ^ 20) (hp : i.minaddr.toNat < plast.toNat)
    (hpi : plast.toNat ≤ lastva.toNat) (hlast : lastva.toNat ≤ i.minaddr.toNat + 2 ^ 31)
    (stack : g.stack = [(i.maxaddr - STACKSIZE, STACKSIZE)])
    (prog : ∀ r ∈ g.prog, Within i.minaddr.toNat plast.toNat r ∧ InGuard i r.1 r.2)
    (interp : ∀ r ∈ g.interp, Within plast.toNat lastva.toNat r ∧ InGuard i r.1 r.2)
    (brk : ∀ r ∈ g.brk, r = (lastva, TUX_BRKMAXSIZE)) : Layout i plast lastva g := by
  have hmin := i.minaddr_toNat (by omega)
  have hmax := i.maxaddr_toNat
  have htop := i.base_top
  have hsp : (i.maxaddr - STACKSIZE).toNat = i.maxaddr.toNat - 2 ^ 21 := by
    simp only [STACKSIZE]
    bv_omega
  have hss : STACKSIZE.toNat = 2 ^ 21 := rfl
  have hbs : TUX_BRKMAXSIZE.toNat = 2 ^ 29 := rfl
  have hstack : ∀ r ∈ g.stack, Within (i.maxaddr.toNat - 2 ^ 21) i.maxaddr.toNat r := by
    intro r hr
    rw [stack, List.mem_singleton] at hr
    subst hr
    exact ⟨hsp.ge, by simp only [hsp, hss]; omega⟩
  have hbrk : ∀ r ∈ g.brk, Within lastva.toNat (i.maxaddr.toNat - 2 ^ 21) r := by
    intro r hr
    rw [brk r hr]
    exact ⟨le_rfl, by simp only [hbs]; omega⟩
  have hprog := fun r hr => (prog r hr).1
  have hinterp := fun r hr => (interp r hr).1
  have hin : ∀ r ∈ g.all, Within i.minaddr.toNat i.maxaddr.toNat r := by
    intro r hr
    simp only [Regions.all, List.mem_append, or_assoc] at hr
    rcases hr with hr | hr | hr | hr
    · exact (hstack r hr).mono (by omega) le_rfl
    · exact (hprog r hr).mono le_rfl (by omega)
    · exact (hinterp r hr).mono (by omega) (by omega)
    · exact (hbrk r hr).mono (by omega) (by omega)
  refine ⟨stack, hprog, hinterp, brk, fun r hr => (hin r hr).inGuard, hin, ?_⟩
  refine .cons ?_ (.cons ?_ (.cons ?_ (.cons ?_ .nil)))
  · intro ys hys r hr t ht
    simp only [List.mem_cons, List.not_mem_nil, or_false] at hys
    rcases hys with rfl | rfl | rfl
    · exact ((hprog t ht).apart (hstack r hr) (by omega)).symm
    · exact ((hinterp t ht).apart (hstack r hr) (by omega)).symm
    · exact ((hbrk t ht).apart (hstack r hr) le_rfl).symm
  · intro ys hys r hr t ht
    simp only [List.mem_cons, List.not_mem_nil, or_false] at hys
    rcases hys with rfl | rfl
    · exact (hprog r hr).apart (hinterp t ht) le_rfl
    · exact (hprog r hr).apart (hbrk t ht) hpi
  · intro ys hys r hr t ht
    rw [List.mem_singleton] at hys
    subst hys
    exact (hinterp r hr).apart (hbrk t ht) le_rfl
  · intro ys hys
    cases hys

/-- An address of the address space. -/
def LFIAddrSpaceInfo.Has (i : LFIAddrSpaceInfo) (x : Word) : Prop :=
  i.base.toNat ≤ x.toNat ∧ x.toNat < i.base.toNat + i.size.toNat

/-- An entry point counted from the load base, or from the base for a fixed image, is an address of the
address space. -/
lemma LFIAddrSpaceInfo.has_entry {i : LFIAddrSpaceInfo} {type : BitVec 16} {base x : Word}
    (hlo : i.base.toNat ≤ base.toNat) (hhi : base.toNat + 2 ^ 30 ≤ i.base.toNat + 2 ^ 32)
    (h1 : x.toNat < (elfBase i type base).toNat + 2 ^ 30) (h2 : (elfBase i type base).toNat ≤ x.toNat) :
    i.Has x := by
  have hsize := i.size_toNat
  unfold elfBase at h1 h2
  unfold LFIAddrSpaceInfo.Has
  by_cases hty : type = ET_DYN
  · rw [if_pos hty] at h1 h2
    omega
  · rw [if_neg hty] at h1 h2
    omega

/-- The mapping calls of a process whose program ends at `plast`, with the ones for the heap given. -/
def regions (H : HostVm) (opts : TuxOptions) (prog : Buf) (interp : Option Buf) (plast : Word)
    (as : LFIAddrSpace L) (brk : List (Word × Word)) : Regions where
  stack := mapats (stackRun H opts.load as).out
  prog := mapats (progRun H opts.load prog as).out
  interp := mapats ((interp.map fun ib => (interpRun H opts.load prog ib plast as).out).getD [])
  brk

/-- `procsetup` keeps the program, its interpreter, the heap and the stack apart and inside the usable
addresses, for any two images that `lfi_proc_loadelf` accepts and that map something. The entry points
lie in the address space; without an interpreter there is no second one. -/
theorem procsetup_layout (argv : List (List Byte)) {opts : TuxOptions} {prog : Buf}
    {interp : Option Buf} {info : LFILoadInfo} {p : TuxThread L M}
    (hk : opts.pagesize.toNat ≤ 2 ^ 20)
    (hpg : p.as.info.pagesize = opts.pagesize) (hm : prog.Maps)
    (hmi : ∀ ib, interp = some ib → ib.Maps)
    (h : ((elfload H opts prog interp).run p.as).val = .ok (some info)) :
    ∃ out brk, (progRun H opts.load prog p.as).val = .ok (some out) ∧
      (interp = none → info.lastva = out.last ∧ info.ldentry = 0) ∧
      (∀ ib, interp = some ib →
        ∃ o, (interpRun H opts.load prog ib out.last p.as).val = .ok (some o) ∧
          info.lastva = o.last ∧ p.as.info.Has info.ldentry) ∧
      p.as.info.Has info.elfentry ∧
      mapats ((procsetup H opts prog interp argv).run p).out =
        (regions H opts prog interp out.last p.as brk).all ∧
      (((procsetup H opts prog interp argv).run p).val = .ok true →
        brk = [(info.lastva, TUX_BRKMAXSIZE)]) ∧
      Layout p.as.info out.last info.lastva (regions H opts prog interp out.last p.as brk) := by
  obtain ⟨out, i, le, rfl⟩ := lfiProcLoadelf_some h
  obtain ⟨b, hbout, hb, hbtrue⟩ := procsetup_out (M := M) argv h
  have hmin := p.as.info.minaddr_toNat (by rw [hpg]; omega)
  have htop := p.as.info.base_top
  have hsize := p.as.info.size_toNat
  have hpg' : p.as.info.pagesize.toNat ≤ 2 ^ 20 := by rw [hpg]; exact hk
  have hstack : mapats (stackRun H opts.load p.as).out = [(p.as.info.maxaddr - STACKSIZE, STACKSIZE)] := by
    rw [stackRun, lfiAsMapat_out]
    rfl
  have hb0 : p.as.info.minaddr ≠ 0 := by
    intro h0
    rw [h0, show (0 : Word).toNat = 0 from rfl] at hmin
    omega
  obtain ⟨hp1, hp2, he1, he2, hpinfo, hpin⟩ := load_bounds (by omega) hb0 le.prog_ok
  have hp1 := hp1 hm
  rw [le.info] at he1 he2 hpinfo hpin
  have hmaps : mapats ((procsetup H opts prog interp argv).run p).out =
      (regions H opts prog interp out.last p.as (mapats b)).all := by
    rw [hbout, elfload, le.out_eq]
    simp only [mapats_append, Regions.all, regions, hstack]
    rfl
  have hint : ∀ ib, interp = some ib → ∃ o, i = some o ∧
      (interpRun H opts.load prog ib out.last p.as).val = .ok (some o) ∧
      out.last.toNat < o.last.toNat ∧ o.last.toNat ≤ out.last.toNat + 2 ^ 30 ∧ p.as.info.Has o.entry ∧
      ∀ r ∈ mapats (interpRun H opts.load prog ib out.last p.as).out,
        Within out.last.toNat o.last.toNat r ∧ InGuard p.as.info r.1 r.2 := by
    intro ib hib
    obtain ⟨o, hio, ho⟩ := le.interp_ok ib hib
    have hl0 : out.last ≠ 0 := by
      intro h0
      rw [h0] at hp1
      exact Nat.not_lt_zero _ hp1
    obtain ⟨hi1, hi2, hie1, hie2, -, hiin⟩ := load_bounds (by omega) hl0 ho
    have hi1 := hi1 (hmi ib hib)
    have hpinfo : (progRun H opts.load prog p.as).st.info = p.as.info := hpinfo
    rw [hpinfo] at hie1 hie2 hiin
    exact ⟨o, hio, ho, hi1, hi2, LFIAddrSpaceInfo.has_entry (by omega) (by omega) hie1 hie2, hiin⟩
  refine ⟨out, mapats b, le.prog_ok, ?_, ?_, LFIAddrSpaceInfo.has_entry (by omega) (by omega) he1 he2,
    hmaps, fun hv => by rw [hbtrue hv]; rfl, ?_⟩
  · rintro hno
    rw [le.no_interp hno]
    exact ⟨rfl, rfl⟩
  · intro ib hib
    obtain ⟨o, rfl, ho, -, -, hentry, -⟩ := hint ib hib
    exact ⟨o, ho, rfl, hentry⟩
  · have hbrk : ∀ r ∈ mapats b, r = ((loadInfo prog (p.as.info.maxaddr - opts.load.stacksize)
        opts.load.stacksize out i).lastva, TUX_BRKMAXSIZE) := by
      intro r hr
      rcases hb with rfl | rfl
      · cases hr
      · exact List.mem_singleton.mp hr
    cases interp with
    | none =>
      rw [le.no_interp rfl] at hbrk ⊢
      have hlast : out.last.toNat ≤ p.as.info.minaddr.toNat + 2 ^ 31 := by omega
      exact .of_bounds hpg' hp1 le_rfl hlast hstack hpin (fun r hr => by cases hr) hbrk
    | some ib =>
      obtain ⟨o, rfl, -, hi1, hi2, -, hiin⟩ := hint ib rfl
      have hlast : o.last.toNat ≤ p.as.info.minaddr.toNat + 2 ^ 31 := by omega
      exact .of_bounds hpg' hp1 hi1.le hlast hstack hpin hiin hbrk

/-- The options of a process with pages of 4 KiB and no perf map. -/
def TuxOptions.plain : TuxOptions := ⟨4096, none, false⟩

/-- What `lfi_proc_loadelf` reports for `textImage` alone. -/
def textInfo : LFILoadInfo :=
  let i := LFIAddrSpaceInfo.plain
  { stack := i.maxaddr - STACKSIZE
    stacksize := STACKSIZE
    lastva := i.minaddr + 4096
    elfentry := i.minaddr + 8
    ldentry := 0
    elfbase := i.minaddr
    ldbase := i.minaddr
    elfphoff := 64
    elfphnum := 1
    elfphentsize := 56 }

/-- What it reports for `textImage` with itself as the interpreter. -/
def textInterpInfo : LFILoadInfo :=
  let i := LFIAddrSpaceInfo.plain
  { textInfo with
    lastva := i.minaddr + 8192
    ldentry := i.minaddr + 4104
    ldbase := i.minaddr + 4096 }

/-- The layout of a process that runs `textImage` with itself as the interpreter. -/
theorem procsetup_textImage_layout :
    ∃ plast brk, LFIAddrSpaceInfo.plain.Has textInterpInfo.ldentry ∧
      Layout .plain plast textInterpInfo.lastva
        (regions (.plain fun _ _ _ => true) .plain textImage (some textImage) plast (.fresh .plain)
          brk) := by
  have hm : textImage.Maps := ⟨textHeader, by decide +kernel, by decide⟩
  have hmi : ∀ ib, some textImage = some ib → ib.Maps := by
    rintro _ ⟨⟩
    exact hm
  let p : TuxThread .ofRanges .x64 := procnewfile (.fresh .plain) 10000
  have h : ((elfload (.plain fun _ _ _ => true) .plain textImage (some textImage)).run p.as).val =
      .ok (some textInterpInfo) := by decide +kernel
  obtain ⟨out, brk, _, _, hint, _, _, _, hl⟩ := procsetup_layout [[]] (by decide) rfl hm hmi h
  obtain ⟨_, _, _, hld⟩ := hint textImage rfl
  exact ⟨out.last, brk, hld, hl⟩

/-- Without an interpreter the second entry point is `0`, which is not an address of the address
space. -/
theorem elfload_textImage_ldentry :
    textImage.Maps ∧
    ((elfload (.plain fun _ _ _ => true) .plain textImage none).run (.fresh .plain)).val =
      .ok (some textInfo) ∧
    ¬ LFIAddrSpaceInfo.plain.Has textInfo.ldentry := by
  refine ⟨⟨textHeader, by decide +kernel, by decide⟩, by decide +kernel, ?_⟩
  unfold LFIAddrSpaceInfo.Has
  decide +kernel

end Libtux
