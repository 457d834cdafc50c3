import Libtux.Proc.Fatal
import Libtux.Sys.Brk

/-!
# Whole pages

Every address at which something is mapped should be a multiple of the page size, whatever it is. An address
space starts at a multiple of 4 GiB, but `minaddr` and `maxaddr` are 80 KiB inside of it, which is five pages of
16 KiB: they are multiples of the page size exactly up to that size. From there on the alignment is kept: a
segment starts and ends at multiples of its own alignment, which `load` checks, so the end of an image, the load
base of the next one and the heap are multiples of the page size too (`pages_aligned_iff`).
-/

namespace Libtux
open Lib Elf

/-- An event maps at a multiple of `2 ^ k` only. -/
def OnPage (k : Nat) : Ev → Prop
  | .mapat addr _ => 2 ^ k ∣ addr.toNat
  | _ => True

section
variable {L : LibMMap} {M : Machine} {H : HostVm} {k : Nat}

/-- Sums of aligned words are aligned, also when they wrap. -/
lemma dvd_add_word {x y : Word} (hk : k ≤ 64) (hx : 2 ^ k ∣ x.toNat) (hy : 2 ^ k ∣ y.toNat) :
    2 ^ k ∣ (x + y).toNat := by
  rw [BitVec.toNat_add]
  exact (Nat.dvd_mod_iff (Nat.pow_dvd_pow 2 hk)).mpr (Nat.dvd_add hx hy)

/-- A mapping at an aligned address. -/
lemma onPage_mapat {addr size : Word} {prot : CInt} {as : LFIAddrSpace L} (h : 2 ^ k ∣ addr.toNat) :
    Exec.All (OnPage k) (lfiAsMapat H addr size prot none) as := by
  intro e he
  rw [lfiAsMapat_out] at he
  obtain rfl := List.mem_singleton.mp he
  exact h

namespace Elf

/-- A planned segment starts and ends at multiples of the page size, counted from the load base. -/
lemma Placed.on_page {i : LFIAddrSpaceInfo} {type : BitVec 16} {base pagesize : Word} {p : ProgHeader} {s : Seg}
    (hk : k ≤ 64) (hpage : pagesize.toNat = 2 ^ k) (hb : 2 ^ k ∣ base.toNat) (hi : 2 ^ k ∣ i.base.toNat)
    (pl : Placed i type base pagesize p s) : 2 ^ k ∣ s.start.toNat ∧ 2 ^ k ∣ s.stop.toNat := by
  have hal : 2 ^ k ∣ p.align.toNat := by
    have h := congrArg BitVec.toNat pl.align
    rw [BitVec.toNat_umod, hpage] at h
    exact Nat.dvd_of_mod_eq_zero h
  have hrebase : ∀ x : Word, 2 ^ k ∣ x.toNat → 2 ^ k ∣ (rebase i type base x).toNat := by
    intro x hx
    unfold rebase
    split
    · exact dvd_sub_word hk hx (dvd_sub_word hk hb hi)
    · exact hx
  rw [pl.start, pl.stop]
  exact ⟨hrebase _ (dvd_truncp hk hal), hrebase _ (dvd_ceilp hk hal)⟩

/-- One segment is mapped at a multiple of the page size. -/
lemma onPage_loadSeg {buf : Buf} {pagesize elfbase : Word} {st : LoadState} {p : ProgHeader}
    {as : LFIAddrSpace L} (hk : k ≤ 64) (hpage : pagesize.toNat = 2 ^ k) (hb : 2 ^ k ∣ st.base.toNat)
    (hi : 2 ^ k ∣ as.info.base.toNat) :
    Exec.All (OnPage k) (loadSeg H buf pagesize elfbase st p) as := by
  rw [loadSeg, Exec.all_bind]
  refine ⟨Exec.emits_get as, fun as' h => ?_⟩
  obtain rfl : as' = as := (Except.ok.inj h).symm
  cases hp : segPlan as'.info buf.ehdr.type st.base pagesize p with
  | skip => exact Exec.emits_pure _ _
  | refuse => exact Exec.emits_pure _ _
  | map s =>
    dsimp only
    rw [Exec.all_bind]
    refine ⟨?_, fun ok _ => ?_⟩
    · obtain ⟨hs, -⟩ := (segPlan_map.mp hp).on_page hk hpage hb hi
      have haddr := dvd_add_word hk hb hs
      intro e he
      obtain rfl | ⟨_, _, _, _, rfl⟩ := (bufreadelfseg_inv (H := H) _ _ _ _ _ _ _ _).events e he
      · exact haddr
      · trivial
    · split
      · exact Exec.emits_pure _ _
      · exact Exec.emits_pure _ _

/-- The loop of `load` maps at multiples of the page size only, and keeps its addresses at them. -/
lemma onPage_loadSegs {buf : Buf} {pagesize elfbase : Word} {st : LoadState} {ps : List ProgHeader}
    {as : LFIAddrSpace L} (hk : k ≤ 64) (hpage : pagesize.toNat = 2 ^ k) (hb : 2 ^ k ∣ st.base.toNat)
    (hl : 2 ^ k ∣ st.last.toNat) (hi : 2 ^ k ∣ as.info.base.toNat) :
    Exec.All (OnPage k) (loadSegs H buf pagesize elfbase st ps) as ∧
      ∀ st', ((loadSegs H buf pagesize elfbase st ps).run as).val = .ok (some st') →
        2 ^ k ∣ st'.last.toNat := by
  induction ps generalizing st as with
  | nil =>
    refine ⟨Exec.emits_pure _ _, fun st' h => ?_⟩
    simp only [loadSegs, Exec.pure_run, Except.ok.injEq, Option.some.injEq] at h
    exact h ▸ hl
  | cons p ps ih =>
    -- an iteration that goes on leaves addresses the rest of the loop can go on from
    have hnext : ∀ st1, ((loadSeg H buf pagesize elfbase st p).run as).val = .ok (some st1) →
        2 ^ k ∣ st1.base.toNat ∧ 2 ^ k ∣ st1.last.toNat ∧
          2 ^ k ∣ ((loadSeg H buf pagesize elfbase st p).run as).st.info.base.toNat := by
      intro st1 h1
      obtain ⟨-, rfl, hr⟩ | ⟨s, pl, sd, -, rfl⟩ := loadSeg_some h1
      · rw [hr]
        exact ⟨hb, hl, hi⟩
      · obtain ⟨hs, he⟩ := pl.on_page hk hpage hb hi
        rw [sd.info]
        have hbase : 2 ^ k ∣ (st.next elfbase p s).base.toNat := by
          simp only [LoadState.next]
          split
          · exact dvd_add_word hk hb hs
          · exact hb
        refine ⟨hbase, ?_, hi⟩
        change 2 ^ k ∣ (if (st.next elfbase p s).base + s.stop > st.last then
          (st.next elfbase p s).base + s.stop else st.last).toNat
        split
        · exact dvd_add_word hk hbase he
        · exact hl
    constructor
    · rw [loadSegs, Exec.all_bind]
      refine ⟨onPage_loadSeg hk hpage hb hi, fun o ho => ?_⟩
      cases o with
      | none => exact Exec.emits_pure _ _
      | some st1 =>
        obtain ⟨hb1, hl1, hi1⟩ := hnext st1 ho
        exact (ih hb1 hl1 hi1).1
    · intro st' h
      obtain ⟨st1, h1, h2, -, -⟩ := loadSegs_cons_some h
      obtain ⟨hb1, hl1, hi1⟩ := hnext st1 h1
      exact (ih hb1 hl1 hi1).2 st' h2

/-- The mappings of an image, and where it ends. -/
lemma onPage_load {buf : Buf} {base pagesize : Word} {as : LFIAddrSpace L} (hk : k ≤ 64)
    (hpage : pagesize.toNat = 2 ^ k) (hb : 2 ^ k ∣ base.toNat) (hi : 2 ^ k ∣ as.info.base.toNat) :
    Exec.All (OnPage k) (load H buf base pagesize) as ∧
      ∀ out, ((load H buf base pagesize).run as).val = .ok (some out) → 2 ^ k ∣ out.last.toNat := by
  have hsegs : Exec.All (OnPage k) (loadSegs H buf pagesize (elfBase as.info buf.ehdr.type base) ⟨base, 0, 0⟩
      buf.phdrs) as ∧ _ := onPage_loadSegs hk hpage hb (Nat.dvd_zero _) hi
  constructor
  · by_cases ac : Accepted H buf as.nmmap
    · intro e he
      rw [load_accepted ac] at he
      refine hsegs.1 e ?_
      revert he
      generalize (loadSegs H buf pagesize _ _ buf.phdrs).run as = r
      obtain ⟨v, as1, l⟩ := r
      cases v with
      | error _ => exact id
      | ok o =>
        cases o with
        | none => simp
        | some st => simp
    · intro e he
      obtain ⟨v, -, hr⟩ := load_quiet base pagesize ac
      rw [hr] at he
      cases he
  · intro out h
    obtain ⟨-, st, hs, -, -, rfl⟩ := load_some h
    exact hsegs.2 st hs

/-- `lfi_proc_loadelf` with a stack of whole pages maps at multiples of the page size only, and what it loads
ends at one. -/
lemma onPage_lfiProcLoadelf {opts : LFILoadOpts} {prog : Buf} {interp : Option Buf} {as : LFIAddrSpace L}
    (hk : k ≤ 64) (hpage : opts.pagesize.toNat = 2 ^ k) (hi : 2 ^ k ∣ as.info.base.toNat)
    (hmin : 2 ^ k ∣ as.info.minaddr.toNat) (hstack : 2 ^ k ∣ (as.info.maxaddr - opts.stacksize).toNat) :
    Exec.All (OnPage k) (lfiProcLoadelf H prog interp opts) as ∧
      ∀ info, ((lfiProcLoadelf H prog interp opts).run as).val = .ok (some info) →
        2 ^ k ∣ info.lastva.toNat := by
  have hprog : Exec.All (OnPage k) (load H prog as.info.minaddr opts.pagesize) (stackRun H opts as).st ∧
      ∀ out, (progRun H opts prog as).val = .ok (some out) → 2 ^ k ∣ out.last.toNat :=
    onPage_load hk hpage hmin (by rw [stackRun_info]; exact hi)
  have hinterp : ∀ p, (progRun H opts prog as).val = .ok (some p) →
      Exec.All (OnPage k) (loadInterp H interp p.last opts.pagesize) (progRun H opts prog as).st := by
    intro p hp
    cases interp with
    | none => exact Exec.emits_pure _ _
    | some ib =>
      rw [loadInterp, Exec.all_bind]
      refine ⟨(onPage_load hk hpage (hprog.2 p hp) (by rw [progRun_info]; exact hi)).1, fun o _ => ?_⟩
      cases o with
      | none => exact Exec.emits_pure _ _
      | some o => exact Exec.emits_pure _ _
  constructor
  · rw [lfiProcLoadelf, Exec.all_bind]
    refine ⟨Exec.emits_get as, fun as' h => ?_⟩
    obtain rfl : as' = as := (Except.ok.inj h).symm
    rw [Exec.all_bind]
    refine ⟨onPage_mapat hstack, fun stack _ => ?_⟩
    split
    · exact Exec.emits_pure _ _
    rw [Exec.all_bind]
    refine ⟨hprog.1, fun o ho => ?_⟩
    cases o with
    | none => exact Exec.emits_pure _ _
    | some p =>
      dsimp only
      rw [Exec.all_bind]
      refine ⟨hinterp p ho, fun i _ => ?_⟩
      cases i with
      | none => exact Exec.emits_pure _ _
      | some i =>
        dsimp only
        split
        · exact Exec.emits_pure _ _
        · exact ((Exec.emits_check _ _).bind fun _ => Exec.emits_pure _) _
  · intro info h
    obtain ⟨p, i, le, rfl⟩ := lfiProcLoadelf_some h
    cases interp with
    | none =>
      rw [le.no_interp rfl]
      exact hprog.2 p le.prog_ok
    | some ib =>
      obtain ⟨o, rfl, ho⟩ := le.interp_ok ib rfl
      exact (onPage_load hk hpage (hprog.2 p le.prog_ok) (by rw [progRun_info]; exact hi)).2 o ho

end Elf

/-- A process setup maps at multiples of the page size only, and its heap starts at one. -/
lemma onPage_procsetup {opts : TuxOptions} {prog : Buf} {interp : Option Buf} {argv : List (List Byte)}
    {p : TuxThread L M} (hk : k ≤ 64) (hpage : opts.pagesize.toNat = 2 ^ k) (hi : 2 ^ k ∣ p.as.info.base.toNat)
    (hmin : 2 ^ k ∣ p.as.info.minaddr.toNat) (hstack : 2 ^ k ∣ (p.as.info.maxaddr - STACKSIZE).toNat) :
    Exec.All (OnPage k) (procsetup (M := M) H opts prog interp argv) p ∧
      (((procsetup H opts prog interp argv).run p).val = .ok true →
        2 ^ k ∣ ((procsetup H opts prog interp argv).run p).st.brkbase.toNat) := by
  have helf : Exec.All (OnPage k) (elfload H opts prog interp) p.as ∧
      ∀ info, ((elfload H opts prog interp).run p.as).val = .ok (some info) → 2 ^ k ∣ info.lastva.toNat :=
    onPage_lfiProcLoadelf hk hpage hi hmin hstack
  constructor
  · intro e he
    cases hv : ((elfload H opts prog interp).run p.as).val with
    | error st =>
      refine helf.1 e ?_
      rw [procsetup, Exec.bind_run, onAs_run, hv, Exec.andThen_error] at he
      exact he
    | ok o =>
      cases o with
      | none =>
        refine helf.1 e ?_
        rw [procsetup, Exec.bind_run, onAs_run, hv, Exec.andThen_ok] at he
        simpa using he
      | some info =>
        obtain ⟨b, hout, hb, -⟩ := procsetup_out (M := M) (p := p) argv hv
        rw [hout] at he
        obtain he | he := List.mem_append.mp he
        · exact helf.1 e he
        · obtain rfl | rfl := hb
          · cases he
          · obtain rfl := List.mem_singleton.mp he
            exact helf.2 info hv
  · intro h
    obtain ⟨info, as1, out1, sp, as2, out2, map, as3, out3, -, he, -, -, hst⟩ := procsetup_true h
    rw [hst]
    exact helf.2 info (congrArg Res.val he)

/-- `sys_brk` maps at the start of the heap, or at a multiple of the page size. -/
lemma onPage_sysBrk {opts : TuxOptions} {w : World L M} {addr : Word} (hk : k ≤ 64)
    (hpage : opts.pagesize.toNat = 2 ^ k) (hb : 2 ^ k ∣ w.p.brkbase.toNat) :
    Exec.All (OnPage k) (sysBrk H opts addr) w := by
  have hmap : Exec.All (OnPage k) (brkMap H opts w.p (brkSize w.p addr)) w.p.as := by
    rw [brkMap_eq]
    refine onPage_mapat ?_
    unfold brkNext
    split
    · exact hb
    · exact dvd_ceilp hk (by rw [hpage])
  intro e he
  have hinv := sysBrk_inv H opts addr w
  generalize (sysBrk H opts addr).run w = r at hinv he
  cases hinv with
  | same _ _ => cases he
  | stop _ => cases he
  | shrink _ _ _ => cases he
  | abort _ _ _ hr => exact hmap e (by rw [hr]; exact he)
  | fail _ _ _ hr => exact hmap e (by rw [hr]; exact he)
  | grow _ _ _ _ hr => exact hmap e (by rw [hr]; exact he)

end

/-- Everything is mapped at multiples of the page size `2 ^ k` in an address space placed at `i`: its ends, what a
process setup maps, and what `sys_brk` maps in any state of the process, whose heap starts where the setup put
it. -/
structure PagesAligned (k : Nat) (i : LFIAddrSpaceInfo) (opts : TuxOptions) : Prop where
  minaddr : 2 ^ k ∣ i.minaddr.toNat
  maxaddr : 2 ^ k ∣ i.maxaddr.toNat
  setup : ∀ (L : LibMMap) (M : Machine) (H : HostVm) (prog : Buf) (interp : Option Buf) (argv : List (List Byte))
    (p : TuxThread L M), p.as.info = i → Exec.All (OnPage k) (procsetup H opts prog interp argv) p
  brk : ∀ (L : LibMMap) (M : Machine) (H : HostVm) (prog : Buf) (interp : Option Buf) (argv : List (List Byte))
    (p : TuxThread L M), p.as.info = i → ((procsetup H opts prog interp argv).run p).val = .ok true →
    ∀ w : World L M, w.p.brkbase = ((procsetup H opts prog interp argv).run p).st.brkbase →
      ∀ addr, Exec.All (OnPage k) (sysBrk H opts addr) w

/-- Everything is mapped at multiples of the page size exactly for pages of up to 16 KiB. -/
theorem pages_aligned_iff {i : LFIAddrSpaceInfo} {opts : TuxOptions} {k : Nat}
    (hpage : opts.pagesize.toNat = 2 ^ k) (hi : i.pagesize = opts.pagesize) :
    PagesAligned k i opts ↔ k ≤ 14 := by
  have hk64 : k ≤ 64 := by
    have := opts.pagesize.isLt
    rw [hpage] at this
    exact ((Nat.pow_lt_pow_iff_right (by omega)).mp this).le
  have hmax := i.maxaddr_toNat
  have htop := i.base_top
  constructor
  · intro h
    by_contra hlt
    -- 32 KiB divide the base and 4 GiB, and not 80 KiB
    have h15 : 2 ^ 15 ∣ i.maxaddr.toNat := (Nat.pow_dvd_pow 2 (show 15 ≤ k by omega)).trans h.maxaddr
    have hb : 2 ^ 15 ∣ i.base.toNat := (Nat.pow_dvd_pow 2 (show 15 ≤ 32 by omega)).trans i.base_aligned
    rw [hmax] at h15
    omega
  · intro hk
    have hb : 2 ^ k ∣ i.base.toNat := (Nat.pow_dvd_pow 2 (show k ≤ 32 by omega)).trans i.base_aligned
    have hguard : 2 ^ k ∣ 81920 := (Nat.pow_dvd_pow 2 hk).trans (by decide)
    have h32 : 2 ^ k ∣ 2 ^ 32 := Nat.pow_dvd_pow 2 (by omega)
    have hle : 2 ^ k ≤ 2 ^ 14 := Nat.pow_le_pow_right (by omega) hk
    have hmin : 2 ^ k ∣ i.minaddr.toNat := by
      rw [i.minaddr_toNat (by rw [hi, hpage]; omega), hi, hpage]
      exact Nat.dvd_add (Nat.dvd_add hb hguard) (Nat.dvd_refl _)
    have hmaxd : 2 ^ k ∣ i.maxaddr.toNat := by
      rw [hmax]
      exact Nat.dvd_sub (Nat.dvd_add hb h32) hguard
    have hstack : 2 ^ k ∣ (i.maxaddr - STACKSIZE).toNat :=
      dvd_sub_word hk64 hmaxd
        ((Nat.pow_dvd_pow 2 (show k ≤ 21 by omega)).trans (show 2 ^ 21 ∣ STACKSIZE.toNat by decide))
    refine ⟨hmin, hmaxd, ?_, ?_⟩
    · rintro L M H prog interp argv p rfl
      exact (onPage_procsetup hk64 hpage hb hmin hstack).1
    · rintro L M H prog interp argv p rfl hval w hw addr
      refine onPage_sysBrk hk64 hpage ?_
      rw [hw]
      exact (onPage_procsetup hk64 hpage hb hmin hstack).2 hval

/-- A placement at 4 GiB with pages of 64 KiB. -/
def LFIAddrSpaceInfo.bigPages : LFIAddrSpaceInfo :=
  { LFIAddrSpaceInfo.plain with pagesize := 65536 }

/-- Pages of 4 KiB are kept. -/
theorem pages_aligned_plain : PagesAligned 12 .plain .plain :=
  (pages_aligned_iff rfl rfl).mpr (by decide)

/-- Pages of 64 KiB are not: the address space does not start at one. -/
theorem pages_unaligned_big :
    LFIAddrSpaceInfo.bigPages.pagesize.toNat = 2 ^ 16 ∧
    ¬ PagesAligned 16 .bigPages { TuxOptions.plain with pagesize := 65536 } := by
  refine ⟨by decide, fun h => ?_⟩
  have hmin := h.minaddr
  revert hmin
  decide

end Libtux
