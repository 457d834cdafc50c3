import Libtux.Elf.Segment
import Libtux.Pal.Ranges

/-!
# The loaded image

What memory holds after `load` returned true. The results are about images in which no sum of header
fields wraps (`NoWrap`); there a segment occupies `[bias + start, bias + stop)`, which contains
`[bias + vaddr, bias + vaddr + memsz)`, and the file bytes go to `bias + vaddr` (`SegLoaded`).

A later segment replaces the pages of an earlier one, so the statement about a header is about the
addresses that no later header covers, and it is carried through the list of headers by induction
together with its frame: an address outside the segments still to come is not touched again
(`loadSegs_ok`).

The protection is the one thing `load` does not get right. `bufreadelfseg` tests the result of
`lfi_as_mprotect` for a negative number, but `host_mprotect` reports a failure as the positive error
number, so a segment whose `mprotect` failed stays readable and writable.
-/

namespace Libtux.Elf
open Lib

variable {L : LibMMap} {H : HostVm}

/-- `x` lies in `[lo, hi)`. -/
def InRange (lo hi : Nat) (x : Word) : Prop := lo ≤ x.toNat ∧ x.toNat < hi

instance (lo hi : Nat) (x : Word) : Decidable (InRange lo hi x) := inferInstanceAs (Decidable (_ ∧ _))

/-- No sum of the fields of a header wraps. -/
structure ProgHeader.NoWrap (p : ProgHeader) : Prop where
  mem : p.vaddr.toNat + p.memsz.toNat + p.align.toNat < 2 ^ 64
  file : p.offset.toNat + p.filesz.toNat < 2 ^ 64

instance (p : ProgHeader) : Decidable p.NoWrap :=
  decidable_of_iff (_ ∧ _) ⟨fun ⟨h1, h2⟩ => ⟨h1, h2⟩, fun h => ⟨h.mem, h.file⟩⟩

/-- The pages of a header loaded at `bias`. -/
def ProgHeader.pages (bias : Word) (p : ProgHeader) (x : Word) : Prop :=
  InRange (bias.toNat + p.start.toNat) (bias.toNat + p.stop.toNat) x

instance (bias : Word) (p : ProgHeader) (x : Word) : Decidable (p.pages bias x) :=
  inferInstanceAs (Decidable (InRange _ _ _))

/-- The addresses of a header loaded at `bias`. -/
def ProgHeader.addrs (bias : Word) (p : ProgHeader) (x : Word) : Prop :=
  InRange (bias.toNat + p.vaddr.toNat) (bias.toNat + p.vaddr.toNat + p.memsz.toNat) x

/-- The byte an image has for the address `x` of a header loaded at `bias`. -/
def ProgHeader.byte (buf : Buf) (bias : Word) (p : ProgHeader) (x : Word) : Byte :=
  if x - (bias + p.vaddr) < p.filesz then buf.data (p.offset + (x - (bias + p.vaddr))) else 0

section
variable {i : LFIAddrSpaceInfo} {type : BitVec 16} {base pagesize : Word} {p : ProgHeader} {s : Seg}
  {k : Nat}

/-- A segment that passes the guard of the mapping does not wrap around when it is placed, and its
load base is not `0`. -/
lemma Placed.addr_of_page (pl : Placed i type base pagesize p s)
    (hty : type = ET_DYN ∨ type = ET_EXEC) (hpg : i.pagesize.toNat ≤ 2 ^ 30)
    (hg : InGuard i (base + s.start) (s.stop - s.start)) :
    base ≠ 0 ∧ (base + s.start).toNat = (elfBase i type base).toNat + p.start.toNat := by
  have hmin := i.minaddr_toNat (by omega)
  have hlo : i.minaddr.toNat ≤ (base + s.start).toNat := hg.1
  have hst : s.start.toNat < 2 ^ 30 := by
    have := pl.start_lt
    simp only [CODEMAX] at this
    bv_omega
  have hb := i.base_pos
  have hba := Nat.le_of_dvd hb i.base_aligned
  refine ⟨?_, ?_⟩
  · rintro rfl
    rw [show (0 : Word) + s.start = s.start from BitVec.zero_add _] at hlo
    omega
  · have heq := congrArg BitVec.toNat (pl.start_eq hty)
    have hs := pl.start
    simp only [rebase, elfBase] at heq hs ⊢
    obtain rfl | rfl := hty
    · rw [if_neg (by decide)] at hs
      rw [if_pos rfl] at heq ⊢
      rw [hs] at hst
      rw [heq, BitVec.toNat_add] at hlo ⊢
      omega
    · rw [if_neg (by decide)] at heq ⊢
      rw [heq, BitVec.toNat_add] at hlo ⊢
      omega

/-- A segment is mapped at its address, counted from the base of the image. -/
lemma Placed.addr (pl : Placed i type base pagesize p s) (hty : type = ET_DYN ∨ type = ET_EXEC)
    (hk : pagesize.toNat = 2 ^ k) (hi : i.pagesize = pagesize)
    (hg : InGuard i (base + s.start) (s.stop - s.start)) :
    base ≠ 0 ∧ (base + s.start).toNat = (elfBase i type base).toNat + p.start.toNat := by
  obtain ⟨hdvd, hpos⟩ := pl.page_dvd hk
  refine pl.addr_of_page hty ?_ hg
  have hle := Nat.le_of_dvd hpos hdvd
  have hlt := pl.lt
  have hst := pl.stop_lt
  rw [← hk] at hle
  simp only [CODEMAX] at hst
  rw [hi]
  bv_omega

/-- `load` never maps a header without an alignment: its range is empty. -/
lemma Placed.align_ne_zero (pl : Placed i type base pagesize p s) : p.align ≠ 0 := by
  intro h0
  have hlt := pl.lt
  have hsize := pl.size_eq
  have hz : p.stop - p.start = 0 := by
    simp only [ProgHeader.stop, ProgHeader.start, ceilp, truncp, h0]
    simp
  rw [hz] at hsize
  bv_omega

/-- Without wrapping, the rounded range contains the addresses of the header. -/
lemma ProgHeader.NoWrap.le_stop (nw : p.NoWrap) (h0 : p.align ≠ 0) :
    p.vaddr.toNat + p.memsz.toNat ≤ p.stop.toNat := by
  have hmem := nw.mem
  have hsum : (p.vaddr + p.memsz).toNat = p.vaddr.toNat + p.memsz.toNat := by
    rw [BitVec.toNat_add, Nat.mod_eq_of_lt (by omega)]
  have hmask : (p.align - 1).toNat < p.align.toNat := by bv_omega
  have hle : (p.vaddr + p.memsz).toNat ≤ p.stop.toNat := le_ceilp (by omega)
  omega

/-- The pages of a placed segment are the ones its mapping covers. -/
lemma Placed.covers_iff (pl : Placed i type base pagesize p s)
    (hty : type = ET_DYN ∨ type = ET_EXEC)
    (hk : pagesize.toNat = 2 ^ k) (hi : i.pagesize = pagesize) (nw : p.NoWrap)
    (hP : H.pagesize.toNat ∣ pagesize.toNat)
    (hg : InGuard i (base + s.start) (s.stop - s.start))
    (hal : H.pagesize.toNat ∣ (base + s.start).toNat) (x : Word) :
    covers H.pagesize (base + s.start) (s.stop - s.start) x ↔
      p.pages (elfBase i type base) x := by
  obtain ⟨hdvd, hpos⟩ := pl.page_dvd hk
  obtain ⟨_, haddr⟩ := pl.addr hty hk hi hg
  have hstop := nw.le_stop pl.align_ne_zero
  have hstart : p.start.toNat ≤ p.vaddr.toNat := truncp_le _ _
  rw [Libtux.covers_iff H.pagesize_pos hal ((hk ▸ hP).trans hdvd), haddr, pl.size_eq,
    BitVec.toNat_sub_of_le (by bv_omega)]
  unfold ProgHeader.pages InRange
  omega

/-- `mmapprot` keeps the protections `load` asks for. -/
lemma mmapprot_pflags (f : CInt) : mmapprot (pflags f) = pflags f := by
  unfold pflags
  split <;> split <;> split <;> decide

/-- The protection of `x` in a header's pages after its `mprotect`, the `n`-th of the host. -/
def ProgHeader.protAt (H : HostVm) (bias : Word) (n : Nat) (p : ProgHeader) (x : Word) : CInt :=
  if H.protects n (bias + p.start) (p.stop - p.start) x then pflags p.flags
  else LFI_PROT_READ ||| LFI_PROT_WRITE

/-- The effect of loading one segment, in the addresses of its header. -/
structure SegLoaded (H : HostVm) (buf : Buf) (bias : Word) (p : ProgHeader)
    (as as' : LFIAddrSpace L) : Prop where
  info : as'.info = as.info
  nmprotect : as'.nmprotect = as.nmprotect + 1
  file : p.offset.toNat + p.filesz.toNat ≤ buf.size.toNat
  stop : (bias + p.stop).toNat = bias.toNat + p.stop.toNat
  start_dvd : H.pagesize.toNat ∣ bias.toNat + p.start.toNat
  stop_dvd : H.pagesize.toNat ∣ bias.toNat + p.stop.toNat
  mem : ∀ x, as'.mem x = if p.pages bias x then p.byte buf bias x else as.mem x
  prot : ∀ x, as'.prot x = if p.pages bias x then p.protAt H bias as.nmprotect x else as.prot x

/-- What is done for one header. -/
lemma SegDone.loaded {buf : Buf} {as as' : LFIAddrSpace L}
    (sd : SegDone H buf base p s as as') (pl : Placed as.info type base pagesize p s)
    (hty : type = ET_DYN ∨ type = ET_EXEC)
    (hk : pagesize.toNat = 2 ^ k) (hi : as.info.pagesize = pagesize) (nw : p.NoWrap)
    (hP : H.pagesize.toNat ∣ pagesize.toNat) :
    SegLoaded H buf (elfBase as.info type base) p as as' := by
  obtain ⟨_, haddr⟩ := pl.addr hty hk hi sd.guard
  have hcov := pl.covers_iff hty hk hi nw hP sd.guard sd.aligned
  have hstop := nw.le_stop pl.align_ne_zero
  have hstart : p.start.toNat ≤ p.vaddr.toNat := truncp_le _ _
  have htop := sd.top
  have heq := pl.start_eq hty
  have hsize : (s.stop - s.start).toNat = p.stop.toNat - p.start.toNat := by
    rw [pl.size_eq, BitVec.toNat_sub_of_le (by bv_omega)]
  have hdst : base + s.start + s.offset = elfBase as.info type base + p.vaddr := by
    rw [heq, pl.offset]
    bv_omega
  have hdvd : H.pagesize.toNat ∣ (s.stop - s.start).toNat := (hk ▸ hP).trans (pl.page_dvd hk).1
  refine ⟨sd.info, sd.nmprotect, le_of_bufread_eq nw.file sd.full, ?_, haddr ▸ sd.aligned, ?_,
    fun x => ?_, fun x => ?_⟩
  · rw [BitVec.toNat_add, Nat.mod_eq_of_lt (by omega)]
  · have h := Nat.dvd_add sd.aligned hdvd
    rwa [haddr, hsize, show (elfBase as.info type base).toNat + p.start.toNat +
      (p.stop.toNat - p.start.toNat) = (elfBase as.info type base).toNat + p.stop.toNat by omega] at h
  · rw [sd.mem x, hdst]
    by_cases hx : p.pages (elfBase as.info type base) x
    · simp only [if_pos hx, if_pos ((hcov x).mpr hx), ProgHeader.byte]
    · have hout : ¬ x - (elfBase as.info type base + p.vaddr) < p.filesz := by
        -- the file bytes lie inside the pages, and neither wraps
        intro hlt
        have hfs := pl.filesz
        apply hx
        unfold ProgHeader.pages InRange
        have hv : (elfBase as.info type base + p.vaddr).toNat =
            (elfBase as.info type base).toNat + p.vaddr.toNat := by
          rw [BitVec.toNat_add, Nat.mod_eq_of_lt (by omega)]
        bv_omega
      rw [if_neg hx, if_neg hout, if_neg (fun hc => hx ((hcov x).mp hc))]
  · rw [sd.prot x, mmapprot_pflags, heq, pl.size_eq]
    simp only [← heq, ← pl.size_eq, hcov x, ProgHeader.protAt]
    rfl

end

/-! ## All segments -/

/-- The effect of loading a list of headers at `bias`. The pages of a header show it, except where a
later header covers them; the `mprotect` of a header is numbered by the mapped headers before it. -/
structure Loaded (H : HostVm) (buf : Buf) (bias : Word) (ps : List ProgHeader)
    (as as' : LFIAddrSpace L) : Prop where
  file : ∀ p ∈ ps, p.mapped = true → p.offset.toNat + p.filesz.toNat ≤ buf.size.toNat
  aligned : ∀ p ∈ ps, p.mapped = true →
    H.pagesize.toNat ∣ bias.toNat + p.start.toNat ∧ H.pagesize.toNat ∣ bias.toNat + p.stop.toNat
  frame : ∀ x, (∀ p ∈ ps, p.mapped = true → ¬ p.pages bias x) →
    as'.mem x = as.mem x ∧ as'.prot x = as.prot x
  seg : ∀ (n : Nat) (p : ProgHeader), ps[n]? = some p → p.mapped = true → ∀ x, p.pages bias x →
    (∀ (m : Nat) (q : ProgHeader), n < m → ps[m]? = some q → q.mapped = true → ¬ q.pages bias x) →
    as'.mem x = p.byte buf bias x ∧
      as'.prot x = p.protAt H bias (as.nmprotect + (ps.take n).countP ProgHeader.mapped) x

/-- The ends of the mapped headers. -/
def segEnds (bias : Word) (ps : List ProgHeader) : List Nat :=
  (ps.filter ProgHeader.mapped).map fun p => bias.toNat + p.stop.toNat

/-- The first header has an end if it is mapped. -/
lemma segEnds_cons {bias : Word} {p : ProgHeader} {ps : List ProgHeader} :
    segEnds bias (p :: ps) =
      if p.mapped then (bias.toNat + p.stop.toNat) :: segEnds bias ps else segEnds bias ps := by
  unfold segEnds
  by_cases hm : p.mapped = true
  · simp [hm]
  · simp [hm]

/-- Nothing is loaded. -/
lemma Loaded.nil {buf : Buf} {bias : Word} (as : LFIAddrSpace L) : Loaded H buf bias [] as as where
  file p hp := by cases hp
  aligned p hp := by cases hp
  frame x _ := ⟨rfl, rfl⟩
  seg n p hn := by simp at hn

/-- A header that is skipped does not count. -/
lemma Loaded.skip {buf : Buf} {bias : Word} {p : ProgHeader} {ps : List ProgHeader}
    {as as' : LFIAddrSpace L} (hm : p.mapped = false) (ld : Loaded H buf bias ps as as') :
    Loaded H buf bias (p :: ps) as as' where
  file q hq hqm := by
    obtain rfl | hq := List.mem_cons.mp hq
    · rw [hm] at hqm
      cases hqm
    · exact ld.file q hq hqm
  aligned q hq hqm := by
    obtain rfl | hq := List.mem_cons.mp hq
    · rw [hm] at hqm
      cases hqm
    · exact ld.aligned q hq hqm
  frame x hx := ld.frame x fun q hq => hx q (List.mem_cons_of_mem _ hq)
  seg n q hn hqm x hx hlater := by
    cases n with
    | zero =>
      cases hn
      rw [hm] at hqm
      cases hqm
    | succ n =>
      have h := ld.seg n q hn hqm x hx fun m r hlt hr => hlater (m + 1) r (by omega) hr
      rwa [List.take_succ_cons, List.countP_cons_of_neg (by simp [hm])]

/-- A header is loaded before the ones after it. -/
lemma Loaded.cons {buf : Buf} {bias : Word} {p : ProgHeader} {ps : List ProgHeader}
    {as as1 as' : LFIAddrSpace L} (hm : p.mapped = true) (sl : SegLoaded H buf bias p as as1)
    (ld : Loaded H buf bias ps as1 as') : Loaded H buf bias (p :: ps) as as' where
  file q hq hqm := by
    obtain rfl | hq := List.mem_cons.mp hq
    · exact sl.file
    · exact ld.file q hq hqm
  aligned q hq hqm := by
    obtain rfl | hq := List.mem_cons.mp hq
    · exact ⟨sl.start_dvd, sl.stop_dvd⟩
    · exact ld.aligned q hq hqm
  frame x hx := by
    obtain ⟨hmem, hprot⟩ := ld.frame x fun q hq => hx q (List.mem_cons_of_mem _ hq)
    have hp := hx p (List.mem_cons_self ..) hm
    rw [hmem, hprot, sl.mem x, sl.prot x, if_neg hp, if_neg hp]
    exact ⟨rfl, rfl⟩
  seg n q hn hqm x hx hlater := by
    cases n with
    | zero =>
      -- nothing after the header covers the address, so the frame of the rest keeps it
      cases hn
      obtain ⟨hmem, hprot⟩ := ld.frame x fun q hq hqm => by
        obtain ⟨m, hr⟩ := List.mem_iff_getElem?.mp hq
        exact hlater (m + 1) q (by omega) hr hqm
      rw [hmem, hprot, sl.mem x, sl.prot x, if_pos hx, if_pos hx]
      exact ⟨rfl, rfl⟩
    | succ n =>
      have h := ld.seg n q hn hqm x hx fun m r hlt hr => hlater (m + 1) r (by omega) hr
      rwa [List.take_succ_cons, List.countP_cons_of_pos hm, Nat.add_comm _ 1, ← Nat.add_assoc,
        ← sl.nmprotect]

/-- The loop of `load`: a load base that maps something is kept, the headers are loaded in order, and
`last` is the largest end. -/
lemma loadSegs_ok {buf : Buf} {pagesize elfbase : Word} {k : Nat} {st st' : LoadState}
    {ps : List ProgHeader} {as : LFIAddrSpace L}
    (hty : buf.ehdr.type = ET_DYN ∨ buf.ehdr.type = ET_EXEC)
    (hk : pagesize.toNat = 2 ^ k) (hi : as.info.pagesize = pagesize)
    (hP : H.pagesize.toNat ∣ pagesize.toNat)
    (nw : ∀ p ∈ ps, p.mapped = true → p.NoWrap)
    (h : ((loadSegs H buf pagesize elfbase st ps).run as).val = .ok (some st')) :
    st'.base = st.base ∧
    st'.last.toNat = (segEnds (elfBase as.info buf.ehdr.type st.base) ps).foldl max st.last.toNat ∧
    Loaded H buf (elfBase as.info buf.ehdr.type st.base) ps as
      ((loadSegs H buf pagesize elfbase st ps).run as).st := by
  induction ps generalizing st as with
  | nil =>
    simp only [loadSegs, Exec.pure_run, Except.ok.injEq, Option.some.injEq] at h ⊢
    subst h
    exact ⟨rfl, rfl, .nil as⟩
  | cons p ps ih =>
    obtain ⟨st1, h1, h2, hst, _⟩ := loadSegs_cons_some h
    rw [hst, segEnds_cons]
    have nw' : ∀ q ∈ ps, q.mapped = true → q.NoWrap := fun q hq => nw q (List.mem_cons_of_mem _ hq)
    obtain ⟨hm, rfl, hr⟩ | ⟨s, pl, sd, _, rfl⟩ := loadSeg_some h1
    · rw [hr] at h2 ⊢
      obtain ⟨hb, hl, ld⟩ := ih hi nw' h2
      rw [if_neg (by simp [hm])]
      exact ⟨hb, hl, ld.skip hm⟩
    · have hm := pl.mapped
      have sl := sd.loaded pl hty hk hi (nw p (List.mem_cons_self ..) hm) hP
      obtain ⟨hb0, _⟩ := pl.addr hty hk hi sd.guard
      have hbase : (st.next elfbase p s).base = st.base := by
        simp only [LoadState.next, if_neg hb0]
      obtain ⟨hb, hl, ld⟩ := ih (by rw [sl.info, hi]) nw' h2
      rw [sl.info, hbase] at hl ld
      rw [if_pos hm]
      refine ⟨hb.trans hbase, ?_, ld.cons hm sl⟩
      rw [hl, List.foldl_cons, ← sl.stop, ← pl.stop_eq hty]
      congr 1
      simp only [LoadState.next, if_neg hb0]
      split
      · bv_omega
      · bv_omega

/-! ## The image as a whole -/

/-- `a` is an address of the `n`-th header, and no later loadable header has it in its pages. -/
structure Visible (bias : Word) (ps : List ProgHeader) (n : Nat) (p : ProgHeader) (a : Word) :
    Prop where
  get : ps[n]? = some p
  mapped : p.mapped = true
  addr : p.addrs bias a
  top : ∀ (m : Nat) (q : ProgHeader), n < m → ps[m]? = some q → q.type = PT_LOAD →
    ¬ q.pages bias a

/-- Memory and the results of `load` are what the image says. -/
structure Faithful (H : HostVm) (buf : Buf) (bias : Word) (out : LoadOut) (as : LFIAddrSpace L) :
    Prop where
  table : buf.ehdr.phoff.toNat + 56 * buf.ehdr.phnum.toNat ≤ buf.size.toNat
  file : ∀ p ∈ buf.phdrs, p.mapped = true → p.offset.toNat + p.filesz.toNat ≤ buf.size.toNat
  mem : ∀ n p a, Visible bias buf.phdrs n p a → as.mem a = p.byte buf bias a
  prot : ∀ n p a, Visible bias buf.phdrs n p a →
    ∀ x : Word, x.toNat / H.pagesize.toNat = a.toNat / H.pagesize.toNat →
      as.prot x = pflags p.flags
  entry : out.entry = bias + buf.ehdr.entry
  last : out.last.toNat = (segEnds bias buf.phdrs).foldl max 0

/-- The host carried out the `mprotect` of every header on the pages where it shows, or the header asks for
no more and no less than what `lfi_as_mapat` gave it. The calls are numbered from `n0` on. -/
def Protected (H : HostVm) (bias : Word) (ps : List ProgHeader) (n0 : Nat) : Prop :=
  ∀ n p a, Visible bias ps n p a → ∀ x : Word, x.toNat / H.pagesize.toNat = a.toNat / H.pagesize.toNat →
    pflags p.flags = LFI_PROT_READ ||| LFI_PROT_WRITE ∨
      H.protects (n0 + (ps.take n).countP ProgHeader.mapped) (bias + p.start) (p.stop - p.start) x = true

/-- A page has its own protection, if it is the one it was filled with or the host changed it. -/
lemma protAt_eq_pflags {bias : Word} {n : Nat} {p : ProgHeader} {x : Word} :
    p.protAt H bias n x = pflags p.flags ↔
      pflags p.flags = LFI_PROT_READ ||| LFI_PROT_WRITE ∨
        H.protects n (bias + p.start) (p.stop - p.start) x = true := by
  unfold ProgHeader.protAt
  split
  · simp [*]
  · simp [*, eq_comm]

/-- The addresses of a header lie in its pages. -/
lemma ProgHeader.NoWrap.addrs_pages {bias : Word} {p : ProgHeader} {x : Word} (nw : p.NoWrap)
    (h0 : p.align ≠ 0) (hx : p.addrs bias x) : p.pages bias x := by
  have hstop := nw.le_stop h0
  have hstart : p.start.toNat ≤ p.vaddr.toNat := truncp_le _ _
  obtain ⟨h1, h2⟩ := hx
  exact ⟨by omega, by omega⟩

/-- Pages are in the range of an aligned header as a whole. -/
lemma pages_of_page {P bias : Word} {p : ProgHeader} {a x : Word} (hP : 0 < P.toNat)
    (h1 : P.toNat ∣ bias.toNat + p.start.toNat) (h2 : P.toNat ∣ bias.toNat + p.stop.toNat)
    (hx : x.toNat / P.toNat = a.toNat / P.toNat) : p.pages bias x ↔ p.pages bias a := by
  unfold ProgHeader.pages InRange
  obtain ⟨u, h1⟩ := h1
  obtain ⟨v, h2⟩ := h2
  rw [h1, h2]
  have key : ∀ w c : Nat, P.toNat * c ≤ w ↔ c ≤ w / P.toNat := fun w c => by
    rw [Nat.le_div_iff_mul_le hP, Nat.mul_comm]
  rw [key, key, ← not_le, ← not_le, key, key, hx]

/-- Every header that `load` mapped has an alignment. -/
lemma loadSegs_align {buf : Buf} {pagesize elfbase : Word} {st st' : LoadState}
    {ps : List ProgHeader} {as : LFIAddrSpace L}
    (h : ((loadSegs H buf pagesize elfbase st ps).run as).val = .ok (some st')) :
    ∀ p ∈ ps, p.mapped = true → p.align ≠ 0 := by
  induction ps generalizing st as with
  | nil =>
    intro p hp
    cases hp
  | cons q ps ih =>
    obtain ⟨st1, h1, h2, _, _⟩ := loadSegs_cons_some h
    intro p hp hm
    obtain rfl | hp := List.mem_cons.mp hp
    · obtain ⟨hm', _, _⟩ | ⟨s, pl, _⟩ := loadSeg_some h1
      · rw [hm'] at hm
        cases hm
      · exact pl.align_ne_zero
    · exact ih h2 p hp hm

/-- A header that is mapped is a `PT_LOAD`. -/
lemma mapped_type {p : ProgHeader} (hm : p.mapped = true) : p.type = PT_LOAD := by
  simp only [ProgHeader.mapped, decide_eq_true_eq] at hm
  exact hm.1

/-- What the pages of a visible address show. -/
lemma Loaded.visible {buf : Buf} {bias : Word} {ps : List ProgHeader} {as as' : LFIAddrSpace L}
    {n : Nat} {p : ProgHeader} {a x : Word}
    (ld : Loaded H buf bias ps as as') (nw : p.NoWrap) (h0 : p.align ≠ 0)
    (vis : Visible bias ps n p a)
    (hx : x.toNat / H.pagesize.toNat = a.toNat / H.pagesize.toNat) :
    as'.mem x = p.byte buf bias x ∧
      as'.prot x = p.protAt H bias (as.nmprotect + (ps.take n).countP ProgHeader.mapped) x := by
  have key : ∀ q ∈ ps, q.mapped = true → (q.pages bias x ↔ q.pages bias a) := fun q hq hm =>
    pages_of_page H.pagesize_pos (ld.aligned q hq hm).1 (ld.aligned q hq hm).2 hx
  refine ld.seg n p vis.get vis.mapped x ?_ fun m q hlt hq hm => ?_
  · rw [key p (List.mem_of_getElem? vis.get) vis.mapped]
    exact nw.addrs_pages h0 vis.addr
  · rw [key q (List.mem_of_getElem? hq) hm]
    exact vis.top m q hlt hq (mapped_type hm)

/-- `load` is faithful to its image exactly when the host carried out the protections of the headers
that show: the result of `mprotect` is the only one it misreads. -/
theorem load_faithful_iff {buf : Buf} {base pagesize : Word} {k : Nat} {out : LoadOut}
    {as : LFIAddrSpace L} (hk : pagesize.toNat = 2 ^ k) (hi : as.info.pagesize = pagesize)
    (hP : H.pagesize.toNat ∣ pagesize.toNat)
    (hph : buf.ehdr.phoff.toNat + 56 * buf.ehdr.phnum.toNat < 2 ^ 64)
    (nw : ∀ p ∈ buf.phdrs, p.type = PT_LOAD → p.NoWrap)
    (h : ((load H buf base pagesize).run as).val = .ok (some out)) :
    Faithful H buf (elfBase as.info buf.ehdr.type base) out ((load H buf base pagesize).run as).st ↔
      Protected H (elfBase as.info buf.ehdr.type base) buf.phdrs as.nmprotect := by
  obtain ⟨ac, st, hs, hst, _, rfl⟩ := load_some h
  have hal := loadSegs_align hs
  obtain ⟨hbase, hlast, ld⟩ := loadSegs_ok ac.type hk hi hP
    (fun p hp hm => nw p hp (mapped_type hm)) hs
  rw [hst]
  simp only at ld hlast hbase
  generalize hbias : elfBase as.info buf.ehdr.type base = bias at ld hlast ⊢
  generalize ((loadSegs H buf pagesize bias _ buf.phdrs).run as).st = as' at ld ⊢
  have hvis : ∀ {n p} {a x : Word}, Visible bias buf.phdrs n p a →
      x.toNat / H.pagesize.toNat = a.toNat / H.pagesize.toNat →
      as'.mem x = p.byte buf bias x ∧ as'.prot x =
        p.protAt H bias (as.nmprotect + (buf.phdrs.take n).countP ProgHeader.mapped) x := by
    intro n p a x vis hx
    have hp := List.mem_of_getElem? vis.get
    exact ld.visible (nw p hp (mapped_type vis.mapped)) (hal p hp vis.mapped) vis hx
  constructor
  · intro fa n p a vis x hx
    have hprot := fa.prot n p a vis x hx
    rw [(hvis vis hx).2] at hprot
    exact protAt_eq_pflags.mp hprot
  · intro pr
    refine ⟨?_, ld.file, fun n p a vis => (hvis vis rfl).1, fun n p a vis x hx => ?_, ?_, ?_⟩
    · have := le_of_bufread_eq (by rw [buf.phbytes_toNat]; exact hph) ac.table
      rwa [buf.phbytes_toNat] at this
    · exact (hvis vis hx).2.trans (protAt_eq_pflags.mpr (pr n p a vis x hx))
    · simp only [← hbias, elfBase, hbase]
      split <;> rfl
    · exact hlast

/-- A readable and executable segment with two bytes of code. -/
def textHeader : ProgHeader where
  type := PT_LOAD
  flags := PF_R ||| PF_X
  offset := 120
  vaddr := 8
  filesz := 2
  memsz := 16
  align := 4096

/-- The image that consists of `textHeader`. -/
def textImage : Buf := .write ET_DYN 8 [textHeader] [0x0f, 0x05]

/-- What `load` reports for `textImage`. -/
def textOut : LoadOut :=
  let base := LFIAddrSpaceInfo.plain.minaddr
  ⟨base, base + 4096, base + 8⟩

/-- The code lands where its header says when the host protects it. -/
theorem load_textImage_faithful :
    Faithful (.plain fun _ _ _ => true) textImage
      (elfBase .plain textImage.ehdr.type LFIAddrSpaceInfo.plain.minaddr) textOut
      ((load (.plain fun _ _ _ => true) textImage LFIAddrSpaceInfo.plain.minaddr 4096).run
        (.fresh .plain)).st := by
  have hk : (4096 : Word).toNat = 2 ^ 12 := rfl
  have hi : (LFIAddrSpace.fresh .plain).info.pagesize = 4096 := rfl
  have hP : (HostVm.plain fun _ _ _ => true).pagesize.toNat ∣ (4096 : Word).toNat := Nat.dvd_refl _
  have hph : textImage.ehdr.phoff.toNat + 56 * textImage.ehdr.phnum.toNat < 2 ^ 64 := by
    decide +kernel
  have nw : ∀ p ∈ textImage.phdrs, p.type = PT_LOAD → p.NoWrap := by decide +kernel
  have hval : ((load (.plain fun _ _ _ => true) textImage LFIAddrSpaceInfo.plain.minaddr 4096).run
      (.fresh .plain)).val = .ok (some textOut) := by decide +kernel
  exact (load_faithful_iff hk hi hP hph nw hval).mpr fun _ _ _ _ _ _ => .inr rfl

/-- The code stays writable and does not become executable when `mprotect` fails, and `load` returns
true all the same. -/
theorem load_textImage_unprotected :
    textImage.ehdr.phoff.toNat + 56 * textImage.ehdr.phnum.toNat < 2 ^ 64 ∧
    (∀ p ∈ textImage.phdrs, p.type = PT_LOAD → p.NoWrap) ∧
    ((load (.plain fun _ _ _ => false) textImage LFIAddrSpaceInfo.plain.minaddr 4096).run
      (.fresh .plain)).val = .ok (some textOut) ∧
    ¬ Faithful (.plain fun _ _ _ => false) textImage
      (elfBase .plain textImage.ehdr.type LFIAddrSpaceInfo.plain.minaddr) textOut
      ((load (.plain fun _ _ _ => false) textImage LFIAddrSpaceInfo.plain.minaddr 4096).run
        (.fresh .plain)).st := by
  refine ⟨by decide +kernel, by decide +kernel, by decide +kernel, fun fa => ?_⟩
  have hbias : elfBase .plain textImage.ehdr.type LFIAddrSpaceInfo.plain.minaddr =
      LFIAddrSpaceInfo.plain.minaddr := by decide +kernel
  rw [hbias] at fa
  have vis : Visible LFIAddrSpaceInfo.plain.minaddr textImage.phdrs 0 textHeader
      (LFIAddrSpaceInfo.plain.minaddr + 8) := by
    have hps : textImage.phdrs = [textHeader] := by decide +kernel
    rw [hps]
    refine ⟨rfl, by decide, ⟨by decide, by decide⟩, fun m q hm hq => ?_⟩
    cases m with
    | zero => cases hm
    | succ m => simp at hq
  have hprot := fa.prot 0 textHeader _ vis _ rfl
  revert hprot
  decide +kernel

end Libtux.Elf
