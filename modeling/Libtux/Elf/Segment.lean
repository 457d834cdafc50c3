import Libtux.Elf.Load
import Libtux.Pal.Mapping

/-!
# Loading one segment

What `segPlan` decides and what `bufreadelfseg` does, as inversion lemmas that the results about
whole images are built on.

`segPlan_map` is everything a planned segment is known to satisfy. The start and the end are counted
from the load base; added to it they are the rounded addresses of the header, counted from `elfBase`
(`Placed.start_eq`, `Placed.stop_eq`), for both kinds of image. `bufreadelfseg_inv` is the effect:
a copy is begun exactly when the mapping succeeded, and a `true` means that the pages are fresh, the
file bytes are in place and `mprotect` was called.
-/

namespace Libtux.Elf
open Lib

variable {L : LibMMap} {H : HostVm}

/-- A header that `load` maps. -/
def ProgHeader.mapped (p : ProgHeader) : Bool := p.type = PT_LOAD ∧ p.memsz ≠ 0

/-- The rounded range of a header, before it is placed. -/
def ProgHeader.start (p : ProgHeader) : Word := truncp p.vaddr p.align

/-- Where its pages end. -/
def ProgHeader.stop (p : ProgHeader) : Word := ceilp (p.vaddr + p.memsz) p.align

/-- The facts about a planned segment. -/
structure Placed (i : LFIAddrSpaceInfo) (type : BitVec 16) (base pagesize : Word) (p : ProgHeader)
    (s : Seg) : Prop where
  mapped : p.mapped = true
  align : p.align % pagesize = 0
  filesz : p.filesz ≤ p.memsz
  lt : s.start < s.stop
  start_lt : s.start < CODEMAX
  stop_lt : s.stop < CODEMAX
  offset : s.offset = p.vaddr - p.start
  rebased : type = ET_EXEC → base - i.base ≤ p.start
  start : s.start = rebase i type base p.start
  stop : s.stop = rebase i type base p.stop

/-- Inversion for a header that `segPlan` maps. -/
lemma segPlan_map {i : LFIAddrSpaceInfo} {type : BitVec 16} {base pagesize : Word} {p : ProgHeader}
    {s : Seg} : segPlan i type base pagesize p = .map s ↔ Placed i type base pagesize p s := by
  unfold segPlan
  constructor
  · intro h
    by_cases hty : p.type = PT_LOAD
    case neg =>
      rw [if_pos hty] at h
      cases h
    by_cases hmem : p.memsz = 0
    case pos =>
      rw [if_neg (not_not.mpr hty), if_pos hmem] at h
      cases h
    by_cases hal : p.align % pagesize = 0
    case neg =>
      rw [if_neg (not_not.mpr hty), if_neg hmem, if_pos hal] at h
      cases h
    rw [if_neg (not_not.mpr hty), if_neg hmem, if_neg (not_not.mpr hal)] at h
    dsimp only at h
    split at h
    case isTrue => cases h
    rename_i hre
    split at h
    case isTrue => cases h
    rename_i hfs
    split at h
    case isTrue => cases h
    rename_i hlt
    simp only [not_or, ge_iff_le, BitVec.not_le] at hlt
    cases h
    exact {
      mapped := decide_eq_true ⟨hty, hmem⟩
      align := hal
      filesz := BitVec.not_lt.mp hfs
      lt := hlt.1
      start_lt := hlt.2.1
      stop_lt := hlt.2.2
      offset := rfl
      rebased := fun he => BitVec.not_lt.mp fun hlt => hre ⟨he, hlt⟩
      start := rfl
      stop := rfl }
  · rintro ⟨hm, hal, hfs, hlt, hst, hsp, hoff, hre, hs, he⟩
    simp only [ProgHeader.mapped, decide_eq_true_eq] at hm
    obtain ⟨st, sp, off⟩ := s
    simp only at hlt hst hsp hoff hs he
    have hre' : ¬ (type = ET_EXEC ∧ truncp p.vaddr p.align < base - i.base) := fun ⟨he, hlt⟩ =>
      BitVec.not_le.mpr hlt (hre he)
    simp only [hm.1, ne_eq, not_true_eq_false, if_false, hm.2, hal, hre', BitVec.not_lt.mpr hfs]
    subst hoff hs he
    refine if_neg ?_
    rintro (h | h | h)
    · exact BitVec.not_lt.mpr h hlt
    · exact BitVec.not_lt.mpr h hst
    · exact BitVec.not_lt.mpr h hsp

/-- Inversion for a header that `segPlan` skips. -/
lemma segPlan_skip {i : LFIAddrSpaceInfo} {type : BitVec 16} {base pagesize : Word} {p : ProgHeader} :
    segPlan i type base pagesize p = .skip ↔ p.mapped = false := by
  unfold segPlan
  by_cases hty : p.type = PT_LOAD
  case neg => simp [hty, ProgHeader.mapped]
  by_cases hmem : p.memsz = 0
  case pos => simp [hty, ProgHeader.mapped, hmem]
  rw [if_neg (not_not.mpr hty), if_neg hmem]
  have hm : p.mapped = true := decide_eq_true ⟨hty, hmem⟩
  rw [hm]
  dsimp only
  constructor
  · intro h
    split at h
    · cases h
    split at h
    · cases h
    split at h
    · cases h
    split at h
    · cases h
    · cases h
  · intro h
    cases h

section
variable {i : LFIAddrSpaceInfo} {type : BitVec 16} {base pagesize : Word} {p : ProgHeader} {s : Seg}

/-- Placing a rebased address at the load base gives the address counted from `elfBase`. -/
lemma add_rebase (hty : type = ET_DYN ∨ type = ET_EXEC) (x : Word) :
    base + rebase i type base x = elfBase i type base + x := by
  unfold rebase elfBase
  obtain rfl | rfl := hty
  · rw [if_neg (by decide), if_pos rfl]
  · rw [if_pos rfl, if_neg (by decide)]
    bv_omega

/-- Rebased addresses are as far apart as before. -/
lemma rebase_sub (x y : Word) : rebase i type base x - rebase i type base y = x - y := by
  unfold rebase
  split
  · bv_omega
  · rfl

/-- The pages start where the header says, counted from the base of the image, -/
lemma Placed.start_eq (pl : Placed i type base pagesize p s)
    (hty : type = ET_DYN ∨ type = ET_EXEC) : base + s.start = elfBase i type base + p.start := by
  rw [pl.start, add_rebase hty]

/-- and end there. -/
lemma Placed.stop_eq (pl : Placed i type base pagesize p s)
    (hty : type = ET_DYN ∨ type = ET_EXEC) : base + s.stop = elfBase i type base + p.stop := by
  rw [pl.stop, add_rebase hty]

/-- They are as many. -/
lemma Placed.size_eq (pl : Placed i type base pagesize p s) : s.stop - s.start = p.stop - p.start := by
  rw [pl.start, pl.stop, rebase_sub]

/-- The size of a segment does not depend on where it is placed. -/
lemma size_of_base (b : Word) (s : Seg) : (b + s.stop) - (b + s.start) = s.stop - s.start := by
  bv_omega

/-- A planned segment has a whole number of every page that divides the configured one. -/
lemma Placed.dvd_size {k : Nat} (hk64 : k ≤ 64) (hk : 2 ^ k ∣ pagesize.toNat)
    (pl : Placed i type base pagesize p s) : 2 ^ k ∣ (s.stop - s.start).toNat := by
  have hal : 2 ^ k ∣ p.align.toNat := by
    have h := congrArg BitVec.toNat pl.align
    rw [BitVec.toNat_umod] at h
    exact hk.trans (Nat.dvd_of_mod_eq_zero h)
  rw [pl.size_eq]
  exact dvd_sub_word hk64 (dvd_ceilp hk64 hal) (dvd_truncp hk64 hal)

/-- A planned segment has a whole number of pages, at least one. -/
lemma Placed.page_dvd {k : Nat} (hk : pagesize.toNat = 2 ^ k) (pl : Placed i type base pagesize p s) :
    2 ^ k ∣ (s.stop - s.start).toNat ∧ 0 < (s.stop - s.start).toNat := by
  have hk64 : k ≤ 64 := by
    have := pagesize.isLt
    rw [hk] at this
    exact (Nat.pow_lt_pow_iff_right (by omega)).mp this |>.le
  refine ⟨pl.dvd_size hk64 (hk ▸ dvd_rfl), ?_⟩
  have := pl.lt
  bv_omega

end

/-- The pages of a segment were mapped. -/
structure SegMapped (H : HostVm) (start stop : Word) (as as1 : LFIAddrSpace L) : Prop where
  guard : InGuard as.info start (stop - start)
  aligned : H.pagesize.toNat ∣ start.toNat
  top : start.toNat + (stop - start).toNat < 2 ^ 64
  fresh : FreshAt H start (stop - start) (LFI_PROT_READ ||| LFI_PROT_WRITE) as as1

/-- What lies in the mapped pages is open to writes. -/
lemma SegMapped.writable {start stop dst n : Word} {as as1 : LFIAddrSpace L} (sm : SegMapped H start stop as as1)
    (hlo : start.toNat ≤ dst.toNat) (hhi : dst.toNat + n.toNat ≤ stop.toNat) : as1.Writable dst n := by
  intro k hk
  have htop := sm.top
  have hstop := stop.isLt
  have hx : (dst + BitVec.ofNat 64 k).toNat = dst.toNat + k := toNat_add_ofNat (by omega)
  have hspan : InSpan start (stop - start) (dst + BitVec.ofNat 64 k) := by
    unfold InSpan
    rw [hx, BitVec.toNat_sub_of_le (by rw [BitVec.le_def]; omega)]
    omega
  rw [sm.fresh.prot, if_pos (hspan.covers H.pagesize_pos)]
  decide

/-- The ways through `bufreadelfseg`. -/
inductive SegRun (H : HostVm) (start offset stop p_offset filesz : Word) (prot : CInt) (buf : Buf)
    (as : LFIAddrSpace L) : Res Stop Ev (LFIAddrSpace L) Bool → Prop where
  | outside : ¬ InGuard as.info start (stop - start) →
    SegRun H start offset stop p_offset filesz prot buf as
      ⟨.error (.assertion .mapatRange), as, [.mapat start (stop - start)]⟩
  | unmapped {v st} : InGuard as.info start (stop - start) →
    v = .ok false ∨ v = .error (.assertion .cbunmap) → st.info = as.info →
    SegRun H start offset stop p_offset filesz prot buf as ⟨v, st, [.mapat start (stop - start)]⟩
  | fault {as1} : SegMapped H start stop as as1 →
    ¬ (buf.Readable p_offset (bufread buf filesz p_offset) ∧
      as1.Writable (start + offset) (bufread buf filesz p_offset)) →
    SegRun H start offset stop p_offset filesz prot buf as ⟨.error .fault, as1,
      [.mapat start (stop - start), .segcopy start stop (start + offset) (bufread buf filesz p_offset)]⟩
  | short {as1} : SegMapped H start stop as as1 → bufread buf filesz p_offset ≠ filesz →
    SegRun H start offset stop p_offset filesz prot buf as
      ⟨.ok false, copied as1 (start + offset) (bufread buf filesz p_offset) buf p_offset,
        [.mapat start (stop - start), .segcopy start stop (start + offset) (bufread buf filesz p_offset)]⟩
  | done {as1} : SegMapped H start stop as as1 → bufread buf filesz p_offset = filesz →
    buf.Readable p_offset filesz → as1.Writable (start + offset) filesz →
    SegRun H start offset stop p_offset filesz prot buf as
      ⟨.ok true, (copied as1 (start + offset) filesz buf p_offset).mprotected H start (stop - start) prot,
        [.mapat start (stop - start), .segcopy start stop (start + offset) filesz]⟩

/-- What a run shows: the mapping, and the copy if it comes to it. -/
lemma SegRun.events {start offset stop p_offset filesz : Word} {prot : CInt} {buf : Buf} {as : LFIAddrSpace L}
    {r : Res Stop Ev (LFIAddrSpace L) Bool} (h : SegRun H start offset stop p_offset filesz prot buf as r) :
    ∀ e ∈ r.out, e = .mapat start (stop - start) ∨ ∃ lo hi dst n, e = .segcopy lo hi dst n := by
  intro e he
  cases h <;> simp only [List.mem_cons, List.not_mem_nil, or_false] at he
  case outside => exact .inl he
  case unmapped => exact .inl he
  all_goals exact he.imp_right fun h => ⟨_, _, _, _, h⟩

/-- Once the pages are mapped, the copy decides. -/
lemma bufreadelfseg_mapped {start offset stop p_offset filesz : Word} {prot : CInt} {buf : Buf}
    {as as1 : LFIAddrSpace L} (sm : SegMapped H start stop as as1) (hne : start ≠ mapFailed)
    (hm : (lfiAsMapat H start (stop - start) (LFI_PROT_READ ||| LFI_PROT_WRITE) none).run as =
      ⟨.ok start, as1, [.mapat start (stop - start)]⟩) :
    (bufreadelfseg H start offset stop p_offset filesz prot buf).run as =
      (let n := bufread buf filesz p_offset
      let out := [.mapat start (stop - start), .segcopy start stop (start + offset) n]
      let st := copied as1 (start + offset) n buf p_offset
      if buf.Readable p_offset n ∧ as1.Writable (start + offset) n then
        if n = filesz then ⟨.ok true, st.mprotected H start (stop - start) prot, out⟩ else ⟨.ok false, st, out⟩
      else ⟨.error .fault, as1, out⟩) := by
  rw [bufreadelfseg, Exec.bind_run, hm, Exec.andThen_ok, if_neg hne]
  simp only [Exec.bind_run, Exec.tell_run, Exec.andThen_ok, memcpy, Exec.mk_run, List.cons_append,
    List.nil_append]
  split
  case isFalse => rw [Exec.andThen_error]
  rw [Exec.andThen_ok_nil]
  by_cases hn : bufread buf filesz p_offset = filesz
  case neg => rw [if_pos hn, if_neg hn, Exec.pure_run]
  rw [if_neg (not_not.mpr hn), if_pos hn, Exec.bind_run]
  obtain ⟨hg, _⟩ | ⟨_, r, hr, hp⟩ := lfiAsMprotect_cases (H := H) start (stop - start) prot
    (copied as1 (start + offset) (bufread buf filesz p_offset) buf p_offset)
  · exact absurd (show InGuard as1.info start (stop - start) from sm.fresh.info ▸ sm.guard) hg
  · rw [hp, Exec.andThen_ok_nil, if_neg (not_lt.mpr hr), Exec.pure_run]

/-- A run of `bufreadelfseg` takes one of its ways. -/
lemma bufreadelfseg_inv (start offset stop p_offset filesz : Word) (prot : CInt) (buf : Buf)
    (as : LFIAddrSpace L) :
    SegRun H start offset stop p_offset filesz prot buf as
      ((bufreadelfseg H start offset stop p_offset filesz prot buf).run as) := by
  obtain ⟨hg, hm⟩ | ⟨hg, st, hst, hm | hm⟩ | ⟨hg, hal, htop, as1, hf, hm⟩ :=
    lfiAsMapat_cases (H := H) start (stop - start) (LFI_PROT_READ ||| LFI_PROT_WRITE) as
  · rw [bufreadelfseg, Exec.bind_run, hm, Exec.andThen_error]
    exact .outside hg
  · rw [bufreadelfseg, Exec.bind_run, hm, Exec.andThen_ok, if_pos rfl, Exec.pure_run]
    exact .unmapped hg (.inl rfl) hst
  · rw [bufreadelfseg, Exec.bind_run, hm, Exec.andThen_error]
    exact .unmapped hg (.inr rfl) hst
  by_cases hne : start = mapFailed
  · rw [bufreadelfseg, Exec.bind_run, hm, Exec.andThen_ok, if_pos hne, Exec.pure_run]
    exact .unmapped hg (.inl rfl) hf.info
  have sm : SegMapped H start stop as as1 := ⟨hg, hal, htop, hf⟩
  rw [bufreadelfseg_mapped sm hne hm]
  dsimp only
  split
  case isFalse hc => exact .fault sm hc
  rename_i hc
  split
  case isFalse hn => exact .short sm hn
  rename_i hn
  rw [hn] at hc ⊢
  exact .done sm hn hc.1 hc.2

/-- The state after a segment was loaded. -/
structure SegDone (H : HostVm) (buf : Buf) (base : Word) (p : ProgHeader) (s : Seg)
    (as as' : LFIAddrSpace L) : Prop where
  guard : InGuard as.info (base + s.start) (s.stop - s.start)
  aligned : H.pagesize.toNat ∣ (base + s.start).toNat
  top : (base + s.start).toNat + (s.stop - s.start).toNat < 2 ^ 64
  full : bufread buf p.filesz p.offset = p.filesz
  readable : buf.Readable p.offset p.filesz
  info : as'.info = as.info
  nmprotect : as'.nmprotect = as.nmprotect + 1
  mem : ∀ x, as'.mem x =
    if x - (base + s.start + s.offset) < p.filesz then
      buf.data (p.offset + (x - (base + s.start + s.offset)))
    else if covers H.pagesize (base + s.start) (s.stop - s.start) x then 0 else as.mem x
  prot : ∀ x, as'.prot x =
    if covers H.pagesize (base + s.start) (s.stop - s.start) x then
      if H.protects as.nmprotect (base + s.start) (s.stop - s.start) x then mmapprot (pflags p.flags)
      else mmapprot (LFI_PROT_READ ||| LFI_PROT_WRITE)
    else as.prot x

/-- The loop variables after a segment was loaded. -/
def LoadState.next (st : LoadState) (elfbase : Word) (p : ProgHeader) (s : Seg) : LoadState :=
  let lowest := elfbase + p.start
  let base := if st.base = 0 then st.base + s.start else st.base
  { base
    first := if st.first = 0 ∨ lowest < st.first then lowest else st.first
    last := if base + s.stop > st.last then base + s.stop else st.last }

/-- Inversion for an iteration of the loop that goes on: the header was skipped, or its segment was
loaded. -/
lemma loadSeg_some {buf : Buf} {pagesize elfbase : Word} {st st' : LoadState} {p : ProgHeader}
    {as : LFIAddrSpace L}
    (h : ((loadSeg H buf pagesize elfbase st p).run as).val = .ok (some st')) :
    (p.mapped = false ∧ st' = st ∧ (loadSeg H buf pagesize elfbase st p).run as = ⟨.ok (some st), as, []⟩) ∨
    (∃ s, Placed as.info buf.ehdr.type st.base pagesize p s ∧
      SegDone H buf st.base p s as ((loadSeg H buf pagesize elfbase st p).run as).st ∧
      ((loadSeg H buf pagesize elfbase st p).run as).out =
        [.mapat (st.base + s.start) (s.stop - s.start),
         .segcopy (st.base + s.start) (st.base + s.stop) (st.base + s.start + s.offset) p.filesz] ∧
      st' = st.next elfbase p s) := by
  simp only [loadSeg, Exec.bind_run, Exec.get_run, Exec.andThen_ok_nil] at h ⊢
  cases hp : segPlan as.info buf.ehdr.type st.base pagesize p with
  | skip =>
    left
    simp only [hp, Exec.pure_run, Except.ok.injEq, Option.some.injEq] at h ⊢
    exact ⟨segPlan_skip.mp hp, h.symm, trivial⟩
  | refuse =>
    simp only [hp, Exec.pure_run, Except.ok.injEq] at h
    cases h
  | map s =>
    right
    simp only [hp, Exec.bind_run] at h ⊢
    refine ⟨s, segPlan_map.mp hp, ?_⟩
    have hinv := bufreadelfseg_inv (H := H) (st.base + s.start) s.offset (st.base + s.stop) p.offset
      p.filesz (pflags p.flags) buf as
    generalize (bufreadelfseg H (st.base + s.start) s.offset (st.base + s.stop) p.offset p.filesz
      (pflags p.flags) buf).run as = r at hinv h ⊢
    cases hinv with
    | outside => cases h
    | unmapped _ hv _ =>
      obtain rfl | rfl := hv
      · simp at h
      · cases h
    | fault _ _ => cases h
    | short _ _ => simp at h
    | @done as1 sm hn hread hwrite =>
      obtain ⟨hg, hal, htop, hf⟩ := sm
      simp only [if_true, Exec.pure_run, Exec.andThen_ok, Except.ok.injEq, Option.some.injEq,
        size_of_base, List.append_nil] at h hg htop hf ⊢
      refine ⟨⟨hg, hal, htop, hn, hread, hf.info, ?_, fun x => ?_, fun x => ?_⟩, trivial, h.symm⟩
      · exact congrArg (· + 1) hf.nmprotect
      · simp only [LFIAddrSpace.mprotected, copied, splice, hf.mem]
      · simp only [LFIAddrSpace.mprotected, copied, hf.prot, hf.nmprotect]
        by_cases hc : covers H.pagesize (st.base + s.start) (s.stop - s.start) x
        · simp [hc]
        · simp [hc]

/-- Inversion for a loop that goes through: its first iteration did, and so did the rest. -/
lemma loadSegs_cons_some {buf : Buf} {pagesize elfbase : Word} {st st' : LoadState} {p : ProgHeader}
    {ps : List ProgHeader} {as : LFIAddrSpace L}
    (h : ((loadSegs H buf pagesize elfbase st (p :: ps)).run as).val = .ok (some st')) :
    ∃ st1, ((loadSeg H buf pagesize elfbase st p).run as).val = .ok (some st1) ∧
      ((loadSegs H buf pagesize elfbase st1 ps).run
        ((loadSeg H buf pagesize elfbase st p).run as).st).val = .ok (some st') ∧
      ((loadSegs H buf pagesize elfbase st (p :: ps)).run as).st =
        ((loadSegs H buf pagesize elfbase st1 ps).run
          ((loadSeg H buf pagesize elfbase st p).run as).st).st ∧
      ((loadSegs H buf pagesize elfbase st (p :: ps)).run as).out =
        ((loadSeg H buf pagesize elfbase st p).run as).out ++
          ((loadSegs H buf pagesize elfbase st1 ps).run
            ((loadSeg H buf pagesize elfbase st p).run as).st).out := by
  obtain ⟨o, ho, hr, hst, hout⟩ := Exec.bind_ok h
  cases o with
  | none =>
    simp only [Exec.pure_run, Except.ok.injEq] at hr
    cases hr
  | some st1 => exact ⟨st1, ho, hr, hst, hout⟩

/-- The checks `load` makes before its loop. -/
structure Accepted (H : HostVm) (buf : Buf) (n : Nat) : Prop where
  header : bufread buf FileHeader.bytes 0 = FileHeader.bytes
  check : elfcheck buf.ehdr = true
  malloc : H.malloc n buf.phbytes = true
  table : bufread buf buf.phbytes buf.ehdr.phoff = buf.phbytes
  readable : buf.Readable buf.ehdr.phoff buf.phbytes
  entry : buf.ehdr.entry < CODEMAX

/-- The checks `load` makes on the image before its loop. -/
structure Wellformed (buf : Buf) : Prop where
  header : bufread buf FileHeader.bytes 0 = FileHeader.bytes
  check : elfcheck buf.ehdr = true
  table : bufread buf buf.phbytes buf.ehdr.phoff = buf.phbytes
  readable : buf.Readable buf.ehdr.phoff buf.phbytes
  entry : buf.ehdr.entry < CODEMAX

/-- An image that is accepted has headers that can be read, -/
lemma Accepted.wellformed {buf : Buf} {n : Nat} (ac : Accepted H buf n) : Wellformed buf :=
  ⟨ac.header, ac.check, ac.table, ac.readable, ac.entry⟩

/-- and one that has is accepted, if there is memory for them. -/
lemma Wellformed.accepted {buf : Buf} {n : Nat} (wf : Wellformed buf) (hm : H.malloc n buf.phbytes = true) :
    Accepted H buf n :=
  ⟨wf.header, wf.check, hm, wf.table, wf.readable, wf.entry⟩

/-- It can be moved, or has a place of its own. -/
lemma Accepted.type {buf : Buf} {n : Nat} (ac : Accepted H buf n) :
    buf.ehdr.type = ET_DYN ∨ buf.ehdr.type = ET_EXEC := by
  have h := ac.check
  simp only [elfcheck, decide_eq_true_eq] at h
  exact h.2.2.2

/-- The copy of the program headers is begun, and leaves what can be read or the array it goes to. -/
structure Overruns (buf : Buf) : Prop where
  header : bufread buf FileHeader.bytes 0 = FileHeader.bytes
  check : elfcheck buf.ehdr = true
  outside : ¬ (buf.Readable buf.ehdr.phoff (bufread buf buf.phbytes buf.ehdr.phoff) ∧
    bufread buf buf.phbytes buf.ehdr.phoff ≤ buf.phbytes)

/-- Its table is read within the file. -/
lemma Wellformed.not_overruns {buf : Buf} (wf : Wellformed buf) : ¬ Overruns buf := by
  intro ov
  refine ov.outside ?_
  rw [wf.table]
  exact ⟨wf.readable, BitVec.le_refl _⟩

/-- Past its checks, `load` is its loop. -/
lemma load_accepted {buf : Buf} {base pagesize : Word} {as : LFIAddrSpace L}
    (ac : Accepted H buf as.nmmap) :
    (load H buf base pagesize).run as =
      Exec.andThen ((loadSegs H buf pagesize (elfBase as.info buf.ehdr.type base) ⟨base, 0, 0⟩
        buf.phdrs).run as) fun o =>
        match o with
        | none => pure none
        | some st => pure (some
          { first := st.first
            last := st.last
            entry := if buf.ehdr.type = ET_DYN then st.base + buf.ehdr.entry
              else as.info.base + buf.ehdr.entry }) := by
  have he := BitVec.not_le.mpr ac.entry
  rw [load, Exec.bind_run, Exec.get_run, Exec.andThen_ok_nil]
  dsimp only
  rw [if_neg (not_not.mpr ac.header), if_neg (not_not.mpr ac.check), if_neg (not_not.mpr ac.malloc), ac.table,
    if_neg (not_not.mpr rfl), if_neg he, Exec.bind_run, Exec.check_run, if_pos ac.readable,
    Exec.andThen_ok_nil, Exec.bind_run, Exec.check_run, if_pos (BitVec.le_refl _), Exec.andThen_ok_nil]
  exact Exec.bind_run _ _ _

/-- An image whose program headers cannot be copied stops `load`, if the host has memory for them. -/
lemma load_overruns {buf : Buf} (base pagesize : Word) (as : LFIAddrSpace L) (ov : Overruns buf)
    (hm : H.malloc as.nmmap buf.phbytes = true) :
    ∃ e, (e = .fault ∨ e = .undefined) ∧ (load H buf base pagesize).run as = ⟨.error e, as, []⟩ := by
  rw [load, Exec.bind_run, Exec.get_run, Exec.andThen_ok_nil]
  dsimp only
  rw [if_neg (not_not.mpr ov.header), if_neg (not_not.mpr ov.check), if_neg (not_not.mpr hm), Exec.bind_run,
    Exec.check_run]
  by_cases hr : buf.Readable buf.ehdr.phoff (bufread buf buf.phbytes buf.ehdr.phoff)
  case neg => exact ⟨.fault, .inl rfl, by rw [if_neg hr, Exec.andThen_error]⟩
  have hle := fun h => ov.outside ⟨hr, h⟩
  refine ⟨.undefined, .inr rfl, ?_⟩
  rw [if_pos hr, Exec.andThen_ok_nil, Exec.bind_run, Exec.check_run, if_neg hle, Exec.andThen_error]

/-- `load` refuses another image that does not pass its checks, without touching anything. -/
lemma load_refused {buf : Buf} {base pagesize : Word} {as : LFIAddrSpace L}
    (ac : ¬ Accepted H buf as.nmmap) (ov : Overruns buf → H.malloc as.nmmap buf.phbytes = false) :
    (load H buf base pagesize).run as = ⟨.ok none, as, []⟩ := by
  rw [load, Exec.bind_run, Exec.get_run, Exec.andThen_ok_nil]
  dsimp only
  by_cases h1 : bufread buf FileHeader.bytes 0 = FileHeader.bytes
  case neg => rw [if_pos h1, Exec.pure_run]
  rw [if_neg (not_not.mpr h1)]
  by_cases h2 : elfcheck buf.ehdr = true
  case neg => rw [if_pos h2, Exec.pure_run]
  rw [if_neg (not_not.mpr h2)]
  by_cases h3 : H.malloc as.nmmap buf.phbytes = true
  case neg => rw [if_pos h3, Exec.pure_run]
  have hc : buf.Readable buf.ehdr.phoff (bufread buf buf.phbytes buf.ehdr.phoff) ∧
      bufread buf buf.phbytes buf.ehdr.phoff ≤ buf.phbytes := by
    by_contra hc
    rw [ov ⟨h1, h2, hc⟩] at h3
    cases h3
  rw [if_neg (not_not.mpr h3), Exec.bind_run, Exec.check_run, if_pos hc.1, Exec.andThen_ok_nil,
    Exec.bind_run, Exec.check_run, if_pos hc.2, Exec.andThen_ok_nil]
  by_cases h4 : bufread buf buf.phbytes buf.ehdr.phoff = buf.phbytes
  case neg => rw [if_pos h4, Exec.pure_run]
  rw [if_neg (not_not.mpr h4)]
  by_cases h5 : buf.ehdr.entry ≥ CODEMAX
  case pos => rw [if_pos h5, Exec.pure_run]
  rw [h4] at hc
  exact absurd ⟨h1, h2, h3, h4, hc.1, BitVec.not_le.mp h5⟩ ac

/-- An image that does not pass the checks leaves everything as it was. -/
lemma load_quiet {buf : Buf} (base pagesize : Word) {as : LFIAddrSpace L} (ac : ¬ Accepted H buf as.nmmap) :
    ∃ v, (∀ o, v ≠ .ok (some o)) ∧ (load H buf base pagesize).run as = ⟨v, as, []⟩ := by
  by_cases ov : Overruns buf → H.malloc as.nmmap buf.phbytes = false
  · exact ⟨.ok none, nofun, load_refused ac ov⟩
  · rw [Classical.not_imp, Bool.not_eq_false] at ov
    obtain ⟨e, -, h⟩ := load_overruns base pagesize as ov.1 ov.2
    exact ⟨.error e, nofun, h⟩

/-- Inversion for a `load` that returns true. -/
lemma load_some {buf : Buf} {base pagesize : Word} {out : LoadOut} {as : LFIAddrSpace L}
    (h : ((load H buf base pagesize).run as).val = .ok (some out)) :
    Accepted H buf as.nmmap ∧ ∃ st,
      ((loadSegs H buf pagesize (elfBase as.info buf.ehdr.type base) ⟨base, 0, 0⟩ buf.phdrs).run
        as).val = .ok (some st) ∧
      ((load H buf base pagesize).run as).st =
        ((loadSegs H buf pagesize (elfBase as.info buf.ehdr.type base) ⟨base, 0, 0⟩ buf.phdrs).run
          as).st ∧
      ((load H buf base pagesize).run as).out =
        ((loadSegs H buf pagesize (elfBase as.info buf.ehdr.type base) ⟨base, 0, 0⟩ buf.phdrs).run
          as).out ∧
      out = ⟨st.first, st.last, if buf.ehdr.type = ET_DYN then st.base + buf.ehdr.entry
        else as.info.base + buf.ehdr.entry⟩ := by
  by_cases ac : Accepted H buf as.nmmap
  case neg =>
    obtain ⟨v, hv, hr⟩ := load_quiet base pagesize ac
    rw [hr] at h
    exact absurd h (hv out)
  refine ⟨ac, ?_⟩
  rw [load_accepted ac] at h ⊢
  generalize (loadSegs H buf pagesize (elfBase as.info buf.ehdr.type base) ⟨base, 0, 0⟩
    buf.phdrs).run as = r at h ⊢
  obtain ⟨v, st1, l⟩ := r
  cases v with
  | error e => simp at h
  | ok o =>
    cases o with
    | none => simp at h
    | some st =>
      simp only [Exec.andThen_ok, Exec.pure_run, Except.ok.injEq, Option.some.injEq] at h
      exact ⟨st, rfl, rfl, by simp, h.symm⟩

end Libtux.Elf
