import Libtux.Elf.Faithful

/-!
# The copy of a segment

`bufreadelfseg` copies the file bytes of a segment into the pages it has just mapped. Whether the copy
stays in them is a matter of the header alone (`CopyFits`): the pages end at the rounded
`vaddr + memsz`, computed modulo `2 ^ 64`, and the copy at `vaddr` plus the number of bytes `bufread`
finds, which is not below `filesz` when the read starts after the end of the image, where
`size - offset` wraps. Images in which none of this wraps copy inside (`NoWrap.copyFits`).

`load_copies_iff` is the exact condition: the copies stay in their pages, whatever libmmap and a host with
pages of `P` bytes answer, if and only if the headers that can be reached satisfy `CopyFits`. A header is
reached when the headers before it are skipped or loaded, which again only depends on the image, what lies
around it, and `P`.
-/

namespace Libtux.Elf
open Lib

variable {L : LibMMap} {H : HostVm}

/-- A copy of `n` bytes to `dst` stays in `[lo, hi)`. -/
def CopyInside (lo hi dst n : Word) : Prop :=
  n = 0 ∨ lo.toNat ≤ dst.toNat ∧ dst.toNat + n.toNat ≤ hi.toNat

/-- Every copy of a run stays in the range mapped for it. -/
def CopiesInside (l : List Ev) : Prop :=
  ∀ lo hi dst n, Ev.segcopy lo hi dst n ∈ l → CopyInside lo hi dst n

/-- The bytes of a header that are copied end before its pages do. -/
def CopyFits (buf : Buf) (p : ProgHeader) : Prop :=
  bufread buf p.filesz p.offset = 0 ∨
    p.vaddr.toNat + (bufread buf p.filesz p.offset).toNat ≤ p.stop.toNat

/-- A header without wrapping sums, whose bytes start inside the image, copies inside. -/
lemma ProgHeader.NoWrap.copyFits {buf : Buf} {p : ProgHeader} (nw : p.NoWrap) (h0 : p.align ≠ 0)
    (hfs : p.filesz ≤ p.memsz) (hoff : p.offset ≤ buf.size) : CopyFits buf p := by
  have hstop := nw.le_stop h0
  have hle : (bufread buf p.filesz p.offset).toNat ≤ p.filesz.toNat := by
    have := nw.file
    unfold bufread
    split
    · bv_omega
    · exact le_rfl
  have : p.filesz.toNat ≤ p.memsz.toNat := hfs
  exact .inr (by omega)

section
variable {P : Word} {i : LFIAddrSpaceInfo} {type : BitVec 16} {base pagesize : Word} {buf : Buf}
  {p : ProgHeader} {s : Seg} {k : Nat}

/-- The segment of a header passes the guard of its mapping and can be mapped, in pages of `P` bytes. -/
structure Mappable (P : Word) (i : LFIAddrSpaceInfo) (type : BitVec 16) (base pagesize : Word)
    (p : ProgHeader) (s : Seg) : Prop where
  placed : Placed i type base pagesize p s
  guard : InGuard i (base + s.start) (s.stop - s.start)
  aligned : P.toNat ∣ (base + s.start).toNat
  top : (base + s.start).toNat + (s.stop - s.start).toNat < 2 ^ 64

/-- For a segment that can be mapped, the copy stays inside exactly when it fits the header. -/
lemma Mappable.copyInside_iff (mp : Mappable P i type base pagesize p s)
    (hty : type = ET_DYN ∨ type = ET_EXEC) (hk : pagesize.toNat = 2 ^ k) (hi : i.pagesize = pagesize) :
    CopyInside (base + s.start) (base + s.stop) (base + s.start + s.offset)
      (bufread buf p.filesz p.offset) ↔ CopyFits buf p := by
  have pl := mp.placed
  have htop := mp.top
  obtain ⟨_, haddr⟩ := pl.addr hty hk hi mp.guard
  have hlt := pl.lt
  have hstart : p.start.toNat ≤ p.vaddr.toNat := truncp_le _ _
  have hstop : (base + s.stop).toNat = (base + s.start).toNat + (s.stop - s.start).toNat := by
    bv_omega
  -- the segment starts above `p.start` and does not wrap, so neither does the header
  have hsize : p.start.toNat + (s.stop - s.start).toNat = p.stop.toNat := by
    rw [pl.size_eq] at htop ⊢
    bv_omega
  have hoff : s.offset.toNat = p.vaddr.toNat - p.start.toNat := by
    rw [pl.offset, BitVec.toNat_sub_of_le hstart]
  have hdst : (base + s.start + s.offset).toNat =
      ((base + s.start).toNat + s.offset.toNat) % 2 ^ 64 := BitVec.toNat_add _ _
  have := p.vaddr.isLt
  unfold CopyInside CopyFits
  rw [hstop, hdst]
  generalize bufread buf p.filesz p.offset = n
  refine or_congr_right' fun hn => ?_
  have : 0 < n.toNat := by
    have : n ≠ 0 := hn
    bv_omega
  omega

/-- The loop of `load` can get past a header. -/
def Passable (P : Word) (i : LFIAddrSpaceInfo) (buf : Buf) (base pagesize : Word) (p : ProgHeader) : Prop :=
  p.mapped = false ∨ (∃ s, Mappable P i buf.ehdr.type base pagesize p s) ∧
    bufread buf p.filesz p.offset = p.filesz ∧ buf.Readable p.offset p.filesz

/-- The loop of `load` over `ps` can get to its `n`-th header and map it, after headers that fit. -/
def Reachable (P : Word) (i : LFIAddrSpaceInfo) (buf : Buf) (base pagesize : Word) (ps : List ProgHeader)
    (n : Nat) (p : ProgHeader) : Prop :=
  ps[n]? = some p ∧ (∀ q ∈ ps.take n, Passable P i buf base pagesize q ∧ (q.mapped = true → CopyFits buf q)) ∧
    ∃ s, Mappable P i buf.ehdr.type base pagesize p s

/-- A planned segment keeps the load base. -/
lemma Mappable.next_base {st : LoadState} {elfbase : Word}
    (mp : Mappable P i type st.base pagesize p s) (hty : type = ET_DYN ∨ type = ET_EXEC)
    (hk : pagesize.toNat = 2 ^ k) (hi : i.pagesize = pagesize) :
    (st.next elfbase p s).base = st.base := by
  obtain ⟨hb0, _⟩ := mp.placed.addr hty hk hi mp.guard
  simp only [LoadState.next, if_neg hb0]

end

/-! ## Headers that fit copy inside -/

section
variable {buf : Buf} {pagesize elfbase : Word} {st : LoadState} {p : ProgHeader} {ps : List ProgHeader}
  {as : LFIAddrSpace L} {k : Nat} (hty : buf.ehdr.type = ET_DYN ∨ buf.ehdr.type = ET_EXEC)
  (hk : pagesize.toNat = 2 ^ k) (hi : as.info.pagesize = pagesize)
include hty hk hi

/-- One iteration copies inside if its header fits. -/
lemma loadSeg_copies
    (h : ∀ s, Mappable H.pagesize as.info buf.ehdr.type st.base pagesize p s → CopyFits buf p) :
    CopiesInside ((loadSeg H buf pagesize elfbase st p).run as).out := by
  intro lo hi' dst n hev
  simp only [loadSeg, Exec.bind_run, Exec.get_run, Exec.andThen_ok_nil] at hev
  cases hp : segPlan as.info buf.ehdr.type st.base pagesize p with
  | skip =>
    rw [hp] at hev
    cases hev
  | refuse =>
    rw [hp] at hev
    cases hev
  | map s =>
    have inside : ∀ {as1}, SegMapped H (st.base + s.start) (st.base + s.stop) as as1 →
        CopyInside (st.base + s.start) (st.base + s.stop) (st.base + s.start + s.offset)
          (bufread buf p.filesz p.offset) := by
      intro as1 sm
      have mp : Mappable H.pagesize as.info buf.ehdr.type st.base pagesize p s :=
        ⟨segPlan_map.mp hp, size_of_base st.base s ▸ sm.guard, sm.aligned, size_of_base st.base s ▸ sm.top⟩
      exact (mp.copyInside_iff hty hk hi).mpr (h s mp)
    simp only [hp, Exec.bind_run] at hev
    have hinv := bufreadelfseg_inv (H := H) (st.base + s.start) s.offset (st.base + s.stop) p.offset
      p.filesz (pflags p.flags) buf as
    generalize (bufreadelfseg H (st.base + s.start) s.offset (st.base + s.stop) p.offset p.filesz
      (pflags p.flags) buf).run as = r at hinv hev
    cases hinv with
    | outside _ => simp at hev
    | unmapped _ hv _ =>
      obtain rfl | rfl := hv
      · simp at hev
      · simp at hev
    | fault sm _ =>
      simp only [Exec.andThen_error, List.mem_cons, reduceCtorEq, Ev.segcopy.injEq, List.not_mem_nil,
        or_false, false_or] at hev
      obtain ⟨rfl, rfl, rfl, rfl⟩ := hev
      exact inside sm
    | short sm _ =>
      simp only [Exec.andThen_ok, Bool.false_eq_true, if_false, Exec.pure_run, List.append_nil, List.mem_cons,
        reduceCtorEq, Ev.segcopy.injEq, List.not_mem_nil, or_false, false_or] at hev
      obtain ⟨rfl, rfl, rfl, rfl⟩ := hev
      exact inside sm
    | done sm hn _ _ =>
      simp only [Exec.andThen_ok, if_true, Exec.pure_run, List.append_nil, List.mem_cons,
        reduceCtorEq, Ev.segcopy.injEq, List.not_mem_nil, or_false, false_or] at hev
      obtain ⟨rfl, rfl, rfl, rfl⟩ := hev
      exact hn ▸ inside sm

/-- An iteration that goes on has passed its header, which is mapped in the pages of the host. -/
lemma loadSeg_passable {st' : LoadState}
    (h : ((loadSeg H buf pagesize elfbase st p).run as).val = .ok (some st')) :
    Passable H.pagesize as.info buf st.base pagesize p ∧
      (p.mapped = true → ∃ s, Mappable H.pagesize as.info buf.ehdr.type st.base pagesize p s) ∧
      st'.base = st.base ∧ ((loadSeg H buf pagesize elfbase st p).run as).st.info = as.info := by
  obtain ⟨hm, rfl, hr⟩ | ⟨s, pl, sd, _, rfl⟩ := loadSeg_some h
  · rw [hr]
    refine ⟨.inl hm, fun hm' => ?_, rfl, rfl⟩
    rw [hm] at hm'
    cases hm'
  · have mp : Mappable H.pagesize as.info buf.ehdr.type st.base pagesize p s :=
      ⟨pl, sd.guard, sd.aligned, sd.top⟩
    exact ⟨.inr ⟨⟨s, mp⟩, sd.full, sd.readable⟩, fun _ => ⟨s, mp⟩, mp.next_base hty hk hi, sd.info⟩

/-- The loop copies inside if the headers it can reach fit. -/
lemma loadSegs_copies
    (h : ∀ n p, Reachable H.pagesize as.info buf st.base pagesize ps n p → CopyFits buf p) :
    CopiesInside ((loadSegs H buf pagesize elfbase st ps).run as).out := by
  induction ps generalizing st as with
  | nil =>
    intro lo hi dst n hev
    cases hev
  | cons p ps ih =>
    have hfst : CopiesInside ((loadSeg H buf pagesize elfbase st p).run as).out :=
      loadSeg_copies hty hk hi fun s mp => h 0 p ⟨rfl, by simp, s, mp⟩
    intro lo hi' dst n hev
    simp only [loadSegs, Exec.bind_run] at hev
    have hpass : ∀ {st'}, ((loadSeg H buf pagesize elfbase st p).run as).val = .ok (some st') → _ :=
      loadSeg_passable hty hk hi
    revert hev
    generalize (loadSeg H buf pagesize elfbase st p).run as = r at hfst hpass
    obtain ⟨v, as1, l⟩ := r
    intro hev
    cases v with
    | error e =>
      rw [Exec.andThen_error] at hev
      exact hfst _ _ _ _ hev
    | ok o =>
      rw [Exec.andThen_ok] at hev
      rcases List.mem_append.mp hev with hev | hev
      · exact hfst _ _ _ _ hev
      cases o with
      | none => cases hev
      | some st1 =>
        obtain ⟨hpas, hmap, hb, hinfo⟩ := hpass rfl
        simp only at hinfo
        refine ih (by rw [hinfo, hi]) (fun m q hq => ?_) _ _ _ _ hev
        rw [hinfo, hb] at hq
        obtain ⟨hget, htake, hs⟩ := hq
        refine h (m + 1) q ⟨hget, fun q' hq' => ?_, hs⟩
        rw [List.take_succ_cons] at hq'
        obtain rfl | hq' := List.mem_cons.mp hq'
        · refine ⟨hpas, fun hm => ?_⟩
          obtain ⟨s, mp⟩ := hmap hm
          exact h 0 q' ⟨rfl, by simp, s, mp⟩
        · exact htake q' hq'

end

/-! ## Reachable headers are copied -/

section
variable {P : Word} (hP : 0 < P.toNat) {k j : Nat}

/-- On a host that maps and protects what it can, a mappable segment is copied, as far as it can be. -/
lemma bufreadelfseg_paged (buf : Buf) (prot : CInt) {i : LFIAddrSpaceInfo} {type : BitVec 16}
    {base pagesize : Word} {p : ProgHeader} {s : Seg} {as : LFIAddrSpace .ofRanges}
    (hty : type = ET_DYN ∨ type = ET_EXEC) (hk : pagesize.toNat = 2 ^ k) (hj : P.toNat = 2 ^ j)
    (hdvd : P.toNat ∣ pagesize.toNat) (hpg : i.pagesize = pagesize)
    (hmm : Ranges.Aligned P.toNat as.mm) (hi : as.info = i) (mp : Mappable P i type base pagesize p s) :
    ∃ v st, (bufreadelfseg (.paged P hP fun _ _ _ => true) (base + s.start) s.offset (base + s.stop)
        p.offset p.filesz prot buf).run as =
        ⟨v, st, [.mapat (base + s.start) (base + s.stop - (base + s.start)),
          .segcopy (base + s.start) (base + s.stop) (base + s.start + s.offset)
            (bufread buf p.filesz p.offset)]⟩ ∧
      (bufread buf p.filesz p.offset = p.filesz → buf.Readable p.offset p.filesz → CopyFits buf p →
        v = .ok true ∧ Ranges.Aligned P.toNat st.mm ∧ st.info = i) := by
  obtain ⟨hpages, hpos⟩ := mp.placed.page_dvd hk
  rw [← hk] at hpages
  have htop := mp.top
  have hg : InGuard as.info (base + s.start) (s.stop - s.start) := hi ▸ mp.guard
  obtain ⟨st, hst, hinfo, hm⟩ := lfiAsMapat_paged hP (fun _ _ _ => true)
    (LFI_PROT_READ ||| LFI_PROT_WRITE) hj hmm hg mp.aligned (hdvd.trans hpages) htop
  have hne : base + s.start ≠ mapFailed := by
    intro heq
    rw [heq] at htop
    simp only [mapFailed] at htop
    bv_omega
  rw [← size_of_base base s] at hm hg htop
  obtain ⟨hg', _⟩ | ⟨_, _, _, hr | hr⟩ | ⟨_, hal, _, as1, hf, hr⟩ :=
    lfiAsMapat_cases (H := .paged P hP fun _ _ _ => true) (base + s.start) (base + s.stop - (base + s.start))
      (LFI_PROT_READ ||| LFI_PROT_WRITE) as
  · exact absurd hg hg'
  · rw [hr] at hm
    exact absurd (Except.ok.inj (congrArg Res.val hm)).symm hne
  · rw [hr] at hm
    cases hm
  obtain rfl : as1 = st := congrArg Res.st (hr.symm.trans hm)
  have sm : SegMapped (.paged P hP fun _ _ _ => true) (base + s.start) (base + s.stop) as as1 :=
    ⟨hg, hal, htop, hf⟩
  rw [bufreadelfseg_mapped sm hne hm]
  dsimp only
  split
  case isFalse hc =>
    refine ⟨_, _, rfl, fun hn hread hfit => absurd ?_ hc⟩
    rw [hn]
    refine ⟨hread, ?_⟩
    obtain h0 | ⟨hlo, hhi⟩ := (mp.copyInside_iff hty hk hpg).mpr hfit
    · rw [hn] at h0
      intro m hm
      rw [h0] at hm
      exact absurd hm (Nat.not_lt_zero m)
    · rw [hn] at hhi
      exact sm.writable hlo hhi
  split
  · exact ⟨_, _, rfl, fun _ _ _ => ⟨rfl, hst, hf.info.trans hi⟩⟩
  · exact ⟨_, _, rfl, fun hn => absurd hn ‹_›⟩

/-- On such a host the loop copies for every header it can reach. -/
lemma loadSegs_reaches {i : LFIAddrSpaceInfo} {buf : Buf} {pagesize : Word} (elfbase : Word) (st : LoadState)
    (as : LFIAddrSpace .ofRanges) {ps : List ProgHeader} {n : Nat} {p : ProgHeader}
    (hty : buf.ehdr.type = ET_DYN ∨ buf.ehdr.type = ET_EXEC)
    (hk : pagesize.toNat = 2 ^ k) (hj : P.toNat = 2 ^ j) (hdvd : P.toNat ∣ pagesize.toNat)
    (hpg : i.pagesize = pagesize) (hmm : Ranges.Aligned P.toNat as.mm)
    (hi : as.info = i) (h : Reachable P i buf st.base pagesize ps n p) :
    ∃ s, Mappable P i buf.ehdr.type st.base pagesize p s ∧
      .segcopy (st.base + s.start) (st.base + s.stop) (st.base + s.start + s.offset)
        (bufread buf p.filesz p.offset) ∈
      ((loadSegs (.paged P hP fun _ _ _ => true) buf pagesize elfbase st ps).run as).out := by
  induction ps generalizing st as n with
  | nil =>
    have := h.1
    simp at this
  | cons q ps ih =>
    obtain ⟨hget, htake, s, mp⟩ := h
    cases n with
    | zero =>
      cases hget
      refine ⟨s, mp, ?_⟩
      obtain ⟨v, as1, hr, -⟩ :=
        bufreadelfseg_paged hP buf (pflags p.flags) hty hk hj hdvd hpg hmm hi mp
      have hplan : segPlan as.info buf.ehdr.type st.base pagesize p = .map s :=
        segPlan_map.mpr (hi ▸ mp.placed)
      simp only [loadSegs, loadSeg, Exec.bind_run, Exec.get_run, Exec.andThen_ok_nil, hplan, hr]
      cases v with
      | error e => simp
      | ok v =>
        simp only [Exec.andThen_ok]
        split
        · simp
        · simp
    | succ n =>
      obtain ⟨hq, hfit⟩ := htake q (by simp)
      have htake' : ∀ q ∈ ps.take n, Passable P i buf st.base pagesize q ∧ _ :=
        fun r hr => htake r (by simp [hr])
      obtain hm | ⟨⟨s', mp'⟩, hfull, hread⟩ := hq
      · obtain ⟨s, mp, hev⟩ := ih st as hmm hi ⟨hget, htake', s, mp⟩
        refine ⟨s, mp, ?_⟩
        have hplan : segPlan as.info buf.ehdr.type st.base pagesize q = .skip := segPlan_skip.mpr hm
        simpa only [loadSegs, loadSeg, Exec.bind_run, Exec.get_run, Exec.andThen_ok_nil, hplan,
          Exec.pure_run] using hev
      · obtain ⟨v, as1, hr, hok⟩ :=
          bufreadelfseg_paged hP buf (pflags q.flags) hty hk hj hdvd hpg hmm hi mp'
        obtain ⟨rfl, hmm1, hi1⟩ := hok hfull hread (hfit mp'.placed.mapped)
        have hb : (st.next elfbase q s').base = st.base := mp'.next_base hty hk hpg
        obtain ⟨s, mp, hev⟩ := ih (st.next elfbase q s') as1 hmm1 hi1
          ⟨hget, hb.symm ▸ htake', s, hb.symm ▸ mp⟩
        rw [hb] at mp hev
        refine ⟨s, mp, ?_⟩
        have hplan : segPlan as.info buf.ehdr.type st.base pagesize q = .map s' :=
          segPlan_map.mpr (hi ▸ mp'.placed)
        simp only [loadSegs, loadSeg, Exec.bind_run, Exec.get_run, hplan, hr, if_true, Exec.andThen_ok,
          Exec.pure_run]
        exact List.mem_append_right _ hev

end

/-- The copies `load` makes for an image stay in their segments, whatever libmmap and a host with pages of
`P` bytes answer, exactly when every header it can reach fits. -/
theorem load_copies_iff {i : LFIAddrSpaceInfo} {buf : Buf} {base pagesize P : Word} {k : Nat}
    (hk : pagesize.toNat = 2 ^ k) (hi : i.pagesize = pagesize) (hP : P.toNat ∣ pagesize.toNat) :
    (∀ (L : LibMMap) (H : HostVm) (as : LFIAddrSpace L), as.info = i → H.pagesize = P →
      CopiesInside ((load H buf base pagesize).run as).out) ↔
    (Wellformed buf → ∀ n p, Reachable P i buf base pagesize buf.phdrs n p → CopyFits buf p) := by
  constructor
  · intro h wf n p hr
    have hpos : 0 < P.toNat := Nat.pos_of_dvd_of_pos hP (hk ▸ Nat.two_pow_pos k)
    obtain ⟨j, -, hj⟩ := (Nat.dvd_prime_pow Nat.prime_two).mp (hk ▸ hP)
    have hin := h .ofRanges (.paged P hpos fun _ _ _ => true) (.fresh i) rfl rfl
    have ac : Accepted (.paged P hpos fun _ _ _ => true) buf (LFIAddrSpace.fresh i).nmmap := wf.accepted rfl
    rw [load_accepted ac] at hin
    obtain ⟨s, mp, hev⟩ := loadSegs_reaches hpos (elfBase i buf.ehdr.type base) ⟨base, 0, 0⟩
      (.fresh i) ac.type hk hj hP hi (fun r hr => by cases hr) rfl hr
    rw [← mp.copyInside_iff ac.type hk hi]
    refine hin _ _ _ _ ?_
    revert hev
    simp only [LFIAddrSpace.fresh]
    generalize (loadSegs _ buf pagesize _ _ buf.phdrs).run _ = r
    obtain ⟨v, as1, l⟩ := r
    intro hev
    cases v with
    | error e => simpa using hev
    | ok o =>
      rw [Exec.andThen_ok]
      exact List.mem_append_left _ hev
  · rintro h L H as rfl rfl
    by_cases ac : Accepted H buf as.nmmap
    · have hin : CopiesInside ((loadSegs H buf pagesize (elfBase as.info buf.ehdr.type base)
          ⟨base, 0, 0⟩ buf.phdrs).run as).out := loadSegs_copies ac.type hk hi (h ac.wellformed)
      rw [load_accepted ac]
      generalize (loadSegs H buf pagesize _ _ buf.phdrs).run as = r at hin
      obtain ⟨v, as1, l⟩ := r
      cases v with
      | error e => simpa using hin
      | ok o =>
        rw [Exec.andThen_ok]
        cases o with
        | none => simpa using hin
        | some st => simpa using hin
    · obtain ⟨v, -, hr⟩ := load_quiet base pagesize ac
      rw [hr]
      intro lo hi' dst n hev
      cases hev

/-- The copy of an image in order stays inside. -/
theorem load_textImage_copies :
    CopiesInside ((load (.plain fun _ _ _ => true) textImage LFIAddrSpaceInfo.plain.minaddr 4096).run
      (.fresh .plain)).out := by
  have hk : (4096 : Word).toNat = 2 ^ 12 := rfl
  have hi : LFIAddrSpaceInfo.plain.pagesize = 4096 := rfl
  refine (load_copies_iff hk hi (P := 4096) dvd_rfl).mpr (fun _ n p hr => ?_) _ _ (.fresh .plain) rfl rfl
  have hps : textImage.phdrs = [textHeader] := by decide +kernel
  rw [hps] at hr
  obtain rfl := List.mem_singleton.mp (List.mem_of_getElem? hr.1)
  have nw : textHeader.NoWrap := by decide +kernel
  exact nw.copyFits (by decide) (by decide) (by decide +kernel)

/-- A header whose `vaddr + memsz` wraps to `1`: it gets one page, and its two bytes of file data
start at the last byte of it. -/
def wrapHeader : ProgHeader where
  type := PT_LOAD
  flags := PF_R ||| PF_W
  offset := 176
  vaddr := 4095
  filesz := 2
  memsz := -4094
  align := 4096

/-- A writable page right after that of `wrapHeader`. -/
def pageHeader : ProgHeader where
  type := PT_LOAD
  flags := PF_R ||| PF_W
  offset := 0
  vaddr := 4096
  filesz := 0
  memsz := 4096
  align := 4096

/-- The image that consists of the two. -/
def wrapImage : Buf := .write ET_DYN 0 [pageHeader, wrapHeader] [1, 2]

/-- The second byte of `wrapHeader` is copied past the page that was mapped for it, to the other page. -/
theorem load_wrapImage_overruns :
    ((load (.plain fun _ _ _ => true) wrapImage LFIAddrSpaceInfo.plain.minaddr 4096).run
      (.fresh .plain)).val.isOk = true ∧
    ((load (.plain fun _ _ _ => true) wrapImage LFIAddrSpaceInfo.plain.minaddr 4096).run
      (.fresh .plain)).st.mem (LFIAddrSpaceInfo.plain.minaddr + 4096) = 2 ∧
    ¬ CopiesInside ((load (.plain fun _ _ _ => true) wrapImage LFIAddrSpaceInfo.plain.minaddr 4096).run
      (.fresh .plain)).out := by
  refine ⟨by decide +kernel, by decide +kernel, fun hin => ?_⟩
  have hev : Ev.segcopy LFIAddrSpaceInfo.plain.minaddr (LFIAddrSpaceInfo.plain.minaddr + 4096)
      (LFIAddrSpaceInfo.plain.minaddr + 4095) 2 ∈
      ((load (.plain fun _ _ _ => true) wrapImage LFIAddrSpaceInfo.plain.minaddr 4096).run
        (.fresh .plain)).out := by decide +kernel
  have hcopy := hin _ _ _ _ hev
  unfold CopyInside at hcopy
  revert hcopy
  decide +kernel

end Libtux.Elf
