import Libtux.Elf.Faithful

/-!
# The load bias

The address `x` of an image is loaded at `elfBase + x`: this is where the file bytes of a header are copied
to (`loadSegs_places`), and it is what the entry point is counted from. What `load` hands on as the first
address of the image is something else, the lowest page it mapped. The two are the same only for an image
whose lowest page is page `0` of it (`load_first_iff`).

Nothing here assumes that the fields of a header do not wrap. A header touches the pages of its mapping, and
the bytes its copy goes to; without `NoWrap` the latter need not lie in the former.
-/

namespace Libtux.Elf
open Lib

variable {L : LibMMap} {H : HostVm}

/-- `w` is the lowest page of the mapped headers, as an address of the image. -/
structure Lowest (ps : List ProgHeader) (w : Word) : Prop where
  mem : ∃ p ∈ ps, p.mapped = true ∧ p.start = w
  le : ∀ p ∈ ps, p.mapped = true → w ≤ p.start

instance (ps : List ProgHeader) (w : Word) : Decidable (Lowest ps w) :=
  decidable_of_iff
    ((ps.any fun p => p.mapped && (p.start == w)) = true ∧
      (ps.all fun p => !p.mapped || decide (w ≤ p.start)) = true)
    ⟨fun ⟨h1, h2⟩ => ⟨by simpa using h1, by
        simp only [List.all_eq_true, Bool.or_eq_true, Bool.not_eq_true', decide_eq_true_eq] at h2
        intro p hp hm
        exact (h2 p hp).resolve_left (by simp [hm])⟩,
      fun h => ⟨by simpa using h.mem, by
        simp only [List.all_eq_true, Bool.or_eq_true, Bool.not_eq_true', decide_eq_true_eq]
        intro p hp
        cases hm : p.mapped with
        | false => exact .inl rfl
        | true => exact .inr (h.le p hp hm)⟩⟩

/-- The update of `first` in the loop of `load`, where `0` stands for no address yet. -/
def lower (first lowest : Word) : Word := if first = 0 ∨ lowest < first then lowest else first

/-- The lowest address so far is one, -/
lemma lower_ne_zero {first lowest : Word} (h : lowest ≠ 0) : lower first lowest ≠ 0 := by
  unfold lower
  split
  · exact h
  · rename_i hn
    exact fun h0 => hn (.inl h0)

/-- not above the next one, -/
lemma lower_le {first lowest : Word} : lower first lowest ≤ lowest := by
  unfold lower
  split
  · exact BitVec.le_refl _
  · rename_i hn
    exact BitVec.not_lt.mp fun hlt => hn (.inr hlt)

/-- and not above the last one. -/
lemma lower_le_first {first lowest : Word} (h : first ≠ 0) : lower first lowest ≤ first := by
  unfold lower
  split
  · rename_i hor
    exact BitVec.le_of_lt (hor.resolve_left h)
  · exact BitVec.le_refl _

/-- Folding `lower` over addresses that are not `0` gives a lower bound of all of them, which is one of them
or what it started from, and `0` only where there are none. -/
lemma foldl_lower {l : List Word} {first : Word} (h0 : ∀ x ∈ l, x ≠ 0) :
    (∀ x ∈ l, l.foldl lower first ≤ x) ∧ (first ≠ 0 → l.foldl lower first ≤ first) ∧
      l.foldl lower first ∈ first :: l ∧ (l.foldl lower first = 0 → first = 0 ∧ l = []) := by
  induction l generalizing first with
  | nil => exact ⟨nofun, fun _ => BitVec.le_refl _, List.mem_singleton.mpr rfl, fun h => ⟨h, rfl⟩⟩
  | cons x l ih =>
    have hx := h0 x (List.mem_cons_self ..)
    obtain ⟨hall, hfst, hmem, hz⟩ := @ih (lower first x) fun y hy => h0 y (List.mem_cons_of_mem _ hy)
    have hle := hfst (lower_ne_zero hx)
    rw [List.foldl_cons]
    refine ⟨?_, ?_, ?_, ?_⟩
    · intro y hy
      obtain rfl | hy := List.mem_cons.mp hy
      · exact BitVec.le_trans hle lower_le
      · exact hall y hy
    · exact fun h => BitVec.le_trans hle (lower_le_first h)
    · obtain h | h := List.mem_cons.mp hmem
      · rw [h]
        unfold lower
        split
        · exact List.mem_cons_of_mem _ (List.mem_cons_self ..)
        · exact List.mem_cons_self ..
      · exact List.mem_cons_of_mem _ (List.mem_cons_of_mem _ h)
    · exact fun h => absurd (hz h).1 (lower_ne_zero hx)

/-- Where the copies of a trace go to. -/
def segcopies (l : List Ev) : List Word :=
  l.filterMap fun
    | .segcopy _ _ dst _ => some dst
    | _ => none

/-- The copies of two runs, one after the other. -/
lemma segcopies_append (l l' : List Ev) : segcopies (l ++ l') = segcopies l ++ segcopies l' :=
  List.filterMap_append

/-- The mapped headers of an image, each with the address its file bytes were copied to in a run of `load`. -/
def Buf.placed (buf : Buf) (l : List Ev) : List (ProgHeader × Word) :=
  (buf.phdrs.filter ProgHeader.mapped).zip (segcopies l)

/-- A placed segment copies its header's bytes to the bias and the address of the header. -/
lemma Placed.dst_eq {i : LFIAddrSpaceInfo} {type : BitVec 16} {base pagesize : Word} {p : ProgHeader} {s : Seg}
    (pl : Placed i type base pagesize p s) (hty : type = ET_DYN ∨ type = ET_EXEC) :
    base + s.start + s.offset = elfBase i type base + p.vaddr := by
  rw [pl.start_eq hty, pl.offset]
  bv_omega

/-- The loop of `load`: it places every mapped header, from one load base, copies each to the bias and its
address, and `first` goes down over their pages. -/
lemma loadSegs_places {buf : Buf} {pagesize elfbase : Word} {st st' : LoadState} {ps : List ProgHeader}
    {as : LFIAddrSpace L} (hty : buf.ehdr.type = ET_DYN ∨ buf.ehdr.type = ET_EXEC)
    (hpg : as.info.pagesize.toNat ≤ 2 ^ 30)
    (h : ((loadSegs H buf pagesize elfbase st ps).run as).val = .ok (some st')) :
    (∀ p ∈ ps, p.mapped = true → ∃ s, Placed as.info buf.ehdr.type st.base pagesize p s ∧
      InGuard as.info (st.base + s.start) (s.stop - s.start)) ∧
    st'.first = ((ps.filter ProgHeader.mapped).map fun p => elfbase + p.start).foldl lower st.first ∧
    segcopies ((loadSegs H buf pagesize elfbase st ps).run as).out =
      (ps.filter ProgHeader.mapped).map fun p => elfBase as.info buf.ehdr.type st.base + p.vaddr := by
  induction ps generalizing st as with
  | nil =>
    simp only [loadSegs, Exec.pure_run, Except.ok.injEq, Option.some.injEq] at h ⊢
    subst h
    exact ⟨fun _ hq => absurd hq List.not_mem_nil, rfl, rfl⟩
  | cons p ps ih =>
    obtain ⟨st1, h1, h2, -, hout⟩ := loadSegs_cons_some h
    rw [hout, segcopies_append]
    obtain ⟨hm, rfl, hr⟩ | ⟨s, pl, sd, hev, rfl⟩ := loadSeg_some h1
    · rw [hr] at h2 ⊢
      obtain ⟨hall, hfirst, hcopies⟩ := ih hpg h2
      rw [List.filter_cons_of_neg (by simp [hm])]
      refine ⟨?_, hfirst, hcopies⟩
      intro q hq hqm
      obtain rfl | hq := List.mem_cons.mp hq
      · rw [hm] at hqm
        cases hqm
      · exact hall q hq hqm
    · obtain ⟨hb0, -⟩ := pl.addr_of_page hty hpg sd.guard
      have hbase : (st.next elfbase p s).base = st.base := by simp only [LoadState.next, if_neg hb0]
      obtain ⟨hall, hfirst, hcopies⟩ := ih (by rw [sd.info]; exact hpg) h2
      rw [sd.info, hbase] at hall hcopies
      rw [List.filter_cons_of_pos pl.mapped, List.map_cons, List.map_cons, List.foldl_cons]
      refine ⟨?_, hfirst, ?_⟩
      · intro q hq hqm
        obtain rfl | hq := List.mem_cons.mp hq
        · exact ⟨s, pl, sd.guard⟩
        · exact hall q hq hqm
      · rw [hcopies, hev, ← pl.dst_eq hty]
        rfl

section
variable {buf : Buf} {base pagesize : Word} {out : LoadOut} {as : LFIAddrSpace L}

/-- A `load` that returned true copied every mapped header to the bias and its address. -/
lemma load_placed (hpg : as.info.pagesize.toNat ≤ 2 ^ 30)
    (h : ((load H buf base pagesize).run as).val = .ok (some out)) :
    buf.placed ((load H buf base pagesize).run as).out =
      (buf.phdrs.filter ProgHeader.mapped).map fun p =>
        (p, elfBase as.info buf.ehdr.type base + p.vaddr) := by
  obtain ⟨ac, st, hs, -, hout, -⟩ := load_some h
  obtain ⟨-, -, hcopies⟩ := loadSegs_places ac.type hpg hs
  rw [Buf.placed, hout, hcopies, ← List.map_id (buf.phdrs.filter ProgHeader.mapped), List.map_map,
    List.zip_map', List.map_id]
  rfl

/-- A page of the image that `load` mapped does not wrap when the bias is added. -/
lemma load_start (hpg : as.info.pagesize.toNat ≤ 2 ^ 30)
    (h : ((load H buf base pagesize).run as).val = .ok (some out)) {p : ProgHeader} (hp : p ∈ buf.phdrs)
    (hm : p.mapped = true) :
    (elfBase as.info buf.ehdr.type base + p.start).toNat =
        (elfBase as.info buf.ehdr.type base).toNat + p.start.toNat ∧
      elfBase as.info buf.ehdr.type base + p.start ≠ 0 := by
  obtain ⟨ac, st, hs, -⟩ := load_some h
  obtain ⟨hall, -⟩ := loadSegs_places ac.type hpg hs
  obtain ⟨s, pl, hg⟩ := hall p hp hm
  obtain ⟨-, haddr⟩ := pl.addr_of_page ac.type hpg hg
  rw [pl.start_eq ac.type] at haddr
  refine ⟨haddr, fun h0 => ?_⟩
  have hmin := as.info.minaddr_toNat (by omega)
  have hlo : as.info.minaddr.toNat ≤ (base + s.start).toNat := hg.1
  rw [pl.start_eq ac.type, h0, show (0 : Word).toNat = 0 from rfl] at hlo
  omega

/-- The first address of a loaded image is `w` above the bias exactly when `w` is its lowest page. -/
lemma load_first_iff (hpg : as.info.pagesize.toNat ≤ 2 ^ 30)
    (h : ((load H buf base pagesize).run as).val = .ok (some out))
    (hmaps : ∃ p ∈ buf.phdrs, p.mapped = true) (w : Word) :
    out.first = elfBase as.info buf.ehdr.type base + w ↔ Lowest buf.phdrs w := by
  have hstart := fun p hp hm => load_start (p := p) hpg h hp hm
  obtain ⟨ac, st, hs, -, -, rfl⟩ := load_some h
  obtain ⟨-, hfirst, -⟩ := loadSegs_places ac.type hpg hs
  have hmem : ∀ x, x ∈ ((buf.phdrs.filter ProgHeader.mapped).map fun p =>
      elfBase as.info buf.ehdr.type base + p.start) ↔
      ∃ p ∈ buf.phdrs, p.mapped = true ∧ elfBase as.info buf.ehdr.type base + p.start = x := by
    intro x
    simp only [List.mem_map, List.mem_filter, and_assoc]
  have hne : ∀ x ∈ (buf.phdrs.filter ProgHeader.mapped).map fun p =>
      elfBase as.info buf.ehdr.type base + p.start, x ≠ 0 := by
    intro x hx
    obtain ⟨p, hp, hm, rfl⟩ := (hmem x).mp hx
    exact (hstart p hp hm).2
  have hlower := @foldl_lower _ 0 hne
  rw [← hfirst] at hlower
  obtain ⟨hle, -, hin, hz⟩ := hlower
  -- some header is mapped, so the sentinel is gone
  obtain ⟨q, hq, hqm, hfst⟩ : ∃ q ∈ buf.phdrs, q.mapped = true ∧
      elfBase as.info buf.ehdr.type base + q.start = st.first := by
    obtain h0 | hin := List.mem_cons.mp hin
    · obtain ⟨p, hp, hm⟩ := hmaps
      have hmem := (hmem _).mpr ⟨p, hp, hm, rfl⟩
      rw [(hz h0).2] at hmem
      cases hmem
    · exact (hmem _).mp hin
  dsimp only
  constructor
  · intro heq
    have hw : q.start = w := by
      rw [← hfst] at heq
      exact (BitVec.add_right_inj _).mp heq
    subst hw
    refine ⟨⟨q, hq, hqm, rfl⟩, fun p hp hm => ?_⟩
    have hlep : st.first ≤ _ := hle _ ((hmem _).mpr ⟨p, hp, hm, rfl⟩)
    have h1 := (hstart p hp hm).1
    have h2 := (hstart q hq hqm).1
    rw [← hfst] at hlep
    rw [BitVec.le_def] at hlep ⊢
    omega
  · rintro ⟨⟨p, hp, hm, rfl⟩, hlow⟩
    have hlep : st.first ≤ _ := hle _ ((hmem _).mpr ⟨p, hp, hm, rfl⟩)
    have hleq := hlow q hq hqm
    have h1 := (hstart p hp hm).1
    have h2 := (hstart q hq hqm).1
    rw [← hfst] at hlep ⊢
    rw [BitVec.le_def] at hlep hleq
    apply BitVec.eq_of_toNat_eq
    omega

/-- A fixed image has no page `0`: its pages are counted from the base of the address space, and start at the
load base. -/
lemma load_exec_not_lowest (hpg : as.info.pagesize.toNat ≤ 2 ^ 30)
    (h : ((load H buf base pagesize).run as).val = .ok (some out)) (hty : buf.ehdr.type = ET_EXEC)
    (hb : base ≠ as.info.base) : ¬ Lowest buf.phdrs 0 := by
  rintro ⟨⟨p, hp, hm, h0⟩, -⟩
  obtain ⟨ac, st, hs, -⟩ := load_some h
  obtain ⟨hall, -⟩ := loadSegs_places ac.type hpg hs
  obtain ⟨s, pl, -⟩ := hall p hp hm
  have hle : base - as.info.base ≤ p.start := pl.rebased hty
  rw [h0] at hle
  apply hb
  bv_omega

end

/-! ## Memory -/

/-- Loading the header at `bias` can change `x`. -/
def ProgHeader.Touches (H : HostVm) (bias : Word) (p : ProgHeader) (x : Word) : Prop :=
  covers H.pagesize (bias + p.start) (p.stop - p.start) x ∨ x - (bias + p.vaddr) < p.filesz

section
variable {buf : Buf} {base pagesize : Word} {out : LoadOut} {as : LFIAddrSpace L}

end
end Libtux.Elf
