import Libtux.Pal.Mapping

/-!
# A table of ranges

The laws of `LibMMap` and `HostVm` have models. `LibMMap.ofRanges` keeps the recorded ranges in a list
and cuts out of it what a fixed mapping or an unmapping removes, first fit for the rest.
`HostVm.paged` is a host that maps whatever is aligned and below the top of memory; what its
`mprotect` answers is left open. On the two of them `lfi_as_mapat` always succeeds for whole pages
(`lfiAsMapat_paged`): the pieces it unmaps are whole pages again.
-/

namespace Libtux
open Lib

/-- The part of a record inside `[lo, hi)`. -/
def overlap (lo hi : Nat) (r : Word × Word) : Option (Word × Word) :=
  let b := max r.1.toNat lo
  let e := min (r.1.toNat + r.2.toNat) hi
  if b < e then some (BitVec.ofNat 64 b, BitVec.ofNat 64 (e - b)) else none

/-- The parts of a record outside `[lo, hi)`. -/
def remains (lo hi : Nat) (r : Word × Word) : List (Word × Word) :=
  (overlap 0 lo r).toList ++ (overlap hi (2 ^ 64) r).toList

/-- The recorded ranges, in a window of addresses. -/
structure Ranges where
  lo : Nat
  hi : Nat
  recs : List (Word × Word)
  hi_le : hi ≤ 2 ^ 64

namespace Ranges

/-- Drop a range from the records. -/
def cut (t : Ranges) (addr size : Word) : Ranges × List (Word × Word) :=
  let hi := addr.toNat + size.toNat
  ({ t with recs := t.recs.flatMap (remains addr.toNat hi) }, t.recs.filterMap (overlap addr.toNat hi))

/-- Record a range, in place of what was there. -/
def put (t : Ranges) (addr size : Word) : Ranges × List (Word × Word) :=
  let (t', ps) := t.cut addr size
  ({ t' with recs := (addr, size) :: t'.recs }, ps)

/-- The first free place, at the start of the window or right after a record. -/
def find (t : Ranges) (size : Word) : Option Word :=
  let starts := t.lo :: t.recs.map fun r => r.1.toNat + r.2.toNat
  let free b := b + size.toNat ≤ t.hi ∧ t.recs.all fun r => (overlap b (b + size.toNat) r).isNone
  (starts.find? fun b => decide (free b)).map (BitVec.ofNat 64)

/-- What is cut out is in the range. -/
lemma cut_piece {t : Ranges} {addr size b n : Word} (h : (b, n) ∈ (t.cut addr size).2) :
    addr.toNat ≤ b.toNat ∧ b.toNat + n.toNat ≤ addr.toNat + size.toNat := by
  simp only [cut, List.mem_filterMap, overlap] at h
  obtain ⟨r, _, hr⟩ := h
  split at hr
  · have h1 := r.1.isLt
    have h2 := r.2.isLt
    have h3 := addr.isLt
    have h4 := size.isLt
    cases hr
    simp only [BitVec.toNat_ofNat]
    omega
  · cases hr

end Ranges

/-- libmmap over a list of ranges. -/
def LibMMap.ofRanges : LibMMap where
  Table := Ranges
  mapat t addr size := some (t.put addr size)
  mapany t size := (t.find size).map fun addr => ((t.put addr size).1, addr)
  unmap t addr size := some (t.cut addr size)
  mapat_piece h hp := by
    cases h
    exact Ranges.cut_piece hp

/-- A host with pages of `P` bytes that maps what it can, with the given outcomes of `mprotect`. -/
def HostVm.paged (P : Word) (hP : 0 < P.toNat) (mprotect : Nat → Word → Word → Bool) : HostVm where
  pagesize := P
  mmap _ addr len := decide (P.toNat ∣ addr.toNat ∧ addr.toNat + len.toNat < 2 ^ 64)
  removed _ _ _ _ := false
  mprotect
  changed _ _ _ _ := false
  malloc _ _ := true
  errno _ := 12
  file _ _ := 0
  pagesize_pos := hP
  mmap_aligned h := by
    rw [decide_eq_true_eq] at h
    exact h.1
  mmap_top h := by
    rw [decide_eq_true_eq] at h
    exact h.2
  removed_aligned h := by cases h
  errno_pos _ := by decide

/-- A host with pages of 4 KiB. -/
def HostVm.plain (mprotect : Nat → Word → Word → Bool) : HostVm := .paged 4096 (by decide) mprotect

/-- A placement at 4 GiB with pages of 4 KiB. -/
def LFIAddrSpaceInfo.plain : LFIAddrSpaceInfo where
  base := gb 4
  pagesize := 4096
  base_pos := by decide
  base_aligned := by decide
  base_top := by decide

/-- A new address space, as `lfi_as_new` makes it. -/
def LFIAddrSpace.fresh (i : LFIAddrSpaceInfo) : LFIAddrSpace .ofRanges where
  info := i
  mm := ⟨i.minaddr.toNat, i.maxaddr.toNat, [], i.maxaddr.isLt.le⟩
  mem _ := 0
  prot _ := LFI_PROT_NONE
  nmmap := 0
  nmprotect := 0

/-! ## Whole pages -/

/-- Every record is a number of whole pages. -/
def Ranges.Aligned (P : Nat) (t : Ranges) : Prop :=
  ∀ r ∈ t.recs, P ∣ r.1.toNat ∧ P ∣ r.2.toNat

/-- Two aligned ranges overlap in an aligned one. -/
lemma overlap_aligned {P lo hi : Nat} {r r' : Word × Word} (hlo : P ∣ lo) (hhi : P ∣ hi)
    (htop : hi ≤ 2 ^ 64) (hr : P ∣ r.1.toNat ∧ P ∣ r.2.toNat) (h : overlap lo hi r = some r') :
    P ∣ r'.1.toNat ∧ P ∣ r'.2.toNat := by
  have hb : P ∣ max r.1.toNat lo := by
    rcases max_choice r.1.toNat lo with h | h
    · rw [h]
      exact hr.1
    · rw [h]
      exact hlo
  have he : P ∣ min (r.1.toNat + r.2.toNat) hi := by
    rcases min_choice (r.1.toNat + r.2.toNat) hi with h | h
    · rw [h]
      exact Nat.dvd_add hr.1 hr.2
    · rw [h]
      exact hhi
  simp only [overlap] at h
  split at h
  · have h2 := r.2.isLt
    cases h
    simp only [BitVec.toNat_ofNat]
    rw [Nat.mod_eq_of_lt (by omega), Nat.mod_eq_of_lt (by omega)]
    exact ⟨hb, Nat.dvd_sub he hb⟩
  · cases h

namespace Ranges

variable {k : Nat} {t : Ranges} {addr size : Word}

/-- An aligned range is put into aligned records, -/
lemma Aligned.put (ht : t.Aligned (2 ^ k)) (hk : k ≤ 64) (ha : 2 ^ k ∣ addr.toNat)
    (hs : 2 ^ k ∣ size.toNat) : (t.put addr size).1.Aligned (2 ^ k) := by
  intro r hr
  simp only [Ranges.put, cut, List.mem_cons, List.mem_flatMap, remains, List.mem_append,
    Option.mem_toList] at hr
  obtain rfl | ⟨q, hq, h | h⟩ := hr
  · exact ⟨ha, hs⟩
  · exact overlap_aligned (dvd_zero _) ha (by omega) (ht q hq) h
  · exact overlap_aligned (Nat.dvd_add ha hs) (Nat.pow_dvd_pow 2 hk) le_rfl (ht q hq) h

/-- and what it replaces is aligned. -/
lemma Aligned.piece (ht : t.Aligned (2 ^ k)) (ha : 2 ^ k ∣ addr.toNat)
    (hs : 2 ^ k ∣ size.toNat) (htop : addr.toNat + size.toNat < 2 ^ 64) :
    ∀ r ∈ (t.put addr size).2, 2 ^ k ∣ r.1.toNat ∧ r.1.toNat + r.2.toNat < 2 ^ 64 := by
  intro r hr
  obtain ⟨b, n⟩ := r
  have hin : addr.toNat ≤ b.toNat ∧ b.toNat + n.toNat ≤ addr.toNat + size.toNat := cut_piece hr
  simp only [Ranges.put, cut, List.mem_filterMap] at hr
  obtain ⟨q, hq, h⟩ := hr
  exact ⟨(overlap_aligned ha (Nat.dvd_add ha hs) (by omega) (ht q hq) h).1, lt_of_le_of_lt hin.2 htop⟩

end Ranges

section
variable {P : Word} (hP : 0 < P.toNat) (mprotect : Nat → Word → Word → Bool) {k : Nat}

/-- Unmapping whole pages succeeds and leaves the records alone. -/
lemma cbunmaps_paged (ps : List (Word × Word)) (as : LFIAddrSpace .ofRanges)
    (hps : ∀ r ∈ ps, P.toNat ∣ r.1.toNat ∧ r.1.toNat + r.2.toNat < 2 ^ 64) :
    ∃ st, st.mm = as.mm ∧ st.info = as.info ∧
      (cbunmaps (.paged P hP mprotect) ps).run as = ⟨.ok (), st, []⟩ := by
  induction ps generalizing as with
  | nil => exact ⟨as, rfl, rfl, rfl⟩
  | cons r ps ih =>
    obtain ⟨b, n⟩ := r
    have hok : (HostVm.paged P hP mprotect).mmap as.nmmap b n = true :=
      decide_eq_true (hps (b, n) (List.mem_cons_self ..))
    obtain ⟨st, hmm, hinfo, hr⟩ := ih
      (as.mapped (.paged P hP mprotect) b n LFI_PROT_NONE none)
      fun r hr => hps r (List.mem_cons_of_mem _ hr)
    refine ⟨st, hmm, hinfo, ?_⟩
    simp [cbunmaps, cbunmap, hostMmap, hok, Exec.check_run, hr]

/-- Mapping whole pages below the top of memory succeeds. -/
lemma lfiAsMapat_paged (prot : CInt) {addr size : Word} {as : LFIAddrSpace .ofRanges}
    (hk : P.toNat = 2 ^ k) (hmm : Ranges.Aligned P.toNat as.mm) (hg : InGuard as.info addr size)
    (ha : P.toNat ∣ addr.toNat) (hs : P.toNat ∣ size.toNat)
    (htop : addr.toNat + size.toNat < 2 ^ 64) :
    ∃ st, Ranges.Aligned P.toNat st.mm ∧ st.info = as.info ∧
      (lfiAsMapat (.paged P hP mprotect) addr size prot none).run as =
        ⟨.ok addr, st, [.mapat addr size]⟩ := by
  have hk64 : k ≤ 64 := by
    have := P.isLt
    rw [hk] at this
    exact ((Nat.pow_lt_pow_iff_right (by omega)).mp this).le
  rw [hk] at hmm ha hs
  have hput := hmm.put hk64 ha hs
  obtain ⟨st, hst, hinfo, hc⟩ := cbunmaps_paged hP mprotect
    (Ranges.put as.mm addr size).2 { as with mm := (Ranges.put as.mm addr size).1 }
    (by rw [hk]; exact hmm.piece ha hs htop)
  have hok : (HostVm.paged P hP mprotect).mmap st.nmmap addr size = true :=
    decide_eq_true ⟨hk ▸ ha, htop⟩
  have hg' : addr ≥ as.info.minaddr ∧ addr + size ≤ as.info.maxaddr := hg
  refine ⟨st.mapped (.paged P hP mprotect) addr size prot none, ?_, hinfo, ?_⟩
  · rw [hk]
    simp only [LFIAddrSpace.mapped]
    rw [hst]
    exact hput
  · have hm : LibMMap.ofRanges.mapat as.mm addr size = some (Ranges.put as.mm addr size) := rfl
    simp [lfiAsMapat, Exec.check_run, hg', hm, hc, asmap, hostMmap, hok]

end

end Libtux
