import Libtux.Lib.Trace
import Libtux.Pal.Book

/-!
# The calls of an address space stay in its window

A host process runs many address spaces side by side, each in a window of its own, so a mapping call must not
reach into the windows of the others. `OutOf i ok` says of a run on the address space placed at `i` that
outside of the window memory and protections are as before, and that libmmap's records are still `ok`, where
`ok` is whatever keeps them in the window (`LibMMap.Confines`). It composes, so the calls are taken apart by
the rules of `Respects`. The window consists of whole pages (`LFIAddrSpaceInfo.Paged`), as the host maps and
protects whole pages only.
-/

namespace Libtux
open Lib Exec

/-- The window is made of pages. -/
structure LFIAddrSpaceInfo.Paged (i : LFIAddrSpaceInfo) (pagesize : Word) : Prop where
  min : pagesize.toNat ∣ i.minaddr.toNat
  max : pagesize.toNat ∣ i.maxaddr.toNat

/-- It is when the guard is, on the host with which the platform was made. -/
lemma LFIAddrSpaceInfo.paged {i : LFIAddrSpaceInfo} (hpg : i.pagesize.toNat ≤ 2 ^ 20)
    (h32 : i.pagesize.toNat ∣ 2 ^ 32) (hguard : i.pagesize.toNat ∣ 81920) : i.Paged i.pagesize where
  min := by
    rw [i.minaddr_toNat (by omega)]
    exact Nat.dvd_add (Nat.dvd_add (dvd_trans h32 i.base_aligned) hguard) dvd_rfl
  max := by
    rw [i.maxaddr_toNat]
    exact Nat.dvd_sub (Nat.dvd_add (dvd_trans h32 i.base_aligned) h32) hguard

/-- A range of integers in the window. -/
def LFIAddrSpaceInfo.Spans (i : LFIAddrSpaceInfo) (addr size : Word) : Prop :=
  i.minaddr.toNat ≤ addr.toNat ∧ addr.toNat + size.toNat ≤ i.maxaddr.toNat

/-- The guards of the calls are about the window when the range does not wrap. -/
lemma InGuard.spans {i : LFIAddrSpaceInfo} {addr size : Word} (h : InGuard i addr size)
    (hnw : addr.toNat + size.toNat < 2 ^ 64) : i.Spans addr size := by
  obtain ⟨hlo, hhi⟩ := h
  rw [ge_iff_le, BitVec.le_def] at hlo
  rw [BitVec.le_def, BitVec.toNat_add, Nat.mod_eq_of_lt hnw] at hhi
  exact ⟨hlo, hhi⟩

/-- The pages of a range in the window are in the window. -/
lemma LFIAddrSpaceInfo.Paged.within {i : LFIAddrSpaceInfo} {P addr size x : Word} (hP : i.Paged P)
    (hs : i.Spans addr size) (hx : covers P addr size x) : i.Within x := by
  obtain ⟨hpos, hlt, hgt⟩ := hx
  obtain ⟨m, hm⟩ := hP.min
  obtain ⟨n, hn⟩ := hP.max
  obtain ⟨hlo, hhi⟩ := hs
  have hdiv := Nat.div_add_mod x.toNat P.toNat
  have hP0 : 0 < P.toNat := by
    by_contra h0
    rw [Nat.eq_zero_of_not_pos h0, Nat.mul_zero] at hgt
    exact Nat.not_lt_zero _ hgt
  have hmod := Nat.mod_lt x.toNat hP0
  rw [hm] at hlo
  rw [hn] at hhi
  generalize x.toNat / P.toNat = q at *
  rw [Nat.mul_comm] at hlt hgt
  have hmq : m < q + 1 := Nat.lt_of_mul_lt_mul_left (a := P.toNat) (lt_of_le_of_lt hlo hgt)
  have hqn : q < n := Nat.lt_of_mul_lt_mul_left (a := P.toNat) (lt_of_lt_of_le hlt hhi)
  have hmul := Nat.mul_le_mul_left P.toNat (Nat.lt_succ_iff.mp hmq)
  have hmul' := Nat.mul_le_mul_left P.toNat (Nat.succ_le_of_lt hqn)
  rw [Nat.mul_succ] at hmul'
  constructor
  · rw [BitVec.le_def, hm]
    omega
  · rw [BitVec.lt_def, hn]
    omega

/-- libmmap keeps the records of an address space in its window: what it records when it is asked for a range
of the window, where it finds room, and what it gives up. -/
structure LibMMap.Confines (L : LibMMap) (i : LFIAddrSpaceInfo) (ok : L.Table → Prop) : Prop where
  mapat : ∀ {t t' addr size ps}, ok t → L.mapat t addr size = some (t', ps) → i.Spans addr size → ok t'
  mapany : ∀ {t t' size addr}, ok t → L.mapany t size = some (t', addr) → ok t' ∧ i.Spans addr size
  unmap : ∀ {t t' addr size ps}, ok t → L.unmap t addr size = some (t', ps) →
    ok t' ∧ ∀ p ∈ ps, i.Spans p.1 p.2

variable {L : LibMMap} {H : HostVm} {i : LFIAddrSpaceInfo} {ok : L.Table → Prop}

/-- Nothing outside of the window changed. -/
structure Inward (i : LFIAddrSpaceInfo) (ok : L.Table → Prop) (as as' : LFIAddrSpace L) : Prop where
  info : as'.info = i
  recs : ok as'.mm
  mem : ∀ x, ¬ i.Within x → as'.mem x = as.mem x
  prot : ∀ x, ¬ i.Within x → as'.prot x = as.prot x

/-- A run in the window of the address space. -/
def OutOf (i : LFIAddrSpaceInfo) (ok : L.Table → Prop) (as : LFIAddrSpace L) (_ : List Ev)
    (as' : LFIAddrSpace L) : Prop := as.info = i → ok as.mm → Inward i ok as as'

/-- Runs in the window compose. -/
lemma outOf_composes : Composes (OutOf i ok) where
  nil _ hi hok := ⟨hi, hok, fun _ _ => rfl, fun _ _ => rfl⟩
  append h h' hi hok := by
    obtain ⟨hi1, hok1, hmem, hprot⟩ := h hi hok
    obtain ⟨hi2, hok2, hmem', hprot'⟩ := h' hi1 hok1
    exact ⟨hi2, hok2, fun x hx => (hmem' x hx).trans (hmem x hx), fun x hx => (hprot' x hx).trans (hprot x hx)⟩

section
variable (hP : i.Paged H.pagesize)
include hP

/-- An `mmap` of a range of the window, -/
lemma hostMmap_outOf {addr size : Word} (hs : i.Spans addr size) (prot : CInt) (hf : Option HostFile) :
    Respects (OutOf i ok) (hostMmap H addr size prot hf : Vm L Bool) := by
  intro as hi hok
  have hout : ∀ x, ¬ i.Within x → ¬ covers H.pagesize addr size x := fun x hx hc => hx (hP.within hs hc)
  rw [hostMmap, mk_run]
  split
  · exact ⟨hi, hok, fun x hx => if_neg (hout x hx), fun x hx => if_neg (hout x hx)⟩
  · exact ⟨hi, hok, fun x hx => if_neg fun hc => hout x hx hc.1, fun x hx => if_neg fun hc => hout x hx hc.1⟩

/-- and what `asmap` makes of it. -/
lemma asmap_outOf {addr size : Word} (hs : i.Spans addr size) (prot : CInt) (hf : Option HostFile) :
    Respects (OutOf i ok) (asmap H addr size prot hf : Vm L Int) :=
  Respects.bind outOf_composes (respects_gets outOf_composes _) fun _ =>
    Respects.bind outOf_composes (hostMmap_outOf hP hs _ _) fun _ =>
      Respects.ite (respects_pure outOf_composes _) (respects_pure outOf_composes _)

/-- The callbacks of libmmap, by induction on the pieces. -/
lemma cbunmaps_outOf {ps : List (Word × Word)} (hps : ∀ p ∈ ps, i.Spans p.1 p.2) :
    Respects (OutOf i ok) (cbunmaps H ps : Vm L Unit) := by
  induction ps with
  | nil => exact respects_pure outOf_composes _
  | cons p ps ih =>
    have hp : i.Spans p.1 p.2 := hps p (List.mem_cons_self ..)
    refine Respects.bind outOf_composes ?_ fun _ => ih fun q hq => hps q (List.mem_cons_of_mem _ hq)
    exact Respects.bind outOf_composes (hostMmap_outOf hP hp _ _) fun _ => respects_check outOf_composes _ _

variable (hL : L.Confines i ok)
include hL

omit hP in
/-- A record is dropped. -/
lemma mmUnmap_outOf (addr size : Word) : Respects (OutOf i ok) (mmUnmap addr size : Vm L Unit) := by
  refine respects_modify fun as hi hok => ?_
  split
  · rename_i hm
    exact ⟨hi, (hL.unmap hok hm).1, fun _ _ => rfl, fun _ _ => rfl⟩
  · exact ⟨hi, hok, fun _ _ => rfl, fun _ _ => rfl⟩

/-- The end of the mapping calls: the record is dropped when the host does not map. -/
lemma asmap_tail_outOf {addr size : Word} (hs : i.Spans addr size) (prot : CInt) (hf : Option HostFile) :
    Respects (OutOf i ok) (asmap H addr size prot hf >>= fun r =>
      if r < 0 then mmUnmap addr size >>= fun _ => pure mapFailed else pure addr : Vm L Word) :=
  Respects.bind outOf_composes (asmap_outOf hP hs _ _) fun _ => Respects.ite
    (Respects.bind outOf_composes (mmUnmap_outOf hL _ _) fun _ => respects_pure outOf_composes _)
    (respects_pure outOf_composes _)

omit hP hL in
/-- New records, and what is done with them. -/
lemma recording_outOf {α : Type} {as : LFIAddrSpace L} {mm : L.Table} {f : Unit → Vm L α}
    (hmm : as.info = i → ok as.mm → ok mm) (hf : Respects (OutOf i ok) (f ())) :
    RespectsAt (OutOf i ok) (Exec.modify (fun as => { as with mm }) >>= f) as := by
  intro hi hok
  have h := hf (as.recording mm) hi (hmm hi hok)
  rw [bind_run, modify_run, andThen_ok_nil]
  exact ⟨h.info, h.recs, h.mem, h.prot⟩

/-- `lfi_as_mapany` stays in the window, wherever libmmap finds room. -/
lemma lfiAsMapany_outOf (size : Word) (prot : CInt) (hf : Option HostFile) :
    Respects (OutOf i ok) (lfiAsMapany H size prot hf : Vm L Word) := by
  intro as hi hok
  refine respectsAt_get (R := OutOf i ok) ?_ hi hok
  cases hm : L.mapany as.mm size with
  | none => exact respects_pure outOf_composes _ as
  | some r =>
    obtain ⟨hmm, hs⟩ := hL.mapany hok hm
    exact recording_outOf (fun _ _ => hmm) (asmap_tail_outOf hP hL hs _ _)

/-- A fixed mapping of a range that does not wrap. -/
lemma lfiAsMapat_outOf {addr size : Word} (hnw : addr.toNat + size.toNat < 2 ^ 64) (prot : CInt)
    (hf : Option HostFile) : Respects (OutOf i ok) (lfiAsMapat H addr size prot hf : Vm L Word) := by
  intro as hi hok
  refine respectsAt_get (R := OutOf i ok) ?_ hi hok
  refine RespectsAt.bind outOf_composes (respects_tell (fun s => outOf_composes.nil s) as) fun _ _ => ?_
  rw [tell_run]
  refine RespectsAt.check outOf_composes fun hg => ?_
  have hs : i.Spans addr size := hi ▸ InGuard.spans hg hnw
  cases hm : L.mapat as.mm addr size with
  | none => exact respects_pure outOf_composes _ as
  | some r =>
    obtain ⟨mm, ps⟩ := r
    have hps : ∀ p ∈ ps, i.Spans p.1 p.2 := by
      intro p hp
      obtain ⟨hlo, hhi⟩ := L.mapat_piece hm (b := p.1) (n := p.2) hp
      exact ⟨hs.1.trans hlo, hhi.trans hs.2⟩
    refine recording_outOf (fun _ _ => hL.mapat hok hm hs) ?_
    exact Respects.bind outOf_composes (cbunmaps_outOf hP hps) fun _ => asmap_tail_outOf hP hL hs _ _

omit hL in
/-- `lfi_as_mprotect` stays in it. -/
lemma lfiAsMprotect_outOf {addr size : Word} (hnw : addr.toNat + size.toNat < 2 ^ 64) (prot : CInt) :
    Respects (OutOf i ok) (lfiAsMprotect H addr size prot : Vm L Int) := by
  intro as hi hok
  rcases lfiAsMprotect_cases (H := H) addr size prot as with ⟨_, hr⟩ | ⟨hg, r, _, hr⟩
  · rw [hr]
    exact ⟨hi, hok, fun _ _ => rfl, fun _ _ => rfl⟩
  · rw [hr]
    refine ⟨hi, hok, fun _ _ => rfl, fun x hx => if_neg fun hc => hx ?_⟩
    exact hP.within (hi ▸ hg.spans hnw) hc.1

/-- An unmapping, of whatever range: libmmap gives up records only. -/
lemma lfiAsMunmap_outOf (addr size : Word) :
    Respects (OutOf i ok) (lfiAsMunmap H addr size : Vm L Int) := by
  intro as hi hok
  refine respectsAt_get (R := OutOf i ok) (RespectsAt.ite (fun _ => ?_) fun _ => ?_) hi hok
  · refine RespectsAt.bind outOf_composes (respects_tell (fun s => outOf_composes.nil s) as) fun _ _ => ?_
    rw [tell_run]
    cases hm : L.unmap as.mm addr size with
    | none => exact respects_pure outOf_composes _ as
    | some r =>
      obtain ⟨hmm, hps⟩ := hL.unmap hok hm
      refine recording_outOf (fun _ _ => hmm) ?_
      exact Respects.bind outOf_composes (cbunmaps_outOf hP hps) fun _ => respects_pure outOf_composes _
  · exact respects_pure outOf_composes _ as

end

/-! ## A table of ranges in the window -/

/-- A table of the window whose records are all in it. -/
structure Ranges.Inside (i : LFIAddrSpaceInfo) (t : Ranges) : Prop where
  lo : t.lo = i.minaddr.toNat
  hi : t.hi = i.maxaddr.toNat
  recs : ∀ r ∈ t.recs, i.Spans r.1 r.2

/-- What is left of a record is in the window. -/
lemma overlap_spans {lo hi : Nat} {r r' : Word × Word} (hr : i.Spans r.1 r.2)
    (h : overlap lo hi r = some r') : i.Spans r'.1 r'.2 := by
  have h1 := r.1.isLt
  have h2 := i.maxaddr.isLt
  obtain ⟨hlo, hhi⟩ := hr
  simp only [overlap] at h
  split at h
  · cases h
    simp only [LFIAddrSpaceInfo.Spans, BitVec.toNat_ofNat]
    rw [Nat.mod_eq_of_lt (by omega), Nat.mod_eq_of_lt (by omega)]
    omega
  · cases h

namespace Ranges

variable {t : Ranges} {addr size : Word} (h : t.Inside i)
include h

/-- Ranges are cut out of the window, -/
lemma Inside.cut (addr size : Word) : (t.cut addr size).1.Inside i := by
  refine ⟨h.lo, h.hi, fun r hr => ?_⟩
  simp only [Ranges.cut, List.mem_flatMap, remains, List.mem_append, Option.mem_toList] at hr
  obtain ⟨q, hq, hr | hr⟩ := hr
  · exact overlap_spans (h.recs q hq) hr
  · exact overlap_spans (h.recs q hq) hr

/-- put into it, -/
lemma Inside.put (hs : i.Spans addr size) : (t.put addr size).1.Inside i := by
  have hcut := h.cut addr size
  refine ⟨hcut.lo, hcut.hi, fun r hr => ?_⟩
  rcases List.mem_cons.mp hr with rfl | hr
  · exact hs
  · exact hcut.recs r hr

/-- and found in it. -/
lemma Inside.find (hf : t.find size = some addr) : i.Spans addr size := by
  rw [Ranges.find, Option.map_eq_some_iff] at hf
  obtain ⟨b, hb, rfl⟩ := hf
  have hfree := List.find?_some hb
  have hmem := List.mem_of_find?_eq_some hb
  rw [decide_eq_true_eq] at hfree
  have hmax := i.maxaddr.isLt
  have hhi := h.hi
  have hlo := h.lo
  have hmin : i.minaddr.toNat ≤ b := by
    rcases List.mem_cons.mp hmem with rfl | hmem
    · exact hlo.ge
    · obtain ⟨r, hr, rfl⟩ := List.mem_map.mp hmem
      have := (h.recs r hr).1
      omega
  rw [LFIAddrSpaceInfo.Spans, BitVec.toNat_ofNat, Nat.mod_eq_of_lt (by omega)]
  omega

end Ranges

/-- `LibMMap.ofRanges` keeps its records in the window. -/
lemma LibMMap.ofRanges_confines : LibMMap.ofRanges.Confines i (Ranges.Inside i) where
  mapat h hm hs := by
    cases hm
    exact h.put hs
  mapany h hm := by
    simp only [LibMMap.ofRanges, Option.map_eq_some_iff] at hm
    obtain ⟨addr, hf, heq⟩ := hm
    cases heq
    exact ⟨h.put (h.find hf), h.find hf⟩
  unmap h hm := by
    cases hm
    refine ⟨h.cut _ _, fun p hp => ?_⟩
    rw [List.mem_filterMap] at hp
    obtain ⟨r, hr, hp⟩ := hp
    exact overlap_spans (h.recs r hr) hp

end Libtux
