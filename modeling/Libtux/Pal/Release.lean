import Libtux.Pal.Book
import Libtux.Pal.Guard

/-!
# Unmapping what was mapped

Whatever `lfi_as_mapat` or `lfi_as_mapany` mapped, `lfi_as_munmap` should be able to unmap: it should go past
its guard, close the pages, drop their records and leave the others alone (`Released`). The guards compare
`addr + size` with `maxaddr` in two ways, `≤` to map and `<` to unmap, so this fails for the regions that end
at `maxaddr`, such as the first stack of every process, and only for these (`munmap_releases_iff`).
-/

namespace Libtux
open Lib

variable {L : LibMMap} {H : HostVm} {recorded : L.Table → Word → Prop}

/-- libmmap finds free ranges in the window it was initialised with, and calls back on pieces of the range it
unmaps. -/
structure LibMMap.Windowed (L : LibMMap) (i : LFIAddrSpaceInfo) (t : L.Table) : Prop where
  mapany : ∀ {t' size addr}, L.mapany t size = some (t', addr) →
    i.minaddr.toNat ≤ addr.toNat ∧ addr.toNat + size.toNat ≤ i.maxaddr.toNat
  unmap_piece : ∀ {s s' addr size ps b n}, L.unmap s addr size = some (s', ps) → (b, n) ∈ ps →
    addr.toNat ≤ b.toNat ∧ b.toNat + n.toNat ≤ addr.toNat + size.toNat

/-- A call of `lfi_as_mapat` or `lfi_as_mapany` that mapped `[addr, addr + size)`. -/
inductive Maps (H : HostVm) (as : LFIAddrSpace L) (addr size : Word) : LFIAddrSpace L → Prop where
  | mapat (prot : CInt) (hf : Option HostFile) : addr ≠ mapFailed →
    ((lfiAsMapat H addr size prot hf).run as).val = .ok addr →
    Maps H as addr size ((lfiAsMapat H addr size prot hf).run as).st
  | mapany (prot : CInt) (hf : Option HostFile) : addr ≠ 0 → addr ≠ mapFailed →
    ((lfiAsMapany H size prot hf).run as).val = .ok addr →
    Maps H as addr size ((lfiAsMapany H size prot hf).run as).st

/-- What a mapped region has: it is in the address space, and recorded. -/
lemma Maps.region (hL : L.Books recorded) {as as' : LFIAddrSpace L} {addr size : Word}
    (hw : L.Windowed as.info as.mm) (h : Maps H as addr size as') :
    as'.info = as.info ∧ as.info.minaddr.toNat ≤ addr.toNat ∧
      addr.toNat + size.toNat ≤ as.info.maxaddr.toNat ∧
      ∀ x, InSpan addr size x → recorded as'.mm x := by
  cases h with
  | mapat prot hf hne hv =>
    have hinv := lfiAsMapat_inv (H := H) addr size prot hf as
    generalize (lfiAsMapat H addr size prot hf).run as = r at hinv hv
    cases hinv with
    | guard _ => cases hv
    | full _ _ => exact absurd (Except.ok.inj hv).symm hne
    | stop _ _ _ => cases hv
    | fail _ _ _ _ => exact absurd (Except.ok.inj hv).symm hne
    | @ok mm ps hg hm _ hok =>
      obtain ⟨hlo, hhi⟩ := hg
      have htop := H.mmap_top hok
      refine ⟨LFIAddrSpace.unmapped_info ps _, hlo, ?_, fun x hx => ?_⟩
      · rw [ge_iff_le, BitVec.le_def] at hlo
        rw [BitVec.le_def, BitVec.toNat_add, Nat.mod_eq_of_lt htop] at hhi
        exact hhi
      · change recorded ((as.recording mm).unmapped H ps).mm x
        rw [LFIAddrSpace.unmapped_mm]
        exact (hL.mapat hm x).mpr (.inl hx)
  | mapany prot hf h0 hne hv =>
    have hinv := lfiAsMapany_inv (H := H) size prot hf as
    generalize (lfiAsMapany H size prot hf).run as = r at hinv hv
    cases hinv with
    | full _ => exact absurd (Except.ok.inj hv).symm h0
    | fail _ _ => exact absurd (Except.ok.inj hv).symm hne
    | @ok mm addr' hm _ =>
      obtain rfl := Except.ok.inj hv
      obtain ⟨hlo, hhi⟩ := hw.mapany hm
      exact ⟨rfl, hlo, hhi, fun x hx => (hL.mapany hm x).mpr (.inl hx)⟩

/-- The calls on an address space, with any operands. -/
def VmAnyStep (H : HostVm) (as : LFIAddrSpace L) (a : VmAct) (as' : LFIAddrSpace L) : Prop :=
  a.run H as = (.ok (), as')

/-- No call moves the address space. -/
lemma VmAnyStep.info {as as' : LFIAddrSpace L} {a : VmAct} (h : VmAnyStep H as a as') :
    as'.info = as.info := by
  cases a with
  | mapat addr size prot hf =>
    simp only [VmAnyStep, VmAct.run, Prod.mk.injEq] at h
    obtain ⟨hv, rfl⟩ := h
    have hinv := lfiAsMapat_inv (H := H) addr size prot hf as
    generalize (lfiAsMapat H addr size prot hf).run as = r at hinv hv
    cases hinv with
    | guard _ => rfl
    | full _ _ => rfl
    | stop _ _ _ => cases hv
    | fail _ _ _ _ => simp [LFIAddrSpace.refused, LFIAddrSpace.recording]
    | ok _ _ _ _ => simp [LFIAddrSpace.mapped, LFIAddrSpace.recording]
  | mapany size prot hf =>
    simp only [VmAnyStep, VmAct.run, Prod.mk.injEq] at h
    obtain ⟨hv, rfl⟩ := h
    have hinv := lfiAsMapany_inv (H := H) size prot hf as
    generalize (lfiAsMapany H size prot hf).run as = r at hinv hv
    cases hinv with
    | full _ => rfl
    | fail _ _ => simp [LFIAddrSpace.refused, LFIAddrSpace.recording]
    | ok _ _ => rfl
  | munmap addr size =>
    simp only [VmAnyStep, VmAct.run, Prod.mk.injEq] at h
    obtain ⟨hv, rfl⟩ := h
    have hinv := lfiAsMunmap_inv (H := H) addr size as
    generalize (lfiAsMunmap H addr size).run as = r at hinv hv
    cases hinv with
    | guard _ => rfl
    | full _ _ => rfl
    | stop _ _ _ => cases hv
    | ok _ _ _ => simp [LFIAddrSpace.recording]
  | mprotect addr size prot =>
    simp only [VmAnyStep, VmAct.run, Prod.mk.injEq] at h
    obtain ⟨-, rfl⟩ := h
    rcases lfiAsMprotect_cases (H := H) addr size prot as with ⟨_, hr⟩ | ⟨_, r, _, hr⟩
    · rw [hr]
    · rw [hr]
      rfl

/-- The unmapping of `[addr, addr + size)` goes past its guard, succeeds if libmmap and the host do their part,
and when it succeeds no page of the region is recorded or accessible, and all others are as before. -/
structure Released (H : HostVm) (recorded : L.Table → Word → Prop) (as : LFIAddrSpace L) (addr size : Word) :
    Prop where
  past : VmCall.munmap.Past H as addr size
  returns : ∀ mm ps, L.unmap as.mm addr size = some (mm, ps) → Unmaps H as.nmmap ps →
    ((lfiAsMunmap H addr size).run as).val = .ok 0
  closed : ((lfiAsMunmap H addr size).run as).val = .ok 0 → ∀ x, InSpan addr size x →
    ¬ recorded ((lfiAsMunmap H addr size).run as).st.mm x ∧
      ¬ ((lfiAsMunmap H addr size).run as).st.Accessible x
  others : ((lfiAsMunmap H addr size).run as).val = .ok 0 → ∀ x, ¬ InSpan addr size x →
    (recorded ((lfiAsMunmap H addr size).run as).st.mm x ↔ recorded as.mm x) ∧
      ((lfiAsMunmap H addr size).run as).st.mem x = as.mem x ∧
      ((lfiAsMunmap H addr size).run as).st.prot x = as.prot x

/-- Inversion for a `lfi_as_munmap` that returns `0`. -/
lemma lfiAsMunmap_zero {as : LFIAddrSpace L} {addr size : Word}
    (hv : ((lfiAsMunmap H addr size).run as).val = .ok 0) :
    ∃ mm ps, L.unmap as.mm addr size = some (mm, ps) ∧
      ((lfiAsMunmap H addr size).run as).st = (as.recording mm).unmapped H ps := by
  have hinv := lfiAsMunmap_inv (H := H) addr size as
  generalize (lfiAsMunmap H addr size).run as = r at hinv hv
  cases hinv with
  | guard _ => cases hv
  | full _ _ => cases hv
  | stop _ _ _ => cases hv
  | @ok mm ps _ hm _ => exact ⟨mm, ps, hm, rfl⟩

/-- A recorded region of whole pages is released once the call is past its guard. -/
lemma released_of_past (hL : L.Books recorded) {i : LFIAddrSpaceInfo} {t : L.Table} (hw : L.Windowed i t)
    {as : LFIAddrSpace L} {addr size : Word} (ha : H.pagesize.toNat ∣ addr.toNat)
    (hs : H.pagesize.toNat ∣ size.toNat) (hrec : ∀ x, InSpan addr size x → recorded as.mm x)
    (hpast : VmCall.munmap.Past H as addr size) : Released H recorded as addr size := by
  refine ⟨hpast, fun mm ps hm hu => ?_, fun hv x hx => ?_, fun hv x hx => ?_⟩
  · have hinv := lfiAsMunmap_inv (H := H) addr size as
    simp only [VmCall.Past] at hpast
    generalize (lfiAsMunmap H addr size).run as = r at hinv hpast
    cases hinv with
    | guard _ => cases hpast
    | full _ hm' =>
      rw [hm] at hm'
      cases hm'
    | stop _ hm' hu' =>
      rw [hm] at hm'
      cases hm'
      exact absurd hu hu'
    | ok _ _ _ => rfl
  · obtain ⟨mm, ps, hm, hst⟩ := lfiAsMunmap_zero hv
    rw [hst, LFIAddrSpace.unmapped_mm]
    obtain ⟨p, hp, hpx⟩ := hL.unmap_calls hm x hx (hrec x hx)
    exact ⟨fun hr => ((hL.unmap hm x).mp hr).2 hx, LFIAddrSpace.unmapped_piece hp hpx⟩
  · obtain ⟨mm, ps, hm, hst⟩ := lfiAsMunmap_zero hv
    rw [hst, LFIAddrSpace.unmapped_mm]
    have hout : ¬ covers H.pagesize addr size x := fun hc => hx ((covers_iff H.pagesize_pos ha hs).mp hc)
    obtain ⟨hmem, hprot⟩ := LFIAddrSpace.unmapped_outside (as.recording mm)
      (fun p hp => hw.unmap_piece hm (b := p.1) (n := p.2) hp) hout
    refine ⟨⟨fun hr => ((hL.unmap hm x).mp hr).1, fun hr => (hL.unmap hm x).mpr ⟨hr, hx⟩⟩, hmem, hprot⟩

/-- The guards of `lfi_as_mapat` and `lfi_as_munmap` differ exactly for the ranges that end at `maxaddr`, and a
mapped region of whole pages, in any later state that still records it, is released exactly when it does not
end there. -/
theorem munmap_releases_iff (hL : L.Books recorded) :
    (∀ (as : LFIAddrSpace L) (addr size : Word) (prot : CInt) (hf : Option HostFile),
      ((VmCall.mapat prot hf).Past H as addr size ↔ VmCall.munmap.Past H as addr size) ↔
        ¬ (as.info.minaddr ≤ addr ∧ addr + size = as.info.maxaddr)) ∧
    ∀ (as as' as'' : LFIAddrSpace L) (addr size : Word) (l : List VmAct),
      L.Windowed as.info as.mm → Maps H as addr size as' → Run (VmAnyStep H) as' l as'' →
      (∀ x, InSpan addr size x → recorded as''.mm x) →
      H.pagesize.toNat ∣ addr.toNat → H.pagesize.toNat ∣ size.toNat →
      (Released H recorded as'' addr size ↔ addr + size ≠ as.info.maxaddr) := by
  refine ⟨fun as addr size prot hf => ?_, fun as as' as'' addr size l hw hmap hrun hrec ha hs => ?_⟩
  · rw [VmCall.past_iff, VmCall.past_iff]
    simp only [VmCall.Below]
    rw [not_and]
    constructor
    · intro h hle heq
      have hlt := (h.mp ⟨hle, by rw [heq]; exact BitVec.le_refl _⟩).2
      rw [heq] at hlt
      exact absurd hlt (BitVec.lt_irrefl _)
    · intro h
      refine and_congr_right fun hle => ⟨fun hhi => ?_, BitVec.le_of_lt⟩
      exact BitVec.lt_of_le_ne hhi (h hle)
  · obtain ⟨hinfo', hlo, hhi, -⟩ := hmap.region hL hw
    have hinfo : as''.info = as.info :=
      (Run.invariant (I := fun s => s.info = as'.info) (fun h hst => hst.info.trans h) rfl hrun).trans hinfo'
    have hmax := as.info.maxaddr.isLt
    have hsum : (addr + size).toNat = addr.toNat + size.toNat := by
      rw [BitVec.toNat_add, Nat.mod_eq_of_lt (by omega)]
    constructor
    · intro h heq
      have hlt := ((VmCall.past_iff ..).mp h.past).2
      simp only [VmCall.Below] at hlt
      rw [hinfo, heq] at hlt
      exact absurd hlt (BitVec.lt_irrefl _)
    · intro hne
      refine released_of_past hL hw ha hs hrec ((VmCall.past_iff ..).mpr ?_)
      rw [hinfo]
      refine ⟨hlo, BitVec.lt_of_le_ne ?_ hne⟩
      rw [BitVec.le_def, hsum]
      exact hhi

/-- A table of ranges in the window of the address space. -/
lemma Ranges.windowed {i : LFIAddrSpaceInfo} {t : Ranges} (hlo : t.lo = i.minaddr.toNat)
    (hhi : t.hi = i.maxaddr.toNat) (hrecs : ∀ r ∈ t.recs, i.minaddr.toNat ≤ r.1.toNat) :
    LibMMap.ofRanges.Windowed i t where
  mapany {t' size addr} h := by
    simp only [LibMMap.ofRanges, Option.map_eq_some_iff, Ranges.find] at h
    obtain ⟨_, ⟨b, hb, rfl⟩, heq⟩ := h
    have hfree := List.find?_some hb
    have hmem := List.mem_of_find?_eq_some hb
    rw [decide_eq_true_eq] at hfree
    have hmax := i.maxaddr.isLt
    obtain ⟨-, rfl⟩ := Prod.mk.inj heq
    rw [BitVec.toNat_ofNat, Nat.mod_eq_of_lt (by omega)]
    refine ⟨?_, by omega⟩
    obtain rfl | hb := List.mem_cons.mp hmem
    · exact hlo.ge
    · obtain ⟨r, hr, rfl⟩ := List.mem_map.mp hb
      have := hrecs r hr
      omega
  unmap_piece h hp := by
    cases h
    exact Ranges.cut_piece hp

/-- The last page of an address space. -/
def lastPage : Word := LFIAddrSpaceInfo.plain.maxaddr - 4096

/-- One page mapped at the start of a new address space is released. -/
theorem released_firstPage :
    Released .open Ranges.Recorded ((lfiAsMapat .open firstPage 4096 3 none).run (.fresh .plain)).st
      firstPage 4096 := by
  have hw : LibMMap.ofRanges.Windowed LFIAddrSpaceInfo.plain (LFIAddrSpace.fresh .plain).mm :=
    Ranges.windowed rfl rfl fun _ hr => by cases hr
  have hmap : Maps .open (.fresh .plain) firstPage 4096 _ :=
    .mapat 3 none (by decide) (by decide +kernel)
  have hrec := (hmap.region LibMMap.ofRanges_books hw).2.2.2
  exact ((munmap_releases_iff LibMMap.ofRanges_books).2 _ _ _ _ _ [] hw hmap (.nil _) hrec (by decide)
    (by decide)).mpr (by decide)

/-- The last page of an address space can be mapped, and its unmapping is refused. -/
theorem not_released_lastPage :
    Maps .open (.fresh .plain) lastPage 4096
      ((lfiAsMapat .open lastPage 4096 3 none).run (.fresh .plain)).st ∧
    (VmCall.mapat 3 none).Past .open (.fresh .plain) lastPage 4096 ∧
    ¬ VmCall.munmap.Past .open (.fresh .plain) lastPage 4096 ∧
    ((lfiAsMunmap .open lastPage 4096).run
      ((lfiAsMapat .open lastPage 4096 3 none).run (.fresh .plain)).st).val = .ok (-1) ∧
    ((lfiAsMunmap .open lastPage 4096).run
      ((lfiAsMapat .open lastPage 4096 3 none).run (.fresh .plain)).st).st.Accessible lastPage := by
  refine ⟨.mapat 3 none (by decide) (by decide +kernel), (VmCall.past_iff ..).mpr ⟨by decide, by decide⟩,
    fun h => ?_, by decide +kernel, by decide +kernel⟩
  have hlt := ((VmCall.past_iff ..).mp h).2
  revert hlt
  decide

end Libtux
