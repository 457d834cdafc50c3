import Libtux.Lib.Run
import Libtux.Pal.Calls
import Libtux.Pal.Ranges

/-!
# The records and the host

Each mapping call of `src/pal/vm.c` updates two stores, libmmap's table and the protections of the host.
`Booked` relates them: an address of the address space that is accessible is recorded. What is assumed
of libmmap is `LibMMap.Books`. Mapping and unmapping keep the relation, also on their undo paths:
the pieces that libmmap gave up were made inaccessible before the records are dropped. `lfi_as_mprotect`
touches only the host, and may have changed a part of its pages when the host refuses it, so it keeps the
relation when it is asked to open recorded pages only (`VmAct.Ok`);
`books_match` is the statement over runs, and `mprotect_unbooked` the page that breaks it.
-/

namespace Libtux
open Lib

/-- What libmmap promises of its records: a fixed mapping records its range and calls back on each
recorded piece of it, an unmapping removes the recorded pieces of its range and calls back on each of
them, and a mapping anywhere records a range that was free. -/
structure LibMMap.Books (L : LibMMap) (recorded : L.Table → Word → Prop) : Prop where
  mapat : ∀ {t t' addr size ps}, L.mapat t addr size = some (t', ps) →
    ∀ x, recorded t' x ↔ InSpan addr size x ∨ recorded t x
  mapat_calls : ∀ {t t' addr size ps}, L.mapat t addr size = some (t', ps) →
    ∀ x, InSpan addr size x → recorded t x → ∃ p ∈ ps, InSpan p.1 p.2 x
  mapany : ∀ {t t' size addr}, L.mapany t size = some (t', addr) →
    ∀ x, recorded t' x ↔ InSpan addr size x ∨ recorded t x
  mapany_free : ∀ {t t' size addr}, L.mapany t size = some (t', addr) →
    ∀ x, InSpan addr size x → ¬ recorded t x
  unmap : ∀ {t t' addr size ps}, L.unmap t addr size = some (t', ps) →
    ∀ x, recorded t' x ↔ recorded t x ∧ ¬ InSpan addr size x
  unmap_calls : ∀ {t t' addr size ps}, L.unmap t addr size = some (t', ps) →
    ∀ x, InSpan addr size x → recorded t x → ∃ p ∈ ps, InSpan p.1 p.2 x

section
variable {L : LibMMap} (H : HostVm) (recorded : L.Table → Word → Prop)

/-- An address that some access is allowed to. -/
def LFIAddrSpace.Accessible (as : LFIAddrSpace L) (x : Word) : Prop := as.prot x ≠ LFI_PROT_NONE

instance (as : LFIAddrSpace L) (x : Word) : Decidable (as.Accessible x) :=
  inferInstanceAs (Decidable (_ ≠ _))

/-- An address of the address space. -/
def LFIAddrSpaceInfo.Within (i : LFIAddrSpaceInfo) (x : Word) : Prop := i.minaddr ≤ x ∧ x < i.maxaddr

/-- What is accessible is recorded. -/
def LFIAddrSpace.Booked (as : LFIAddrSpace L) : Prop :=
  ∀ x, as.info.Within x → as.Accessible x → recorded as.mm x

/-- The calls on an address space. -/
inductive VmAct where
  | mapat (addr size : Word) (prot : CInt) (hf : Option HostFile)
  | mapany (size : Word) (prot : CInt) (hf : Option HostFile)
  | munmap (addr size : Word)
  | mprotect (addr size : Word) (prot : CInt)

/-- Whole pages of the address space. -/
def PagesOf (i : LFIAddrSpaceInfo) (addr size : Word) : Prop :=
  H.pagesize.toNat ∣ addr.toNat ∧ H.pagesize.toNat ∣ size.toNat ∧
    i.minaddr.toNat ≤ addr.toNat ∧ addr.toNat + size.toNat ≤ i.maxaddr.toNat

instance (i : LFIAddrSpaceInfo) (addr size : Word) : Decidable (PagesOf H i addr size) :=
  inferInstanceAs (Decidable (_ ∧ _ ∧ _ ∧ _))

/-- The arguments are whole pages of the address space. -/
def VmAct.Aligned (i : LFIAddrSpaceInfo) : VmAct → Prop
  | mapat addr size _ _ => PagesOf H i addr size
  | mapany size _ _ => H.pagesize.toNat ∣ size.toNat
  | munmap addr size => PagesOf H i addr size
  | mprotect addr size _ => PagesOf H i addr size

instance (i : LFIAddrSpaceInfo) (a : VmAct) : Decidable (a.Aligned H i) :=
  match a with
  | .mapat addr size _ _ => inferInstanceAs (Decidable (PagesOf H i addr size))
  | .mapany _ _ _ => inferInstanceAs (Decidable (_ ∣ _))
  | .munmap addr size => inferInstanceAs (Decidable (PagesOf H i addr size))
  | .mprotect addr size _ => inferInstanceAs (Decidable (PagesOf H i addr size))

/-- The run of a call, without its result. -/
def VmAct.run (as : LFIAddrSpace L) : VmAct → Except Stop Unit × LFIAddrSpace L
  | mapat addr size prot hf =>
    let r := (lfiAsMapat H addr size prot hf).run as
    (r.val.map fun _ => (), r.st)
  | mapany size prot hf =>
    let r := (lfiAsMapany H size prot hf).run as
    (r.val.map fun _ => (), r.st)
  | munmap addr size =>
    let r := (lfiAsMunmap H addr size).run as
    (r.val.map fun _ => (), r.st)
  | mprotect addr size prot =>
    let r := (lfiAsMprotect H addr size prot).run as
    (r.val.map fun _ => (), r.st)

/-- One call that returns, on whole pages. -/
def VmStep (as : LFIAddrSpace L) (a : VmAct) (as' : LFIAddrSpace L) : Prop :=
  a.Aligned H as.info ∧ a.run H as = (.ok (), as')

/-- The condition on a step: a protection that allows an access is asked for recorded pages only. -/
def VmAct.Ok (as : LFIAddrSpace L) : VmAct → Prop
  | mprotect addr size prot =>
    mmapprot prot = LFI_PROT_NONE ∨ ∀ x, InSpan addr size x → recorded as.mm x
  | _ => True

end

/-! ## What the calls leave -/

section
variable {L : LibMMap} {H : HostVm} {recorded : L.Table → Word → Prop}

namespace LFIAddrSpace

/-- Pieces that are made inaccessible leave the records, -/
@[simp] lemma unmapped_mm (ps : List (Word × Word)) (as : LFIAddrSpace L) :
    (as.unmapped H ps).mm = as.mm := by
  induction ps generalizing as with
  | nil => rfl
  | cons p ps ih => exact ih _

/-- and where the address space is. -/
@[simp] lemma unmapped_info (ps : List (Word × Word)) (as : LFIAddrSpace L) :
    (as.unmapped H ps).info = as.info := by
  induction ps generalizing as with
  | nil => rfl
  | cons p ps ih => exact ih _

/-- Unmapping opens nothing. -/
lemma Accessible.of_unmapped {ps : List (Word × Word)} {as : LFIAddrSpace L} {x : Word}
    (h : (as.unmapped H ps).Accessible x) : as.Accessible x := by
  induction ps generalizing as with
  | nil => exact h
  | cons p ps ih =>
    have hstep := ih h
    simp only [Accessible, mapped] at hstep
    split at hstep
    · exact absurd rfl hstep
    · exact hstep

/-- The pieces are closed. -/
lemma unmapped_piece {ps : List (Word × Word)} {p : Word × Word} (hp : p ∈ ps) {as : LFIAddrSpace L}
    {x : Word} (hx : InSpan p.1 p.2 x) : ¬ (as.unmapped H ps).Accessible x := by
  induction ps generalizing as with
  | nil => exact absurd hp List.not_mem_nil
  | cons q ps ih =>
    intro hacc
    rcases List.mem_cons.mp hp with rfl | hp
    · have hstep : (as.mapped H p.1 p.2 LFI_PROT_NONE none).Accessible x := Accessible.of_unmapped hacc
      simp only [Accessible, mapped, if_pos (hx.covers H.pagesize_pos)] at hstep
      exact hstep rfl
    · exact ih hp hacc

/-- A record that is dropped leaves where it is, -/
@[simp] lemma dropped_info (as : LFIAddrSpace L) (addr size : Word) :
    (as.dropped addr size).info = as.info := by
  unfold dropped
  split <;> rfl

/-- and what is accessible. -/
@[simp] lemma dropped_prot (as : LFIAddrSpace L) (addr size : Word) :
    (as.dropped addr size).prot = as.prot := by
  unfold dropped
  split <;> rfl

/-- Dropping a range leaves the records outside of it. -/
lemma recorded_dropped (hL : L.Books recorded) {as : LFIAddrSpace L} {addr size x : Word}
    (hr : recorded as.mm x) (hx : ¬ InSpan addr size x) : recorded (as.dropped addr size).mm x := by
  unfold dropped
  split
  · rename_i mm ps hm
    exact (hL.unmap hm x).mpr ⟨hr, hx⟩
  · exact hr

/-- A refused mapping opens nothing. -/
lemma Accessible.of_refused {as : LFIAddrSpace L} {addr size x : Word}
    (h : (as.refused H addr size).Accessible x) : as.Accessible x := by
  intro hnone
  refine h ?_
  simp only [refused]
  split
  · rfl
  · exact hnone

/-- A mapping of whole pages opens its own range only. -/
lemma Accessible.of_mapped {as : LFIAddrSpace L} {addr size : Word} {prot : CInt}
    {hf : Option HostFile} {x : Word} (ha : H.pagesize.toNat ∣ addr.toNat)
    (hs : H.pagesize.toNat ∣ size.toNat) (h : (as.mapped H addr size prot hf).Accessible x) :
    InSpan addr size x ∨ as.Accessible x := by
  simp only [Accessible, mapped, covers_iff H.pagesize_pos ha hs] at h
  by_cases hx : InSpan addr size x
  · exact .inl hx
  · exact .inr (by simpa [Accessible, show ¬ (_ ∧ _) from hx] using h)

end LFIAddrSpace

/-! ## Steps and runs -/

namespace LFIAddrSpace

/-- `lfi_as_mapat` keeps the books. On its undo path the pieces it replaced are closed already. -/
lemma Booked.mapat (hL : L.Books recorded) {as : LFIAddrSpace L} (hb : as.Booked recorded)
    {addr size : Word} {prot : CInt} {hf : Option HostFile} (ha : H.pagesize.toNat ∣ addr.toNat)
    (hs : H.pagesize.toNat ∣ size.toNat) {v : Word}
    (hv : ((lfiAsMapat H addr size prot hf).run as).val = .ok v) :
    ((lfiAsMapat H addr size prot hf).run as).st.Booked recorded := by
  have hinv := lfiAsMapat_inv (H := H) addr size prot hf as
  generalize (lfiAsMapat H addr size prot hf).run as = r at hinv hv
  cases hinv with
  | guard _ => cases hv
  | full _ _ => exact hb
  | stop _ _ _ => cases hv
  | @fail mm ps _ hm _ _ =>
    intro x hx hacc
    simp only [dropped_info, refused, unmapped_info, recording] at hx
    have hclosed : ((as.recording mm).unmapped H ps).Accessible x := by
      rw [Accessible, dropped_prot] at hacc
      exact Accessible.of_refused hacc
    have hrec : recorded as.mm x := hb x hx hclosed.of_unmapped
    have hout : ¬ InSpan addr size x := by
      intro hin
      obtain ⟨p, hp, hpx⟩ := hL.mapat_calls hm x hin hrec
      exact unmapped_piece hp hpx hclosed
    refine recorded_dropped hL ?_ hout
    simp only [refused, unmapped_mm, recording]
    exact (hL.mapat hm x).mpr (.inr hrec)
  | @ok mm ps _ hm _ _ =>
    intro x hx hacc
    simp only [mapped, unmapped_info, recording] at hx
    simp only [mapped, unmapped_mm, recording]
    rcases hacc.of_mapped ha hs with hin | hclosed
    · exact (hL.mapat hm x).mpr (.inl hin)
    · exact (hL.mapat hm x).mpr (.inr (hb x hx hclosed.of_unmapped))

/-- `lfi_as_mapany` keeps the books. -/
lemma Booked.mapany (hL : L.Books recorded) {as : LFIAddrSpace L} (hb : as.Booked recorded)
    {size : Word} {prot : CInt} {hf : Option HostFile} (hs : H.pagesize.toNat ∣ size.toNat) :
    ((lfiAsMapany H size prot hf).run as).st.Booked recorded := by
  have hinv := lfiAsMapany_inv (H := H) size prot hf as
  generalize (lfiAsMapany H size prot hf).run as = r at hinv
  cases hinv with
  | full _ => exact hb
  | @fail mm addr hm _ =>
    intro x hx hacc
    simp only [dropped_info, refused, recording] at hx
    have hopen : (as.recording mm).Accessible x := by
      rw [Accessible, dropped_prot] at hacc
      exact Accessible.of_refused hacc
    have hrec : recorded as.mm x := hb x hx hopen
    have hout : ¬ InSpan addr size x := fun hin => hL.mapany_free hm x hin hrec
    exact recorded_dropped hL ((hL.mapany hm x).mpr (.inr hrec)) hout
  | @ok mm addr hm hok =>
    intro x hx hacc
    rcases hacc.of_mapped (H.mmap_aligned hok) hs with hin | hacc
    · exact (hL.mapany hm x).mpr (.inl hin)
    · exact (hL.mapany hm x).mpr (.inr (hb x hx hacc))

/-- `lfi_as_munmap` keeps the books. -/
lemma Booked.munmap (hL : L.Books recorded) {as : LFIAddrSpace L} (hb : as.Booked recorded)
    {addr size : Word} {v : Int} (hv : ((lfiAsMunmap H addr size).run as).val = .ok v) :
    ((lfiAsMunmap H addr size).run as).st.Booked recorded := by
  have hinv := lfiAsMunmap_inv (H := H) addr size as
  generalize (lfiAsMunmap H addr size).run as = r at hinv hv
  cases hinv with
  | guard _ => exact hb
  | full _ _ => exact hb
  | stop _ _ _ => cases hv
  | @ok mm ps _ hm _ =>
    intro x hx hacc
    simp only [unmapped_info, recording] at hx
    have hrec : recorded as.mm x := hb x hx hacc.of_unmapped
    simp only [unmapped_mm, recording]
    refine (hL.unmap hm x).mpr ⟨hrec, fun hin => ?_⟩
    obtain ⟨p, hp, hpx⟩ := hL.unmap_calls hm x hin hrec
    exact unmapped_piece hp hpx hacc

/-- `lfi_as_mprotect` keeps the books under its condition. -/
lemma Booked.mprotect {as : LFIAddrSpace L} (hb : as.Booked recorded) {addr size : Word} {prot : CInt}
    (ha : H.pagesize.toNat ∣ addr.toNat) (hs : H.pagesize.toNat ∣ size.toNat)
    (hok : (VmAct.mprotect addr size prot).Ok recorded as) :
    ((lfiAsMprotect H addr size prot).run as).st.Booked recorded := by
  rcases lfiAsMprotect_cases (H := H) addr size prot as with ⟨_, hr⟩ | ⟨_, r, _, hr⟩
  · rw [hr]
    exact hb
  · rw [hr]
    intro x hx hacc
    simp only [Accessible, mprotected] at hacc
    split at hacc
    · rename_i hc
      rcases hok with hnone | hrec
      · exact absurd hnone hacc
      · exact hrec x ((covers_iff H.pagesize_pos ha hs).mp hc.1)
    · exact hb x hx hacc

/-- A step keeps the books. -/
lemma Booked.step (hL : L.Books recorded) {as as' : LFIAddrSpace L} {a : VmAct}
    (hb : as.Booked recorded) (hok : a.Ok recorded as) (hst : VmStep H as a as') :
    as'.Booked recorded := by
  obtain ⟨hal, hrun⟩ := hst
  cases a with
  | mapat addr size prot hf =>
    simp only [VmAct.run, Prod.mk.injEq] at hrun
    obtain ⟨hv, rfl⟩ := hrun
    cases hval : ((lfiAsMapat H addr size prot hf).run as).val with
    | error e =>
      rw [hval] at hv
      cases hv
    | ok v => exact hb.mapat hL hal.1 hal.2.1 hval
  | mapany size prot hf =>
    simp only [VmAct.run, Prod.mk.injEq] at hrun
    obtain ⟨_, rfl⟩ := hrun
    exact hb.mapany hL hal
  | munmap addr size =>
    simp only [VmAct.run, Prod.mk.injEq] at hrun
    obtain ⟨hv, rfl⟩ := hrun
    cases hval : ((lfiAsMunmap H addr size).run as).val with
    | error e =>
      rw [hval] at hv
      cases hv
    | ok v => exact hb.munmap hL hval
  | mprotect addr size prot =>
    simp only [VmAct.run, Prod.mk.injEq] at hrun
    obtain ⟨_, rfl⟩ := hrun
    exact hb.mprotect hal.1 hal.2.1 hok

/-- After an unmapping that succeeded nothing of its range is accessible. -/
lemma Booked.closed (hL : L.Books recorded) {as : LFIAddrSpace L} (hb : as.Booked recorded)
    {addr size : Word} (hv : ((lfiAsMunmap H addr size).run as).val = .ok 0) {x : Word}
    (hx : as.info.Within x) (hin : InSpan addr size x) :
    ¬ ((lfiAsMunmap H addr size).run as).st.Accessible x := by
  have hbooked := hb.munmap hL hv
  have hinv := lfiAsMunmap_inv (H := H) addr size as
  generalize (lfiAsMunmap H addr size).run as = r at hinv hv hbooked
  cases hinv with
  | guard _ => cases hv
  | full _ _ => cases hv
  | stop _ _ _ => cases hv
  | @ok mm ps _ hm _ =>
    intro hacc
    have hrec := hbooked x (by simpa [recording] using hx) hacc
    simp only [unmapped_mm, recording] at hrec
    exact ((hL.unmap hm x).mp hrec).2 hin

end LFIAddrSpace

/-- From an address space without records and without access, in every run of mapping calls on whole
pages whose `lfi_as_mprotect` steps open recorded pages only: what is accessible is recorded, and an
unmapping that succeeds leaves nothing of its range accessible. -/
theorem books_match (hL : L.Books recorded) {as as' : LFIAddrSpace L} {l : List VmAct}
    (hnone : ∀ x, as.info.Within x → ¬ as.Accessible x)
    (hr : Run (Guarded (fun as a => a.Ok recorded as) (VmStep H)) as l as') :
    (∀ x, as'.info.Within x → as'.Accessible x → recorded as'.mm x) ∧
      ∀ addr size, PagesOf H as'.info addr size →
        ((lfiAsMunmap H addr size).run as').val = .ok 0 →
        ∀ x, InSpan addr size x → ¬ ((lfiAsMunmap H addr size).run as').st.Accessible x := by
  have hbooked : as'.Booked recorded :=
    Run.invariant (I := fun as => as.Booked recorded) (fun hb hst => hb.step hL hst.1 hst.2)
      (fun x hx hacc => absurd hacc (hnone x hx)) hr
  refine ⟨hbooked, fun addr size hpages hv x hin => ?_⟩
  obtain ⟨_, _, hlo, hhi⟩ := hpages
  have hx : as'.info.Within x := by
    refine ⟨?_, ?_⟩
    · exact le_trans hlo hin.1
    · exact lt_of_lt_of_le hin.2 hhi
  exact hbooked.closed hL hv hx hin

end

/-! ## A table that keeps its promises -/

/-- The addresses of the records of a list of ranges. -/
def Ranges.Recorded (t : Ranges) (x : Word) : Prop := ∃ r ∈ t.recs, InSpan r.1 r.2 x

/-- The part of a record in a window has the addresses it should. -/
lemma overlap_span (lo hi : Nat) (h : lo < 2 ^ 64 ∨ hi ≤ 2 ^ 64) {r : Word × Word} {x : Word} :
    (∃ q, overlap lo hi r = some q ∧ InSpan q.1 q.2 x) ↔
      InSpan r.1 r.2 x ∧ lo ≤ x.toNat ∧ x.toNat < hi := by
  have h1 := r.1.isLt
  have h2 := r.2.isLt
  simp only [overlap, InSpan]
  split
  · simp only [Option.some.injEq, exists_eq_left', BitVec.toNat_ofNat]
    rw [Nat.mod_eq_of_lt (by omega), Nat.mod_eq_of_lt (by omega)]
    omega
  · simp only [reduceCtorEq, false_and, exists_false, false_iff]
    omega

namespace Ranges

variable {t : Ranges} {addr size x : Word}

/-- Cutting a range out of the records. -/
lemma cut_recorded : (t.cut addr size).1.Recorded x ↔ t.Recorded x ∧ ¬ InSpan addr size x := by
  have hx := x.isLt
  have ha := addr.isLt
  have hlow := fun r : Word × Word => overlap_span 0 addr.toNat (.inl (by decide)) (r := r) (x := x)
  have hhigh := fun r : Word × Word =>
    overlap_span (addr.toNat + size.toNat) (2 ^ 64) (.inr le_rfl) (r := r) (x := x)
  simp only [Recorded, cut, List.mem_flatMap, remains, List.mem_append, Option.mem_toList]
  constructor
  · rintro ⟨q, ⟨r, hr, hq⟩, hqx⟩
    rcases hq with hq | hq
    · obtain ⟨hin, _, hlt⟩ := (hlow r).mp ⟨q, hq, hqx⟩
      exact ⟨⟨r, hr, hin⟩, fun h => absurd h.1 (by omega)⟩
    · obtain ⟨hin, hle, _⟩ := (hhigh r).mp ⟨q, hq, hqx⟩
      exact ⟨⟨r, hr, hin⟩, fun h => absurd h.2 (by omega)⟩
  · rintro ⟨⟨r, hr, hin⟩, hout⟩
    by_cases hlt : x.toNat < addr.toNat
    · obtain ⟨q, hq, hqx⟩ := (hlow r).mpr ⟨hin, Nat.zero_le _, hlt⟩
      exact ⟨q, ⟨r, hr, .inl hq⟩, hqx⟩
    · have hle : addr.toNat + size.toNat ≤ x.toNat := by
        by_contra hno
        exact hout ⟨by omega, by omega⟩
      obtain ⟨q, hq, hqx⟩ := (hhigh r).mpr ⟨hin, hle, hx⟩
      exact ⟨q, ⟨r, hr, .inr hq⟩, hqx⟩

/-- Every recorded address of the range is in a piece that was cut out. -/
lemma cut_calls (hin : InSpan addr size x) (h : t.Recorded x) :
    ∃ p ∈ (t.cut addr size).2, InSpan p.1 p.2 x := by
  obtain ⟨r, hr, hrx⟩ := h
  obtain ⟨q, hq, hqx⟩ := (overlap_span addr.toNat (addr.toNat + size.toNat) (.inl addr.isLt)).mpr ⟨hrx, hin⟩
  exact ⟨q, List.mem_filterMap.mpr ⟨r, hr, hq⟩, hqx⟩

/-- After a range was put into the records, they have it and what they had. -/
lemma put_recorded : (t.put addr size).1.Recorded x ↔ InSpan addr size x ∨ t.Recorded x := by
  have hcut : (t.cut addr size).1.Recorded x ↔ _ := cut_recorded
  simp only [Recorded, put, List.mem_cons, exists_eq_or_imp] at hcut ⊢
  rw [hcut]
  tauto

/-- A place that was found is free. -/
lemma find_free (h : t.find size = some addr) (hin : InSpan addr size x) : ¬ t.Recorded x := by
  simp only [find, Option.map_eq_some_iff] at h
  obtain ⟨b, hb, rfl⟩ := h
  have hfree := List.find?_some hb
  rw [decide_eq_true_eq] at hfree
  obtain ⟨hhi, hrecs⟩ := hfree
  have htop := t.hi_le
  have hpos : 0 < size.toNat := by
    have := hin.1
    have := hin.2
    omega
  have hbn : (BitVec.ofNat 64 b).toNat = b := by
    rw [BitVec.toNat_ofNat]
    exact Nat.mod_eq_of_lt (by omega)
  rw [InSpan, hbn] at hin
  rintro ⟨r, hr, hrx⟩
  obtain ⟨q, hq, _⟩ := (overlap_span b (b + size.toNat) (.inl (by omega))).mpr ⟨hrx, hin⟩
  have hnone := List.all_eq_true.mp hrecs r hr
  rw [hq] at hnone
  cases hnone

end Ranges

/-- A list of ranges keeps the books. -/
lemma LibMMap.ofRanges_books : LibMMap.ofRanges.Books Ranges.Recorded where
  mapat h x := by
    cases h
    exact Ranges.put_recorded
  mapat_calls h x := by
    cases h
    exact Ranges.cut_calls
  mapany h x := by
    simp only [LibMMap.ofRanges, Option.map_eq_some_iff] at h
    obtain ⟨addr, _, rfl, rfl⟩ := h
    exact Ranges.put_recorded
  mapany_free h x := by
    simp only [LibMMap.ofRanges, Option.map_eq_some_iff] at h
    obtain ⟨addr, hfind, rfl, rfl⟩ := h
    exact Ranges.find_free hfind
  unmap h x := by
    cases h
    exact Ranges.cut_recorded
  unmap_calls h x := by
    cases h
    exact Ranges.cut_calls

/-- A host with pages of 4 KiB that grants every protection. -/
def HostVm.open : HostVm := .plain fun _ _ _ => true

/-- A call that did not abort is a step. -/
lemma VmStep.intro {L : LibMMap} {H : HostVm} {as : LFIAddrSpace L} {a : VmAct}
    (hal : a.Aligned H as.info) (h : (a.run H as).1 = .ok ()) : VmStep H as a (a.run H as).2 :=
  ⟨hal, Prod.ext h rfl⟩

/-- The first page of an address space at 4 GiB. -/
def firstPage : Word := LFIAddrSpaceInfo.plain.minaddr

/-- One page mapped anywhere. -/
def onePage : LFIAddrSpace .ofRanges := ((VmAct.mapany 4096 3 none).run .open (.fresh .plain)).2

/-- The page made read-only: a run that meets the condition, and what it says of an unmapping. -/
theorem books_match_onePage :
    (∀ x, onePage.info.Within x → onePage.Accessible x → Ranges.Recorded onePage.mm x) ∧
      ∀ x, InSpan firstPage 4096 x → ¬ ((lfiAsMunmap .open firstPage 4096).run
        ((VmAct.mprotect firstPage 4096 1).run .open onePage).2).st.Accessible x := by
  have hrec : ∀ x, InSpan firstPage 4096 x → Ranges.Recorded onePage.mm x := by
    intro x hx
    exact ⟨(firstPage, 4096), by decide +kernel, hx⟩
  have hok : (VmAct.mprotect firstPage 4096 1).Ok Ranges.Recorded onePage := .inr hrec
  have hmap : Run (Guarded (fun as a => a.Ok Ranges.Recorded as) (VmStep .open))
      (.fresh .plain) [.mapany 4096 3 none] onePage :=
    .snoc (.nil _) ⟨trivial, VmStep.intro (by decide +kernel) (by decide +kernel)⟩
  have hprot : Run (Guarded (fun as a => a.Ok Ranges.Recorded as) (VmStep .open))
      (.fresh .plain) [.mapany 4096 3 none, .mprotect firstPage 4096 1]
      ((VmAct.mprotect firstPage 4096 1).run .open onePage).2 :=
    .snoc hmap ⟨hok, VmStep.intro (by decide +kernel) (by decide +kernel)⟩
  have hnone : ∀ x, (LFIAddrSpace.fresh .plain).info.Within x →
      ¬ (LFIAddrSpace.fresh .plain).Accessible x := fun _ _ h => h rfl
  refine ⟨(books_match LibMMap.ofRanges_books hnone hmap).1, ?_⟩
  exact (books_match LibMMap.ofRanges_books hnone hprot).2 firstPage 4096 (by decide +kernel)
    (by decide +kernel)

/-- A protection opens a page of a new address space that was never recorded, and the unmapping of the
page succeeds and leaves it open. -/
theorem mprotect_unbooked :
    ∃ as, Run (VmStep .open) (.fresh .plain) [.mprotect firstPage 4096 1] as ∧
      LFIAddrSpaceInfo.plain.Within firstPage ∧ as.Accessible firstPage ∧
      ¬ Ranges.Recorded as.mm firstPage ∧
      ((lfiAsMunmap .open firstPage 4096).run as).val = .ok 0 ∧
      ((lfiAsMunmap .open firstPage 4096).run as).st.Accessible firstPage := by
  refine ⟨((VmAct.mprotect firstPage 4096 1).run .open (.fresh .plain)).2, ?_, ?_, ?_, ?_, ?_, ?_⟩
  · exact .snoc (.nil _) (VmStep.intro (by decide +kernel) (by decide +kernel))
  · exact ⟨by decide +kernel, by decide +kernel⟩
  · decide +kernel
  · rintro ⟨r, hr, _⟩
    exact absurd hr List.not_mem_nil
  · decide +kernel
  · decide +kernel

end Libtux
