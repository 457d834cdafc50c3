import Libtux.Pal.Mapping

/-!
# Inversion of the mapping calls

What `lfi_as_mapat`, `lfi_as_mapany` and `lfi_as_munmap` (`src/pal/vm.c`) can do, one constructor for
each way through the function, with the conditions under which it is taken and the state it leaves.
`lfiAsMapat_inv`, `lfiAsMapany_inv` and `lfiAsMunmap_inv` say that a run takes one of them; the results
about guards, assertions and bookkeeping are case splits on these. Pages that libmmap gives up are made
inaccessible one piece after the other (`cbunmaps_run`), which needs the host to accept each of them
(`Unmaps`).
-/

namespace Libtux
open Lib

variable {L : LibMMap} (H : HostVm)

/-- The host accepts the unmapping of every piece, from its call number `n` on. -/
def Unmaps : Nat → List (Word × Word) → Prop
  | _, [] => True
  | n, (start, len) :: ps => H.mmap n start len = true ∧ Unmaps (n + 1) ps

instance decidableUnmaps : ∀ n ps, Decidable (Unmaps H n ps)
  | _, [] => isTrue trivial
  | n, (_, _) :: ps => @instDecidableAnd _ _ _ (decidableUnmaps (n + 1) ps)

namespace LFIAddrSpace

/-- The address space with other records. -/
def recording (as : LFIAddrSpace L) (mm : L.Table) : LFIAddrSpace L := { as with mm }

/-- The address space after the pieces were made inaccessible. -/
def unmapped (as : LFIAddrSpace L) : List (Word × Word) → LFIAddrSpace L
  | [] => as
  | (start, len) :: ps => unmapped (as.mapped H start len LFI_PROT_NONE none) ps

/-- The address space after `mm_unmap`. -/
def dropped (as : LFIAddrSpace L) (addr size : Word) : LFIAddrSpace L :=
  match L.unmap as.mm addr size with
  | some (mm, _) => as.recording mm
  | none => as

/-- The ways through `lfi_as_mapat`. -/
inductive Mapat (addr size : Word) (prot : CInt) (hf : Option HostFile) (as : LFIAddrSpace L) :
    Res Stop Ev (LFIAddrSpace L) Word → Prop where
  | guard : ¬ InGuard as.info addr size →
    Mapat addr size prot hf as ⟨.error (.assertion .mapatRange), as, [.mapat addr size]⟩
  | full : InGuard as.info addr size → L.mapat as.mm addr size = none →
    Mapat addr size prot hf as ⟨.ok mapFailed, as, [.mapat addr size]⟩
  | stop {mm ps st} : InGuard as.info addr size → L.mapat as.mm addr size = some (mm, ps) →
    ¬ Unmaps H as.nmmap ps →
    Mapat addr size prot hf as ⟨.error (.assertion .cbunmap), st, [.mapat addr size]⟩
  | fail {mm ps} : InGuard as.info addr size → L.mapat as.mm addr size = some (mm, ps) →
    Unmaps H as.nmmap ps →
    H.mmap ((as.recording mm).unmapped H ps).nmmap addr size = false →
    Mapat addr size prot hf as
      ⟨.ok mapFailed, (((as.recording mm).unmapped H ps).refused H addr size).dropped addr size,
        [.mapat addr size]⟩
  | ok {mm ps} : InGuard as.info addr size → L.mapat as.mm addr size = some (mm, ps) →
    Unmaps H as.nmmap ps →
    H.mmap ((as.recording mm).unmapped H ps).nmmap addr size = true →
    Mapat addr size prot hf as
      ⟨.ok addr, ((as.recording mm).unmapped H ps).mapped H addr size prot hf, [.mapat addr size]⟩

/-- The ways through `lfi_as_mapany`. -/
inductive Mapany (size : Word) (prot : CInt) (hf : Option HostFile) (as : LFIAddrSpace L) :
    Res Stop Ev (LFIAddrSpace L) Word → Prop where
  | full : L.mapany as.mm size = none → Mapany size prot hf as ⟨.ok 0, as, []⟩
  | fail {mm addr} : L.mapany as.mm size = some (mm, addr) → H.mmap as.nmmap addr size = false →
    Mapany size prot hf as ⟨.ok mapFailed, ((as.recording mm).refused H addr size).dropped addr size, []⟩
  | ok {mm addr} : L.mapany as.mm size = some (mm, addr) → H.mmap as.nmmap addr size = true →
    Mapany size prot hf as ⟨.ok addr, (as.recording mm).mapped H addr size prot hf, []⟩

/-- The ways through `lfi_as_munmap`. -/
inductive Munmap (addr size : Word) (as : LFIAddrSpace L) :
    Res Stop Ev (LFIAddrSpace L) Int → Prop where
  | guard : ¬ (addr ≥ as.info.minaddr ∧ addr + size < as.info.maxaddr) →
    Munmap addr size as ⟨.ok (-1), as, []⟩
  | full : addr ≥ as.info.minaddr ∧ addr + size < as.info.maxaddr →
    L.unmap as.mm addr size = none → Munmap addr size as ⟨.ok (-1), as, [.munmap addr size]⟩
  | stop {mm ps st} : addr ≥ as.info.minaddr ∧ addr + size < as.info.maxaddr →
    L.unmap as.mm addr size = some (mm, ps) → ¬ Unmaps H as.nmmap ps →
    Munmap addr size as ⟨.error (.assertion .cbunmap), st, [.munmap addr size]⟩
  | ok {mm ps} : addr ≥ as.info.minaddr ∧ addr + size < as.info.maxaddr →
    L.unmap as.mm addr size = some (mm, ps) → Unmaps H as.nmmap ps →
    Munmap addr size as ⟨.ok 0, (as.recording mm).unmapped H ps, [.munmap addr size]⟩

end LFIAddrSpace

variable {H}

/-- A run of unmappings ends well exactly when the host accepts each of them. -/
lemma cbunmaps_run (ps : List (Word × Word)) (as : LFIAddrSpace L) :
    (Unmaps H as.nmmap ps ∧ (cbunmaps H ps).run as = ⟨.ok (), as.unmapped H ps, []⟩) ∨
    (¬ Unmaps H as.nmmap ps ∧
      ∃ st, (cbunmaps H ps).run as = ⟨.error (.assertion .cbunmap), st, []⟩) := by
  induction ps generalizing as with
  | nil => exact .inl ⟨trivial, rfl⟩
  | cons p ps ih =>
    obtain ⟨start, len⟩ := p
    by_cases hok : H.mmap as.nmmap start len = true
    · have hrun : (cbunmaps H ((start, len) :: ps)).run as =
          (cbunmaps H ps).run (as.mapped H start len LFI_PROT_NONE none) := by
        simp [cbunmaps, cbunmap, hostMmap, hok, Exec.check_run]
      rw [hrun]
      rcases ih (as.mapped H start len LFI_PROT_NONE none) with ⟨hu, hr⟩ | ⟨hu, hr⟩
      · exact .inl ⟨⟨hok, hu⟩, hr⟩
      · exact .inr ⟨fun h => hu h.2, hr⟩
    · refine .inr ⟨fun h => hok h.1, as.refused H start len, ?_⟩
      simp [cbunmaps, cbunmap, hostMmap, hok, Exec.check_run]

/-- `asmap` is one host call: it fails with a negative number, or maps the range. -/
lemma asmap_run (addr size : Word) (prot : CInt) (hf : Option HostFile) (as : LFIAddrSpace L) :
    (H.mmap as.nmmap addr size = false ∧
      ∃ r, r < 0 ∧ (asmap H addr size prot hf).run as = ⟨.ok r, as.refused H addr size, []⟩) ∨
    (H.mmap as.nmmap addr size = true ∧
      (asmap H addr size prot hf).run as = ⟨.ok 0, as.mapped H addr size prot hf, []⟩) := by
  by_cases hok : H.mmap as.nmmap addr size
  · right
    refine ⟨hok, ?_⟩
    simp [asmap, hostMmap, hok]
  · left
    refine ⟨eq_false_of_ne_true hok, -(H.errno as.nmmap), ?_, ?_⟩
    · have := H.errno_pos as.nmmap
      omega
    · simp [asmap, hostMmap, hok]

/-- A record is dropped, if libmmap has it. -/
lemma mmUnmap_run (addr size : Word) (as : LFIAddrSpace L) :
    (mmUnmap addr size).run as = ⟨.ok (), as.dropped addr size, []⟩ := by
  simp only [mmUnmap, Exec.modify_run, LFIAddrSpace.dropped]
  cases L.unmap as.mm addr size with
  | none => rfl
  | some r => rfl

/-- A run of `lfi_as_mapat` takes one of its ways. -/
lemma lfiAsMapat_inv (addr size : Word) (prot : CInt) (hf : Option HostFile) (as : LFIAddrSpace L) :
    as.Mapat H addr size prot hf ((lfiAsMapat H addr size prot hf).run as) := by
  by_cases hg : InGuard as.info addr size
  · have hg' : addr ≥ as.info.minaddr ∧ addr + size ≤ as.info.maxaddr := hg
    unfold lfiAsMapat
    simp only [Exec.bind_run, Exec.get_run, Exec.andThen_ok, Exec.tell_run, Exec.check_run, hg',
      and_self, if_true, List.nil_append, List.cons_append]
    cases hm : L.mapat as.mm addr size with
    | none => exact .full hg hm
    | some r =>
      obtain ⟨mm, ps⟩ := r
      rcases cbunmaps_run (H := H) ps (as.recording mm) with ⟨hu, hr⟩ | ⟨hu, st, hr⟩
      · simp only [LFIAddrSpace.recording] at hr
        rcases asmap_run (H := H) addr size prot hf ((as.recording mm).unmapped H ps) with
          ⟨hno, r, hneg, ha⟩ | ⟨hok, ha⟩
        · simp only [LFIAddrSpace.recording] at ha
          simp only [Exec.modify_run, hr, ha, hneg, if_true, mmUnmap_run, Exec.andThen_ok_nil,
            Exec.bind_run, Exec.pure_run]
          exact .fail hg hm hu hno
        · simp only [LFIAddrSpace.recording] at ha
          simp only [Exec.modify_run, hr, ha, lt_irrefl, if_false, Exec.andThen_ok_nil, Exec.bind_run,
            Exec.pure_run]
          exact .ok hg hm hu hok
      · simp only [LFIAddrSpace.recording] at hr
        simp only [Exec.modify_run, hr, Exec.andThen_ok_nil, Exec.andThen_error, Exec.bind_run]
        exact .stop hg hm hu
  · have hr : (lfiAsMapat H addr size prot hf).run as =
        ⟨.error (.assertion .mapatRange), as, [.mapat addr size]⟩ := by
      simp [lfiAsMapat, Exec.check_run, show ¬ (_ ∧ _) from hg]
    rw [hr]
    exact .guard hg

/-- A run of `lfi_as_mapany` takes one of its ways. -/
lemma lfiAsMapany_inv (size : Word) (prot : CInt) (hf : Option HostFile) (as : LFIAddrSpace L) :
    as.Mapany H size prot hf ((lfiAsMapany H size prot hf).run as) := by
  unfold lfiAsMapany
  simp only [Exec.bind_run, Exec.get_run, Exec.andThen_ok_nil]
  cases hm : L.mapany as.mm size with
  | none => exact .full hm
  | some r =>
    obtain ⟨mm, addr⟩ := r
    rcases asmap_run (H := H) addr size prot hf (as.recording mm) with ⟨hno, r, hneg, ha⟩ | ⟨hok, ha⟩
    · simp only [LFIAddrSpace.recording] at ha
      simp only [Exec.modify_run, ha, hneg, if_true, mmUnmap_run, Exec.andThen_ok_nil, Exec.bind_run,
        Exec.pure_run]
      exact .fail hm hno
    · simp only [LFIAddrSpace.recording] at ha
      simp only [Exec.modify_run, ha, lt_irrefl, if_false, Exec.andThen_ok_nil, Exec.bind_run,
        Exec.pure_run]
      exact .ok hm hok

/-- A run of `lfi_as_munmap` takes one of its ways. -/
lemma lfiAsMunmap_inv (addr size : Word) (as : LFIAddrSpace L) :
    as.Munmap H addr size ((lfiAsMunmap H addr size).run as) := by
  rw [lfiAsMunmap, Exec.get_ite_run]
  by_cases hg : addr ≥ as.info.minaddr ∧ addr + size < as.info.maxaddr
  · rw [if_pos hg, Exec.bind_run, Exec.tell_run, Exec.andThen_ok]
    cases hm : L.unmap as.mm addr size with
    | none => exact .full hg hm
    | some r =>
      obtain ⟨mm, ps⟩ := r
      rcases cbunmaps_run (H := H) ps (as.recording mm) with ⟨hu, hr⟩ | ⟨hu, st, hr⟩
      · simp only [LFIAddrSpace.recording] at hr
        simp only [Exec.modify_run, hr, Exec.andThen_ok_nil, Exec.bind_run, Exec.pure_run]
        exact .ok hg hm hu
      · simp only [LFIAddrSpace.recording] at hr
        simp only [Exec.modify_run, hr, Exec.andThen_ok_nil, Exec.andThen_error, Exec.bind_run]
        exact .stop hg hm hu
  · rw [if_neg hg, Exec.pure_run]
    exact .guard hg

/-! ## What a mapping leaves alone -/

/-- The pages of a piece the host accepted are not below the piece. -/
lemma not_covers_of_lt {addr len x : Word} (ha : H.pagesize.toNat ∣ addr.toNat)
    (hx : x.toNat < addr.toNat) : ¬ covers H.pagesize addr len x := by
  rintro ⟨_, _, hlt⟩
  obtain ⟨a, ha⟩ := ha
  rw [ha, Nat.mul_comm] at hlt
  have hle : a ≤ x.toNat / H.pagesize.toNat := Nat.lt_succ_iff.mp (Nat.lt_of_mul_lt_mul_right hlt)
  have hmul := Nat.mul_le_mul_left H.pagesize.toNat hle
  have hdiv := Nat.mul_div_le x.toNat H.pagesize.toNat
  omega

/-- Unmapping pieces changes nothing below the lowest of them. -/
lemma LFIAddrSpace.unmapped_below {ps : List (Word × Word)} (as : LFIAddrSpace L) {lo : Nat}
    (hu : Unmaps H as.nmmap ps) (hlo : ∀ p ∈ ps, lo ≤ p.1.toNat) {x : Word} (hx : x.toNat < lo) :
    (as.unmapped H ps).mem x = as.mem x ∧ (as.unmapped H ps).prot x = as.prot x := by
  induction ps generalizing as with
  | nil => exact ⟨rfl, rfl⟩
  | cons p ps ih =>
    have hp := hlo p (List.mem_cons_self ..)
    have hno : ¬ covers H.pagesize p.1 p.2 x :=
      not_covers_of_lt (H.mmap_aligned hu.1) (lt_of_lt_of_le hx hp)
    obtain ⟨hmem, hprot⟩ := ih (as.mapped H p.1 p.2 LFI_PROT_NONE none) hu.2
      (fun q hq => hlo q (List.mem_cons_of_mem _ hq))
    refine ⟨hmem.trans ?_, hprot.trans ?_⟩
    · exact if_neg hno
    · exact if_neg hno

/-- Unmapping pieces of a range changes nothing outside its pages. -/
lemma LFIAddrSpace.unmapped_outside {ps : List (Word × Word)} (as : LFIAddrSpace L) {addr size : Word}
    (hps : ∀ p ∈ ps, addr.toNat ≤ p.1.toNat ∧ p.1.toNat + p.2.toNat ≤ addr.toNat + size.toNat)
    {x : Word} (hx : ¬ covers H.pagesize addr size x) :
    (as.unmapped H ps).mem x = as.mem x ∧ (as.unmapped H ps).prot x = as.prot x := by
  induction ps generalizing as with
  | nil => exact ⟨rfl, rfl⟩
  | cons p ps ih =>
    obtain ⟨hlo, hhi⟩ := hps p (List.mem_cons_self ..)
    have hno : ¬ covers H.pagesize p.1 p.2 x := fun hc => hx (covers_mono hlo hhi hc)
    obtain ⟨hmem, hprot⟩ := ih (as.mapped H p.1 p.2 LFI_PROT_NONE none)
      (fun q hq => hps q (List.mem_cons_of_mem _ hq))
    refine ⟨hmem.trans ?_, hprot.trans ?_⟩
    · exact if_neg hno
    · exact if_neg hno

/-- What the callers of `lfi_as_mapat` may rely on: it aborts at one of its two assertions, or it fails
and leaves everything below its start and everything outside its pages alone, or exactly the pages of
its range are fresh. -/
lemma lfiAsMapat_spec (addr size : Word) (prot : CInt) (as : LFIAddrSpace L) :
    (∃ a st, (a = .mapatRange ∨ a = .cbunmap) ∧
      (lfiAsMapat H addr size prot none).run as = ⟨.error (.assertion a), st, [.mapat addr size]⟩) ∨
    (∃ st, st.info = as.info ∧
      (∀ x : Word, x.toNat < addr.toNat ∨ ¬ covers H.pagesize addr size x →
        st.mem x = as.mem x ∧ st.prot x = as.prot x) ∧
      (lfiAsMapat H addr size prot none).run as = ⟨.ok mapFailed, st, [.mapat addr size]⟩) ∨
    (∃ st, H.pagesize.toNat ∣ addr.toNat ∧ addr.toNat + size.toNat < 2 ^ 64 ∧
      InGuard as.info addr size ∧ FreshAt H addr size prot as st ∧
      (lfiAsMapat H addr size prot none).run as = ⟨.ok addr, st, [.mapat addr size]⟩) := by
  rcases lfiAsMapat_cases (H := H) addr size prot as with
    ⟨_, hr⟩ | ⟨_, st, hinfo, hr | hr⟩ | ⟨hg, ha, htop, st, hfresh, hr⟩
  · exact .inl ⟨.mapatRange, as, .inl rfl, hr⟩
  · refine .inr (.inl ⟨st, hinfo, ?_, hr⟩)
    have hinv := lfiAsMapat_inv (H := H) addr size prot none as
    rw [hr] at hinv
    intro x hx
    generalize hres : (Res.mk (.ok mapFailed) st [Ev.mapat addr size] : Res Stop _ _ _) = r at hinv
    have below : ∀ {mm ps}, L.mapat as.mm addr size = some (mm, ps) → Unmaps H as.nmmap ps →
        ((as.recording mm).unmapped H ps).mem x = as.mem x ∧
          ((as.recording mm).unmapped H ps).prot x = as.prot x :=
      fun {mm ps} hm hu => hx.elim
        (LFIAddrSpace.unmapped_below (as.recording mm) hu
          fun p hp => (L.mapat_piece hm (b := p.1) (n := p.2) hp).1)
        (LFIAddrSpace.unmapped_outside (as.recording mm)
          fun p hp => L.mapat_piece hm (b := p.1) (n := p.2) hp)
    cases hinv with
    | guard _ => cases hres
    | full _ _ =>
      cases hres
      exact ⟨rfl, rfl⟩
    | stop _ _ _ => cases hres
    | @fail mm ps _ hm hu _ =>
      cases hres
      have hb := below hm hu
      have hno : ¬ LFIAddrSpace.Lost H ((as.recording mm).unmapped H ps) addr size x := fun hl =>
        hx.elim (fun hlt => not_covers_of_lt (H.removed_aligned hl.2) hlt hl.1) fun hc => hc hl.1
      have hr : (((as.recording mm).unmapped H ps).refused H addr size).mem x = as.mem x ∧
          (((as.recording mm).unmapped H ps).refused H addr size).prot x = as.prot x :=
        ⟨(if_neg hno).trans hb.1, (if_neg hno).trans hb.2⟩
      simp only [LFIAddrSpace.dropped]
      split
      · exact hr
      · exact hr
    | @ok mm ps _ hm hu hok =>
      cases hres
      have hb := below hm hu
      have hno : ¬ covers H.pagesize mapFailed size x :=
        hx.elim (not_covers_of_lt (H.mmap_aligned hok)) id
      exact ⟨(if_neg hno).trans hb.1, (if_neg hno).trans hb.2⟩
  · exact .inl ⟨.cbunmap, st, .inr rfl, hr⟩
  · exact .inr (.inr ⟨st, ha, htop, hg, hfresh, hr⟩)

end Libtux
