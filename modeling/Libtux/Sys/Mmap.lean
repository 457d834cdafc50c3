import Libtux.Pal.Release
import Libtux.Sys.Abort
import Libtux.Sys.Confine

/-!
# What `mmap` returns

`sys_mmap` returns an error number or the address of pages that are now the guest's (`MmapContract`). A failure
has a code of its own in each of the layers below: libmmap's `-1` becomes the `0` of `lfi_as_mapany`, and
`procmapany` only knows the `-1` that `lfi_as_mapany` returns when the host refuses. So when libmmap has no room
left, `sys_mmap` returns `0` as the address of a mapping; otherwise the contract is kept (`mmap_contract_iff`).
The rounding of the length may wrap to `0`, which the host refuses.
-/

namespace Libtux
open Lib

/-! ## Rounding to pages -/

/-- `n` rounded up to a multiple of `P`, without wrapping. -/
def pageUp (P : Word) (n : Word) : Nat := (n.toNat + P.toNat - 1) / P.toNat * P.toNat

/-- `ceilp` rounds up, or wraps to `0`. -/
lemma ceilp_pageUp {P n : Word} {k : Nat} (hk : P.toNat = 2 ^ k) :
    (ceilp n P).toNat = pageUp P n ∨ (ceilp n P = 0 ∧ 2 ^ 64 ≤ n.toNat + P.toNat - 1) := by
  have hpos : 0 < P.toNat := hk ▸ Nat.two_pow_pos k
  have hk64 : k ≤ 64 := by
    have := P.isLt
    rw [hk] at this
    exact ((Nat.pow_lt_pow_iff_right (by omega)).mp this).le
  have hdvd : P.toNat ∣ (ceilp n P).toNat := by
    rw [hk]
    exact dvd_ceilp hk64 (by rw [hk])
  have hmask : (P - 1).toNat = P.toNat - 1 := by bv_omega
  have hle := ceilp_le n P
  have hge : (n + (P - 1)).toNat ≤ (ceilp n P).toNat + (P - 1).toNat :=
    toNat_le_and_not_add (n + (P - 1)) (P - 1)
  rw [BitVec.toNat_add, hmask] at hle hge
  by_cases hw : n.toNat + P.toNat - 1 < 2 ^ 64
  · left
    rw [Nat.mod_eq_of_lt (by omega)] at hle hge
    obtain ⟨c, hc⟩ := hdvd
    have hdiv : (n.toNat + P.toNat - 1) / P.toNat = c := by
      rw [Nat.div_eq_iff hpos]
      rw [hc, Nat.mul_comm] at hle hge
      omega
    rw [pageUp, hdiv, hc, Nat.mul_comm]
  · right
    refine ⟨BitVec.eq_of_toNat_eq ?_, by omega⟩
    have hn := n.isLt
    have hP := P.isLt
    rw [show n.toNat + (P.toNat - 1) = (n.toNat + P.toNat - 1 - 2 ^ 64) + 2 ^ 64 by omega,
      Nat.add_mod_right, Nat.mod_eq_of_lt (by omega)] at hle
    exact Nat.eq_zero_of_dvd_of_lt hdvd (by omega)

section
variable {L : LibMMap} {M : Machine} (H : HostVm) (opts : TuxOptions) (recorded : L.Table → Word → Prop)

/-- The pages of a mapping of `length` bytes at `a`. -/
def MmapSpan (a length x : Word) : Prop :=
  a.toNat ≤ x.toNat ∧ x.toNat < a.toNat + pageUp opts.pagesize length

/-- `a` is the address of a mapping of `length` bytes, made by a call in the state `w` that left `w'`. -/
structure Mmapped (w w' : World L M) (length a : Word) (prot flags : CInt) : Prop where
  aligned : opts.pagesize.toNat ∣ a.toNat
  inside : w.info.minaddr.toNat ≤ a.toNat ∧
    a.toNat + pageUp opts.pagesize length ≤ w.info.maxaddr.toNat
  records : ∀ x, MmapSpan opts a length x → recorded w'.p.as.mm x
  prot : ∀ x, MmapSpan opts a length x → w'.p.as.prot x = mmapprot prot
  free : flags &&& LFI_MAP_FIXED = 0 → ∀ x, MmapSpan opts a length x → ¬ recorded w.p.as.mm x

/-- What `sys_mmap` should return. -/
def MmapContract (w : World L M) (addr length : Word) (prot flags fd : CInt) : Prop :=
  ∀ v, ((sysMmap H opts addr length prot flags fd).run w).val = .ok v →
    IsErr v ∨ Mmapped opts recorded w ((sysMmap H opts addr length prot flags fd).run w).st length v prot flags

/-- libmmap is asked for a free range and has none. -/
structure Exhausted (w : World L M) (length : Word) (flags fd : CInt) : Prop where
  pos : length ≠ 0
  legal : flags &&& ~~~mmapLegal = 0
  any : flags &&& LFI_MAP_FIXED = 0
  file : w.Mappable fd
  full : L.mapany w.p.as.mm (ceilp length opts.pagesize) = none

end

section
variable {L : LibMMap} {M : Machine} {H : HostVm} {opts : TuxOptions} {recorded : L.Table → Word → Prop}

/-- A descriptor that cannot be mapped is an error. -/
lemma mapfile_err {fd : CInt} {w : World L M} (h : ¬ w.Mappable fd) :
    ∃ e, IsErr e ∧ (mapfile fd).run w = ⟨.ok (.error e), w, []⟩ := by
  rw [World.Mappable, not_or] at h
  obtain ⟨hneg, hfile⟩ := h
  rw [mapfile, Exec.get_ite_run, if_neg hneg]
  cases hf : w.fdfile fd with
  | none => exact ⟨_, isErr_negErr (by decide) (by decide), Exec.pure_run _ _⟩
  | some f =>
    dsimp only
    rw [Exec.ite_run, if_neg fun hh => hfile ⟨f, hf, hh⟩]
    exact ⟨_, isErr_negErr (by decide) (by decide), Exec.pure_run _ _⟩

/-- `[a, a + size)` was mapped with the protection `prot`, in the call that left `as'`. -/
structure RangeMapped (H : HostVm) (recorded : L.Table → Word → Prop) (as as' : LFIAddrSpace L) (a size : Word)
    (prot : CInt) : Prop where
  inside : as.info.minaddr.toNat ≤ a.toNat ∧ a.toNat + size.toNat ≤ as.info.maxaddr.toNat
  granted : ∃ n, H.mmap n a size = true
  records : ∀ x, InSpan a size x → recorded as'.mm x
  prot : ∀ x, InSpan a size x → as'.prot x = mmapprot prot

/-- `lfi_as_mapat` fails, or maps its range. -/
lemma lfiAsMapat_maps (hL : L.Books recorded) {a size v : Word} {prot : CInt} {hf : Option HostFile}
    {as : LFIAddrSpace L} (hv : ((lfiAsMapat H a size prot hf).run as).val = .ok v) :
    v = mapFailed ∨
      RangeMapped H recorded as ((lfiAsMapat H a size prot hf).run as).st a size prot := by
  have hinv := lfiAsMapat_inv (H := H) a size prot hf as
  generalize (lfiAsMapat H a size prot hf).run as = r at hinv hv
  cases hinv with
  | guard _ => cases hv
  | full _ _ => exact .inl (Except.ok.inj hv).symm
  | stop _ _ _ => cases hv
  | fail _ _ _ => exact .inl (Except.ok.inj hv).symm
  | @ok mm ps hg hm _ hok =>
    refine .inr ⟨⟨hg.1, ?_⟩, ⟨_, hok⟩, fun x hx => ?_, fun x hx => ?_⟩
    · have hhi := hg.2
      rwa [BitVec.le_def, BitVec.toNat_add, Nat.mod_eq_of_lt (H.mmap_top hok)] at hhi
    · change recorded ((as.recording mm).unmapped H ps).mm x
      rw [LFIAddrSpace.unmapped_mm]
      exact (hL.mapat hm x).mpr (.inl hx)
    · exact if_pos (hx.covers H.pagesize_pos)

/-- `lfi_as_mapany` finds no room, or fails, or maps a range that was free. -/
lemma lfiAsMapany_maps (hL : L.Books recorded) {size v : Word} {prot : CInt} {hf : Option HostFile}
    {as : LFIAddrSpace L} (hw : L.Windowed as.info as.mm)
    (hv : ((lfiAsMapany H size prot hf).run as).val = .ok v) :
    (v = 0 ∧ L.mapany as.mm size = none) ∨ v = mapFailed ∨
      ((∃ mm, L.mapany as.mm size = some (mm, v)) ∧ (∀ x, InSpan v size x → ¬ recorded as.mm x) ∧
        RangeMapped H recorded as ((lfiAsMapany H size prot hf).run as).st v size prot) := by
  have hinv := lfiAsMapany_inv (H := H) size prot hf as
  generalize (lfiAsMapany H size prot hf).run as = r at hinv hv
  cases hinv with
  | full hm => exact .inl ⟨(Except.ok.inj hv).symm, hm⟩
  | fail _ => exact .inr (.inl (Except.ok.inj hv).symm)
  | @ok mm addr hm hok =>
    obtain rfl := Except.ok.inj hv
    refine .inr (.inr ⟨⟨mm, hm⟩, hL.mapany_free hm, hw.mapany hm, ⟨_, hok⟩, fun x hx => ?_, fun x hx => ?_⟩)
    · exact (hL.mapany hm x).mpr (.inl hx)
    · exact if_pos (hx.covers H.pagesize_pos)

/-- The mapping of a rounded length is a mapping of the length: the host refuses a length that wrapped. -/
lemma RangeMapped.mmapped {w w' : World L M} {length a : Word} {prot flags : CInt} {k : Nat}
    (hk : opts.pagesize.toNat = 2 ^ k) (hz : ∀ n addr, H.mmap n addr 0 = false)
    (rm : RangeMapped H recorded w.p.as w'.p.as a (ceilp length opts.pagesize) prot)
    (hal : opts.pagesize.toNat ∣ a.toNat)
    (hfree : flags &&& LFI_MAP_FIXED = 0 →
      ∀ x, InSpan a (ceilp length opts.pagesize) x → ¬ recorded w.p.as.mm x) :
    Mmapped opts recorded w w' length a prot flags := by
  obtain hup | ⟨h0, -⟩ := ceilp_pageUp (n := length) hk
  · have hspan : ∀ x, MmapSpan opts a length x ↔ InSpan a (ceilp length opts.pagesize) x := by
      intro x
      rw [MmapSpan, InSpan, hup]
    have hinside := rm.inside
    rw [hup] at hinside
    exact ⟨hal, hinside, fun x hx => rm.records x ((hspan x).mp hx), fun x hx => rm.prot x ((hspan x).mp hx),
      fun h x hx => hfree h x ((hspan x).mp hx)⟩
  · obtain ⟨n, hn⟩ := rm.granted
    rw [h0, hz] at hn
    cases hn

/-- What a mapping call returns. -/
lemma mapOrErr_ok {x : Vm L Word} {f : Word → Word} {w : World L M} {v : Word}
    (hv : ((onSpace x >>= fun a => if a = mapFailed then pure (negErr TUX_EINVAL) else pure (f a) : Sys L M Word).run
      w).val = .ok v) :
    ∃ a, (x.run w.p.as).val = .ok a ∧ (v = if a = mapFailed then negErr TUX_EINVAL else f a) ∧
      ((onSpace x >>= fun a => if a = mapFailed then pure (negErr TUX_EINVAL) else pure (f a) : Sys L M Word).run
        w).st.p.as = (x.run w.p.as).st := by
  obtain ⟨a, ha, hv, hst, -⟩ := Exec.bind_ok hv
  rw [onSpace_run] at ha hv hst
  rw [hst]
  refine ⟨a, ha, ?_⟩
  rw [Exec.ite_run] at hv ⊢
  split <;> rename_i hfail
  · rw [if_pos hfail] at hv
    exact ⟨(Except.ok.inj hv).symm, rfl⟩
  · rw [if_neg hfail] at hv
    exact ⟨(Except.ok.inj hv).symm, rfl⟩

/-- The descriptor of a mapping: an error, or a file for the rest of the call. -/
lemma mapfile_ends (fd : CInt) (w : World L M) :
    (¬ w.Mappable fd ∧ ∃ e, IsErr e ∧ (mapfile fd).run w = ⟨.ok (.error e), w, []⟩) ∨
    (w.Mappable fd ∧ ∃ hf, (mapfile fd).run w = ⟨.ok (.ok hf), w, []⟩) := by
  by_cases h : w.Mappable fd
  · exact .inr ⟨h, ((mapfile_run fd w).resolve_left fun hno => hno.1 h).2⟩
  · exact .inl ⟨h, mapfile_err h⟩

/-- A fixed mapping keeps the contract. -/
lemma procmapat_contract (hL : L.Books recorded) {w : World L M} {k : Nat}
    (hk : opts.pagesize.toNat = 2 ^ k) (hz : ∀ n addr, H.mmap n addr 0 = false)
    {start length v : Word} {prot flags fd : CInt} (hal : opts.pagesize.toNat ∣ start.toNat)
    (hfixed : flags &&& LFI_MAP_FIXED ≠ 0)
    (hv : ((procmapat H start (ceilp length opts.pagesize) prot fd).run w).val = .ok v) :
    IsErr v ∨ Mmapped opts recorded w
      ((procmapat H start (ceilp length opts.pagesize) prot fd).run w).st length v prot flags := by
  rw [procmapat, Exec.bind_run] at hv ⊢
  obtain ⟨-, e, he, hr⟩ | ⟨-, hf, hr⟩ := mapfile_ends fd w
  · rw [hr, Exec.andThen_ok_nil, Exec.pure_run] at hv
    obtain rfl := Except.ok.inj hv
    exact .inl he
  · rw [hr, Exec.andThen_ok_nil] at hv ⊢
    dsimp only at hv ⊢
    obtain ⟨a, ha, rfl, hst⟩ := mapOrErr_ok (f := fun _ => start) hv
    split <;> rename_i hfail
    · exact .inl (isErr_negErr (by decide) (by decide))
    · obtain hno | rm := lfiAsMapat_maps hL ha
      · exact absurd hno hfail
      · rw [← hst] at rm
        exact .inr (rm.mmapped hk hz hal fun h0 => absurd h0 hfixed)

/-- A mapping anywhere keeps the contract, unless libmmap has no room. -/
lemma procmapany_contract (hL : L.Books recorded) {w : World L M} (hw : L.Windowed w.info w.p.as.mm)
    (hal : ∀ {t size addr}, L.mapany w.p.as.mm size = some (t, addr) → opts.pagesize.toNat ∣ addr.toNat)
    {k : Nat} (hk : opts.pagesize.toNat = 2 ^ k) (hz : ∀ n addr, H.mmap n addr 0 = false)
    {length v : Word} {prot flags fd : CInt}
    (hv : ((procmapany H (ceilp length opts.pagesize) prot fd).run w).val = .ok v) :
    (v = 0 ∧ w.Mappable fd ∧ L.mapany w.p.as.mm (ceilp length opts.pagesize) = none) ∨ IsErr v ∨
      Mmapped opts recorded w
        ((procmapany H (ceilp length opts.pagesize) prot fd).run w).st length v prot flags := by
  rw [procmapany, Exec.bind_run] at hv ⊢
  obtain ⟨-, e, he, hr⟩ | ⟨hfile, hf, hr⟩ := mapfile_ends fd w
  · rw [hr, Exec.andThen_ok_nil, Exec.pure_run] at hv
    obtain rfl := Except.ok.inj hv
    exact .inr (.inl he)
  · rw [hr, Exec.andThen_ok_nil] at hv ⊢
    dsimp only at hv ⊢
    obtain ⟨a, ha, rfl, hst⟩ := mapOrErr_ok (f := fun a => a) hv
    split <;> rename_i hfail
    · exact .inr (.inl (isErr_negErr (by decide) (by decide)))
    · obtain ⟨h0, hnone⟩ | hno | ⟨⟨mm, hmm⟩, hfree, rm⟩ := lfiAsMapany_maps hL hw ha
      · exact .inl ⟨h0, hfile, hnone⟩
      · exact absurd hno hfail
      · rw [← hst] at rm
        exact .inr (.inr (rm.mmapped hk hz (hal hmm) fun _ => hfree))

/-- Without room `procmapany` returns `0`. -/
lemma procmapany_full {w : World L M} {size : Word} {prot fd : CInt} (hfile : w.Mappable fd)
    (hm : L.mapany w.p.as.mm size = none) : ((procmapany H size prot fd).run w).val = .ok 0 := by
  rw [procmapany, Exec.bind_run]
  obtain ⟨hno, -⟩ | ⟨-, hf, hr⟩ := mapfile_ends fd w
  · exact absurd hfile hno
  · rw [hr, Exec.andThen_ok_nil]
    dsimp only
    have hinv := lfiAsMapany_inv (H := H) size prot hf w.p.as
    rw [Exec.bind_run, onSpace_run]
    generalize (lfiAsMapany H size prot hf).run w.p.as = r at hinv
    cases hinv with
    | full _ =>
      rw [Exec.andThen_ok_nil, Exec.ite_run, if_neg (by decide)]
      rfl
    | fail hm' =>
      rw [hm] at hm'
      cases hm'
    | ok hm' _ =>
      rw [hm] at hm'
      cases hm'

/-- What `sys_mmap` returns keeps the contract exactly when libmmap is not asked for a range it does not have. -/
theorem mmap_contract_iff (hL : L.Books recorded) {w : World L M} (hw : L.Windowed w.info w.p.as.mm)
    (hal : ∀ {t size addr}, L.mapany w.p.as.mm size = some (t, addr) → opts.pagesize.toNat ∣ addr.toNat)
    {k : Nat} (hk : opts.pagesize.toNat = 2 ^ k) (hz : ∀ n addr, H.mmap n addr 0 = false)
    (hpg : w.info.pagesize.toNat ≤ 2 ^ 20) (addr length : Word) (prot flags fd : CInt) :
    MmapContract H opts recorded w addr length prot flags fd ↔ ¬ Exhausted opts w length flags fd := by
  have herr : ∀ {e}, 0 < e → e < 4096 → ∀ {v}, ((pure (negErr e) : Sys L M Word).run w).val = .ok v → IsErr v := by
    rintro e h0 hlt v hv
    rw [Exec.pure_run] at hv
    obtain rfl := Except.ok.inj hv
    exact isErr_negErr h0 hlt
  unfold MmapContract
  by_cases hlen : length = 0
  · refine iff_of_true (fun v hv => .inl ?_) fun h => h.pos hlen
    rw [sysMmap, Exec.ite_run, if_pos hlen] at hv
    exact herr (by decide) (by decide) hv
  by_cases hlegal : flags &&& ~~~mmapLegal = 0
  case neg =>
    refine iff_of_true (fun v hv => .inl ?_) fun h => hlegal h.legal
    rw [sysMmap, Exec.ite_run, if_neg hlen] at hv
    dsimp only at hv
    rw [Exec.ite_run, if_pos hlegal] at hv
    exact herr (by decide) (by decide) hv
  have hrun : (sysMmap H opts addr length prot flags fd).run w =
      if flags &&& LFI_MAP_FIXED ≠ 0 then
        (procmapat H (procaddr (truncp addr opts.pagesize)) (ceilp length opts.pagesize) prot fd).run w
      else (procmapany H (ceilp length opts.pagesize) prot fd).run w := by
    rw [sysMmap, Exec.ite_run, if_neg hlen]
    dsimp only
    rw [Exec.ite_run, if_neg (not_not.mpr hlegal), Exec.ite_run]
  rw [hrun]
  by_cases hany : flags &&& LFI_MAP_FIXED = 0
  case neg =>
    rw [if_pos hany]
    have hk64 : k ≤ 64 := by
      have := opts.pagesize.isLt
      rw [hk] at this
      exact ((Nat.pow_lt_pow_iff_right (by omega)).mp this).le
    have hstart : opts.pagesize.toNat ∣ (procaddr (truncp addr opts.pagesize)).toNat := by
      rw [hk]
      exact dvd_truncp hk64 (by rw [hk])
    exact iff_of_true (fun v hv => procmapat_contract hL hk hz hstart hany hv) fun h => hany h.any
  rw [if_neg (not_not.mpr hany)]
  constructor
  · intro h ex
    obtain he | hm := h 0 (procmapany_full ex.file ex.full)
    · unfold IsErr at he
      rw [show (0 : Word).toNat = 0 from rfl] at he
      omega
    · -- no mapping starts at `0`
      have hlo := hm.inside.1
      rw [w.info.minaddr_toNat (by omega), show (0 : Word).toNat = 0 from rfl] at hlo
      omega
  · intro hno v hv
    have hends : _ ∨ _ ∨ Mmapped opts recorded w _ length v prot flags := procmapany_contract hL hw hal hk hz hv
    obtain ⟨-, hfile, hfull⟩ | h := hends
    · exact absurd ⟨hlen, hlegal, hany, hfile, hfull⟩ hno
    · exact h

end
/-- A host that refuses a mapping of no bytes. -/
def HostVm.strict : HostVm :=
  { HostVm.open with
    mmap := fun n addr len => decide (len ≠ 0) && HostVm.open.mmap n addr len
    mmap_aligned := fun h => HostVm.open.mmap_aligned (Bool.and_eq_true_iff.mp h).2
    mmap_top := fun h => HostVm.open.mmap_top (Bool.and_eq_true_iff.mp h).2 }

/-- A process before anything is mapped. -/
def World.unmapped : World .ofRanges .x64 := .ofThread (procnewfile (.fresh .plain) 10000)

/-- One anonymous page in an empty address space. -/
theorem mmap_contract_page : MmapContract .strict .plain Ranges.Recorded World.unmapped 0 4096 1 34 (-1) := by
  have hw : LibMMap.ofRanges.Windowed World.unmapped.info World.unmapped.p.as.mm :=
    Ranges.windowed rfl rfl fun _ hr => by cases hr
  have hfind : ∀ {t size addr}, LibMMap.ofRanges.mapany World.unmapped.p.as.mm size = some (t, addr) →
      TuxOptions.plain.pagesize.toNat ∣ addr.toNat := by
    intro t size addr h
    simp only [LibMMap.ofRanges, Option.map_eq_some_iff, Ranges.find] at h
    obtain ⟨_, ⟨b, hb, rfl⟩, heq⟩ := h
    obtain rfl := List.mem_singleton.mp (List.mem_of_find?_eq_some hb)
    obtain ⟨-, rfl⟩ := Prod.mk.inj heq
    decide
  have hk : TuxOptions.plain.pagesize.toNat = 2 ^ 12 := rfl
  have hz : ∀ n addr, HostVm.strict.mmap n addr 0 = false := fun _ _ => rfl
  refine (mmap_contract_iff LibMMap.ofRanges_books hw hfind hk hz (by decide) 0 4096 1 34 (-1)).mpr fun h => ?_
  have hfull := h.full
  revert hfull
  decide +kernel

/-- More bytes than an address space has: `sys_mmap` returns the address `0`. -/
theorem mmap_exhausted :
    ((sysMmap .strict .plain 0 (gb 8) 1 34 (-1)).run World.unmapped).val = .ok 0 ∧
    ¬ MmapContract .strict .plain Ranges.Recorded World.unmapped 0 (gb 8) 1 34 (-1) := by
  have hval : ((sysMmap .strict .plain 0 (gb 8) 1 34 (-1)).run World.unmapped).val = .ok 0 := by
    decide +kernel
  refine ⟨hval, fun h => ?_⟩
  obtain he | hm := h 0 hval
  · unfold IsErr at he
    revert he
    decide
  · have hlo := hm.inside.1
    revert hlo
    decide

end Libtux
