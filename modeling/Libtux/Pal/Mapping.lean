import Libtux.Pal.Vm

/-!
# What the mapping calls do

Specifications of `lfi_as_mapat` and `lfi_as_mprotect`, the two calls the loader makes. On success
`lfi_as_mapat` leaves exactly the pages of its range fresh (`lfiAsMapat_ok`): the pieces libmmap
calls back on are unmapped first, but they lie inside the range, so the mapping that follows hides
them. `lfi_as_mprotect` never reports a failure of the host with a negative number
(`lfiAsMprotect_ok`), since `tuxerr` returns a positive error number unchanged. What the host refuses
touches at most the pages of its range.
-/

namespace Libtux
open Lib

variable {L : LibMMap} {H : HostVm}

/-- Two address spaces agree outside a set of addresses, and in all that is not memory or table. -/
structure SameOutside (S : Word → Prop) (as as' : LFIAddrSpace L) : Prop where
  info : as'.info = as.info
  nmprotect : as'.nmprotect = as.nmprotect
  mem : ∀ x, ¬ S x → as'.mem x = as.mem x
  prot : ∀ x, ¬ S x → as'.prot x = as.prot x

/-- Nothing changed. -/
lemma SameOutside.refl (S : Word → Prop) (as : LFIAddrSpace L) : SameOutside S as as :=
  ⟨rfl, rfl, fun _ _ => rfl, fun _ _ => rfl⟩

/-- What neither of two calls changes. -/
lemma SameOutside.trans {S : Word → Prop} {as as' as'' : LFIAddrSpace L}
    (h1 : SameOutside S as as') (h2 : SameOutside S as' as'') : SameOutside S as as'' where
  info := h2.info.trans h1.info
  nmprotect := h2.nmprotect.trans h1.nmprotect
  mem x hx := (h2.mem x hx).trans (h1.mem x hx)
  prot x hx := (h2.prot x hx).trans (h1.prot x hx)

/-! ## Pages -/

/-- A range of whole pages is covered by exactly its own addresses. -/
lemma covers_iff {P addr len x : Word} (hP : 0 < P.toNat)
    (ha : P.toNat ∣ addr.toNat) (hl : P.toNat ∣ len.toNat) :
    covers P addr len x ↔ addr.toNat ≤ x.toNat ∧ x.toNat < addr.toNat + len.toNat := by
  obtain ⟨a, ha⟩ := ha
  obtain ⟨l, hl⟩ := hl
  have hdiv := Nat.div_add_mod x.toNat P.toNat
  have hmod := Nat.mod_lt x.toNat hP
  unfold covers
  rw [ha, hl, ← Nat.mul_add]
  generalize x.toNat / P.toNat = q at *
  rw [Nat.mul_comm q, Nat.mul_comm (q + 1)]
  constructor
  · rintro ⟨_, h1, h2⟩
    have h1 := Nat.lt_of_mul_lt_mul_left h1
    have h2 := Nat.lt_of_mul_lt_mul_left h2
    have hle := Nat.mul_le_mul_left P.toNat (show a ≤ q by omega)
    have hlt := Nat.mul_le_mul_left P.toNat (show q + 1 ≤ a + l by omega)
    rw [Nat.mul_add, Nat.mul_one] at hlt
    omega
  · rintro ⟨h1, h2⟩
    have hq : a < q + 1 := by
      apply Nat.lt_of_mul_lt_mul_left (a := P.toNat)
      rw [Nat.mul_add, Nat.mul_one]
      omega
    have hq' : q < a + l := by
      apply Nat.lt_of_mul_lt_mul_left (a := P.toNat)
      omega
    have hl : 0 < l := by omega
    exact ⟨Nat.mul_pos hP hl, (Nat.mul_lt_mul_left hP).mpr hq', (Nat.mul_lt_mul_left hP).mpr hq⟩

/-- The addresses of `[addr, addr + size)`. -/
def InSpan (addr size x : Word) : Prop :=
  addr.toNat ≤ x.toNat ∧ x.toNat < addr.toNat + size.toNat

instance (addr size x : Word) : Decidable (InSpan addr size x) := inferInstanceAs (Decidable (_ ∧ _))

/-- An address of a piece is on a page of the piece. -/
lemma InSpan.covers {P addr size x : Word} (hP : 0 < P.toNat) (h : InSpan addr size x) :
    covers P addr size x := by
  obtain ⟨hlo, hhi⟩ := h
  have hdiv := Nat.div_mul_le_self x.toNat P.toNat
  have hlt := Nat.lt_div_mul_add (a := x.toNat) hP
  refine ⟨by omega, by omega, ?_⟩
  rw [Nat.add_mul, Nat.one_mul]
  omega

/-- The pages of a piece are among the pages of the range it lies in. -/
lemma covers_mono {P addr len b n x : Word}
    (hlo : addr.toNat ≤ b.toNat) (hhi : b.toNat + n.toNat ≤ addr.toNat + len.toNat)
    (h : covers P b n x) : covers P addr len x := by
  obtain ⟨h0, h1, h2⟩ := h
  exact ⟨by omega, by omega, by omega⟩

/-! ## The calls -/

/-- A refused mapping leaves what is not on its pages. -/
lemma refused_same {S : Word → Prop} {addr len : Word} {as : LFIAddrSpace L}
    (hS : ∀ x, covers H.pagesize addr len x → S x) : SameOutside S as (as.refused H addr len) where
  info := rfl
  nmprotect := rfl
  mem x hx := if_neg fun hc => hx (hS x hc.1)
  prot x hx := if_neg fun hc => hx (hS x hc.1)

/-- A host mapping leaves what is not on its pages, also when it is refused. -/
lemma hostMmap_same {S : Word → Prop} {addr len : Word} {prot : CInt} {hf : Option HostFile}
    {as : LFIAddrSpace L} (hS : ∀ x, covers H.pagesize addr len x → S x) :
    SameOutside S as ((hostMmap H addr len prot hf).run as).st := by
  simp only [hostMmap, Exec.mk_run]
  split
  · refine ⟨rfl, rfl, fun x hx => ?_, fun x hx => ?_⟩
    · exact if_neg (fun hc => hx (hS x hc))
    · exact if_neg (fun hc => hx (hS x hc))
  · exact refused_same hS

/-- A host mapping returns, and emits nothing. -/
lemma hostMmap_returns (addr len : Word) (prot : CInt) (hf : Option HostFile)
    (as : LFIAddrSpace L) :
    ∃ ok st, (hostMmap H addr len prot hf).run as = ⟨.ok ok, st, []⟩ := by
  simp only [hostMmap, Exec.mk_run]
  split
  · exact ⟨_, _, rfl⟩
  · exact ⟨_, _, rfl⟩

/-- Unmapping the pieces of a range touches nothing outside its pages and emits nothing; it can only
stop at the assertion of `cbunmap`. -/
lemma cbunmaps_same {addr len : Word} {ps : List (Word × Word)} (as : LFIAddrSpace L)
    (hps : ∀ b n, (b, n) ∈ ps → addr.toNat ≤ b.toNat ∧ b.toNat + n.toNat ≤ addr.toNat + len.toNat) :
    ∃ st, SameOutside (covers H.pagesize addr len) as st ∧
      ((cbunmaps H ps).run as = ⟨.ok (), st, []⟩ ∨
       (cbunmaps H ps).run as = ⟨.error (.assertion .cbunmap), st, []⟩) := by
  induction ps generalizing as with
  | nil => exact ⟨as, .refl _ _, .inl rfl⟩
  | cons p ps ih =>
    obtain ⟨b, n⟩ := p
    obtain ⟨hlo, hhi⟩ := hps b n (List.mem_cons_self ..)
    have hmap : SameOutside (covers H.pagesize addr len) as
        ((hostMmap H b n LFI_PROT_NONE none).run as).st :=
      hostMmap_same fun x hx => covers_mono hlo hhi hx
    obtain ⟨ok, st, hr⟩ := hostMmap_returns (H := H) b n LFI_PROT_NONE none as
    rw [hr] at hmap
    cases ok with
    | false =>
      refine ⟨st, hmap, .inr ?_⟩
      simp [cbunmaps, cbunmap, hr, Exec.check_run]
    | true =>
      obtain ⟨st', hsame, hrun⟩ := ih st (fun b n hm => hps b n (List.mem_cons_of_mem _ hm))
      refine ⟨st', hmap.trans hsame, ?_⟩
      simpa [cbunmaps, cbunmap, hr, Exec.check_run] using hrun

/-- `as'` is `as` with the pages of `[addr, addr + size)` fresh: zero, and protected by `prot`. -/
structure FreshAt (H : HostVm) (addr size : Word) (prot : CInt) (as as' : LFIAddrSpace L) : Prop where
  info : as'.info = as.info
  nmprotect : as'.nmprotect = as.nmprotect
  mem : ∀ x, as'.mem x = if covers H.pagesize addr size x then 0 else as.mem x
  prot : ∀ x, as'.prot x = if covers H.pagesize addr size x then mmapprot prot else as.prot x

/-- The guard of the mapping calls. -/
def InGuard (i : LFIAddrSpaceInfo) (addr size : Word) : Prop :=
  addr ≥ i.minaddr ∧ addr + size ≤ i.maxaddr

instance (i : LFIAddrSpaceInfo) (addr size : Word) : Decidable (InGuard i addr size) :=
  inferInstanceAs (Decidable (_ ∧ _))

/-- A range that passes the guard does not start at the answer of a failure. -/
lemma InGuard.ne_mapFailed {i : LFIAddrSpaceInfo} {addr size : Word} (hg : InGuard i addr size)
    (htop : addr.toNat + size.toNat < 2 ^ 64) : addr ≠ mapFailed := by
  rintro rfl
  have hmax := i.maxaddr_toNat
  have hbase := i.base_top
  have hle := hg.2
  rw [BitVec.le_def, BitVec.toNat_add, Nat.mod_eq_of_lt htop, show mapFailed.toNat = 2 ^ 64 - 1 from rfl] at hle
  omega

/-- `asmap` is one host call: it fails with a negative number, or leaves the range fresh. -/
lemma asmap_cases (addr size : Word) (prot : CInt) (as : LFIAddrSpace L) :
    (∃ r, r < 0 ∧
      (asmap H addr size prot none).run as = ⟨.ok r, as.refused H addr size, []⟩) ∨
    (H.mmap as.nmmap addr size = true ∧
      (asmap H addr size prot none).run as = ⟨.ok 0, as.mapped H addr size prot none, []⟩) := by
  by_cases hok : H.mmap as.nmmap addr size
  · right
    refine ⟨hok, ?_⟩
    simp [asmap, hostMmap, hok]
  · left
    refine ⟨-(H.errno as.nmmap), ?_, ?_⟩
    · have := H.errno_pos as.nmmap
      omega
    · simp [asmap, hostMmap, hok]

/-- A record that is dropped leaves where the address space is. -/
lemma mmUnmap_info {addr size : Word} (as : LFIAddrSpace L) :
    ((mmUnmap addr size).run as).st.info = as.info := by
  simp only [mmUnmap, Exec.modify_run]
  split <;> rfl

/-- What a call of `lfi_as_mapat` can do: fail its guard, fail, abort on a piece it cannot unmap, or
leave exactly its pages fresh. -/
lemma lfiAsMapat_cases (addr size : Word) (prot : CInt) (as : LFIAddrSpace L) :
    (¬ InGuard as.info addr size ∧
      (lfiAsMapat H addr size prot none).run as =
        ⟨.error (.assertion .mapatRange), as, [.mapat addr size]⟩) ∨
    (InGuard as.info addr size ∧ ∃ st,
      st.info = as.info ∧
      ((lfiAsMapat H addr size prot none).run as = ⟨.ok mapFailed, st, [.mapat addr size]⟩ ∨
       (lfiAsMapat H addr size prot none).run as =
        ⟨.error (.assertion .cbunmap), st, [.mapat addr size]⟩)) ∨
    (InGuard as.info addr size ∧ H.pagesize.toNat ∣ addr.toNat ∧
      addr.toNat + size.toNat < 2 ^ 64 ∧ ∃ st, FreshAt H addr size prot as st ∧
      (lfiAsMapat H addr size prot none).run as = ⟨.ok addr, st, [.mapat addr size]⟩) := by
  by_cases hg : InGuard as.info addr size
  · have hg' : addr ≥ as.info.minaddr ∧ addr + size ≤ as.info.maxaddr := hg
    right
    unfold lfiAsMapat
    simp only [Exec.bind_run, Exec.get_run, Exec.andThen_ok, Exec.tell_run, Exec.check_run,
      hg', and_self, if_true, List.nil_append, List.cons_append]
    cases hm : L.mapat as.mm addr size with
    | none => exact .inl ⟨hg, as, rfl, .inl rfl⟩
    | some r =>
      obtain ⟨mm, pieces⟩ := r
      obtain ⟨st, hsame, hc | hc⟩ := cbunmaps_same (H := H) { as with mm }
        (fun b n hb => L.mapat_piece hm hb)
      · rcases asmap_cases (H := H) addr size prot st with
          ⟨r, hr, ha⟩ | ⟨hok, ha⟩
        · left
          refine ⟨hg, ((mmUnmap addr size).run (st.refused H addr size)).st, ?_, .inl ?_⟩
          · exact (mmUnmap_info _).trans hsame.info
          · simp [hc, ha, hr, mmUnmap]
        · right
          refine ⟨hg, H.mmap_aligned hok, H.mmap_top hok, st.mapped H addr size prot none, ?_, ?_⟩
          · -- the pieces lie inside the range, so the mapping hides them
            refine ⟨hsame.info, hsame.nmprotect, fun x => ?_, fun x => ?_⟩
            · by_cases hx : covers H.pagesize addr size x
              · simp [LFIAddrSpace.mapped, hx]
              · simp only [LFIAddrSpace.mapped, hx, if_false]
                exact hsame.mem x hx
            · by_cases hx : covers H.pagesize addr size x
              · simp [LFIAddrSpace.mapped, hx]
              · simp only [LFIAddrSpace.mapped, hx, if_false]
                exact hsame.prot x hx
          · simp [hc, ha]
      · left
        exact ⟨hg, st, hsame.info, .inr (by simp [hc])⟩
  · exact .inl ⟨hg, by simp [lfiAsMapat, Exec.check_run, show ¬ (_ ∧ _) from hg]⟩

/-- What a call of `lfi_as_mprotect` can do: fail its guard, or return a number that is not negative,
having changed the protection of the pages that the host changed. -/
lemma lfiAsMprotect_cases (addr size : Word) (prot : CInt) (as : LFIAddrSpace L) :
    (¬ InGuard as.info addr size ∧
      (lfiAsMprotect H addr size prot).run as = ⟨.error (.assertion .mprotectRange), as, []⟩) ∨
    (InGuard as.info addr size ∧ ∃ r, 0 ≤ r ∧
      (lfiAsMprotect H addr size prot).run as = ⟨.ok r, as.mprotected H addr size prot, []⟩) := by
  by_cases hg : InGuard as.info addr size
  · have hg' : addr ≥ as.info.minaddr ∧ addr + size ≤ as.info.maxaddr := hg
    right
    by_cases hok : H.mprotect as.nmprotect addr size
    · refine ⟨hg, 0, le_refl _, ?_⟩
      simp [lfiAsMprotect, Exec.check_run, hg', hostMprotect, hok]
    · refine ⟨hg, tuxerr (H.errno as.nmprotect), ?_, ?_⟩
      · simp [tuxerr]
      · simp [lfiAsMprotect, Exec.check_run, hg', hostMprotect, hok]
  · exact .inl ⟨hg, by simp [lfiAsMprotect, Exec.check_run, show ¬ (_ ∧ _) from hg]⟩

end Libtux
