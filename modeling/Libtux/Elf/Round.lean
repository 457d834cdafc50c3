import Libtux.Elf.Course

/-!
# The alignment of a segment

`load` accepts any alignment that is a multiple of the page size, and rounds with its mask, as if it were a
power of two. `Rounds` is what it relies on, for every alignment but `0`: a mask clears bits, so rounding
down loses less than the alignment and rounding up does not fall short, and a multiple of the page size has
the low bits of its mask set, so what is left is whole pages.

The mask of an alignment of `0` is all ones, and every address is rounded to `0`. `load` refuses such a
header (`loadSeg_align_zero`), whatever came before it, and ends with false there unless a header before
it stops the process (`load_rounding`).
-/

namespace Libtux.Elf
open Lib

/-- What the loader relies on of `truncp` and `ceilp`. -/
structure Rounds (addr align : Word) : Prop where
  down : (truncp addr align).toNat ≤ addr.toNat
  down_lt : addr.toNat - (truncp addr align).toNat ≤ align.toNat - 1
  up : addr.toNat + align.toNat - 1 < 2 ^ 64 → addr.toNat ≤ (ceilp addr align).toNat
  up_lt : addr.toNat + align.toNat - 1 < 2 ^ 64 →
    (ceilp addr align).toNat - addr.toNat ≤ align.toNat - 1
  pages : ∀ k, k ≤ 64 → 2 ^ k ∣ align.toNat →
    2 ^ k ∣ (truncp addr align).toNat ∧ 2 ^ k ∣ (ceilp addr align).toNat

/-- One less than a size does not wrap. -/
lemma mask_toNat {align : Word} (h : 0 < align.toNat) : (align - 1).toNat = align.toNat - 1 := by
  rw [BitVec.toNat_sub_of_le]
  · rfl
  · exact h

/-- Rounding works for every alignment but `0`. -/
lemma Rounds.of_pos (addr : Word) {align : Word} (h : 0 < align.toNat) : Rounds addr align where
  down := truncp_le addr align
  down_lt := by
    have hle := le_truncp_add addr align
    rw [mask_toNat h] at hle
    omega
  up hw := le_ceilp (by rw [mask_toNat h]; omega)
  up_lt hw := by
    have hle := ceilp_le addr align
    rw [BitVec.toNat_add, mask_toNat h, Nat.mod_eq_of_lt (by omega)] at hle
    omega
  pages k hk hd := ⟨dvd_truncp hk hd, dvd_ceilp hk hd⟩

section
variable {L : LibMMap} {H : HostVm} {buf : Buf} {pagesize elfbase : Word} {p : ProgHeader}

/-- The range of a header is whole pages and holds the segment. -/
lemma ProgHeader.rounds {k : Nat} (hk : pagesize.toNat = 2 ^ k) (hpos : 0 < p.align.toNat)
    (hal : p.align % pagesize = 0) (hw : p.vaddr.toNat + p.memsz.toNat + p.align.toNat - 1 < 2 ^ 64) :
    p.start.toNat ≤ p.vaddr.toNat ∧ p.vaddr.toNat + p.memsz.toNat ≤ p.stop.toNat ∧
      2 ^ k ∣ p.start.toNat ∧ 2 ^ k ∣ p.stop.toNat := by
  have hk64 : k ≤ 64 := by
    have := pagesize.isLt
    rw [hk] at this
    exact ((Nat.pow_lt_pow_iff_right (by omega)).mp this).le
  have hdvd : 2 ^ k ∣ p.align.toNat := by
    have h := congrArg BitVec.toNat hal
    rw [BitVec.toNat_umod, hk] at h
    exact Nat.dvd_of_mod_eq_zero h
  have hend : (p.vaddr + p.memsz).toNat = p.vaddr.toNat + p.memsz.toNat := by
    rw [BitVec.toNat_add, Nat.mod_eq_of_lt (by omega)]
  have hdown := Rounds.of_pos p.vaddr hpos
  have hup := Rounds.of_pos (p.vaddr + p.memsz) hpos
  refine ⟨hdown.down, ?_, (hdown.pages k hk64 hdvd).1, (hup.pages k hk64 hdvd).2⟩
  rw [← hend]
  exact hup.up (by rw [hend]; exact hw)

/-! ## Alignment zero -/

/-- Every address is rounded to `0`. -/
lemma ceilp_zero (addr : Word) : ceilp addr 0 = 0 := by
  have hmask : ~~~((0 : Word) - 1) = 0 := by decide
  rw [ceilp, hmask]
  exact BitVec.and_zero

/-- There is no multiple of zero but zero. -/
lemma truncp_zero (addr : Word) : truncp addr 0 = 0 := by
  have hmask : ~~~((0 : Word) - 1) = 0 := by decide
  rw [truncp, hmask]
  exact BitVec.and_zero

/-- A header without an alignment is refused. -/
lemma segPlan_align_zero {i : LFIAddrSpaceInfo} {type : BitVec 16} {base : Word} (hm : p.mapped = true)
    (hal : p.align = 0) : segPlan i type base pagesize p = .refuse := by
  cases hp : segPlan i type base pagesize p with
  | refuse => rfl
  | skip =>
    rw [segPlan_skip, hm] at hp
    cases hp
  | map s =>
    -- both ends would be the same
    have pl := segPlan_map.mp hp
    have hlt := pl.lt
    rw [pl.start, pl.stop, ProgHeader.start, ProgHeader.stop, hal, truncp_zero, ceilp_zero] at hlt
    exact absurd hlt (BitVec.lt_irrefl _)

/-- An image with such a header is not accepted. -/
lemma course_align_zero {i : LFIAddrSpaceInfo} {ps qs : List ProgHeader} {st st' : LoadState}
    {ds ds' : Option (List Piece)} (hm : p.mapped = true) (hal : p.align = 0) :
    course i pagesize buf elfbase st ds (ps ++ p :: qs) ≠ .ends st' ds' := by
  induction ps generalizing st ds with
  | nil =>
    rw [List.nil_append, course, fate_refuse (segPlan_align_zero hm hal)]
    exact Course.noConfusion
  | cons q ps ih =>
    rw [List.cons_append, course]
    split
    · exact ih
    · exact Course.noConfusion
    · exact Course.noConfusion
    · exact ih

/-- `load` ends with false there, on every host, exactly if the image does not stop it before. -/
lemma load_align_zero_iff {i : LFIAddrSpaceInfo} {base : Word} (hm : p.mapped = true) (hal : p.align = 0)
    {ps qs : List ProgHeader} (hps : buf.phdrs = ps ++ p :: qs) :
    (∀ (L : LibMMap) (H : HostVm) (as : LFIAddrSpace L), as.info = i → H.Divides pagesize →
      ((load H buf base pagesize).run as).val = .ok none ∨
        ((load H buf base pagesize).run as).val = .error (.assertion .cbunmap)) ↔
    ¬ buf.Stops i pagesize base (some []) := by
  constructor
  · intro h hstop
    obtain ⟨e, hne, hv⟩ := load_stops (g := true) (shows_fresh i) rfl hstop
    obtain hr | hr := h _ (granting true) (.fresh i) rfl ⟨0, rfl, one_dvd _⟩
    · rw [hv] at hr
      cases hr
    · rw [hv] at hr
      exact hne (Except.error.inj hr)
  · rintro hn L H as rfl hd
    have hb : Backed H pagesize (some []) as := fun _ => ⟨hd, fun x hx => by simp [Opens, opens] at hx⟩
    have ha := load_answers hb rfl hn
    cases hv : ((load H buf base pagesize).run as).val with
    | error e => exact .inr (congrArg Except.error (ha e hv))
    | ok o =>
      cases o with
      | none => exact .inl rfl
      | some out =>
        obtain ⟨st, ds', ⟨-, hc⟩, -⟩ := load_course hb (.inr hn) hv
        rw [hps] at hc
        exact absurd hc (course_align_zero hm hal)

end

/-- Rounding with any alignment, the range of a header in particular, and when `load` gets to a header with an
alignment of `0`. -/
theorem load_rounding {i : LFIAddrSpaceInfo} {buf : Buf} {base pagesize : Word} :
    (∀ addr align : Word, 0 < align.toNat → Rounds addr align) ∧
    (∀ (p : ProgHeader) (k : Nat), pagesize.toNat = 2 ^ k → p.mapped = true →
      0 < p.align.toNat → p.align % pagesize = 0 →
      p.vaddr.toNat + p.memsz.toNat + p.align.toNat - 1 < 2 ^ 64 →
      (p.start.toNat ≤ p.vaddr.toNat ∧ p.vaddr.toNat + p.memsz.toNat ≤ p.stop.toNat ∧
        2 ^ k ∣ p.start.toNat ∧ 2 ^ k ∣ p.stop.toNat) ∧
      ∀ type base s, segPlan i type base pagesize p = .map s →
        s.start = rebase i type base p.start ∧ s.stop = rebase i type base p.stop) ∧
    ∀ (ps qs : List ProgHeader) (p : ProgHeader), buf.phdrs = ps ++ p :: qs → p.mapped = true → p.align = 0 →
      ((∀ (L : LibMMap) (H : HostVm) (as : LFIAddrSpace L), as.info = i → H.Divides pagesize →
        ((load H buf base pagesize).run as).val = .ok none ∨
          ((load H buf base pagesize).run as).val = .error (.assertion .cbunmap)) ↔
      ¬ buf.Stops i pagesize base (some [])) := by
  refine ⟨fun addr align h => .of_pos addr h, ?_, ?_⟩
  · intro p k hk _ hpos hal hw
    refine ⟨p.rounds hk hpos hal hw, fun type base s hs => ?_⟩
    have pl := segPlan_map.mp hs
    exact ⟨pl.start, pl.stop⟩
  · intro ps qs p hps hm hal
    exact load_align_zero_iff hm hal hps

/-- A header whose alignment is `0`. -/
def unalignedHeader : ProgHeader := { textHeader with vaddr := 4096, align := 0 }

/-- An image with a good header before it. -/
def unalignedImage : Buf := .write ET_DYN 8 [textHeader, unalignedHeader] [0x0f, 0x05]

/-- An image that maps nothing. -/
def nothingImage : Buf := .write ET_DYN 8 [] []

/-- An image with a header before it whose bytes would start behind the image. -/
def behindImage : Buf := .write ET_DYN 8 [farHeader, unalignedHeader] [0x0f, 0x05]

/-- Its first header is copied from behind the file. -/
lemma behindImage_stops : behindImage.Stops .plain 4096 LFIAddrSpaceInfo.plain.minaddr (some []) := by
  refine .of_unreadable farHeader [unalignedHeader] ⟨0, 4096, 8⟩
    ⟨by decide +kernel, by decide +kernel, by decide +kernel, by decide +kernel, by decide +kernel⟩ ?_ ?_ ?_ ?_ ?_ ?_
  all_goals decide +kernel

/-- After a program that maps nothing the interpreter is loaded at `0`, and its first header stops the process
before `load` gets to the one with alignment `0`. So does a segment whose bytes would start behind the image. -/
theorem load_unaligned_stops :
    (unalignedImage.phdrs = [textHeader, unalignedHeader] ∧ unalignedHeader.mapped = true ∧
      unalignedHeader.align = 0 ∧
      ((load (.plain fun _ _ _ => true) unalignedImage 0 4096).run (.fresh .plain)).val =
        .error (.assertion .mapatRange) ∧
      ((lfiProcLoadelf (.plain fun _ _ _ => true) nothingImage (some unalignedImage)
        ⟨2 * 1024 * 1024, 4096, none⟩).run (.fresh .plain)).val = .error (.assertion .mapatRange)) ∧
    behindImage.phdrs = [farHeader, unalignedHeader] ∧
    ∃ e, e ≠ .assertion .cbunmap ∧
      ((load (granting true) behindImage LFIAddrSpaceInfo.plain.minaddr 4096).run (.fresh .plain)).val =
        .error e := by
  refine ⟨⟨by decide +kernel, by decide, by decide, by decide +kernel, by decide +kernel⟩, by decide +kernel, ?_⟩
  exact load_stops (shows_fresh _) rfl behindImage_stops

end Libtux.Elf
