import Libtux.Pal.Book
import Libtux.Proc.Layout
import Libtux.Sys.Brk

/-!
# The heap over runs

`sys_brk` (`src/syscalls/sys_mem.c`) from the state that `procsetup` leaves. `Placed` is where the heap
is: at a page boundary, with its reservation below a page boundary of memory, and shorter than the
reservation. Growth maps from the old break rounded up to a page, for the unrounded difference of the
sizes, so a page below the old break is never mapped again and the new break is always reached
(`Placed.next`). `HeapInv` adds that the pages of the heap are open.
-/

namespace Libtux
open Lib

/-- Rounding up to a page: the first multiple of the page size at or above the address. -/
lemma ceilp_spec {addr align : Word} (hd : align.toNat ∣ 2 ^ 32)
    (hnw : addr.toNat + align.toNat ≤ 2 ^ 64) :
    align.toNat ∣ (ceilp addr align).toNat ∧ addr.toNat ≤ (ceilp addr align).toNat ∧
      (ceilp addr align).toNat < addr.toNat + align.toNat := by
  obtain ⟨k, hk, hpow⟩ := (Nat.dvd_prime_pow Nat.prime_two).mp hd
  have hpos : 0 < align.toNat := Nat.pos_of_dvd_of_pos hd (by decide)
  have hmask : (align - 1).toNat = align.toNat - 1 := by bv_omega
  refine ⟨?_, le_ceilp (by omega), ?_⟩
  · rw [hpow]
    exact dvd_ceilp (by omega) (dvd_of_eq hpow.symm)
  · have hle := ceilp_le addr align
    rw [BitVec.toNat_add, hmask, Nat.mod_eq_of_lt (by omega)] at hle
    omega

section
variable {L : LibMMap} {M : Machine} {H : HostVm} {opts : TuxOptions}

/-- Where the heap of a process is, at a multiple of `n`. -/
structure PlacedAt (n : Nat) (opts : TuxOptions) (p : TuxThread L M) : Prop where
  page : opts.pagesize.toNat ∣ 2 ^ 32
  base : n ∣ p.brkbase.toNat
  top : ∃ hi, opts.pagesize.toNat ∣ hi ∧ p.brkbase.toNat + 2 ^ 29 ≤ hi ∧ hi < 2 ^ 64
  size : p.brksize.toNat < 2 ^ 29

/-- Where the heap of a process is, at a page boundary. -/
abbrev Placed (opts : TuxOptions) (p : TuxThread L M) : Prop := PlacedAt opts.pagesize.toNat opts p

namespace PlacedAt

variable {n : Nat} {p : TuxThread L M} (h : PlacedAt n opts p)
include h

/-- The configured page is not empty. -/
lemma page_pos : 0 < opts.pagesize.toNat := Nat.pos_of_dvd_of_pos h.page (by decide)

/-- The reservation ends below the top of memory. -/
lemma limit : p.brkbase.toNat + 2 ^ 29 < 2 ^ 64 := by
  obtain ⟨hi, _, hle, hlt⟩ := h.top
  omega

/-- There is a page of memory above the reservation. -/
lemma page_top : p.brkbase.toNat + 2 ^ 29 + opts.pagesize.toNat ≤ 2 ^ 64 := by
  obtain ⟨hi, hdvd, hle, hlt⟩ := h.top
  have htop : opts.pagesize.toNat ∣ 2 ^ 64 := dvd_trans h.page (by decide)
  have hgap := Nat.le_of_dvd (by omega) (Nat.dvd_sub htop hdvd)
  omega

/-- The end of the heap, as a number. -/
lemma brk_toNat : (p.brkbase + p.brksize).toNat = p.brkbase.toNat + p.brksize.toNat := by
  have := h.limit
  have := h.size
  bv_omega

/-- The two clamps of `sys_brk`, as numbers. -/
lemma brkTo_eq (addr : Word) : (brkTo p addr).toNat =
    min (max (if addr = 0 then p.brkbase.toNat + p.brksize.toNat else addr.toNat) p.brkbase.toNat)
      (p.brkbase.toNat + 2 ^ 29) := by
  have hlim := h.limit
  have hmax : (p.brkbase + TUX_BRKMAXSIZE).toNat = p.brkbase.toNat + 2 ^ 29 := by
    unfold TUX_BRKMAXSIZE
    bv_omega
  have hreq : (if addr ≠ 0 then procaddr addr else p.brkbase + p.brksize).toNat =
      if addr = 0 then p.brkbase.toNat + p.brksize.toNat else addr.toNat := by
    by_cases hz : addr = 0
    · rw [if_neg (not_not.mpr hz), if_pos hz]
      exact h.brk_toNat
    · rw [if_pos hz, if_neg hz]
      rfl
  unfold brkTo
  dsimp only
  rw [← hreq]
  generalize (if addr ≠ 0 then procaddr addr else p.brkbase + p.brksize) = request
  have hlow : (if request < p.brkbase then p.brkbase else request).toNat =
      max request.toNat p.brkbase.toNat := by
    split <;> rename_i hc
    · exact (max_eq_right (le_of_lt hc)).symm
    · exact (max_eq_left (BitVec.not_lt.mp hc)).symm
  rw [← hlow]
  generalize (if request < p.brkbase then p.brkbase else request) = request
  split <;> rename_i hge
  · rw [ge_iff_le, BitVec.le_def] at hge
    omega
  · rw [ge_iff_le, BitVec.not_le, BitVec.lt_def] at hge
    omega

/-- The break that is aimed at stays between the base and the end of the reservation. -/
lemma brkTo_bounds (addr : Word) :
    p.brkbase.toNat ≤ (brkTo p addr).toNat ∧ (brkTo p addr).toNat ≤ p.brkbase.toNat + 2 ^ 29 := by
  rw [h.brkTo_eq]
  omega

/-- The size that a call asks for, from the address that it moves to, -/
lemma brkSize_toNat (addr : Word) :
    (brkSize p addr).toNat = (brkTo p addr).toNat - p.brkbase.toNat := by
  have := (h.brkTo_bounds addr).1
  unfold brkSize
  bv_omega

/-- and the other way round. -/
lemma brkTo_toNat (addr : Word) :
    (brkTo p addr).toNat = p.brkbase.toNat + (brkSize p addr).toNat := by
  have := (h.brkTo_bounds addr).1
  rw [h.brkSize_toNat]
  omega

/-- The heap grows exactly when the size does. -/
lemma grows_iff (addr : Word) :
    brkTo p addr ≥ p.brkbase + p.brksize ↔ p.brksize.toNat ≤ (brkSize p addr).toNat := by
  rw [ge_iff_le, BitVec.le_def, h.brk_toNat, h.brkTo_toNat]
  omega

/-- Rounding the break up to a page. -/
lemma ceil_spec : opts.pagesize.toNat ∣ (ceilp (p.brkbase + p.brksize) opts.pagesize).toNat ∧
    p.brkbase.toNat + p.brksize.toNat ≤ (ceilp (p.brkbase + p.brksize) opts.pagesize).toNat ∧
    (ceilp (p.brkbase + p.brksize) opts.pagesize).toNat <
      p.brkbase.toNat + p.brksize.toNat + opts.pagesize.toNat := by
  have hs := h.size
  have ht := h.page_top
  rw [← h.brk_toNat]
  refine ceilp_spec h.page ?_
  rw [h.brk_toNat]
  omega

/-- Growth maps from the base of the heap or from a page boundary. -/
lemma next_dvd (hn : n ∣ opts.pagesize.toNat) : n ∣ (brkNext opts p).toNat := by
  unfold brkNext
  split
  · exact h.base
  · exact hn.trans h.ceil_spec.1

/-- Growth maps from less than a page above the old break. -/
lemma next : p.brkbase.toNat + p.brksize.toNat ≤ (brkNext opts p).toNat ∧
    (brkNext opts p).toNat < p.brkbase.toNat + p.brksize.toNat + opts.pagesize.toNat := by
  have hpos := h.page_pos
  unfold brkNext
  split
  · rename_i hz
    have hz : p.brksize.toNat = 0 := by rw [hz]; rfl
    exact ⟨by omega, by omega⟩
  · exact h.ceil_spec.2

/-- No growth maps from the address that stands for a failure. -/
lemma next_ne : brkNext opts p ≠ mapFailed := by
  intro heq
  have hlt := h.next.2
  have ht := h.page_top
  have hs := h.size
  rw [heq] at hlt
  have hfail : mapFailed.toNat = 2 ^ 64 - 1 := rfl
  omega

/-- A page boundary at or above the old break is not below the start of a growth. -/
lemma next_le {b : Nat} (hb : opts.pagesize.toNat ∣ b)
    (hle : p.brkbase.toNat + p.brksize.toNat ≤ b) : (brkNext opts p).toNat ≤ b := by
  unfold brkNext
  split
  · omega
  · obtain ⟨hdvd, _, hlt⟩ := h.ceil_spec
    by_contra hno
    have hgap := Nat.le_of_dvd (by omega) (Nat.dvd_sub hdvd hb)
    omega

/-- The heap stays placed while its base is where it was. -/
lemma move {p' : TuxThread L M} (hb : p'.brkbase = p.brkbase) (hs : p'.brksize.toNat < 2 ^ 29) :
    PlacedAt n opts p' := by
  obtain ⟨hi, hdvd, hle, htop⟩ := h.top
  rw [← hb] at hle
  exact ⟨h.page, by rw [hb]; exact h.base, ⟨hi, hdvd, hle, htop⟩, hs⟩

end PlacedAt

/-! ## The invariant -/

/-- The protection of heap pages. -/
def heapProt : CInt := mmapprot (LFI_PROT_READ ||| LFI_PROT_WRITE)

/-- Every page of the heap is readable and writable. -/
def World.HeapOpen (H : HostVm) (w : World L M) : Prop :=
  ∀ x, covers H.pagesize w.p.brkbase w.p.brksize x → w.p.as.prot x = heapProt

/-- The heap is placed, and open. -/
structure HeapInv (H : HostVm) (opts : TuxOptions) (w : World L M) : Prop where
  placed : Placed opts w.p
  heapOpen : w.HeapOpen H

/-- What `sys_brk` promises of a call that returned `v`. -/
structure BrkPost (H : HostVm) (w w' : World L M) (v : Word) : Prop where
  base : w'.p.brkbase = w.p.brkbase
  heapOpen : w'.HeapOpen H
  /-- The bytes below both breaks are kept. -/
  keep : ∀ x : Word, w.p.brkbase.toNat ≤ x.toNat →
    x.toNat < w.p.brkbase.toNat + min w.p.brksize.toNat w'.p.brksize.toNat → w'.mem x = w.mem x
  /-- After a growth the bytes from any page boundary `b` at or above the old break on are zero. -/
  zero : w.p.brksize.toNat < w'.p.brksize.toNat → ∀ b : Nat, H.pagesize.toNat ∣ b →
    w.p.brkbase.toNat + w.p.brksize.toNat ≤ b → ∀ x : Word, b ≤ x.toNat →
    x.toNat < w.p.brkbase.toNat + w'.p.brksize.toNat → w'.mem x = 0
  result : v = w'.p.brkbase + w'.p.brksize ∨ v = -1 ∧ w'.p.brksize = w.p.brksize

/-- A shrinking of the heap: the pages stay as they are. -/
lemma HeapInv.shrink {w : World L M} (h : HeapInv H opts w) {newsize : Word}
    (hlt : newsize.toNat < w.p.brksize.toNat) :
    BrkPost H w (w.setBrk newsize) (w.p.brkbase + newsize) := by
  refine ⟨rfl, fun x hx => ?_, fun _ _ _ => rfl, fun hno => absurd hno (lt_asymm hlt), .inl rfl⟩
  obtain ⟨hpos, hlow, hhigh⟩ := hx
  simp only [World.setBrk] at hpos hlow hhigh
  exact h.heapOpen x ⟨by omega, by omega, hhigh⟩

section
variable {w : World L M} (hpage : H.pagesize = opts.pagesize)
include hpage

/-- A page of the new heap is a page of the old one or one of those that a growth maps. -/
lemma Placed.covers_grow (h : Placed opts w.p) {newsize x : Word}
    (hlt : w.p.brksize.toNat < newsize.toNat) (hx : covers H.pagesize w.p.brkbase newsize x) :
    covers H.pagesize (brkNext opts w.p) (newsize - w.p.brksize) x ∨
      covers H.pagesize w.p.brkbase w.p.brksize x := by
  obtain ⟨hge, hle⟩ := h.next
  have hpos := h.page_pos
  have hlen : (newsize - w.p.brksize).toNat = newsize.toNat - w.p.brksize.toNat := by bv_omega
  obtain ⟨b, hb⟩ := h.base
  obtain ⟨_, hlow, hhigh⟩ := hx
  rw [hpage] at hlow hhigh ⊢
  simp only [covers, hlen]
  generalize x.toNat / opts.pagesize.toNat = q at *
  by_cases hend : (brkNext opts w.p).toNat < (q + 1) * opts.pagesize.toNat
  · exact .inl ⟨by omega, by omega, hend⟩
  · -- the page ends at or below the start of the mapping, so it starts below the old break
    rw [Nat.add_mul, Nat.one_mul] at hend hhigh
    have hq : b ≤ q := by
      rw [hb, Nat.mul_comm, ← Nat.succ_mul] at hhigh
      exact Nat.lt_succ_iff.mp (Nat.lt_of_mul_lt_mul_right hhigh)
    have hbq := Nat.mul_le_mul_right opts.pagesize.toNat hq
    rw [Nat.mul_comm b] at hbq
    refine .inr ⟨by omega, by omega, ?_⟩
    rw [Nat.add_mul, Nat.one_mul]
    exact hhigh

/-- The pages of the heap lie below the start of a growth. -/
lemma Placed.lt_next (h : Placed opts w.p) {x : Word}
    (hx : covers H.pagesize w.p.brkbase w.p.brksize x) : x.toNat < (brkNext opts w.p).toNat := by
  obtain ⟨c, hc⟩ := h.next_dvd dvd_rfl
  have hge := h.next.1
  obtain ⟨_, hlow, _⟩ := hx
  have hmod := Nat.lt_div_mul_add (a := x.toNat) h.page_pos
  rw [hpage] at hlow
  rw [hc, Nat.mul_comm] at hge ⊢
  generalize x.toNat / opts.pagesize.toNat = q at *
  have hq : q < c := Nat.lt_of_mul_lt_mul_right (lt_of_lt_of_le hlow hge)
  have hmul := Nat.mul_le_mul_right opts.pagesize.toNat (Nat.succ_le_of_lt hq)
  rw [Nat.succ_mul] at hmul
  omega

/-- A growth of the heap that succeeded. -/
lemma HeapInv.grow (h : HeapInv H opts w) {newsize : Word} {st : LFIAddrSpace L}
    (hlt : w.p.brksize.toNat < newsize.toNat)
    (hf : FreshAt H (brkNext opts w.p) (newsize - w.p.brksize) (LFI_PROT_READ ||| LFI_PROT_WRITE)
      w.p.as st) :
    BrkPost H w ((w.setAs st).setBrk newsize) (w.p.brkbase + newsize) := by
  have hdvd := h.placed.next_dvd dvd_rfl
  obtain ⟨hge, hle⟩ := h.placed.next
  have hlen : (newsize - w.p.brksize).toNat = newsize.toNat - w.p.brksize.toNat := by bv_omega
  refine ⟨rfl, fun x hx => ?_, fun x hlo hhi => ?_, fun _ b hb hbrk x hx hxlt => ?_, .inl rfl⟩
  · simp only [World.setAs, World.setBrk] at hx ⊢
    rw [hf.prot x]
    split
    · rfl
    · rename_i hno
      exact h.heapOpen x ((h.placed.covers_grow hpage hlt hx).resolve_left hno)
  · simp only [World.setAs, World.setBrk, World.mem] at hhi ⊢
    rw [hf.mem x]
    refine if_neg (not_covers_of_lt (by rw [hpage]; exact hdvd) ?_)
    omega
  · simp only [World.setAs, World.setBrk, World.mem] at hxlt ⊢
    rw [hf.mem x]
    refine if_pos (InSpan.covers H.pagesize_pos ⟨?_, ?_⟩)
    · exact le_trans (h.placed.next_le (by rw [← hpage]; exact hb) hbrk) hx
    · rw [hlen]
      omega

/-- A growth of the heap that failed. -/
lemma HeapInv.fail (h : HeapInv H opts w) {st : LFIAddrSpace L}
    (hsame : ∀ x : Word, x.toNat < (brkNext opts w.p).toNat →
      st.mem x = w.p.as.mem x ∧ st.prot x = w.p.as.prot x) : BrkPost H w (w.setAs st) (-1) := by
  obtain ⟨hge, hle⟩ := h.placed.next
  refine ⟨rfl, fun x hx => ?_, fun x hlo hhi => ?_, fun hno => absurd hno (lt_irrefl _),
    .inr ⟨rfl, rfl⟩⟩
  · exact (hsame x (h.placed.lt_next hpage hx)).2.trans (h.heapOpen x hx)
  · simp only [World.setAs, World.mem] at hhi ⊢
    exact (hsame x (by omega)).1

/-- What a call of `sys_brk` can do from a heap that is placed and open: stop at its assertion or at one
of those of `lfi_as_mapat`, or return as promised. -/
lemma HeapInv.brk (h : HeapInv H opts w) (addr : Word) :
    (∀ e, ((sysBrk H opts addr).run w).val = .error e →
      e ∈ [Stop.assertion .brkNewsize, .assertion .mapatRange, .assertion .cbunmap]) ∧
    ∀ v, ((sysBrk H opts addr).run w).val = .ok v →
      BrkPost H w ((sysBrk H opts addr).run w).st v ∧
        HeapInv H opts ((sysBrk H opts addr).run w).st := by
  have hlt : ∀ {n : Word}, n < TUX_BRKMAXSIZE → n.toNat < 2 ^ 29 := fun hn => hn
  have hinv : ∀ {w' : World L M} {v}, BrkPost H w w' v → w'.p.brksize.toNat < 2 ^ 29 →
      HeapInv H opts w' := by
    intro w' v hpost hsize
    exact ⟨h.placed.move hpost.base hsize, hpost.heapOpen⟩
  have hway := sysBrk_inv H opts addr w
  generalize (sysBrk H opts addr).run w = r at hway
  cases hway with
  | stop _ => exact ⟨by simp, nofun⟩
  | same hsize heq =>
    refine ⟨nofun, fun v hv => ?_⟩
    obtain rfl := Except.ok.inj hv
    have hret : brkTo w.p addr = w.p.brkbase + w.p.brksize := by
      rw [← heq]
      unfold brkSize
      bv_omega
    have hpost : BrkPost H w w (brkTo w.p addr) :=
      ⟨rfl, h.heapOpen, fun _ _ _ => rfl, fun hno => absurd hno (lt_irrefl _), .inl hret⟩
    exact ⟨hpost, h⟩
  | shrink hsize hne hge =>
    refine ⟨nofun, fun v hv => ?_⟩
    obtain rfl := Except.ok.inj hv
    rw [h.placed.grows_iff, not_le] at hge
    have hpost := h.shrink hge
    exact ⟨hpost, hinv hpost (hlt hsize)⟩
  | abort hsize hne hge hr =>
    refine ⟨fun e he => ?_, nofun⟩
    obtain rfl := Except.error.inj he
    rw [brkMap_eq] at hr
    rcases lfiAsMapat_spec (H := H) (brkNext opts w.p) (brkSize w.p addr - w.p.brksize)
      (LFI_PROT_READ ||| LFI_PROT_WRITE) w.p.as with
      ⟨a, _, ha, hr'⟩ | ⟨_, _, _, hr'⟩ | ⟨_, _, _, _, _, hr'⟩
    · rw [hr', Res.mk.injEq] at hr
      obtain rfl := Except.error.inj hr.1
      rcases ha with rfl | rfl
      · simp
      · simp
    · rw [hr', Res.mk.injEq] at hr
      cases hr.1
    · rw [hr', Res.mk.injEq] at hr
      cases hr.1
  | fail hsize hne hge hr =>
    refine ⟨nofun, fun v hv => ?_⟩
    obtain rfl := Except.ok.inj hv
    rw [brkMap_eq] at hr
    rcases lfiAsMapat_spec (H := H) (brkNext opts w.p) (brkSize w.p addr - w.p.brksize)
      (LFI_PROT_READ ||| LFI_PROT_WRITE) w.p.as with
      ⟨_, _, _, hr'⟩ | ⟨_, _, hsame, hr'⟩ | ⟨_, _, _, _, hf, hr'⟩
    · rw [hr', Res.mk.injEq] at hr
      cases hr.1
    · rw [hr', Res.mk.injEq] at hr
      obtain ⟨_, rfl, _⟩ := hr
      have hpost := h.fail hpage fun x hx => hsame x (.inl hx)
      exact ⟨hpost, hinv hpost h.placed.size⟩
    · rw [hr', Res.mk.injEq] at hr
      exact absurd (Except.ok.inj hr.1) h.placed.next_ne
  | grow hsize hne hge hmap hr =>
    refine ⟨nofun, fun v hv => ?_⟩
    obtain rfl := Except.ok.inj hv
    rw [brkMap_eq] at hr
    rw [h.placed.grows_iff] at hge
    have hgrow : w.p.brksize.toNat < (brkSize w.p addr).toNat :=
      lt_of_le_of_ne hge fun heq => hne (BitVec.eq_of_toNat_eq heq.symm)
    rcases lfiAsMapat_spec (H := H) (brkNext opts w.p) (brkSize w.p addr - w.p.brksize)
      (LFI_PROT_READ ||| LFI_PROT_WRITE) w.p.as with
      ⟨_, _, _, hr'⟩ | ⟨_, _, _, hr'⟩ | ⟨_, _, _, _, hf, hr'⟩
    · rw [hr', Res.mk.injEq] at hr
      cases hr.1
    · rw [hr', Res.mk.injEq] at hr
      exact absurd (Except.ok.inj hr.1).symm hmap
    · rw [hr', Res.mk.injEq] at hr
      obtain ⟨_, rfl, _⟩ := hr
      have hpost := h.grow hpage hgrow hf
      exact ⟨hpost, hinv hpost (hlt hsize)⟩

end

/-! ## Runs -/

/-- `procsetup` leaves an empty heap, placed at a page of the host, in a reservation that is closed. -/
lemma procsetup_placed {prog : Elf.Buf} {interp : Option Elf.Buf} {argv : List (List Byte)}
    {p : TuxThread L M} (hdvd : opts.pagesize.toNat ∣ 2 ^ 32)
    (h : ((procsetup H opts prog interp argv).run p).val = .ok true) :
    PlacedAt H.pagesize.toNat opts ((procsetup H opts prog interp argv).run p).st ∧
      ((procsetup H opts prog interp argv).run p).st.brksize = 0 ∧
      ∀ x, covers H.pagesize ((procsetup H opts prog interp argv).run p).st.brkbase TUX_BRKMAXSIZE x →
        ((procsetup H opts prog interp argv).run p).st.as.prot x = LFI_PROT_NONE := by
  obtain ⟨info, as1, _, sp, as2, _, map, as3, _, hmap, _, _, hbrk, hst⟩ := procsetup_true h
  rw [hst]
  rcases lfiAsMapat_spec (H := H) info.lastva TUX_BRKMAXSIZE LFI_PROT_NONE as2 with
    ⟨_, _, _, hr⟩ | ⟨_, _, _, hr⟩ | ⟨_, hal, hnw, hg, hf, hr⟩
  · rw [hr, Res.mk.injEq] at hbrk
    cases hbrk.1
  · rw [hr, Res.mk.injEq] at hbrk
    exact absurd (Except.ok.inj hbrk.1).symm hmap
  · rw [hr, Res.mk.injEq] at hbrk
    obtain ⟨_, rfl, _⟩ := hbrk
    refine ⟨⟨hdvd, hal, ⟨as2.info.base.toNat + 2 ^ 32, ?_, ?_, ?_⟩, ?_⟩, rfl,
      fun x hx => (hf.prot x).trans (if_pos hx)⟩
    · exact Nat.dvd_add (dvd_trans hdvd as2.info.base_aligned) hdvd
    · have hle : (info.lastva + TUX_BRKMAXSIZE).toNat ≤ as2.info.maxaddr.toNat := hg.2
      rw [BitVec.toNat_add, Nat.mod_eq_of_lt hnw, as2.info.maxaddr_toNat] at hle
      have hmax : TUX_BRKMAXSIZE.toNat = 2 ^ 29 := rfl
      have : 81920 ≤ as2.info.base.toNat + 2 ^ 32 := by omega
      dsimp only
      omega
    · exact as2.info.base_top
    · exact Nat.two_pow_pos 29

/-- What happens to a heap: calls of `sys_brk`, and stores of the guest. -/
inductive HeapAct where
  | brk (addr : Word)
  | store (x : Word) (b : Byte)

/-- One step: a call that returns, or a store to an accessible byte. -/
inductive HeapStep (H : HostVm) (opts : TuxOptions) : World L M → HeapAct → World L M → Prop where
  | brk {w addr v} : ((sysBrk H opts addr).run w).val = .ok v →
    HeapStep H opts w (.brk addr) ((sysBrk H opts addr).run w).st
  | store {w x b} : w.p.as.Accessible x →
    HeapStep H opts w (.store x b) (w.setMem (Function.update w.mem x b))

/-- A call, or a store of the guest, keeps the invariant. -/
lemma HeapInv.step (hpage : H.pagesize = opts.pagesize) {w w' : World L M} {a : HeapAct}
    (h : HeapInv H opts w) (hst : HeapStep H opts w a w') : HeapInv H opts w' := by
  cases hst with
  | brk hv => exact ((h.brk hpage _).2 _ hv).2
  | store _ => exact ⟨h.placed.move rfl h.placed.size, h.heapOpen⟩

/-- After any run of breaks and stores from the state `procsetup` leaves, the pages of the heap are
readable and writable, and a call of `sys_brk` that returns does what it promises; one that does not
stops at its own assertion or at one of `lfi_as_mapat`. -/
theorem brk_heap {prog : Elf.Buf} {interp : Option Elf.Buf} {argv : List (List Byte)}
    {p : TuxThread L M} {w w' : World L M} {l : List HeapAct} (hpage : H.pagesize = opts.pagesize)
    (hdvd : opts.pagesize.toNat ∣ 2 ^ 32)
    (hset : ((procsetup H opts prog interp argv).run p).val = .ok true)
    (hw : w.p = ((procsetup H opts prog interp argv).run p).st)
    (hr : Run (HeapStep H opts) w l w') :
    w'.HeapOpen H ∧ ∀ addr,
      (∀ e, ((sysBrk H opts addr).run w').val = .error e →
        e ∈ [Stop.assertion .brkNewsize, .assertion .mapatRange, .assertion .cbunmap]) ∧
      ∀ v, ((sysBrk H opts addr).run w').val = .ok v →
        BrkPost H w' ((sysBrk H opts addr).run w').st v := by
  obtain ⟨hplaced, hzero, _⟩ := procsetup_placed hdvd hset
  rw [hpage] at hplaced
  rw [← hw] at hplaced hzero
  have hinit : HeapInv H opts w := by
    refine ⟨hplaced, fun x hx => ?_⟩
    rw [hzero] at hx
    exact absurd hx.1 (lt_irrefl _)
  have hinv : HeapInv H opts w' :=
    Run.invariant (I := HeapInv H opts) (fun h hst => h.step hpage hst) hinit hr
  refine ⟨hinv.heapOpen, fun addr => ?_⟩
  obtain ⟨herr, hok⟩ := hinv.brk hpage addr
  exact ⟨herr, fun v hv => (hok v hv).1⟩

end

/-- The state in which a process that runs `textImage` starts. -/
def heapStart : World .ofRanges .x64 :=
  .ofThread ((procsetup .open .plain Elf.textImage none [[]]).run (procnewfile (.fresh .plain) 10000)).st

/-- The process is set up. -/
lemma heapStart_setup : ((procsetup .open .plain Elf.textImage none [[]]).run
    (procnewfile (.fresh .plain) 10000 : TuxThread .ofRanges .x64)).val = .ok true := by
  decide +kernel

/-- The heap after a first growth to an unaligned break. -/
def heapGrown : World .ofRanges .x64 := ((sysBrk .open .plain (heapStart.p.brkbase + 5000)).run heapStart).st

/-- A growth from an unaligned break after a store. -/
theorem brk_heap_grown :
    let w := heapGrown.setMem (Function.update heapGrown.mem heapStart.p.brkbase 7)
    BrkPost .open w ((sysBrk .open .plain (heapStart.p.brkbase + 9000)).run w).st
      (heapStart.p.brkbase + 9000) := by
  intro w
  have hgrow : Run (HeapStep .open .plain) heapStart [.brk (heapStart.p.brkbase + 5000)] heapGrown :=
    .snoc (.nil _) (@HeapStep.brk _ _ _ _ _ _ (heapStart.p.brkbase + 5000) (by decide +kernel))
  have hstore : Run (HeapStep .open .plain) heapStart
      [.brk (heapStart.p.brkbase + 5000), .store heapStart.p.brkbase 7] w :=
    .snoc hgrow (.store (by decide +kernel))
  have hw : heapStart.p = ((procsetup .open .plain Elf.textImage none [[]]).run
      (procnewfile (.fresh .plain) 10000)).st := by
    rw [heapStart, World.ofThread]
  have hval : ((sysBrk .open .plain (heapStart.p.brkbase + 9000)).run w).val =
      .ok (heapStart.p.brkbase + 9000) := by decide +kernel
  exact ((brk_heap rfl (by decide) heapStart_setup hw hstore).2 _).2 _ hval

end Libtux
