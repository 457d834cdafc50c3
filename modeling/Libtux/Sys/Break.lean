import Libtux.Sys.Reserve

/-!
# The break as an abstract machine

`RefBrk` is the machine `sys_brk` implements: a current break, and the highest break so far. A request of
`0` asks for the break, a request below the base of the heap moves it to the base, and any other request
moves it there. `Simulates` relates a process to it. The pages up to the highest break are open, since
shrinking unmaps nothing; the pages that start a page or more above it are closed. `brk_refines` says
that the calls of a run and the values they return are a run of the machine.

The page that `sys_brk` rounds to is a multiple of the host's. Where it is larger, a growth leaves out the
pages of the host between the break that it starts from and the next boundary (`InGap`).
-/

namespace Libtux
open Lib

/-- The current break, the highest one so far, and those that were the highest before. -/
structure RefBrk where
  brk : Nat
  peak : Nat
  past : List Nat

/-- Move the break. -/
def RefBrk.move (base : Nat) (r : RefBrk) (addr : Word) : RefBrk :=
  let brk := if addr = 0 then r.brk else max addr.toNat base
  ⟨brk, max r.peak brk, r.peak :: r.past⟩

/-- The machine of an empty heap. -/
def RefBrk.start (base : Nat) : RefBrk := ⟨base, base, []⟩

/-- One call of the machine, with the value it returns. -/
def RefStep (base : Nat) (r : RefBrk) (call : Word × Word) (r' : RefBrk) : Prop :=
  r' = r.move base call.1 ∧ call.2.toNat = r'.brk

section
variable {L : LibMMap} {M : Machine} {H : HostVm} {opts : TuxOptions} {n : Nat}

/-- One call of `sys_brk` in which `lfi_as_mapat` does not fail, with the value it returns. -/
def BrkStep (H : HostVm) (opts : TuxOptions) (w : World L M) (call : Word × Word) (w' : World L M) :
    Prop :=
  ∃ out, (sysBrk H opts call.1).run w = ⟨.ok call.2, w', out⟩ ∧ call.2 ≠ -1

/-- The start of the page of an address. -/
def pageOf (H : HostVm) (x : Word) : Nat := x.toNat / H.pagesize.toNat * H.pagesize.toNat

/-- From `b` on, there is no multiple of the configured page size up to `q`. -/
def InGap (opts : TuxOptions) (b q : Nat) : Prop := b ≤ q ∧ ∀ m, opts.pagesize.toNat ∣ m → b ≤ m → q < m

/-- A process whose heap is in a state of the machine. -/
structure Simulates (H : HostVm) (opts : TuxOptions) (w : World L M) (r : RefBrk) : Prop where
  placed : PlacedAt H.pagesize.toNat opts w.p
  brk : r.brk = w.p.brkbase.toNat + w.p.brksize.toNat
  peak : r.brk ≤ r.peak
  opened : ∀ x, Reserved w.p x → pageOf H x < r.peak → (∀ b ∈ r.past, ¬ InGap opts b (pageOf H x)) →
    w.p.as.prot x = heapProt
  closed : ∀ x, Reserved w.p x → r.peak + opts.pagesize.toNat ≤ pageOf H x →
    w.p.as.prot x = LFI_PROT_NONE

/-- Where a call that returns moves the break. -/
lemma PlacedAt.brkTo_move {p : TuxThread L M} (h : PlacedAt n opts p) {addr : Word} {r : RefBrk}
    (hr : r.brk = p.brkbase.toNat + p.brksize.toNat) (hsize : brkSize p addr < TUX_BRKMAXSIZE) :
    (r.move p.brkbase.toNat addr).brk = p.brkbase.toNat + (brkSize p addr).toNat := by
  have heq := h.brkTo_eq addr
  have hto := h.brkTo_toNat addr
  have hs : (brkSize p addr).toNat < 2 ^ 29 := hsize
  have hlim := h.size
  simp only [RefBrk.move]
  split at heq <;> rename_i hz
  · rw [if_pos hz]
    omega
  · rw [if_neg hz]
    omega

/-- The value of a call that moved the break. -/
lemma PlacedAt.result {p : TuxThread L M} (h : PlacedAt n opts p) {size : Word} (hn : size.toNat < 2 ^ 29) :
    (p.brkbase + size).toNat = p.brkbase.toNat + size.toNat := by
  have := h.limit
  bv_omega

/-- What a call of `sys_brk` that succeeds does: the break is where it was aimed, and the address space
is as it was, or the heap grew and the pages from the old break rounded up are fresh. -/
lemma PlacedAt.brk_ok {w w' : World L M} (h : PlacedAt n opts w.p) {addr v : Word} {out : List Ev}
    (hrun : (sysBrk H opts addr).run w = ⟨.ok v, w', out⟩) (hne : v ≠ -1) :
    brkSize w.p addr < TUX_BRKMAXSIZE ∧ v = w.p.brkbase + brkSize w.p addr ∧
      w'.p.brkbase = w.p.brkbase ∧ w'.p.brksize = brkSize w.p addr ∧
      (((brkSize w.p addr).toNat ≤ w.p.brksize.toNat ∧ w'.p.as = w.p.as) ∨
       (w.p.brksize.toNat < (brkSize w.p addr).toNat ∧
        FreshAt H (brkNext opts w.p) (brkSize w.p addr - w.p.brksize)
          (LFI_PROT_READ ||| LFI_PROT_WRITE) w.p.as w'.p.as)) := by
  have hway := sysBrk_inv H opts addr w
  generalize (sysBrk H opts addr).run w = r at hway hrun
  cases hway with
  | stop _ => cases (Res.mk.inj hrun).1
  | abort _ _ _ _ => cases (Res.mk.inj hrun).1
  | same hsize heq =>
    obtain ⟨hv, rfl, _⟩ := Res.mk.inj hrun
    have hret : brkTo w.p addr = w.p.brkbase + brkSize w.p addr := by
      unfold brkSize
      bv_omega
    exact ⟨hsize, (Except.ok.inj hv).symm.trans hret, rfl, heq.symm, .inl ⟨by rw [heq], rfl⟩⟩
  | shrink hsize _ hge =>
    obtain ⟨hv, rfl, _⟩ := Res.mk.inj hrun
    rw [h.grows_iff, not_le] at hge
    exact ⟨hsize, (Except.ok.inj hv).symm, w.setBrk_brkbase _, w.setBrk_brksize _,
      .inl ⟨hge.le, w.setBrk_as _⟩⟩
  | fail _ _ _ _ =>
    obtain ⟨hv, _⟩ := Res.mk.inj hrun
    exact absurd (Except.ok.inj hv).symm hne
  | grow hsize hsame hge hmap hr =>
    obtain ⟨hv, rfl, _⟩ := Res.mk.inj hrun
    rw [h.grows_iff] at hge
    have hgrow : w.p.brksize.toNat < (brkSize w.p addr).toNat :=
      lt_of_le_of_ne hge fun heq => hsame (BitVec.eq_of_toNat_eq heq.symm)
    refine ⟨hsize, (Except.ok.inj hv).symm, (w.setAs _).setBrk_brkbase _,
      (w.setAs _).setBrk_brksize _, .inr ⟨hgrow, ?_⟩⟩
    rw [World.setBrk_as, World.setAs_as]
    rw [brkMap_eq] at hr
    rcases lfiAsMapat_spec (H := H) (brkNext opts w.p) (brkSize w.p addr - w.p.brksize)
      (LFI_PROT_READ ||| LFI_PROT_WRITE) w.p.as with
      ⟨_, _, _, hr'⟩ | ⟨_, _, _, hr'⟩ | ⟨_, _, _, _, hf, hr'⟩
    · rw [hr', Res.mk.injEq] at hr
      cases hr.1
    · rw [hr', Res.mk.injEq] at hr
      exact absurd (Except.ok.inj hr.1).symm hmap
    · rw [hr', Res.mk.injEq] at hr
      obtain ⟨_, rfl, _⟩ := hr
      exact hf

/-- A page that starts below the new break, and at or above a page boundary past the old one, is among those
that a growth maps. -/
lemma PlacedAt.covers_new {p : TuxThread L M} (h : PlacedAt n opts p) {size x : Word} {m : Nat}
    (hdvd : opts.pagesize.toNat ∣ m) (hm : p.brkbase.toNat + p.brksize.toNat ≤ m) (hlow : m ≤ pageOf H x)
    (hhigh : pageOf H x < p.brkbase.toNat + size.toNat) :
    covers H.pagesize (brkNext opts p) (size - p.brksize) x := by
  have hnext := h.next_le hdvd hm
  have hge := h.next.1
  have hpos := H.pagesize_pos
  have hlen : (size - p.brksize).toNat = size.toNat - p.brksize.toNat := by bv_omega
  rw [pageOf] at hhigh hlow
  refine ⟨by omega, by omega, ?_⟩
  rw [Nat.add_mul, Nat.one_mul]
  omega

/-- A page that a growth maps starts less than a page above the new break. -/
lemma PlacedAt.covers_lt {p : TuxThread L M} (h : PlacedAt n opts p) {size x : Word}
    (hn : p.brksize.toNat < size.toNat) (hx : covers H.pagesize (brkNext opts p) (size - p.brksize) x) :
    pageOf H x < p.brkbase.toNat + size.toNat + opts.pagesize.toNat := by
  obtain ⟨_, hlow, _⟩ := hx
  have hlt := h.next.2
  have hlen : (size - p.brksize).toNat = size.toNat - p.brksize.toNat := by bv_omega
  rw [pageOf]
  omega

/-- A call of `sys_brk` is a call of the machine. -/
lemma Simulates.step {w w' : World L M} {r : RefBrk} {call : Word × Word} (h : Simulates H opts w r)
    (hst : BrkStep H opts w call w') :
    ∃ r', RefStep w.p.brkbase.toNat r call r' ∧ w'.p.brkbase = w.p.brkbase ∧ Simulates H opts w' r' := by
  obtain ⟨addr, v⟩ := call
  obtain ⟨out, hrun, hne⟩ := hst
  dsimp only at hrun hne
  have hplaced := (h.placed.brk hrun).1
  obtain ⟨hsize, rfl, hbase, hbrk, has⟩ := h.placed.brk_ok hrun hne
  have hn : (brkSize w.p addr).toNat < 2 ^ 29 := hsize
  have hmove := h.placed.brkTo_move h.brk hsize
  have hpeak : (r.move w.p.brkbase.toNat addr).peak =
      max r.peak (w.p.brkbase.toNat + (brkSize w.p addr).toNat) := by
    rw [← hmove]
    rfl
  have hle := h.peak
  have hold := h.brk
  refine ⟨r.move w.p.brkbase.toNat addr, ⟨rfl, ?_⟩, hbase, hplaced, ?_, ?_, ?_, ?_⟩
  · rw [hmove]
    exact h.placed.result hn
  · rw [hmove, hbase, hbrk]
  · rw [hpeak, hmove]
    exact le_max_right _ _
  · intro x hres hx hgap
    have hold : ∀ b ∈ r.past, ¬ InGap opts b (pageOf H x) := fun b hb => hgap b (List.mem_cons_of_mem _ hb)
    rw [reserved_congr hbase] at hres
    rw [hpeak] at hx
    rcases has with ⟨hshrink, has⟩ | ⟨hgrow, hf⟩
    · rw [has]
      exact h.opened x hres (by omega) hold
    · rw [hf.prot x]
      split
      · rfl
      · rename_i hno
        refine h.opened x hres ?_ hold
        by_contra hhigh
        -- a page boundary lies between the break and the page, which is not in the gap of this growth
        refine hgap r.peak List.mem_cons_self ⟨not_lt.mp hhigh, fun m hdvd hm => ?_⟩
        by_contra hlow
        exact hno (h.placed.covers_new hdvd (by omega) (not_lt.mp hlow) (by omega))
  · intro x hres hx
    rw [reserved_congr hbase] at hres
    rw [hpeak] at hx
    rcases has with ⟨hshrink, has⟩ | ⟨hgrow, hf⟩
    · rw [has]
      exact h.closed x hres (by omega)
    · rw [hf.prot x]
      split
      · rename_i hc
        have := h.placed.covers_lt hgrow hc
        omega
      · exact h.closed x hres (by omega)

/-- A call with `0` returns the break and changes nothing. -/
lemma PlacedAt.brk_zero {w : World L M} (h : PlacedAt n opts w.p) :
    (sysBrk H opts 0).run w = ⟨.ok (w.p.brkbase + w.p.brksize), w, []⟩ := by
  have hto := h.brkTo_eq 0
  have hsize := h.size
  rw [if_pos rfl] at hto
  have hbrk : brkTo w.p 0 = w.p.brkbase + w.p.brksize := by
    apply BitVec.eq_of_toNat_eq
    rw [h.brk_toNat]
    omega
  have hsame : brkSize w.p 0 = w.p.brksize := by
    unfold brkSize
    rw [hbrk]
    bv_omega
  have hway := sysBrk_inv H opts 0 w
  generalize (sysBrk H opts 0).run w = r at hway
  cases hway with
  | stop hno =>
    rw [hsame] at hno
    exact absurd hsize hno
  | same _ _ => rw [hbrk]
  | shrink _ hne _ => exact absurd hsame hne
  | abort _ hne _ _ => exact absurd hsame hne
  | fail _ hne _ _ => exact absurd hsame hne
  | grow _ hne _ _ _ => exact absurd hsame hne

/-- The state `procsetup` leaves is the empty heap. -/
lemma procsetup_simulates {prog : Elf.Buf} {interp : Option Elf.Buf} {argv : List (List Byte)}
    {p : TuxThread L M} {w : World L M} (hdvd : opts.pagesize.toNat ∣ 2 ^ 32)
    (hset : ((procsetup H opts prog interp argv).run p).val = .ok true)
    (hw : w.p = ((procsetup H opts prog interp argv).run p).st) :
    Simulates H opts w (.start w.p.brkbase.toNat) := by
  obtain ⟨hplaced, hzero, hnone⟩ := procsetup_placed hdvd hset
  rw [← hw] at hplaced hzero hnone
  refine ⟨hplaced, ?_, le_rfl, fun x hres hx _ => ?_, fun x hres _ => ?_⟩
  · rw [hzero]
    rfl
  · -- the base is a page boundary, so the page of an address of the heap does not start below it
    have hdiv := Nat.div_mul_le_self x.toNat H.pagesize.toNat
    obtain ⟨b, hb⟩ := hplaced.base
    have hx : pageOf H x < w.p.brkbase.toNat := hx
    rw [pageOf, hb, Nat.mul_comm] at hx
    have hlt := Nat.lt_of_mul_lt_mul_left hx
    have hle := hres.1
    rw [hb, Nat.mul_comm] at hle
    have hge : b ≤ x.toNat / H.pagesize.toNat := (Nat.le_div_iff_mul_le H.pagesize_pos).mpr hle
    omega
  · exact hnone x (InSpan.covers H.pagesize_pos hres)

/-- On a host with the configured page size, no page is in a gap. -/
lemma not_inGap_pageOf (hpage : H.pagesize = opts.pagesize) (b : Nat) (x : Word) :
    ¬ InGap opts b (pageOf H x) := by
  rintro ⟨hle, hno⟩
  have hdvd : opts.pagesize.toNat ∣ pageOf H x := by
    rw [pageOf, hpage]
    exact Nat.dvd_mul_left ..
  exact lt_irrefl _ (hno _ hdvd hle)

/-- The calls of `sys_brk` in a run from the state `procsetup` leaves, with the values they return, are
a run of the machine from the empty heap, and the process ends in the state of the machine; where the host's
page is the configured one, all pages up to the highest break are open. A call with `0` changes nothing. -/
theorem brk_refines {prog : Elf.Buf} {interp : Option Elf.Buf} {argv : List (List Byte)}
    {p : TuxThread L M} {w w' : World L M} {l : List (Word × Word)}
    (hdvd : opts.pagesize.toNat ∣ 2 ^ 32)
    (hset : ((procsetup H opts prog interp argv).run p).val = .ok true)
    (hw : w.p = ((procsetup H opts prog interp argv).run p).st)
    (hr : Run (BrkStep H opts) w l w') :
    (∃ r, Run (RefStep w.p.brkbase.toNat) (.start w.p.brkbase.toNat) l r ∧
      w'.p.brkbase = w.p.brkbase ∧ Simulates H opts w' r ∧
      (H.pagesize = opts.pagesize →
        ∀ x, Reserved w'.p x → pageOf H x < r.peak → w'.p.as.prot x = heapProt)) ∧
    (sysBrk H opts 0).run w' = ⟨.ok (w'.p.brkbase + w'.p.brksize), w', []⟩ := by
  have hsim : ∃ r, Run (RefStep w.p.brkbase.toNat) (.start w.p.brkbase.toNat) l r ∧
      w'.p.brkbase = w.p.brkbase ∧ Simulates H opts w' r := by
    induction hr with
    | nil => exact ⟨_, .nil _, rfl, procsetup_simulates hdvd hset hw⟩
    | snoc _ hst ih =>
      obtain ⟨r, hrun, hbase, hs⟩ := ih
      obtain ⟨r', href, hbase', hs'⟩ := hs.step hst
      rw [hbase] at href
      exact ⟨r', .snoc hrun href, hbase'.trans hbase, hs'⟩
  obtain ⟨r, hrun, hbase, hs⟩ := hsim
  refine ⟨⟨r, hrun, hbase, hs, fun hpage x hres hx => ?_⟩, hs.placed.brk_zero⟩
  exact hs.opened x hres hx fun b _ => not_inGap_pageOf hpage b x

end

/-- Two growths and a request below the base. -/
theorem brk_refines_below :
    ∃ r, Run (RefStep heapStart.p.brkbase.toNat) (.start heapStart.p.brkbase.toNat)
      [(heapStart.p.brkbase + 5000, heapStart.p.brkbase + 5000), (1, heapStart.p.brkbase)] r := by
  have hgrow : BrkStep .open .plain heapStart (heapStart.p.brkbase + 5000, heapStart.p.brkbase + 5000)
      heapGrown := ⟨_, Res.eq_mk (by decide +kernel), by decide +kernel⟩
  have hlow : BrkStep .open .plain heapGrown (1, heapStart.p.brkbase)
      ((sysBrk .open .plain 1).run heapGrown).st := ⟨_, Res.eq_mk (by decide +kernel), by decide +kernel⟩
  have hw : heapStart.p = ((procsetup .open .plain Elf.textImage none [[]]).run
      (procnewfile (.fresh .plain) 10000)).st := by
    rw [heapStart, World.ofThread]
  obtain ⟨⟨r, hrun, _⟩, _⟩ :=
    brk_refines (by decide) heapStart_setup hw (.snoc (.snoc (.nil _) hgrow) hlow)
  exact ⟨r, hrun⟩

/-- The break that refuses a request outside `[base, base + TUX_BRKMAXSIZE)`. -/
def linuxBrk (base brk : Nat) (addr : Word) : Nat :=
  if base ≤ addr.toNat ∧ addr.toNat < base + TUX_BRKMAXSIZE.toNat then addr.toNat else brk

/-- A request below the base is not refused: after a growth `sys_brk` gives the heap up, where the break
that refuses stays. A page of the heap that was given up is still open. -/
theorem brk_not_refused :
    Run (BrkStep .open .plain) heapStart
      [(heapStart.p.brkbase + 5000, heapStart.p.brkbase + 5000), (1, heapStart.p.brkbase)]
      ((sysBrk .open .plain 1).run heapGrown).st ∧
    heapStart.p.brkbase.toNat ≠
      linuxBrk heapStart.p.brkbase.toNat
        (linuxBrk heapStart.p.brkbase.toNat heapStart.p.brkbase.toNat (heapStart.p.brkbase + 5000)) 1 ∧
    ((sysBrk .open .plain 1).run heapGrown).st.p.as.prot heapStart.p.brkbase = heapProt := by
  have hgrow : BrkStep .open .plain heapStart (heapStart.p.brkbase + 5000, heapStart.p.brkbase + 5000)
      heapGrown := ⟨_, Res.eq_mk (by decide +kernel), by decide +kernel⟩
  have hlow : BrkStep .open .plain heapGrown (1, heapStart.p.brkbase)
      ((sysBrk .open .plain 1).run heapGrown).st := ⟨_, Res.eq_mk (by decide +kernel), by decide +kernel⟩
  exact ⟨.snoc (.snoc (.nil _) hgrow) hlow, by decide +kernel, by decide +kernel⟩

end Libtux
