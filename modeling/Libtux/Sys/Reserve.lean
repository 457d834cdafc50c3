import Libtux.Sys.Heap

/-!
# The reservation of the heap

`procsetup` reserves `[brkbase, brkbase + TUX_BRKMAXSIZE)`. A growth of the heap maps from the old break
rounded up, for the unrounded difference of the sizes, so its end is past the new break by the rounding
of the old one. It stays in the reservation when that much room is left (`BrkFits`); then no page of a
region that `sys_mmap` placed outside of the reservation is touched (`brk_reserved`).
`brk_overruns` is a run in which the last page is not there.
-/

namespace Libtux
open Lib

section
variable {L : LibMMap} {M : Machine} {H : HostVm} {opts : TuxOptions} {n : Nat}

/-- The addresses of the reservation. -/
def Reserved (p : TuxThread L M) (x : Word) : Prop := InSpan p.brkbase TUX_BRKMAXSIZE x

/-- The reservation starts at the base of the heap. -/
lemma reserved_congr {p p' : TuxThread L M} (h : p'.brkbase = p.brkbase) {x : Word} :
    Reserved p' x ↔ Reserved p x := by
  rw [Reserved, Reserved, h]

/-- A call that raises the break leaves room for the rounding of the old break. -/
def BrkFits (opts : TuxOptions) (p : TuxThread L M) (addr : Word) : Prop :=
  p.brkbase.toNat + p.brksize.toNat < addr.toNat →
    addr.toNat + ((brkNext opts p).toNat - (p.brkbase.toNat + p.brksize.toNat)) ≤
      p.brkbase.toNat + 2 ^ 29

/-- A request above the break that passes the assertion is where the break goes. -/
lemma PlacedAt.brkTo_above {p : TuxThread L M} (h : PlacedAt n opts p) {addr : Word}
    (hsize : brkSize p addr < TUX_BRKMAXSIZE) (hlt : p.brksize.toNat < (brkSize p addr).toNat) :
    addr.toNat = p.brkbase.toNat + (brkSize p addr).toNat := by
  have hto := h.brkTo_toNat addr
  have heq := h.brkTo_eq addr
  have hs : (brkSize p addr).toNat < 2 ^ 29 := hsize
  split at heq
  · omega
  · omega

/-- The pages of a growth that fits are pages of the reservation. -/
lemma PlacedAt.reserved (hpage : H.pagesize.toNat ∣ opts.pagesize.toNat) (hhost : H.pagesize.toNat ∣ 2 ^ 29)
    {p : TuxThread L M} (h : PlacedAt H.pagesize.toNat opts p) {addr x : Word} (hfit : BrkFits opts p addr)
    (hsize : brkSize p addr < TUX_BRKMAXSIZE) (hlt : p.brksize.toNat < (brkSize p addr).toNat)
    (hx : covers H.pagesize (brkNext opts p) (brkSize p addr - p.brksize) x) : Reserved p x := by
  have haddr := h.brkTo_above hsize hlt
  have hroom := hfit (by omega)
  have hd := h.next_dvd hpage
  obtain ⟨hge, hle⟩ := h.next
  have hlen : (brkSize p addr - p.brksize).toNat = (brkSize p addr).toNat - p.brksize.toNat := by
    bv_omega
  have hlow : (brkNext opts p).toNat ≤ x.toNat := by
    by_contra hno
    exact not_covers_of_lt hd (not_le.mp hno) hx
  refine ⟨by omega, ?_⟩
  have hmax : TUX_BRKMAXSIZE.toNat = 2 ^ 29 := rfl
  obtain ⟨_, hstart, _⟩ := hx
  -- the page starts below the end of the reservation, which is a page boundary
  obtain ⟨c, hc⟩ := Nat.dvd_add h.base hhost
  have hmod := Nat.lt_div_mul_add (a := x.toNat) H.pagesize_pos
  rw [hlen] at hstart
  have hend : x.toNat / H.pagesize.toNat * H.pagesize.toNat < H.pagesize.toNat * c := by
    omega
  rw [Nat.mul_comm] at hend
  have hq := Nat.mul_le_mul_left H.pagesize.toNat (Nat.succ_le_of_lt (Nat.lt_of_mul_lt_mul_left hend))
  rw [Nat.mul_succ, Nat.mul_comm _ (x.toNat / _)] at hq
  omega

/-- `sys_brk` leaves the heap placed. -/
lemma PlacedAt.brk {w w' : World L M} (h : PlacedAt n opts w.p) {addr v : Word} {out : List Ev}
    (hrun : (sysBrk H opts addr).run w = ⟨.ok v, w', out⟩) :
    PlacedAt n opts w'.p ∧ w'.p.brkbase = w.p.brkbase := by
  have hlt : ∀ {n : Word}, n < TUX_BRKMAXSIZE → n.toNat < 2 ^ 29 := fun hn => hn
  have hway := sysBrk_inv H opts addr w
  generalize (sysBrk H opts addr).run w = r at hway hrun
  cases hway with
  | stop _ => cases (Res.mk.inj hrun).1
  | same _ _ =>
    obtain ⟨_, rfl, _⟩ := Res.mk.inj hrun
    exact ⟨h, rfl⟩
  | shrink hsize _ _ =>
    obtain ⟨_, rfl, _⟩ := Res.mk.inj hrun
    exact ⟨h.move (w.setBrk_brkbase _) (hlt hsize), w.setBrk_brkbase _⟩
  | abort _ _ _ _ => cases (Res.mk.inj hrun).1
  | fail _ _ _ _ =>
    obtain ⟨_, rfl, _⟩ := Res.mk.inj hrun
    exact ⟨h.move (w.setAs_brkbase _) h.size, w.setAs_brkbase _⟩
  | grow hsize _ _ _ _ =>
    obtain ⟨_, rfl, _⟩ := Res.mk.inj hrun
    exact ⟨h.move ((w.setAs _).setBrk_brkbase _) (hlt hsize), (w.setAs _).setBrk_brkbase _⟩

/-- What a call of `sys_brk` that fits asks for and what it changes, it does so in the reservation. -/
lemma PlacedAt.confined (hpage : H.pagesize.toNat ∣ opts.pagesize.toNat) (hhost : H.pagesize.toNat ∣ 2 ^ 29)
    {w : World L M} (h : PlacedAt H.pagesize.toNat opts w.p) {addr : Word} (hfit : BrkFits opts w.p addr) :
    (∀ a n, .mapat a n ∈ ((sysBrk H opts addr).run w).out →
      ∀ x, covers H.pagesize a n x → Reserved w.p x) ∧
    ∀ v, ((sysBrk H opts addr).run w).val = .ok v → ∀ x, ¬ Reserved w.p x →
      ((sysBrk H opts addr).run w).st.p.as.mem x = w.p.as.mem x ∧
      ((sysBrk H opts addr).run w).st.p.as.prot x = w.p.as.prot x := by
  have hway := sysBrk_inv H opts addr w
  generalize (sysBrk H opts addr).run w = r at hway
  have hgrow : ∀ {st out} {v : Except Stop Word}, brkSize w.p addr < TUX_BRKMAXSIZE →
      brkSize w.p addr ≠ w.p.brksize → brkTo w.p addr ≥ w.p.brkbase + w.p.brksize →
      (brkMap H opts w.p (brkSize w.p addr)).run w.p.as = ⟨v, st, out⟩ →
      (∀ a n, .mapat a n ∈ out → ∀ x, covers H.pagesize a n x → Reserved w.p x) ∧
      ∀ map, v = .ok map → ∀ x, ¬ Reserved w.p x →
        st.mem x = w.p.as.mem x ∧ st.prot x = w.p.as.prot x := by
    intro st out v hsize hne hge hr
    rw [h.grows_iff] at hge
    have hlt : w.p.brksize.toNat < (brkSize w.p addr).toNat :=
      lt_of_le_of_ne hge fun heq => hne (BitVec.eq_of_toNat_eq heq.symm)
    have hres : ∀ x, covers H.pagesize (brkNext opts w.p) (brkSize w.p addr - w.p.brksize) x →
        Reserved w.p x := fun x hx => h.reserved hpage hhost hfit hsize hlt hx
    rw [brkMap_eq] at hr
    rcases lfiAsMapat_spec (H := H) (brkNext opts w.p) (brkSize w.p addr - w.p.brksize)
      (LFI_PROT_READ ||| LFI_PROT_WRITE) w.p.as with
      ⟨_, _, _, hr'⟩ | ⟨_, _, hsame, hr'⟩ | ⟨_, _, _, _, hf, hr'⟩
    all_goals
      rw [hr', Res.mk.injEq] at hr
      obtain ⟨rfl, rfl, rfl⟩ := hr
      refine ⟨fun a n hmem x hx => ?_, fun map hmap x hx => ?_⟩
    · obtain ⟨rfl, rfl⟩ := Ev.mapat.inj (List.mem_singleton.mp hmem)
      exact hres x hx
    · cases hmap
    · obtain ⟨rfl, rfl⟩ := Ev.mapat.inj (List.mem_singleton.mp hmem)
      exact hres x hx
    · exact hsame x (.inr fun hc => hx (hres x hc))
    · obtain ⟨rfl, rfl⟩ := Ev.mapat.inj (List.mem_singleton.mp hmem)
      exact hres x hx
    · exact ⟨(hf.mem x).trans (if_neg fun hc => hx (hres x hc)),
        (hf.prot x).trans (if_neg fun hc => hx (hres x hc))⟩
  cases hway with
  | stop _ => exact ⟨nofun, nofun⟩
  | same _ _ => exact ⟨nofun, fun _ _ _ _ => ⟨rfl, rfl⟩⟩
  | shrink _ _ _ => exact ⟨nofun, fun _ _ _ _ => ⟨rfl, rfl⟩⟩
  | abort hsize hne hge hr => exact ⟨(hgrow hsize hne hge hr).1, nofun⟩
  | fail hsize hne hge hr =>
    obtain ⟨hask, hsame⟩ := hgrow hsize hne hge hr
    exact ⟨hask, fun _ _ => hsame _ rfl⟩
  | grow hsize hne hge _ hr =>
    obtain ⟨hask, hsame⟩ := hgrow hsize hne hge hr
    exact ⟨hask, fun _ _ => hsame _ rfl⟩

/-! ## Runs with mappings -/

/-- The heap of a process. -/
def World.heap (w : World L M) : Word × Word := (w.p.brkbase, w.p.brksize)

/-- What is done to the address space leaves the break, -/
lemma keeps_onSpace {α : Type} (x : Vm L α) : Exec.Keeps World.heap (onSpace (M := M) x) := by
  intro w
  rw [onSpace_run]
  rfl

/-- and so does the lookup of a file. -/
lemma keeps_mapfile (fd : CInt) : Exec.Keeps World.heap (mapfile (L := L) (M := M) fd) := by
  refine .bind Exec.keeps_get fun w => .ite (Exec.keeps_pure _) ?_
  split
  · exact Exec.keeps_pure _
  · exact .ite (Exec.keeps_pure _) (Exec.keeps_pure _)

/-- `sys_mmap` leaves the break alone. -/
lemma keeps_sysMmap (H : HostVm) (opts : TuxOptions) (addr length : Word) (prot flags fd : CInt) :
    Exec.Keeps World.heap (sysMmap (L := L) (M := M) H opts addr length prot flags fd) := by
  refine .ite (Exec.keeps_pure _) (.ite (Exec.keeps_pure _) (.ite ?_ ?_))
  · refine .bind (keeps_mapfile fd) fun r => ?_
    cases r with
    | error e => exact Exec.keeps_pure _
    | ok hf => exact .bind (keeps_onSpace _) fun _ => .ite (Exec.keeps_pure _) (Exec.keeps_pure _)
  · refine .bind (keeps_mapfile fd) fun r => ?_
    cases r with
    | error e => exact Exec.keeps_pure _
    | ok hf => exact .bind (keeps_onSpace _) fun _ => .ite (Exec.keeps_pure _) (Exec.keeps_pure _)

/-- A `sys_mmap` that returns left it too. -/
lemma sysMmap_heap {addr length v : Word} {prot flags fd : CInt} {w w' : World L M} {out : List Ev}
    (hrun : (sysMmap H opts addr length prot flags fd).run w = ⟨.ok v, w', out⟩) :
    w'.heap = w.heap := by
  have hkeep := keeps_sysMmap H opts addr length prot flags fd w
  rw [hrun] at hkeep
  exact hkeep

/-- A process with the regions that its calls of `sys_mmap` returned. -/
structure Mapped (L : LibMMap) (M : Machine) where
  w : World L M
  regions : List (Word × Word)

/-- A call of `sys_brk`, or of `sys_mmap`. -/
inductive MapAct where
  | brk (addr : Word)
  | mmap (addr length : Word) (prot flags fd : CInt)

/-- One call of `sys_brk`, or of `sys_mmap` without `MAP_FIXED`. A region that libmmap placed is assumed
to lie outside of the reservation; a call that placed none returns no region. -/
inductive MapStep (H : HostVm) (opts : TuxOptions) : Mapped L M → MapAct → Mapped L M → Prop where
  | brk {w w' rs addr v out} : (sysBrk H opts addr).run w = ⟨.ok v, w', out⟩ →
    MapStep H opts ⟨w, rs⟩ (.brk addr) ⟨w', rs⟩
  | mmap {w w' rs addr length prot flags fd v out} : flags &&& LFI_MAP_FIXED = 0 →
    (sysMmap H opts addr length prot flags fd).run w = ⟨.ok v, w', out⟩ →
    (∀ x, InSpan v (ceilp length opts.pagesize) x → ¬ Reserved w.p x) →
    MapStep H opts ⟨w, rs⟩ (.mmap addr length prot flags fd)
      ⟨w', (v, ceilp length opts.pagesize) :: rs⟩
  | refused {w w' rs addr length prot flags fd v out} : flags &&& LFI_MAP_FIXED = 0 →
    (sysMmap H opts addr length prot flags fd).run w = ⟨.ok v, w', out⟩ →
    MapStep H opts ⟨w, rs⟩ (.mmap addr length prot flags fd) ⟨w', rs⟩

/-- The condition on a step. -/
def MapAct.Fits (opts : TuxOptions) (s : Mapped L M) : MapAct → Prop
  | .brk addr => BrkFits opts s.w.p addr
  | .mmap _ _ _ _ _ => True

/-- The heap is placed, and no region is in its reservation. -/
structure Mapped.Inv (n : Nat) (opts : TuxOptions) (s : Mapped L M) : Prop where
  placed : PlacedAt n opts s.w.p
  outside : ∀ r ∈ s.regions, ∀ x, InSpan r.1 r.2 x → ¬ Reserved s.w.p x

/-- Where a heap lies depends on nothing else. -/
lemma PlacedAt.of_heap {w w' : World L M} (h : PlacedAt n opts w.p) (heq : w'.heap = w.heap) :
    PlacedAt n opts w'.p := by
  obtain ⟨hbase, hsize⟩ := Prod.mk.inj heq
  exact h.move hbase (by rw [hsize]; exact h.size)

/-- One call keeps the invariant. -/
lemma Mapped.Inv.step {s s' : Mapped L M} {a : MapAct} (h : s.Inv n opts)
    (hst : MapStep H opts s a s') : s'.Inv n opts := by
  cases hst with
  | brk hrun =>
    obtain ⟨hplaced, hbase⟩ := h.placed.brk hrun
    exact ⟨hplaced, fun r hr x hx => (reserved_congr hbase).not.mpr (h.outside r hr x hx)⟩
  | mmap _ hrun hout =>
    have hheap := sysMmap_heap hrun
    have hbase := (Prod.mk.inj hheap).1
    refine ⟨h.placed.of_heap hheap, fun r hr x hx => (reserved_congr hbase).not.mpr ?_⟩
    rcases List.mem_cons.mp hr with rfl | hr
    · exact hout x hx
    · exact h.outside r hr x hx
  | refused _ hrun =>
    have hheap := sysMmap_heap hrun
    have hbase := (Prod.mk.inj hheap).1
    exact ⟨h.placed.of_heap hheap, fun r hr x hx =>
      (reserved_congr hbase).not.mpr (h.outside r hr x hx)⟩

/-- From the state `procsetup` leaves, on a host whose page divides the one that `sys_brk` rounds to, in
every run whose calls of `sys_brk` all leave room for the rounding of the old break: such a call asks for
pages of the reservation only, and changes neither a byte nor the protection of a region that `sys_mmap`
returned. -/
theorem brk_reserved {prog : Elf.Buf} {interp : Option Elf.Buf} {argv : List (List Byte)}
    {p : TuxThread L M} {w : World L M} {s : Mapped L M} {l : List MapAct}
    (hpage : H.pagesize.toNat ∣ opts.pagesize.toNat) (hhost : H.pagesize.toNat ∣ 2 ^ 29)
    (hdvd : opts.pagesize.toNat ∣ 2 ^ 32)
    (hset : ((procsetup H opts prog interp argv).run p).val = .ok true)
    (hw : w.p = ((procsetup H opts prog interp argv).run p).st)
    (hr : Run (Guarded (fun s a => a.Fits opts s) (MapStep H opts)) ⟨w, []⟩ l s)
    {addr : Word} (hfit : BrkFits opts s.w.p addr) :
    (∀ a n, .mapat a n ∈ ((sysBrk H opts addr).run s.w).out →
      ∀ x, covers H.pagesize a n x → Reserved s.w.p x) ∧
    ∀ v, ((sysBrk H opts addr).run s.w).val = .ok v →
      ∀ r ∈ s.regions, ∀ x, InSpan r.1 r.2 x →
        ((sysBrk H opts addr).run s.w).st.p.as.mem x = s.w.p.as.mem x ∧
        ((sysBrk H opts addr).run s.w).st.p.as.prot x = s.w.p.as.prot x := by
  have hplaced : PlacedAt H.pagesize.toNat opts w.p := by
    rw [hw]
    exact (procsetup_placed hdvd hset).1
  have hinv : s.Inv H.pagesize.toNat opts :=
    Run.invariant (I := Mapped.Inv H.pagesize.toNat opts) (fun h hst => h.step hst.2)
      ⟨hplaced, fun r hr => absurd hr List.not_mem_nil⟩ hr
  obtain ⟨hask, hsame⟩ := hinv.placed.confined hpage hhost hfit
  exact ⟨hask, fun v hv r hr x hx => hsame v hv x (hinv.outside r hr x hx)⟩

end

/-- A page mapped for reading when the process starts. -/
def heapMapped : World .ofRanges .x64 := ((sysMmap .open .plain 0 4096 1 34 (-1)).run heapStart).st

/-- The first page after the reservation, where the mapping is. -/
def heapEnd : Word := heapStart.p.brkbase + TUX_BRKMAXSIZE

/-- The break raised by one byte. -/
def heapByte : World .ofRanges .x64 :=
  ((sysBrk .open .plain (heapStart.p.brkbase + 1)).run heapMapped).st

/-- A page is mapped behind the heap. -/
lemma heapMapped_step : MapStep .open .plain ⟨heapStart, []⟩ (.mmap 0 4096 1 34 (-1))
    ⟨heapMapped, [(heapEnd, 4096)]⟩ := by
  have hrun : (sysMmap .open .plain 0 4096 1 34 (-1)).run heapStart = ⟨.ok heapEnd, heapMapped, _⟩ :=
    Res.eq_mk (by decide +kernel)
  refine .mmap (by decide) hrun fun x hx hres => ?_
  have hend : heapEnd.toNat = heapStart.p.brkbase.toNat + TUX_BRKMAXSIZE.toNat := by decide +kernel
  have hlo := hx.1
  have hhi := hres.2
  omega

/-- Then the heap grows by a byte. -/
lemma heapByte_step : MapStep .open .plain ⟨heapMapped, [(heapEnd, 4096)]⟩
    (.brk (heapStart.p.brkbase + 1)) ⟨heapByte, [(heapEnd, 4096)]⟩ := by
  have hrun : (sysBrk .open .plain (heapStart.p.brkbase + 1)).run heapMapped =
      ⟨.ok (heapStart.p.brkbase + 1), heapByte, _⟩ := Res.eq_mk (by decide +kernel)
  exact .brk hrun

/-- A growth that leaves room does not touch the mapping after the reservation. -/
theorem brk_reserved_mapping :
    ((sysBrk .open .plain (heapStart.p.brkbase + 5000)).run heapByte).st.p.as.prot heapEnd =
      heapByte.p.as.prot heapEnd := by
  have hfit : MapAct.Fits .plain ⟨heapMapped, [(heapEnd, 4096)]⟩ (.brk (heapStart.p.brkbase + 1)) := by
    intro _
    decide +kernel
  have hfit' : BrkFits .plain heapByte.p (heapStart.p.brkbase + 5000) := by
    intro _
    decide +kernel
  have hr : Run (Guarded (fun s a => a.Fits .plain s) (MapStep .open .plain)) ⟨heapStart, []⟩
      [.mmap 0 4096 1 34 (-1), .brk (heapStart.p.brkbase + 1)] ⟨heapByte, [(heapEnd, 4096)]⟩ :=
    .snoc (.snoc (.nil _) (.intro trivial heapMapped_step)) (.intro hfit heapByte_step)
  have hval : ((sysBrk .open .plain (heapStart.p.brkbase + 5000)).run heapByte).val =
      .ok (heapStart.p.brkbase + 5000) := by decide +kernel
  have hw : heapStart.p = ((procsetup .open .plain Elf.textImage none [[]]).run
      (procnewfile (.fresh .plain) 10000)).st := by
    rw [heapStart, World.ofThread]
  have hin : InSpan heapEnd 4096 heapEnd := by decide +kernel
  obtain ⟨_, hsame⟩ := brk_reserved dvd_rfl (by decide) (by decide) heapStart_setup hw hr hfit'
  dsimp only at hsame
  exact (hsame _ hval (heapEnd, 4096) (List.mem_singleton.mpr rfl) heapEnd hin).2

/-- A break raised by one byte and then to the last byte of the reservation: the growth maps a page past
the reservation, and a mapping there that was readable becomes writable. -/
theorem brk_overruns :
    Run (MapStep .open .plain) ⟨heapStart, []⟩
      [.mmap 0 4096 1 34 (-1), .brk (heapStart.p.brkbase + 1)] ⟨heapByte, [(heapEnd, 4096)]⟩ ∧
    ((sysBrk .open .plain (heapEnd - 1)).run heapByte).val = .ok (heapEnd - 1) ∧
    (∃ a n, .mapat a n ∈ ((sysBrk .open .plain (heapEnd - 1)).run heapByte).out ∧
      covers HostVm.open.pagesize a n heapEnd ∧ ¬ Reserved heapByte.p heapEnd) ∧
    heapByte.p.as.prot heapEnd = 1 ∧
    ((sysBrk .open .plain (heapEnd - 1)).run heapByte).st.p.as.prot heapEnd = 3 := by
  refine ⟨.snoc (.snoc (.nil _) heapMapped_step) heapByte_step, by decide +kernel,
    ⟨heapStart.p.brkbase + 4096, TUX_BRKMAXSIZE - 2, by decide +kernel, by decide +kernel, ?_⟩,
    by decide +kernel, by decide +kernel⟩
  intro hres
  have hend : heapEnd.toNat = heapByte.p.brkbase.toNat + TUX_BRKMAXSIZE.toNat := by decide +kernel
  have hhi := hres.2
  omega

end Libtux
