import Libtux.Sys.File
import Libtux.Sys.Heap

/-!
# When memory and seek calls return

The assertions on the paths of `sys_brk`, `sys_mmap`, `sys_mprotect`, `sys_munmap` and `sys_lseek` are
reached with what the guest passed: the range assertions of `lfi_as_mapat` and `lfi_as_mprotect`, the
one in `sys_brk` behind a clamp that lands exactly on the value it excludes, the unreachable branch of
`seekwhence`, and the assertion of `cbunmap` when the host does not unmap a piece. `MemCall.Accepted`
says for which arguments, in which state, none of them fails; `memCall_returns` is the equivalence, in
every state.
-/

namespace Libtux
open Lib

section
variable {L : LibMMap} {M : Machine} (H : HostVm) (O : HostOs) (opts : TuxOptions)

/-- The range of a fixed mapping is in the address space, and the host unmaps the pieces that libmmap
gives up for it. -/
def MapatOk (as : LFIAddrSpace L) (addr size : Word) : Prop :=
  InGuard as.info addr size ∧
    ∀ mm ps, L.mapat as.mm addr size = some (mm, ps) → Unmaps H as.nmmap ps

/-- The break that is asked for, not below the base. -/
def brkRequest (p : TuxThread L M) (addr : Word) : Word :=
  let brkp := if addr ≠ 0 then procaddr addr else p.brkbase + p.brksize
  if brkp < p.brkbase then p.brkbase else brkp

/-- The memory and seek calls with their arguments. -/
inductive MemCall where
  | brk (addr : Word)
  | mmap (addr length : Word) (prot flags fd : CInt)
  | mprotect (addr length : Word) (prot : CInt)
  | munmap (addr length : Word)
  | lseek (fd whence : CInt)

/-- The run of a call. -/
def MemCall.run : MemCall → Sys L M Word
  | brk addr => sysBrk H opts addr
  | mmap addr length prot flags fd => sysMmap H opts addr length prot flags fd
  | mprotect addr length prot => sysMprotect H addr length prot
  | munmap addr length => sysMunmap H addr length
  | lseek fd whence => sysLseek O fd whence

/-- A descriptor that can be mapped: none, or one with a host file. -/
def World.Mappable (w : World L M) (fd : CInt) : Prop :=
  fd.msb = true ∨ ∃ f, w.fdfile fd = some f ∧ f.has .file = true

/-- The arguments that a call returns for. -/
def MemCall.Accepted (w : World L M) : MemCall → Prop
  | brk addr =>
    brkRequest w.p addr < w.p.brkbase + TUX_BRKMAXSIZE ∧
      (w.p.brkbase + w.p.brksize < brkRequest w.p addr →
        MapatOk H w.p.as (brkNext opts w.p) (brkRequest w.p addr - (w.p.brkbase + w.p.brksize)))
  | mmap addr length _ flags fd =>
    length = 0 ∨ flags &&& ~~~mmapLegal ≠ 0 ∨ flags &&& LFI_MAP_FIXED = 0 ∨ ¬ w.Mappable fd ∨
      MapatOk H w.p.as (truncp addr opts.pagesize) (ceilp length opts.pagesize)
  | mprotect addr length _ => InGuard w.p.as.info addr length
  | munmap addr length =>
    ¬ (addr ≥ w.p.as.info.minaddr ∧ addr + length < w.p.as.info.maxaddr) ∨
      ∀ mm ps, L.unmap w.p.as.mm addr length = some (mm, ps) → Unmaps H w.p.as.nmmap ps
  | lseek fd whence =>
    (∀ f, w.fdfile fd = some f → f.has .lseek = false) ∨ whence = 0 ∨ whence = 1 ∨ whence = 2

variable {H O opts}

/-- A run returns a value. -/
def Returns {σ α : Type} (r : Res Stop Ev σ α) : Prop := ∃ v, r.val = .ok v

/-- `lfi_as_mapat` returns exactly when neither of its assertions fails. -/
lemma lfiAsMapat_returns (addr size : Word) (prot : CInt) (hf : Option HostFile)
    (as : LFIAddrSpace L) :
    Returns ((lfiAsMapat H addr size prot hf).run as) ↔ MapatOk H as addr size := by
  have hinv := lfiAsMapat_inv (H := H) addr size prot hf as
  generalize (lfiAsMapat H addr size prot hf).run as = r at hinv
  have heq : ∀ {mm ps}, L.mapat as.mm addr size = some (mm, ps) →
      ((∀ mm ps, L.mapat as.mm addr size = some (mm, ps) → Unmaps H as.nmmap ps) ↔
        Unmaps H as.nmmap ps) := by
    intro mm ps hm
    refine ⟨fun h => h mm ps hm, fun h mm' ps' hm' => ?_⟩
    rw [hm, Option.some.injEq, Prod.mk.injEq] at hm'
    rw [← hm'.2]
    exact h
  cases hinv with
  | guard hg => exact iff_of_false nofun fun h => hg h.1
  | full hg hm =>
    refine iff_of_true ⟨_, rfl⟩ ⟨hg, fun mm ps hm' => ?_⟩
    rw [hm] at hm'
    cases hm'
  | stop hg hm hu => exact iff_of_false nofun fun h => hu ((heq hm).mp h.2)
  | fail hg hm hu _ => exact iff_of_true ⟨_, rfl⟩ ⟨hg, (heq hm).mpr hu⟩
  | ok hg hm hu _ => exact iff_of_true ⟨_, rfl⟩ ⟨hg, (heq hm).mpr hu⟩

/-- `lfi_as_munmap` returns exactly when it refuses the range or the host unmaps the pieces. -/
lemma lfiAsMunmap_returns (addr size : Word) (as : LFIAddrSpace L) :
    Returns ((lfiAsMunmap H addr size).run as) ↔
      ¬ (addr ≥ as.info.minaddr ∧ addr + size < as.info.maxaddr) ∨
        ∀ mm ps, L.unmap as.mm addr size = some (mm, ps) → Unmaps H as.nmmap ps := by
  have hinv := lfiAsMunmap_inv (H := H) addr size as
  generalize (lfiAsMunmap H addr size).run as = r at hinv
  cases hinv with
  | guard hg => exact iff_of_true ⟨_, rfl⟩ (.inl hg)
  | full hg hm =>
    refine iff_of_true ⟨_, rfl⟩ (.inr fun mm ps hm' => ?_)
    rw [hm] at hm'
    cases hm'
  | stop hg hm hu => exact iff_of_false nofun fun h => h.elim (fun h => h hg) fun h => hu (h _ _ hm)
  | ok hg hm hu =>
    refine iff_of_true ⟨_, rfl⟩ (.inr fun mm ps hm' => ?_)
    rw [hm, Option.some.injEq, Prod.mk.injEq] at hm'
    rw [← hm'.2]
    exact hu

/-- The assertion of `sys_brk`, in words that do not wrap. -/
lemma brkSize_lt_iff (p : TuxThread L M) (addr : Word) :
    (brkSize p addr < TUX_BRKMAXSIZE ↔ brkRequest p addr < p.brkbase + TUX_BRKMAXSIZE) ∧
      (brkRequest p addr < p.brkbase + TUX_BRKMAXSIZE → brkTo p addr = brkRequest p addr) := by
  have hlow : p.brkbase ≤ brkRequest p addr := by
    unfold brkRequest
    dsimp only
    generalize (if addr ≠ 0 then procaddr addr else p.brkbase + p.brksize) = brkp
    split <;> rename_i hc
    · exact BitVec.le_refl _
    · exact BitVec.not_lt.mp hc
  have hto : brkTo p addr = if brkRequest p addr ≥ p.brkbase + TUX_BRKMAXSIZE then
      p.brkbase + TUX_BRKMAXSIZE else brkRequest p addr := rfl
  unfold brkSize
  rw [hto]
  generalize brkRequest p addr = request at hlow
  split <;> rename_i hge
  · refine ⟨iff_of_false ?_ (BitVec.not_lt.mpr hge), fun h => absurd hge (BitVec.not_le.mpr h)⟩
    unfold TUX_BRKMAXSIZE
    bv_omega
  · refine ⟨iff_of_true ?_ (BitVec.not_le.mp hge), fun _ => rfl⟩
    unfold TUX_BRKMAXSIZE at hge ⊢
    bv_omega

/-- `sys_brk` returns exactly for a request in the reservation whose growth can be mapped. -/
lemma sysBrk_returns (addr : Word) (w : World L M) :
    Returns ((sysBrk H opts addr).run w) ↔ (MemCall.brk addr).Accepted H opts w := by
  obtain ⟨hiff, hto⟩ := brkSize_lt_iff w.p addr
  have hsub : brkRequest w.p addr < w.p.brkbase + TUX_BRKMAXSIZE →
      brkSize w.p addr - w.p.brksize = brkRequest w.p addr - (w.p.brkbase + w.p.brksize) := by
    intro h
    unfold brkSize
    rw [hto h]
    bv_omega
  have hmap : brkSize w.p addr < TUX_BRKMAXSIZE →
      (Returns ((brkMap H opts w.p (brkSize w.p addr)).run w.p.as) ↔ MapatOk H w.p.as (brkNext opts w.p)
        (brkRequest w.p addr - (w.p.brkbase + w.p.brksize))) := by
    intro hsize
    rw [brkMap_eq, lfiAsMapat_returns, hsub (hiff.mp hsize)]
  have hgrows : brkSize w.p addr < TUX_BRKMAXSIZE → brkSize w.p addr ≠ w.p.brksize →
      brkTo w.p addr ≥ w.p.brkbase + w.p.brksize →
      w.p.brkbase + w.p.brksize < brkRequest w.p addr := by
    intro hsize hne hge
    have h := hto (hiff.mp hsize)
    unfold brkSize at hne
    rw [h] at hne hge
    bv_omega
  have hway := sysBrk_inv H opts addr w
  generalize (sysBrk H opts addr).run w = r at hway
  cases hway with
  | stop hsize => exact iff_of_false nofun fun h => hsize (hiff.mpr h.1)
  | same hsize heq =>
    refine iff_of_true ⟨_, rfl⟩ ⟨hiff.mp hsize, fun hlt => ?_⟩
    have h := hto (hiff.mp hsize)
    unfold brkSize at heq
    rw [h] at heq
    bv_omega
  | shrink hsize _ hge =>
    refine iff_of_true ⟨_, rfl⟩ ⟨hiff.mp hsize, fun hlt => absurd ?_ hge⟩
    rw [hto (hiff.mp hsize)]
    exact BitVec.le_of_lt hlt
  | abort hsize hne hge hr =>
    refine iff_of_false nofun fun h => ?_
    obtain ⟨v, hv⟩ := (hmap hsize).mpr (h.2 (hgrows hsize hne hge))
    rw [hr] at hv
    cases hv
  | fail hsize hne hge hr =>
    refine iff_of_true ⟨_, rfl⟩ ⟨hiff.mp hsize, fun _ => (hmap hsize).mp ?_⟩
    rw [hr]
    exact ⟨_, rfl⟩
  | grow hsize hne hge _ hr =>
    refine iff_of_true ⟨_, rfl⟩ ⟨hiff.mp hsize, fun _ => (hmap hsize).mp ?_⟩
    rw [hr]
    exact ⟨_, rfl⟩

/-- A run that goes on returns if it does. -/
lemma returns_bind {σ α β : Type} {x : Exec Stop Ev σ α} {f : α → Exec Stop Ev σ β} {s : σ}
    (hf : ∀ a t, Returns ((f a).run t)) : Returns ((x >>= f).run s) ↔ Returns (x.run s) := by
  rw [Exec.bind_run]
  generalize x.run s = r
  obtain ⟨v, t, l⟩ := r
  cases v with
  | error e =>
    rw [Exec.andThen_error]
    exact iff_of_false nofun nofun
  | ok a =>
    rw [Exec.andThen_ok]
    exact iff_of_true (hf a t) ⟨a, rfl⟩

/-- A value returns. -/
lemma returns_pure {σ α : Type} (a : α) (s : σ) : Returns ((pure a : Exec Stop Ev σ α).run s) := by
  rw [Exec.pure_run]
  exact ⟨a, rfl⟩

/-- A call on the address space returns if it does there. -/
lemma returns_onSpace {α : Type} (x : Vm L α) (w : World L M) :
    Returns ((onSpace x).run w) ↔ Returns (x.run w.p.as) := by
  rw [onSpace_run]
  exact Iff.rfl

/-- `mapfile` is a look at the descriptor. -/
lemma mapfile_run (fd : CInt) (w : World L M) :
    (¬ w.Mappable fd ∧ ∃ e, (mapfile fd).run w = ⟨.ok (.error e), w, []⟩) ∨
    (w.Mappable fd ∧ ∃ hf, (mapfile fd).run w = ⟨.ok (.ok hf), w, []⟩) := by
  rw [mapfile, Exec.get_ite_run]
  split <;> rename_i hneg
  · rw [Exec.pure_run]
    exact .inr ⟨.inl hneg, none, rfl⟩
  · cases hf : w.fdfile fd with
    | none =>
      dsimp only
      rw [Exec.pure_run]
      refine .inl ⟨?_, _, rfl⟩
      rintro (h | ⟨f, h, _⟩)
      · exact hneg h
      · rw [hf] at h
        cases h
    | some f =>
      dsimp only
      rw [Exec.ite_run]
      split <;> rename_i hfile
      · rw [Exec.pure_run]
        exact .inr ⟨.inr ⟨f, hf, hfile⟩, _, rfl⟩
      · rw [Exec.pure_run]
        refine .inl ⟨?_, _, rfl⟩
        rintro (h | ⟨f', h, hfile'⟩)
        · exact hneg h
        · rw [hf] at h
          cases h
          exact hfile hfile'

/-- `procmapany` returns. -/
lemma procmapany_returns (size : Word) (prot fd : CInt) (w : World L M) :
    Returns ((procmapany H size prot fd).run w) := by
  rw [procmapany, Exec.bind_run]
  rcases mapfile_run fd w with ⟨_, e, hr⟩ | ⟨_, hf, hr⟩
  · rw [hr, Exec.andThen_ok_nil]
    exact returns_pure e w
  · rw [hr, Exec.andThen_ok_nil]
    refine (returns_bind fun addr t => ?_).mpr ((returns_onSpace _ _).mpr ?_)
    · rw [Exec.ite_run]
      split
      · exact returns_pure _ t
      · exact returns_pure _ t
    · have hinv := lfiAsMapany_inv (H := H) size prot hf w.p.as
      generalize (lfiAsMapany H size prot hf).run w.p.as = r at hinv
      cases hinv with
      | full _ => exact ⟨_, rfl⟩
      | fail _ _ => exact ⟨_, rfl⟩
      | ok _ _ => exact ⟨_, rfl⟩

/-- `procmapat` returns for a descriptor it refuses and where the range can be mapped. -/
lemma procmapat_returns (start size : Word) (prot fd : CInt) (w : World L M) :
    Returns ((procmapat H start size prot fd).run w) ↔
      ¬ w.Mappable fd ∨ MapatOk H w.p.as start size := by
  rw [procmapat, Exec.bind_run]
  rcases mapfile_run fd w with ⟨hno, e, hr⟩ | ⟨hyes, hf, hr⟩
  · rw [hr, Exec.andThen_ok_nil]
    exact iff_of_true (returns_pure e w) (.inl hno)
  · rw [hr, Exec.andThen_ok_nil, returns_bind, returns_onSpace, lfiAsMapat_returns]
    · exact ⟨.inr, fun h => h.resolve_left (not_not.mpr hyes)⟩
    · intro addr t
      rw [Exec.ite_run]
      split
      · exact returns_pure _ t
      · exact returns_pure _ t

/-- `sys_mmap` returns unless it maps a fixed range that cannot be mapped. -/
lemma sysMmap_returns (addr length : Word) (prot flags fd : CInt) (w : World L M) :
    Returns ((sysMmap H opts addr length prot flags fd).run w) ↔
      (MemCall.mmap addr length prot flags fd).Accepted H opts w := by
  rw [sysMmap, Exec.ite_run, MemCall.Accepted]
  split <;> rename_i hlen
  · exact iff_of_true (returns_pure _ w) (.inl hlen)
  · rw [Exec.ite_run]
    split <;> rename_i hlegal
    · exact iff_of_true (returns_pure _ w) (.inr (.inl hlegal))
    · rw [Exec.ite_run]
      split <;> rename_i hfixed
      · rw [procmapat_returns]
        refine ⟨fun h => .inr (.inr (.inr h)), fun h => ?_⟩
        exact ((h.resolve_left hlen).resolve_left hlegal).resolve_left hfixed
      · exact iff_of_true (procmapany_returns _ prot fd w) (.inr (.inr (.inl (not_not.mp hfixed))))

/-- `sys_lseek` returns for a descriptor it refuses and for a `whence` it knows. -/
lemma sysLseek_returns (fd whence : CInt) (w : World L M) :
    Returns ((sysLseek O fd whence).run w) ↔ (MemCall.lseek fd whence).Accepted H opts w := by
  have hhost : ∀ w : World L M, Returns ((hostSize O).run w) := by
    intro w
    rw [hostSize, Exec.bind_run, Exec.gets_run, Exec.andThen_ok_nil, returns_bind]
    · exact ⟨_, rfl⟩
    · intro r t
      cases r with
      | none => exact returns_pure _ t
      | some n => exact returns_pure _ t
  rw [sysLseek, withHandler, Exec.bind_run, Exec.get_run, Exec.andThen_ok_nil, MemCall.Accepted]
  cases hf : w.fdfile fd with
  | none => exact iff_of_true (returns_pure _ w) (.inl fun f hf => by cases hf)
  | some f =>
    dsimp only
    rw [Exec.ite_run]
    split <;> rename_i hop
    · rw [Exec.check_bind_run]
      split <;> rename_i hwhence
      · exact iff_of_true (hhost w) (.inr hwhence)
      · refine iff_of_false (fun hr => by cases hr with | intro v hv => cases hv) fun h => h.elim (fun h => ?_) hwhence
        have hno := h f rfl
        rw [hop] at hno
        cases hno
    · refine iff_of_true (returns_pure _ w) (.inl fun f' hf' => ?_)
      cases hf'
      exact Bool.eq_false_iff.mpr hop

/-- In every state, a memory or seek call returns a value to the guest exactly when its arguments are
accepted. -/
theorem memCall_returns (c : MemCall) (w : World L M) :
    (∃ v, ((c.run H O opts).run w).val = .ok v) ↔ c.Accepted H opts w := by
  cases c with
  | brk addr => exact sysBrk_returns addr w
  | mmap addr length prot flags fd => exact sysMmap_returns addr length prot flags fd w
  | mprotect addr length prot =>
    refine (returns_bind fun r t => returns_pure _ t).trans ((returns_onSpace _ w).trans ?_)
    rcases lfiAsMprotect_cases (H := H) (procaddr addr) length prot w.p.as with ⟨hg, hr⟩ | ⟨hg, r, _, hr⟩
    · rw [hr]
      exact iff_of_false nofun hg
    · rw [hr]
      exact iff_of_true ⟨_, rfl⟩ hg
  | munmap addr length =>
    refine (returns_bind fun r t => returns_pure _ t).trans ((returns_onSpace _ w).trans ?_)
    exact lfiAsMunmap_returns (procaddr addr) length w.p.as
  | lseek fd whence => exact sysLseek_returns fd whence w

end

/-- A new process aborts the host: with a break at the end of its reservation, with a fixed mapping and
with a protection of the page at address `0`. -/
theorem memCall_aborts :
    (((MemCall.brk (heapStart.p.brkbase + TUX_BRKMAXSIZE)).run .open .plain .plain).run heapStart).val =
      .error (.assertion .brkNewsize) ∧
    (((MemCall.mmap 0 4096 3 50 (-1)).run .open .plain .plain).run heapStart).val =
      .error (.assertion .mapatRange) ∧
    (((MemCall.mprotect 0 4096 3).run .open .plain .plain).run heapStart).val =
      .error (.assertion .mprotectRange) := by
  refine ⟨by decide +kernel, by decide +kernel, by decide +kernel⟩

end Libtux
