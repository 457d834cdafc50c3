import Libtux.Pal.Window
import Libtux.Sys.Confine
import Libtux.Sys.Frame
import Libtux.Sys.Heap

/-!
# System calls stay in the window

A system call of one sandbox leaves the memory and the protections outside of its window alone. Two things
are behind that. A call that is no mapping call changes memory only where it announced an access
(`syscall_respects`), and the accesses are in the window when the arguments fit (`syscall_confined`). The
mapping calls stay in it when their range does not wrap (`Sysno.NoWrap`), which for the break follows from
where the heap is placed.
-/

namespace Libtux
open Lib Exec

section
variable {L : LibMMap} {M : Machine} {H : HostVm} {O : HostOs} {opts : TuxOptions} {i : LFIAddrSpaceInfo}
  {ok : L.Table → Prop} {α : Type}

/-- A run of a system call in the window. -/
def Window (i : LFIAddrSpaceInfo) (ok : L.Table → Prop) (w : World L M) (l : List Ev) (w' : World L M) :
    Prop := OutOf i ok w.p.as l w'.p.as

/-- Calls in the window compose. -/
lemma window_composes : Composes (Window (M := M) i ok) where
  nil w := outOf_composes.nil w.p.as
  append h h' := outOf_composes.append h h'

/-- Nothing changed. -/
lemma Inward.refl {as : LFIAddrSpace L} (hi : as.info = i) (hok : ok as.mm) : Inward i ok as as :=
  ⟨hi, hok, fun _ _ => rfl, fun _ _ => rfl⟩

/-- What leaves the address space alone is in the window. -/
lemma Window.of_as {w w' : World L M} {l : List Ev} (h : w'.p.as = w.p.as) : Window i ok w l w' := by
  intro hi hok
  rw [h]
  exact .refl hi hok

/-- What is done to the address space in the window. -/
lemma space_window {x : Vm L α} (hx : Respects (OutOf i ok) x) :
    Respects (Window i ok) (onSpace x : Sys L M α) := hx.zoom fun h => h

variable (hP : i.Paged H.pagesize) (hL : L.Confines i ok)
include hP hL

omit hP hL in
/-- The mapping calls of `mmap`, with the file looked up before. -/
lemma map_window {x : Option HostFile → Vm L Word} {f : Word → Word} {fd : CInt}
    (hx : ∀ hf, Respects (OutOf i ok) (x hf)) :
    Respects (Window i ok) (mapfile fd >>= fun r =>
      match r with
      | .error e => pure e
      | .ok hf => onSpace (x hf) >>= fun addr =>
        if addr = mapFailed then pure (negErr TUX_EINVAL) else pure (f addr) : Sys L M Word) := by
  refine Respects.bind window_composes ?_ fun r => ?_
  · refine Respects.bind window_composes (respects_get window_composes) fun w =>
      Respects.ite (respects_pure window_composes _) ?_
    cases w.fdfile fd with
    | none => exact respects_pure window_composes _
    | some f => exact Respects.ite (respects_pure window_composes _) (respects_pure window_composes _)
  · cases r with
    | error e => exact respects_pure window_composes _
    | ok hf =>
      exact Respects.bind window_composes (space_window (hx hf)) fun _ =>
        Respects.ite (respects_pure window_composes _) (respects_pure window_composes _)

/-- `sys_mmap` stays in the window, if a fixed range does not wrap. -/
lemma sysMmap_window {addr length : Word} {prot flags fd : CInt}
    (hnw : flags &&& LFI_MAP_FIXED ≠ 0 →
      (truncp addr opts.pagesize).toNat + (ceilp length opts.pagesize).toNat < 2 ^ 64) :
    Respects (Window i ok) (sysMmap H opts addr length prot flags fd : Sys L M Word) := by
  refine Respects.ite (respects_pure window_composes _) (Respects.ite (respects_pure window_composes _) ?_)
  intro w
  refine RespectsAt.ite (fun hfixed => ?_) fun _ => ?_
  · exact map_window (fun _ => lfiAsMapat_outOf hP hL (hnw hfixed) _ _) w
  · exact map_window (fun _ => lfiAsMapany_outOf hP hL _ _ _) w

/-- The break, from a heap that is placed: its growth does not wrap. -/
lemma sysBrk_window {addr : Word} {w : World L M} (h : Placed opts w.p) :
    RespectsAt (Window i ok) (sysBrk H opts addr : Sys L M Word) w := by
  have hset : ∀ n, Respects (Window i ok) (setbrk n : Sys L M Word) := fun n =>
    Respects.bind window_composes (respects_modify fun _ => Window.of_as rfl) fun _ =>
      respects_gets window_composes _
  refine RespectsAt.bind window_composes (respects_gets window_composes _ w) fun p hp => ?_
  rw [gets_run] at hp ⊢
  cases hp
  refine RespectsAt.check window_composes fun hsize => RespectsAt.ite (fun _ => ?_) fun _ =>
    RespectsAt.ite (fun hgrow => ?_) fun _ => hset _ w
  · exact respects_pure window_composes _ w
  · have hnw : (brkNext opts w.p).toNat + (brkSize w.p addr - w.p.brksize).toNat < 2 ^ 64 := by
      have hle := (h.grows_iff addr).mp hgrow
      have hnext := h.next.2
      have htop := h.page_top
      have hlt : (brkSize w.p addr).toNat < 2 ^ 29 := hsize
      rw [BitVec.toNat_sub_of_le hle]
      omega
    rw [brkMap_eq]
    exact Respects.bind window_composes (space_window (lfiAsMapat_outOf hP hL hnw _ _)) (fun _ =>
      Respects.ite (respects_pure window_composes _) (hset _)) w

end

/-- The ranges of the fixed mapping calls do not wrap. -/
def Sysno.NoWrap (opts : TuxOptions) (n : Sysno) (a : Args) : Prop :=
  match n with
  | mmap => toInt a.a3 &&& LFI_MAP_FIXED ≠ 0 →
    (truncp a.a0 opts.pagesize).toNat + (ceilp a.a1 opts.pagesize).toNat < 2 ^ 64
  | mprotect => a.a0.toNat + a.a1.toNat < 2 ^ 64
  | _ => True

/-- An address of a range in the window. -/
lemma Inside.within {i : LFIAddrSpaceInfo} {r : Range} (h : Inside i r) {x : Word} (hx : r.Has x) :
    i.Within x := by
  have hlt : (x - r.ptr).toNat < r.len := hx
  rcases h with h0 | ⟨hlo, hhi⟩
  · omega
  · rw [BitVec.le_def] at hlo
    have hmax := i.maxaddr.isLt
    constructor
    · rw [BitVec.le_def]
      bv_omega
    · rw [BitVec.lt_def]
      bv_omega

section
variable {L : LibMMap} {H : HostVm} {O : HostOs} {opts : TuxOptions} {A : Arch} {i : LFIAddrSpaceInfo}
  {ok : L.Table → Prop} {w : World L A.machine}

/-- The conditions under which a system call stays in the sandbox: its arguments fit, and do not wrap. -/
def Arch.Tame (A : Arch) (O : HostOs) (opts : TuxOptions) (num : Word) (a : Args) (w : World L A.machine) :
    Prop := ∀ n, A.sysno num = some n → n.Fits O a w ∧ n.NoWrap opts a

/-- A framed call whose accesses are in the window. -/
lemma Frames.inward {S : Part → Bool} (hS : S .space = false) {w' : World L A.machine} {l : List Ev}
    (h : Frames S nowhere w l w') (hl : ∀ r, .touch r ∈ l → Inside i r) : Window i ok w l w' := by
  intro hi hok
  have has := h.space hS
  refine ⟨h.info.trans hi, by rw [has]; exact hok, fun x hx => ?_, fun x _ => by rw [has]⟩
  by_contra hne
  rcases h.mem hS x hne with hno | ⟨r, hr, hin⟩
  · exact hno
  · exact hx ((hl r hr).within hin)

/-- A system call, however it ends, keeps the records of libmmap in the window and leaves everything outside
of the window as it was. -/
lemma syscall_window (hP : i.Paged H.pagesize) (hL : L.Confines i ok) (hi : w.p.as.info = i)
    (hok : ok w.p.as.mm) (hpl : Placed opts w.p) {num : Word} {a : Args} (ht : A.Tame O opts num a w) :
    Inward i ok w.p.as ((syshandle H O opts A num a).run w).st.p.as := by
  suffices h : RespectsAt (Window i ok) (syshandle H O opts A num a) w from h hi hok
  unfold syshandle
  cases hn : A.sysno num with
  | none => exact respects_stop window_composes _ w
  | some n =>
    obtain ⟨hfit, hnw⟩ := ht n hn
    have hframe := syscall_respects H O opts n a w
    have hconf : Confined w.info False ((syscall H O opts A n a).run w) := (syscall_confined n a w).mpr hfit
    cases n with
    | mmap => exact sysMmap_window hP hL hnw w
    | mprotect =>
      exact Respects.bind window_composes (space_window (lfiAsMprotect_outOf hP hnw _))
        (fun _ => respects_pure window_composes _) w
    | munmap =>
      exact Respects.bind window_composes (space_window (lfiAsMunmap_outOf hP hL _ _))
        (fun _ => respects_pure window_composes _) w
    | brk => exact sysBrk_window hP hL hpl
    | _ => exact hframe.inward rfl fun r hr => hi ▸ hconf.1 r hr

/-- However `sys_brk` ends, the heap is in its reservation. -/
lemma Placed.sysBrk {M : Machine} {w : World L M} (h : Placed opts w.p) (addr : Word) :
    Placed opts ((sysBrk H opts addr).run w).st.p := by
  have hinv := sysBrk_inv H opts addr w
  generalize (Libtux.sysBrk H opts addr).run w = r at hinv
  cases hinv with
  | stop _ => exact h
  | same _ _ => exact h
  | shrink hsize _ _ => exact h.move (World.setBrk_brkbase _ _) hsize
  | abort _ _ _ _ => exact h.move (World.setAs_brkbase _ _) h.size
  | fail _ _ _ _ => exact h.move (World.setAs_brkbase _ _) h.size
  | grow hsize _ _ _ _ => exact h.move (World.setBrk_brkbase _ _) hsize

/-- No system call moves the heap out of its reservation. -/
lemma Placed.syshandle (h : Placed opts w.p) (num : Word) (a : Args) :
    Placed opts ((syshandle H O opts A num a).run w).st.p := by
  unfold Libtux.syshandle
  cases hn : A.sysno num with
  | none => exact h
  | some n =>
    have hframe := syscall_respects H O opts n a w
    by_cases hheap : n.changes .heap = false
    · refine h.move hframe.brkbase ?_
      rw [hframe.heap hheap]
      exact h.size
    · have hbrk : n = .brk := by
        cases n with
        | brk => rfl
        | _ => exact absurd rfl hheap
      subst hbrk
      exact h.sysBrk _

end
end Libtux
