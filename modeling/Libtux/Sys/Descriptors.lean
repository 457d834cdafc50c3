import Libtux.Lib.Slots
import Libtux.Sys.Fail

/-!
# Descriptors as a partial map

What a process should see of its descriptor table: a partial map on `0..127` in which `sys_openat` binds the
least number that is free, and `sys_close` unbinds the one it is given (`Descs.Step`). `FdStep` are the calls as
they are, with anything between two of them that leaves the table alone. `fdtable_refines` says that every run
of the calls is a run of the partial map.

A `sys_openat` looks for a descriptor only when `filenew` has an object for the file. An open for whose object
there was no memory is refused with `ENOENT`, also when the host opened the file and all descriptors are in use.
-/

namespace Libtux
open Lib

/-- The descriptors of a process. -/
abbrev Descs := Slots TUX_NOFILE FileRef

/-- A call on the descriptors: `sys_openat`, with the object it got from `filenew`, or `sys_close`, and what it
returned. -/
inductive FdCall where
  | openat (found : Option FileRef) (r : Word)
  | close (fd : CInt) (r : Word)

/-- What the calls should do. -/
inductive Descs.Step (m : Descs) : FdCall → Descs → Prop where
  | bind {f : FileRef} {fd : Fin TUX_NOFILE} : IsLeast m.free fd →
    Descs.Step m (.openat (some f) (BitVec.ofNat 64 fd)) (m.bind fd f)
  | full {f : FileRef} : m.free = ∅ → Descs.Step m (.openat (some f) (negErr TUX_EMFILE)) m
  | refused {e : Nat} : e ∈ [TUX_EBADF, TUX_EFAULT, TUX_ENOENT] → Descs.Step m (.openat none (negErr e)) m
  | unbind {fd : CInt} {f : FileRef} : m.get fd.toInt = some f →
    Descs.Step m (.close fd 0) (m.unbind fd.toInt)
  | unbound {fd : CInt} : m.get fd.toInt = none → Descs.Step m (.close fd (negErr TUX_EBADF)) m

instance neZero_nofile : NeZero TUX_NOFILE := ⟨by decide⟩

/-- The descriptors after `fdinit`. -/
def Descs.init (fstdin fstdout fstderr : FileRef) : Descs :=
  (((Slots.empty.bind 0 fstdin).bind 1 fstdout).bind 2 fstderr)

section
variable {L : LibMMap} {M : Machine}

/-- The object that `sys_openat` gets from `filenew`. -/
def World.found (w : World L M) (O : HostOs) (dirfd : CInt) (pathp : Word) : Option FileRef :=
  match w.dir O dirfd, w.path pathp with
  | some _, some _ => (filenew w.files (O.newfile (w.ncall + w.lookups dirfd))).2
  | _, _ => none

/-- It stands for the file that the host opened. -/
lemma World.found_object {w : World L M} {O : HostOs} {dirfd : CInt} {pathp : Word} {f : FileRef}
    (h : w.found O dirfd pathp = some f) :
    (filenew w.files (O.newfile (w.ncall + w.lookups dirfd))).1.objs f =
      some ⟨w.files.nhandle, 0, fun _ => true⟩ := by
  unfold World.found at h
  split at h
  · cases hnew : O.newfile (w.ncall + w.lookups dirfd) with
    | ok =>
      rw [hnew] at h
      cases h
      exact Function.update_self ..
    | nofile | nomem =>
      rw [hnew] at h
      cases h
  · cases h

/-- A call of a process in the state `w₀`, which has the table that the last call left. -/
inductive FdStep (O : HostOs) (w : World L M) : FdCall → World L M → Prop where
  | openat {w₀ : World L M} {dirfd : CInt} {pathp r : Word} : w₀.fds.fdtable = w.fds.fdtable →
    ((sysOpenat O dirfd pathp).run w₀).val = .ok r →
    FdStep O w (.openat (w₀.found O dirfd pathp) r) ((sysOpenat O dirfd pathp).run w₀).st
  | close {w₀ : World L M} {fd : CInt} {r : Word} : w₀.fds.fdtable = w.fds.fdtable →
    ((sysClose fd).run w₀).val = .ok r → FdStep O w (.close fd r) ((sysClose fd).run w₀).st

/-- The descriptors that a table stands for. -/
def FDTable.descs (t : FDTable) : Descs := .ofTable t.files

namespace FDTable
variable {t : FDTable}

/-- The slot of a descriptor is the descriptor. -/
lemma slot_toInt {fd : CInt} {i : Fin TUX_NOFILE} (h : slot fd = some i) : fd.toInt = (i.val : Int) := by
  obtain ⟨hlt, hi⟩ := Option.dite_none_right_eq_some.mp h
  cases hi
  rw [TUX_NOFILE] at hlt
  exact BitVec.toInt_eq_toNat_of_lt (by omega)

/-- A negative number has no slot, nor has one from `128` on. -/
lemma slot_none {fd : CInt} (h : slot fd = none) : ¬ (0 ≤ fd.toInt ∧ fd.toInt < (TUX_NOFILE : Nat)) := by
  have hge : ¬ fd.toNat < TUX_NOFILE := fun hlt => absurd h (by rw [slot, dif_pos hlt]; exact Option.some_ne_none _)
  rw [BitVec.toInt_eq_toNat_cond]
  split <;> omega

/-- `fdget` is the map, for every `int`. -/
lemma fdget_descs (fd : CInt) : t.fdget fd = t.descs.get fd.toInt := by
  rw [fdget]
  cases hslot : slot fd with
  | some i =>
    rw [slot_toInt hslot]
    exact (Slots.ofTable_coe i).symm
  | none => exact (Slots.ofTable_out (slot_none hslot)).symm

/-- `fdalloc` finds the least free descriptor. -/
lemma fdalloc_isLeast {fd : Fin TUX_NOFILE} : t.fdalloc = some fd ↔ IsLeast t.descs.free fd := by
  rw [fdalloc, find_isLeast, descs, Slots.ofTable_free]
  simp only [Option.isNone_iff_eq_none]

/-- No slot is picked when none is free. -/
lemma fdalloc_none : t.fdalloc = none ↔ t.descs.free = ∅ := by
  rw [fdalloc, List.find?_eq_none, descs, Slots.ofTable_free, Set.eq_empty_iff_forall_notMem]
  refine ⟨fun h i hi => h i (List.mem_finRange i) (Option.isNone_iff_eq_none.mpr hi), fun h i _ hi => ?_⟩
  exact h i (Option.isNone_iff_eq_none.mp hi)

/-- A descriptor is bound, -/
lemma descs_assign (s : Files) (fd : Fin TUX_NOFILE) (f : FileRef) :
    (t.fdassign s fd f).1.descs = t.descs.bind fd f := Slots.ofTable_bind fd f

/-- and the first three are at the start. -/
lemma descs_init (s : Files) (fstdin fstdout fstderr : FileRef) :
    (fdinit s fstdin fstdout fstderr).1.descs = Descs.init fstdin fstdout fstderr := by
  rw [fdinit]
  dsimp only
  rw [descs_assign, descs_assign, descs_assign, Descs.init]
  congr 3
  -- the empty table is the empty map, inside its range and outside
  ext1
  funext k
  obtain ⟨i, rfl⟩ | hk := Slots.index_cases TUX_NOFILE k
  · exact Slots.ofTable_coe i
  · exact Slots.ofTable_out hk

/-- `fdremove` unbinds a descriptor that is bound. -/
lemma descs_remove {s : Files} {fd : CInt} {f : FileRef} (h : t.fdget fd = some f) :
    (t.fdremove s fd).2.1.descs = t.descs.unbind fd.toInt := by
  obtain ⟨i, hslot, hi⟩ := Option.bind_eq_some_iff.mp h
  have hfd : fd.toInt = (i.val : Int) := slot_toInt hslot
  rw [fdremove, hslot]
  dsimp only
  rw [fdremoveSlot, hi, hfd]
  exact Slots.ofTable_unbind i

/-- `fdremove` leaves the table alone for every other `int`. -/
lemma fdremove_none {s : Files} {fd : CInt} (h : t.fdget fd = none) : (t.fdremove s fd).2.1 = t := by
  rw [fdget] at h
  rw [fdremove]
  cases hslot : slot fd with
  | none => rfl
  | some i =>
    rw [hslot, Option.bind_some] at h
    dsimp only
    rw [fdremoveSlot, h]

end FDTable

/-- The steps of `sys_close`. -/
lemma sysClose_step {w : World L M} {fd : CInt} {r : Word} (hr : ((sysClose fd).run w).val = .ok r) :
    w.fds.fdtable.descs.Step (.close fd r) ((sysClose fd).run w).st.fds.fdtable.descs := by
  have hrun : (sysClose fd).run w =
      ⟨.ok (if w.fds.fdtable.fdget fd = none then negErr TUX_EBADF else 0),
        { w with fds := (w.fds.close w.files fd).1, files := (w.fds.close w.files fd).2 }, []⟩ := by
    rw [sysClose, Exec.bind_run, Exec.get_run, Exec.andThen_ok_nil, Exec.bind_run, Exec.modify_run,
      Exec.andThen_ok_nil]
    split <;> exact Exec.pure_run _ _
  rw [hrun] at hr ⊢
  cases hr
  cases hget : w.fds.fdtable.fdget fd with
  | none =>
    rw [if_pos rfl]
    have hsame : (w.fds.close w.files fd).1.fdtable = w.fds.fdtable := FDTable.fdremove_none hget
    rw [hsame]
    exact .unbound ((FDTable.fdget_descs fd).symm.trans hget)
  | some f =>
    rw [if_neg (Option.some_ne_none f)]
    have hdescs : (w.fds.close w.files fd).1.fdtable.descs = w.fds.fdtable.descs.unbind fd.toInt :=
      FDTable.descs_remove hget
    rw [hdescs]
    exact .unbind ((FDTable.fdget_descs fd).symm.trans hget)

/-- The steps of `sys_openat`. -/
lemma sysOpenat_step {O : HostOs} {w : World L M} {dirfd : CInt} {pathp r : Word}
    (hr : ((sysOpenat O dirfd pathp).run w).val = .ok r) :
    w.fds.fdtable.descs.Step (.openat (w.found O dirfd pathp) r)
      ((sysOpenat O dirfd pathp).run w).st.fds.fdtable.descs := by
  obtain ⟨out, hrun⟩ := sysOpenat_run O dirfd pathp w
  rw [hrun] at hr ⊢
  unfold World.found
  cases hdir : w.dir O dirfd with
  | none =>
    rw [hdir] at hr
    cases hr
    exact .refused (by decide)
  | some dir =>
    cases hpath : w.path pathp with
    | none =>
      rw [hdir, hpath] at hr
      cases hr
      exact .refused (by decide)
    | some path =>
      rw [hdir, hpath] at hr
      dsimp only at hr ⊢
      cases hnew : O.newfile (w.ncall + w.lookups dirfd) with
      | nofile =>
        rw [hnew] at hr
        cases hr
        exact .refused (by decide)
      | nomem =>
        rw [hnew] at hr
        cases hr
        exact .refused (by decide)
      | ok =>
        rw [hnew] at hr
        cases hfd : w.fds.fdtable.fdalloc with
        | none =>
          -- the object is made before there is a descriptor for it, and released again
          have hopen : w.fds.openat w.files .ok =
              (none, w.fds, (w.files.hostOpen.filefnew w.files.nhandle).fdrelease w.files.nobj) := by
            rw [ProcFiles.openat, filenew]
            dsimp only
            rw [hfd]
          rw [hopen] at hr ⊢
          cases hr
          exact .full (FDTable.fdalloc_none.mp hfd)
        | some fd =>
          have hopen : (w.fds.openat w.files .ok).1 = some fd ∧
              (w.fds.openat w.files .ok).2.1.fdtable.descs =
                w.fds.fdtable.descs.bind fd w.files.nobj := by
            rw [ProcFiles.openat, filenew]
            dsimp only
            rw [hfd]
            exact ⟨rfl, FDTable.descs_assign (w.files.hostOpen.filefnew w.files.nhandle) fd _⟩
          rw [hopen.1] at hr
          rw [hopen.2]
          cases hr
          exact .bind (FDTable.fdalloc_isLeast.mp hfd)

/-- A call is a step of the descriptors. -/
lemma FdStep.descs {O : HostOs} {w w' : World L M} {c : FdCall} (h : FdStep O w c w') :
    w.fds.fdtable.descs.Step c w'.fds.fdtable.descs := by
  cases h with
  | openat htable hr =>
    rw [← htable]
    exact sysOpenat_step hr
  | close htable hr =>
    rw [← htable]
    exact sysClose_step hr

end

/-- After `fdinit` the table is the partial map, in every run of `sys_openat` and `sys_close`. -/
theorem fdtable_refines {L : LibMMap} {M : Machine} (O : HostOs) (s : Files) (fstdin fstdout fstderr : FileRef)
    {w w' : World L M} {cs : List FdCall} (h0 : w.fds.fdtable = (FDTable.fdinit s fstdin fstdout fstderr).1)
    (hr : Run (FdStep O) w cs w') :
    ∃ m : Descs, Run Descs.Step (Descs.init fstdin fstdout fstderr) cs m ∧
      ∀ fd : CInt, w'.fds.fdtable.fdget fd = m.get fd.toInt := by
  refine ⟨w'.fds.fdtable.descs, ?_, FDTable.fdget_descs⟩
  rw [← FDTable.descs_init s, ← h0]
  exact hr.map (f := fun w => w.fds.fdtable.descs) FdStep.descs

/-- Descriptor `3` is opened, closed, and closed once more. -/
theorem fdtable_refines_reclose :
    ∃ m : Descs, Run Descs.Step (Descs.init 0 1 2)
      [.openat (some 3) 3, .close 3 0, .close 3 (negErr TUX_EBADF)] m ∧ m.get 3 = none := by
  let w0 := World.withFiles ((Tux.opened 0).procs 0) (Tux.opened 0).files
  let w1 := ((sysOpenat .plain TUX_AT_FDCWD LFIAddrSpaceInfo.plain.minaddr).run w0).st
  let w2 := ((sysClose 3).run w1).st
  let w3 := ((sysClose 3).run w2).st
  have h1 : FdStep .plain w0 (.openat (some 3) 3) w1 := by
    have hfound : w0.found .plain TUX_AT_FDCWD LFIAddrSpaceInfo.plain.minaddr = some 3 := by decide +kernel
    rw [← hfound]
    exact .openat rfl (by decide +kernel)
  have h2 : FdStep .plain w1 (.close 3 0) w2 := .close rfl (by decide +kernel)
  have h3 : FdStep .plain w2 (.close 3 (negErr TUX_EBADF)) w3 := .close rfl (by decide +kernel)
  have hnone : w3.fds.fdtable.fdget 3 = none := by decide +kernel
  obtain ⟨m, hrun, hget⟩ := fdtable_refines .plain lfiTuxNew.files 0 1 2 (w := w0) rfl
    (.snoc (.snoc (.snoc (.nil w0) h1) h2) h3)
  exact ⟨m, hrun, (hget 3).symm.trans hnone⟩

/-- A host on which there is no memory for the object of a file. -/
def HostOs.noMemory : HostOs := { HostOs.plain with newfile _ := .nomem }

/-- The host opens a file, but the open fails with `ENOENT`. -/
def NotFound (q : ProcFiles) (s : Files) : Prop :=
  let r := (sysOpenat .noMemory TUX_AT_FDCWD LFIAddrSpaceInfo.plain.minaddr).run (World.withFiles q s)
  s.isOpen s.nhandle = false ∧ r.st.files.isOpen s.nhandle = true ∧ r.val = .ok (negErr TUX_ENOENT)

/-- No descriptor has an object that is gone. -/
lemma notFound_of_reachable {q : ProcFiles} {s : Files} (h : Reachable q s) : NotFound q s := by
  have hdir : (World.withFiles q s).dir .noMemory TUX_AT_FDCWD = some q.cwd.file := if_pos rfl
  have hnew : (World.withFiles q s).fds.openat (World.withFiles q s).files (HostOs.noMemory.newfile
      ((World.withFiles q s).ncall + (World.withFiles q s).lookups TUX_AT_FDCWD)) = (none, q, s.hostOpen) := rfl
  obtain ⟨out, hrun⟩ :=
    sysOpenat_run .noMemory TUX_AT_FDCWD LFIAddrSpaceInfo.plain.minaddr (World.withFiles q s)
  rw [World.withFiles_path, hdir] at hrun
  dsimp only at hrun
  rw [hnew] at hrun
  refine ⟨h.fresh.next_closed, ?_, congrArg Res.val hrun⟩
  have hst := congrArg (fun r => r.st.files.isOpen s.nhandle) hrun
  exact hst.trans (Function.update_self ..)

/-- With all descriptors in use and no memory for its object, the open of a file that the host opened does not
fail with `EMFILE`. -/
theorem openat_full_enoent :
    Reachable ((Tux.opened 125).procs 0) (Tux.opened 125).files ∧
      ((Tux.opened 125).procs 0).fdtable.descs.free = ∅ ∧
      NotFound ((Tux.opened 125).procs 0) (Tux.opened 125).files ∧ negErr TUX_ENOENT ≠ negErr TUX_EMFILE :=
  ⟨reachable_opened 125, FDTable.fdalloc_none.mp (FDTable.fdalloc_eq_none.mpr (Tux.card_opened 125 le_rfl)),
    notFound_of_reachable (reachable_opened 125), by decide⟩

end Libtux
