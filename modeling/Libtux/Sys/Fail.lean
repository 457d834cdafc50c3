import Libtux.Sys.Runs
import Libtux.Fd.Tux
import Libtux.Pal.Ranges

/-!
# Calls that fail and the files they leave

`sys_chdir`, `sys_fchdir` and `sys_openat`, from the states a `Tux` can come to: which of their failures
leave the descriptor table, the reference counts and the host's handles as they were, and what a success
does to them.

`GaveUp` is the whole effect of leaving a directory, in the three cases of who owns it. `sys_fchdir` keeps
its contract. `sys_chdir` does not look at the result of `host_openat`, and `sys_openat` loses the host file
when there is no memory for its object or no descriptor for it: the object is new, so `fdrelease` takes its
count below zero and does not close it.
-/

namespace Libtux
open Lib

variable {L : LibMMap} {M : Machine}

/-- The files of a process in a run of a `Tux`. -/
def Reachable (q : ProcFiles) (s : Files) : Prop :=
  ∃ cs T p, Run Tux.step lfiTuxNew cs T ∧ p < T.nproc ∧ q = T.procs p ∧ s = T.files

/-- What a process holds is owned, together with what others do. -/
lemma Reachable.owns {q : ProcFiles} {s : Files} (h : Reachable q s) :
    ∃ R W, Owns s (q.refs + R) (q.owns + W) := by
  obtain ⟨cs, T, p, hrun, hp, rfl, rfl⟩ := h
  have ok : T.Ok := Tux.Ok.init.run hrun
  refine ⟨T.rest p, T.restOwned p, ?_⟩
  rw [← Tux.holders_eq hp, ← Tux.owned_eq hp]
  exact ok.owns

/-! ## The current directory -/

/-- A directory is given up once: nothing to do for none, its handle is closed when it is its own, and a
file object loses one reference, with the last of which it goes and its handle is closed. -/
inductive GaveUp : Dir → Files → Files → Prop where
  | unset {s : Files} : GaveUp ⟨none, none⟩ s s
  | owned {s : Files} {h : HostFile} : s.isOpen h = true →
    GaveUp ⟨some h, none⟩ s { s with isOpen := Function.update s.isOpen h false }
  | shared {s : Files} {f : FileRef} {file : Option HostFile} {o : FDFile} : s.objs f = some o →
    o.refs ≠ 1 →
    GaveUp ⟨file, some f⟩ s
      { s with objs := Function.update s.objs f (some { o with refs := o.refs - 1 }) }
  | last {s : Files} {f : FileRef} {file : Option HostFile} {o : FDFile} : s.objs f = some o →
    o.refs = 1 → s.isOpen o.file = true → f ∉ s.closed →
    GaveUp ⟨file, some f⟩ s
      { s with
        objs := Function.update s.objs f none
        isOpen := Function.update s.isOpen o.file false
        closed := s.closed ++ [f] }

/-- One more reference to a file object. -/
def Took (f : FileRef) (s s' : Files) : Prop :=
  ∃ o, s.objs f = some o ∧
    s' = { s with objs := Function.update s.objs f (some { o with refs := o.refs + 1 }) }

/-- `leave` gives up the directory once. -/
lemma leave_gaveUp {q : ProcFiles} {s : Files} {R : Multiset FileRef} {W : Multiset HostFile}
    (I : Owns s (q.refs + R) (q.owns + W)) : GaveUp q.cwd s (q.leave s).2 := by
  obtain ⟨t, file, fd⟩ := q
  cases fd with
  | none =>
    cases file with
    | none => exact .unset
    | some h =>
      have hmem : h ∈ (⟨t, some h, none⟩ : ProcFiles).owns + W :=
        Multiset.mem_add.mpr (.inl (Multiset.mem_singleton_self h))
      exact .owned (I.own h hmem).1
  | some f =>
    have hmem : f ∈ (⟨t, file, some f⟩ : ProcFiles).refs + R :=
      Multiset.mem_add.mpr (.inl (Multiset.mem_add.mpr (.inr (Multiset.mem_singleton_self f))))
    obtain ⟨o, ho, -, hclose⟩ := I.held f hmem
    have hleave : ((⟨t, file, some f⟩ : ProcFiles).leave s).2 = s.fdrelease f := rfl
    rw [hleave, Files.fdrelease, ho]
    dsimp only
    by_cases h1 : o.refs = 1
    · rw [h1, if_pos (by decide), Files.close, if_pos hclose]
      exact .last ho h1 (I.handle ho).1 (I.not_closed hmem)
    · have hne : o.refs - 1 ≠ 0 := by bv_omega
      rw [if_neg hne]
      exact .shared ho h1

/-- A call failed with an error and left the files alone. -/
def Untouched (w : World L M) (r : Res Stop Ev (World L M) Word) : Prop :=
  ∃ e, r.val = .ok e ∧ e.msb = true ∧ r.st.fds = w.fds ∧ r.st.files = w.files

/-- The host opens the directory that `sys_chdir` is given. -/
def Opens (O : HostOs) (pathp : Word) (w : World L M) : Prop :=
  (w.path pathp).isSome = true ∧ (O.ret w.ncall).isSome = true

/-- What `sys_chdir` should do: enter the directory that was opened and give up the one before, or fail. -/
def ChdirContract (O : HostOs) (pathp : Word) (w : World L M) : Prop :=
  let r := (sysChdir O pathp).run w
  (Opens O pathp w →
    r.val = .ok 0 ∧ r.st.fds = { w.fds with cwd := ⟨some w.files.nhandle, none⟩ } ∧
      r.st.files.isOpen w.files.nhandle = true ∧ GaveUp w.fds.cwd w.files.hostOpen r.st.files) ∧
  (¬ Opens O pathp w → Untouched w r)

/-- What `sys_fchdir` should do: enter the directory of the descriptor and give up the one before, or
fail. -/
def FchdirContract (O : HostOs) (fd : CInt) (w : World L M) : Prop :=
  let r := (sysFchdir O fd).run w
  (∀ f file, w.fds.fileOf w.files fd = some (f, file) → O.isdir w.ncall = true →
    r.val = .ok 0 ∧ r.st.fds = { w.fds with cwd := ⟨some file, some f⟩ } ∧
      ∃ s, GaveUp w.fds.cwd w.files s ∧ Took f s r.st.files) ∧
  (w.fds.fileOf w.files fd = none ∨ O.isdir w.ncall = false → Untouched w r)

/-- What `sys_chdir` does. -/
lemma sysChdir_run (O : HostOs) (pathp : Word) (w : World L M) :
    (sysChdir O pathp).run w =
      match w.path pathp with
      | none => ⟨.ok (negErr TUX_EFAULT), w, w.pathReads (lfiAsFmptr w.info pathp)⟩
      | some _ =>
        let o := w.fds.chdir w.files (O.ret w.ncall).isSome
        ⟨.ok 0, { w with fds := o.1, files := o.2, ncall := w.ncall + 1 },
          w.pathReads (lfiAsFmptr w.info pathp)⟩ := by
  rw [sysChdir, withPath, Exec.bind_run, procpath_run, Exec.andThen_ok]
  cases w.path pathp with
  | none => simp only [Exec.pure_run, List.append_nil]
  | some path =>
    simp only [Exec.bind_run, Exec.get_run, Exec.andThen_ok_nil, Exec.modify_run, Exec.pure_run,
      List.append_nil]

/-- A `sys_chdir` whose directory was opened changes the current directory only. -/
lemma chdir_fds (q : ProcFiles) (s : Files) :
    (q.chdir s true).1 = { q with cwd := ⟨some s.nhandle, none⟩ } := by
  obtain ⟨t, file, fd⟩ := q
  cases fd with
  | some f => rfl
  | none =>
    cases file with
    | some h => rfl
    | none => rfl

/-- `sys_chdir` does what it should exactly when the host opens the directory, or the path is refused
before. -/
lemma chdirContract_iff (O : HostOs) (pathp : Word) {w : World L M} {R : Multiset FileRef}
    {W : Multiset HostFile} (I : Owns w.files (w.fds.refs + R) (w.fds.owns + W)) :
    ChdirContract O pathp w ↔
      ((w.path pathp).isSome = true → (O.ret w.ncall).isSome = true) := by
  unfold ChdirContract Opens
  rw [sysChdir_run]
  cases w.path pathp with
  | none =>
    refine iff_of_true ⟨fun h => absurd h.1 (by decide), fun _ => ?_⟩ fun h => absurd h (by decide)
    exact ⟨negErr TUX_EFAULT, rfl, by decide, rfl, rfl⟩
  | some path =>
    cases O.ret w.ncall with
    | none =>
      -- the old directory is gone, and the call returns `0`
      refine iff_of_false (fun h => ?_) fun h => absurd (h rfl) (by decide)
      obtain ⟨e, he, hneg, -⟩ := h.2 fun ho => absurd ho.2 (by decide)
      cases he
      revert hneg
      decide
    | some r =>
      refine iff_of_true ⟨fun _ => ?_, fun h => absurd ⟨rfl, rfl⟩ h⟩ fun _ => rfl
      have I1 := I.hostOpen.1
      rw [← Multiset.add_cons] at I1
      have hopen := (chdir_ok true I).owns.own w.files.nhandle (by
        rw [chdir_fds]
        exact Multiset.mem_add.mpr (.inl (Multiset.mem_singleton_self _)))
      exact ⟨rfl, chdir_fds w.fds w.files, hopen.1, leave_gaveUp I1⟩

/-- `sys_fchdir` runs as its table and the host say. -/
lemma sysFchdir_run (O : HostOs) (fd : CInt) (w : World L M) :
    (sysFchdir O fd).run w =
      match w.fdfile fd with
      | none => ⟨.ok (negErr TUX_EBADF), w, []⟩
      | some o =>
        if o.has .file then
          if O.isdir w.ncall then
            ⟨.ok 0,
              { w with
                fds := (w.fds.fchdir w.files fd true).1
                files := (w.fds.fchdir w.files fd true).2
                ncall := w.ncall + 1 }, []⟩
          else ⟨.ok (negErr TUX_ENOTDIR), { w with ncall := w.ncall + 1 }, []⟩
        else ⟨.ok (negErr TUX_EACCES), w, []⟩ := by
  rw [sysFchdir, withHandler, Exec.bind_run, Exec.get_run, Exec.andThen_ok_nil]
  cases w.fdfile fd with
  | none => exact Exec.pure_run _ _
  | some o =>
    dsimp only
    split
    · rw [Exec.bind_run, hostIsdir, Exec.mk_run, Exec.andThen_ok_nil]
      split
      · rw [Exec.bind_run, Exec.modify_run, Exec.andThen_ok_nil, Exec.pure_run]
      · exact Exec.pure_run _ _
    · exact Exec.pure_run _ _

/-- The object of a descriptor is held by the table. -/
lemma mem_refs_of_fdget {t : FDTable} {fd : CInt} {f : FileRef} (h : t.fdget fd = some f) : f ∈ t.refs := by
  obtain ⟨i, -, hi⟩ := Option.bind_eq_some_iff.mp h
  exact FDTable.mem_refs hi

/-- `sys_fchdir` past its checks gives up the directory and takes the object of the new one. The table holds
that object, so it outlives the old directory. -/
lemma fchdirTo_took {q : ProcFiles} {s : Files} {f : FileRef} (file : HostFile) {R : Multiset FileRef}
    {W : Multiset HostFile} (I : Owns s (q.refs + R) (q.owns + W)) (hf : f ∈ q.fdtable.refs) :
    (q.fchdirTo s f file).1 = { q with cwd := ⟨some file, some f⟩ } ∧
      ∃ s1, GaveUp q.cwd s s1 ∧ Took f s1 (q.fchdirTo s f file).2 := by
  obtain ⟨hm, ht, -⟩ := leave_ok I
  obtain ⟨o, ho, -, -⟩ := hm.owns.held f (Multiset.mem_add.mpr (.inl hf))
  refine ⟨?_, (q.leave s).2, leave_gaveUp I, o, ho, ?_⟩
  · simp only [ProcFiles.fchdirTo, ht]
  · simp only [ProcFiles.fchdirTo, Files.addref, ho, Option.map_some]

/-- `sys_fchdir` does what it should. -/
lemma fchdirContract (O : HostOs) (fd : CInt) {w : World L M} {R : Multiset FileRef}
    {W : Multiset HostFile} (I : Owns w.files (w.fds.refs + R) (w.fds.owns + W)) :
    FchdirContract O fd w := by
  unfold FchdirContract
  rw [sysFchdir_run, World.fdfile]
  have hfile : w.fds.fileOf w.files fd = (w.fds.fdtable.fdget fd).bind fun f =>
    (w.files.objs f).bind fun o => if o.has .file then some (f, o.file) else none := rfl
  cases hget : w.fds.fdtable.fdget fd with
  | none =>
    rw [hget] at hfile
    rw [hfile]
    exact ⟨fun f file h => (by cases h), fun _ => ⟨_, rfl, by decide, rfl, rfl⟩⟩
  | some f =>
    rw [hget] at hfile
    cases ho : w.files.objs f with
    | none =>
      rw [Option.bind_some, ho] at hfile
      rw [hfile, Option.bind_some, ho]
      exact ⟨fun f file h => (by cases h), fun _ => ⟨_, rfl, by decide, rfl, rfl⟩⟩
    | some o =>
      rw [Option.bind_some, ho, Option.bind_some] at hfile
      rw [Option.bind_some, ho]
      dsimp only
      by_cases hh : o.has .file = true
      · rw [if_pos hh] at hfile
        rw [hfile, if_pos hh]
        cases O.isdir w.ncall with
        | false =>
          exact ⟨fun f file _ h => (by cases h), fun _ => ⟨_, rfl, by decide, rfl, rfl⟩⟩
        | true =>
          refine ⟨?_, fun h => by simp at h⟩
          rintro g file ⟨rfl⟩ -
          have hto : w.fds.fchdir w.files fd true = w.fds.fchdirTo w.files f o.file := by
            rw [ProcFiles.fchdir, hfile]
            rfl
          obtain ⟨h1, h2⟩ := fchdirTo_took o.file I (mem_refs_of_fdget hget)
          rw [← hto] at h1 h2
          exact ⟨rfl, h1, h2⟩
      · rw [if_neg hh] at hfile
        rw [hfile, if_neg hh]
        exact ⟨fun f file h => (by cases h), fun _ => ⟨_, rfl, by decide, rfl, rfl⟩⟩

/-- `sys_fchdir` keeps its contract in every reachable state, and `sys_chdir` exactly when the host opens
the directory or the path is refused before. -/
theorem cwd_contract (O : HostOs) {w : World L M} (h : Reachable w.fds w.files) (pathp : Word) (fd : CInt) :
    FchdirContract O fd w ∧
      (ChdirContract O pathp w ↔ ((w.path pathp).isSome = true → (O.ret w.ncall).isSome = true)) := by
  obtain ⟨R, W, I⟩ := h.owns
  exact ⟨fchdirContract O fd I, chdirContract_iff O pathp I⟩

/-- The first thread of a process with these files. -/
def World.withFiles (q : ProcFiles) (s : Files) : World .ofRanges .x64 :=
  { World.ofThread (procnewfile (.fresh .plain) 10000) with fds := q, files := s }

/-- A process that entered a directory and closed its descriptor is reachable. -/
lemma reachable_entered : Reachable (Tux.entered.procs 0) Tux.entered.files := by
  obtain ⟨cs, hrun⟩ := Tux.run_entered
  exact ⟨cs, Tux.entered, 0, hrun, by decide, rfl, rfl⟩

/-- That process cannot enter descriptor `3` any more. -/
theorem cwd_contract_entered :
    Untouched (World.withFiles (Tux.entered.procs 0) Tux.entered.files)
      ((sysFchdir .plain 3).run (World.withFiles (Tux.entered.procs 0) Tux.entered.files)) :=
  (cwd_contract .plain reachable_entered 0 3).1.2 (.inl (by decide +kernel))

/-- There is no result to be large. -/
lemma not_some_lt : ∀ {_ r : Nat}, (none : Option Nat) = some r → r < 2 ^ 63 := by
  intro _ r h
  cases h

/-- A host on which every call fails. -/
def HostOs.failing : HostOs := { HostOs.plain with ret _ := none, ret_lt := @not_some_lt }

/-- When the host does not open the directory, `sys_chdir` returns `0`, and the directory before is gone
with its file object. -/
theorem chdir_failed_leaves :
    let w := World.withFiles (Tux.entered.procs 0) Tux.entered.files
    let r := (sysChdir .failing LFIAddrSpaceInfo.plain.minaddr).run w
    Reachable w.fds w.files ∧ ¬ Opens .failing LFIAddrSpaceInfo.plain.minaddr w ∧
      w.fds.cwd.fd = some 3 ∧ (w.files.objs 3).isSome = true ∧
      r.val = .ok 0 ∧ r.st.fds.cwd.fd = none ∧ r.st.fds.cwd.file = none ∧ (r.st.files.objs 3).isSome = false ∧
      ¬ ChdirContract .failing LFIAddrSpaceInfo.plain.minaddr w := by
  have hno : ¬ Opens .failing LFIAddrSpaceInfo.plain.minaddr
      (World.withFiles (Tux.entered.procs 0) Tux.entered.files) := fun h => absurd h.2 (by decide)
  have hval : ((sysChdir .failing LFIAddrSpaceInfo.plain.minaddr).run
      (World.withFiles (Tux.entered.procs 0) Tux.entered.files)).val = .ok 0 := by decide +kernel
  refine ⟨reachable_entered, hno, by decide +kernel, by decide +kernel, hval, by decide +kernel,
    by decide +kernel, by decide +kernel, fun h => ?_⟩
  obtain ⟨e, he, hneg, -⟩ := h.2 hno
  rw [hval] at he
  cases he
  revert hneg
  decide

/-! ## Handles are not used twice -/

/-- Only handles that were handed out are open. -/
def Files.Fresh (s : Files) : Prop := ∀ h, s.isOpen h = true → h < s.nhandle

namespace Files

/-- No handle is opened from `s` to `s'`. -/
structure Closes (s s' : Files) : Prop where
  nhandle : s'.nhandle = s.nhandle
  isOpen : ∀ h, s'.isOpen h = true → s.isOpen h = true

/-- Nothing is closed. -/
lemma Closes.refl (s : Files) : Closes s s := ⟨rfl, fun _ h => h⟩

/-- Handles are closed, and then others. -/
lemma Closes.trans {s s1 s2 : Files} (h1 : Closes s s1) (h2 : Closes s1 s2) : Closes s s2 :=
  ⟨h2.nhandle.trans h1.nhandle, fun h hh => h1.isOpen h (h2.isOpen h hh)⟩

/-- New handles stay new. -/
lemma Closes.fresh {s s' : Files} (h : Closes s s') (hs : s.Fresh) : s'.Fresh := by
  intro x hx
  rw [h.nhandle]
  exact hs x (h.isOpen x hx)

/-- A handle is closed. -/
lemma closes_hostClose (s : Files) (h : HostFile) : Closes s (s.hostClose h) := by
  refine ⟨rfl, fun x hx => ?_⟩
  simp only [hostClose, Function.update_apply] at hx
  split at hx
  · cases hx
  · exact hx

/-- An object is released. -/
lemma closes_fdrelease (s : Files) (f : FileRef) : Closes s (s.fdrelease f) := by
  unfold fdrelease
  cases s.objs f with
  | none => exact .refl s
  | some o =>
    dsimp only
    split
    · unfold close
      split
      · exact ⟨rfl, (closes_hostClose s o.file).isOpen⟩
      · exact ⟨rfl, fun _ h => h⟩
    · exact ⟨rfl, fun _ h => h⟩

/-- A reference is taken. -/
lemma closes_addref (s : Files) (f : FileRef) : Closes s (s.addref f) := ⟨rfl, fun _ h => h⟩

/-- A handle that is opened is new no more. -/
lemma Fresh.hostOpen {s : Files} (hs : s.Fresh) : s.hostOpen.Fresh := by
  intro h hh
  simp only [Files.hostOpen, Function.update_apply] at hh ⊢
  split at hh
  next heq =>
    rw [heq]
    exact Nat.lt_succ_self _
  next => exact Nat.lt_succ_of_lt (hs h hh)

/-- A slot is cleared, -/
lemma closes_fdremoveSlot (t : FDTable) (s : Files) (fd : Fin TUX_NOFILE) :
    Closes s (t.fdremoveSlot s fd).2 := by
  unfold FDTable.fdremoveSlot
  cases t.files fd with
  | none => exact .refl s
  | some f => exact closes_fdrelease s f

/-- or a list of them, by induction. -/
lemma closes_fdclearFrom (fds : List (Fin TUX_NOFILE)) (t : FDTable) (s : Files) :
    Closes s (FDTable.fdclearFrom fds t s).2 := by
  induction fds generalizing t s with
  | nil => exact .refl s
  | cons fd fds ih => exact (closes_fdremoveSlot t s fd).trans (ih _ _)

/-- A directory is left. -/
lemma closes_leave (q : ProcFiles) (s : Files) : Closes s (q.leave s).2 := by
  unfold ProcFiles.leave
  split
  · exact closes_fdrelease s _
  · exact closes_hostClose s _
  · exact .refl s

end Files

namespace ProcFiles
open Files

/-- `openat` opens the next handle, -/
lemma fresh_openat (q : ProcFiles) {s : Files} (hs : s.Fresh) (r : NewFile) : (q.openat s r).2.2.Fresh := by
  cases r with
  | nofile => exact hs
  | nomem => exact hs.hostOpen
  | ok =>
    have hnew : (s.hostOpen.filefnew s.nhandle).Fresh := hs.hostOpen
    unfold openat filenew
    dsimp only
    cases q.fdtable.fdalloc with
    | none => exact (closes_fdrelease _ _).fresh hnew
    | some fd => exact (closes_addref _ _).fresh hnew

/-- and so does `chdir`. -/
lemma fresh_chdir (q : ProcFiles) {s : Files} (hs : s.Fresh) (opened : Bool) :
    (q.chdir s opened).2.Fresh := by
  cases opened with
  | false => exact (closes_leave q s).fresh hs
  | true => exact (closes_leave q s.hostOpen).fresh hs.hostOpen

/-- `fchdir` opens none, -/
lemma closes_fchdir (q : ProcFiles) (s : Files) (fd : CInt) (isdir : Bool) :
    Closes s (q.fchdir s fd isdir).2 := by
  unfold fchdir
  cases q.fileOf s fd with
  | none => exact .refl s
  | some r =>
    cases isdir with
    | false => exact .refl s
    | true => exact (closes_leave q s).trans (closes_addref _ _)

/-- nor does `close`, -/
lemma closes_close (q : ProcFiles) (s : Files) (fd : CInt) : Closes s (q.close s fd).2 := by
  unfold close FDTable.fdremove
  cases FDTable.slot fd with
  | none => exact .refl s
  | some i => exact closes_fdremoveSlot q.fdtable s i

/-- nor does the end of a process. -/
lemma closes_clear (q : ProcFiles) (s : Files) : Closes s (q.clear s).2 := by
  simp only [clear, FDTable.fdclear]
  exact closes_fdclearFrom _ q.fdtable s

end ProcFiles

/-- No call opens a handle without counting it. -/
lemma Tux.fresh_exec {T : Tux} (hs : T.files.Fresh) (c : Call) : (T.exec c).files.Fresh := by
  cases c with
  | procNew => exact hs
  | openat p r =>
    cases r with
    | none => exact hs
    | some r => exact (T.procs p).fresh_openat hs r
  | close p fd => exact ((T.procs p).closes_close T.files fd).fresh hs
  | chdir p r =>
    cases r with
    | none => exact hs
    | some opened => exact (T.procs p).fresh_chdir hs opened
  | fchdir p fd isdir => exact ((T.procs p).closes_fchdir T.files fd isdir).fresh hs
  | fdclear p =>
    simp only [exec, onProc]
    exact ((T.procs p).closes_clear T.files).fresh hs

/-- Handles that were not opened yet are new in every reachable state. -/
lemma Reachable.fresh {q : ProcFiles} {s : Files} (h : Reachable q s) : s.Fresh := by
  obtain ⟨cs, T, p, hrun, -, -, rfl⟩ := h
  have hinit : lfiTuxNew.files.Fresh := fun h hh => of_decide_eq_true hh
  refine Run.invariant (I := fun T => T.files.Fresh) (fun hs hst => ?_) hinit hrun
  rw [hst.2.1]
  exact Tux.fresh_exec hs _

/-! ## Opening a file -/

/-- The objects and the open handles of two states are the same. -/
structure Files.Same (s s' : Files) : Prop where
  objs : s'.objs = s.objs
  isOpen : s'.isOpen = s.isOpen
  closed : s'.closed = s.closed

/-- What `sys_openat` should do when it fails: leave the table, the objects and the handles alone. -/
def OpenatContract (O : HostOs) (dirfd : CInt) (pathp : Word) (w : World L M) : Prop :=
  let r := (sysOpenat O dirfd pathp).run w
  ∀ e, r.val = .ok e → e.msb = true → r.st.fds = w.fds ∧ w.files.Same r.st.files

/-- Nothing is lost: the host opens no file, or there is memory for its object and a descriptor. -/
def NothingLost (q : ProcFiles) : NewFile → Prop
  | .nofile => True
  | .nomem => False
  | .ok => q.fdtable.fdalloc ≠ none

/-- What `sys_openat` does. -/
lemma sysOpenat_run (O : HostOs) (dirfd : CInt) (pathp : Word) (w : World L M) :
    ∃ out, (sysOpenat O dirfd pathp).run w =
      match w.dir O dirfd, w.path pathp with
      | some _, some _ =>
        let r := O.newfile (w.ncall + w.lookups dirfd)
        let o := w.fds.openat w.files r
        ⟨.ok (match o.1 with
          | some fd => BitVec.ofNat 64 fd
          | none => negErr (if r = .ok then TUX_EMFILE else TUX_ENOENT)),
          { w with fds := o.2.1, files := o.2.2, ncall := w.ncall + w.lookups dirfd + 1 }, out⟩
      | some _, none => ⟨.ok (negErr TUX_EFAULT), w.calls (w.lookups dirfd), out⟩
      | none, _ => ⟨.ok (negErr TUX_EBADF), w.calls (w.lookups dirfd), out⟩ := by
  generalize hp : w.path pathp = path
  rw [sysOpenat, withDir, Exec.bind_run, getfdir_run, Exec.andThen_ok_nil]
  cases w.dir O dirfd with
  | none => exact ⟨_, Exec.pure_run _ _⟩
  | some dir =>
    dsimp only
    have hthread : (w.calls (w.lookups dirfd)).p = w.p := rfl
    have hpath : (w.calls (w.lookups dirfd)).path pathp = path := (World.path_congr hthread pathp).trans hp
    rw [withPath, Exec.bind_run, procpath_run, Exec.andThen_ok, hpath]
    cases path with
    | none => exact ⟨_, by rw [Exec.pure_run]⟩
    | some path =>
      dsimp only
      rw [Exec.bind_run, Exec.get_run, Exec.andThen_ok_nil, Exec.bind_run, Exec.modify_run,
        Exec.andThen_ok_nil, World.calls_ncall]
      refine ⟨(w.calls (w.lookups dirfd)).pathReads (lfiAsFmptr (w.calls (w.lookups dirfd)).info pathp), ?_⟩
      have hopen : (w.calls (w.lookups dirfd)).fds.openat (w.calls (w.lookups dirfd)).files
          (O.newfile (w.ncall + w.lookups dirfd)) =
          w.fds.openat w.files (O.newfile (w.ncall + w.lookups dirfd)) := rfl
      rw [hopen]
      cases (w.fds.openat w.files (O.newfile (w.ncall + w.lookups dirfd))).1 with
      | none =>
        dsimp only
        rw [Exec.pure_run, List.append_nil]
        rfl
      | some fd =>
        dsimp only
        rw [Exec.pure_run, List.append_nil]
        rfl

/-- The handle of a new object that is released again stays open: its count goes from `0` to the largest
number. -/
lemma fdrelease_new_isOpen (s : Files) :
    ((s.hostOpen.filefnew s.nhandle).fdrelease s.nobj).isOpen s.nhandle = true := by
  have hobj : (s.hostOpen.filefnew s.nhandle).objs s.nobj = some ⟨s.nhandle, 0, fun _ => true⟩ :=
    Function.update_self ..
  rw [Files.fdrelease, hobj]
  dsimp only
  rw [if_neg (by decide)]
  exact Function.update_self ..

/-- A handle that was not open before is a difference. -/
lemma Files.Fresh.not_same {s s' : Files} (hs : s.Fresh) (h : s'.isOpen s.nhandle = true) :
    ¬ s.Same s' := by
  intro hsame
  rw [hsame.isOpen] at h
  exact Nat.lt_irrefl _ (hs _ h)

/-- A `sys_openat` that fails leaves everything as it was, in every reachable state, exactly when nothing is
lost after directory and path were accepted. -/
theorem openat_contract (O : HostOs) {w : World L M} (h : Reachable w.fds w.files) (dirfd : CInt)
    (pathp : Word) :
    OpenatContract O dirfd pathp w ↔
      ((w.dir O dirfd).isSome = true → (w.path pathp).isSome = true →
        NothingLost w.fds (O.newfile (w.ncall + w.lookups dirfd))) := by
  have hs := h.fresh
  obtain ⟨out, hrun⟩ := sysOpenat_run O dirfd pathp w
  unfold OpenatContract
  rw [hrun]
  cases w.dir O dirfd with
  | none => exact iff_of_true (fun e _ _ => ⟨rfl, rfl, rfl, rfl⟩) fun h => absurd h (by decide)
  | some dir =>
    cases w.path pathp with
    | none => exact iff_of_true (fun e _ _ => ⟨rfl, rfl, rfl, rfl⟩) fun _ h => absurd h (by decide)
    | some path =>
      dsimp only
      cases O.newfile (w.ncall + w.lookups dirfd) with
      | nofile => exact iff_of_true (fun e _ _ => ⟨rfl, rfl, rfl, rfl⟩) fun _ _ => trivial
      | nomem =>
        refine iff_of_false (fun hc => ?_) fun hl => hl rfl rfl
        have hsame := (hc (negErr TUX_ENOENT) rfl (by decide)).2
        exact hs.not_same (Function.update_self ..) hsame
      | ok =>
        rw [ProcFiles.openat, filenew]
        dsimp only
        cases ha : w.fds.fdtable.fdalloc with
        | none =>
          refine iff_of_false (fun hc => ?_) fun hl => hl rfl rfl ha
          have hsame := (hc (negErr TUX_EMFILE) rfl (by decide)).2
          exact hs.not_same (fdrelease_new_isOpen w.files) hsame
        | some fd =>
          refine iff_of_true (fun e he hneg => ?_) fun _ _ => ?_
          · cases he
            have hfd : fd.val < 128 := fd.isLt
            simp only [BitVec.msb_eq_decide, BitVec.toNat_ofNat, decide_eq_true_eq] at hneg
            omega
          · rw [NothingLost, ha]
            exact Option.some_ne_none fd

/-! ### A full table -/

/-- The references of a table are its occupied slots. -/
lemma FDTable.card_refs (t : FDTable) :
    t.refs.card = (Finset.univ.filter fun i => (t.files i).isSome = true).card := by
  rw [FDTable.refs, Multiset.card_sum, Finset.card_filter]
  refine Finset.sum_congr rfl fun i _ => ?_
  cases t.files i with
  | none => rfl
  | some f => rfl

/-- A table holds as many objects as it has slots. -/
lemma FDTable.card_refs_le (t : FDTable) : t.refs.card ≤ TUX_NOFILE := by
  rw [t.card_refs]
  exact (Finset.card_le_univ _).trans_eq (Fintype.card_fin _)

/-- There is no free descriptor exactly when all are taken. -/
lemma FDTable.fdalloc_eq_none {t : FDTable} : t.fdalloc = none ↔ t.refs.card = TUX_NOFILE := by
  have hfull : t.refs.card = TUX_NOFILE ↔ ∀ i, (t.files i).isSome = true := by
    have huniv := Finset.card_eq_iff_eq_univ (Finset.univ.filter fun i => (t.files i).isSome = true)
    rw [Fintype.card_fin] at huniv
    rw [t.card_refs, huniv, Finset.filter_eq_self]
    exact ⟨fun h i => h i (Finset.mem_univ i), fun h i _ => h i⟩
  rw [hfull, FDTable.fdalloc, List.find?_eq_none]
  constructor
  · intro h i
    have hi := h i (List.mem_finRange i)
    rwa [Option.isNone_iff_eq_none, ← ne_eq, ← Option.isSome_iff_ne_none] at hi
  · intro h i _
    rw [Option.isNone_iff_eq_none, ← ne_eq, ← Option.isSome_iff_ne_none]
    exact h i

/-- The table of the first process after it opened `n` files. -/
def Tux.opened (n : Nat) : Tux :=
  (List.replicate n (Call.openat 0 (some .ok))).foldl Tux.exec (lfiTuxNew.exec .procNew)

/-- One more file is opened, -/
lemma Tux.opened_succ (n : Nat) : Tux.opened (n + 1) = (Tux.opened n).exec (.openat 0 (some .ok)) := by
  rw [opened, opened, List.replicate_succ', List.foldl_append]
  rfl

/-- by the only process. -/
lemma Tux.opened_nproc (n : Nat) : (Tux.opened n).nproc = 1 := by
  induction n with
  | zero => rfl
  | succ n ih =>
    rw [opened_succ]
    exact ih

/-- It holds few objects. -/
lemma Tux.card_opened_le (n : Nat) : (Tux.opened n).holders.card < 2 ^ 64 := by
  have hproc : ((Tux.opened n).procs 0).refs.card ≤ 129 := by
    rw [ProcFiles.refs, Multiset.card_add]
    have hle := ((Tux.opened n).procs 0).fdtable.card_refs_le
    cases ((Tux.opened n).procs 0).cwd.fd with
    | none => exact hle.trans (by decide)
    | some f => exact Nat.add_le_add_right hle 1
  rw [holders, opened_nproc, Finset.sum_range_one, Multiset.card_add]
  have hstd : (Tux.opened n).std.card = 3 := rfl
  omega

/-- So there is a run to it. -/
lemma Tux.run_opened (n : Nat) : ∃ cs, Run Tux.step lfiTuxNew cs (Tux.opened n) := by
  induction n with
  | zero => exact ⟨_, .snoc (.nil _) (Tux.step_exec (c := .procNew) rfl (Tux.card_opened_le 0))⟩
  | succ n ih =>
    obtain ⟨cs, hr⟩ := ih
    rw [opened_succ]
    refine ⟨_, .snoc hr (Tux.step_exec (c := .openat 0 (some .ok)) ?_ ?_)⟩
    · rw [opened_nproc]
      rfl
    · rw [← opened_succ]
      exact Tux.card_opened_le (n + 1)

/-- Each open takes a slot, as long as there is one. -/
lemma Tux.card_opened (n : Nat) (hn : n ≤ 125) :
    ((Tux.opened n).procs 0).fdtable.refs.card = 3 + n := by
  induction n with
  | zero => decide +kernel
  | succ n ih =>
    have ih := ih (by omega)
    have hself : ((Tux.opened (n + 1)).procs 0).fdtable =
        (((Tux.opened n).procs 0).openat (Tux.opened n).files .ok).2.1.fdtable := by
      rw [opened_succ, exec, onProc_self]
    rw [hself, ProcFiles.openat, filenew]
    dsimp only
    cases ha : ((Tux.opened n).procs 0).fdtable.fdalloc with
    | none =>
      rw [FDTable.fdalloc_eq_none, ih] at ha
      exact absurd ha (by simp only [TUX_NOFILE]; omega)
    | some fd =>
      dsimp only [FDTable.fdassign]
      rw [FDTable.refs_assign (FDTable.fdalloc_free ha), Multiset.card_cons, ih]
      omega

/-- It can be reached. -/
lemma reachable_opened (n : Nat) : Reachable ((Tux.opened n).procs 0) (Tux.opened n).files := by
  obtain ⟨cs, hr⟩ := Tux.run_opened n
  exact ⟨cs, _, 0, hr, by rw [Tux.opened_nproc]; exact Nat.one_pos, rfl, rfl⟩

/-- After one file was opened, a failed open leaves everything as it was when the host has no such file. -/
theorem openat_contract_opened :
    OpenatContract { HostOs.plain with newfile _ := .nofile } TUX_AT_FDCWD LFIAddrSpaceInfo.plain.minaddr
      (World.withFiles ((Tux.opened 1).procs 0) (Tux.opened 1).files) :=
  (openat_contract _ (reachable_opened 1) _ _).mpr fun _ _ => trivial

/-- With all descriptors in use, the host file that was opened stays open. -/
def Leaks (q : ProcFiles) (s : Files) : Prop :=
  let r := (sysOpenat .plain TUX_AT_FDCWD LFIAddrSpaceInfo.plain.minaddr).run (World.withFiles q s)
  r.val = .ok (negErr TUX_EMFILE) ∧ s.isOpen s.nhandle = false ∧ r.st.files.isOpen s.nhandle = true

/-- The handle that is opened next is not open. -/
lemma Files.Fresh.next_closed {s : Files} (h : s.Fresh) : s.isOpen s.nhandle = false := by
  rw [← Bool.not_eq_true]
  exact fun ho => Nat.lt_irrefl _ (h _ ho)

/-- The empty path at the start of the sandbox is accepted. -/
lemma World.withFiles_path (q : ProcFiles) (s : Files) :
    (World.withFiles q s).path LFIAddrSpaceInfo.plain.minaddr = some LFIAddrSpaceInfo.plain.minaddr := by
  rw [World.path_congr (show (World.withFiles q s).p = (World.withFiles ⟨.empty, none, none⟩ .init).p from rfl)]
  decide +kernel

/-- A process without a free slot leaks what it opens. -/
lemma leaks_of_full {q : ProcFiles} {s : Files} (h : Reachable q s) (hfull : q.fdtable.fdalloc = none) :
    Leaks q s := by
  have hclosed := h.fresh.next_closed
  have hpath := World.withFiles_path q s
  have hopen : q.openat s .ok = (none, q, (s.hostOpen.filefnew s.nhandle).fdrelease s.nobj) := by
    rw [ProcFiles.openat, filenew]
    dsimp only
    rw [hfull]
  obtain ⟨out, hrun⟩ :=
    sysOpenat_run .plain TUX_AT_FDCWD LFIAddrSpaceInfo.plain.minaddr (World.withFiles q s)
  have hdir : (World.withFiles q s).dir .plain TUX_AT_FDCWD = some q.cwd.file := if_pos rfl
  have hnew : (World.withFiles q s).fds.openat (World.withFiles q s).files (HostOs.plain.newfile
      ((World.withFiles q s).ncall + (World.withFiles q s).lookups TUX_AT_FDCWD)) = q.openat s .ok := rfl
  rw [hpath, hdir] at hrun
  dsimp only at hrun
  rw [hnew, hopen] at hrun
  refine ⟨congrArg Res.val hrun, hclosed, ?_⟩
  have hst := congrArg (fun r => r.st.files.isOpen s.nhandle) hrun
  exact hst.trans (fdrelease_new_isOpen s)

/-- A process that opened 125 files, besides its three standard ones, leaks the next. -/
theorem openat_full_leaks :
    Reachable ((Tux.opened 125).procs 0) (Tux.opened 125).files ∧
      Leaks ((Tux.opened 125).procs 0) (Tux.opened 125).files :=
  ⟨reachable_opened 125, leaks_of_full (reachable_opened 125)
    (FDTable.fdalloc_eq_none.mpr (Tux.card_opened 125 le_rfl))⟩

end Libtux
