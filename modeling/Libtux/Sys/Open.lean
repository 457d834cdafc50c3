import Libtux.Pal.Ranges
import Libtux.Sys.Fail

/-!
# The file behind a path

`filenew` (`src/file.c`) asks the application's hook first, and the host when there is no hook or the hook
has no file, but it only asks the hook when it has no directory. `FileSystem` is what the two answer: a
parameter, of which only one thing is known, that the host looks up an absolute path from its root
(`absolute`). `World.opens` is the file that `sys_openat` opens, or its error (`sysOpenat_opens`).

An absolute path should name one file, whatever the directory. Two calls agree exactly when the directory
is accepted in both or in neither, and when the hook, if only one of them asks it, has nothing else to say
than the host (`openat_same_iff`).
-/

namespace Libtux
open Lib

def TUX_O_CLOEXEC : CInt := 0x80000

/-- The slash. -/
def slash : Byte := 0x2f

/-- What can be opened. -/
structure FileSystem (F : Type) where
  /-- `opts.fs.open`. -/
  hook : Option (List Byte → CInt → CInt → Option F)
  /-- `host_openat`, where no directory is that of the host process. -/
  openat : Option HostFile → List Byte → CInt → CInt → Option F
  absolute : ∀ {path}, path.head? = some slash → ∀ dir dir' flags mode,
    openat dir path flags mode = openat dir' path flags mode

section
variable {F : Type}

/-- The file of the hook. -/
def FileSystem.hooked (fs : FileSystem F) (path : List Byte) (flags mode : CInt) : Option F :=
  fs.hook.bind fun hook => hook path flags mode

/-- `filenew`: the file it opens. -/
def FileSystem.filenew (fs : FileSystem F) (dir : Option HostFile) (path : List Byte)
    (flags mode : CInt) : Option F :=
  let flags := flags &&& ~~~TUX_O_CLOEXEC
  let f := if dir = none then fs.hooked path flags mode else none
  match f with
  | some f => some f
  | none => fs.openat dir path flags mode

variable {L : LibMMap} {M : Machine}

/-- The string at an accepted path. -/
def World.pathBytes (w : World L M) (str : Word) : List Byte :=
  (List.range (strnlenAt w.mem str TUX_PATH_MAX)).map fun k => w.mem (str + BitVec.ofNat 64 k)

/-- What `sys_openat` makes of the result of `filenew`. `mem` says whether there was memory for the object
of the file, and `full` whether all descriptors are in use. -/
def openAnswer (mem full : Bool) : Option F → Except Nat F
  | none => .error TUX_ENOENT
  | some f => if mem then if full then .error TUX_EMFILE else .ok f else .error TUX_ENOENT

/-- The file that `sys_openat` opens, or its error. -/
def World.opens (w : World L M) (fs : FileSystem F) (mem : Bool) (O : HostOs) (dirfd : CInt)
    (pathp : Word) (flags mode : CInt) : Except Nat F :=
  match w.dir O dirfd, w.path pathp with
  | none, _ => .error TUX_EBADF
  | some _, none => .error TUX_EFAULT
  | some dir, some path =>
    openAnswer mem w.fds.fdtable.fdalloc.isNone (fs.filenew dir (w.pathBytes path) flags mode)

/-- What becomes of a `filenew` that finds `o`. -/
def newFile (mem : Bool) (o : Option F) : NewFile :=
  match o with
  | none => .nofile
  | some _ => if mem then .ok else .nomem

/-- `sys_openat` returns a descriptor for a file that is opened, and the error of one that is not. -/
lemma sysOpenat_opens {O : HostOs} {w : World L M} {fs : FileSystem F} {mem : Bool} {dirfd : CInt}
    {pathp : Word} {flags mode : CInt}
    (hnew : ∀ dir path, w.dir O dirfd = some dir → w.path pathp = some path →
      O.newfile (w.ncall + w.lookups dirfd) = newFile mem (fs.filenew dir (w.pathBytes path) flags mode)) :
    match w.opens fs mem O dirfd pathp flags mode with
    | .ok _ => ∃ fd, w.fds.fdtable.fdalloc = some fd ∧
      ((sysOpenat O dirfd pathp).run w).val = .ok (BitVec.ofNat 64 fd)
    | .error e => ((sysOpenat O dirfd pathp).run w).val = .ok (negErr e) := by
  obtain ⟨out, hrun⟩ := sysOpenat_run O dirfd pathp w
  rw [hrun]
  unfold World.opens
  cases hdir : w.dir O dirfd with
  | none => rfl
  | some dir =>
    cases hpath : w.path pathp with
    | none => rfl
    | some path =>
      dsimp only
      rw [hnew dir path hdir hpath]
      cases fs.filenew dir (w.pathBytes path) flags mode with
      | none => rfl
      | some f =>
        cases mem with
        | false => rfl
        | true =>
          cases hfd : w.fds.fdtable.fdalloc with
          | none =>
            simp only [newFile, if_true, ProcFiles.openat, filenew, hfd]
            rfl
          | some fd =>
            simp only [newFile, if_true, ProcFiles.openat, filenew, hfd]
            exact ⟨fd, rfl, rfl⟩

/-! ## Absolute paths -/

/-- The hook has no file for the path, or the one that the host has. Other files of the two are not told
apart when neither can be opened. -/
def FileSystem.HookAgrees (fs : FileSystem F) (mem full : Bool) (path : List Byte) (flags mode : CInt) :
    Prop :=
  let host := fs.openat none path (flags &&& ~~~TUX_O_CLOEXEC) mode
  ∀ f, fs.hooked path (flags &&& ~~~TUX_O_CLOEXEC) mode = some f →
    mem = false ∨ host = some f ∨ (full = true ∧ host.isSome = true)

/-- Two calls are alike: both have no directory to begin with, or both have one; or both have none or both
have one to look the path up from, or the hook agrees with the host. -/
def OpensAlike (fs : FileSystem F) (mem : Bool) (w : World L M) (pathp : Word) (flags mode : CInt) :
    Option (Option HostFile) → Option (Option HostFile) → Prop
  | none, none => True
  | some dir, some dir' => ∀ path, w.path pathp = some path → (dir = none ↔ dir' = none) ∨
      fs.HookAgrees mem w.fds.fdtable.fdalloc.isNone (w.pathBytes path) flags mode
  | _, _ => False

/-- When two opens get the same answer. -/
lemma openAnswer_eq_iff {mem full : Bool} {a b : Option F} : openAnswer mem full a = openAnswer mem full b ↔
    a = b ∨ mem = false ∨ (full = true ∧ a.isSome = true ∧ b.isSome = true) := by
  cases mem with
  | false => cases a <;> cases b <;> simp [openAnswer]
  | true => cases full <;> cases a <;> cases b <;> simp [openAnswer, TUX_ENOENT, TUX_EMFILE]

/-- No other error is taken for that of a directory. -/
lemma opens_ne_ebadf {w : World L M} {fs : FileSystem F} {mem : Bool} {O : HostOs} {dirfd : CInt}
    {pathp : Word} {flags mode : CInt} {dir : Option HostFile} (h : w.dir O dirfd = some dir) :
    w.opens fs mem O dirfd pathp flags mode ≠ .error TUX_EBADF := by
  unfold World.opens
  rw [h]
  cases w.path pathp with
  | none => exact fun h => absurd (Except.error.inj h) (by decide)
  | some path =>
    dsimp only
    cases fs.filenew dir (w.pathBytes path) flags mode with
    | none => exact fun h => absurd (Except.error.inj h) (by decide)
    | some f =>
      rw [openAnswer]
      split
      · split
        · exact fun h => absurd (Except.error.inj h) (by decide)
        · exact fun h => nomatch h
      · exact fun h => absurd (Except.error.inj h) (by decide)

/-- Without a directory nothing is opened. -/
lemma opens_ebadf {w : World L M} (fs : FileSystem F) (mem : Bool) {O : HostOs} {dirfd : CInt}
    (pathp : Word) (flags mode : CInt) (h : w.dir O dirfd = none) :
    w.opens fs mem O dirfd pathp flags mode = .error TUX_EBADF := by
  unfold World.opens
  rw [h]

/-- The string at an absolute path starts with a slash. -/
lemma pathBytes_head {w : World L M} {str : Word} (h : w.mem str = slash) :
    (w.pathBytes str).head? = some slash := by
  have hlen : strnlenAt w.mem str TUX_PATH_MAX = strnlenAt w.mem (str + 1) 4095 + 1 := by
    rw [TUX_PATH_MAX, strnlenAt, h]
    exact if_neg (by decide)
  rw [World.pathBytes, hlen, List.range_succ_eq_map, List.map_cons, List.head?_cons, BitVec.add_zero, h]

section
variable {fs : FileSystem F} {mem full : Bool} {path : List Byte} {flags mode : CInt}

/-- Below two directories an absolute path names one file. -/
lemma FileSystem.filenew_below (habs : path.head? = some slash) (d d' : HostFile) :
    fs.filenew (some d) path flags mode = fs.filenew (some d') path flags mode :=
  fs.absolute habs _ _ _ _

/-- With and without a directory an absolute path is opened alike when the hook agrees. -/
lemma openAnswer_hook (habs : path.head? = some slash) (d : HostFile) :
    openAnswer mem full (fs.filenew none path flags mode) =
      openAnswer mem full (fs.filenew (some d) path flags mode) ↔
    fs.HookAgrees mem full path flags mode := by
  have hsome : fs.filenew (some d) path flags mode =
      fs.openat none path (flags &&& ~~~TUX_O_CLOEXEC) mode := fs.absolute habs _ _ _ _
  rw [hsome, openAnswer_eq_iff, FileSystem.filenew, FileSystem.HookAgrees, if_pos rfl]
  cases fs.hooked path (flags &&& ~~~TUX_O_CLOEXEC) mode with
  | none => exact iff_of_true (.inl rfl) fun f h => nomatch h
  | some f =>
    dsimp only
    constructor
    · intro h g hg
      cases hg
      rcases h with h | h | h
      · exact .inr (.inl h.symm)
      · exact .inl h
      · exact .inr (.inr ⟨h.1, h.2.2⟩)
    · intro h
      rcases h f rfl with h | h | h
      · exact .inr (.inl h)
      · exact .inl h.symm
      · exact .inr (.inr ⟨h.1, rfl, h.2⟩)

end

/-- States of one process between which nothing changed but the current directory and what it held. -/
structure SameProcess (w w' : World L M) : Prop where
  thread : w'.p = w.p
  table : w'.fds.fdtable = w.fds.fdtable

/-- The calls that change the current directory. -/
inductive DirAct where
  | chdir (pathp : Word)
  | fchdir (fd : CInt)

/-- One of them, on any host. -/
def DirStep (w : World L M) (a : HostOs × DirAct) (w' : World L M) : Prop :=
  match a.2 with
  | .chdir pathp => w' = ((sysChdir a.1 pathp).run w).st
  | .fchdir fd => w' = ((sysFchdir a.1 fd).run w).st

/-- `sys_chdir` changes the files only, -/
lemma sysChdir_same (O : HostOs) (pathp : Word) (w : World L M) :
    SameProcess w ((sysChdir O pathp).run w).st := by
  rw [sysChdir_run]
  cases w.path pathp with
  | none => exact ⟨rfl, rfl⟩
  | some path => exact ⟨rfl, leave_fdtable ..⟩

/-- and so does `sys_fchdir`. -/
lemma sysFchdir_same (O : HostOs) (fd : CInt) (w : World L M) :
    SameProcess w ((sysFchdir O fd).run w).st := by
  rw [sysFchdir_run]
  cases w.fdfile fd with
  | none => exact ⟨rfl, rfl⟩
  | some o =>
    dsimp only
    split
    · split
      · refine ⟨rfl, ?_⟩
        simp only [ProcFiles.fchdir]
        split
        · rfl
        · exact leave_fdtable ..
      · exact ⟨rfl, rfl⟩
    · exact ⟨rfl, rfl⟩

/-- Any number of them leaves the process as it was. -/
lemma Lib.Run.sameProcess {w w' : World L M} {l : List (HostOs × DirAct)} (h : Run DirStep w l w') :
    SameProcess w w' := by
  refine h.invariant (I := SameProcess w) (fun {s a s'} hs hst => ?_) ⟨rfl, rfl⟩
  have hnext : SameProcess s s' := by
    obtain ⟨O, _ | _⟩ := a
    · cases hst
      exact sysChdir_same ..
    · cases hst
      exact sysFchdir_same ..
  exact ⟨hnext.thread.trans hs.thread, hnext.table.trans hs.table⟩

/-- Two calls with one absolute path, in states of one process that differ in the current directory, open
one file or fail with one error exactly when they are alike. -/
theorem openat_same_iff {w w' : World L M} (fs : FileSystem F) (mem : Bool) (O O' : HostOs)
    (dirfd dirfd' : CInt) {pathp : Word} (flags mode : CInt) (hsame : SameProcess w w')
    (habs : w.mem pathp = slash) :
    w.opens fs mem O dirfd pathp flags mode = w'.opens fs mem O' dirfd' pathp flags mode ↔
      OpensAlike fs mem w pathp flags mode (w.dir O dirfd) (w'.dir O' dirfd') := by
  obtain ⟨hthread, htable⟩ := hsame
  have hpath : w'.path pathp = w.path pathp := World.path_congr hthread pathp
  have hbytes : w'.pathBytes = w.pathBytes := by
    funext str
    rw [World.pathBytes, World.pathBytes, World.mem, World.mem, hthread]
  have hstr : ∀ path, w.path pathp = some path → path = pathp := fun _ h => World.path_eq h
  cases hdir : w.dir O dirfd with
  | none =>
    rw [opens_ebadf fs mem pathp flags mode hdir]
    cases hdir' : w'.dir O' dirfd' with
    | none => exact iff_of_true (opens_ebadf fs mem pathp flags mode hdir').symm trivial
    | some dir' => exact iff_of_false (fun h => opens_ne_ebadf hdir' h.symm) id
  | some dir =>
    cases hdir' : w'.dir O' dirfd' with
    | none =>
      rw [opens_ebadf fs mem pathp flags mode hdir']
      exact iff_of_false (opens_ne_ebadf hdir) id
    | some dir' =>
      unfold World.opens
      rw [hdir, hdir', hpath, htable, hbytes]
      cases hp : w.path pathp with
      | none => exact iff_of_true rfl fun path h => absurd (hp.symm.trans h) (by simp)
      | some path =>
        have hhead : (w.pathBytes path).head? = some slash := by
          rw [hstr path hp]
          exact pathBytes_head habs
        have hall : OpensAlike fs mem w pathp flags mode (some dir) (some dir') ↔
            ((dir = none ↔ dir' = none) ∨
              fs.HookAgrees mem w.fds.fdtable.fdalloc.isNone (w.pathBytes path) flags mode) := by
          refine ⟨fun h => h path hp, fun h q hq => ?_⟩
          cases hp.symm.trans hq
          exact h
        rw [hall]
        dsimp only
        cases dir with
        | none =>
          cases dir' with
          | none => exact iff_of_true rfl (.inl Iff.rfl)
          | some d => rw [openAnswer_hook hhead d, or_iff_right (by simp)]
        | some d =>
          cases dir' with
          | none => rw [eq_comm, openAnswer_hook hhead d, or_iff_right (by simp)]
          | some d' =>
            rw [fs.filenew_below hhead d d']
            exact iff_of_true rfl (.inl (by simp))

end

/-- A thread with the path `/` at the start of its memory. -/
def World.atRoot : World .ofRanges .x64 :=
  (World.ofThread (procnewfile (.fresh .plain) 10000)).setMem fun x =>
    if x = LFIAddrSpaceInfo.plain.minaddr then slash else 0

/-- The same thread after a `chdir` to that path. -/
def World.afterChdir : World .ofRanges .x64 := ((sysChdir .plain LFIAddrSpaceInfo.plain.minaddr).run .atRoot).st

/-- One call of `sys_chdir`. -/
lemma chdir_once :
    Run DirStep World.atRoot [(.plain, .chdir LFIAddrSpaceInfo.plain.minaddr)] World.afterChdir :=
  .snoc (.nil _) rfl

/-- File systems with one file for every path, that of the host or that of the hook. -/
def FileSystem.one (hooked : Bool) : FileSystem Unit where
  hook := if hooked then some fun _ _ _ => some () else none
  openat _ _ _ _ := if hooked then none else some ()
  absolute _ _ _ _ _ := rfl

/-- Without a hook the `chdir` makes no difference. -/
theorem openat_same_chdir :
    World.atRoot.opens (.one false) true .plain TUX_AT_FDCWD LFIAddrSpaceInfo.plain.minaddr 0 0 =
      World.afterChdir.opens (.one false) true .plain TUX_AT_FDCWD LFIAddrSpaceInfo.plain.minaddr 0 0 :=
  (openat_same_iff _ true .plain .plain TUX_AT_FDCWD TUX_AT_FDCWD 0 0 chdir_once.sameProcess
    (by decide)).mpr fun path _ => .inr fun f h => nomatch h

/-- The file of a hook is there before the `chdir`, and gone after it. -/
theorem openat_hook_lost :
    World.atRoot.opens (.one true) true .plain TUX_AT_FDCWD LFIAddrSpaceInfo.plain.minaddr 0 0 = .ok () ∧
    World.afterChdir.opens (.one true) true .plain TUX_AT_FDCWD LFIAddrSpaceInfo.plain.minaddr 0 0 =
      .error TUX_ENOENT := by
  constructor
  · decide +kernel
  · decide +kernel

end Libtux
