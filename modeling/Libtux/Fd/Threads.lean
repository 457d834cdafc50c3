import Libtux.Fd.Tux

/-!
# Descriptors shared by threads

The threads of one process run their syscalls interleaved. A syscall that works on a descriptor is cut
into the pieces that the table lock makes atomic (`src/fd.c`) and what happens between them:

* `sys_openat` opens the host file, then picks a slot (`fdalloc`), then fills it (`fdassign`), or gives
  the object up when there is no slot;
* `sys_close` is one `fdremove`;
* every other descriptor syscall (`sys_read`, `sys_write`, `sys_fchdir`, `procmapat`, `getfdir`, ...)
  looks the object up with `fdget`, later loads the host descriptor through the object, and then makes
  its host call on that number;
* `sys_chdir` and `sys_fchdir` go on to replace the current directory (`src/syscalls/sys_cwd.c`). No lock
  is held there, so each test of `p->cwd`, each release and each store is a step of its own.

The host numbers its open files; a number is free again once its file is closed. `live` and `uses` are
the history that the results speak of: the opens whose descriptor was not closed yet, and for each
operation the host file looked up and the one acted on.
-/

namespace Libtux
open Lib

/-- The directory that a thread is about to enter: the one that `sys_chdir` opened, if it could, or the
one of a descriptor, with the host file that this denoted at the lookup. -/
inductive Goal where
  | path (file : Option HostFile)
  | desc (f : FileRef) (h : Option HostFile) (file : HostFile)

/-- Where a thread stands in its syscall. -/
inductive Phase where
  /-- Between syscalls. -/
  | idle
  /-- In `sys_openat`, with a new object. -/
  | opened (f : FileRef)
  /-- In `sys_openat`, with a new object and the slot `fdalloc` returned. -/
  | allocated (f : FileRef) (fd : Fin TUX_NOFILE)
  /-- In `sys_openat`, with a new object and no slot. -/
  | nofd (f : FileRef)
  /-- Past `fdget`; `h` is the host file the descriptor denoted then. -/
  | looked (f : FileRef) (h : Option HostFile)
  /-- Past the load of the host file from the object. -/
  | called (f : FileRef) (h : Option HostFile) (file : HostFile)
  /-- In `sys_chdir` or `sys_fchdir`, before `if (p->cwd.fd)`. -/
  | leaving (g : Goal)
  /-- Past that test, with the object it loaded. -/
  | releasing (g : Goal) (d : FileRef)
  /-- Past `fdrelease`, before `p->cwd.fd = NULL`. -/
  | released (g : Goal)
  /-- Past that test, where it loaded a null pointer. -/
  | unnamed (g : Goal)
  /-- Past `else if (p->cwd.file)`, with the host file it loaded. -/
  | closing (g : Goal) (d : HostFile)
  /-- Past the `if`. -/
  | left (g : Goal)
  /-- In `sys_fchdir`, past `f->refs++`. -/
  | counted (f : FileRef) (file : HostFile)
  /-- In `sys_fchdir`, past `p->cwd.fd = f`. -/
  | entered (f : FileRef) (file : HostFile)

/-- An operation on a host file: the one looked up, and the one acted on. -/
structure Use where
  looked : Option HostFile
  acted : Option HostFile

/-- A process and its threads. -/
structure Threads where
  files : Files
  /-- The number of the host descriptor of a handle. -/
  num : HostFile → Nat
  proc : ProcFiles
  phase : Nat → Phase
  live : List (Fin TUX_NOFILE × FileRef)
  uses : List Use

/-- What a thread does next. Openings come with the outcome of the host and the number it hands out. -/
inductive Act where
  | openat (r : NewFile) (n : Nat)
  | fdalloc
  | fdassign
  | fdrelease
  | close (fd : CInt)
  | chdir (opened : Bool) (n : Nat)
  | fdget (fd : CInt)
  | load
  | finish
  | fchdir (isdir : Bool)
  | testFd
  | releaseFd
  | clearFd
  | testFile
  | closeFile
  | addref
  | storeFd
  | storeFile

namespace Threads

/-- The host file that a number denotes. -/
def denotes (s : Threads) (n : Nat) : Option HostFile :=
  (List.range s.files.nhandle).find? fun h => s.files.isOpen h && s.num h == n

/-- Thread `i` is at `ph`. -/
def goto (s : Threads) (i : Nat) (ph : Phase) : Threads :=
  { s with phase := Function.update s.phase i ph }

/-- The current directory is replaced. -/
def setCwd (s : Threads) (c : Dir) : Threads := { s with proc := { s.proc with cwd := c } }

/-- A host call on the number in `file`, for a file that was looked up as `h`. -/
def use (s : Threads) (h : Option HostFile) (file : HostFile) : Threads :=
  { s with uses := s.uses ++ [⟨h, s.denotes (s.num file)⟩] }

/-- `filenew` by a thread. -/
def filenew (s : Threads) (i : Nat) (r : NewFile) (n : Nat) : Threads :=
  let s' : Threads :=
    { s with
      files := (Libtux.filenew s.files r).1
      num := Function.update s.num s.files.nhandle n }
  match (Libtux.filenew s.files r).2 with
  | none => s'.goto i .idle
  | some f => s'.goto i (.opened f)

/-- The steps of the threads. -/
inductive Step : Threads → Nat × Act → Threads → Prop where
  | openat {s : Threads} {i n : Nat} {r : NewFile} : s.phase i = .idle → s.denotes n = none →
    Step s (i, .openat r n) (s.filenew i r n)
  /-- `sys_openat` below a directory that was looked up. -/
  | openatDir {s : Threads} {i n : Nat} {r : NewFile} {f h file} : s.phase i = .called f h file →
    s.denotes n = none → Step s (i, .openat r n) ((s.use h file).filenew i r n)
  | fdalloc {s : Threads} {i : Nat} {f fd} : s.phase i = .opened f → s.proc.fdtable.fdalloc = some fd →
    Step s (i, .fdalloc) (s.goto i (.allocated f fd))
  | fdallocFull {s : Threads} {i : Nat} {f} : s.phase i = .opened f → s.proc.fdtable.fdalloc = none →
    Step s (i, .fdalloc) (s.goto i (.nofd f))
  | fdassign {s : Threads} {i : Nat} {f fd} : s.phase i = .allocated f fd →
    Step s (i, .fdassign)
      (goto { s with
        files := (s.proc.fdtable.fdassign s.files fd f).2
        proc := { s.proc with fdtable := (s.proc.fdtable.fdassign s.files fd f).1 }
        live := s.live ++ [(fd, f)] } i .idle)
  | fdrelease {s : Threads} {i : Nat} {f} : s.phase i = .nofd f →
    Step s (i, .fdrelease) (goto { s with files := s.files.fdrelease f } i .idle)
  | close {s : Threads} {i : Nat} {fd : CInt} : s.phase i = .idle →
    Step s (i, .close fd)
      { s with
        files := (s.proc.close s.files fd).2
        proc := (s.proc.close s.files fd).1
        live := s.live.filter fun e => FDTable.slot fd ≠ some e.1 }
  /-- `sys_chdir`, up to `host_openat`. -/
  | chdir {s : Threads} {i n : Nat} {opened : Bool} : s.phase i = .idle → s.denotes n = none →
    Step s (i, .chdir opened n)
      (goto { s with
        files := if opened then s.files.hostOpen else s.files
        num := Function.update s.num s.files.nhandle n } i
        (.leaving (.path (if opened then some s.files.nhandle else none))))
  | fdget {s : Threads} {i : Nat} {fd : CInt} {f} : s.phase i = .idle →
    s.proc.fdtable.fdget fd = some f →
    Step s (i, .fdget fd) (s.goto i (.looked f ((s.files.objs f).map FDFile.file)))
  | load {s : Threads} {i : Nat} {f h o} : s.phase i = .looked f h → s.files.objs f = some o →
    Step s (i, .load) (s.goto i (.called f h o.file))
  /-- The object is gone. -/
  | loadFreed {s : Threads} {i : Nat} {f h} : s.phase i = .looked f h → s.files.objs f = none →
    Step s (i, .load) (goto { s with uses := s.uses ++ [⟨h, none⟩] } i .idle)
  | finish {s : Threads} {i : Nat} {f h file} : s.phase i = .called f h file →
    Step s (i, .finish) ((s.use h file).goto i .idle)
  /-- `host_isdir` in `sys_fchdir`. -/
  | fchdir {s : Threads} {i : Nat} {f h file} : s.phase i = .called f h file →
    Step s (i, .fchdir true) ((s.use h file).goto i (.leaving (.desc f h file)))
  | fchdirNot {s : Threads} {i : Nat} {f h file} : s.phase i = .called f h file →
    Step s (i, .fchdir false) ((s.use h file).goto i .idle)
  | testFd {s : Threads} {i : Nat} {g d} : s.phase i = .leaving g → s.proc.cwd.fd = some d →
    Step s (i, .testFd) (s.goto i (.releasing g d))
  | testFdNull {s : Threads} {i : Nat} {g} : s.phase i = .leaving g → s.proc.cwd.fd = none →
    Step s (i, .testFd) (s.goto i (.unnamed g))
  | releaseFd {s : Threads} {i : Nat} {g d} : s.phase i = .releasing g d →
    Step s (i, .releaseFd) (goto { s with files := s.files.fdrelease d } i (.released g))
  | clearFd {s : Threads} {i : Nat} {g} : s.phase i = .released g →
    Step s (i, .clearFd) ((s.setCwd ⟨s.proc.cwd.file, none⟩).goto i (.left g))
  | testFile {s : Threads} {i : Nat} {g d} : s.phase i = .unnamed g → s.proc.cwd.file = some d →
    Step s (i, .testFile) (s.goto i (.closing g d))
  | testFileNull {s : Threads} {i : Nat} {g} : s.phase i = .unnamed g → s.proc.cwd.file = none →
    Step s (i, .testFile) (s.goto i (.left g))
  | closeFile {s : Threads} {i : Nat} {g d} : s.phase i = .closing g d →
    Step s (i, .closeFile) (goto { s with files := s.files.hostClose d } i (.left g))
  /-- The end of `sys_chdir`. -/
  | storePath {s : Threads} {i : Nat} {file} : s.phase i = .left (.path file) →
    Step s (i, .storeFile) ((s.setCwd ⟨file, s.proc.cwd.fd⟩).goto i .idle)
  /-- `sys_fchdir` counts its reference in the object that it looked up. -/
  | addref {s : Threads} {i : Nat} {f h file} : s.phase i = .left (.desc f h file) →
    Step s (i, .addref)
      (goto { s with
        files := s.files.addref f
        uses := s.uses ++ [⟨h, (s.files.objs f).map FDFile.file⟩] } i (.counted f file))
  | storeFd {s : Threads} {i : Nat} {f file} : s.phase i = .counted f file →
    Step s (i, .storeFd) ((s.setCwd ⟨s.proc.cwd.file, some f⟩).goto i (.entered f file))
  | storeFile {s : Threads} {i : Nat} {f file} : s.phase i = .entered f file →
    Step s (i, .storeFile) ((s.setCwd ⟨some file, s.proc.cwd.fd⟩).goto i .idle)

/-- A process whose threads are all between syscalls. -/
def start (files : Files) (num : HostFile → Nat) (proc : ProcFiles) : Threads where
  files
  num
  proc
  phase _ := .idle
  live := []
  uses := []

end Threads

/-! ## The table -/

section
variable {s s' : Threads} {x : Nat × Act} {i : Nat}

/-- `fdremove` empties the slot of the descriptor. -/
lemma close_files (p : ProcFiles) (s : Files) (fd : CInt) (i : Fin TUX_NOFILE) :
    (p.close s fd).1.fdtable.files i = if FDTable.slot fd = some i then none else p.fdtable.files i := by
  unfold ProcFiles.close FDTable.fdremove
  cases hslot : FDTable.slot fd with
  | none => simp
  | some j =>
    simp only [FDTable.fdremoveSlot, Option.some.injEq]
    by_cases hji : j = i
    · subst hji
      cases hj : p.fdtable.files j with
      | none => simp [hj]
      | some f => simp
    · cases hj : p.fdtable.files j with
      | none => simp [hji]
      | some f => simp [hji, Function.update_of_ne (Ne.symm hji)]

namespace Threads

/-- The thread is there, -/
lemma goto_self (s : Threads) (i : Nat) (ph : Phase) : (s.goto i ph).phase i = ph := Function.update_self ..

/-- and all others stay where they were. -/
lemma goto_other (s : Threads) {i j : Nat} (ph : Phase) (h : j ≠ i) : (s.goto i ph).phase j = s.phase j :=
  Function.update_of_ne h ..

/-- A thread in a phase that another phase was not replaced by was there before. -/
lemma goto_phase {j : Nat} {ph ph' : Phase} (h : (s.goto i ph).phase j = ph') (hne : ph ≠ ph') :
    s.phase j = ph' := by
  by_cases hj : j = i
  · subst hj
    rw [goto_self] at h
    exact absurd h hne
  · rwa [goto_other s ph hj] at h

/-- The parts of a state that descriptors depend on: the table, the live opens and the threads that
picked a slot. -/
structure SameTable (s s' : Threads) : Prop where
  files : s'.proc.fdtable = s.proc.fdtable
  live : s'.live = s.live
  phase : ∀ {j f fd}, s'.phase j = .allocated f fd →
    s.phase j = .allocated f fd ∨ s.proc.fdtable.files fd = none

/-- A thread goes on, and to a slot only if that is free. -/
lemma SameTable.goto {ph : Phase} (h : SameTable s s')
    (hph : ∀ {f fd}, ph = .allocated f fd → s.proc.fdtable.files fd = none) :
    SameTable s (s'.goto i ph) where
  files := h.files
  live := h.live
  phase {j f fd} hj := by
    by_cases heq : ph = .allocated f fd
    · exact .inr (hph heq)
    · exact h.phase (goto_phase hj heq)

/-- A state has its own table. -/
lemma SameTable.refl (s : Threads) : SameTable s s := ⟨rfl, rfl, .inl⟩

/-- A thread is done. -/
lemma SameTable.idle (h : SameTable s s') : SameTable s (s'.goto i .idle) := h.goto nofun

/-- A file is opened. -/
lemma SameTable.filenew {r : NewFile} {n : Nat} (h : SameTable s s') :
    SameTable s (s'.filenew i r n) := by
  have h' : SameTable s
      { s' with
        files := (Libtux.filenew s'.files r).1
        num := Function.update s'.num s'.files.nhandle n } := ⟨h.files, h.live, h.phase⟩
  cases r with
  | nofile => exact h'.idle
  | nomem => exact h'.idle
  | ok => exact h'.goto nofun

/-- What a step does to the table: nothing, fill the slot that the thread picked, or empty one. -/
lemma Step.table (h : Step s x s') :
    (SameTable s s' ∧ x.2 ≠ .fdassign) ∨
    (∃ f fd, s.phase x.1 = .allocated f fd ∧ x.2 = .fdassign ∧
      s'.proc.fdtable.files = Function.update s.proc.fdtable.files fd (some f) ∧
      s'.live = s.live ++ [(fd, f)] ∧
      ∀ {j g k}, s'.phase j = .allocated g k → s.phase j = .allocated g k) ∨
    (∃ fd, x.2 = .close fd ∧
      (∀ k, s'.proc.fdtable.files k = if FDTable.slot fd = some k then none else s.proc.fdtable.files k) ∧
      s'.live = s.live.filter (fun e => FDTable.slot fd ≠ some e.1) ∧ s'.phase = s.phase) := by
  cases h with
  | openat => exact .inl ⟨(SameTable.refl s).filenew, nofun⟩
  | openatDir => exact .inl ⟨SameTable.filenew ⟨rfl, rfl, .inl⟩, nofun⟩
  | fdalloc _ ha =>
    refine .inl ⟨(SameTable.refl s).goto fun {f fd} heq => ?_, nofun⟩
    cases heq
    exact FDTable.fdalloc_free ha
  | fdallocFull => exact .inl ⟨(SameTable.refl s).goto nofun, nofun⟩
  | @fdassign i f fd hi => exact .inr (.inl ⟨f, fd, hi, rfl, rfl, rfl, fun hj => goto_phase hj nofun⟩)
  | fdrelease => exact .inl ⟨SameTable.idle ⟨rfl, rfl, .inl⟩, nofun⟩
  | @close i fd => exact .inr (.inr ⟨fd, rfl, close_files _ _ fd, rfl, rfl⟩)
  | chdir => exact .inl ⟨SameTable.goto ⟨rfl, rfl, .inl⟩ nofun, nofun⟩
  | fdget => exact .inl ⟨(SameTable.refl s).goto nofun, nofun⟩
  | load => exact .inl ⟨(SameTable.refl s).goto nofun, nofun⟩
  | loadFreed => exact .inl ⟨SameTable.idle ⟨rfl, rfl, .inl⟩, nofun⟩
  | finish => exact .inl ⟨SameTable.idle ⟨rfl, rfl, .inl⟩, nofun⟩
  | fchdir => exact .inl ⟨SameTable.goto ⟨rfl, rfl, .inl⟩ nofun, nofun⟩
  | fchdirNot => exact .inl ⟨SameTable.idle ⟨rfl, rfl, .inl⟩, nofun⟩
  | testFd => exact .inl ⟨(SameTable.refl s).goto nofun, nofun⟩
  | testFdNull => exact .inl ⟨(SameTable.refl s).goto nofun, nofun⟩
  | releaseFd => exact .inl ⟨SameTable.goto ⟨rfl, rfl, .inl⟩ nofun, nofun⟩
  | clearFd => exact .inl ⟨SameTable.goto ⟨rfl, rfl, .inl⟩ nofun, nofun⟩
  | testFile => exact .inl ⟨(SameTable.refl s).goto nofun, nofun⟩
  | testFileNull => exact .inl ⟨(SameTable.refl s).goto nofun, nofun⟩
  | closeFile => exact .inl ⟨SameTable.goto ⟨rfl, rfl, .inl⟩ nofun, nofun⟩
  | storePath => exact .inl ⟨SameTable.idle ⟨rfl, rfl, .inl⟩, nofun⟩
  | addref => exact .inl ⟨SameTable.goto ⟨rfl, rfl, .inl⟩ nofun, nofun⟩
  | storeFd => exact .inl ⟨SameTable.goto ⟨rfl, rfl, .inl⟩ nofun, nofun⟩
  | storeFile => exact .inl ⟨SameTable.idle ⟨rfl, rfl, .inl⟩, nofun⟩

/-- The opens whose descriptor was not closed have different descriptors, and each finds its file there. -/
structure Distinct (s : Threads) : Prop where
  nodup : (s.live.map Prod.fst).Nodup
  fdget : ∀ e ∈ s.live, s.proc.fdtable.fdget (.ofNat 32 e.1) = some e.2

/-- The step does not fill a slot that was filled since the thread picked it. -/
def SlotFree (s : Threads) (x : Nat × Act) : Prop :=
  ∀ f fd, s.phase x.1 = .allocated f fd → x.2 = .fdassign → s.proc.fdtable.files fd = none

/-- The invariant: a slot that some thread picked is empty, or taken by an open. -/
structure Apart (s : Threads) : Prop extends Distinct s where
  taken : ∀ {j f fd}, s.phase j = .allocated f fd → s.proc.fdtable.files fd ≠ none →
    fd ∈ s.live.map Prod.fst

/-- `fdget` of a descriptor is its slot. -/
lemma fdget_ofNat (t : FDTable) (fd : Fin TUX_NOFILE) : t.fdget (.ofNat 32 fd) = t.files fd := by
  have hlt : (fd : Nat) < 2 ^ 32 := lt_trans fd.isLt (by decide)
  have hnat : (BitVec.ofNat 32 fd).toNat = fd := by
    rw [BitVec.toNat_ofNat, Nat.mod_eq_of_lt hlt]
  unfold FDTable.fdget FDTable.slot
  simp only [hnat, fd.isLt, dif_pos, Option.bind_some]

/-- The slots of the live opens have their objects. -/
lemma Distinct.files (d : s.Distinct) : ∀ e ∈ s.live, s.proc.fdtable.files e.1 = some e.2 := by
  intro e he
  rw [← fdget_ofNat]
  exact d.fdget e he

/-- A free slot is no live open's. -/
lemma Distinct.notMem (d : s.Distinct) {fd : Fin TUX_NOFILE} (h : s.proc.fdtable.files fd = none) :
    fd ∉ s.live.map Prod.fst := by
  intro hmem
  obtain ⟨e, he, rfl⟩ := List.mem_map.mp hmem
  rw [d.files e he] at h
  cases h

/-- One more live open has a descriptor of its own exactly if its slot is no other's. -/
lemma nodup_snoc_iff {fd : Fin TUX_NOFILE} {f : FileRef} :
    ((s.live ++ [(fd, f)]).map Prod.fst).Nodup ↔
      (s.live.map Prod.fst).Nodup ∧ fd ∉ s.live.map Prod.fst := by
  rw [List.map_append, List.map_singleton, List.nodup_append_comm, List.singleton_append,
    List.nodup_cons, and_comm]

/-- A step that meets the condition keeps the invariant. -/
lemma Apart.step (a : s.Apart) (hok : s.SlotFree x) (h : Step s x s') : s'.Apart := by
  obtain ⟨hs, -⟩ | ⟨f, fd, hi, hx, hfiles, hlive, hph⟩ | ⟨fd, hx, hfiles, hlive, hph⟩ := h.table
  · refine ⟨⟨by rw [hs.live]; exact a.nodup, by rw [hs.live, hs.files]; exact a.fdget⟩, ?_⟩
    intro j f fd hj hne
    rw [hs.files] at hne
    rw [hs.live]
    obtain hj | hnone := hs.phase hj
    · exact a.taken hj hne
    · exact absurd hnone hne
  · have hnot := a.notMem (hok f fd hi hx)
    refine ⟨⟨?_, fun e he => ?_⟩, fun {j g k} hj hne => ?_⟩
    · rw [hlive]
      exact nodup_snoc_iff.mpr ⟨a.nodup, hnot⟩
    · rw [fdget_ofNat, hfiles]
      rw [hlive, List.mem_append, List.mem_singleton] at he
      obtain he | rfl := he
      · have hne : e.1 ≠ fd := fun heq => hnot (heq ▸ List.mem_map_of_mem he)
        rw [Function.update_of_ne hne]
        exact a.files e he
      · exact Function.update_self ..
    · rw [hlive, List.map_append, List.mem_append]
      by_cases hk : k = fd
      · exact .inr (by simp [hk])
      · rw [hfiles, Function.update_of_ne hk] at hne
        exact .inl (a.taken (hph hj) hne)
  · refine ⟨⟨?_, fun e he => ?_⟩, fun {j g k} hj hne => ?_⟩
    · rw [hlive]
      exact a.nodup.sublist (List.filter_sublist.map _)
    · rw [hlive, List.mem_filter, decide_eq_true_iff] at he
      rw [fdget_ofNat, hfiles, if_neg he.2]
      exact a.files e he.1
    · rw [hfiles] at hne
      have hslot : FDTable.slot fd ≠ some k := fun heq => hne (if_pos heq)
      rw [if_neg hslot] at hne
      rw [hph] at hj
      obtain ⟨e, he, rfl⟩ := List.mem_map.mp (a.taken hj hne)
      rw [hlive]
      exact List.mem_map_of_mem (List.mem_filter.mpr ⟨he, decide_eq_true hslot⟩)

/-- And only such a step does. -/
lemma Apart.slotFree (a : s.Apart) (h : Step s x s') (d : s'.Distinct) : s.SlotFree x := by
  intro f fd hi hx
  by_contra hne
  obtain ⟨-, hx'⟩ | ⟨f', fd', hi', -, -, hlive, -⟩ | ⟨fd', hx', -⟩ := h.table
  · exact hx' hx
  · rw [hi] at hi'
    cases hi'
    have hnodup := d.nodup
    rw [hlive, nodup_snoc_iff] at hnodup
    exact hnodup.2 (a.taken hi hne)
  · rw [hx] at hx'
    cases hx'

end Threads
end

/-- While no thread fills a slot that another one filled since it was picked, every open has a
descriptor of its own until that is closed; and the first step that does so breaks this. -/
theorem threads_distinct (files : Files) (num : HostFile → Nat) (proc : ProcFiles)
    {l : List (Nat × Act)} {s : Threads}
    (hrun : Run (Guarded Threads.SlotFree Threads.Step) (.start files num proc) l s) :
    s.Distinct ∧ ∀ {x s'}, s.Step x s' → (s'.Distinct ↔ s.SlotFree x) := by
  have h0 : (Threads.start files num proc).Apart := ⟨⟨List.nodup_nil, nofun⟩, nofun⟩
  have ha : s.Apart := hrun.invariant (I := Threads.Apart) (fun a hst => a.step hst.1 hst.2) h0
  exact ⟨ha.toDistinct, fun hst => ⟨ha.slotFree hst, fun hok => (ha.step hok hst).toDistinct⟩⟩

/-- The first process of a `Tux`, with its standard descriptors. -/
def Threads.first : Threads :=
  .start (lfiTuxNew.exec .procNew).files id ((lfiTuxNew.exec .procNew).procs 0)

/-- Every step but the store of a descriptor meets the condition. -/
lemma Threads.Step.free {s s' : Threads} {i : Nat} {a : Act} (h : s.Step (i, a) s') (ha : a ≠ .fdassign) :
    Guarded Threads.SlotFree Threads.Step s (i, a) s' := ⟨fun _ _ _ heq => absurd heq ha, h⟩

/-- So does a store to a slot that is free. -/
lemma Threads.Step.assign {s s' : Threads} {i : Nat} {f : FileRef} {fd : Fin TUX_NOFILE}
    (hi : s.phase i = .allocated f fd) (hfd : s.proc.fdtable.files fd = none)
    (h : s.Step (i, .fdassign) s') : Guarded Threads.SlotFree Threads.Step s (i, .fdassign) s' := by
  refine ⟨fun f' fd' hi' _ => ?_, h⟩
  obtain ⟨rfl, rfl⟩ := Phase.allocated.inj (hi.symm.trans hi')
  exact hfd

/-- Two threads open a file each, the second one after the first has its descriptor. -/
theorem threads_distinct_first : ∃ l s, Run (Guarded Threads.SlotFree Threads.Step) .first l s ∧
    s.live = [(3, 3), (4, 4)] ∧ s.Distinct := by
  have h1 : Run (Guarded Threads.SlotFree Threads.Step) .first _ _ :=
    .snoc (.snoc (.snoc (.nil _)
      (Threads.Step.free (.openat (i := 0) (n := 3) (r := .ok) rfl (by decide +kernel)) nofun))
      (Threads.Step.free (@Threads.Step.fdalloc _ 0 3 3 rfl (by decide +kernel)) nofun))
      (@Threads.Step.assign _ _ 0 3 3 rfl (by decide +kernel) (.fdassign rfl))
  have h2 := Run.snoc (.snoc (.snoc h1
      (Threads.Step.free (.openat (i := 1) (n := 4) (r := .ok) rfl (by decide +kernel)) nofun))
      (Threads.Step.free (@Threads.Step.fdalloc _ 1 4 4 rfl (by decide +kernel)) nofun))
      (@Threads.Step.assign _ _ 1 4 4 rfl (by decide +kernel) (.fdassign rfl))
  exact ⟨_, _, h2, rfl, (threads_distinct _ _ _ h2).1⟩

/-- Two threads pick the same slot: the file of the first is dropped from the table. -/
theorem threads_collide : ∃ l s, Run Threads.Step .first l s ∧ ¬ s.Distinct := by
  have h1 : Run Threads.Step .first _ _ :=
    .snoc (.snoc (.nil _) (.openat (i := 0) (n := 3) (r := .ok) rfl (by decide +kernel)))
      (.openat (i := 1) (n := 4) (r := .ok) rfl (by decide +kernel))
  have h2 := Run.snoc (.snoc h1 (@Threads.Step.fdalloc _ 0 3 3 rfl (by decide +kernel)))
    (@Threads.Step.fdalloc _ 1 4 3 rfl (by decide +kernel))
  have h3 := Run.snoc (.snoc h2 (@Threads.Step.fdassign _ 0 3 3 rfl))
    (@Threads.Step.fdassign _ 1 4 3 rfl)
  refine ⟨_, _, h3, fun d => ?_⟩
  have hnodup := d.nodup
  revert hnodup
  decide +kernel

end Libtux
