import Libtux.Fd.Threads

/-!
# Operations on files that were looked up

`fdget` gives a thread a pointer and no reference, so the object may be released between the lookup and
the operation. And no lock guards the current directory, so two threads that leave it at once both give
its reference up, although it is one. `threads_use` is what remains true: as long as nobody drops the
last reference of an object that a thread has looked up and not finished with, and threads replace the
current directory one after another, every operation acts on the host file that the descriptor denoted at
the lookup. `threads_use_freed` has a run for each of the two defects.

The invariant is ownership of the heap (`Owns`) with a frame: the other holders of the files, and the
references that an open lost by overwriting a slot, which nobody gives back. A thread that replaces the
current directory leaves `p->cwd` behind what the process holds (`Threads.Cwd`).
-/

namespace Libtux
open Lib

/-! ## What a piece of code may touch -/

/-- From `s` to `s'` at most the objects in `X` change, at most `k` handles are opened, and handles that
were closed stay closed. -/
structure Files.Within (X : Set FileRef) (k : Nat) (s s' : Files) : Prop where
  objs : ∀ {g}, g ∉ X → g < s.nobj → s'.objs g = s.objs g
  isOpen : ∀ {h}, h < s.nhandle → s'.isOpen h = true → s.isOpen h = true
  nobj : s.nobj ≤ s'.nobj
  nhandle : s.nhandle ≤ s'.nhandle
  few : s'.nhandle ≤ s.nhandle + k

namespace Files.Within

variable {X Y : Set FileRef} {k k' : Nat} {s s1 s2 : Files} {p : ProcFiles}

/-- Code that does nothing. -/
lemma refl (X : Set FileRef) (k : Nat) (s : Files) : Files.Within X k s s :=
  ⟨fun _ _ => rfl, fun _ => id, le_rfl, le_rfl, Nat.le_add_right ..⟩

/-- Code after code touches what either of them does. -/
lemma trans (h1 : Files.Within X k s s1) (h2 : Files.Within Y k' s1 s2) : Files.Within (X ∪ Y) (k + k') s s2 where
  objs hg hlt := by
    rw [Set.mem_union, not_or] at hg
    rw [h2.objs hg.2 (hlt.trans_le h1.nobj), h1.objs hg.1 hlt]
  isOpen hlt ho := h1.isOpen hlt (h2.isOpen (hlt.trans_le h1.nhandle) ho)
  nobj := h1.nobj.trans h2.nobj
  nhandle := h1.nhandle.trans h2.nhandle
  few := by
    rw [← Nat.add_assoc]
    exact h2.few.trans (Nat.add_le_add_right h1.few k')

/-- `open` gives a new handle. -/
lemma hostOpen (s : Files) : Files.Within ∅ 1 s s.hostOpen where
  objs _ _ := rfl
  isOpen hlt ho := (Function.update_of_ne hlt.ne ..).symm.trans ho
  nobj := le_rfl
  nhandle := Nat.le_succ _
  few := le_rfl

/-- `close` closes one. -/
lemma hostClose (s : Files) (h : HostFile) : Files.Within ∅ 0 s (s.hostClose h) where
  objs _ _ := rfl
  isOpen {h'} _ ho := by
    by_cases heq : h' = h
    · subst heq
      simp only [Files.hostClose, Function.update_self, Bool.false_eq_true] at ho
    · exact (Function.update_of_ne heq ..).symm.trans ho
  nobj := le_rfl
  nhandle := le_rfl
  few := le_rfl

/-- `filefnew` makes a new object. -/
lemma filefnew (s : Files) (h : HostFile) : Files.Within ∅ 0 s (s.filefnew h) where
  objs _ hlt := Function.update_of_ne hlt.ne ..
  isOpen _ := id
  nobj := Nat.le_succ _
  nhandle := le_rfl
  few := le_rfl

/-- Changing one object. -/
lemma update (s : Files) (f : FileRef) (o : Option FDFile) :
    Files.Within {f} 0 s { s with objs := Function.update s.objs f o } where
  objs hg _ := Function.update_of_ne hg ..
  isOpen _ := id
  nobj := le_rfl
  nhandle := le_rfl
  few := le_rfl

/-- `fdrelease` changes the object, and closes its file with the last reference. -/
lemma fdrelease (s : Files) (f : FileRef) : Files.Within {f} 0 s (s.fdrelease f) := by
  unfold Files.fdrelease
  cases s.objs f with
  | none => exact refl _ _ _
  | some o =>
    dsimp only
    split
    · have hc : Files.Within ∅ 0 s (s.close f o) := by
        unfold Files.close
        split
        · have := hostClose s o.file
          exact ⟨this.objs, this.isOpen, this.nobj, this.nhandle, this.few⟩
        · exact refl _ _ _
      have := hc.trans (update (s.close f o) f none)
      rwa [Set.empty_union] at this
    · exact update ..

/-- A process that leaves its directory releases it. -/
lemma leave (p : ProcFiles) (s : Files) : Files.Within {g | p.cwd.fd = some g} 0 s (p.leave s).2 := by
  unfold ProcFiles.leave
  cases hfd : p.cwd.fd with
  | some f =>
    have hset : {g | some f = some g} = ({f} : Set FileRef) := by
      ext g
      simp [eq_comm]
    rw [hset]
    exact fdrelease s f
  | none =>
    have hset : {g : FileRef | none = some g} = ∅ := by
      simp
    rw [hset]
    cases p.cwd.file with
    | none => exact refl _ _ _
    | some h => exact hostClose s h

/-- `close` releases what the descriptor has. -/
lemma close (p : ProcFiles) (s : Files) (fd : CInt) :
    Files.Within {g | p.fdtable.fdget fd = some g} 0 s (p.close s fd).2 := by
  unfold ProcFiles.close FDTable.fdremove FDTable.fdget
  cases FDTable.slot fd with
  | none => exact refl _ _ _
  | some i =>
    simp only [Option.bind_some, FDTable.fdremoveSlot]
    cases p.fdtable.files i with
    | none => exact refl _ _ _
    | some f =>
      have hset : {g | some f = some g} = ({f} : Set FileRef) := by
        ext g
        simp [eq_comm]
      rw [hset]
      exact fdrelease s f

/-- `filenew` opens a file, for a new object. -/
lemma filenew (s : Files) (r : NewFile) : Files.Within ∅ 1 s (Libtux.filenew s r).1 := by
  cases r with
  | nofile => exact refl _ _ _
  | nomem => exact hostOpen s
  | ok =>
    have h := (hostOpen s).trans (filefnew s.hostOpen s.nhandle)
    rwa [Set.empty_union] at h

end Files.Within

/-! ## Numbers of the host -/

/-- Open handles have different numbers. -/
structure Numbered (s : Files) (num : HostFile → Nat) : Prop where
  inj : ∀ {h h'}, h < s.nhandle → h' < s.nhandle → s.isOpen h = true → s.isOpen h' = true →
    num h = num h' → h = h'

/-- Numbers stay different while nothing is opened. -/
lemma Numbered.within {X : Set FileRef} {s s' : Files} {num : HostFile → Nat} (hn : Numbered s num)
    (hw : Files.Within X 0 s s') : Numbered s' num := by
  refine ⟨fun {h h'} hlt hlt' ho ho' heq => ?_⟩
  have hfew := hw.few
  have hlt := hlt.trans_le hfew
  have hlt' := hlt'.trans_le hfew
  exact hn.inj hlt hlt' (hw.isOpen hlt ho) (hw.isOpen hlt' ho') heq

/-- A new handle gets a number that no open handle has. -/
lemma Numbered.within_open {X : Set FileRef} {s s' : Files} {num : HostFile → Nat} {n : Nat}
    (hn : Numbered s num) (hfree : ∀ h < s.nhandle, s.isOpen h = true → num h ≠ n)
    (hw : Files.Within X 1 s s') : Numbered s' (Function.update num s.nhandle n) := by
  have hold : ∀ {h}, h < s.nhandle → Function.update num s.nhandle n h = num h := fun hlt =>
    Function.update_of_ne hlt.ne ..
  have hcases : ∀ {h}, h < s'.nhandle → h < s.nhandle ∨ h = s.nhandle := fun hlt =>
    Nat.lt_or_eq_of_le (Nat.le_of_lt_succ (hlt.trans_le hw.few))
  refine ⟨fun {h h'} hlt hlt' ho ho' heq => ?_⟩
  obtain hlt | rfl := hcases hlt
  · obtain hlt' | rfl := hcases hlt'
    · rw [hold hlt, hold hlt'] at heq
      exact hn.inj hlt hlt' (hw.isOpen hlt ho) (hw.isOpen hlt' ho') heq
    · rw [hold hlt, Function.update_self] at heq
      exact absurd heq (hfree h hlt (hw.isOpen hlt ho))
  · obtain hlt' | rfl := hcases hlt'
    · rw [hold hlt', Function.update_self] at heq
      exact absurd heq.symm (hfree h' hlt' (hw.isOpen hlt' ho'))
    · rfl

namespace Threads

variable {s s' : Threads} {x : Nat × Act} {i : Nat} {R : Multiset FileRef} {W : Multiset HostFile}

/-- The number of an open handle denotes it. -/
lemma denotes_num {h : HostFile} (hn : Numbered s.files s.num) (hlt : h < s.files.nhandle)
    (ho : s.files.isOpen h = true) : s.denotes (s.num h) = some h := by
  unfold denotes
  cases hf : (List.range s.files.nhandle).find? fun h' => s.files.isOpen h' && s.num h' == s.num h with
  | none =>
    rw [List.find?_eq_none] at hf
    have := hf h (List.mem_range.mpr hlt)
    simp [ho] at this
  | some h' =>
    have hp := List.find?_some hf
    rw [Bool.and_eq_true, beq_iff_eq] at hp
    have hlt' := List.mem_range.mp (List.mem_of_find?_eq_some hf)
    rw [hn.inj hlt' hlt hp.1 ho hp.2]

/-- A number that denotes nothing is no open handle's. -/
lemma denotes_none {n : Nat} (hn : s.denotes n = none) :
    ∀ h < s.files.nhandle, s.files.isOpen h = true → s.num h ≠ n := by
  intro h hlt ho heq
  rw [denotes, List.find?_eq_none] at hn
  have := hn h (List.mem_range.mpr hlt)
  simp [ho, heq] at this

end Threads

/-! ## The invariant -/

/-- What closing a descriptor takes out of the table. -/
lemma close_refs (p : ProcFiles) (s : Files) (fd : CInt) :
    p.fdtable.refs = one (p.fdtable.fdget fd) + (p.close s fd).1.fdtable.refs := by
  unfold ProcFiles.close FDTable.fdremove FDTable.fdget
  cases FDTable.slot fd with
  | none => simp
  | some i =>
    simp only [Option.bind_some, FDTable.fdremoveSlot]
    cases hi : p.fdtable.files i with
    | none => simp
    | some f =>
      rw [FDTable.refs_remove hi]
      simp

/-- The new object of a thread in `sys_openat`, which nobody holds yet. -/
def Phase.fresh : Phase → Option FileRef
  | .opened f => some f
  | .allocated f _ => some f
  | .nofd f => some f
  | _ => none

/-- The directory that a thread is on its way to. -/
def Phase.goal : Phase → Option Goal
  | .leaving g => some g
  | .releasing g _ => some g
  | .released g => some g
  | .unnamed g => some g
  | .closing g _ => some g
  | .left g => some g
  | _ => none

/-- The object behind a directory, with the host file it had at the lookup. -/
def Goal.seen : Goal → Option (FileRef × Option HostFile)
  | .path _ => none
  | .desc f h _ => some (f, h)

/-- The host file that was opened for a directory. -/
def Goal.opened : Goal → Option HostFile
  | .path file => file
  | .desc .. => none

/-- The object a thread has looked up, with the host file it had. -/
def Phase.seen : Phase → Option (FileRef × Option HostFile)
  | .looked f h => some (f, h)
  | .called f h _ => some (f, h)
  | ph => ph.goal.bind Goal.seen

/-- The host file that a thread in `sys_chdir` opened. -/
def Phase.pending (ph : Phase) : Option HostFile := ph.goal.bind Goal.opened

/-- A thread on its way to a directory has what that has, and nothing else. -/
lemma Phase.of_goal {ph : Phase} {g : Goal} (h : ph.goal = some g) :
    ph.fresh = none ∧ ph.pending = g.opened ∧ ph.seen = g.seen ∧ ∀ {f h file}, ph ≠ .called f h file := by
  have hpending : ph.pending = g.opened := by rw [Phase.pending, h, Option.bind_some]
  cases ph <;> cases h <;> exact ⟨rfl, hpending, rfl, by simp⟩

/-- The thread is between its look at the current directory and its last store to it. -/
def Phase.changing : Phase → Bool
  | .releasing .. => true
  | .released _ => true
  | .unnamed _ => true
  | .closing .. => true
  | .left _ => true
  | .counted .. => true
  | .entered .. => true
  | _ => false

/-- What the process holds for the current directory while a thread is in this phase and `c` is what
`p->cwd` says. -/
def Phase.dir (c : Dir) : Phase → Dir
  | .released _ => ⟨none, none⟩
  | .left _ => ⟨none, none⟩
  | .counted f file => ⟨some file, some f⟩
  | .entered f file => ⟨some file, some f⟩
  | _ => c

/-- What a thread in this phase knows of `p->cwd`, while no other thread replaces it. -/
def Phase.Knows (c : Dir) : Phase → Prop
  | .releasing _ d => c.fd = some d
  | .unnamed _ => c.fd = none
  | .closing _ d => c.fd = none ∧ c.file = some d
  | .left _ => c.fd = none
  | .entered f _ => c.fd = some f
  | _ => True

/-- A phase without an object, or without a host file, has none to account for. -/
lemma Phase.absent {α : Type} {o : Option α} {a : α} {P : Prop} (hnone : o = none) (h : o = some a) : P := by
  rw [hnone] at h
  cases h

namespace Threads

/-- The object that a step drops a reference to. -/
def drops (s : Threads) : Nat × Act → Option FileRef
  | (_, .close fd) => s.proc.fdtable.fdget fd
  | (i, .releaseFd) =>
    match s.phase i with
    | .releasing _ d => some d
    | _ => none
  | _ => none

/-- The step does not drop the last reference to an object that some thread has looked up and not
finished with. -/
def Unwatched (s : Threads) (x : Nat × Act) : Prop :=
  ∀ f o, s.drops x = some f → s.files.objs f = some o → o.refs = 1 →
    ∀ j h, (s.phase j).seen ≠ some (f, h)

/-- The step is not a look at the current directory, to leave it, while another thread replaces it. -/
def Alone (s : Threads) (x : Nat × Act) : Prop := x.2 = .testFd → ∀ j, (s.phase j).changing = false

/-- The two conditions on a step. -/
structure Careful (s : Threads) (x : Nat × Act) : Prop where
  unwatched : s.Unwatched x
  alone : s.Alone x

/-- Every operation acted on the host file that was looked up. -/
def Sound (s : Threads) : Prop := ∀ u ∈ s.uses, u.looked ≠ none ∧ u.acted = u.looked

variable {s s' : Threads} {x : Nat × Act} {i j : Nat} {R R' : Multiset FileRef} {W W' : Multiset HostFile}
  {p p' : ProcFiles} {c e e' : Dir} {ph ph₀ : Phase} {t : FDTable}

/-! ## The current directory -/

/-- At most one thread replaces the current directory, and `e` is what the process holds for it. -/
structure Cwd (s : Threads) (e : Dir) : Prop where
  held : ∀ i, (s.phase i).changing = true → (s.phase i).dir s.proc.cwd = e
  still : (∀ i, (s.phase i).changing = false) → s.proc.cwd = e
  one : ∀ {i j}, (s.phase i).changing = true → (s.phase j).changing = true → i = j
  knows : ∀ i, (s.phase i).Knows s.proc.cwd

/-- A thread that does not replace the directory knows nothing of it. -/
lemma knows_of_not_changing (h : ph.changing = false) : ph.Knows c := by
  cases ph <;> trivial

/-- For such a thread the process holds what is in `p->cwd`. -/
lemma dir_of_not_changing (h : ph.changing = false) : ph.dir c = c := by
  cases ph <;> first | rfl | contradiction

namespace Cwd

/-- A thread goes on while no other one replaces the current directory. -/
lemma turn (hphase : s'.phase = Function.update s.phase i ph) (hcwd : s'.proc.cwd = c)
    (hothers : ∀ j, j ≠ i → (s.phase j).changing = false) (hdir : ph.dir c = e') (hknows : ph.Knows c) :
    s'.Cwd e' := by
  have hi : s'.phase i = ph := by
    rw [hphase, Function.update_self]
  have hj : ∀ j, j ≠ i → (s'.phase j).changing = false := fun j hji => by
    rw [hphase, Function.update_of_ne hji]
    exact hothers j hji
  have hone : ∀ {j}, (s'.phase j).changing = true → j = i := by
    intro j hch
    by_contra hji
    rw [hj j hji] at hch
    cases hch
  refine ⟨fun j hch => ?_, fun hno => ?_, fun hch hch' => (hone hch).trans (hone hch').symm, fun j => ?_⟩
  · rw [hone hch, hi, hcwd, hdir]
  · have hph := hno i
    rw [hi] at hph
    rw [hcwd, ← hdir, dir_of_not_changing hph]
  · by_cases hji : j = i
    · rw [hji, hi, hcwd]
      exact hknows
    · exact knows_of_not_changing (hj j hji)

/-- The files moved, and neither the threads nor `p->cwd` did. -/
lemma same (C : s.Cwd e) (hphase : s'.phase = s.phase) (hcwd : s'.proc.cwd = s.proc.cwd) : s'.Cwd e where
  held i hch := by
    rw [hphase] at hch ⊢
    rw [hcwd]
    exact C.held i hch
  still hno := by
    rw [hphase] at hno
    rw [hcwd]
    exact C.still hno
  one {i j} hi hj := by
    rw [hphase] at hi hj
    exact C.one hi hj
  knows i := by
    rw [hphase, hcwd]
    exact C.knows i

/-- What the process holds, by the thread that replaces its directory. -/
lemma dir (C : s.Cwd e) (hi : s.phase i = ph) (hph : ph.changing = true) : ph.dir s.proc.cwd = e := by
  subst hi
  exact C.held i hph

/-- What that thread knows of `p->cwd`. -/
lemma know (C : s.Cwd e) (hi : s.phase i = ph) : ph.Knows s.proc.cwd := hi ▸ C.knows i

/-- No other thread replaces it. -/
lemma others (C : s.Cwd e) (hi : s.phase i = ph) (hph : ph.changing = true) :
    ∀ j, j ≠ i → (s.phase j).changing = false := by
  subst hi
  intro j hji
  cases hch : (s.phase j).changing with
  | false => rfl
  | true => exact absurd (C.one hch hph) hji

/-- A thread that does not replace the current directory goes on and does not begin to. -/
lemma aside (C : s.Cwd e) (hi : s.phase i = ph₀) (h₀ : ph₀.changing = false) (hph : ph.changing = false)
    (hphase : s'.phase = Function.update s.phase i ph) (hcwd : s'.proc.cwd = s.proc.cwd) : s'.Cwd e := by
  subst hi
  have hall : ∀ {j}, (s'.phase j).changing = true → s'.phase j = s.phase j := by
    intro j hch
    by_cases hji : j = i
    · rw [hphase, hji, Function.update_self, hph] at hch
      cases hch
    · rw [hphase, Function.update_of_ne hji]
  refine ⟨fun j hch => ?_, fun hno => ?_, fun {j k} hch hch' => ?_, fun j => ?_⟩
  · rw [hcwd, hall hch]
    rw [hall hch] at hch
    exact C.held j hch
  · rw [hcwd]
    refine C.still fun j => ?_
    by_cases hji : j = i
    · rw [hji, h₀]
    · have := hno j
      rwa [hphase, Function.update_of_ne hji] at this
  · rw [hall hch] at hch
    rw [hall hch'] at hch'
    exact C.one hch hch'
  · cases hch : (s'.phase j).changing with
    | false => exact knows_of_not_changing hch
    | true =>
      rw [hall hch, hcwd]
      exact C.knows j

/-- A thread that opens a file does not replace the directory. -/
lemma filenew {r : NewFile} {n : Nat} (C : s.Cwd e) (hi : s.phase i = ph₀) (h₀ : ph₀.changing = false) :
    (s.filenew i r n).Cwd e := by
  cases r <;> exact C.aside hi h₀ rfl rfl rfl

end Cwd

/-! ## What the threads know -/

/-- What the threads know of the heap when `p` is what their process holds, and `R` and `W` are the
holders outside of it. The handles that threads opened for a directory are in `W`. -/
structure Holds (s : Threads) (p : ProcFiles) (R : Multiset FileRef) (W : Multiset HostFile) : Prop where
  owns : Owns s.files (p.refs + R) (p.owns + W)
  few : ∀ f, (p.fdtable.refs + R).count f + 2 < 2 ^ 64
  fresh : ∀ {i f}, (s.phase i).fresh = some f → f ∉ p.refs + R ∧
    ∃ o, s.files.objs f = some o ∧ o.refs = 0 ∧ o.has .close = true
  once : ∀ {i j f}, (s.phase i).fresh = some f → (s.phase j).fresh = some f → i = j
  pending : ∀ {i h}, (s.phase i).pending = some h → h ∈ W
  apart : ∀ {i j h}, (s.phase i).pending = some h → (s.phase j).pending = some h → i = j
  seen : ∀ {i f h}, (s.phase i).seen = some (f, h) → f ∈ p.refs + R ∧
    ∃ o, s.files.objs f = some o ∧ h = some o.file
  called : ∀ {i f h file}, s.phase i = .called f h file → h = some file
  numbered : Numbered s.files s.num
  sound : s.Sound

namespace Holds

/-- The heap moves and the threads stay where they are. -/
lemma move {X : Set FileRef} {k : Nat} (I : s.Holds p R W) (hphase : s'.phase = s.phase)
    (howns : Owns s'.files (p'.refs + R') (p'.owns + W'))
    (heff : Effect s.files s'.files (p.refs + R) (p'.refs + R'))
    (hw : Files.Within X k s.files s'.files)
    (hfew : ∀ f, (p'.fdtable.refs + R').count f + 2 < 2 ^ 64)
    (hfresh : ∀ {i f}, (s.phase i).fresh = some f → f ∉ X ∧ f ∉ p'.refs + R')
    (hpending : ∀ {i h}, (s.phase i).pending = some h → h ∈ W')
    (hseen : ∀ {i f h}, (s.phase i).seen = some (f, h) → f ∈ p'.refs + R')
    (hnum : Numbered s'.files s'.num) (hsound : s'.Sound) : s'.Holds p' R' W' where
  owns := howns
  few := hfew
  fresh {i f} hf := by
    rw [hphase] at hf
    obtain ⟨-, o, ho, hrefs⟩ := I.fresh hf
    obtain ⟨hX, hnot⟩ := hfresh hf
    exact ⟨hnot, o, (hw.objs hX (I.owns.fresh ho)).trans ho, hrefs⟩
  once {i j f} hi hj := by
    rw [hphase] at hi hj
    exact I.once hi hj
  pending {i h} hi := by
    rw [hphase] at hi
    exact hpending hi
  apart {i j h} hi hj := by
    rw [hphase] at hi hj
    exact I.apart hi hj
  seen {i f h} hi := by
    rw [hphase] at hi
    obtain ⟨hmem, o, ho, hh⟩ := I.seen hi
    obtain ⟨o', ho', -⟩ := howns.held f (hseen hi)
    obtain ⟨o'', ho'', hfile⟩ := heff.keeps ho' (I.owns.fresh ho)
    rw [ho] at ho''
    cases ho''
    exact ⟨hseen hi, o', ho', by rw [hh, hfile]⟩
  called {i f h file} hi := by
    rw [hphase] at hi
    exact I.called hi
  numbered := hnum
  sound := hsound

/-- A thread goes on. -/
lemma goto (I : s.Holds p R W)
    (hfresh : ∀ {f}, ph.fresh = some f → (∀ j, j ≠ i → (s.phase j).fresh ≠ some f) ∧
      f ∉ p.refs + R ∧ ∃ o, s.files.objs f = some o ∧ o.refs = 0 ∧ o.has .close = true)
    (hpending : ∀ {h}, ph.pending = some h → (∀ j, j ≠ i → (s.phase j).pending ≠ some h) ∧ h ∈ W)
    (hseen : ∀ {f h}, ph.seen = some (f, h) → f ∈ p.refs + R ∧
      ∃ o, s.files.objs f = some o ∧ h = some o.file)
    (hcalled : ∀ {f h file}, ph = .called f h file → h = some file) : (s.goto i ph).Holds p R W := by
  -- what holds of a thread's new phase and of the phases of all others holds of every phase
  have hsplit : ∀ {P : Phase → Prop} {j}, P ((s.goto i ph).phase j) → (j = i ∧ P ph) ∨ (j ≠ i ∧ P (s.phase j)) := by
    intro P j hj
    by_cases hji : j = i
    · subst hji
      rw [goto_self] at hj
      exact .inl ⟨rfl, hj⟩
    · rw [goto_other s ph hji] at hj
      exact .inr ⟨hji, hj⟩
  refine ⟨I.owns, I.few, fun {j f} hj => ?_, fun {j k f} hj hk => ?_, fun {j h} hj => ?_,
    fun {j k h} hj hk => ?_, fun {j f h} hj => ?_, fun {j f h file} hj => ?_, I.numbered, I.sound⟩
  · obtain ⟨-, hj⟩ | ⟨-, hj⟩ := hsplit (P := fun q => q.fresh = some f) hj
    · exact (hfresh hj).2
    · exact I.fresh hj
  · obtain ⟨rfl, hj'⟩ | ⟨hji, hj'⟩ := hsplit (P := fun q => q.fresh = some f) hj
    · obtain ⟨rfl, -⟩ | ⟨hki, hk'⟩ := hsplit (P := fun q => q.fresh = some f) hk
      · rfl
      · exact absurd hk' ((hfresh hj').1 k hki)
    · obtain ⟨rfl, hk'⟩ | ⟨-, hk'⟩ := hsplit (P := fun q => q.fresh = some f) hk
      · exact absurd hj' ((hfresh hk').1 j hji)
      · exact I.once hj' hk'
  · obtain ⟨-, hj⟩ | ⟨-, hj⟩ := hsplit (P := fun q => q.pending = some h) hj
    · exact (hpending hj).2
    · exact I.pending hj
  · obtain ⟨rfl, hj'⟩ | ⟨hji, hj'⟩ := hsplit (P := fun q => q.pending = some h) hj
    · obtain ⟨rfl, -⟩ | ⟨hki, hk'⟩ := hsplit (P := fun q => q.pending = some h) hk
      · rfl
      · exact absurd hk' ((hpending hj').1 k hki)
    · obtain ⟨rfl, hk'⟩ | ⟨-, hk'⟩ := hsplit (P := fun q => q.pending = some h) hk
      · exact absurd hj' ((hpending hk').1 j hji)
      · exact I.apart hj' hk'
  · obtain ⟨-, hj⟩ | ⟨-, hj⟩ := hsplit (P := fun q => q.seen = some (f, h)) hj
    · exact hseen hj
    · exact I.seen hj
  · obtain ⟨-, hj⟩ | ⟨-, hj⟩ := hsplit (P := fun q => q = .called f h file) hj
    · exact hcalled hj
    · exact I.called hj

/-- A thread goes on with what it has, or with less. -/
lemma onward (I : s.Holds p R W) (hi : s.phase i = ph₀) (hfresh : ph.fresh = none ∨ ph.fresh = ph₀.fresh)
    (hpending : ph.pending = none ∨ ph.pending = ph₀.pending) (hseen : ph.seen = none ∨ ph.seen = ph₀.seen)
    (hcalled : ∀ {f h file}, ph ≠ .called f h file) : (s.goto i ph).Holds p R W := by
  subst hi
  refine I.goto (fun {f} hf => ?_) (fun {h} hh => ?_) (fun {f h} hs => ?_) fun heq => absurd heq hcalled
  · obtain hnone | hsame := hfresh
    · exact Phase.absent hnone hf
    · rw [hsame] at hf
      exact ⟨fun _ hji hj => hji (I.once hj hf), I.fresh hf⟩
  · obtain hnone | hsame := hpending
    · exact Phase.absent hnone hh
    · rw [hsame] at hh
      exact ⟨fun _ hji hj => hji (I.apart hj hh), I.pending hh⟩
  · obtain hnone | hsame := hseen
    · exact Phase.absent hnone hs
    · rw [hsame] at hs
      exact I.seen hs

/-- A thread stays on its way to a directory. -/
lemma heads (I : s.Holds p R W) (hi : s.phase i = ph₀) {g : Goal} (h₀ : ph₀.goal = some g)
    (h : ph.goal = some g) : (s.goto i ph).Holds p R W := by
  obtain ⟨-, hpending, hseen, -⟩ := Phase.of_goal h₀
  obtain ⟨hfresh, hpending', hseen', hcalled⟩ := Phase.of_goal h
  exact I.onward hi (.inl hfresh) (.inr (hpending'.trans hpending.symm)) (.inr (hseen'.trans hseen.symm)) hcalled

/-- A thread is done. -/
lemma idle (I : s.Holds p R W) : (s.goto i .idle).Holds p R W :=
  I.onward rfl (.inl rfl) (.inl rfl) (.inl rfl) (by simp)

/-- The heap is owned by what the process holds, not by what is in `p->cwd`. -/
lemma setCwd (I : s.Holds p R W) (c : Dir) : (s.setCwd c).Holds p R W := { I with }

/-- The host call of a thread acts on the file that the thread looked up. -/
lemma use {f : FileRef} {h : Option HostFile} {file : HostFile} (I : s.Holds p R W)
    (hi : s.phase i = .called f h file) : (s.use h file).Holds p R W := by
  have hcalled := I.called hi
  obtain ⟨-, o, ho, hh⟩ := I.seen (i := i) (f := f) (h := h) (by rw [hi]; rfl)
  have hfile : o.file = file := Option.some.inj (hh.symm.trans hcalled)
  obtain ⟨hopen, hlt⟩ := I.owns.handle ho
  rw [hfile] at hopen hlt
  refine { I with sound := fun u hu => ?_ }
  obtain hu | hu := List.mem_append.mp hu
  · exact I.sound u hu
  · rw [List.mem_singleton] at hu
    subst hu
    dsimp only
    rw [hcalled, denotes_num I.numbered hlt hopen]
    exact ⟨nofun, rfl⟩

/-- What a thread has looked up is still held after a step that meets the condition. -/
lemma still {f : FileRef} {h : Option HostFile} {H : Multiset FileRef} (I : s.Holds p R W)
    (hok : s.Unwatched x) (hH : p.refs + R = one (s.drops x) + H)
    (hs : (s.phase j).seen = some (f, h)) : f ∈ H := by
  obtain ⟨hmem, -⟩ := I.seen hs
  obtain ⟨o', ho', hrefs, -⟩ := I.owns.held f hmem
  cases hd : s.drops x with
  | none =>
    rw [hd, one_none, zero_add] at hH
    exact hH ▸ hmem
  | some d =>
    rw [hd, one_some, Multiset.singleton_add] at hH
    rw [hH] at hmem hrefs
    obtain rfl | hmem := Multiset.mem_cons.mp hmem
    · rw [Multiset.count_cons_self] at hrefs
      rw [← Multiset.count_pos]
      by_contra hzero
      have hone : o'.refs = 1 := by
        apply BitVec.eq_of_toNat_eq
        rw [hrefs, Nat.le_zero.mp (Nat.le_of_not_lt hzero)]
        rfl
      exact hok f o' hd ho' hone j h hs
    · exact hmem

/-- An object that a thread made is not among those that a step drops or keeps. -/
lemma fresh_kept {f : FileRef} {H : Multiset FileRef} (I : s.Holds p R W)
    (hH : p.refs + R = one (s.drops x) + H) (hf : (s.phase j).fresh = some f) :
    s.drops x ≠ some f ∧ f ∉ H := by
  obtain ⟨hnot, -⟩ := I.fresh hf
  rw [hH, Multiset.mem_add, not_or] at hnot
  refine ⟨fun hd => hnot.1 ?_, hnot.2⟩
  rw [hd, one_some, Multiset.mem_singleton]

/-- A file is opened: its handle gets a number that denoted nothing, and its object is new. -/
lemma filenew {r : NewFile} {n : Nat} (I : s.Holds p R W) (hn : s.denotes n = none) :
    (s.filenew i r n).Holds p R W := by
  have hnum := I.numbered.within_open (denotes_none hn) (Files.Within.filenew s.files r)
  have hmove : ∀ {files}, files = (Libtux.filenew s.files r).1 → Owns files (p.refs + R) (p.owns + W) →
      Effect s.files files (p.refs + R) (p.refs + R) →
      Holds { s with files, num := Function.update s.num s.files.nhandle n } p R W := by
    rintro files rfl howns heff
    exact I.move rfl howns heff (Files.Within.filenew s.files r) I.few
      (fun hf => ⟨Set.notMem_empty _, (I.fresh hf).1⟩) I.pending (fun hs => (I.seen hs).1) hnum I.sound
  obtain ⟨I1, e1⟩ := I.owns.hostOpen
  cases r with
  | nofile => exact (hmove rfl I.owns (.refl _ _)).idle
  | nomem => exact (hmove rfl I1.forget e1).idle
  | ok =>
    obtain ⟨I2, e2⟩ := I1.filefnew
    have e12 := e1.trans e2 (fun _ hg => hg) fun _ hg hn => absurd hg hn
    refine (hmove rfl I2 e12).goto (fun {f} hf => ?_) nofun nofun nofun
    obtain rfl : s.files.nobj = f := Option.some.inj hf
    refine ⟨fun j _ hj => ?_, fun hmem => (I.owns.lt_nobj hmem).ne rfl, _, Function.update_self .., rfl, rfl⟩
    obtain ⟨-, o, ho, -⟩ := I.fresh hj
    exact (I.owns.fresh ho).ne rfl

/-- `fdassign`. What was in the slot is a reference that nobody gives back. -/
lemma fdassign {f : FileRef} {fd : Fin TUX_NOFILE} {live : List (Fin TUX_NOFILE × FileRef)} {q : ProcFiles}
    (I : s.Holds ⟨t, e⟩ R W) (hi : (s.phase i).fresh = some f) :
    Holds (Threads.goto { s with
        files := (t.fdassign s.files fd f).2
        proc := q
        live } i .idle) ⟨(t.fdassign s.files fd f).1, e⟩ (R + one (t.files fd)) W := by
  obtain ⟨hnot, o, ho, hrefs, hclose⟩ := I.fresh hi
  have hzero : (ProcFiles.refs ⟨t, e⟩ + R).count f = 0 := Multiset.count_eq_zero.mpr hnot
  obtain ⟨I1, e1⟩ := I.owns.addref ho hclose (by rw [hzero, hrefs]; rfl) (by rw [hzero]; decide)
  have htable : (t.fdassign s.files fd f).1.refs + (R + one (t.files fd)) = f ::ₘ (t.refs + R) := by
    rw [add_comm R, ← add_assoc]
    simp only [FDTable.fdassign]
    rw [FDTable.refs_update, one_some, add_right_comm, add_comm, Multiset.singleton_add]
  have hH : ProcFiles.refs ⟨(t.fdassign s.files fd f).1, e⟩ + (R + one (t.files fd)) =
      f ::ₘ (ProcFiles.refs ⟨t, e⟩ + R) := by
    rw [ProcFiles.refs, add_right_comm, htable, Multiset.cons_add, ProcFiles.refs, add_right_comm]
  have hle : (t.refs + R).count f ≤ (ProcFiles.refs ⟨t, e⟩ + R).count f := by
    rw [ProcFiles.refs, add_right_comm, Multiset.count_add _ _ (one _)]
    exact Nat.le_add_right ..
  -- the thread is done with the object, which from now on is held
  refine (I.idle (i := i)).move rfl (by rw [hH]; exact I1) (by rw [hH]; exact e1) (Files.Within.update ..)
    (fun g => ?_) (fun {j g} hj => ?_) (I.idle (i := i)).pending (fun {j g h} hj => ?_)
    (I.numbered.within (Files.Within.update ..)) I.sound
  · rw [htable]
    by_cases hgf : g = f
    · subst hgf
      rw [Multiset.count_cons_self]
      omega
    · rw [Multiset.count_cons_of_ne hgf]
      exact I.few g
  · rw [hH, Multiset.mem_cons, not_or]
    by_cases hji : j = i
    · rw [hji, goto_self] at hj
      cases hj
    · rw [goto_other s _ hji] at hj
      have hgf : g ≠ f := by
        rintro rfl
        exact hji (I.once hj hi)
      exact ⟨hgf, hgf, (I.fresh hj).1⟩
  · rw [hH]
    exact Multiset.mem_cons_of_mem ((I.idle (i := i)).seen hj).1

/-- Giving up the object of an open that got no descriptor. -/
lemma fdrelease {f : FileRef} (I : s.Holds p R W) (hi : (s.phase i).fresh = some f) :
    Holds (Threads.goto { s with files := s.files.fdrelease f } i .idle) p R W := by
  obtain ⟨hnot, o, ho, hrefs, hclose⟩ := I.fresh hi
  obtain ⟨I1, e1⟩ := I.owns.release_new ho hclose hrefs hnot
  refine (I.idle (i := i)).move rfl I1 e1 (Files.Within.fdrelease ..) I.few (fun {j g} hj => ?_)
    (I.idle (i := i)).pending (fun hj => ((I.idle (i := i)).seen hj).1)
    (I.numbered.within (Files.Within.fdrelease ..)) I.sound
  by_cases hji : j = i
  · rw [hji, goto_self] at hj
    cases hj
  · rw [goto_other s _ hji] at hj
    refine ⟨?_, (I.fresh hj).1⟩
    rintro rfl
    exact hji (I.once hj hi)

/-- A descriptor is closed that nobody else is using for the last time. -/
lemma close {fd : CInt} {live : List (Fin TUX_NOFILE × FileRef)} (I : s.Holds ⟨s.proc.fdtable, e⟩ R W)
    (hok : s.Unwatched (i, .close fd)) :
    Holds { s with
        files := (s.proc.close s.files fd).2
        proc := (s.proc.close s.files fd).1
        live } ⟨(s.proc.close s.files fd).1.fdtable, e⟩ R W := by
  obtain ⟨howns, heff⟩ := Tux.close_ok fd I.owns
  have htable := close_refs s.proc s.files fd
  have hH : ProcFiles.refs ⟨s.proc.fdtable, e⟩ + R = one (s.drops (i, .close fd)) +
      (ProcFiles.refs ⟨(s.proc.close s.files fd).1.fdtable, e⟩ + R) := by
    rw [ProcFiles.refs, htable, add_assoc, add_assoc, ProcFiles.refs, add_assoc]
    rfl
  refine I.move rfl howns heff (Files.Within.close ..) (fun g => ?_) (fun hj => I.fresh_kept hH hj) I.pending
    (fun hs => I.still hok hH hs) (I.numbered.within (Files.Within.close ..)) I.sound
  refine lt_of_le_of_lt (Nat.add_le_add_right ?_ 2) (I.few g)
  rw [htable, Multiset.count_add, Multiset.count_add, Multiset.count_add]
  exact Nat.add_le_add_right (Nat.le_add_left ..) _

/-- `host_openat` in `sys_chdir`. -/
lemma opened {n : Nat} (I : s.Holds p R W) (hn : s.denotes n = none) (ok : Bool) :
    ∃ W', Holds (Threads.goto { s with
        files := if ok then s.files.hostOpen else s.files
        num := Function.update s.num s.files.nhandle n } i
        (.leaving (.path (if ok then some s.files.nhandle else none)))) p R W' := by
  have hmove : ∀ {files W'}, Owns files (p.refs + R) (p.owns + W') →
      Effect s.files files (p.refs + R) (p.refs + R) → Files.Within ∅ 1 s.files files →
      (∀ h ∈ W, h ∈ W') →
      Holds { s with files, num := Function.update s.num s.files.nhandle n } p R W' := by
    intro files W' howns heff hw hsub
    exact I.move rfl howns heff hw I.few (fun hf => ⟨Set.notMem_empty _, (I.fresh hf).1⟩)
      (fun hh => hsub _ (I.pending hh)) (fun hs => (I.seen hs).1)
      (I.numbered.within_open (denotes_none hn) hw) I.sound
  cases ok with
  | false => exact ⟨W, (hmove I.owns (.refl _ _) (.refl _ _ _) fun _ hh => hh).onward rfl (.inl rfl) (.inl rfl)
      (.inl rfl) (by simp)⟩
  | true =>
    obtain ⟨I1, e1⟩ := I.owns.hostOpen
    rw [← Multiset.add_cons] at I1
    refine ⟨s.files.nhandle ::ₘ W, (hmove I1 e1 (.hostOpen _) fun _ => Multiset.mem_cons_of_mem).goto
      nofun (fun {h} hh => ?_) nofun nofun⟩
    obtain rfl : s.files.nhandle = h := Option.some.inj hh
    refine ⟨fun j _ hj => ?_, Multiset.mem_cons_self ..⟩
    exact (I.owns.own _ (Multiset.mem_add.mpr (.inr (I.pending hj)))).2.1.ne rfl

/-- The current directory is given up. -/
lemma leave {files : Files} (I : s.Holds ⟨t, e⟩ R W) (hok : s.Unwatched x) (hd : s.drops x = e.fd)
    (hfiles : (ProcFiles.leave ⟨t, e⟩ s.files).2 = files) :
    Holds { s with files } ⟨t, ⟨none, none⟩⟩ R W := by
  obtain ⟨⟨howns, heff⟩, -⟩ := leave_ok I.owns
  have hw := Files.Within.leave ⟨t, e⟩ s.files
  rw [hfiles] at howns heff hw
  have hnone : ProcFiles.refs ⟨t, ⟨none, none⟩⟩ = t.refs := add_zero _
  have hH : ProcFiles.refs ⟨t, e⟩ + R = one (s.drops x) + (ProcFiles.refs ⟨t, ⟨none, none⟩⟩ + R) := by
    rw [hd, hnone, ProcFiles.refs, add_comm t.refs, add_assoc]
  refine I.move rfl ?_ ?_ hw I.few (fun hj => ?_) I.pending (fun hs => I.still hok hH hs)
    (I.numbered.within hw) I.sound
  · rw [hnone]
    exact (zero_add W).symm ▸ howns
  · rw [hnone]
    exact heff
  · rw [← hd] at *
    exact I.fresh_kept hH hj

/-- `sys_fchdir` takes a reference to the object that it looked up. -/
lemma addref {f : FileRef} {h : Option HostFile} {file : HostFile} (I : s.Holds ⟨t, ⟨none, none⟩⟩ R W)
    (hi : s.phase i = .left (.desc f h file)) :
    Holds { s with
      files := s.files.addref f
      uses := s.uses ++ [⟨h, (s.files.objs f).map FDFile.file⟩] } ⟨t, ⟨some file, some f⟩⟩ R W := by
  obtain ⟨hmem, o, ho, hh⟩ := I.seen (i := i) (f := f) (h := h) (by rw [hi]; rfl)
  have hnone : ProcFiles.refs ⟨t, ⟨none, none⟩⟩ = t.refs := add_zero _
  have hH : ProcFiles.refs ⟨t, ⟨some file, some f⟩⟩ + R =
      f ::ₘ (ProcFiles.refs ⟨t, ⟨none, none⟩⟩ + R) := by
    rw [hnone, ProcFiles.refs, one_some, add_right_comm, add_comm, Multiset.singleton_add]
  have hfew : (t.refs + R).count f + 2 < 2 ^ 64 := I.few f
  obtain ⟨I1, e1⟩ := I.owns.share hmem (by rw [hnone]; omega)
  refine I.move rfl (by rw [hH]; exact I1) (by rw [hH]; exact e1) (Files.Within.update ..) I.few
    (fun {j g} hj => ?_) I.pending (fun hs => ?_) (I.numbered.within (Files.Within.update ..)) fun u hu => ?_
  · have hgf : g ≠ f := by
      rintro rfl
      exact (I.fresh hj).1 hmem
    rw [hH, Multiset.mem_cons, not_or]
    exact ⟨hgf, hgf, (I.fresh hj).1⟩
  · rw [hH]
    exact Multiset.mem_cons_of_mem (I.seen hs).1
  · obtain hu | hu := List.mem_append.mp hu
    · exact I.sound u hu
    · rw [List.mem_singleton] at hu
      subst hu
      rw [ho, hh]
      exact ⟨Option.some_ne_none _, rfl⟩

/-- `sys_chdir` hands the host file that it opened over to the current directory. -/
lemma storePath {file : Option HostFile} {q : ProcFiles} (I : s.Holds ⟨t, ⟨none, none⟩⟩ R W)
    (hi : s.phase i = .left (.path file)) :
    ∃ W', Holds (Threads.goto { s with proc := q } i .idle) ⟨t, ⟨file, none⟩⟩ R W' := by
  have hpending : (s.phase i).pending = file := by
    rw [hi]
    rfl
  have hle : one file ≤ W := by
    cases file with
    | none => exact Multiset.zero_le W
    | some h => exact Multiset.singleton_le.mpr (I.pending hpending)
  obtain ⟨W', rfl⟩ := Multiset.le_iff_exists_add.mp hle
  have howns : ProcFiles.owns ⟨t, ⟨file, none⟩⟩ + W' = ProcFiles.owns ⟨t, ⟨none, none⟩⟩ + (one file + W') :=
    (zero_add _).symm
  refine ⟨W', (I.idle (i := i)).move rfl (by rw [howns]; exact I.owns) (.refl _ _) (.refl ∅ 0 _) I.few
    (fun hf => ⟨Set.notMem_empty _, ((I.idle (i := i)).fresh hf).1⟩) (fun {j h} hj => ?_)
    (fun hs => ((I.idle (i := i)).seen hs).1) I.numbered I.sound⟩
  obtain hh | hh := Multiset.mem_add.mp ((I.idle (i := i)).pending hj)
  · -- no other thread opened it
    by_cases hji : j = i
    · rw [hji, goto_self] at hj
      cases hj
    · rw [goto_other s _ hji] at hj
      cases file with
      | none => cases Multiset.notMem_zero h hh
      | some h' =>
        obtain rfl := Multiset.mem_singleton.mp hh
        exact absurd (I.apart hj hpending) hji
  · exact hh

end Holds

/-- The invariant. -/
structure Inv (s : Threads) (e : Dir) (R : Multiset FileRef) (W : Multiset HostFile) : Prop where
  holds : s.Holds ⟨s.proc.fdtable, e⟩ R W
  cwd : s.Cwd e

namespace Inv

/-- A file is opened by a thread that does not replace the directory. -/
lemma filenew {r : NewFile} {n : Nat} (I : s.Inv e R W) (hi : s.phase i = ph) (hph : ph.changing = false)
    (hn : s.denotes n = none) : (s.filenew i r n).Inv e R W := by
  have hproc : (s.filenew i r n).proc = s.proc := by
    cases r <;> rfl
  refine ⟨?_, I.cwd.filenew hi hph⟩
  rw [hproc]
  exact I.holds.filenew hn

/-- A thread goes on with what it has, outside of the replacement of the current directory. -/
lemma onward (I : s.Inv e R W) (hi : s.phase i = ph₀) (h₀ : ph₀.changing = false) (hph : ph.changing = false)
    (hfresh : ph.fresh = none ∨ ph.fresh = ph₀.fresh) (hpending : ph.pending = none ∨ ph.pending = ph₀.pending)
    (hseen : ph.seen = none ∨ ph.seen = ph₀.seen) (hcalled : ∀ {f h file}, ph ≠ .called f h file) :
    (s.goto i ph).Inv e R W :=
  ⟨I.holds.onward hi hfresh hpending hseen hcalled, I.cwd.aside hi h₀ hph rfl rfl⟩

/-- A host call moves nothing. -/
lemma use {f : FileRef} {h : Option HostFile} {file : HostFile} (I : s.Inv e R W)
    (hi : s.phase i = .called f h file) : (s.use h file).Inv e R W := ⟨I.holds.use hi, I.cwd.same rfl rfl⟩

/-- Every step that meets the conditions keeps the invariant. -/
lemma step (I : s.Inv e R W) (hok : s.Careful x) (h : Step s x s') : ∃ e' R' W', s'.Inv e' R' W' := by
  have H := I.holds
  have C := I.cwd
  cases h with
  | openat hi hn => exact ⟨e, R, W, I.filenew hi rfl hn⟩
  | openatDir hi hn => exact ⟨e, R, W, (I.use hi).filenew hi rfl hn⟩
  | fdalloc hi _ => exact ⟨e, R, W, I.onward hi rfl rfl (.inr rfl) (.inl rfl) (.inl rfl) (by simp)⟩
  | fdallocFull hi _ => exact ⟨e, R, W, I.onward hi rfl rfl (.inr rfl) (.inl rfl) (.inl rfl) (by simp)⟩
  | fdassign hi => exact ⟨e, _, W, H.fdassign (by rw [hi]; rfl), C.aside hi rfl rfl rfl rfl⟩
  | fdrelease hi => exact ⟨e, R, W, H.fdrelease (by rw [hi]; rfl), C.aside hi rfl rfl rfl rfl⟩
  | close => exact ⟨e, R, W, H.close hok.unwatched, C.same rfl rfl⟩
  | @chdir _ _ ok hi hn =>
    obtain ⟨W', H'⟩ := H.opened hn ok
    exact ⟨e, R, W', H', C.aside hi rfl rfl rfl rfl⟩
  | @fdget i fd f hi hf =>
    have hmem : f ∈ ProcFiles.refs ⟨s.proc.fdtable, e⟩ + R := by
      rw [ProcFiles.refs, close_refs s.proc s.files fd, hf]
      simp
    obtain ⟨o, ho, -⟩ := H.owns.held f hmem
    refine ⟨e, R, W, H.goto (Phase.absent rfl) (Phase.absent rfl) (fun {g h} hg => ?_) (fun heq => by cases heq),
      C.aside hi rfl rfl rfl rfl⟩
    cases hg
    exact ⟨hmem, o, ho, by rw [ho]; rfl⟩
  | @load i f h o hi ho =>
    obtain ⟨hmem, o', ho', hh⟩ := H.seen (i := i) (f := f) (h := h) (by rw [hi]; rfl)
    rw [ho] at ho'
    cases ho'
    refine ⟨e, R, W, H.goto (Phase.absent rfl) (Phase.absent rfl) (fun {g h'} hg => ?_) (fun {g h' file} hg => ?_),
      C.aside hi rfl rfl rfl rfl⟩
    · cases hg
      exact ⟨hmem, o, ho, hh⟩
    · cases hg
      exact hh
  | @loadFreed i f h hi ho =>
    obtain ⟨-, o, ho', -⟩ := H.seen (i := i) (f := f) (h := h) (by rw [hi]; rfl)
    rw [ho] at ho'
    cases ho'
  | finish hi => exact ⟨e, R, W, (I.use hi).onward hi rfl rfl (.inl rfl) (.inl rfl) (.inl rfl) (by simp)⟩
  | fchdir hi => exact ⟨e, R, W, (I.use hi).onward hi rfl rfl (.inl rfl) (.inl rfl) (.inr rfl) (by simp)⟩
  | fchdirNot hi => exact ⟨e, R, W, (I.use hi).onward hi rfl rfl (.inl rfl) (.inl rfl) (.inl rfl) (by simp)⟩
  -- the thread begins to replace the current directory, while no other one does
  | testFd hi hd =>
    have hno := hok.alone rfl
    exact ⟨e, R, W, H.heads hi rfl rfl, .turn rfl rfl (fun j _ => hno j) (C.still hno) hd⟩
  | testFdNull hi hd =>
    have hno := hok.alone rfl
    exact ⟨e, R, W, H.heads hi rfl rfl, .turn rfl rfl (fun j _ => hno j) (C.still hno) hd⟩
  | @releaseFd i g d hi =>
    have hd : s.proc.cwd.fd = some d := C.know hi
    obtain rfl : s.proc.cwd = e := C.dir hi rfl
    have hdrop : s.drops (i, .releaseFd) = s.proc.cwd.fd := by
      simp only [drops, hi, hd]
    have hfiles : (ProcFiles.leave s.proc s.files).2 = s.files.fdrelease d := by
      simp only [ProcFiles.leave, hd]
    exact ⟨⟨none, none⟩, R, W, (H.leave hok.unwatched hdrop hfiles).heads hi rfl rfl,
      .turn rfl rfl (C.others hi rfl) rfl trivial⟩
  | clearFd hi =>
    obtain rfl := C.dir hi rfl
    exact ⟨⟨none, none⟩, R, W, (H.setCwd _).heads hi rfl rfl, .turn rfl rfl (C.others hi rfl) rfl rfl⟩
  | testFile hi hfile =>
    have he : s.proc.cwd = e := C.dir hi rfl
    exact ⟨e, R, W, H.heads hi rfl rfl, .turn rfl rfl (C.others hi rfl) he ⟨C.know hi, hfile⟩⟩
  | testFileNull hi hfile =>
    have hd : s.proc.cwd.fd = none := C.know hi
    have he : (⟨none, none⟩ : Dir) = e := by
      rw [← C.dir hi rfl]
      show _ = (⟨s.proc.cwd.file, s.proc.cwd.fd⟩ : Dir)
      rw [hd, hfile]
    exact ⟨e, R, W, H.heads hi rfl rfl, .turn rfl rfl (C.others hi rfl) he hd⟩
  | @closeFile i g d hi =>
    obtain ⟨hd, hfile⟩ : s.proc.cwd.fd = none ∧ s.proc.cwd.file = some d := C.know hi
    obtain rfl : s.proc.cwd = e := C.dir hi rfl
    have hfiles : (ProcFiles.leave s.proc s.files).2 = s.files.hostClose d := by
      simp only [ProcFiles.leave, hd, hfile]
    exact ⟨⟨none, none⟩, R, W, (H.leave hok.unwatched hd.symm hfiles).heads hi rfl rfl,
      .turn rfl rfl (C.others hi rfl) rfl hd⟩
  | @storePath i file hi =>
    have hd : s.proc.cwd.fd = none := C.know hi
    obtain rfl := C.dir hi rfl
    obtain ⟨W', H'⟩ := H.storePath hi
    exact ⟨⟨file, none⟩, R, W', H', .turn rfl rfl (C.others hi rfl) (by rw [hd]; rfl) trivial⟩
  | addref hi =>
    obtain rfl := C.dir hi rfl
    exact ⟨_, R, W, (H.addref hi).onward hi (.inl rfl) (.inl rfl) (.inl rfl) (by simp),
      .turn rfl rfl (C.others hi rfl) rfl trivial⟩
  | storeFd hi =>
    exact ⟨e, R, W, (H.setCwd _).onward hi (.inl rfl) (.inl rfl) (.inl rfl) (by simp),
      .turn rfl rfl (C.others hi rfl) (C.dir hi rfl) rfl⟩
  | @storeFile i f file hi =>
    have hd : s.proc.cwd.fd = some f := C.know hi
    have he : (⟨some file, s.proc.cwd.fd⟩ : Dir) = e := by
      rw [← C.dir hi rfl, hd]
      rfl
    exact ⟨e, R, W, (H.setCwd _).idle, .turn rfl rfl (C.others hi rfl) he trivial⟩

/-- A process of a `Tux`, before its threads do anything. -/
lemma start {T : Tux} {q : Nat} {num : HostFile → Nat} (ok : T.Ok) (hq : q < T.nproc)
    (hcard : T.holders.card + 2 < 2 ^ 64) (hnum : Numbered T.files num) :
    (Threads.start T.files num (T.procs q)).Inv (T.procs q).cwd (T.rest q) (T.restOwned q) where
  holds := {
    owns := by
      have := ok.owns
      rw [Tux.holders_eq hq, Tux.owned_eq hq] at this
      exact this
    few := fun f => by
      have hle : ((T.procs q).fdtable.refs + T.rest q).count f ≤ T.holders.card := by
        rw [Tux.holders_eq hq, ProcFiles.refs, add_right_comm, Multiset.card_add]
        exact (Multiset.count_le_card ..).trans (Nat.le_add_right ..)
      exact lt_of_le_of_lt (Nat.add_le_add_right hle 2) hcard
    fresh := nofun
    once := nofun
    pending := nofun
    apart := nofun
    seen := nofun
    called := nofun
    numbered := hnum
    sound := nofun }
  cwd := ⟨nofun, fun _ => rfl, nofun, fun _ => trivial⟩

end Inv
end Threads

/-- A step that gives nothing up takes nothing away. -/
lemma Threads.unwatched_of_drops {s : Threads} {x : Nat × Act} (hd : s.drops x = none) : s.Unwatched x := by
  intro f o hf
  rw [hd] at hf
  cases hf

/-- So does a look at the current directory while no other thread replaces it. -/
lemma Threads.Step.alone {s s' : Threads} {i : Nat} (h : s.Step (i, .testFd) s')
    (hno : ∀ j, (s.phase j).changing = false) : Guarded Threads.Careful Threads.Step s (i, .testFd) s' :=
  ⟨⟨Threads.unwatched_of_drops rfl, fun _ => hno⟩, h⟩

/-- So it meets the first condition. -/
lemma Threads.Step.unwatched {s s' : Threads} {x : Nat × Act} (h : s.Step x s') (hd : s.drops x = none) :
    Guarded Threads.Unwatched Threads.Step s x s' := ⟨Threads.unwatched_of_drops hd, h⟩

/-- The release of a directory that has other references, or that nobody has looked up, meets it too. -/
lemma Threads.Step.release {s s' : Threads} {i : Nat} {g : Goal} {d : FileRef} {o : FDFile}
    (h : s.Step (i, .releaseFd) s') (hi : s.phase i = .releasing g d) (ho : s.files.objs d = some o)
    (hok : o.refs ≠ 1 ∨ ∀ j, (s.phase j).seen = none) :
    Guarded Threads.Unwatched Threads.Step s (i, .releaseFd) s' := by
  refine ⟨fun f o' hf ho' hrefs j h => ?_, h⟩
  simp only [Threads.drops, hi, Option.some.injEq] at hf
  subst hf
  obtain rfl := Option.some.inj (ho.symm.trans ho')
  obtain hok | hok := hok
  · exact absurd hrefs hok
  · rw [hok j]
    nofun

end Libtux
