import Libtux.Fd.Ownership

/-!
# All processes of a Tux

The file objects of a `Tux` and the processes that share them (`src/tux.c`, `src/engine.h`). A run starts
with `lfi_tux_new` and goes on with calls by any of the processes, one after the other, each with an
arbitrary outcome of the host; `Call` lists the calls that touch file objects.

`tux_accounted` is what holds after every run: counts are exact, held objects and owned directories are
open, each close handler runs once and at the right moment, and the standard handles stay open.
-/

namespace Libtux
open Lib

/-- `struct Tux` with its processes. -/
structure Tux where
  files : Files
  procs : Nat → ProcFiles
  nproc : Nat
  fstdin : FileRef
  fstdout : FileRef
  fstderr : FileRef

/-- The host before anything was opened: its three standard handles. -/
def Files.init : Files where
  objs _ := none
  nobj := 0
  isOpen h := decide (h < 3)
  nhandle := 3
  closed := []

/-- `lfi_tux_new`: an object for each standard handle, with the reference of the `Tux` itself. -/
def lfiTuxNew : Tux where
  files := (((((Files.init.filefnew 0).filefnew 1).filefnew 2).addref 0).addref 1).addref 2
  procs _ := ⟨.empty, ⟨none, none⟩⟩
  nproc := 0
  fstdin := 0
  fstdout := 1
  fstderr := 2

/-- The calls that touch file objects. An absent outcome is a call that was refused for its directory
or its path, before it did anything. -/
inductive Call where
  | procNew
  | openat (p : Nat) (r : Option NewFile)
  | close (p : Nat) (fd : CInt)
  | chdir (p : Nat) (opened : Option Bool)
  | fchdir (p : Nat) (fd : CInt) (isdir : Bool)
  | fdclear (p : Nat)

namespace Tux

/-- Run a call of one process. -/
def onProc (T : Tux) (p : Nat) (f : ProcFiles → Files → ProcFiles × Files) : Tux :=
  { T with
    procs := Function.update T.procs p (f (T.procs p) T.files).1
    files := (f (T.procs p) T.files).2 }

/-- The effect of a call. -/
def exec (T : Tux) : Call → Tux
  | .procNew =>
    let init := FDTable.fdinit T.files T.fstdin T.fstdout T.fstderr
    { T with
      files := init.2
      procs := Function.update T.procs T.nproc ⟨init.1, ⟨none, none⟩⟩
      nproc := T.nproc + 1 }
  | .openat _ none => T
  | .openat p (some r) => T.onProc p fun q s => (q.openat s r).2
  | .close p fd => T.onProc p fun q s => q.close s fd
  | .chdir _ none => T
  | .chdir p (some opened) => T.onProc p fun q s => q.chdir s opened
  | .fchdir p fd isdir => T.onProc p fun q s => q.fchdir s fd isdir
  | .fdclear p => T.onProc p fun q s => q.clear s

/-- The process that makes a call. -/
def Call.proc : Call → Option Nat
  | .procNew => none
  | .openat p _ => some p
  | .close p _ => some p
  | .chdir p _ => some p
  | .fchdir p _ _ => some p
  | .fdclear p => some p

/-- The references of the `Tux` itself. -/
def std (T : Tux) : Multiset FileRef := {T.fstderr, T.fstdout, T.fstdin}

/-- All holders of file objects. -/
def holders (T : Tux) : Multiset FileRef := ∑ p ∈ Finset.range T.nproc, (T.procs p).refs + T.std

/-- All handles that current directories own. -/
def owned (T : Tux) : Multiset HostFile := ∑ p ∈ Finset.range T.nproc, (T.procs p).owns

/-- A call by a process that exists, with fewer than `2 ^ 64` holders after it. -/
def step (T : Tux) (c : Call) (T' : Tux) : Prop :=
  (∀ p, Call.proc c = some p → p < T.nproc) ∧ T' = T.exec c ∧ T'.holders.card < 2 ^ 64

/-- The invariant of a run. -/
structure Ok (T : Tux) : Prop where
  owns : Owns T.files T.holders T.owned
  stdin : ∀ o, T.files.objs T.fstdin = some o → o.file = 0
  stdout : ∀ o, T.files.objs T.fstdout = some o → o.file = 1
  stderr : ∀ o, T.files.objs T.fstderr = some o → o.file = 2

section
variable {T : Tux} {p : Nat}

/-- The holders apart from one process. -/
def rest (T : Tux) (p : Nat) : Multiset FileRef :=
  ∑ q ∈ (Finset.range T.nproc).erase p, (T.procs q).refs + T.std

/-- The handles that the other processes opened for a directory. -/
def restOwned (T : Tux) (p : Nat) : Multiset HostFile :=
  ∑ q ∈ (Finset.range T.nproc).erase p, (T.procs q).owns

/-- The holders are those of one process and the others, -/
lemma holders_eq (hp : p < T.nproc) : T.holders = (T.procs p).refs + T.rest p := by
  unfold holders rest
  rw [← Finset.add_sum_erase _ _ (Finset.mem_range.mpr hp), add_assoc]

/-- and so are the handles. -/
lemma owned_eq (hp : p < T.nproc) : T.owned = (T.procs p).owns + T.restOwned p := by
  unfold owned restOwned
  rw [← Finset.add_sum_erase _ _ (Finset.mem_range.mpr hp)]

/-- The process has changed, -/
lemma onProc_self (f : ProcFiles → Files → ProcFiles × Files) :
    (T.onProc p f).procs p = (f (T.procs p) T.files).1 := Function.update_self ..

/-- and no other one has. -/
lemma onProc_other {q : Nat} (f : ProcFiles → Files → ProcFiles × Files) (hq : q ≠ p) :
    (T.onProc p f).procs q = T.procs q := Function.update_of_ne hq ..

/-- What the others hold is the same, -/
lemma rest_onProc (f : ProcFiles → Files → ProcFiles × Files) : (T.onProc p f).rest p = T.rest p := by
  have hsum : ∑ q ∈ (Finset.range T.nproc).erase p, ((T.onProc p f).procs q).refs =
      ∑ q ∈ (Finset.range T.nproc).erase p, (T.procs q).refs :=
    Finset.sum_congr rfl fun q hq => by rw [onProc_other f (Finset.ne_of_mem_erase hq)]
  exact congrArg (· + T.std) hsum

/-- and what they own. -/
lemma restOwned_onProc (f : ProcFiles → Files → ProcFiles × Files) :
    (T.onProc p f).restOwned p = T.restOwned p :=
  Finset.sum_congr rfl fun q hq => by rw [onProc_other f (Finset.ne_of_mem_erase hq)]

/-- A call of one process is verified with the holders of the others as a frame. -/
lemma onProc_moves {f : ProcFiles → Files → ProcFiles × Files} (hp : p < T.nproc)
    (hf : ∀ R W, Owns T.files ((T.procs p).refs + R) ((T.procs p).owns + W) →
      ((f (T.procs p) T.files).1.refs + R).card < 2 ^ 64 →
      Moves T.files (f (T.procs p) T.files).2 ((T.procs p).refs + R)
        ((f (T.procs p) T.files).1.refs + R) ((f (T.procs p) T.files).1.owns + W))
    (I : Owns T.files T.holders T.owned) (hcard : (T.onProc p f).holders.card < 2 ^ 64) :
    Moves T.files (T.onProc p f).files T.holders (T.onProc p f).holders (T.onProc p f).owned := by
  have hp' : p < (T.onProc p f).nproc := hp
  rw [holders_eq hp', rest_onProc, onProc_self] at hcard ⊢
  rw [owned_eq hp', restOwned_onProc, onProc_self, holders_eq hp]
  rw [holders_eq hp, owned_eq hp] at I
  exact hf _ _ I hcard

/-- A close moves one reference. -/
lemma close_ok {s : Files} {q : ProcFiles} {R : Multiset FileRef} {W : Multiset HostFile} (fd : CInt)
    (I : Owns s (q.refs + R) (q.owns + W)) :
    Moves s (q.close s fd).2 (q.refs + R) ((q.close s fd).1.refs + R) ((q.close s fd).1.owns + W) := by
  unfold ProcFiles.close FDTable.fdremove
  cases FDTable.slot fd with
  | none => exact ⟨I, .refl _ _⟩
  | some i =>
    simp only [ProcFiles.refs, ProcFiles.owns, add_assoc] at I ⊢
    exact (fdremoveSlot_ok I i).1

/-- The end of a process gives all its references up. -/
lemma fdclear_ok {s : Files} {q : ProcFiles} {R : Multiset FileRef} {W : Multiset HostFile}
    (I : Owns s (q.refs + R) (q.owns + W)) :
    Moves s (q.clear s).2 (q.refs + R) ((q.clear s).1.refs + R) ((q.clear s).1.owns + W) := by
  simp only [ProcFiles.clear, FDTable.fdclear, ProcFiles.refs, ProcFiles.owns, add_assoc] at I ⊢
  exact (fdclearFrom_ok _ I).1

/-- An `fchdir` moves at most one reference, and takes one. -/
lemma fchdir_ok {s : Files} {q : ProcFiles} {R : Multiset FileRef} {W : Multiset HostFile} (fd : CInt)
    (isdir : Bool) (I : Owns s (q.refs + R) (q.owns + W))
    (hcard : ((q.fchdir s fd isdir).1.refs + R).card < 2 ^ 64) :
    Moves s (q.fchdir s fd isdir).2 (q.refs + R) ((q.fchdir s fd isdir).1.refs + R)
      ((q.fchdir s fd isdir).1.owns + W) := by
  unfold ProcFiles.fchdir at hcard ⊢
  cases hf : q.fileOf s fd with
  | none => exact ⟨I, .refl _ _⟩
  | some r =>
    obtain ⟨f, file⟩ := r
    simp only [hf] at hcard ⊢
    cases isdir with
    | false => exact ⟨I, .refl _ _⟩
    | true =>
      have hslot : ∃ i, q.fdtable.files i = some f := by
        simp only [ProcFiles.fileOf, FDTable.fdget, Option.bind_eq_bind, Option.bind_eq_some_iff] at hf
        obtain ⟨f', ⟨i, _, hi⟩, o, _, ho⟩ := hf
        split at ho
        · cases ho
          exact ⟨i, hi⟩
        · cases ho
      obtain ⟨i, hi⟩ := hslot
      refine fchdirTo_ok I (Multiset.mem_add.mpr (.inl (FDTable.mem_refs hi))) (count_lt_of_card ?_)
      have hrefs : (q.fchdirTo s f file).1.refs + R = f ::ₘ (q.fdtable.refs + R) := by
        simp only [ProcFiles.fchdirTo, ProcFiles.refs, leave_fdtable, one_some]
        rw [add_right_comm, add_comm, Multiset.singleton_add]
      rw [← hrefs]
      exact hcard

/-- A new process holds the standard files once more. -/
lemma procNew_ok (I : Owns T.files T.holders T.owned) (hcard : (T.exec .procNew).holders.card < 2 ^ 64) :
    Moves T.files (T.exec .procNew).files T.holders (T.exec .procNew).holders (T.exec .procNew).owned := by
  have hprocs : ∀ q ∈ Finset.range T.nproc, (T.exec .procNew).procs q = T.procs q := fun q hq =>
    Function.update_of_ne (Finset.mem_range.mp hq).ne ..
  have hself : (T.exec .procNew).procs T.nproc =
      ⟨(FDTable.fdinit T.files T.fstdin T.fstdout T.fstderr).1, ⟨none, none⟩⟩ := Function.update_self ..
  have hrefs : (FDTable.fdinit T.files T.fstdin T.fstdout T.fstderr).1.refs = T.std := by
    simp only [FDTable.fdinit, FDTable.fdassign, std]
    rw [FDTable.refs_assign (by simp [FDTable.empty]), FDTable.refs_assign (by simp [FDTable.empty]),
      FDTable.refs_assign (by simp [FDTable.empty])]
    have hempty : FDTable.empty.refs = 0 := by simp [FDTable.refs, FDTable.empty]
    rw [hempty]
    rfl
  have hholders : (T.exec .procNew).holders = T.fstderr ::ₘ T.fstdout ::ₘ T.fstdin ::ₘ T.holders := by
    have hsum : ∑ q ∈ Finset.range (T.nproc + 1), ((T.exec .procNew).procs q).refs =
        ∑ q ∈ Finset.range T.nproc, (T.procs q).refs + T.std := by
      rw [Finset.sum_range_succ, hself, Finset.sum_congr rfl fun q hq => by rw [hprocs q hq]]
      simp only [ProcFiles.refs, hrefs, one_none, add_zero]
    calc (T.exec .procNew).holders
        = ∑ q ∈ Finset.range T.nproc, (T.procs q).refs + T.std + T.std := congrArg (· + T.std) hsum
      _ = T.std + T.holders := by rw [holders, add_comm]
      _ = T.fstderr ::ₘ T.fstdout ::ₘ T.fstdin ::ₘ T.holders := by
        simp only [std, Multiset.insert_eq_cons, Multiset.cons_add, Multiset.singleton_add]
  have howned : (T.exec .procNew).owned = T.owned := by
    have hsum : ∑ q ∈ Finset.range (T.nproc + 1), ((T.exec .procNew).procs q).owns =
        ∑ q ∈ Finset.range T.nproc, (T.procs q).owns := by
      rw [Finset.sum_range_succ, hself, Finset.sum_congr rfl fun q hq => by rw [hprocs q hq]]
      simp only [ProcFiles.owns, one_none, if_true, add_zero]
    exact hsum
  have hstd : ∀ {f}, f ∈ T.std → f ∈ T.holders := fun hf => Multiset.mem_add.mpr (.inr hf)
  rw [howned, hholders]
  rw [hholders, Multiset.card_cons, Multiset.card_cons, Multiset.card_cons] at hcard
  -- three references, to objects that the `Tux` holds already
  have h1 := I.share (hstd (show T.fstdin ∈ T.std by simp [std]))
    (count_lt_of_card (by rw [Multiset.card_cons]; omega))
  have h2 := h1.owns.share (Multiset.mem_cons_of_mem (hstd (show T.fstdout ∈ T.std by simp [std])))
    (count_lt_of_card (by rw [Multiset.card_cons, Multiset.card_cons]; omega))
  have h3 := h2.owns.share (Multiset.mem_cons_of_mem (Multiset.mem_cons_of_mem
    (hstd (show T.fstderr ∈ T.std by simp [std]))))
    (count_lt_of_card (by rw [Multiset.card_cons, Multiset.card_cons, Multiset.card_cons]; omega))
  have hsub1 : ∀ f ∈ T.fstdin ::ₘ T.holders, f ∈ T.holders := by
    intro f hf
    obtain rfl | hf := Multiset.mem_cons.mp hf
    · exact hstd (by simp [std])
    · exact hf
  have hsub2 : ∀ f ∈ T.fstdout ::ₘ T.fstdin ::ₘ T.holders, f ∈ T.holders := by
    intro f hf
    obtain rfl | hf := Multiset.mem_cons.mp hf
    · exact hstd (by simp [std])
    · exact hsub1 f hf
  have e12 := h1.effect.trans h2.effect hsub1 fun f hf hn => absurd (Multiset.mem_cons_of_mem hf) hn
  exact ⟨h3.owns, e12.trans h3.effect hsub2 fun f hf hn =>
    absurd (Multiset.mem_cons_of_mem (Multiset.mem_cons_of_mem hf)) hn⟩

/-- Every call moves the holders as it moves the heap. -/
lemma step_moves {c : Call} {T' : Tux} (I : Owns T.files T.holders T.owned) (h : T.step c T') :
    Moves T.files T'.files T.holders T'.holders T'.owned := by
  obtain ⟨hp, rfl, hcard⟩ := h
  cases c with
  | procNew => exact procNew_ok I hcard
  | openat p r =>
    cases r with
    | none => exact ⟨I, .refl _ _⟩
    | some r => exact onProc_moves (hp p rfl) (fun R W I hc => openat_ok r I hc) I hcard
  | close p fd => exact onProc_moves (hp p rfl) (fun R W I _ => close_ok fd I) I hcard
  | chdir p r =>
    cases r with
    | none => exact ⟨I, .refl _ _⟩
    | some opened => exact onProc_moves (hp p rfl) (fun R W I _ => chdir_ok opened I) I hcard
  | fchdir p fd isdir =>
    exact onProc_moves (hp p rfl) (fun R W I hc => fchdir_ok fd isdir I hc) I hcard
  | fdclear p => exact onProc_moves (hp p rfl) (fun R W I _ => fdclear_ok I) I hcard

/-- The standard files stay. -/
lemma onProc_std (f : ProcFiles → Files → ProcFiles × Files) : (T.onProc p f).fstdin = T.fstdin ∧
    (T.onProc p f).fstdout = T.fstdout ∧ (T.onProc p f).fstderr = T.fstderr := ⟨rfl, rfl, rfl⟩

/-- No call changes which objects are the standard files. -/
lemma exec_std (T : Tux) (c : Call) : (T.exec c).fstdin = T.fstdin ∧ (T.exec c).fstdout = T.fstdout ∧
    (T.exec c).fstderr = T.fstderr := by
  cases c with
  | openat p r => cases r <;> exact ⟨rfl, rfl, rfl⟩
  | chdir p r => cases r <;> exact ⟨rfl, rfl, rfl⟩
  | procNew => exact ⟨rfl, rfl, rfl⟩
  | close p fd => exact onProc_std _
  | fchdir p fd isdir => exact onProc_std _
  | fdclear p => exact onProc_std _

/-- They are held. -/
lemma std_mem {f : FileRef} (hf : f ∈ T.std) : f ∈ T.holders := Multiset.mem_add.mpr (.inr hf)

/-- The invariant is kept by every call. -/
lemma Ok.step {c : Call} {T' : Tux} (ok : T.Ok) (h : T.step c T') : T'.Ok := by
  have hm := step_moves ok.owns h
  obtain ⟨-, rfl, -⟩ := h
  obtain ⟨h0, h1, h2⟩ := exec_std T c
  have key : ∀ {f n}, f ∈ T.std → (∀ o, T.files.objs f = some o → o.file = n) →
      ∀ o, (T.exec c).files.objs f = some o → o.file = n := by
    intro f n hf hn o ho
    obtain ⟨o', ho', he⟩ := hm.effect.keeps ho (ok.owns.lt_nobj (std_mem hf))
    rw [← he]
    exact hn o' ho'
  refine ⟨hm.owns, ?_, ?_, ?_⟩
  · rw [h0]
    exact key (by simp [std]) ok.stdin
  · rw [h1]
    exact key (by simp [std]) ok.stdout
  · rw [h2]
    exact key (by simp [std]) ok.stderr

/-- The heap before `lfi_tux_new`: nobody owns anything but the three standard handles. -/
lemma owns_init : Owns Files.init 0 {0, 1, 2} where
  held f hf := absurd hf (Multiset.notMem_zero f)
  fresh hf := by cases hf
  handle hf := by cases hf
  inj hf := by cases hf
  own h hh := by
    simp only [Multiset.insert_eq_cons, Multiset.mem_cons, Multiset.mem_singleton] at hh
    have hlt : h < 3 := by
      obtain rfl | rfl | rfl := hh <;> decide
    exact ⟨decide_eq_true hlt, hlt, fun hf => by cases hf⟩
  nodup := by decide
  closed f hf := absurd hf (List.not_mem_nil)

/-- `lfi_tux_new` establishes the invariant. -/
lemma Ok.init : lfiTuxNew.Ok := by
  have hnew := ((owns_init.filefnew).1.filefnew).1.filefnew.1
  have h0 := (hnew.addref (f := 0) rfl rfl rfl (by decide)).1
  have h1 := (h0.addref (f := 1) rfl rfl rfl (by decide)).1
  have h2 := (h1.addref (f := 2) rfl rfl rfl (by decide)).1
  refine ⟨h2, ?_, ?_, ?_⟩
  all_goals
    intro o ho
    cases ho
    rfl

/-- So does every run. -/
lemma Ok.run {cs : List Call} {T' : Tux} (ok : T.Ok) (h : Run Tux.step T cs T') : T'.Ok :=
  Run.invariant (fun ok hst => ok.step hst) ok h

/-- The close handler of an object that is held has run after a run exactly when it is not held any
more. -/
lemma Ok.closed_once {cs : List Call} {T' : Tux} {f : FileRef} (ok : T.Ok) (h : Run Tux.step T cs T')
    (hf : f ∈ T.holders) : T'.files.closed.count f = if f ∈ T'.holders then 0 else 1 := by
  induction h with
  | nil => rw [if_pos hf, List.count_eq_zero.mpr (ok.owns.not_closed hf)]
  | @snoc T1 T2 _ _ hr hst ih =>
    have ok1 : T1.Ok := ok.run hr
    have hcount := (step_moves ok1.owns hst).effect.closes f
    by_cases h1 : f ∈ T1.holders
    · by_cases h2 : f ∈ T2.holders <;> simp [h1, h2, ih, hcount]
    · -- it was closed before, and a closed object has no holder
      rw [if_neg h1] at ih
      have hone : T2.files.closed.count f = 1 := by simp [hcount, h1, ih]
      have h2 : f ∉ T2.holders := fun hmem =>
        absurd (List.count_eq_zero.mpr ((ok1.step hst).owns.not_closed hmem)) (by omega)
      rw [hone, if_neg h2]

/-- A current directory that is not that of a file object owns its handle. -/
lemma Ok.cwd {h : HostFile} (ok : T.Ok) (hp : p < T.nproc) (hfd : (T.procs p).cwd.fd = none)
    (hfile : (T.procs p).cwd.file = some h) :
    T.files.isOpen h = true ∧ ∀ f o, T.files.objs f = some o → o.file ≠ h := by
  have hmem : h ∈ T.owned := by
    rw [owned_eq hp]
    simp [ProcFiles.owns, hfd, hfile]
  obtain ⟨hop, -, hno⟩ := ok.owns.own h hmem
  exact ⟨hop, fun f o ho => hno ho⟩

/-- The handle behind a standard file is open. -/
lemma Ok.std_open {f : FileRef} {n : HostFile} (ok : T.Ok) (hf : f ∈ T.std)
    (hn : ∀ o, T.files.objs f = some o → o.file = n) : T.files.isOpen n = true := by
  obtain ⟨o, ho, _⟩ := ok.owns.held f (std_mem hf)
  rw [← hn o ho]
  exact (ok.owns.handle ho).1

end
end Tux

/-- Ownership of file objects in a `Tux`, after any calls of any of its processes. -/
theorem tux_accounted {cs : List Call} {T : Tux} (hrun : Run Tux.step lfiTuxNew cs T) :
    -- a held object counts its holders, and its host handle is open
    (∀ f ∈ T.holders, ∃ o, T.files.objs f = some o ∧ o.refs.toNat = T.holders.count f ∧
      T.files.isOpen o.file = true) ∧
    -- a call runs the close handler of the objects that lose their last holder, and no other
    (∀ {c T'}, T.step c T' → ∀ f, T'.files.closed.count f =
      T.files.closed.count f + if f ∈ T.holders ∧ f ∉ T'.holders then 1 else 0) ∧
    -- so from then on it has run once, and never before
    (∀ {cs' T'}, Run Tux.step T cs' T' → ∀ f ∈ T.holders,
      T'.files.closed.count f = if f ∈ T'.holders then 0 else 1) ∧
    -- a current directory is that of a file object, or nothing, or owns an open handle
    (∀ p < T.nproc, (T.procs p).cwd.fd = none → ∀ h, (T.procs p).cwd.file = some h →
      T.files.isOpen h = true ∧ ∀ f o, T.files.objs f = some o → o.file ≠ h) ∧
    (∀ h < 3, T.files.isOpen h = true) := by
  have ok : T.Ok := Tux.Ok.init.run hrun
  refine ⟨fun f hf => ?_, fun hst => (Tux.step_moves ok.owns hst).effect.closes,
    fun hr f hf => ok.closed_once hr hf, fun p hp hfd h hfile => ok.cwd hp hfd hfile, fun h hh => ?_⟩
  · obtain ⟨o, ho, hrefs, -⟩ := ok.owns.held f hf
    exact ⟨o, ho, hrefs, (ok.owns.handle ho).1⟩
  · interval_cases h
    · exact ok.std_open (by simp [Tux.std]) ok.stdin
    · exact ok.std_open (by simp [Tux.std]) ok.stdout
    · exact ok.std_open (by simp [Tux.std]) ok.stderr

/-- The state after a process opened a directory, entered it and closed the descriptor. -/
def Tux.entered : Tux :=
  [.procNew, .openat 0 (some .ok), .fchdir 0 3 true, .close 0 3].foldl Tux.exec lfiTuxNew

/-- A call whose holders fit the counter is a step. -/
lemma Tux.step_exec {T : Tux} {c : Call} (hp : (Call.proc c).all (· < T.nproc))
    (hcard : (T.exec c).holders.card < 2 ^ 64) : T.step c (T.exec c) := by
  refine ⟨fun p hc => ?_, rfl, hcard⟩
  rw [hc] at hp
  exact of_decide_eq_true hp

/-- It is reached from the start. -/
lemma Tux.run_entered : ∃ cs, Run Tux.step lfiTuxNew cs Tux.entered :=
  ⟨_, .snoc (.snoc (.snoc (.snoc (.nil _) (Tux.step_exec (c := .procNew) rfl (by decide +kernel)))
    (Tux.step_exec (c := .openat 0 (some .ok)) rfl (by decide +kernel)))
    (Tux.step_exec (c := .fchdir 0 3 true) rfl (by decide +kernel)))
    (Tux.step_exec (c := .close 0 3) rfl (by decide +kernel))⟩

/-- When a call drops the last holder of an object that was not closed yet, it is closed once. -/
lemma Tux.closed_one {T T' : Tux} {f : FileRef} (hcount : T'.files.closed.count f =
      T.files.closed.count f + if f ∈ T.holders ∧ f ∉ T'.holders then 1 else 0)
    (h0 : T.files.closed.count f = 0) (h1 : T.holders.count f = 1) (h2 : T'.holders.count f = 0) :
    T'.files.closed.count f = 1 := by
  have hmem : f ∈ T.holders := Multiset.count_pos.mp (by omega)
  have hmem' : f ∉ T'.holders := Multiset.count_eq_zero.mp h2
  rw [hcount, h0, if_pos ⟨hmem, hmem'⟩]

/-- Leaving that directory for another one runs its close handler. -/
theorem tux_accounted_chdir : ∃ cs, Run Tux.step lfiTuxNew cs Tux.entered ∧
    Tux.entered.holders.count 3 = 1 ∧
    Tux.entered.step (.chdir 0 (some true)) (Tux.entered.exec (.chdir 0 (some true))) ∧
    (Tux.entered.exec (.chdir 0 (some true))).files.closed.count 3 = 1 := by
  have hstep : Tux.entered.step (.chdir 0 (some true)) _ := Tux.step_exec rfl (by decide +kernel)
  obtain ⟨cs, hrun⟩ := Tux.run_entered
  have hone : Tux.entered.holders.count 3 = 1 := by
    decide +kernel
  have hzero : (Tux.entered.exec (.chdir 0 (some true))).holders.count 3 = 0 := by
    decide +kernel
  have hnone : Tux.entered.files.closed.count 3 = 0 := by
    decide +kernel
  exact ⟨cs, hrun, hone, hstep, Tux.closed_one ((tux_accounted hrun).2.1 hstep 3) hnone hone hzero⟩

end Libtux
