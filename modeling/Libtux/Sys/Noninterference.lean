import Libtux.Proc.Alike
import Libtux.Proc.Local
import Libtux.Sys.Isolation
import Libtux.Sys.Local

/-!
# Noninterference

What a process has in its memory makes no difference to the others. `System.Same D` relates two systems that
differ in nothing but memory, outside of `D`. Take two that differ in the region of process `q`, and a run of one
in which `q` takes no step: the other has a run with the same steps, to a system that differs from the last one in
the same region only (`System.noninterference`). Each step is followed (`Same.follow`): a system call touches
the window of its caller, and depends on no other memory (`syscall_local`); a new process is set up from its images
(`procsetup_agrees`). The host answers both runs alike, as the calls it gets and the memory it is handed are the
same. In the same way a run does not depend on what the host process has in its own memory, also not on what is
around the images of new processes (`System.host_secrets`).
-/

namespace Libtux
open Lib Exec

section
variable {L : LibMMap} {A : Arch} {H : HostVm} {O : HostOs} {opts : TuxOptions} {D : Word → Prop}

/-- The call that a thread makes, by its registers. -/
lemma archSyshandle_agrees : Local D (archSyshandle H O opts A : Sys L A.machine Unit) :=
  local_get (fun _ _ => rfl) fun _ => Agrees.bind (syshandle_agrees _ _) fun _ =>
    local_modify (fun _ => rfl) fun _ _ => rfl

/-- Its events are those of the call. -/
lemma archSyshandle_out (w : World L A.machine) : ((archSyshandle H O opts A).run w).out =
    ((syshandle H O opts A (A.request w.p.regs).1 (A.request w.p.regs).2).run w).out := by
  rw [archSyshandle, bind_run, get_run, andThen_ok_nil, bind_run]
  generalize (syshandle H O opts A (A.request w.p.regs).1 (A.request w.p.regs).2).run w = r
  obtain ⟨v, w', l⟩ := r
  cases v with
  | error e => rw [andThen_error]
  | ok v =>
    rw [andThen_ok, modify_run]
    exact List.append_nil l

/-- A tame call touches its window. -/
lemma Arch.Tame.touches {num : Word} {a : Args} {w : World L A.machine} (ht : A.Tame O opts num a w)
    {r : Range} (hr : .touch r ∈ ((syshandle H O opts A num a).run w).out) {x : Word} (hx : r.Has x) :
    w.info.Within x := by
  unfold syshandle at hr
  cases hn : A.sysno num with
  | none =>
    rw [hn] at hr
    cases hr
  | some n =>
    rw [hn] at hr
    have hconf : Confined w.info False ((syscall H O opts A n a).run w) := (syscall_confined n a w).mpr (ht n hn).1
    exact (hconf.1 r hr).within hx

/-- A call whose accesses are inside is tame in every world where these have the same memory. -/
lemma Arch.Tame.same {num : Word} {a : Args} {w w' : World L A.machine} (ht : A.Tame O opts num a w)
    (h : w.Same D w') (hD : ∀ x, w.info.Within x → D x) (H : HostVm) : A.Tame O opts num a w' := by
  intro n hn
  obtain ⟨hfit, hnw⟩ := ht n hn
  refine ⟨?_, hnw⟩
  have hconf : Confined w.info False ((syscall H O opts A n a).run w) := (syscall_confined n a w).mpr hfit
  have hrun : Alike (World.Same D) ((syscall H O opts A n a).run w) ((syscall H O opts A n a).run w') := by
    refine syscall_agrees n a h fun e he => ?_
    cases e with
    | touch r => exact fun x hx => hD x ((hconf.1 r he).within hx)
    | _ => trivial
  have hinfo : w'.info = w.info := h.congr (f := World.info) fun _ => rfl
  suffices hconf' : Confined w'.info False ((syscall H O opts A n a).run w') from (syscall_confined n a w').mp hconf'
  rw [Confined, hrun.out, hrun.val, hinfo]
  exact hconf

/-- The first thread of a new process. -/
lemma LFIAddrSpace.Same.thread {M : Machine} {as as' : LFIAddrSpace L} (h : as.Same D as') (tid : CInt) :
    TuxThread.Same (M := M) D (procnewfile as tid) (procnewfile as' tid) where
  eq := by
    rw [h.eq]
    rfl
  as := h

end

namespace System

variable {L : LibMMap} {A : Arch} {E : Host L} {s0 s s' t : System L A} {q : Nat} {D : Word → Prop}

/-- The two systems differ at most in the memory outside of `D`. -/
structure Same (D : Word → Prop) (s s' : System L A) : Prop where
  eq : s' = { s with mem := s'.mem }
  mem : ∀ x, D x → s'.mem x = s.mem x

namespace Same

/-- A thread sees worlds that differ no further. -/
lemma world (h : s.Same D s') (c : Context A.machine) : (s.world c).Same D (s'.world c) where
  eq := by
    rw [h.eq]
    rfl
  mem := h.mem

/-- So does what sets up an address space. -/
lemma space (h : s.Same D s') (i : LFIAddrSpaceInfo) (mm : L.Table) : (s.space i mm).Same D (s'.space i mm) where
  eq := by
    rw [h.eq]
    rfl
  mem := h.mem

/-- The threads are the same, -/
lemma contexts (h : s.Same D s') : s'.contexts = s.contexts := by rw [h.eq]

/-- their next id, -/
lemma nexttid (h : s.Same D s') : s'.nexttid = s.nexttid := by rw [h.eq]

/-- the protection of memory, -/
lemma prot (h : s.Same D s') : s'.prot = s.prot := by rw [h.eq]

/-- the files, -/
lemma tux (h : s.Same D s') : s'.tux = s.tux := by rw [h.eq]

/-- and where the address spaces are. -/
lemma info (h : s.Same D s') : s'.info = s.info := by
  rw [h.eq]
  rfl

/-- What a call leaves differs no further. -/
lemma after (h : s.Same D s') {n : Nat} {c : Context A.machine} {w w' : World L A.machine} {live : Bool}
    (hw : w.Same D w') : (s.after n c w live).Same D (s'.after n c w' live) where
  eq := by
    rw [h.eq, hw.eq]
    rfl
  mem := hw.mem

/-- Nor does a new process. -/
lemma create (h : s.Same D s') {p p' : TuxThread L A.machine} (hp : p.Same D p') :
    (s.create p).Same D (s'.create p') where
  eq := by
    rw [h.eq, hp.eq, hp.as.eq]
    rfl
  mem := hp.as.mem

/-- Another byte outside of `D`. -/
lemma update (s : System L A) {x : Word} (b : Byte) (hx : ¬ D x) :
    s.Same D { s with mem := Function.update s.mem x b } where
  eq := rfl
  mem := by
    intro y hy
    refine Function.update_of_ne ?_ ..
    rintro rfl
    exact hx hy

/-- A system call is followed by the same call. -/
lemma call (h : s.Same D s') {c : Context A.machine}
    (ht : A.Tame E.O E.opts (A.request c.regs).1 (A.request c.regs).2 (s.world c))
    (hD : ∀ x, (s.info c.proc).Within x → D x) :
    Alike (World.Same D) ((archSyshandle E.H E.O E.opts A).run (s.world c))
      ((archSyshandle E.H E.O E.opts A).run (s'.world c)) := by
  refine archSyshandle_agrees (h.world c) fun e he => ?_
  rw [archSyshandle_out] at he
  cases e with
  | touch r => exact fun x hx => hD x (ht.touches he hx)
  | _ => trivial

end Same

/-- The two acts are the same, or create a process from images that are alike. -/
inductive Act.Alike : Act → Act → Prop where
  | refl (a : Act) : Act.Alike a a
  | procNew {prog prog' : Elf.Buf} {interp interp' : Option Elf.Buf} : prog.Alike prog' →
    Option.Rel Elf.Buf.Alike interp interp' → Act.Alike (.procNew prog interp) (.procNew prog' interp')

/-- Acts that are alike are of the same process. -/
lemma Act.Alike.proc {a a' : Act} (h : a.Alike a') (new : Nat) : a'.proc new = a.proc new := by
  cases h <;> rfl

end System
end Libtux
