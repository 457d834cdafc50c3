import Libtux.Fd.Tux
import Libtux.Pal.Context
import Libtux.Proc.Window
import Libtux.Sys.Window

/-!
# All sandboxes of a host process

A host process runs any number of guest processes, which share its memory, its file objects and the counter
of thread ids. A step of the `System` creates a process (C `lfi_tux_proc_new`), runs guest code, which may
store to any writable page of its region, or handles a system call. They come in any order, with any outcome
of the host; a system call is one step. After a failed creation or a failed assertion there is no next step,
as the host process is gone (C `lfi_as_free` is one such assertion).

`Host` collects what surrounds the sandboxes, with what is known of it. The results are about runs whose
system calls are `Tame`: what `syscalls_confined` asks of their arguments, and that no fixed range wraps.
-/

namespace Libtux
open Lib Exec

/-- What the sandboxes run on: the host, the options of the `Tux`, the runtime, and libmmap with what it keeps
of its records. -/
structure Host (L : LibMMap) where
  H : HostVm
  O : HostOs
  opts : TuxOptions
  rt : Rtcalls
  /-- The records of a new address space (C `mm_init`). -/
  mmInit : LFIAddrSpaceInfo → L.Table
  ok : LFIAddrSpaceInfo → L.Table → Prop
  page : H.pagesize = opts.pagesize
  page_pow : ∃ k, opts.pagesize.toNat = 2 ^ k
  page_le : opts.pagesize.toNat ≤ 2 ^ 20
  page_guard : opts.pagesize.toNat ∣ 81920
  page_sys : 2064 ≤ opts.pagesize.toNat
  confines : ∀ i, i.pagesize = opts.pagesize → L.Confines i (ok i)
  init : ∀ i, i.pagesize = opts.pagesize → ok i (mmInit i)

/-- The window of every address space is made of pages. -/
lemma Host.paged {L : LibMMap} (E : Host L) {i : LFIAddrSpaceInfo} (hi : i.pagesize = E.opts.pagesize) :
    i.Paged E.H.pagesize := by
  obtain ⟨k, hk⟩ := E.page_pow
  have hle := E.page_le
  rw [E.page, ← hi]
  rw [← hi] at hk hle
  refine i.paged hle ?_ (hi ▸ E.page_guard)
  rw [hk] at hle ⊢
  exact Nat.pow_dvd_pow 2
    ((Nat.pow_le_pow_iff_right (by omega)).mp (hle.trans (Nat.pow_le_pow_right (by omega) (by omega))))

/-- A process besides its files: where its address space is, what libmmap records of it, and its heap. -/
structure Space (L : LibMMap) where
  info : LFIAddrSpaceInfo
  mm : L.Table
  brkbase : Word
  brksize : Word

/-- A thread of a process with its context. It is live until it leaves the sandbox. -/
structure Context (M : Machine) where
  proc : Nat
  regs : M.Regs
  sys : Word
  tp : Word
  ctid : Word
  tid : CInt
  live : Bool

/-- The context of a thread that was started in process `p`. -/
def Spawned.context {M : Machine} (p : Nat) (t : Spawned M) : Context M :=
  ⟨p, t.regs, t.sys, t.tp, t.ctid, t.tid, true⟩

/-- The sandboxes of a host process, with what they share. -/
structure System (L : LibMMap) (A : Arch) where
  tux : Tux
  spaces : Nat → Space L
  contexts : List (Context A.machine)
  mem : Word → Byte
  prot : Word → CInt
  nmmap : Nat
  nmprotect : Nat
  ncall : Nat
  nexttid : CInt
  futexes : List FutexCall

namespace System

variable {L : LibMMap} {A : Arch}

/-- The placement of a process. -/
def info (s : System L A) (p : Nat) : LFIAddrSpaceInfo := (s.spaces p).info

/-- What a context works on when it makes a system call. -/
def world (s : System L A) (c : Context A.machine) : World L A.machine where
  p :=
    { as := ⟨s.info c.proc, (s.spaces c.proc).mm, s.mem, s.prot, s.nmmap, s.nmprotect⟩
      brkbase := (s.spaces c.proc).brkbase
      brksize := (s.spaces c.proc).brksize
      regs := c.regs
      sys := c.sys
      tp := c.tp
      ctid := c.ctid
      tid := c.tid }
  fds := s.tux.procs c.proc
  files := s.tux.files
  started := []
  nexttid := s.nexttid
  futexes := s.futexes
  ncall := s.ncall

/-- The system after the `n`-th context, `c`, made a system call that left `w`. Threads that were started come
last. -/
def after (s : System L A) (n : Nat) (c : Context A.machine) (w : World L A.machine) (live : Bool) :
    System L A where
  tux := { s.tux with procs := Function.update s.tux.procs c.proc w.fds, files := w.files }
  spaces := Function.update s.spaces c.proc ⟨w.p.as.info, w.p.as.mm, w.p.brkbase, w.p.brksize⟩
  contexts := s.contexts.set n ⟨c.proc, w.p.regs, w.p.sys, w.p.tp, w.p.ctid, w.p.tid, live⟩ ++
    w.started.reverse.map (Spawned.context c.proc)
  mem := w.p.as.mem
  prot := w.p.as.prot
  nmmap := w.p.as.nmmap
  nmprotect := w.p.as.nmprotect
  ncall := w.ncall
  nexttid := w.nexttid
  futexes := w.futexes

/-- The system after guest code of the `n`-th context, `c`, which left `mem` and its own registers. -/
def ran (s : System L A) (n : Nat) (c : Context A.machine) (regs : A.machine.Regs) (tp : Word)
    (mem : Word → Byte) : System L A :=
  { s with mem, contexts := s.contexts.set n { c with regs, tp } }

/-- The system with a new process, whose first thread is `p` (the end of C `procnewfile`). -/
def create (s : System L A) (p : TuxThread L A.machine) : System L A where
  tux := s.tux.exec .procNew
  spaces := Function.update s.spaces s.tux.nproc ⟨p.as.info, p.as.mm, p.brkbase, p.brksize⟩
  contexts := s.contexts ++ [⟨s.tux.nproc, p.regs, p.sys, p.tp, p.ctid, p.tid, true⟩]
  mem := p.as.mem
  prot := p.as.prot
  nmmap := p.as.nmmap
  nmprotect := p.as.nmprotect
  ncall := s.ncall
  nexttid := s.nexttid + 1
  futexes := s.futexes

/-- A new address space in the memory of the system (C `lfi_as_new`). -/
def space (s : System L A) (i : LFIAddrSpaceInfo) (mm : L.Table) : LFIAddrSpace L :=
  ⟨i, mm, s.mem, s.prot, s.nmmap, s.nmprotect⟩

/-- What happens: a process is to be created, or the `n`-th context, of process `p`, runs guest code or makes a
system call. -/
inductive Act where
  | procNew (prog : Elf.Buf) (interp : Option Elf.Buf)
  | guest (p n : Nat)
  | syscall (p n : Nat)

/-- The process that an act is of, where `new` is the next one. -/
def Act.proc (new : Nat) : Act → Nat
  | procNew _ _ => new
  | guest p _ => p
  | syscall p _ => p

/-- The steps. libboxmap hands out regions that are not in use and not accessible, or none, and then the id of
the first thread is used up. -/
inductive Step (E : Host L) : System L A → Act → System L A → Prop where
  | refused {s prog interp} : Step E s (.procNew prog interp) { s with nexttid := s.nexttid + 1 }
  | procNew {s prog interp argv i as1 as2 p l1 l2 l} : i.pagesize = E.opts.pagesize →
    (∀ q < s.tux.nproc, (s.info q).base ≠ i.base) → (∀ x, i.Region x → s.prot x = LFI_PROT_NONE) →
    (sysalloc E.H i).run (s.space i (E.mmInit i)) = ⟨.ok true, as1, l1⟩ →
    (syssetup E.H E.rt i).run as1 = ⟨.ok true, as2, l2⟩ →
    (procsetup E.H E.opts prog interp argv).run (procnewfile as2 s.nexttid) = ⟨.ok true, p, l⟩ →
    Step E s (.procNew prog interp) (s.create p)
  | guest {s n c regs tp mem} : s.contexts[n]? = some c → c.live = true →
    (∀ x, mem x ≠ s.mem x → (s.info c.proc).Region x ∧ s.prot x &&& LFI_PROT_WRITE ≠ 0) →
    Step E s (.guest c.proc n) (s.ran n c regs tp mem)
  | returns {s n c w l} : s.contexts[n]? = some c → c.live = true →
    (archSyshandle E.H E.O E.opts A).run (s.world c) = ⟨.ok (), w, l⟩ →
    Step E s (.syscall c.proc n) (s.after n c w true)
  | leaves {s n c w l e code} : s.contexts[n]? = some c → c.live = true →
    (archSyshandle E.H E.O E.opts A).run (s.world c) = ⟨.error e, w, l⟩ → e = .exit code ∨ e = .pause code →
    Step E s (.syscall c.proc n) (s.after n c w false)

/-- The images of a new process fit, and a system call stays in the sandbox. -/
def Tame (E : Host L) (s : System L A) : Act → Prop
  | .procNew prog interp => prog.Fits ∧ ∀ ib, interp = some ib → ib.Fits
  | .guest _ _ => True
  | .syscall _ n => ∀ c, s.contexts[n]? = some c →
    A.Tame E.O E.opts (A.request c.regs).1 (A.request c.regs).2 (s.world c)

/-- The system before the first process. -/
structure Initial (s : System L A) : Prop where
  tux : s.tux = lfiTuxNew
  contexts : s.contexts = []
  nexttid : s.nexttid = 10000

/-! ## What every state has -/

/-- The processes of a system are in regions of their own, each with a sys page that is read-only, with guards
that are closed, with records that libmmap keeps in the window, and with a heap in its reservation. -/
structure Ok (E : Host L) (s : System L A) : Prop where
  apart : ∀ {p q}, p < s.tux.nproc → q < s.tux.nproc → (s.info p).base = (s.info q).base → p = q
  page : ∀ {p}, p < s.tux.nproc → (s.info p).pagesize = E.opts.pagesize
  recs : ∀ {p}, p < s.tux.nproc → E.ok (s.info p) (s.spaces p).mm
  heap : ∀ {c}, c.proc < s.tux.nproc → Placed E.opts (s.world c).p
  sys : ∀ {p}, p < s.tux.nproc → SysPage E.rt (s.info p) s.mem s.prot
  guard : ∀ {p x}, p < s.tux.nproc → (s.info p).Region x → ¬ (s.info p).OnSysPage x → ¬ (s.info p).Within x →
    s.prot x = LFI_PROT_NONE
  context : ∀ {c}, c ∈ s.contexts → c.proc < s.tux.nproc ∧ c.sys = (s.info c.proc).base

/-- What a step of process `p` leaves alone. -/
structure Of (s s' : System L A) (p : Nat) : Prop where
  nproc : s.tux.nproc ≤ s'.tux.nproc
  info : p < s.tux.nproc → s'.info p = s.info p
  space : ∀ {q}, q ≠ p → s'.spaces q = s.spaces q
  files : ∀ {q}, q ≠ p → s'.tux.procs q = s.tux.procs q
  mem : ∀ {x}, (p < s'.tux.nproc → ¬ (s'.info p).Region x) → s'.mem x = s.mem x ∧ s'.prot x = s.prot x
  contexts : ∀ {c : Context A.machine}, c.proc ≠ p → ∀ n : Nat, s'.contexts[n]? = some c ↔ s.contexts[n]? = some c

variable {E : Host L} {s s' : System L A} {p : Nat}

/-- The page of a process is small. -/
lemma Ok.small (ok : s.Ok E) (hp : p < s.tux.nproc) : (s.info p).pagesize.toNat ≤ 2 ^ 20 := by
  rw [ok.page hp]
  exact E.page_le

/-- What changes one entry of a list for another and adds some at the end keeps all others. -/
lemma getElem?_set_append {α : Type} {l new : List α} {a b c : α} {n : Nat} (hn : l[n]? = some a)
    (ha : c ≠ a) (hb : c ≠ b) (hnew : c ∉ new) (m : Nat) : (l.set n b ++ new)[m]? = some c ↔ l[m]? = some c := by
  rw [List.getElem?_append, List.length_set]
  split
  · rename_i hlt
    rw [List.getElem?_set]
    split
    · rename_i hnm
      subst hnm
      rw [if_pos hlt, hn]
      exact iff_of_false (fun h => hb (Option.some.inj h).symm) fun h => ha (Option.some.inj h).symm
    · exact Iff.rfl
  · rename_i hge
    refine iff_of_false (fun h => hnew (List.mem_of_getElem? h)) fun h => ?_
    rw [List.getElem?_eq_none (by omega)] at h
    cases h

/-! ## System calls -/

/-- `arch_syshandle` changes what `syshandle` does, and the registers of the caller. It stops where `syshandle`
stops. -/
lemma archSyshandle_st (H : HostVm) (O : HostOs) (opts : TuxOptions) (w : World L A.machine) :
    (∃ regs, ((archSyshandle H O opts A).run w).st =
      { ((syshandle H O opts A (A.request w.p.regs).1 (A.request w.p.regs).2).run w).st with
        p := { ((syshandle H O opts A (A.request w.p.regs).1 (A.request w.p.regs).2).run w).st.p with regs } }) ∧
    ∀ e, ((syshandle H O opts A (A.request w.p.regs).1 (A.request w.p.regs).2).run w).val = .error e →
      ((archSyshandle H O opts A).run w).val = .error e := by
  rw [archSyshandle, bind_run, get_run, andThen_ok_nil, bind_run]
  generalize (syshandle H O opts A (A.request w.p.regs).1 (A.request w.p.regs).2).run w = r
  obtain ⟨v, w', l⟩ := r
  cases v with
  | error e =>
    rw [andThen_error]
    refine ⟨⟨w'.p.regs, rfl⟩, fun e' h => ?_⟩
    cases h
    rfl
  | ok v =>
    rw [andThen_ok, modify_run]
    refine ⟨⟨_, rfl⟩, fun e h => ?_⟩
    cases h

/-- What becomes of the threads of a process in a call: one more is started, with the next id and on the sys
page of the process, or none. -/
inductive Starts {M : Machine} (w w' : World L M) : Prop where
  | none : w'.started = w.started → w'.nexttid = w.nexttid → Starts w w'
  | one (t : Spawned M) : w'.started = t :: w.started → t.tid = w.nexttid → t.sys = w.info.base →
    w'.nexttid = w.nexttid + 1 → Starts w w'

section
variable {M : Machine} {O : HostOs} {w w1 : World L M}

/-- The part of `spawn` before `pthread_create`. -/
lemma spawnPrepare_cases (flags stack ctid tls : Word) :
    (∃ w1, w1.started = w.started ∧ w1.nexttid = w.nexttid ∧
      (spawnPrepare O flags stack ctid tls).run w = ⟨.ok none, w1, []⟩) ∨
    ∃ p2 w1 l, w1.started = w.started ∧ w1.nexttid = w.nexttid + 1 ∧ p2.tid = w.nexttid ∧
      p2.sys = w.info.base ∧ (spawnPrepare O flags stack ctid tls).run w = ⟨.ok (some p2), w1, l⟩ := by
  rw [spawnPrepare_run]
  split
  · split
    · refine .inr ⟨_, _, _, ?_, ?_, ?_, ?_, rfl⟩ <;> rfl
    · refine .inr ⟨_, _, _, ?_, ?_, ?_, ?_, rfl⟩ <;> rfl
  · refine .inl ⟨_, ?_, ?_, rfl⟩ <;> rfl

/-- The rest of `spawn`. -/
lemma spawnStart_starts {flags ptid : Word} {p2 : Spawned M} (hst : w1.started = w.started)
    (hnext : w1.nexttid = w.nexttid + 1) (htid : p2.tid = w.nexttid) (hsys : p2.sys = w.info.base)
    (h : ∀ a, ((spawnStart O p2 >>= fun _ => spawnPublish flags ptid p2).run w1).val ≠ .error (.assertion a)) :
    Starts w ((spawnStart O p2 >>= fun _ => spawnPublish flags ptid p2).run w1).st := by
  rw [bind_run, spawnStart_run] at h ⊢
  split at h
  · rename_i hr
    rw [if_pos hr, andThen_ok_nil, spawnPublish_run]
    split
    · exact .one p2 (congrArg _ hst) htid hsys hnext
    · exact .one p2 (congrArg _ hst) htid hsys hnext
  · exact absurd rfl (h _)

/-- `sys_clone` starts at most one thread. -/
lemma sysClone_starts {flags stack ptid ctid tls : Word}
    (h : ∀ a, ((sysClone O flags stack ptid ctid tls).run w).val ≠ .error (.assertion a)) :
    Starts w ((sysClone O flags stack ptid ctid tls).run w).st := by
  rw [sysClone, check_bind_run] at h ⊢
  split at h
  case isFalse => exact absurd rfl (h _)
  rename_i hfork
  rw [if_pos hfork]
  unfold spawn at h ⊢
  cases hf : spawnFlags flags with
  | none => exact .none rfl rfl
  | some flags' =>
    rw [hf] at h
    dsimp only at h ⊢
    rw [bind_run] at h ⊢
    obtain ⟨w1, hst, hnext, hr⟩ | ⟨p2, w1, l, hst, hnext, htid, hsys, hr⟩ :=
      spawnPrepare_cases (O := O) (w := w) flags' stack ctid tls
    · rw [hr]
      exact .none hst hnext
    · rw [hr, andThen_ok] at h ⊢
      exact spawnStart_starts hst hnext htid hsys h

end

/-- A system call does not change the sys page and the id of its caller. -/
lemma syshandle_self (H : HostVm) (O : HostOs) (opts : TuxOptions) (num : Word) (a : Args)
    (w : World L A.machine) : ((syshandle H O opts A num a).run w).st.p.sys = w.p.sys ∧
      ((syshandle H O opts A num a).run w).st.p.tid = w.p.tid := by
  unfold syshandle
  cases hn : A.sysno num with
  | none => exact ⟨rfl, rfl⟩
  | some n =>
    have hframe := syscall_respects H O opts n a w
    exact ⟨hframe.sys, hframe.tid⟩

/-- The threads of a process after a system call that did not fail an assertion. -/
lemma syshandle_starts {H : HostVm} {O : HostOs} {opts : TuxOptions} {num : Word} {a : Args}
    {w : World L A.machine} (h : ∀ e, ((syshandle H O opts A num a).run w).val ≠ .error (.assertion e)) :
    Starts w ((syshandle H O opts A num a).run w).st := by
  unfold syshandle at h ⊢
  cases hn : A.sysno num with
  | none =>
    rw [hn] at h
    exact absurd rfl (h _)
  | some n =>
    rw [hn] at h
    by_cases hthreads : n.changes .threads = false
    · obtain ⟨hst, htid⟩ := (syscall_respects H O opts n a w).threads hthreads
      exact .none hst htid
    · have hclone : n = .clone := by
        cases n with
        | clone => rfl
        | _ => exact absurd rfl hthreads
      subst hclone
      cases A with
      | x64 => exact sysClone_starts h
      | arm64 => exact sysClone_starts h

/-! ## One step -/

/-- The window of a process has no address of another region, and none outside of it in its own. -/
lemma Ok.not_within (ok : s.Ok E) {q : Nat} (hp : p < s.tux.nproc) (hq : q < s.tux.nproc) {x : Word}
    (hx : (s.info q).Region x) (h : q ≠ p ∨ ¬ (s.info q).Within x) : ¬ (s.info p).Within x := by
  intro hw
  have heq := ok.apart hp hq ((hw.region (ok.small hp)).1.eq hx)
  subst heq
  exact h.elim (fun hne => hne rfl) fun hno => hno hw

section
variable {c : Context A.machine} {w : World L A.machine} {n : Nat} {live : Bool}

/-- A system call of a process that exists stays in its window. -/
lemma Ok.call_inward (ok : s.Ok E) (hc : c.proc < s.tux.nproc)
    (ht : A.Tame E.O E.opts (A.request c.regs).1 (A.request c.regs).2 (s.world c)) :
    Inward (s.info c.proc) (E.ok (s.info c.proc)) (s.world c).p.as
      ((archSyshandle E.H E.O E.opts A).run (s.world c)).st.p.as := by
  obtain ⟨⟨regs, hst⟩, -⟩ := archSyshandle_st E.H E.O E.opts (s.world c)
  rw [hst]
  exact syscall_window (E.paged (ok.page hc)) (E.confines _ (ok.page hc)) rfl (ok.recs hc) (ok.heap hc) ht

/-- The process has the address space that the call left, -/
lemma after_self : (s.after n c w live).spaces c.proc = ⟨w.p.as.info, w.p.as.mm, w.p.brkbase, w.p.brksize⟩ :=
  Function.update_self ..

/-- all others have theirs, -/
lemma after_other {q : Nat} (hq : q ≠ c.proc) : (s.after n c w live).spaces q = s.spaces q :=
  Function.update_of_ne hq ..

variable (hn : s.contexts[n]? = some c) (hc : c.proc < s.tux.nproc)
  (hw : Inward (s.info c.proc) (E.ok (s.info c.proc)) (s.world c).p.as w.p.as)
include hn hc hw

omit hn hc in
/-- and all are where they were. -/
lemma after_info (q : Nat) : (s.after n c w live).info q = s.info q := by
  unfold info
  by_cases hq : q = c.proc
  · subst hq
    rw [after_self]
    exact hw.info
  · rw [after_other hq]

/-- A system call is of its process. -/
lemma after_of (ok : s.Ok E) : Of s (s.after n c w live) c.proc where
  nproc := le_rfl
  info _ := after_info hw _
  space hq := after_other hq
  files hq := Function.update_of_ne hq ..
  mem := by
    intro x hx
    have hx := hx hc
    rw [after_info hw] at hx
    have hno : ¬ (s.info c.proc).Within x := fun hin => hx (hin.region (ok.small hc)).1
    exact ⟨hw.mem x hno, hw.prot x hno⟩
  contexts := by
    intro c' hc' m
    refine getElem?_set_append hn ?_ ?_ ?_ m
    · rintro rfl
      exact hc' rfl
    · rintro rfl
      exact hc' rfl
    · intro hmem
      obtain ⟨t, _, rfl⟩ := List.mem_map.mp hmem
      exact hc' rfl

/-- It keeps the invariant, if the heap is in place and at most one thread was started. -/
lemma after_ok (ok : s.Ok E) (hpl : Placed E.opts w.p) (hst : Starts (s.world c) w) (hsys : w.p.sys = c.sys) :
    (s.after n c w live).Ok E := by
  have hinfo : ∀ q, (s.after n c w live).info q = s.info q := after_info hw
  have hkeep : ∀ {q : Nat} {x : Word}, q < s.tux.nproc → (s.info q).Region x → ¬ (s.info q).Within x →
      w.p.as.mem x = s.mem x ∧ w.p.as.prot x = s.prot x := by
    intro q x hq hx hno
    have := ok.not_within hc hq hx (.inr hno)
    exact ⟨hw.mem x this, hw.prot x this⟩
  have hpage : ∀ {q : Nat} {x : Word}, q < s.tux.nproc → (s.info q).OnSysPage x →
      w.p.as.mem x = s.mem x ∧ w.p.as.prot x = s.prot x := fun {q x} hq hx =>
    hkeep hq (hx.region (ok.small hq)) fun hin => (hin.region (ok.small hq)).2 hx
  constructor
  case apart =>
    intro p q hp hq h
    rw [hinfo, hinfo] at h
    exact ok.apart hp hq h
  case page =>
    intro p hp
    rw [hinfo]
    exact ok.page hp
  case recs =>
    intro p hp
    rw [hinfo]
    by_cases hpc : p = c.proc
    · subst hpc
      rw [after_self]
      exact hw.recs
    · rw [after_other hpc]
      exact ok.recs hp
  case heap =>
    intro c' hc'
    by_cases hpc : c'.proc = c.proc
    · have hbase : ((s.after n c w live).world c').p.brkbase = w.p.brkbase := by
        simp only [world, hpc, after_self]
      have hsize : ((s.after n c w live).world c').p.brksize = w.p.brksize := by
        simp only [world, hpc, after_self]
      exact hpl.move hbase (by rw [hsize]; exact hpl.size)
    · have hbase : ((s.after n c w live).world c').p.brkbase = (s.world c').p.brkbase := by
        simp only [world, after_other hpc]
      have hsize : ((s.after n c w live).world c').p.brksize = (s.world c').p.brksize := by
        simp only [world, after_other hpc]
      exact (ok.heap hc').move hbase (by rw [hsize]; exact (ok.heap hc').size)
  case sys =>
    intro p hp
    rw [hinfo]
    exact ⟨fun x hx => (hpage hp hx).1.trans ((ok.sys hp).mem x hx),
      fun x hx => (hpage hp hx).2.trans ((ok.sys hp).prot x hx)⟩
  case guard =>
    intro p x hp hx hno hout
    rw [hinfo] at hx hno hout
    exact (hkeep hp hx hout).2.trans (ok.guard hp hx hno hout)
  case context =>
    intro c' hc'
    have hold := (ok.context (List.mem_of_getElem? hn)).2
    rcases List.mem_append.mp hc' with hc' | hc'
    · rcases List.mem_or_eq_of_mem_set hc' with hc' | rfl
      · rw [hinfo]
        exact ok.context hc'
      · rw [hinfo]
        exact ⟨hc, hsys.trans hold⟩
    · obtain ⟨t, ht, rfl⟩ := List.mem_map.mp hc'
      refine ⟨hc, ?_⟩
      rw [hinfo]
      rw [List.mem_reverse] at ht
      cases hst with
      | none hst _ =>
        rw [hst] at ht
        cases ht
      | one t' hst _ hsys _ =>
        rw [hst] at ht
        obtain rfl := List.mem_singleton.mp ht
        exact hsys

end

section
variable {c : Context A.machine} {n : Nat} {regs : A.machine.Regs} {tp : Word} {mem : Word → Byte}
  (hn : s.contexts[n]? = some c) (hc : c.proc < s.tux.nproc)
  (hmem : ∀ x, mem x ≠ s.mem x → (s.info c.proc).Region x ∧ s.prot x &&& LFI_PROT_WRITE ≠ 0)
include hn hc hmem

/-- What guest code does is of its process. -/
lemma ran_of : Of s (s.ran n c regs tp mem) c.proc where
  nproc := le_rfl
  info _ := rfl
  space _ := rfl
  files _ := rfl
  mem := by
    intro x hx
    refine ⟨?_, rfl⟩
    by_contra hne
    exact hx hc (hmem x hne).1
  contexts := by
    intro c' hc' m
    have key := getElem?_set_append (b := { c with regs, tp }) hn ?_ ?_ (List.not_mem_nil (a := c')) m
    · rw [List.append_nil] at key
      exact key
    · rintro rfl
      exact hc' rfl
    · rintro rfl
      exact hc' rfl

/-- Guest code cannot store to a sys page, its own included. -/
lemma ran_ok (ok : s.Ok E) : (s.ran n c regs tp mem).Ok E where
  apart := ok.apart
  page := ok.page
  recs := ok.recs
  heap hc' := (ok.heap hc').move rfl (ok.heap hc').size
  sys := by
    intro p hp
    refine ⟨fun x hx => Eq.trans ?_ ((ok.sys hp).mem x hx), (ok.sys hp).prot⟩
    by_contra hne
    refine (hmem x hne).2 ?_
    rw [(ok.sys hp).prot x hx]
    decide
  guard := ok.guard
  context := by
    intro c' hc'
    rcases List.mem_or_eq_of_mem_set hc' with hc' | rfl
    · exact ok.context hc'
    · exact ⟨hc, (ok.context (List.mem_of_getElem? hn)).2⟩

end

section
variable {i : LFIAddrSpaceInfo} {prog : Elf.Buf} {interp : Option Elf.Buf} {argv : List (List Byte)}
  {as1 as2 : LFIAddrSpace L} {p : TuxThread L A.machine} {l1 l2 l : List Ev}

/-- The first thread has the id and the sys page that `procnewfile` gave it. -/
lemma procsetup_self {H : HostVm} {opts : TuxOptions} {p0 : TuxThread L A.machine}
    (h : (procsetup H opts prog interp argv).run p0 = ⟨.ok true, p, l⟩) : p.sys = p0.sys ∧ p.tid = p0.tid := by
  obtain ⟨_, _, _, _, _, _, _, _, _, _, _, _, _, hst⟩ := procsetup_true (congrArg Res.val h)
  have hp : p = _ := (congrArg Res.st h).symm.trans hst
  rw [hp]
  exact ⟨rfl, rfl⟩

/-- A new process is made in its region, with a sys page, closed guards and an empty heap. -/
structure Made (E : Host L) (s : System L A) (i : LFIAddrSpaceInfo) (p : TuxThread L A.machine) : Prop where
  info : p.as.info = i
  recs : E.ok i p.as.mm
  heap : Placed E.opts p
  page : SysPage E.rt i p.as.mem p.as.prot
  sys : p.sys = i.base
  tid : p.tid = s.nexttid
  mem : ∀ x, ¬ i.OnSysPage x → ¬ i.Within x → p.as.mem x = s.mem x ∧ p.as.prot x = s.prot x

/-- What is known of a process that was set up. -/
lemma made (hpage : i.pagesize = E.opts.pagesize)
    (halloc : (sysalloc E.H i).run (s.space i (E.mmInit i)) = ⟨.ok true, as1, l1⟩)
    (hsetup : (syssetup E.H E.rt i).run as1 = ⟨.ok true, as2, l2⟩)
    (hproc : (procsetup E.H E.opts prog interp argv).run (procnewfile as2 s.nexttid) = ⟨.ok true, p, l⟩)
    (hprog : prog.Fits) (hinterp : ∀ ib, interp = some ib → ib.Fits) : Made E s i p := by
  obtain ⟨k, hk⟩ := E.page_pow
  have hle : i.pagesize.toNat ≤ 2 ^ 20 := hpage ▸ E.page_le
  have hdvd : E.opts.pagesize.toNat ∣ 2 ^ 32 := by
    have hle := E.page_le
    rw [hk] at hle ⊢
    exact Nat.pow_dvd_pow 2 (((Nat.pow_le_pow_iff_right (by omega)).mp hle).trans (by omega))
  obtain ⟨hsys, hinfo, hmm, hout⟩ := syspage_made (hpage.trans E.page.symm) (hpage ▸ hdvd) (hpage ▸ E.page_sys)
    halloc hsetup
  have hrecs : E.ok i as2.mm := by
    rw [hmm]
    exact E.init i hpage
  have hin := procsetup_inward (M := A.machine) (p := procnewfile as2 s.nexttid) hk hpage argv (E.confines i hpage)
    (E.paged hpage) hle rfl hprog hinterp hinfo hrecs
  obtain ⟨hpl, -, -⟩ := procsetup_placed (p := procnewfile as2 s.nexttid) hdvd (congrArg Res.val hproc)
  rw [E.page] at hpl
  obtain ⟨hself, htid⟩ := procsetup_self hproc
  rw [hproc] at hin hpl
  refine ⟨hin.info, hin.recs, hpl, ⟨fun x hx => ?_, fun x hx => ?_⟩, ?_, ?_, fun x hx hno => ?_⟩
  · exact (hin.mem x fun hw => (hw.region hle).2 hx).trans (hsys.mem x hx)
  · exact (hin.prot x fun hw => (hw.region hle).2 hx).trans (hsys.prot x hx)
  · rw [hself]
    exact congrArg LFIAddrSpaceInfo.base hinfo
  · exact htid
  · exact ⟨(hin.mem x hno).trans (hout x hx).1, (hin.prot x hno).trans (hout x hx).2⟩

/-- The new process has its address space, -/
lemma create_self : (s.create p).spaces s.tux.nproc = ⟨p.as.info, p.as.mm, p.brkbase, p.brksize⟩ :=
  Function.update_self ..

/-- and all others have theirs. -/
lemma create_other {q : Nat} (hq : q ≠ s.tux.nproc) : (s.create p).spaces q = s.spaces q :=
  Function.update_of_ne hq ..

variable (hm : Made E s i p) (hpage : i.pagesize = E.opts.pagesize)
include hm hpage

/-- A new process is of itself. -/
lemma create_of : Of s (s.create p) s.tux.nproc where
  nproc := Nat.le_succ _
  info hlt := absurd hlt (lt_irrefl _)
  space hq := create_other hq
  files hq := Function.update_of_ne hq ..
  mem := by
    intro x hx
    have hle : i.pagesize.toNat ≤ 2 ^ 20 := hpage ▸ E.page_le
    have hx := hx (Nat.lt_succ_self _)
    rw [info, create_self, hm.info] at hx
    exact hm.mem x (fun hs => hx (hs.region hle)) fun hw => hx (hw.region hle).1
  contexts := by
    intro c hc n
    rw [create, List.getElem?_append]
    split
    · exact Iff.rfl
    · rename_i hge
      refine iff_of_false (fun h => ?_) fun h => hge (List.getElem?_eq_some_iff.mp h).1
      obtain rfl := List.mem_singleton.mp (List.mem_of_getElem? h)
      exact hc rfl

omit hpage in
/-- It is where it was put, -/
lemma create_info_self : (s.create p).info s.tux.nproc = i := by
  rw [info, create_self]
  exact hm.info

omit hm hpage in
/-- and all others are where they were. -/
lemma create_info {q : Nat} (hq : q < s.tux.nproc) : (s.create p).info q = s.info q := by
  rw [info, create_other hq.ne]
  rfl

/-- A new process in a region of its own keeps the invariant. -/
lemma create_ok (ok : s.Ok E) (hfresh : ∀ q < s.tux.nproc, (s.info q).base ≠ i.base)
    (hnone : ∀ x, i.Region x → s.prot x = LFI_PROT_NONE) : (s.create p).Ok E := by
  have hself := create_info_self hm
  have hle : i.pagesize.toNat ≤ 2 ^ 20 := hpage ▸ E.page_le
  have hcases : ∀ {q}, q < (s.create p).tux.nproc → q < s.tux.nproc ∨ q = s.tux.nproc := fun hq =>
    Nat.lt_or_eq_of_le (Nat.lt_succ_iff.mp hq)
  -- the region of an older process is as it was
  have hkeep : ∀ {q x}, q < s.tux.nproc → (s.info q).Region x → p.as.mem x = s.mem x ∧ p.as.prot x = s.prot x := by
    intro q x hq hx
    have hno : ¬ i.Region x := fun h => hfresh q hq (hx.eq h)
    exact hm.mem x (fun hs => hno (hs.region hle)) fun hw => hno (hw.region hle).1
  constructor
  case apart =>
    intro q r hq hr h
    rcases hcases hq with hq | rfl <;> rcases hcases hr with hr | rfl
    · rw [create_info hq, create_info hr] at h
      exact ok.apart hq hr h
    · rw [create_info hq, hself] at h
      exact absurd h (hfresh q hq)
    · rw [create_info hr, hself] at h
      exact absurd h.symm (hfresh r hr)
    · rfl
  case page =>
    intro q hq
    rcases hcases hq with hq | rfl
    · rw [create_info hq]
      exact ok.page hq
    · rw [hself]
      exact hpage
  case recs =>
    intro q hq
    rcases hcases hq with hq | rfl
    · rw [create_info hq, create_other hq.ne]
      exact ok.recs hq
    · rw [hself, create_self]
      exact hm.recs
  case heap =>
    intro c hc
    rcases hcases hc with hc | hc
    · have hbase : ((s.create p).world c).p.brkbase = (s.world c).p.brkbase := by
        simp only [world, create_other hc.ne]
      have hsize : ((s.create p).world c).p.brksize = (s.world c).p.brksize := by
        simp only [world, create_other hc.ne]
      exact (ok.heap hc).move hbase (by rw [hsize]; exact (ok.heap hc).size)
    · have hbase : ((s.create p).world c).p.brkbase = p.brkbase := by
        simp only [world, hc, create_self]
      have hsize : ((s.create p).world c).p.brksize = p.brksize := by
        simp only [world, hc, create_self]
      exact hm.heap.move hbase (by rw [hsize]; exact hm.heap.size)
  case sys =>
    intro q hq
    rcases hcases hq with hq | rfl
    · rw [create_info hq]
      have hin : ∀ {x}, (s.info q).OnSysPage x → (s.info q).Region x := fun h => h.region (ok.small hq)
      exact ⟨fun x hx => (hkeep hq (hin hx)).1.trans ((ok.sys hq).mem x hx),
        fun x hx => (hkeep hq (hin hx)).2.trans ((ok.sys hq).prot x hx)⟩
    · rw [hself]
      exact hm.page
  case guard =>
    intro q x hq hx hno hout
    rcases hcases hq with hq | rfl
    · rw [create_info hq] at hx hno hout
      exact (hkeep hq hx).2.trans (ok.guard hq hx hno hout)
    · rw [hself] at hx hno hout
      exact (hm.mem x hno hout).2.trans (hnone x hx)
  case context =>
    intro c hc
    rcases List.mem_append.mp hc with hc | hc
    · have hold := ok.context hc
      rw [create_info hold.1]
      exact ⟨Nat.lt_succ_of_lt hold.1, hold.2⟩
    · obtain rfl := List.mem_singleton.mp hc
      refine ⟨Nat.lt_succ_self _, ?_⟩
      rw [hself]
      exact hm.sys

end

/-- The threads after a system call of a context, if no assertion fails, and what it keeps of its caller. -/
lemma call_starts {c : Context A.machine}
    (h : ∀ e, ((archSyshandle E.H E.O E.opts A).run (s.world c)).val ≠ .error (.assertion e)) :
    Starts (s.world c) ((archSyshandle E.H E.O E.opts A).run (s.world c)).st ∧
      ((archSyshandle E.H E.O E.opts A).run (s.world c)).st.p.sys = c.sys ∧
      ((archSyshandle E.H E.O E.opts A).run (s.world c)).st.p.tid = c.tid := by
  obtain ⟨⟨regs, hst⟩, herr⟩ := archSyshandle_st E.H E.O E.opts (s.world c)
  have hstarts := syshandle_starts fun e he => h e (herr _ he)
  have hself := syshandle_self E.H E.O E.opts (A.request c.regs).1 (A.request c.regs).2 (s.world c)
  rw [hst]
  refine ⟨?_, hself.1, hself.2⟩
  cases hstarts with
  | none hs hn => exact .none hs hn
  | one t hs ht hsys hn => exact .one t hs ht hsys hn

/-- The heap after a system call of a context of a process that exists. -/
lemma Ok.call_placed {c : Context A.machine} (ok : s.Ok E) (hc : c.proc < s.tux.nproc) :
    Placed E.opts ((archSyshandle E.H E.O E.opts A).run (s.world c)).st.p := by
  obtain ⟨⟨regs, hst⟩, -⟩ := archSyshandle_st E.H E.O E.opts (s.world c)
  have h := (ok.heap hc).syshandle (H := E.H) (O := E.O) (A.request c.regs).1 (A.request c.regs).2
  rw [hst]
  exact h.move rfl h.size

/-- A call that returned does not fail an assertion. -/
lemma returns_not_assertion {α : Type} {v : Except Stop α} {r : α} (hv : v = .ok r) (a : Assert) :
    v ≠ .error (.assertion a) := by
  rw [hv]
  intro h
  cases h

/-- A call that left does not fail an assertion. -/
lemma leaves_not_assertion {α : Type} {v : Except Stop α} {e : Stop} {code : Word} (hv : v = .error e)
    (he : e = .exit code ∨ e = .pause code) (a : Assert) : v ≠ .error (.assertion a) := by
  rintro rfl
  cases hv
  rcases he with he | he <;> cases he

/-- A step keeps what every state has, and leaves the other processes alone. -/
lemma Ok.step {a : Act} (ok : s.Ok E) (ht : Tame E s a) (h : Step E s a s') :
    s'.Ok E ∧ Of s s' (a.proc s.tux.nproc) := by
  cases h with
  | refused => exact ⟨⟨ok.apart, ok.page, ok.recs, ok.heap, ok.sys, ok.guard, ok.context⟩, ⟨le_rfl, fun _ => rfl,
      fun _ => rfl, fun _ => rfl, fun _ => ⟨rfl, rfl⟩, fun _ _ => Iff.rfl⟩⟩
  | procNew hpage hfresh hnone halloc hsetup hproc =>
    have hm := made hpage halloc hsetup hproc ht.1 ht.2
    exact ⟨create_ok hm hpage ok hfresh hnone, create_of hm hpage⟩
  | guest hn _ hmem =>
    have hc := (ok.context (List.mem_of_getElem? hn)).1
    exact ⟨ran_ok hn hc hmem ok, ran_of hn hc hmem⟩
  | returns hn _ hrun =>
    have hc := (ok.context (List.mem_of_getElem? hn)).1
    have hin := ok.call_inward hc (ht _ hn)
    have hpl := ok.call_placed hc
    obtain ⟨hst, hsys, -⟩ := call_starts (returns_not_assertion (congrArg Res.val hrun))
    rw [hrun] at hin hpl hst hsys
    exact ⟨after_ok hn hc hin ok hpl hst hsys, after_of hn hc hin ok⟩
  | leaves hn _ hrun he =>
    have hc := (ok.context (List.mem_of_getElem? hn)).1
    have hin := ok.call_inward hc (ht _ hn)
    have hpl := ok.call_placed hc
    obtain ⟨hst, hsys, -⟩ := call_starts (leaves_not_assertion (congrArg Res.val hrun) he)
    rw [hrun] at hin hpl hst hsys
    exact ⟨after_ok hn hc hin ok hpl hst hsys, after_of hn hc hin ok⟩

/-- It holds when there is no process. -/
lemma Initial.ok (h : s.Initial) : s.Ok E := by
  have hno : ∀ {q}, ¬ q < s.tux.nproc := by
    intro q
    rw [h.tux]
    exact Nat.not_lt_zero q
  refine ⟨fun hp => absurd hp hno, fun hp => absurd hp hno, fun hp => absurd hp hno, fun hp => absurd hp hno,
    fun hp => absurd hp hno, fun hp => absurd hp hno, fun hc => ?_⟩
  rw [h.contexts] at hc
  cases hc

/-! ## All runs -/

/-- A run of steps whose creations and system calls are tame. -/
abbrev Runs (E : Host L) : System L A → List Act → System L A → Prop := Run (Guarded (Tame E) (Step E))

/-- Every run keeps it. -/
lemma Ok.run {l : List Act} (ok : s.Ok E) (hr : Runs E s l s') : s'.Ok E :=
  hr.invariant (fun ok h => (ok.step h.1 h.2).1) ok

end System

/-! ## Two processes -/

/-- A host with pages of 4 KiB on which all calls succeed. -/
def Host.plain : Host .ofRanges where
  H := .open
  O := .plain
  opts := .plain
  rt := ⟨0x1000, 0x1040, 0x1080, 0x10c0⟩
  mmInit i := (LFIAddrSpace.fresh i).mm
  ok := Ranges.Inside
  page := rfl
  page_pow := ⟨12, rfl⟩
  page_le := by decide
  page_guard := by decide
  page_sys := by decide
  confines _ _ := LibMMap.ofRanges_confines
  init _ _ := ⟨rfl, rfl, fun _ hr => by cases hr⟩

namespace System

variable {L : LibMMap} {A : Arch} {E : Host L} {s : System L A}

/-- A new process, without what can fail. -/
def boot (E : Host L) (s : System L A) (i : LFIAddrSpaceInfo) (prog : Elf.Buf) (argv : List (List Byte)) :
    Bool × System L A :=
  let r1 := (sysalloc E.H i).run (s.space i (E.mmInit i))
  let r2 := (syssetup E.H E.rt i).run r1.st
  let r3 := (procsetup (M := A.machine) E.H E.opts prog none argv).run (procnewfile r2.st s.nexttid)
  (decide (r1.val = .ok true ∧ r2.val = .ok true ∧ r3.val = .ok true), s.create r3.st)

/-- A process that is set up in a free region is a step. -/
lemma Step.boot {i : LFIAddrSpaceInfo} {prog : Elf.Buf} {argv : List (List Byte)}
    (hpage : i.pagesize = E.opts.pagesize) (hfresh : ∀ q < s.tux.nproc, (s.info q).base ≠ i.base)
    (hnone : ∀ x, i.Region x → s.prot x = LFI_PROT_NONE) (h : (s.boot E i prog argv).1 = true) :
    Step E s (.procNew prog none) (s.boot E i prog argv).2 := by
  obtain ⟨h1, h2, h3⟩ := of_decide_eq_true h
  exact .procNew hpage hfresh hnone (Res.eq_mk h1) (Res.eq_mk h2) (Res.eq_mk h3)

/-- The system before the first process. -/
def start : System .ofRanges .x64 where
  tux := lfiTuxNew
  spaces _ := ⟨.plain, (LFIAddrSpace.fresh .plain).mm, 0, 0⟩
  contexts := []
  mem _ := 0
  prot _ := LFI_PROT_NONE
  nmmap := 0
  nmprotect := 0
  ncall := 0
  nexttid := 10000
  futexes := []

/-- A placement at 8 GiB. -/
def second : LFIAddrSpaceInfo where
  base := gb 8
  pagesize := 4096
  base_pos := by decide
  base_aligned := by decide
  base_top := by decide

/-- A process that runs `textImage`, and one more of them at 8 GiB. -/
def oneProc : System .ofRanges .x64 := (start.boot .plain .plain Elf.textImage [[97]]).2

/-- And then a second one. -/
def twoProcs : System .ofRanges .x64 := (oneProc.boot .plain second Elf.textImage [[97]]).2

/-- There is no process at the start. -/
lemma initial_start : start.Initial := ⟨rfl, rfl, rfl⟩

/-- Its image fits. -/
lemma fits_textImage : Elf.textImage.Fits := by decide +kernel

/-- So the step that makes a process of it is tame. -/
lemma tame_textImage (s : System .ofRanges .x64) : Tame .plain s (.procNew Elf.textImage none) :=
  ⟨fits_textImage, fun _ h => by cases h⟩

/-- The first process is made, -/
lemma runs_oneProc : Runs .plain start [.procNew Elf.textImage none] oneProc := by
  refine .snoc (.nil _) ⟨tame_textImage _, Step.boot rfl ?_ (fun _ _ => rfl) ?_⟩
  · intro q hq
    exact absurd hq (Nat.not_lt_zero q)
  · decide +kernel

/-- and the second. -/
lemma runs_twoProcs : Runs .plain oneProc [.procNew Elf.textImage none] twoProcs := by
  have hone : Step .plain start (.procNew Elf.textImage none) oneProc :=
    .boot rfl (fun q hq => absurd hq (Nat.not_lt_zero q)) (fun _ _ => rfl) (by decide +kernel)
  obtain ⟨ok, hof⟩ := initial_start.ok.step (tame_textImage _) hone
  refine .snoc (.nil _) ⟨tame_textImage _, Step.boot rfl ?_ ?_ ?_⟩
  · intro q hq
    have hq0 : q = 0 := Nat.lt_one_iff.mp hq
    rw [hq0]
    decide +kernel
  · intro x hx
    refine (hof.mem fun _ hin => ?_).2
    have hbase : (oneProc.info 0).base = second.base := hin.eq hx
    revert hbase
    decide +kernel
  · decide +kernel

/-- The first thread of the second process. -/
def idle : Context Arch.x64.machine := twoProcs.contexts.get ⟨1, by decide +kernel⟩

/-- Its registers when it is about to close its descriptor `1`. -/
def closing : X64.TuxRegs :=
  let regs : X64.TuxRegs := idle.regs
  { regs with rax := 3, rdi := 1 }

/-- It stores a byte at the end of its stack, and closes the descriptor. -/
def stored : System .ofRanges .x64 :=
  twoProcs.ran 1 idle closing idle.tp (Function.update twoProcs.mem (second.maxaddr - 1) 7)

/-- It makes a system call. -/
def closed : System .ofRanges .x64 :=
  stored.after 1 { idle with regs := closing }
    ((archSyshandle .open .plain .plain .x64).run (stored.world { idle with regs := closing })).st true

/-- The store is a step, -/
lemma step_stored : Step .plain twoProcs (.guest 1 1) stored := by
  have hidle : twoProcs.contexts[1]? = some idle := List.getElem?_eq_getElem _
  refine .guest (c := idle) hidle rfl fun x hx => ?_
  have hx : x = second.maxaddr - 1 := by
    by_contra hne
    exact hx (Function.update_of_ne hne ..)
  subst hx
  decide +kernel

/-- and so is the call. -/
lemma step_closed : Step .plain stored (.syscall 1 1) closed := by
  have hc : stored.contexts[1]? = some { idle with regs := closing } := rfl
  have hval : ((archSyshandle .open .plain .plain .x64).run (stored.world { idle with regs := closing })).val =
      .ok () := by decide +kernel
  exact .returns hc rfl (Res.eq_mk hval)

/-- Guest code is tame, -/
lemma tame_stored : Tame .plain twoProcs (.guest 1 1) := trivial

/-- and so is this call. -/
lemma tame_closed : Tame .plain stored (.syscall 1 1) := by
  intro c hc
  have hc' : stored.contexts[1]? = some { idle with regs := closing } := rfl
  cases hc'.symm.trans hc
  intro n hn
  have hclose : Arch.x64.sysno 3 = some .close := by decide
  cases hclose.symm.trans hn
  exact ⟨trivial, trivial⟩

/-- All steps of the two processes after the first was made. -/
lemma runs_closed : Runs .plain oneProc [.procNew Elf.textImage none, .guest 1 1, .syscall 1 1] closed :=
  .snoc (.snoc runs_twoProcs ⟨tame_stored, step_stored⟩) ⟨tame_closed, step_closed⟩

end System
end Libtux
