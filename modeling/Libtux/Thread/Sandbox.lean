import Libtux.Proc.Entry
import Libtux.Sys.Clone
import Libtux.Sys.Dispatch

/-!
# The registers a new context starts with

LFI confines a guest by what a few registers hold: the base register and the runtime-call register are
never written by verified code, and the stack pointer and the jump target lie in the sandbox. They are
set in five places: `lfi_regs_init` and `regs_init` for a process, and the copy of the caller's registers
in `procnewthread`, `regs_return` and `regs_sp` for a thread. `Sandboxed` is what must hold of the
registers that `lfi_ctx_entry` loads.

`procsetup` establishes it (`procsetup_sandboxed`). `spawn` takes everything but the stack pointer from
the caller (`Spawned.prepare_entry`) and stores the stack argument of the guest as it is, so a new thread
is in the sandbox exactly when that argument is (`contexts_sandboxed`).
-/

namespace Libtux
open Lib Elf

variable {L : LibMMap} {H : HostVm} {O : HostOs}

/-- A stack pointer in the address space, or at its end. -/
def LFIAddrSpaceInfo.HasStack (i : LFIAddrSpaceInfo) (sp : Word) : Prop :=
  i.base.toNat ≤ sp.toNat ∧ sp.toNat ≤ i.base.toNat + i.size.toNat

instance (i : LFIAddrSpaceInfo) (sp : Word) : Decidable (i.HasStack sp) :=
  inferInstanceAs (Decidable (_ ∧ _))

/-- The registers of a context of the address space whose sys page is at `sys`. -/
structure Sandboxed (i : LFIAddrSpaceInfo) (sys : Word) (e : Entry) : Prop where
  sp : i.HasStack e.sp
  bases : ∀ r ∈ e.bases, r = i.base
  sys_reg : e.sys = sys
  /-- The sys page is where `lfi_ctx_new` puts it. -/
  sys_page : sys = i.base
  pc : i.Has e.pc

/-! ## A process -/

/-- What a context is entered with after `lfi_regs_init` and `regs_init`. -/
lemma Arch.entry_regsInit (A : Arch) (base sys entry sp : Word) :
    ∃ bases, A.machine.lfiCtxEntry (A.machine.regsInit (A.machine.lfiRegsInit A.machine.zero base sys)
        entry sp) = ⟨sp, bases, sys, entry⟩ ∧ ∀ r ∈ bases, r = base := by
  cases A with
  | x64 =>
    refine ⟨[base, base], rfl, fun r hr => ?_⟩
    simpa using hr
  | arm64 =>
    refine ⟨[base], rfl, fun r hr => ?_⟩
    simpa using hr

/-- The first thread of a process that was set up. -/
lemma procsetup_sandboxed {A : Arch} {opts : TuxOptions} {prog : Buf} {interp : Option Buf}
    {argv : List (List Byte)} {as : LFIAddrSpace L} {tid : CInt}
    (hpg : as.info.pagesize.toNat ≤ 2 ^ 20) {p : TuxThread L A.machine} {out : List Ev}
    (h : (procsetup H opts prog interp argv).run (procnewfile as tid) = ⟨.ok true, p, out⟩) :
    Sandboxed p.as.info p.sys (A.machine.lfiCtxEntry p.regs) := by
  obtain ⟨entry, hentry, hsys, hinfo, hregs⟩ := procsetup_entry (p := procnewfile as tid) hpg
    (congrArg Res.val h)
  rw [h] at hsys hinfo hregs
  obtain ⟨bases, hregs', hbases⟩ := A.entry_regsInit as.info.base as.info.base entry
    (as.info.maxaddr - 2 * ARG_BLOCK)
  have hinfo : p.as.info = as.info := hinfo
  have hsys : p.sys = as.info.base := hsys
  have hp : A.machine.lfiCtxEntry p.regs =
      ⟨as.info.maxaddr - 2 * ARG_BLOCK, bases, as.info.base, entry⟩ := by
    rw [show p.regs = _ from hregs]
    exact hregs'
  have hmax := as.info.maxaddr_toNat
  have htop := as.info.base_top
  have hsize := as.info.size_toNat
  have hsp : (as.info.maxaddr - 2 * ARG_BLOCK).toNat = as.info.maxaddr.toNat - 8192 := by
    simp only [ARG_BLOCK]
    bv_omega
  rw [hinfo, hsys, hp]
  exact ⟨⟨by rw [hsp]; omega, by rw [hsp]; omega⟩, hbases, rfl, rfl, hentry⟩

/-! ## A thread -/

/-- What a new thread is entered with: the registers of its caller, with another stack pointer. -/
lemma Arch.entry_spawned (A : Arch) (regs : A.machine.Regs) (v sp : Word) :
    A.machine.lfiCtxEntry (A.machine.regsSp (A.machine.regsReturn regs v) sp) =
      { A.machine.lfiCtxEntry regs with sp := sp } := by
  cases A with
  | x64 => rfl
  | arm64 => rfl

/-- A store starts no thread, -/
@[simp] lemma put32_started {M : Machine} (w : World L M) (ptr : Word) (v : CInt) :
    (w.put32 ptr v).started = w.started := rfl

/-- The part of `spawn` after its flags were accepted starts at most one thread, the caller's copy with
what `spawn` sets in it. -/
lemma spawnPrepare_started {M : Machine} (flags stack ctidp tls : Word) (w : World L M) :
    ((spawnPrepare O flags stack ctidp tls).run w).st.started = w.started ∧
    (((spawnPrepare O flags stack ctidp tls).run w).val = .ok none ∨
      ((spawnPrepare O flags stack ctidp tls).run w).val =
        .ok (some (w.newthread.prepare flags stack ctidp tls))) := by
  rw [spawnPrepare_run]
  split
  · split
    · exact ⟨rfl, .inr rfl⟩
    · exact ⟨rfl, .inr rfl⟩
  · exact ⟨rfl, .inl rfl⟩

/-- and neither does what `spawn` does last. -/
lemma spawnPublish_started {M : Machine} {flags ptidp : Word} (p2 : Spawned M) (w : World L M) :
    ((spawnPublish flags ptidp p2).run w).st.started = w.started := by
  rw [spawnPublish_run]
  split
  · rfl
  · rfl

/-- A thread that `sys_clone` started is the caller's copy with what `spawn` sets in it. -/
lemma sysClone_started {M : Machine} {flags stack ptid ctid tls : Word} {w : World L M} {p2 : Spawned M}
    (h : ((sysClone O flags stack ptid ctid tls).run w).st.started = p2 :: w.started) :
    ∃ flags', spawnFlags flags = some flags' ∧ p2 = w.newthread.prepare flags' stack ctid tls := by
  have hne : w.started ≠ p2 :: w.started := fun he => by simpa using congrArg List.length he
  rw [sysClone, Exec.check_bind_run] at h
  split at h
  case isFalse => exact absurd h hne
  unfold spawn at h
  cases hf : spawnFlags flags with
  | none =>
    rw [hf] at h
    exact absurd h hne
  | some flags' =>
    rw [hf] at h
    refine ⟨flags', rfl, ?_⟩
    simp only [Exec.bind_run] at h
    obtain ⟨hst, hv⟩ := spawnPrepare_started (O := O) flags' stack ctid tls w
    generalize (spawnPrepare O flags' stack ctid tls).run w = r at h hst hv
    obtain ⟨v, w1, l⟩ := r
    dsimp only at hst hv
    obtain rfl | rfl := hv
    · simp only [Exec.andThen_ok, Exec.pure_run] at h
      exact absurd (hst.symm.trans h) hne
    · simp only [Exec.andThen_ok, Exec.bind_run, spawnStart_run] at h
      cases hr : O.ret w1.ncall with
      | none =>
        rw [hr] at h
        exact absurd (hst.symm.trans h) hne
      | some r =>
        simp only [hr, Option.isSome_some, if_true, Exec.andThen_ok_nil, spawnPublish_started] at h
        exact (List.cons.inj h).1.symm

/-- The new thread is in the sandbox exactly when its stack is, if the caller is. -/
lemma prepare_sandboxed {A : Arch} {w : World L A.machine} (flags stack ctidp tls : Word)
    (hw : Sandboxed w.info w.p.sys (A.machine.lfiCtxEntry w.p.regs)) :
    Sandboxed w.info (w.newthread.prepare flags stack ctidp tls).sys
        (A.machine.lfiCtxEntry (w.newthread.prepare flags stack ctidp tls).regs) ↔
      w.info.HasStack stack := by
  have he : A.machine.lfiCtxEntry (w.newthread.prepare flags stack ctidp tls).regs =
    { A.machine.lfiCtxEntry w.p.regs with sp := stack } := A.entry_spawned w.p.regs 0 stack
  rw [he]
  constructor
  · intro h
    exact h.sp
  · intro h
    exact ⟨h, hw.bases, hw.sys_reg.trans hw.sys_page, rfl, hw.pc⟩

/-- Every context that a process is created with is in the sandbox, and one that is created by
`sys_clone` from a thread in the sandbox is exactly when the stack argument lies in the address
space. -/
theorem contexts_sandboxed (A : Arch) :
    (∀ {L : LibMMap} {H : HostVm} {opts : TuxOptions} {prog : Buf} {interp : Option Buf}
      {argv : List (List Byte)} {as : LFIAddrSpace L} {tid : CInt} {p : TuxThread L A.machine}
      {out : List Ev}, as.info.pagesize.toNat ≤ 2 ^ 20 →
      (procsetup H opts prog interp argv).run (procnewfile as tid) = ⟨.ok true, p, out⟩ →
      Sandboxed p.as.info p.sys (A.machine.lfiCtxEntry p.regs)) ∧
    (∀ {L : LibMMap} {O : HostOs} {w : World L A.machine} {flags stack ptid ctid tls : Word}
      {p2 : Spawned A.machine}, Sandboxed w.info w.p.sys (A.machine.lfiCtxEntry w.p.regs) →
      ((sysClone O flags stack ptid ctid tls).run w).st.started = p2 :: w.started →
      (Sandboxed w.info p2.sys (A.machine.lfiCtxEntry p2.regs) ↔ w.info.HasStack stack)) := by
  refine ⟨fun hpg h => procsetup_sandboxed hpg h, fun {L O w flags stack ptid ctid tls p2} hw h => ?_⟩
  obtain ⟨flags', -, rfl⟩ := sysClone_started h
  exact prepare_sandboxed flags' stack ctid tls hw

/-- A process that runs `textImage`. -/
def textProcess (M : Machine) : Res Stop Ev (TuxThread .ofRanges M) Bool :=
  (procsetup (.plain fun _ _ _ => true) .plain textImage none [[97]]).run
    (procnewfile (.fresh .plain) 10000)

/-- It is set up. -/
lemma textProcess_true : (textProcess (Arch.machine .x64)).val = .ok true := by decide +kernel

/-- The same as an equation. -/
lemma textProcess_eq :
    (procsetup (.plain fun _ _ _ => true) .plain textImage none [[97]]).run
        (procnewfile (.fresh .plain) 10000) =
      ⟨.ok true, (textProcess (Arch.machine .x64)).st, (textProcess (Arch.machine .x64)).out⟩ :=
  Res.eq_mk textProcess_true

/-- A thread of that process. -/
def textWorld : World .ofRanges (Arch.machine .x64) := .ofThread (textProcess (Arch.machine .x64)).st

/-- A thread is in its sandbox in its world too, -/
lemma sandboxed_ofThread {A : Arch} {p : TuxThread L A.machine}
    (h : Sandboxed p.as.info p.sys (A.machine.lfiCtxEntry p.regs)) :
    Sandboxed (World.ofThread p).info (World.ofThread p).p.sys
      (A.machine.lfiCtxEntry (World.ofThread p).p.regs) := h

/-- which is where it was. -/
lemma info_ofThread {M : Machine} {p : TuxThread L M} {i : LFIAddrSpaceInfo} (h : p.as.info = i) :
    (World.ofThread p).info = i := h

/-- It is where its process was made. -/
lemma textWorld_info : textWorld.info = .plain := by
  obtain ⟨_, _, _, hinfo, _⟩ := procsetup_entry (by decide) (congrArg Res.val textProcess_eq)
  rw [textProcess_eq] at hinfo
  dsimp only [procnewfile, LFIAddrSpace.fresh] at hinfo
  rw [textWorld]
  exact info_ofThread hinfo

/-- A call of `sys_clone` by that thread, with the required flags and a stack argument. -/
def textClone (stack : Word) : Res Stop Ev (World .ofRanges (Arch.machine .x64)) Word :=
  (sysClone .plain 0x10f00 stack 0 0 0).run textWorld

/-- Its first thread starts another one. -/
lemma textClone_started (stack : Word) :
    (textClone stack).st.started = textWorld.newthread.prepare 0x10f00 stack 0 0 :: textWorld.started :=
  sysClone_creates stack 0 0 0 (by decide) (by decide) rfl rfl

/-- The first thread of a process, and a thread of it that starts on a stack inside the sandbox. -/
theorem contexts_sandboxed_text :
    Sandboxed textWorld.info textWorld.p.sys ((Arch.machine .x64).lfiCtxEntry textWorld.p.regs) ∧
    ∃ p2, (textClone (LFIAddrSpaceInfo.plain.base + 0x200000)).st.started = p2 :: textWorld.started ∧
      Sandboxed textWorld.info p2.sys ((Arch.machine .x64).lfiCtxEntry p2.regs) := by
  have hp := (contexts_sandboxed .x64).1 (by decide) textProcess_eq
  have hw : Sandboxed textWorld.info textWorld.p.sys
    ((Arch.machine .x64).lfiCtxEntry textWorld.p.regs) := sandboxed_ofThread hp
  have hst := textClone_started (LFIAddrSpaceInfo.plain.base + 0x200000)
  refine ⟨hw, _, hst, ((contexts_sandboxed .x64).2 hw hst).mpr ?_⟩
  rw [textWorld_info]
  decide +kernel

/-- The guest asks for a stack at `0`, below the sandbox, and gets it. -/
theorem clone_leaves_sandbox :
    Sandboxed textWorld.info textWorld.p.sys ((Arch.machine .x64).lfiCtxEntry textWorld.p.regs) ∧
    ∃ p2, (textClone 0).st.started = p2 :: textWorld.started ∧
      ¬ Sandboxed textWorld.info p2.sys ((Arch.machine .x64).lfiCtxEntry p2.regs) := by
  have hw : Sandboxed textWorld.info textWorld.p.sys
      ((Arch.machine .x64).lfiCtxEntry textWorld.p.regs) :=
    sandboxed_ofThread (procsetup_sandboxed (by decide) textProcess_eq)
  refine ⟨hw, _, textClone_started 0, fun h => ?_⟩
  have hstack := (prepare_sandboxed 0x10f00 0 0 0 hw).mp h
  rw [textWorld_info] at hstack
  revert hstack
  decide +kernel

end Libtux
