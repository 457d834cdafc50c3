import Libtux.Elf.Load
import Libtux.Arch.Regs

/-!
# Setting up a process

Model of `stacksetup` and `procsetup` (`src/proc.c`), of `elfload` (`src/elfload.c`) and of
`lfi_ctx_new` (`src/pal/ctx.c`). `argv` is a list of the bytes before the terminator of each string,
and `argc` its length.

`stacksetup` writes to guest memory only. Its array `argv_ptrs` has `ARGC_MAX` entries and is indexed
without a check, so a run with more arguments than that stops at `undefined`. So does a run that stores
above the stack: the stack ends where the guard of the address space starts, which is never mapped. The
test in its second loop compares a pointer that the loop never moves, and is kept as it is.
-/

namespace Libtux
open Lib Elf

def TUX_BRKMAXSIZE : Word := 512 * 1024 * 1024

def ARGC_MAX : Nat := 1024
def ARGV_MAX : Nat := 1024
def ARG_BLOCK : Word := 4096

def AT_NULL : Word := 0
def AT_PHDR : Word := 3
def AT_PHENT : Word := 4
def AT_PHNUM : Word := 5
def AT_PAGESZ : Word := 6
def AT_BASE : Word := 7
def AT_FLAGS : Word := 8
def AT_ENTRY : Word := 9
def AT_UID : Word := 11
def AT_EUID : Word := 12
def AT_GID : Word := 13
def AT_EGID : Word := 14
def AT_HWCAP : Word := 16
def AT_HWCAP2 : Word := 17
def AT_SECURE : Word := 23
def AT_RANDOM : Word := 25
def AT_EXECFN : Word := 31
def AT_SYSINFO : Word := 32
def AT_SYSINFO_EHDR : Word := 33

/-- `strnlen` of a string given by its bytes. -/
def strnlen (s : List Byte) (n : Nat) : Nat := min (s.takeWhile (· ≠ 0)).length n

section
variable {L : LibMMap}

/-- Write the strings of `argv` from `p_argv` on (the first loop of `stacksetup`). The result is
`argv_ptrs`, or `none` when they do not fit. -/
def stackStrings (stack_top : Word) : Word → List (List Byte) → List Word → Vm L (Option (List Word))
  | _, [], argv_ptrs => pure (some argv_ptrs)
  | p_argv, arg :: argv, argv_ptrs => do
    let len := BitVec.ofNat 64 (strnlen arg ARGV_MAX + 1)
    if p_argv + len ≥ stack_top then pure none
    else do
      Exec.modify fun as =>
        { as with mem := splice as.mem p_argv len fun k =>
            if k = len - 1 then 0 else arg.getD k.toNat 0 }
      Exec.check (argv_ptrs.length < ARGC_MAX) .undefined
      stackStrings stack_top (p_argv + len) argv (argv_ptrs ++ [p_argv])

/-- Store a word on the stack. -/
def stackStore (stack_top p v : Word) : Vm L Unit := do
  Exec.check (p < stack_top) .undefined
  store64 p v

/-- Write the pointers of `argv` (the second loop of `stacksetup`). -/
def stackPointers (stack_top p_argvp : Word) : Nat → List Word → Vm L Bool
  | _, [] => pure true
  | i, ptr :: argv_ptrs =>
    if p_argvp ≥ stack_top - ARG_BLOCK then pure false
    else do
      let v ← lfiAsToptr ptr
      stackStore stack_top (p_argvp + 8 * BitVec.ofNat 64 i) v
      stackPointers stack_top p_argvp (i + 1) argv_ptrs

/-- Write the entries of the auxiliary vector (C `struct Auxv`). -/
def stackAuxv (stack_top : Word) : Word → List (Word × Word) → Vm L Unit
  | _, [] => pure ()
  | av, (a_type, a_val) :: rest => do
    stackStore stack_top av a_type
    stackStore stack_top (av + 8) a_val
    stackAuxv stack_top (av + 16) rest

/-- `stacksetup`: the new stack pointer, or `none` for false. -/
def stacksetup (pagesize : Word) (argv : List (List Byte)) (info : LFILoadInfo) :
    Vm L (Option Word) := do
  let stack_top := info.stack + info.stacksize
  match ← stackStrings stack_top (stack_top - ARG_BLOCK) argv [] with
  | none => pure none
  | some argv_ptrs =>
    let argc := BitVec.ofNat 64 argv.length
    let p_argc := stack_top - 2 * ARG_BLOCK
    stackStore stack_top p_argc argc
    let p_argvp := p_argc + 8
    let ok ← stackPointers stack_top p_argvp 0 argv_ptrs
    if ok then
      stackStore stack_top (p_argvp + 8 * argc) 0
      let p_envp := p_argvp + 8 * (argc + 1)
      stackStore stack_top p_envp 0
      stackAuxv stack_top (p_envp + 8)
        [(AT_SECURE, 0), (AT_BASE, info.ldbase), (AT_PHDR, info.elfbase + info.elfphoff),
         (AT_PHNUM, info.elfphnum.setWidth 64), (AT_PHENT, info.elfphentsize.setWidth 64),
         (AT_ENTRY, info.elfentry)]
      let execfn ← lfiAsToptr (← load64 p_argvp)
      stackAuxv stack_top (p_envp + 8 + 16 * 6)
        [(AT_EXECFN, execfn), (AT_PAGESZ, pagesize), (AT_HWCAP, 0), (AT_HWCAP2, 0)]
      let random ← lfiAsToptr (← load64 p_argvp)
      stackAuxv stack_top (p_envp + 8 + 16 * 10)
        [(AT_RANDOM, random), (AT_FLAGS, 0), (AT_UID, 1000), (AT_EUID, 1000), (AT_GID, 1000),
         (AT_EGID, 1000), (AT_SYSINFO, 0), (AT_SYSINFO_EHDR, 0), (AT_NULL, 0)]
      pure (some p_argc)
    else pure none

end

/-- The options of a `Tux` that the modelled functions read (C `struct TuxOptions`). -/
structure TuxOptions where
  pagesize : Word
  perf : Option Bool
  pauseOnExit : Bool

/-- The options `elfload` loads with. -/
def TuxOptions.load (opts : TuxOptions) : LFILoadOpts where
  stacksize := STACKSIZE
  pagesize := opts.pagesize
  perf := opts.perf

/-- A thread with the part of its process that setup fills in (C `struct TuxThread`,
`struct TuxProc` and `struct LFIContext`). -/
structure TuxThread (L : LibMMap) (M : Machine) where
  as : LFIAddrSpace L
  brkbase : Word
  brksize : Word
  regs : M.Regs
  /-- The sys page of the context. -/
  sys : Word
  tp : Word
  ctid : Word
  tid : CInt

section
variable {L : LibMMap} {M : Machine} (H : HostVm)

/-- A computation on a thread. -/
abbrev Setup (L : LibMMap) (M : Machine) := Exec Stop Ev (TuxThread L M)

/-- Run on the address space of the thread. -/
def onAs {α : Type} (x : Vm L α) : Setup L M α := Exec.zoom (·.as) (fun as p => { p with as }) x

/-- What is done to the address space of a thread. -/
lemma onAs_run {α : Type} (x : Vm L α) (p : TuxThread L M) :
    (onAs x).run p =
      ⟨(x.run p.as).val, { p with as := (x.run p.as).st }, (x.run p.as).out⟩ := by
  rw [onAs, Exec.zoom, Exec.mk_run]

/-- Inversion of a run on the address space. -/
lemma onAs_ok {α : Type} {x : Vm L α} {p : TuxThread L M} {a : α} (h : ((onAs x).run p).val = .ok a) :
    ∃ as out, x.run p.as = ⟨.ok a, as, out⟩ ∧ ((onAs x).run p).st = { p with as } := by
  rw [onAs_run] at h ⊢
  generalize x.run p.as = r at h ⊢
  obtain ⟨v, as, out⟩ := r
  cases h
  exact ⟨as, out, rfl, rfl⟩

/-- `elfload`. -/
def elfload (opts : TuxOptions) (prog : Buf) (interp : Option Buf) : Vm L (Option LFILoadInfo) :=
  lfiProcLoadelf H prog interp opts.load

/-- `procsetup`. -/
def procsetup (opts : TuxOptions) (prog : Buf) (interp : Option Buf) (argv : List (List Byte)) :
    Setup L M Bool := do
  match ← onAs (elfload H opts prog interp) with
  | none => pure false
  | some info =>
    match ← onAs (stacksetup opts.pagesize argv info) with
    | none => pure false
    | some sp =>
      let entry := if interp.isSome then info.ldentry else info.elfentry
      Exec.modify fun p =>
        { p with regs := M.regsInit p.regs entry sp, brkbase := info.lastva, brksize := 0 }
      let brkregion ← onAs (lfiAsMapat H info.lastva TUX_BRKMAXSIZE LFI_PROT_NONE none)
      if brkregion = mapFailed then pure false else pure true

/-- The registers of a new context (C `lfi_ctx_new`): zeros, as the context is a structure literal, and
then `lfi_regs_init`. Without `sysexternal`, which `lfi_new_plat` never sets, the sys page is at the
base. -/
def lfiCtxNew (as : LFIAddrSpace L) : M.Regs := M.lfiRegsInit M.zero as.info.base as.info.base

/-- The thread `procnewfile` hands to `procfile`. -/
def procnewfile (as : LFIAddrSpace L) (tid : CInt) : TuxThread L M where
  as
  brkbase := 0
  brksize := 0
  regs := lfiCtxNew as
  sys := as.info.base
  tp := 0
  ctid := 0
  tid

end
end Libtux
