import Libtux.Arch.InstrArm
import Libtux.Lib.Run

/-!
# The runtime of arm64

`src/pal/arch/arm64/runtime.S`, instruction by instruction, for hosts other than Apple's. `lfi_ctx_entry` saves
the callee-saved registers of the host, the lower halves of eight vector registers among them, on its stack and
leaves the stack pointer in the context; `lfi_syscall_entry` saves the registers of the guest in the context and
runs the handler on that stack; `lfi_asm_ctx_exit` and `lfi_ret` take the host's registers from it again. The
calls of the runtime go back to the lower half of `x30`, added to the base.

`Step` are the steps of a guest between its entry and its exit. Its own code never writes `REG_BASE`, which is
reserved. The handler is C code, of which only the calling convention is known and what it leaves alone
(`Spares`). Every word that the way back needs, to the host or to the sandbox, is in `Protected`, which no step
changes (`Entered.step`).
-/

namespace Libtux.Arm64
open Lib

/-- The offset of `regs` in `struct LFIContext`. -/
def PROC_REGS : Nat := 16

/-- The offset of `REG_BASE` in `struct TuxRegs`. -/
def REG_BASE_OFFSET : Nat := 21 * 8

/-- The register that has the base of the sandbox. -/
def regBase : Reg := .x REG_BASE

namespace Runtime

/-- The address of the context, through the variable of the thread. -/
def loadMyctx (dst : Reg) : List Instr := [
  .mrsTpidr dst,
  .addHi12 dst dst,
  .addLo12 dst dst,
  .ldr dst dst 0]

/-- What the calls of the runtime end with. -/
def goBack : List Instr := [
  .addUxtw (.x 30) regBase (.x 30),
  .ret]

/-- `GET_PROC`. -/
def getProc : List Instr := loadMyctx regBase

/-- `SAVE_PARTIAL_REGS`. -/
def savePartialRegs : List Instr := getProc ++ [
  .stp (.x 0) (.x 1) regBase (PROC_REGS + 16 * 0),
  .stp (.x 2) (.x 3) regBase (PROC_REGS + 16 * 1),
  .stp (.x 4) (.x 5) regBase (PROC_REGS + 16 * 2),
  .stp (.x 6) (.x 7) regBase (PROC_REGS + 16 * 3),
  .stp (.x 8) (.x 9) regBase (PROC_REGS + 16 * 4),
  .stp (.x 10) (.x 11) regBase (PROC_REGS + 16 * 5),
  .stp (.x 12) (.x 13) regBase (PROC_REGS + 16 * 6),
  .stp (.x 14) (.x 15) regBase (PROC_REGS + 16 * 7),
  .stp (.x 16) (.x 17) regBase (PROC_REGS + 16 * 8),
  .str (.x 18) regBase (PROC_REGS + 16 * 9),
  .mov (.x 1) .sp,
  .stp (.x 30) (.x 1) regBase (PROC_REGS + 16 * 15)]

/-- `lfi_restore_regs`. The vector registers are loaded from 8 bytes after the start of theirs in
`struct TuxRegs`. -/
def lfiRestoreRegs : List Instr := [
  .ldp (.x 2) (.x 3) (.x 0) (PROC_REGS + 16 * 1),
  .ldp (.x 4) (.x 5) (.x 0) (PROC_REGS + 16 * 2),
  .ldp (.x 6) (.x 7) (.x 0) (PROC_REGS + 16 * 3),
  .ldp (.x 8) (.x 9) (.x 0) (PROC_REGS + 16 * 4),
  .ldp (.x 10) (.x 11) (.x 0) (PROC_REGS + 16 * 5),
  .ldp (.x 12) (.x 13) (.x 0) (PROC_REGS + 16 * 6),
  .ldp (.x 14) (.x 15) (.x 0) (PROC_REGS + 16 * 7),
  .ldp (.x 16) (.x 17) (.x 0) (PROC_REGS + 16 * 8),
  .ldp (.x 18) (.x 19) (.x 0) (PROC_REGS + 16 * 9),
  .ldp (.x 20) (.x 21) (.x 0) (PROC_REGS + 16 * 10),
  .ldp (.x 22) (.x 23) (.x 0) (PROC_REGS + 16 * 11),
  .ldp (.x 24) (.x 25) (.x 0) (PROC_REGS + 16 * 12),
  .ldp (.x 26) (.x 27) (.x 0) (PROC_REGS + 16 * 13),
  .ldp (.x 28) (.x 29) (.x 0) (PROC_REGS + 16 * 14),
  .ldp (.x 30) (.x 1) (.x 0) (PROC_REGS + 16 * 15),
  .moviZero 0,
  .moviZero 1,
  .moviZero 2,
  .moviZero 3,
  .moviZero 4,
  .moviZero 5,
  .moviZero 6,
  .moviZero 7,
  .ldpQ 8 9 (.x 0) (PROC_REGS + 16 * 18 + 8 * 16),
  .ldpQ 10 11 (.x 0) (PROC_REGS + 16 * 18 + 10 * 16),
  .ldpQ 12 13 (.x 0) (PROC_REGS + 16 * 18 + 12 * 16),
  .ldpQ 14 15 (.x 0) (PROC_REGS + 16 * 18 + 14 * 16),
  .moviZero 16,
  .moviZero 17,
  .moviZero 18,
  .moviZero 19,
  .moviZero 20,
  .moviZero 21,
  .moviZero 22,
  .moviZero 23,
  .moviZero 24,
  .moviZero 25,
  .moviZero 26,
  .moviZero 27,
  .moviZero 28,
  .moviZero 29,
  .moviZero 30,
  .moviZero 31,
  .mov .sp (.x 1),
  .ldp (.x 0) (.x 1) (.x 0) (PROC_REGS + 16 * 0),
  .ret]

/-- `lfi_ctx_entry`, which goes on with `lfi_restore_regs`. -/
def lfiCtxEntry : List Instr := [
  .stpPre (.d 8) (.d 9) 16,
  .stpPre (.d 10) (.d 11) 16,
  .stpPre (.d 12) (.d 13) 16,
  .stpPre (.d 14) (.d 15) 16,
  .stpPre (.x 19) (.x 20) 16,
  .stpPre (.x 21) (.x 22) 16,
  .stpPre (.x 23) (.x 24) 16,
  .stpPre (.x 25) (.x 26) 16,
  .stpPre (.x 27) (.x 28) 16,
  .stpPre (.x 29) (.x 30) 16,
  .mov (.x 2) .sp,
  .str (.x 2) (.x 1) 0] ++ lfiRestoreRegs

/-- What `lfi_asm_ctx_exit` and `lfi_ret` end with. -/
def popCalleeSaved : List Instr := [
  .ldpPost (.x 29) (.x 30) 16,
  .ldpPost (.x 27) (.x 28) 16,
  .ldpPost (.x 25) (.x 26) 16,
  .ldpPost (.x 23) (.x 24) 16,
  .ldpPost (.x 21) (.x 22) 16,
  .ldpPost (.x 19) (.x 20) 16,
  .ldpPost (.d 14) (.d 15) 16,
  .ldpPost (.d 12) (.d 13) 16,
  .ldpPost (.d 10) (.d 11) 16,
  .ldpPost (.d 8) (.d 9) 16]

/-- `lfi_asm_ctx_exit`. -/
def lfiAsmCtxExit : List Instr := [
  .mov .sp (.x 0),
  .mov (.x 0) (.x 1)] ++ popCalleeSaved ++ [.ret]

/-- `lfi_ret`. -/
def lfiRet : List Instr := getProc ++ [
  .ldr (.x 22) (.x 21) 0,
  .mov .sp (.x 22)] ++ popCalleeSaved ++ [.br (.x 30)]

/-- `lfi_get_tp`. -/
def lfiGetTp : List Instr := loadMyctx (.x 0) ++ [.ldr (.x 0) (.x 0) 8] ++ goBack

/-- `lfi_set_tp`. -/
def lfiSetTp : List Instr := getProc ++ [
  .str (.x 0) regBase 8,
  .ldr regBase regBase (PROC_REGS + REG_BASE_OFFSET)] ++ goBack

/-- `lfi_syscall_entry` up to the call of the handler. `next` is the address of the instruction after it. -/
def lfiSyscallEntry (next : Word) : List Instr := savePartialRegs ++ [
  .ldr (.x 1) regBase 0,
  .mov .sp (.x 1),
  .strPre regBase 16,
  .mov (.x 0) regBase,
  .bl next]

/-- The loads of `lfi_restore_partial_regs`. -/
def loadPartialRegs : List Instr := [
  .ldp (.x 2) (.x 3) (.x 0) (PROC_REGS + 16 * 1),
  .ldp (.x 4) (.x 5) (.x 0) (PROC_REGS + 16 * 2),
  .ldp (.x 6) (.x 7) (.x 0) (PROC_REGS + 16 * 3),
  .ldp (.x 8) (.x 9) (.x 0) (PROC_REGS + 16 * 4),
  .ldp (.x 10) (.x 11) (.x 0) (PROC_REGS + 16 * 5),
  .ldp (.x 12) (.x 13) (.x 0) (PROC_REGS + 16 * 6),
  .ldp (.x 14) (.x 15) (.x 0) (PROC_REGS + 16 * 7),
  .ldp (.x 16) (.x 17) (.x 0) (PROC_REGS + 16 * 8),
  .ldr (.x 18) (.x 0) (PROC_REGS + 16 * 9),
  .ldr regBase (.x 0) (PROC_REGS + REG_BASE_OFFSET),
  .ldp (.x 30) (.x 1) (.x 0) (PROC_REGS + 16 * 15),
  .mov .sp (.x 1),
  .ldp (.x 0) (.x 1) (.x 0) (PROC_REGS + 16 * 0)]

/-- `lfi_restore_partial_regs`. -/
def lfiRestorePartialRegs : List Instr := loadPartialRegs ++ goBack

/-- `lfi_syscall_entry` after the call of the handler. -/
def lfiSyscallReturn : List Instr := .ldrPost (.x 0) 16 :: lfiRestorePartialRegs

end Runtime

/-- The registers that a callee leaves alone, other than the stack pointer. -/
def calleeSaved : List Reg := [
  .x 19, .x 20, .x 21, .x 22, .x 23, .x 24, .x 25, .x 26, .x 27, .x 28, .x 29,
  .d 8, .d 9, .d 10, .d 11, .d 12, .d 13, .d 14, .d 15]

/-- The pairs that `lfi_ctx_entry` pushes. -/
def framePairs : List (Reg × Reg) := [
  (.d 8, .d 9), (.d 10, .d 11), (.d 12, .d 13), (.d 14, .d 15), (.x 19, .x 20), (.x 21, .x 22), (.x 23, .x 24),
  (.x 25, .x 26), (.x 27, .x 28), (.x 29, .x 30)]

/-- The slots of the kernel stack, of eight bytes, that `lfi_ctx_entry` stores to. -/
def frameRegs : List (Nat × Reg) := pushSlots framePairs

/-- The pairs that `SAVE_PARTIAL_REGS` stores, with their slots of the context. -/
def partialPairs : List (Nat × Reg × Reg) := [
  (2, .x 0, .x 1), (4, .x 2, .x 3), (6, .x 4, .x 5), (8, .x 6, .x 7), (10, .x 8, .x 9), (12, .x 10, .x 11),
  (14, .x 12, .x 13), (16, .x 14, .x 15), (18, .x 16, .x 17)]

/-- The slots of the context that `SAVE_PARTIAL_REGS` stores to. -/
def partialRegs : List (Nat × Reg) := pairSlots partialPairs ++ [(20, .x 18), (32, .x 30), (33, .sp)]

/-- Where the context, `lfi_myctx` and the stack of the host are when `lfi_ctx_entry` is called. -/
structure Place where
  T : Tls
  /-- The context. -/
  ctx : Word
  /-- The stack pointer. -/
  sp : Word
  /-- The base of the sandbox. -/
  base : Word
  /-- The memory that the code of the guest writes to. -/
  sandbox : Word → Prop

namespace Place

/-- The kernel stack: the ten pairs that are saved are above it. -/
def kstackp (P : Place) : Word := P.sp - 160

/-- `kstackp`, `tp` and `regs` of the context. -/
def inCtx (P : Place) (x : Word) : Prop := x - P.ctx < 808

/-- `tp` of the context. -/
def inTp (P : Place) (x : Word) : Prop := x - (P.ctx + 8) < 8

/-- The result of a syscall in the context. -/
def inX0 (P : Place) (x : Word) : Prop := x - (P.ctx + 16) < 8

/-- `REG_BASE` in the context. -/
def inBase (P : Place) (x : Word) : Prop := x - (P.ctx + 184) < 8

/-- `lfi_myctx`. -/
def inTls (P : Place) (x : Word) : Prop := x - P.T.myctx < 8

/-- The saved registers. -/
def inFrame (P : Place) (x : Word) : Prop := x - P.kstackp < 160

/-- The part of the stack that the runtime uses, with what a syscall takes. -/
def inStack (P : Place) (x : Word) : Prop := x - (P.kstackp - 16) < 176

/-- The context, the variable and the stack are apart from each other and from the sandbox. -/
structure Apart (P : Place) : Prop where
  stack_ctx : ∀ x, P.inStack x → ¬ P.inCtx x
  stack_tls : ∀ x, P.inStack x → ¬ P.inTls x
  ctx_tls : ∀ x, P.inCtx x → ¬ P.inTls x
  sandbox : ∀ x, P.sandbox x → ¬ P.inFrame x ∧ ¬ P.inCtx x ∧ ¬ P.inTls x

/-- What the ways back need: the frame, `kstackp`, the base and `lfi_myctx`. -/
def Protected (P : Place) (x : Word) : Prop := P.inFrame x ∨ x - P.ctx < 8 ∨ P.inBase x ∨ P.inTls x

end Place

/-- The call of `lfi_ctx_entry` by `lfi_ctx_run`, after `lfi_regs_init`. -/
structure Called (P : Place) (s0 : State) : Prop where
  apart : P.Apart
  x0 : s0.reg (.x 0) = P.ctx
  x1 : s0.reg (.x 1) = P.ctx
  sp : s0.sp = P.sp
  myctx : s0.load P.T.myctx = P.ctx
  base : (LFIContext.read s0.load P.ctx).regs.x REG_BASE = P.base

/-- What C code that was called with the stack pointer `sp` leaves alone: the frames of its callers, and the
context but for the result of the syscall and the thread pointer. -/
structure Spares (P : Place) (sp : Word) (mem mem' : Word → Byte) : Prop where
  frames : ∀ x, x - sp < P.sp - sp → mem' x = mem x
  ctx : ∀ x, P.inCtx x → ¬ P.inX0 x → ¬ P.inTp x → mem' x = mem x

/-- The handler, from its first instruction to its return. -/
structure Handles (P : Place) (s h : State) : Prop where
  sp : h.sp = s.sp
  saved : ∀ r ∈ calleeSaved, h.reg r = s.reg r
  spares : Spares P s.sp s.mem h.mem
  myctx : ∀ x, P.inTls x → h.mem x = s.mem x

/-- What a guest does. -/
inductive Ev where
  | code
  | syscall
  | getTp
  | setTp
  deriving DecidableEq

/-- A step of a guest: its own code, which writes to the sandbox only and does not write `REG_BASE`, or a call of
the runtime. -/
inductive Step (P : Place) (next : Word) (s : State) : Ev → State → Prop where
  | code {s' : State} : (∀ x, ¬ P.sandbox x → s'.mem x = s.mem x) → s'.reg regBase = s.reg regBase →
    Step P next s .code s'
  | syscall {h : State} : Handles P (run P.T (Runtime.lfiSyscallEntry next) s) h →
    Step P next s .syscall (run P.T Runtime.lfiSyscallReturn h)
  | getTp : Step P next s .getTp (run P.T Runtime.lfiGetTp s)
  | setTp : Step P next s .setTp (run P.T Runtime.lfiSetTp s)

/-- The end of a run with its value: the guest calls `lfi_ret`, or the handler, which may clear `lfi_myctx`,
calls `lfi_asm_ctx_exit` with the kernel stack of the context. -/
inductive Ends (P : Place) (next : Word) (s : State) : Word → State → Prop where
  | ret : Ends P next s (s.reg (.x 0)) (run P.T Runtime.lfiRet s)
  | exit {h : State} :
    Spares P (run P.T (Runtime.lfiSyscallEntry next) s).sp (run P.T (Runtime.lfiSyscallEntry next) s).mem h.mem →
    h.reg (.x 0) = (LFIContext.read h.load P.ctx).kstackp →
    Ends P next s (h.reg (.x 1)) (run P.T Runtime.lfiAsmCtxExit h)

/-- Back from a call of the runtime: at the return address as the sandbox masks it, with the base. -/
structure Back (P : Place) (s s' : State) : Prop where
  x30 : s'.reg (.x 30) = P.base + uxtw (s.reg (.x 30))
  pc : s'.pc = s'.reg (.x 30)
  base : s'.reg regBase = P.base

/-- The stack pointer, the integer registers, and the lower halves of the vector registers that callees save.
The runtime itself saves no vector register (`TODO: save SIMD registers`). -/
def kept : List Reg := .sp :: (List.finRange 31).map .x ++ [.d 8, .d 9, .d 10, .d 11, .d 12, .d 13, .d 14, .d 15]

/-- After a syscall the guest has its registers as before, but for `x0`, which the handler left in the context,
`x30`, and the vector registers that callees do not save. -/
structure Resumes (P : Place) (s s' : State) : Prop where
  back : Back P s s'
  x0 : s'.reg (.x 0) = (LFIContext.read s'.load P.ctx).regs.x 0
  other : ∀ r ∈ kept, r ≠ .x 0 → r ≠ .x 30 → s'.reg r = s.reg r

/-- The thread pointer of the context is in `x0`. -/
structure GetsTp (P : Place) (s s' : State) : Prop where
  back : Back P s s'
  x0 : s'.reg (.x 0) = (LFIContext.read s.load P.ctx).tp
  other : ∀ r, r ≠ .x 0 → r ≠ .x 30 → s'.reg r = s.reg r
  mem : s'.mem = s.mem

/-- `x0` is the thread pointer of the context. -/
structure SetsTp (P : Place) (s s' : State) : Prop where
  back : Back P s s'
  tp : (LFIContext.read s'.load P.ctx).tp = s.reg (.x 0)
  other : ∀ r, r ≠ .x 30 → s'.reg r = s.reg r
  mem : ∀ x, ¬ P.inTp x → s'.mem x = s.mem x

/-- Back in the host, after the call of `lfi_ctx_entry` in the state `s0`. -/
structure Returned (s0 : State) (v : Word) (s' : State) : Prop where
  pc : s'.pc = s0.reg (.x 30)
  sp : s'.sp = s0.sp
  x0 : s'.reg (.x 0) = v
  saved : ∀ r ∈ calleeSaved, s'.reg r = s0.reg r

/-! ## The programs -/

/-- The last value of a register counts. -/
lemma State.set_set (s : State) (r : Reg) (v w : Word) : (s.set r v).set r w = s.set r w := by
  cases r with
  | x i =>
    refine congrArg (fun f => ({ s with x := f } : State)) (funext fun j => ?_)
    by_cases h : j = i
    · simp [h]
    · simp [State.set, h]
  | sp => rfl
  | d i =>
    refine congrArg (fun f => ({ s with vec := f } : State)) (funext fun j => ?_)
    by_cases h : j = i
    · simp [h]
    · simp [State.set, State.setVec, h]

/-- The context is found through the variable of the thread. -/
lemma loadMyctx_run (T : Tls) (dst : Reg) (s : State) :
    run T (Runtime.loadMyctx dst) s = s.set dst (s.load T.myctx) := by
  have hexec : run T (Runtime.loadMyctx dst) s = (Instr.ldr dst dst 0).exec T ((Instr.addLo12 dst dst).exec T
      ((Instr.addHi12 dst dst).exec T (s.set dst T.tpidr))) := rfl
  rw [hexec]
  simp only [Instr.exec, State.reg_set_self, State.set_set, State.set_load, T.add_hi12_lo12]
  exact congrArg (fun p => s.set dst (s.load p)) (BitVec.add_zero T.myctx)

/-- A store leaves the registers. -/
lemma State.store_reg (s : State) (p v : Word) (r : Reg) : (s.store p v).reg r = s.reg r := by cases r <;> rfl

/-- They do not depend on memory, -/
lemma State.mem_reg (s : State) (mem : Word → Byte) (r : Reg) : ({ s with mem } : State).reg r = s.reg r := by
  cases r <;> rfl

/-- nor on the program counter. -/
lemma State.pc_reg (s : State) (pc : Word) (r : Reg) : ({ s with pc } : State).reg r = s.reg r := by
  cases r <;> rfl

/-- `lfi_restore_regs` loads the registers of the context. -/
lemma lfiRestoreRegs_cpu (T : Tls) (s : State) : (run T Runtime.lfiRestoreRegs s).cpu =
    Arm64.lfiRestoreRegs (LFIContext.read s.load (s.reg (.x 0))).regs := by
  have hslot : ∀ i : Nat, s.reg (.x 0) + 16 + BitVec.ofNat 64 (8 * i) =
      s.reg (.x 0) + BitVec.ofNat 64 (16 + 8 * i) := by
    intro i
    rw [BitVec.add_assoc, BitVec.ofNat_add]
    rfl
  have hx : (run T Runtime.lfiRestoreRegs s).x = (LFIContext.read s.load (s.reg (.x 0))).regs.x := by
    funext i
    simp only [LFIContext.read, TuxRegs.read, hslot]
    fin_cases i <;> rfl
  have hsp : (run T Runtime.lfiRestoreRegs s).sp = (LFIContext.read s.load (s.reg (.x 0))).regs.sp :=
    congrArg s.load (hslot 31).symm
  simp only [State.cpu, Arm64.lfiRestoreRegs, hx, hsp]
  exact congrArg (Cpu.mk _ _) (congrFun hx 30)

/-- `lfi_restore_regs` stores nothing. -/
lemma lfiRestoreRegs_mem (T : Tls) (s : State) : (run T Runtime.lfiRestoreRegs s).mem = s.mem := rfl

/-- `SAVE_PARTIAL_REGS` stores to the context, and leaves its address in `REG_BASE`. -/
lemma savePartialRegs_run (T : Tls) {s : State} {c : Word} (hc : s.load T.myctx = c) :
    run T Runtime.savePartialRegs s =
      { (s.set regBase c).set (.x 1) s.sp with mem := putSlots s.mem c (s.slots partialRegs) } := by
  have hprog : Runtime.savePartialRegs = Runtime.loadMyctx regBase ++
      (partialPairs.map (fun a => .stp a.2.1 a.2.2 regBase (8 * a.1)) ++
        [.str (.x 18) regBase (8 * 20), .mov (.x 1) .sp, .stp (.x 30) (.x 1) regBase (8 * 32)]) := rfl
  have hslots : (s.set regBase c).slots (pairSlots partialPairs) = s.slots (pairSlots partialPairs) := rfl
  have hbase : (s.set regBase c).reg regBase = c := rfl
  rw [hprog, run_append, loadMyctx_run, hc, run_append, run_stps, hslots, hbase]
  rfl

/-- `lfi_ctx_entry` stores the frame, and where it is. -/
lemma lfiCtxEntry_mem (T : Tls) (s : State) : (run T Runtime.lfiCtxEntry s).mem =
    splice (putSlots s.mem (s.sp - 160) (s.slots frameRegs)) (s.reg (.x 1)) 8 (bytes64 (s.sp - 160)) := by
  have hprog : Runtime.lfiCtxEntry = (framePairs.map (fun a => .stpPre a.1 a.2 16) ++
      [.mov (.x 2) .sp, .str (.x 2) (.x 1) 0]) ++ Runtime.lfiRestoreRegs := rfl
  have hk : s.sp = s.sp - 160 + BitVec.ofNat 64 (16 * framePairs.length) := (BitVec.sub_add_cancel s.sp 160).symm
  rw [hprog, run_append, lfiRestoreRegs_mem, run_append, run_pushes T (by decide) hk]
  exact congrArg (fun p => splice _ p _ _) (BitVec.add_zero _)

/-- The memory when the handler is called: the registers are in the context `c`, and its address is on the kernel
stack `k`. -/
def syscallMem (s : State) (c k : Word) : Word → Byte :=
  splice (putSlots s.mem c (s.slots partialRegs)) (k - 16) 8 (bytes64 c)

/-- The registers that a call changes before the handler. -/
def scratch : List Reg := [.x 0, .x 1, regBase, .x 30, .sp]

/-- The state at the entry of the handler. -/
lemma lfiSyscallEntry_run (T : Tls) (next : Word) {s : State} {c k : Word} (hc : s.load T.myctx = c)
    (hk : le (putSlots s.mem c (s.slots partialRegs)) c 8 64 = k) :
    (run T (Runtime.lfiSyscallEntry next) s).mem = syscallMem s c k ∧
      (run T (Runtime.lfiSyscallEntry next) s).sp = k - 16 ∧
      ∀ r ∉ scratch, (run T (Runtime.lfiSyscallEntry next) s).reg r = s.reg r := by
  have hprog : Runtime.lfiSyscallEntry next = Runtime.savePartialRegs ++
      [.ldr (.x 1) regBase 0, .mov .sp (.x 1), .strPre regBase 16, .mov (.x 0) regBase, .bl next] := rfl
  rw [hprog, run_append, savePartialRegs_run T hc]
  generalize hs1 : ({ (s.set regBase c).set (.x 1) s.sp with mem := putSlots s.mem c (s.slots partialRegs) } : State)
    = s1
  have hstack : s1.load (s1.reg regBase + BitVec.ofNat 64 0) = k := by
    rw [← hs1, ← hk]
    exact congrArg (fun p => le (putSlots s.mem c (s.slots partialRegs)) p 8 64) (BitVec.add_zero c)
  have hreg : ∀ r ∉ scratch, s1.reg r = s.reg r := by
    intro r hr
    simp only [scratch, List.mem_cons, List.not_mem_nil, or_false, not_or] at hr
    have hset : s1.reg r = ((s.set regBase c).set (.x 1) s.sp).reg r := by
      rw [← hs1, State.mem_reg]
    rw [hset, State.reg_set_ne _ hr.2.1, State.reg_set_ne _ hr.2.2.1]
  -- the kernel stack is entered, the context is pushed, and the handler is called with it
  have henter : run T [.ldr (.x 1) regBase 0, .mov .sp (.x 1)] s1 = (s1.set (.x 1) k).set .sp k := by
    rw [← hstack]
    rfl
  have hpush : ∀ t : State, run T [.strPre regBase 16] t =
      (t.set .sp (t.sp - 16)).store (t.sp - 16) (t.reg regBase) := fun _ => rfl
  have hcall : ∀ t : State, run T [.mov (.x 0) regBase, .bl next] t =
      (t.set (.x 0) (t.reg regBase)).set (.x 30) next := fun _ => rfl
  have hsplit : [.ldr (.x 1) regBase 0, .mov .sp (.x 1), .strPre regBase 16, .mov (.x 0) regBase, .bl next] =
      [Instr.ldr (.x 1) regBase 0, .mov .sp (.x 1)] ++ ([.strPre regBase 16] ++ [.mov (.x 0) regBase, .bl next]) := rfl
  rw [hsplit, run_append, run_append, henter, hpush, hcall]
  refine ⟨?_, rfl, fun r hr => ?_⟩
  · rw [← hs1]
    rfl
  · rw [← hreg r hr]
    simp only [scratch, List.mem_cons, List.not_mem_nil, or_false, not_or] at hr
    obtain ⟨h0, h1, -, h30, hsp⟩ := hr
    rw [State.reg_set_ne _ h30, State.reg_set_ne _ h0, State.store_reg, State.reg_set_ne _ hsp,
      State.reg_set_ne _ hsp, State.reg_set_ne _ h1]

/-- Back at the lower half of `x30` from `b` on. -/
def State.backTo (s : State) (b : Word) : State :=
  { s.set (.x 30) (b + uxtw (s.reg (.x 30))) with pc := b + uxtw (s.reg (.x 30)) }

/-- The return address is masked, -/
lemma State.backTo_x30 (s : State) (b : Word) : (s.backTo b).reg (.x 30) = b + uxtw (s.reg (.x 30)) := rfl

/-- the other registers stay, -/
lemma State.backTo_reg (s : State) (b : Word) {r : Reg} (hr : r ≠ .x 30) : (s.backTo b).reg r = s.reg r := by
  rw [backTo, pc_reg, reg_set_ne _ hr]

/-- and so does memory. -/
lemma State.backTo_mem (s : State) (b : Word) : (s.backTo b).mem = s.mem := rfl

/-- The base is what `REG_BASE` has. -/
lemma goBack_run (T : Tls) (s : State) : run T Runtime.goBack s = s.backTo (s.reg regBase) := rfl

/-- `lfi_restore_partial_regs` up to the masking of the return address. -/
def restored (T : Tls) (s : State) : State := run T (.ldrPost (.x 0) 16 :: Runtime.loadPartialRegs) s

/-- What was saved is loaded from the context `c`, and `REG_BASE`. -/
lemma restored_reg (T : Tls) {s : State} {c : Word} (hc : s.load s.sp = c) :
    ∀ a ∈ (23, regBase) :: partialRegs, (restored T s).reg a.2 = s.load (c + BitVec.ofNat 64 (8 * a.1)) := by
  subst hc
  simp only [partialRegs, pairSlots, partialPairs, List.flatMap_cons, List.flatMap_nil, List.cons_append,
    List.nil_append, List.forall_mem_cons]
  exact ⟨rfl, rfl, rfl, rfl, rfl, rfl, rfl, rfl, rfl, rfl, rfl, rfl, rfl, rfl, rfl, rfl, rfl, rfl, rfl, rfl, rfl,
    rfl, fun _ h => absurd h List.not_mem_nil⟩

/-- The way back of a syscall. -/
lemma lfiSyscallReturn_run (T : Tls) (s : State) :
    run T Runtime.lfiSyscallReturn s = (restored T s).backTo ((restored T s).reg regBase) := by
  rw [Runtime.lfiSyscallReturn, Runtime.lfiRestorePartialRegs, ← List.cons_append, run_append, goBack_run]
  rfl

/-- The registers that the handler gives back to the guest. -/
lemma restored_kept (T : Tls) (s : State) : ∀ r ∈ calleeSaved, r ≠ regBase → (restored T s).reg r = s.reg r := by
  simp only [calleeSaved, List.forall_mem_cons]
  exact ⟨fun _ => rfl, fun _ => rfl, fun h => absurd rfl h, fun _ => rfl, fun _ => rfl, fun _ => rfl, fun _ => rfl,
    fun _ => rfl, fun _ => rfl, fun _ => rfl, fun _ => rfl, fun _ => rfl, fun _ => rfl, fun _ => rfl, fun _ => rfl,
    fun _ => rfl, fun _ => rfl, fun _ => rfl, fun _ => rfl, fun _ h => absurd h List.not_mem_nil⟩

/-- It stores nothing. -/
lemma restored_mem (T : Tls) (s : State) : (restored T s).mem = s.mem := rfl

/-- `lfi_get_tp` loads the thread pointer. -/
lemma lfiGetTp_run (T : Tls) {s : State} {c : Word} (hc : s.load T.myctx = c) :
    run T Runtime.lfiGetTp s = (s.set (.x 0) (s.load (c + 8))).backTo (s.reg regBase) := by
  rw [Runtime.lfiGetTp, run_append, run_append, loadMyctx_run, hc, goBack_run, ← s.set_set (.x 0) c (s.load (c + 8))]
  rfl

/-- The state after the store of the thread pointer. -/
def State.setTp (s : State) (c b : Word) : State :=
  { s.set regBase b with mem := splice s.mem (c + 8) 8 (bytes64 (s.reg (.x 0))) }

/-- `lfi_set_tp` stores it, and loads `REG_BASE` again. -/
lemma lfiSetTp_run (T : Tls) {s : State} {c b : Word} (hc : s.load T.myctx = c)
    (hb : le (splice s.mem (c + 8) 8 (bytes64 (s.reg (.x 0)))) (c + 184) 8 64 = b) :
    run T Runtime.lfiSetTp s = (s.setTp c b).backTo b := by
  rw [Runtime.lfiSetTp, Runtime.getProc, run_append, run_append, loadMyctx_run, hc, goBack_run, State.setTp,
    ← s.set_set regBase c b, ← hb]
  rfl

/-- The words that are popped are one after the other. -/
lemma popCalleeSaved_popped (T : Tls) (s : State) :
    Popped framePairs.reverse s (run T Runtime.popCalleeSaved s) :=
  run_pops T (by decide) (by decide) s

/-- The frame is popped. -/
lemma frameRegs_popSlots : ∀ a ∈ frameRegs, a ∈ popSlots framePairs.reverse := by decide

/-- The way back to the host, from the kernel stack. -/
lemma popCalleeSaved_returned (T : Tls) {s0 s : State} {k : Word} (hk : s.sp = k) (hsp : s0.sp = k + 160)
    (hframe : ∀ a ∈ frameRegs, s.load (k + BitVec.ofNat 64 (8 * a.1)) = s0.reg a.2) {s' : State}
    (hs' : s' = { run T Runtime.popCalleeSaved s with pc := (run T Runtime.popCalleeSaved s).reg (.x 30) }) :
    Returned s0 (s.reg (.x 0)) s' := by
  have hpop := popCalleeSaved_popped T s
  have hreg : ∀ a ∈ frameRegs, (run T Runtime.popCalleeSaved s).reg a.2 = s0.reg a.2 := by
    intro a ha
    rw [hpop.slot a (frameRegs_popSlots a ha), hk]
    exact hframe a ha
  have hsame : ∀ r, s'.reg r = (run T Runtime.popCalleeSaved s).reg r := by
    intro r
    rw [hs', State.pc_reg]
  constructor
  case pc =>
    rw [hs']
    exact hreg (1, .x 30) (by decide)
  case sp =>
    have h : s'.sp = (run T Runtime.popCalleeSaved s).sp := hsame .sp
    rw [h, hpop.sp, hk, hsp]
    rfl
  case x0 =>
    rw [hsame]
    exact hpop.other (.x 0) (by decide) (by decide)
  case saved =>
    intro r hr
    have hmem : ∀ r ∈ calleeSaved, ∃ a ∈ frameRegs, a.2 = r := by decide
    obtain ⟨a, ha, rfl⟩ := hmem r hr
    rw [hsame]
    exact hreg a ha

/-! ## The invariant -/

/-- Between the entry and the exit, the way back to the host is where `lfi_ctx_entry` left it, and that to the
sandbox is in `REG_BASE` and in the context. -/
structure Entered (P : Place) (s0 s : State) : Prop where
  myctx : s.load P.T.myctx = P.ctx
  kstackp : s.load P.ctx = P.kstackp
  frame : ∀ a ∈ frameRegs, s.load (P.kstackp + BitVec.ofNat 64 (8 * a.1)) = s0.reg a.2
  base : s.load (P.ctx + 184) = P.base
  reg : s.reg regBase = P.base

/-- The frame has twenty words. -/
lemma frameRegs_lt : ∀ a ∈ frameRegs, a.1 < 20 := by decide

section
variable {P : Place} {s0 s s' : State} {next : Word}

/-- They are in it. -/
lemma Place.inFrame_of_slot {i : Nat} {x : Word} (hi : i < 20)
    (hx : x - (P.kstackp + BitVec.ofNat 64 (8 * i)) < 8) : P.inFrame x := by
  unfold inFrame
  bv_omega

/-- The frame is on the kernel stack. -/
lemma Place.inStack_of_inFrame {x : Word} (hx : P.inFrame x) : P.inStack x := by
  unfold inFrame at hx
  unfold inStack
  bv_omega

/-- `kstackp` is neither the result of a syscall nor the thread pointer. -/
lemma Place.kstackp_kept {x : Word} (hx : x - P.ctx < 8) : P.inCtx x ∧ ¬ P.inX0 x ∧ ¬ P.inTp x := by
  unfold inCtx inX0 inTp
  refine ⟨?_, ?_, ?_⟩
  · bv_omega
  · bv_omega
  · bv_omega

/-- Nor is the base. -/
lemma Place.base_kept {x : Word} (hx : P.inBase x) : P.inCtx x ∧ ¬ P.inX0 x ∧ ¬ P.inTp x := by
  unfold inBase at hx
  unfold inCtx inX0 inTp
  refine ⟨?_, ?_, ?_⟩
  · bv_omega
  · bv_omega
  · bv_omega

/-- The words of the context. -/
lemma Place.inCtx_of_slot {i : Nat} {x : Word} (hi : i < 100) (hx : x - (P.ctx + BitVec.ofNat 64 (8 * i)) < 8) :
    P.inCtx x := by
  unfold inCtx
  bv_omega

/-- What is protected is all that counts. -/
lemma Entered.keep (h : Entered P s0 s) (hs : ∀ x, P.Protected x → s'.mem x = s.mem x)
    (hreg : s'.reg regBase = P.base) : Entered P s0 s' where
  myctx := (load_congr fun x hx => hs x (.inr (.inr (.inr hx)))).trans h.myctx
  kstackp := (load_congr fun x hx => hs x (.inr (.inl hx))).trans h.kstackp
  frame a ha := (load_congr fun x hx => hs x (.inl (Place.inFrame_of_slot (frameRegs_lt a ha) hx))).trans (h.frame a ha)
  base := (load_congr fun x hx => hs x (.inr (.inr (.inl hx)))).trans h.base
  reg := hreg

/-- `lfi_ctx_entry` loads the registers of the context from the memory that it leaves. -/
lemma lfiCtxEntry_cpu (T : Tls) (s : State) : (run T Runtime.lfiCtxEntry s).cpu =
    Arm64.lfiRestoreRegs (LFIContext.read (run T Runtime.lfiCtxEntry s).load (s.reg (.x 0))).regs := by
  have hprog : Runtime.lfiCtxEntry = (framePairs.map (fun a => .stpPre a.1 a.2 16) ++
      [.mov (.x 2) .sp, .str (.x 2) (.x 1) 0]) ++ Runtime.lfiRestoreRegs := rfl
  have hk : s.sp = s.sp - 160 + BitVec.ofNat 64 (16 * framePairs.length) := (BitVec.sub_add_cancel s.sp 160).symm
  rw [hprog, run_append, lfiRestoreRegs_cpu]
  generalize ht : run T (framePairs.map (fun a => .stpPre a.1 a.2 16) ++ [.mov (.x 2) .sp, .str (.x 2) (.x 1) 0]) s = t
  have hx0 : t.reg (.x 0) = s.reg (.x 0) := by
    rw [← ht, run_append, run_pushes T (by decide) hk]
    rfl
  have hload : (run T Runtime.lfiRestoreRegs t).load = t.load := by
    funext p
    rw [State.load, lfiRestoreRegs_mem]
    rfl
  rw [hx0, hload]

/-- `lfi_ctx_entry` leaves the ways back. -/
lemma Called.entered (h : Called P s0) : Entered P s0 (run P.T Runtime.lfiCtxEntry s0) := by
  have hk : s0.sp - 160 = P.kstackp := by
    rw [h.sp]
    rfl
  have hmem := lfiCtxEntry_mem P.T s0
  rw [hk, h.x1] at hmem
  -- the pairs are in the frame, which is apart from the context and the variable
  have hout : ∀ x, ¬ P.inFrame x → putSlots s0.mem P.kstackp (s0.slots frameRegs) x = s0.mem x := by
    intro x hx
    refine putSlots_outside fun a ha hpush => hx ?_
    obtain ⟨b, hb, rfl⟩ := List.mem_map.mp ha
    exact Place.inFrame_of_slot (frameRegs_lt b hb) hpush
  have hbase : (run P.T Runtime.lfiCtxEntry s0).load (P.ctx + 184) = P.base := by
    refine (load_congr fun x hx => ?_).trans ((congrArg s0.load ?_).trans h.base)
    · rw [hmem, splice_of_not_lt (by bv_omega), hout x fun hf => ?_]
      exact h.apart.stack_ctx x (Place.inStack_of_inFrame hf) (Place.base_kept hx).1
    · rw [BitVec.add_assoc]
      rfl
  constructor
  case myctx =>
    refine (load_congr fun x hx => ?_).trans h.myctx
    rw [hmem, splice_of_not_lt fun hc => h.apart.ctx_tls x (Place.kstackp_kept hc).1 hx, hout x fun hf => ?_]
    exact h.apart.stack_tls x (Place.inStack_of_inFrame hf) hx
  case kstackp =>
    rw [State.load, hmem]
    exact le_splice _ _ _
  case frame =>
    intro a ha
    have hlt : ∀ b ∈ s0.slots frameRegs, b.1 < 2 ^ 32 := by
      intro b hb
      obtain ⟨c, hc, rfl⟩ := List.mem_map.mp hb
      exact Nat.lt_trans (frameRegs_lt c hc) (by norm_num)
    have hapart : ∀ x, x - (P.kstackp + BitVec.ofNat 64 (8 * a.1)) < 8 → ¬ x - P.ctx < 8 := fun x hx hc =>
      h.apart.stack_ctx x (Place.inStack_of_inFrame (Place.inFrame_of_slot (frameRegs_lt a ha) hx))
        (Place.kstackp_kept hc).1
    have hnd : ((s0.slots frameRegs).map Prod.fst).Nodup := by
      rw [State.slots, List.map_map]
      exact (by decide : (frameRegs.map Prod.fst).Nodup)
    rw [State.load, hmem, le_splice_apart hapart]
    exact le_putSlots hlt hnd (List.mem_map.mpr ⟨a, ha, rfl⟩)
  case base => exact hbase
  case reg =>
    have hcpu := congrArg (fun c : Cpu => c.x REG_BASE) (lfiCtxEntry_cpu P.T s0)
    have hslot : P.ctx + 16 + BitVec.ofNat 64 (8 * 21) = P.ctx + 184 := by
      rw [BitVec.add_assoc]
      rfl
    refine hcpu.trans (Eq.trans ?_ hbase)
    rw [h.x0, ← hslot]
    rfl

/-! ## System calls -/

/-- What `lfi_syscall_entry` has done when it calls the handler. -/
structure Saved (P : Place) (s e : State) : Prop where
  sp : e.sp = P.kstackp - 16
  reg : ∀ r ∉ scratch, e.reg r = s.reg r
  ctx : e.load (P.kstackp - 16) = P.ctx
  regs : ∀ a ∈ partialRegs, e.load (P.ctx + BitVec.ofNat 64 (8 * a.1)) = s.reg a.2
  other : ∀ x, P.Protected x → e.mem x = s.mem x

/-- The registers that are saved come after the first two words of the context, and leave `REG_BASE` out, -/
lemma partialRegs_slot : ∀ a ∈ partialRegs, 2 ≤ a.1 ∧ a.1 < 34 ∧ a.1 ≠ 23 := by decide

/-- and so do their values. -/
lemma slots_partialRegs (s : State) : ∀ b ∈ s.slots partialRegs, 2 ≤ b.1 ∧ b.1 < 34 ∧ b.1 ≠ 23 := by
  intro b hb
  obtain ⟨a, ha, rfl⟩ := List.mem_map.mp hb
  exact partialRegs_slot a ha

/-- A call leaves alone what is protected. -/
lemma syscallMem_protected (hP : P.Apart) {x : Word} (hx : P.Protected x) :
    syscallMem s P.ctx P.kstackp x = s.mem x := by
  have hbelow : ∀ {x}, x - (P.kstackp - 16) < 8 → P.inStack x ∧ ¬ P.inFrame x := by
    intro x hx
    unfold Place.inStack Place.inFrame
    constructor
    · bv_omega
    · bv_omega
  rw [syscallMem, splice_of_not_lt]
  · -- the slots start above `kstackp` and `tp`, and the base is not among them
    refine putSlots_outside fun a ha hslot => ?_
    obtain ⟨hlo, hhi, hne⟩ := slots_partialRegs s a ha
    have hctx := Place.inCtx_of_slot (by omega) hslot
    rcases hx with hframe | hkstackp | hbase | htls
    · exact hP.stack_ctx x (Place.inStack_of_inFrame hframe) hctx
    · bv_omega
    · unfold Place.inBase at hbase
      bv_omega
    · exact hP.ctx_tls x hctx htls
  · -- what is pushed is below the frame
    intro hlow
    obtain ⟨hstack, hframe⟩ := hbelow hlow
    rcases hx with hframe' | hkstackp | hbase | htls
    · exact hframe hframe'
    · exact hP.stack_ctx x hstack (Place.kstackp_kept hkstackp).1
    · exact hP.stack_ctx x hstack (Place.base_kept hbase).1
    · exact hP.stack_tls x hstack htls

/-- The entry of a syscall saves what is restored at its end. -/
lemma Entered.saved (hP : P.Apart) (h : Entered P s0 s) (next : Word) :
    Saved P s (run P.T (Runtime.lfiSyscallEntry next) s) := by
  have hlt : ∀ b ∈ s.slots partialRegs, b.1 < 2 ^ 32 ∧ b.1 ≠ 0 := by
    intro b hb
    obtain ⟨hlo, hhi, -⟩ := slots_partialRegs s b hb
    exact ⟨Nat.lt_trans hhi (by norm_num), by omega⟩
  have hk : le (putSlots s.mem P.ctx (s.slots partialRegs)) P.ctx 8 64 = P.kstackp := by
    have h0 := le_putSlots_of_notMem (f := s.mem) (p := P.ctx) (by norm_num) hlt
    rw [BitVec.add_zero] at h0
    exact h0.trans h.kstackp
  obtain ⟨hmem, hsp, hreg⟩ := lfiSyscallEntry_run P.T next h.myctx hk
  constructor
  case sp => exact hsp
  case reg => exact hreg
  case ctx =>
    rw [State.load, hmem]
    exact le_splice _ _ _
  case regs =>
    -- what is pushed does not reach the context
    intro a ha
    have hnd : ((s.slots partialRegs).map Prod.fst).Nodup := by
      rw [State.slots, List.map_map]
      exact (by decide : (partialRegs.map Prod.fst).Nodup)
    rw [State.load, hmem, syscallMem, le_splice_apart]
    · exact le_putSlots (fun b hb => (hlt b hb).1) hnd (List.mem_map.mpr ⟨a, ha, rfl⟩)
    · intro x hx hpush
      have hstack : P.inStack x := by
        unfold Place.inStack
        bv_omega
      exact hP.stack_ctx x hstack (Place.inCtx_of_slot (Nat.lt_trans (partialRegs_slot a ha).2.1 (by norm_num)) hx)
  case other =>
    intro x hx
    rw [hmem]
    exact syscallMem_protected hP hx

/-- The frame is above a handler. -/
lemma Place.inFrame_above {x : Word} (hx : P.inFrame x) : x - (P.kstackp - 16) < P.sp - (P.kstackp - 16) := by
  unfold inFrame at hx
  unfold kstackp at hx ⊢
  bv_omega

/-- The handler leaves alone what is protected. -/
lemma Handles.protected {h : State} (hs : Saved P s s') (hh : Handles P s' h) {x : Word}
    (hx : P.Protected x) : h.mem x = s'.mem x := by
  rcases hx with hframe | hkstackp | hbase | htls
  · refine hh.spares.frames x ?_
    rw [hs.sp]
    exact Place.inFrame_above hframe
  · obtain ⟨hctx, hx0, htp⟩ := Place.kstackp_kept hkstackp
    exact hh.spares.ctx x hctx hx0 htp
  · obtain ⟨hctx, hx0, htp⟩ := Place.base_kept hbase
    exact hh.spares.ctx x hctx hx0 htp
  · exact hh.myctx x htls

/-- What is loaded after a syscall. -/
lemma Entered.restored (hP : P.Apart) (h : Entered P s0 s) {t : State}
    (ht : Handles P (run P.T (Runtime.lfiSyscallEntry next) s) t) :
    (∀ x, P.Protected x → t.mem x = s.mem x) ∧ (Arm64.restored P.T t).reg regBase = P.base ∧
      (Arm64.restored P.T t).reg (.x 0) = t.load (P.ctx + 16) ∧
      ∀ a ∈ partialRegs, a.2 ≠ .x 0 → (Arm64.restored P.T t).reg a.2 = s.reg a.2 := by
  have hs := h.saved hP next
  have hmem : ∀ x, P.Protected x → t.mem x = s.mem x := fun x hx => (ht.protected hs hx).trans (hs.other x hx)
  have hctx : t.load t.sp = P.ctx := by
    rw [ht.sp, hs.sp, ← hs.ctx]
    refine load_congr fun x hx => ht.spares.frames x ?_
    rw [hs.sp, show P.sp = P.kstackp + 160 from (BitVec.sub_add_cancel P.sp 160).symm]
    bv_omega
  have hreg := restored_reg P.T hctx
  refine ⟨hmem, ?_, hreg (2, .x 0) (by decide), fun a ha hne => ?_⟩
  · refine (hreg (23, regBase) List.mem_cons_self).trans (Eq.trans ?_ h.base)
    exact load_congr fun x hx => hmem x (.inr (.inr (.inl hx)))
  · have hslot : ∀ a ∈ partialRegs, a.2 ≠ .x 0 → a.1 ≠ 2 := by decide
    have hne := hslot a ha hne
    obtain ⟨hlo, hhi, -⟩ := partialRegs_slot a ha
    rw [hreg a (List.mem_cons_of_mem _ ha), ← hs.regs a ha]
    refine load_congr fun x hx => ht.spares.ctx x (Place.inCtx_of_slot (by omega) hx) ?_ ?_
    · unfold Place.inX0
      bv_omega
    · unfold Place.inTp
      bv_omega

/-- Which registers come from the context, and which from the handler. -/
lemma kept_cases : ∀ r ∈ kept, r ≠ regBase → (∃ a ∈ partialRegs, a.2 = r) ∨ r ∈ calleeSaved ∧ r ∉ scratch := by
  decide

/-- A call of the runtime ends at the masked return address. -/
lemma Back.intro {t : State} (hx30 : t.reg (.x 30) = s.reg (.x 30)) (hbase : t.reg regBase = P.base) :
    Back P s (t.backTo P.base) where
  x30 := by rw [State.backTo_x30, hx30]
  pc := rfl
  base := by rw [State.backTo_reg _ _ (by decide), hbase]

/-- A syscall resumes the guest. -/
lemma Entered.resumes (hP : P.Apart) (h : Entered P s0 s) (hst : Step P next s .syscall s') : Resumes P s s' := by
  cases hst with
  | @syscall t ht =>
    obtain ⟨-, hbase, hx0, hregs⟩ := h.restored hP ht
    have hs := h.saved hP next
    rw [lfiSyscallReturn_run, hbase]
    refine ⟨.intro (hregs (32, .x 30) (by decide) (by decide)) hbase, ?_, fun r hr hne0 hne30 => ?_⟩
    · rw [State.backTo_reg _ _ (by decide), hx0, ← BitVec.add_zero (P.ctx + 16)]
      rfl
    · rw [State.backTo_reg _ _ hne30]
      by_cases hb : r = regBase
      · rw [hb, hbase, h.reg]
      · rcases kept_cases r hr hb with ⟨a, ha, rfl⟩ | ⟨hsaved, hscratch⟩
        · exact hregs a ha hne0
        · rw [restored_kept P.T t r hsaved hb, ht.saved r hsaved, hs.reg r hscratch]

/-! ## The thread pointer -/

/-- `lfi_get_tp` returns the thread pointer of the context. -/
lemma Entered.getsTp (h : Entered P s0 s) : GetsTp P s (run P.T Runtime.lfiGetTp s) := by
  rw [lfiGetTp_run P.T h.myctx, h.reg]
  refine ⟨.intro ?_ ?_, ?_, fun r hne0 hne30 => ?_, ?_⟩
  · exact State.reg_set_ne _ (by decide) _
  · exact (State.reg_set_ne _ (by decide) _).trans h.reg
  · rw [State.backTo_reg _ _ (by decide), State.reg_set_self]
    rfl
  · rw [State.backTo_reg _ _ hne30, State.reg_set_ne _ hne0]
  · rw [State.backTo_mem, State.set_mem]

/-- `lfi_set_tp` changes it, and nothing else in memory. -/
lemma Entered.setsTp (h : Entered P s0 s) : SetsTp P s (run P.T Runtime.lfiSetTp s) := by
  have hb : le (splice s.mem (P.ctx + 8) 8 (bytes64 (s.reg (.x 0)))) (P.ctx + 184) 8 64 = P.base := by
    rw [le_splice_apart fun x hx hc => by bv_omega]
    exact h.base
  have hreg : ∀ r, (s.setTp P.ctx P.base).reg r = (s.set regBase P.base).reg r := fun r => State.mem_reg _ _ r
  rw [lfiSetTp_run P.T h.myctx hb]
  refine ⟨.intro ?_ ?_, ?_, fun r hne => ?_, fun x hx => splice_of_not_lt hx⟩
  · rw [hreg, State.reg_set_ne _ (by decide)]
  · rw [hreg, State.reg_set_self]
  · exact le_splice _ _ _
  · rw [State.backTo_reg _ _ hne, hreg]
    by_cases hbase : r = regBase
    · rw [hbase, State.reg_set_self, h.reg]
    · rw [State.reg_set_ne _ hbase]

/-! ## Runs -/

/-- Every step keeps the ways back. -/
lemma Entered.step (hP : P.Apart) {a : Ev} (h : Entered P s0 s) (hst : Step P next s a s') : Entered P s0 s' := by
  cases hst with
  | code hs hreg =>
    refine h.keep (fun x hx => hs x fun hsandbox => ?_) (hreg.trans h.reg)
    obtain ⟨hframe, hctx, htls⟩ := hP.sandbox x hsandbox
    rcases hx with hx | hx | hx | hx
    · exact hframe hx
    · exact hctx (Place.kstackp_kept hx).1
    · exact hctx (Place.base_kept hx).1
    · exact htls hx
  | syscall ht =>
    refine h.keep (fun x hx => ?_) (h.resumes hP (.syscall ht)).back.base
    rw [lfiSyscallReturn_run, State.backTo_mem, restored_mem]
    exact (h.restored hP ht).1 x hx
  | getTp =>
    have hget := h.getsTp
    exact h.keep (fun x _ => congrFun hget.mem x) hget.back.base
  | setTp =>
    have hset := h.setsTp
    refine h.keep (fun x hx => hset.mem x fun htp => ?_) hset.back.base
    have hctx : P.inCtx x := by
      unfold Place.inTp at htp
      unfold Place.inCtx
      bv_omega
    rcases hx with hx | hx | hx | hx
    · exact hP.stack_ctx x (Place.inStack_of_inFrame hx) hctx
    · exact (Place.kstackp_kept hx).2.2 htp
    · exact (Place.base_kept hx).2.2 htp
    · exact hP.ctx_tls x hctx hx

/-- The way back is taken with the kernel stack, from a state that has it in memory. -/
lemma Entered.popped (h : Entered P s0 s) (hsp : s0.sp = P.sp) {t : State} (hk : t.sp = P.kstackp)
    (hmem : ∀ x, P.inFrame x → t.mem x = s.mem x)
    (hs' : s' = { run P.T Runtime.popCalleeSaved t with pc := (run P.T Runtime.popCalleeSaved t).reg (.x 30) }) :
    Returned s0 (t.reg (.x 0)) s' := by
  refine popCalleeSaved_returned P.T hk ?_ (fun a ha => ?_) hs'
  · rw [hsp]
    exact (BitVec.sub_add_cancel P.sp 160).symm
  · refine (load_congr fun x hx => hmem x ?_).trans (h.frame a ha)
    exact Place.inFrame_of_slot (frameRegs_lt a ha) hx

/-- The end of a run returns to the host. -/
lemma Entered.returned (hP : P.Apart) (h : Entered P s0 s) (hsp : s0.sp = P.sp) {v : Word}
    (he : Ends P next s v s') : Returned s0 v s' := by
  cases he with
  | ret =>
    have hstack : (s.set regBase P.ctx).load ((s.set regBase P.ctx).reg (.x 21) + BitVec.ofNat 64 0) = P.kstackp := by
      refine (congrArg s.load (BitVec.add_zero P.ctx)).trans h.kstackp
    have henter : run P.T [.ldr (.x 22) (.x 21) 0, .mov .sp (.x 22)] (s.set regBase P.ctx) =
        ((s.set regBase P.ctx).set (.x 22) P.kstackp).set .sp P.kstackp := by
      rw [← hstack]
      rfl
    have hrun : run P.T Runtime.lfiRet s = run P.T [.br (.x 30)] (run P.T Runtime.popCalleeSaved
        (((s.set regBase P.ctx).set (.x 22) P.kstackp).set .sp P.kstackp)) := by
      rw [Runtime.lfiRet, run_append, run_append, run_append, Runtime.getProc, loadMyctx_run, h.myctx, henter]
    exact h.popped (t := ((s.set regBase P.ctx).set (.x 22) P.kstackp).set .sp P.kstackp) hsp rfl (fun _ _ => rfl) hrun
  | @exit t ht hx0 =>
    -- the frame and `kstackp` outlive the handler, whatever became of `lfi_myctx`
    have hs := h.saved hP next
    have hframe : ∀ x, P.inFrame x → t.mem x = s.mem x := by
      intro x hx
      refine Eq.trans (ht.frames x ?_) (hs.other x (.inl hx))
      rw [hs.sp]
      exact Place.inFrame_above hx
    have hk : t.reg (.x 0) = P.kstackp := by
      rw [hx0, ← h.kstackp]
      refine load_congr fun x hx => ?_
      obtain ⟨hctx, hnx0, htp⟩ := Place.kstackp_kept hx
      exact (ht.ctx x hctx hnx0 htp).trans (hs.other x (.inr (.inl hx)))
    have hrun : run P.T Runtime.lfiAsmCtxExit t = run P.T [.ret] (run P.T Runtime.popCalleeSaved
        (run P.T [.mov .sp (.x 0), .mov (.x 0) (.x 1)] t)) := by
      rw [Runtime.lfiAsmCtxExit, run_append, run_append]
    exact h.popped (t := run P.T [.mov .sp (.x 0), .mov (.x 0) (.x 1)] t) hsp hk hframe hrun

/-- The runtime of arm64 is transparent: in every run, a syscall resumes the guest with its registers, the thread
pointer is what is read and written, and the end returns to the host with its own registers. -/
theorem arm64_transparent {es : List Ev} (h : Called P s0)
    (hr : Run (Step P next) (run P.T Runtime.lfiCtxEntry s0) es s) :
    (∀ s', Step P next s .syscall s' → Resumes P s s') ∧ (∀ s', Step P next s .getTp s' → GetsTp P s s') ∧
      (∀ s', Step P next s .setTp s' → SetsTp P s s') ∧ ∀ v s', Ends P next s v s' → Returned s0 v s' := by
  have hentered : Entered P s0 s := Run.invariant (fun hi hst => hi.step h.apart hst) h.entered hr
  refine ⟨fun s' hst => hentered.resumes h.apart hst, fun s' hst => ?_, fun s' hst => ?_,
    fun v s' he => hentered.returned h.apart h.sp he⟩
  · cases hst
    exact hentered.getsTp
  · cases hst
    exact hentered.setsTp

/-- A masked address has 32 bits. -/
lemma uxtw_lt (v : Word) : (uxtw v).toNat < 2 ^ 32 := by
  have hlt := (v.setWidth 32).isLt
  rw [uxtw, BitVec.toNat_setWidth_of_le (by decide)]
  exact hlt

/-- However the guest leaves its registers, a call of the runtime goes on in the sandbox, in every run: the program
counter is in the 4 GiB from the base on, and `REG_BASE` is the base. -/
theorem arm64_back_inside {es : List Ev} {a : Ev} (h : Called P s0) (htop : P.base.toNat + 2 ^ 32 ≤ 2 ^ 64)
    (hr : Run (Step P next) (run P.T Runtime.lfiCtxEntry s0) es s) (hst : Step P next s a s') (ha : a ≠ .code) :
    P.base.toNat ≤ s'.pc.toNat ∧ s'.pc.toNat < P.base.toNat + 2 ^ 32 ∧ s'.reg regBase = P.base := by
  have hentered : Entered P s0 s := Run.invariant (fun hi hst => hi.step h.apart hst) h.entered hr
  have hback : Back P s s' := by
    cases a with
    | code => exact absurd rfl ha
    | syscall => exact (hentered.resumes h.apart hst).back
    | getTp =>
      cases hst
      exact hentered.getsTp.back
    | setTp =>
      cases hst
      exact hentered.setsTp.back
  have hlt := uxtw_lt (s.reg (.x 30))
  have hpc : s'.pc.toNat = P.base.toNat + (uxtw (s.reg (.x 30))).toNat := by
    rw [hback.pc, hback.x30, BitVec.toNat_add]
    exact Nat.mod_eq_of_lt (by omega)
  rw [hpc]
  exact ⟨by omega, by omega, hback.base⟩

end

/-- A stack below 2^15, a context, the variable and a sandbox. -/
def Place.small : Place := ⟨⟨0x2000, 0, by decide⟩, 0x1000, 0x8000, 0x100000000, fun x => x - 0x100000000 < 0x100000000⟩

/-- A host that calls `lfi_ctx_entry`, with a base and a return address in the context. -/
def hostState : State where
  x i := if i = 0 ∨ i = 1 then 0x1000 else i.val
  sp := 0x8000
  vec _ := 0
  pc := 0
  mem := putSlots (splice (fun _ => 0) 0x2000 8 (bytes64 0x1000)) 0x1000 [(23, 0x100000000), (32, 0x7000000010)]

/-- The host calls into it. -/
lemma small_called : Called .small hostState where
  apart := by
    constructor
    case stack_ctx =>
      intro x
      unfold Place.inStack Place.inCtx Place.kstackp Place.small
      bv_omega
    case stack_tls =>
      intro x
      unfold Place.inStack Place.inTls Place.kstackp Place.small Tls.myctx
      bv_omega
    case ctx_tls =>
      intro x
      unfold Place.inCtx Place.inTls Place.small Tls.myctx
      bv_omega
    case sandbox =>
      intro x hx
      unfold Place.inFrame Place.inCtx Place.inTls Place.kstackp Tls.myctx
      unfold Place.small at hx ⊢
      refine ⟨?_, ?_, ?_⟩
      · bv_omega
      · bv_omega
      · bv_omega
  x0 := rfl
  x1 := rfl
  sp := rfl
  myctx := by decide +kernel
  base := by decide +kernel

/-- A handler that returns at once. -/
lemma handles_refl (P : Place) (s : State) : Handles P s s :=
  ⟨rfl, fun _ _ => rfl, ⟨fun _ _ => rfl, fun _ _ _ _ => rfl⟩, fun _ _ => rfl⟩

/-- A guest that makes a syscall. -/
def syscalled : State :=
  run Place.small.T Runtime.lfiSyscallReturn
    (run Place.small.T (Runtime.lfiSyscallEntry 0) (run Place.small.T Runtime.lfiCtxEntry hostState))

/-- The sandbox makes one syscall. -/
lemma runs_syscalled : Run (Step .small 0) (run Place.small.T Runtime.lfiCtxEntry hostState) [.syscall] syscalled :=
  .snoc (.nil _) (.syscall (handles_refl _ _))

/-- And then it returns. -/
theorem arm64_transparent_syscall :
    Returned hostState (syscalled.reg (.x 0)) (run Place.small.T Runtime.lfiRet syscalled) :=
  (arm64_transparent small_called runs_syscalled).2.2.2 _ _ .ret

/-- The return address of the guest is taken for one in the sandbox. -/
theorem arm64_back_inside_syscall : syscalled.pc = 0x100000010 ∧ syscalled.pc.toNat < 2 ^ 33 := by
  refine ⟨by decide +kernel, ?_⟩
  exact (arm64_back_inside small_called (by decide) (.nil _) (.syscall (handles_refl _ _)) (by decide)).2.1

end Libtux.Arm64
