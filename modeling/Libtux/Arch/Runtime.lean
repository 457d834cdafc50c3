import Libtux.Arch.Instr
import Libtux.Lib.Run

/-!
# The runtime of x86-64

`src/pal/arch/x64/runtime.S`, instruction by instruction. `lfi_ctx_entry` saves the callee-saved registers of the
host on its stack and leaves the stack pointer in the context; `lfi_syscall_entry` saves the registers of the
guest in the context and runs the handler on that stack; `lfi_asm_ctx_exit` and `lfi_ret` take the host's
registers from it again.

`Step` are the steps of a guest between its entry and its exit. The handler is C code, of which only the calling
convention is known and what it leaves alone (`Spares`). Every word of the host that the way back needs is in
`Protected`, which no step changes (`Entered.step`), and from that `runtime_transparent` follows, in every state
of every run.
-/

namespace Libtux.X64
open Lib

/-- The offset of `regs` in `struct LFIContext`. -/
def PROC_REGS : Nat := 16

namespace Runtime

/-- `SAVE_PARTIAL_REGS`. -/
def savePartialRegs : List Instr := [
  .gottpoff .rcx,
  .loadFs .rcx .rcx,
  .store .rsp (PROC_REGS + 8 * 0) .rcx,
  .store .rax (PROC_REGS + 8 * 1) .rcx,
  .store .rdx (PROC_REGS + 8 * 3) .rcx,
  .store .rbx (PROC_REGS + 8 * 4) .rcx,
  .store .rbp (PROC_REGS + 8 * 5) .rcx,
  .store .rsi (PROC_REGS + 8 * 6) .rcx,
  .store .rdi (PROC_REGS + 8 * 7) .rcx,
  .store .r8 (PROC_REGS + 8 * 8) .rcx,
  .store .r9 (PROC_REGS + 8 * 9) .rcx,
  .store .r10 (PROC_REGS + 8 * 10) .rcx,
  .store .r11 (PROC_REGS + 8 * 11) .rcx]

/-- `lfi_restore_regs`. -/
def lfiRestoreRegs : List Instr := [
  .load (PROC_REGS + 8 * 17) .rdi .r11,
  .wrgsbase .r11,
  .load (PROC_REGS + 8 * 0) .rdi .rsp,
  .load (PROC_REGS + 8 * 1) .rdi .rax,
  .load (PROC_REGS + 8 * 2) .rdi .rcx,
  .load (PROC_REGS + 8 * 3) .rdi .rdx,
  .load (PROC_REGS + 8 * 4) .rdi .rbx,
  .load (PROC_REGS + 8 * 5) .rdi .rbp,
  .load (PROC_REGS + 8 * 6) .rdi .rsi,
  .load (PROC_REGS + 8 * 8) .rdi .r8,
  .load (PROC_REGS + 8 * 9) .rdi .r9,
  .load (PROC_REGS + 8 * 10) .rdi .r10,
  .load (PROC_REGS + 8 * 11) .rdi .r11,
  .load (PROC_REGS + 8 * 12) .rdi .r12,
  .load (PROC_REGS + 8 * 13) .rdi .r13,
  .load (PROC_REGS + 8 * 14) .rdi .r14,
  .load (PROC_REGS + 8 * 15) .rdi .r15,
  .load (PROC_REGS + 8 * 7) .rdi .rdi,
  .jmp .r11]

/-- `lfi_ctx_entry`, which goes on with `lfi_restore_regs`. -/
def lfiCtxEntry : List Instr := [
  .push .r15,
  .push .r14,
  .push .r13,
  .push .r12,
  .push .rbx,
  .push .rbp,
  .store .rsp 0 .rsi] ++ lfiRestoreRegs

/-- What `lfi_asm_ctx_exit` and `lfi_ret` end with. -/
def popCalleeSaved : List Instr := [
  .pop .rbp,
  .pop .rbx,
  .pop .r12,
  .pop .r13,
  .pop .r14,
  .pop .r15,
  .ret]

/-- `lfi_asm_ctx_exit`. -/
def lfiAsmCtxExit : List Instr := [
  .mov .rdi .rsp,
  .mov .rsi .rax] ++ popCalleeSaved

/-- `lfi_ret`. -/
def lfiRet : List Instr := [
  .gottpoff .r11,
  .loadFs .r11 .r11,
  .load 0 .r11 .rsp] ++ popCalleeSaved

/-- `lfi_get_tp`. -/
def lfiGetTp : List Instr := [
  .gottpoff .rax,
  .loadFs .rax .rax,
  .load 8 .rax .rax,
  .jmp .r11]

/-- `lfi_set_tp`. -/
def lfiSetTp : List Instr := [
  .gottpoff .r14,
  .loadFs .r14 .r14,
  .store .rax 8 .r14,
  .load (PROC_REGS + 8 * 14) .r14 .r14,
  .jmp .r11]

/-- `lfi_syscall_entry` up to the call of the handler. `next` is the address of the instruction after it. -/
def lfiSyscallEntry (next : Word) : List Instr := savePartialRegs ++ [
  .load 0 .rcx .rsp,
  .push .rcx,
  .push .r11,
  .sub 8 .rsp,
  .mov .rcx .rdi,
  .call next]

/-- `lfi_restore_partial_regs`. -/
def lfiRestorePartialRegs : List Instr := [
  .load (PROC_REGS + 8 * 0) .rdi .rsp,
  .load (PROC_REGS + 8 * 1) .rdi .rax,
  .movImm 0 .rcx,
  .load (PROC_REGS + 8 * 3) .rdi .rdx,
  .load (PROC_REGS + 8 * 4) .rdi .rbx,
  .load (PROC_REGS + 8 * 5) .rdi .rbp,
  .load (PROC_REGS + 8 * 6) .rdi .rsi,
  .load (PROC_REGS + 8 * 8) .rdi .r8,
  .load (PROC_REGS + 8 * 9) .rdi .r9,
  .load (PROC_REGS + 8 * 10) .rdi .r10,
  .load (PROC_REGS + 8 * 7) .rdi .rdi,
  .jmp .r11]

/-- `lfi_syscall_entry` after the call of the handler. -/
def lfiSyscallReturn : List Instr := [
  .add 8 .rsp,
  .pop .r11,
  .pop .rdi] ++ lfiRestorePartialRegs

end Runtime

/-- The registers that a callee leaves alone, other than the stack pointer. -/
def calleeSaved : List Reg := [.rbx, .rbp, .r12, .r13, .r14, .r15]

/-- The slots of the context, of eight bytes, that `SAVE_PARTIAL_REGS` stores to. -/
def partialRegs : List (Nat × Reg) :=
  [(2, .rsp), (3, .rax), (5, .rdx), (6, .rbx), (7, .rbp), (8, .rsi), (9, .rdi), (10, .r8), (11, .r9), (12, .r10),
    (13, .r11)]

/-- The slots of the kernel stack that `lfi_ctx_entry` stores to. -/
def frameRegs : List (Nat × Reg) := pushSlots [.r15, .r14, .r13, .r12, .rbx, .rbp]

/-- Where the context, `lfi_myctx` and the stack of the host are when `lfi_ctx_entry` is called. -/
structure Place where
  T : Tls
  /-- The context. -/
  ctx : Word
  /-- The stack pointer, where the return address is. -/
  sp : Word
  /-- The sandbox. -/
  sandbox : Word → Prop

namespace Place

/-- The kernel stack: the six registers that are saved are above it. -/
def kstackp (P : Place) : Word := P.sp - 48

/-- `kstackp`, `tp` and `regs` of the context. -/
def inCtx (P : Place) (x : Word) : Prop := x - P.ctx < 160

/-- `tp` of the context. -/
def inTp (P : Place) (x : Word) : Prop := x - (P.ctx + 8) < 8

/-- The result of a syscall in the context. -/
def inRax (P : Place) (x : Word) : Prop := x - (P.ctx + 24) < 8

/-- `lfi_myctx`. -/
def inTls (P : Place) (x : Word) : Prop := x - P.T.myctx < 8

/-- The saved registers and the return address. -/
def inFrame (P : Place) (x : Word) : Prop := x - P.kstackp < 56

/-- The part of the stack that the runtime uses, with the four words that a syscall takes. -/
def inStack (P : Place) (x : Word) : Prop := x - (P.kstackp - 32) < 88

/-- The context, the variable and the stack are apart from each other and from the sandbox. -/
structure Apart (P : Place) : Prop where
  stack_ctx : ∀ x, P.inStack x → ¬ P.inCtx x
  stack_tls : ∀ x, P.inStack x → ¬ P.inTls x
  ctx_tls : ∀ x, P.inCtx x → ¬ P.inTls x
  sandbox : ∀ x, P.sandbox x → ¬ P.inFrame x ∧ ¬ P.inCtx x ∧ ¬ P.inTls x

/-- What the way back to the host needs: the frame, `kstackp` and `lfi_myctx`. -/
def Protected (P : Place) (x : Word) : Prop := P.inFrame x ∨ x - P.ctx < 8 ∨ P.inTls x

end Place

/-- The call of `lfi_ctx_entry` by `lfi_ctx_run`. -/
structure Called (P : Place) (s0 : State) : Prop where
  apart : P.Apart
  rdi : s0.reg .rdi = P.ctx
  rsi : s0.reg .rsi = P.ctx
  rsp : s0.reg .rsp = P.sp
  myctx : s0.load P.T.myctx = P.ctx

/-- What C code that was called with the stack pointer `sp` leaves alone: the frames of its callers, and the
context but for the result of the syscall and the thread pointer, which `arch_prctl` sets. -/
structure Spares (P : Place) (sp : Word) (mem mem' : Word → Byte) : Prop where
  frames : ∀ x, x - sp < P.sp + 8 - sp → mem' x = mem x
  ctx : ∀ x, P.inCtx x → ¬ P.inRax x → ¬ P.inTp x → mem' x = mem x

/-- The handler, from its first instruction to its return. -/
structure Handles (P : Place) (s h : State) : Prop where
  rsp : h.reg .rsp = s.reg .rsp + 8
  saved : ∀ r ∈ calleeSaved, h.reg r = s.reg r
  spares : Spares P (s.reg .rsp + 8) s.mem h.mem
  myctx : ∀ x, P.inTls x → h.mem x = s.mem x

/-- What a guest does. -/
inductive Ev where
  | code
  | syscall
  | getTp
  | setTp

/-- A step of a guest: its own code, which writes to the sandbox only, or a call of the runtime. -/
inductive Step (P : Place) (next : Word) (s : State) : Ev → State → Prop where
  | code {s' : State} : (∀ x, ¬ P.sandbox x → s'.mem x = s.mem x) → Step P next s .code s'
  | syscall {h : State} : Handles P (run P.T (Runtime.lfiSyscallEntry next) s) h →
    Step P next s .syscall (run P.T Runtime.lfiSyscallReturn h)
  | getTp : Step P next s .getTp (run P.T Runtime.lfiGetTp s)
  | setTp : Step P next s .setTp (run P.T Runtime.lfiSetTp s)

/-- The end of a run with its value: the guest calls `lfi_ret`, or the handler, which may clear `lfi_myctx`,
calls `lfi_asm_ctx_exit` with the kernel stack of the context. -/
inductive Ends (P : Place) (next : Word) (s : State) : Word → State → Prop where
  | ret : Ends P next s (s.reg .rax) (run P.T Runtime.lfiRet s)
  | exit {h : State} :
    Spares P ((run P.T (Runtime.lfiSyscallEntry next) s).reg .rsp + 8)
      (run P.T (Runtime.lfiSyscallEntry next) s).mem h.mem →
    h.reg .rdi = (LFIContext.read h.load P.ctx).kstackp →
    Ends P next s (h.reg .rsi) (run P.T Runtime.lfiAsmCtxExit h)

/-- After a syscall, at its return address, the guest has its registers as before, but for `rax`, which the
handler left in the context, and `rcx`. -/
structure Resumes (P : Place) (s s' : State) : Prop where
  rip : s'.rip = s.reg .r11
  rax : s'.reg .rax = (LFIContext.read s'.load P.ctx).regs.rax
  rcx : s'.reg .rcx = 0
  other : ∀ r, r ≠ .rax → r ≠ .rcx → s'.reg r = s.reg r

/-- Back in the host, after the call of `lfi_ctx_entry` in the state `s0`. -/
structure Returned (s0 : State) (v : Word) (s' : State) : Prop where
  rip : s'.rip = s0.load (s0.reg .rsp)
  rsp : s'.reg .rsp = s0.reg .rsp + 8
  rax : s'.reg .rax = v
  saved : ∀ r ∈ calleeSaved, s'.reg r = s0.reg r

/-! ## The programs -/

/-- `lfi_restore_regs` loads the registers of the context. -/
lemma lfiRestoreRegs_cpu (T : Tls) (s : State) : (run T Runtime.lfiRestoreRegs s).cpu =
    X64.lfiRestoreRegs (LFIContext.read s.load (s.reg .rdi)).regs := by
  simp only [LFIContext.read, TuxRegs.read, X64.lfiRestoreRegs, BitVec.add_assoc]
  rfl

/-- `lfi_restore_regs` stores nothing. -/
lemma lfiRestoreRegs_mem (T : Tls) (s : State) : (run T Runtime.lfiRestoreRegs s).mem = s.mem := rfl

/-- `SAVE_PARTIAL_REGS` stores to the context, and leaves its address in `rcx`. -/
lemma savePartialRegs_run (T : Tls) (s : State) : run T Runtime.savePartialRegs s =
    { s.set .rcx (s.load T.myctx) with mem := putSlots s.mem (s.load T.myctx) (s.slots partialRegs) } := by
  have hprog : Runtime.savePartialRegs =
      [.gottpoff .rcx, .loadFs .rcx .rcx] ++ partialRegs.map fun a => .store a.2 (8 * a.1) .rcx := rfl
  have hctx : run T [.gottpoff .rcx, .loadFs .rcx .rcx] s = s.set .rcx (s.load T.myctx) :=
    s.set_set .rcx T.tpoff _
  have hslots : (s.set .rcx (s.load T.myctx)).slots partialRegs = s.slots partialRegs := rfl
  have hrcx : (s.set .rcx (s.load T.myctx)).reg .rcx = s.load T.myctx := rfl
  rw [hprog, run_append, hctx, run_stores, hslots, hrcx]
  rfl

/-- `lfi_ctx_entry` stores the frame, and where it is. -/
lemma lfiCtxEntry_mem (T : Tls) (s : State) : (run T Runtime.lfiCtxEntry s).mem =
    splice (putSlots s.mem (s.reg .rsp - 48) (s.slots frameRegs)) (s.reg .rsi) 8
      (bytes64 (s.reg .rsp - 48)) := by
  have hprog : Runtime.lfiCtxEntry =
      ([.r15, .r14, .r13, .r12, .rbx, .rbp].map Instr.push ++ [.store .rsp 0 .rsi]) ++ Runtime.lfiRestoreRegs :=
    rfl
  have hk : s.reg .rsp = s.reg .rsp - 48 + BitVec.ofNat 64 (8 * 6) := by
    bv_omega
  rw [hprog, run_append, lfiRestoreRegs_mem, run_append, run_pushes T (by decide) hk]
  exact congrArg (fun p => splice _ p _ _) (BitVec.add_zero _)

/-- The memory when the handler is called: the registers are in the context `c`, and its address and the return
address are on the kernel stack `k`. -/
def syscallMem (next : Word) (s : State) (c k : Word) : Word → Byte :=
  splice (putSlots (putSlots s.mem c (s.slots partialRegs)) (k - 16) [(1, c), (0, s.reg .r11)]) (k - 32) 8
    (bytes64 next)

/-- The state at the entry of the handler. -/
lemma lfiSyscallEntry_run (T : Tls) (next : Word) {s : State} {c k : Word} (hc : s.load T.myctx = c)
    (hk : le (putSlots s.mem c (s.slots partialRegs)) c 8 64 = k) : run T (Runtime.lfiSyscallEntry next) s =
      { ((s.set .rcx c).set .rdi c).set .rsp (k - 32) with mem := syscallMem next s c k } := by
  have hprog : Runtime.lfiSyscallEntry next = Runtime.savePartialRegs ++ ([.load 0 .rcx .rsp] ++
      ([.rcx, .r11].map Instr.push ++ [.sub 8 .rsp, .mov .rcx .rdi, .call next])) := rfl
  have hstack : run T [.load 0 .rcx .rsp]
      { s.set .rcx c with mem := putSlots s.mem c (s.slots partialRegs) } =
      { (s.set .rcx c).set .rsp k with mem := putSlots s.mem c (s.slots partialRegs) } := by
    rw [← hk]
    exact congrArg (fun p => { (s.set .rcx c).set .rsp (le (putSlots s.mem c (s.slots partialRegs)) p 8 64) with
      mem := putSlots s.mem c (s.slots partialRegs) }) (BitVec.add_zero c)
  have hpush : k = k - 16 + BitVec.ofNat 64 (8 * 2) := by
    bv_omega
  rw [hprog, run_append, savePartialRegs_run, hc, run_append, hstack, run_append, run_pushes T (by decide) hpush]
  have hsp : k - 16 - 8 - 8 = k - 32 := by
    bv_omega
  refine State.ext (funext fun r => ?_) rfl rfl (congrArg (fun p => splice _ p 8 _) hsp)
  cases r with
  | rsp => exact hsp
  | _ => rfl

/-- `lfi_restore_partial_regs` loads what was saved, but for `r11`, from the context `c`. -/
lemma lfiSyscallReturn_reg (T : Tls) {s : State} {c : Word} (hc : s.load (s.reg .rsp + 8 + 8) = c) :
    ∀ a ∈ partialRegs, a.2 ≠ .r11 →
      (run T Runtime.lfiSyscallReturn s).reg a.2 = s.load (c + BitVec.ofNat 64 (8 * a.1)) := by
  subst hc
  simp only [partialRegs, List.forall_mem_cons]
  exact ⟨fun _ => rfl, fun _ => rfl, fun _ => rfl, fun _ => rfl, fun _ => rfl, fun _ => rfl, fun _ => rfl,
    fun _ => rfl, fun _ => rfl, fun _ => rfl, fun h => absurd rfl h, fun _ h => absurd h List.not_mem_nil⟩

/-- The way back to the sandbox leaves what the handler left in these. -/
lemma lfiSyscallReturn_kept (T : Tls) (s : State) :
    ∀ r ∈ [.r12, .r13, .r14, .r15], (run T Runtime.lfiSyscallReturn s).reg r = s.reg r := by
  simp only [List.forall_mem_cons]
  exact ⟨rfl, rfl, rfl, rfl, fun _ h => absurd h List.not_mem_nil⟩

/-- The words that are popped are one after the other. -/
lemma popCalleeSaved_reg (T : Tls) (s : State) : ∀ a ∈ frameRegs,
    (run T Runtime.popCalleeSaved s).reg a.2 = s.load (s.reg .rsp + BitVec.ofNat 64 (8 * a.1)) := by
  simp only [frameRegs, pushSlots, List.forall_mem_cons]
  simp [run, Runtime.popCalleeSaved, Instr.exec, State.set, State.load, BitVec.add_assoc]

/-- The way back to the host, from the kernel stack. -/
lemma popCalleeSaved_returned (T : Tls) {s0 s : State} {k : Word} (hk : s.reg .rsp = k)
    (hsp : s0.reg .rsp = k + 48) (hframe : ∀ a ∈ frameRegs, s.load (k + BitVec.ofNat 64 (8 * a.1)) = s0.reg a.2)
    (hret : s.load (s0.reg .rsp) = s0.load (s0.reg .rsp)) :
    Returned s0 (s.reg .rax) (run T Runtime.popCalleeSaved s) where
  rip := by
    have htop : s.reg .rsp + 8 + 8 + 8 + 8 + 8 + 8 = s0.reg .rsp := by
      rw [hk, hsp]
      bv_omega
    rw [← hret, ← htop]
    rfl
  rsp := by
    have htop : s.reg .rsp + 8 + 8 + 8 + 8 + 8 + 8 + 8 = s0.reg .rsp + 8 := by
      rw [hk, hsp]
      bv_omega
    exact htop
  rax := rfl
  saved r hr := by
    have hmem : ∀ r ∈ calleeSaved, ∃ a ∈ frameRegs, a.2 = r := by decide
    obtain ⟨a, ha, rfl⟩ := hmem r hr
    rw [popCalleeSaved_reg T s a ha, hk]
    exact hframe a ha

/-! ## The invariant -/

/-- Between the entry and the exit, the way back to the host is where `lfi_ctx_entry` left it. -/
structure Entered (P : Place) (s0 s : State) : Prop where
  myctx : s.load P.T.myctx = P.ctx
  kstackp : s.load P.ctx = P.kstackp
  frame : ∀ a ∈ frameRegs, s.load (P.kstackp + BitVec.ofNat 64 (8 * a.1)) = s0.reg a.2
  ret : s.load P.sp = s0.load P.sp

/-- The frame has six words. -/
lemma frameRegs_lt : ∀ a ∈ frameRegs, a.1 < 6 := by decide

section
variable {P : Place} {s0 s s' : State} {next : Word}

/-- They are in it, with the return address. -/
lemma Place.inFrame_of_slot {i : Nat} {x : Word} (hi : i < 7)
    (hx : x - (P.kstackp + BitVec.ofNat 64 (8 * i)) < 8) : P.inFrame x := by
  unfold inFrame
  bv_omega

/-- The return address is behind them. -/
lemma Place.sp_eq : P.sp = P.kstackp + BitVec.ofNat 64 (8 * 6) := by
  unfold kstackp
  bv_omega

/-- The frame is on the kernel stack. -/
lemma Place.inStack_of_inFrame {x : Word} (hx : P.inFrame x) : P.inStack x := by
  unfold inFrame at hx
  unfold inStack
  bv_omega

/-- The frame is above a handler. -/
lemma Place.inFrame_above {x : Word} (hx : P.inFrame x) :
    x - (P.kstackp - 32 + 8) < P.sp + 8 - (P.kstackp - 32 + 8) := by
  unfold inFrame at hx
  unfold kstackp at hx ⊢
  bv_omega

/-- `kstackp` is neither the result of a syscall nor the thread pointer. -/
lemma Place.kstackp_kept {x : Word} (hx : x - P.ctx < 8) : P.inCtx x ∧ ¬ P.inRax x ∧ ¬ P.inTp x := by
  unfold inCtx inRax inTp
  refine ⟨?_, ?_, ?_⟩
  · bv_omega
  · bv_omega
  · bv_omega

namespace Entered

/-- What is protected is all that counts. -/
lemma keep (h : Entered P s0 s) (hs : ∀ x, P.Protected x → s'.mem x = s.mem x) : Entered P s0 s' where
  myctx := (load_congr fun x hx => hs x (.inr (.inr hx))).trans h.myctx
  kstackp := (load_congr fun x hx => hs x (.inr (.inl hx))).trans h.kstackp
  frame a ha := by
    have hlt : a.1 < 7 := Nat.lt_succ_of_lt (frameRegs_lt a ha)
    exact (load_congr fun x hx => hs x (.inl (Place.inFrame_of_slot hlt hx))).trans (h.frame a ha)
  ret := by
    refine (load_congr fun x hx => hs x (.inl ?_)).trans h.ret
    rw [Place.sp_eq] at hx
    exact Place.inFrame_of_slot (by decide) hx

end Entered

/-- `lfi_ctx_entry` leaves the way back. -/
lemma Called.entered (h : Called P s0) : Entered P s0 (run P.T Runtime.lfiCtxEntry s0) := by
  have hk : s0.reg .rsp - 48 = P.kstackp := by
    rw [h.rsp]
    rfl
  have hmem := lfiCtxEntry_mem P.T s0
  rw [hk, h.rsi] at hmem
  have hin : ∀ {x : Word}, x - P.ctx < 8 → P.inCtx x := fun hx => (Place.kstackp_kept hx).1
  have hslot : ∀ {i : Nat}, i < 7 → ∀ x, x - (P.kstackp + BitVec.ofNat 64 (8 * i)) < 8 → ¬ x - P.ctx < 8 :=
    fun hi x hx hc => h.apart.stack_ctx x (Place.inStack_of_inFrame (Place.inFrame_of_slot hi hx)) (hin hc)
  constructor
  case myctx =>
    -- the six pushes are in the frame, which is apart from the variable
    refine (load_congr fun x hx => ?_).trans h.myctx
    rw [hmem, splice_of_not_lt fun hc => h.apart.ctx_tls x (hin hc) hx]
    refine putSlots_outside fun a ha hpush => ?_
    obtain ⟨b, hb, rfl⟩ := List.mem_map.mp ha
    have hframe := Place.inFrame_of_slot (Nat.lt_succ_of_lt (frameRegs_lt b hb)) hpush
    exact h.apart.stack_tls x (Place.inStack_of_inFrame hframe) hx
  case kstackp =>
    rw [State.load, hmem]
    exact le_splice _ _ _
  case frame =>
    intro a ha
    have hlt : ∀ b ∈ s0.slots frameRegs, b.1 < 2 ^ 32 := by
      intro b hb
      obtain ⟨c, hc, rfl⟩ := List.mem_map.mp hb
      exact Nat.lt_trans (frameRegs_lt c hc) (by norm_num)
    rw [State.load, hmem, le_splice_apart (hslot (Nat.lt_succ_of_lt (frameRegs_lt a ha)))]
    exact le_putSlots hlt (by simp [State.slots, frameRegs, pushSlots]) (List.mem_map.mpr ⟨a, ha, rfl⟩)
  case ret =>
    -- the return address is in the slot above the registers
    have hne : ∀ b ∈ s0.slots frameRegs, b.1 < 2 ^ 32 ∧ b.1 ≠ 6 := by
      intro b hb
      obtain ⟨c, hc, rfl⟩ := List.mem_map.mp hb
      exact ⟨Nat.lt_trans (frameRegs_lt c hc) (by norm_num), (frameRegs_lt c hc).ne⟩
    rw [Place.sp_eq, State.load, hmem, le_splice_apart (hslot (by decide)), le_putSlots_of_notMem (by norm_num) hne]
    rfl

/-- What `lfi_syscall_entry` has done when it calls the handler. -/
structure Saved (P : Place) (s e : State) : Prop where
  rsp : e.reg .rsp = P.kstackp - 32
  saved : ∀ r ∈ calleeSaved, e.reg r = s.reg r
  ctx : e.load (P.kstackp - 8) = P.ctx
  ret : e.load (P.kstackp - 16) = s.reg .r11
  regs : ∀ a ∈ partialRegs, e.load (P.ctx + BitVec.ofNat 64 (8 * a.1)) = s.reg a.2
  other : ∀ x, P.Protected x → e.mem x = s.mem x

/-- The registers that are saved come after the first two words of the context, -/
lemma partialRegs_slot : ∀ a ∈ partialRegs, 2 ≤ a.1 ∧ a.1 < 14 := by decide

/-- and so do their values. -/
lemma slots_partialRegs (s : State) : ∀ b ∈ s.slots partialRegs, 2 ≤ b.1 ∧ b.1 < 14 := by
  intro b hb
  obtain ⟨a, ha, rfl⟩ := List.mem_map.mp hb
  exact partialRegs_slot a ha

/-- What the slots of a call do not reach. -/
lemma putSlots_partialRegs {x : Word}
    (hx : ∀ i, 2 ≤ i → i < 14 → ¬ x - (P.ctx + BitVec.ofNat 64 (8 * i)) < 8) :
    putSlots s.mem P.ctx (s.slots partialRegs) x = s.mem x := by
  refine putSlots_outside fun a ha => ?_
  obtain ⟨hlo, hhi⟩ := slots_partialRegs s a ha
  exact hx a.1 hlo hhi

/-- A call stores to the context and below the kernel stack. -/
lemma syscallMem_below {x c k : Word} (hx : ¬ x - (k - 32) < 32) :
    syscallMem next s c k x = putSlots s.mem c (s.slots partialRegs) x := by
  rw [syscallMem, splice_of_not_lt (by bv_omega)]
  refine putSlots_outside fun a ha => ?_
  simp only [List.mem_cons, List.not_mem_nil, or_false] at ha
  rcases ha with rfl | rfl
  · bv_omega
  · bv_omega

/-- What the entry pushes is below the frame. -/
lemma Place.inStack_of_below {x : Word} (hx : x - (P.kstackp - 32) < 32) : P.inStack x ∧ ¬ P.inFrame x := by
  unfold inStack inFrame
  constructor
  · bv_omega
  · bv_omega

/-- The words of the context. -/
lemma Place.inCtx_of_slot {i : Nat} {x : Word} (hi : i < 20) (hx : x - (P.ctx + BitVec.ofNat 64 (8 * i)) < 8) :
    P.inCtx x := by
  unfold inCtx
  bv_omega

/-- A call leaves alone what is protected. -/
lemma syscallMem_protected (hP : P.Apart) {x : Word} (hx : P.Protected x) :
    syscallMem next s P.ctx P.kstackp x = s.mem x := by
  rw [syscallMem_below, putSlots_partialRegs]
  · -- the slots start above `kstackp` and `tp`
    intro i hlo hhi hslot
    have hctx := Place.inCtx_of_slot (Nat.lt_trans hhi (by norm_num)) hslot
    rcases hx with hframe | hkstackp | htls
    · exact hP.stack_ctx x (Place.inStack_of_inFrame hframe) hctx
    · bv_omega
    · exact hP.ctx_tls x hctx htls
  · -- what is pushed is below the frame
    intro hlow
    obtain ⟨hstack, hframe⟩ := Place.inStack_of_below hlow
    rcases hx with hframe' | hkstackp | htls
    · exact hframe hframe'
    · exact hP.stack_ctx x hstack (Place.kstackp_kept hkstackp).1
    · exact hP.stack_tls x hstack htls

/-- The entry of a syscall saves what is restored at its end. -/
lemma Entered.saved (hP : P.Apart) (h : Entered P s0 s) (next : Word) :
    Saved P s (run P.T (Runtime.lfiSyscallEntry next) s) := by
  have hlt : ∀ b ∈ s.slots partialRegs, b.1 < 2 ^ 32 ∧ b.1 ≠ 0 := by
    intro b hb
    obtain ⟨hlo, hhi⟩ := slots_partialRegs s b hb
    exact ⟨Nat.lt_trans hhi (by norm_num), by omega⟩
  have hk : le (putSlots s.mem P.ctx (s.slots partialRegs)) P.ctx 8 64 = P.kstackp := by
    have h0 := le_putSlots_of_notMem (f := s.mem) (p := P.ctx) (by norm_num) hlt
    rw [BitVec.add_zero] at h0
    exact h0.trans h.kstackp
  have hmem : (run P.T (Runtime.lfiSyscallEntry next) s).mem = syscallMem next s P.ctx P.kstackp := by
    rw [lfiSyscallEntry_run P.T next h.myctx hk]
  -- the address that `call` pushes is below the two words that are popped again
  have hpush : ∀ i, i < 2 → ∀ x, x - (P.kstackp - 16 + BitVec.ofNat 64 (8 * i)) < 8 →
      ¬ x - (P.kstackp - 32) < 8 := by
    intro i hi x hx
    bv_omega
  constructor
  case rsp =>
    rw [lfiSyscallEntry_run P.T next h.myctx hk]
    rfl
  case saved =>
    intro r hr
    have hr' : r ≠ .rcx ∧ r ≠ .rdi ∧ r ≠ .rsp := by
      revert r
      decide
    rw [lfiSyscallEntry_run P.T next h.myctx hk]
    simp [State.set, hr']
  case ctx =>
    have hp : P.kstackp - 8 = P.kstackp - 16 + BitVec.ofNat 64 (8 * 1) := by
      bv_omega
    rw [State.load, hmem, hp, syscallMem, le_splice_apart (hpush 1 (by decide))]
    exact le_putSlots (by simp) (by simp) (by simp)
  case ret =>
    have hp : P.kstackp - 16 = P.kstackp - 16 + BitVec.ofNat 64 (8 * 0) := (BitVec.add_zero _).symm
    rw [State.load, hmem, hp, syscallMem, le_splice_apart (hpush 0 (by decide))]
    exact le_putSlots (by simp) (by simp) (by simp)
  case regs =>
    -- the pushes do not reach the context
    intro a ha
    rw [State.load, hmem]
    refine Eq.trans (le_congr fun j hj => syscallMem_below fun hlow => ?_)
      (le_putSlots (fun b hb => (hlt b hb).1) (by simp [State.slots, partialRegs]) (List.mem_map.mpr ⟨a, ha, rfl⟩))
    have hslot := Nat.lt_trans (partialRegs_slot a ha).2 (by norm_num : 14 < 20)
    refine hP.stack_ctx _ (Place.inStack_of_below hlow).1 (Place.inCtx_of_slot hslot ?_)
    bv_omega
  case other =>
    intro x hx
    rw [hmem]
    exact syscallMem_protected hP hx

/-- The handler leaves alone what is protected. -/
lemma Handles.protected {h : State} (hs : Saved P s s') (hh : Handles P s' h) {x : Word}
    (hx : P.Protected x) : h.mem x = s'.mem x := by
  rcases hx with hframe | hkstackp | htls
  · refine hh.spares.frames x ?_
    rw [hs.rsp]
    exact Place.inFrame_above hframe
  · obtain ⟨hctx, hrax, htp⟩ := Place.kstackp_kept hkstackp
    exact hh.spares.ctx x hctx hrax htp
  · exact hh.myctx x htls

/-- Every step keeps the way back. -/
lemma Entered.step (hP : P.Apart) {a : Ev} (h : Entered P s0 s) (hst : Step P next s a s') : Entered P s0 s' := by
  cases hst with
  | code hs =>
    refine h.keep fun x hx => hs x fun hsandbox => ?_
    obtain ⟨hframe, hctx, htls⟩ := hP.sandbox x hsandbox
    rcases hx with hx | hx | hx
    · exact hframe hx
    · exact hctx (Place.kstackp_kept hx).1
    · exact htls hx
  | syscall hh =>
    have hs := h.saved hP next
    exact h.keep fun x hx => (hh.protected hs hx).trans (hs.other x hx)
  | getTp => exact h.keep fun _ _ => rfl
  | setTp =>
    have hmem : (run P.T Runtime.lfiSetTp s).mem =
        splice s.mem (s.load P.T.myctx + BitVec.ofNat 64 (8 * 1)) 8 (bytes64 (s.reg .rax)) := rfl
    rw [h.myctx] at hmem
    refine h.keep fun x hx => ?_
    rw [hmem]
    refine splice_of_not_lt fun htp => ?_
    have hctx := Place.inCtx_of_slot (by norm_num) htp
    rcases hx with hx | hx | hx
    · exact hP.stack_ctx x (Place.inStack_of_inFrame hx) hctx
    · bv_omega
    · exact hP.ctx_tls x hctx hx

/-- Which registers come from the context, from the kernel stack, and from the handler. -/
lemma reg_cases {r : Reg} (hrax : r ≠ .rax) (hrcx : r ≠ .rcx) :
    (∃ a ∈ partialRegs, a.2 = r ∧ a.2 ≠ .r11 ∧ a.1 ≠ 3) ∨ r = .r11 ∨ r ∈ [.r12, .r13, .r14, .r15] := by
  cases r with
  | rax => exact absurd rfl hrax
  | rcx => exact absurd rfl hrcx
  | r11 => exact .inr (.inl rfl)
  | r12 | r13 | r14 | r15 => exact .inr (.inr (by decide))
  | _ => exact .inl (by decide)

/-- A syscall resumes the guest. -/
lemma Entered.resumes (hP : P.Apart) (h : Entered P s0 s) (hst : Step P next s .syscall s') : Resumes P s s' := by
  cases hst with
  | @syscall t ht =>
    have hs := h.saved hP next
    have hrsp : t.reg .rsp + 8 = P.kstackp - 16 ∧ t.reg .rsp + 8 + 8 = P.kstackp - 8 := by
      rw [ht.rsp, hs.rsp]
      constructor
      · bv_omega
      · bv_omega
    have hframes := ht.spares.frames
    rw [hs.rsp, show P.sp + 8 = P.kstackp + 56 by unfold Place.kstackp; bv_omega] at hframes
    have hr11 : t.load (t.reg .rsp + 8) = s.reg .r11 := by
      rw [hrsp.1, ← hs.ret]
      exact load_congr fun x hx => hframes x (by bv_omega)
    have hctx : t.load (t.reg .rsp + 8 + 8) = P.ctx := by
      rw [hrsp.2, ← hs.ctx]
      exact load_congr fun x hx => hframes x (by bv_omega)
    have hregs : ∀ a ∈ partialRegs, a.1 ≠ 3 → t.load (P.ctx + BitVec.ofNat 64 (8 * a.1)) = s.reg a.2 := by
      intro a ha hne
      obtain ⟨hlo, hhi⟩ := partialRegs_slot a ha
      rw [← hs.regs a ha]
      refine load_congr fun x hx => ht.spares.ctx x (Place.inCtx_of_slot (Nat.lt_trans hhi (by norm_num)) hx) ?_ ?_
      · unfold Place.inRax
        bv_omega
      · unfold Place.inTp
        bv_omega
    have hreg := lfiSyscallReturn_reg P.T hctx
    constructor
    case rip => exact hr11
    case rax =>
      refine (hreg (3, .rax) (by decide) (by decide)).trans ?_
      simp only [LFIContext.read, TuxRegs.read, BitVec.add_assoc]
      rfl
    case rcx => rfl
    case other =>
      intro r hrax hrcx
      rcases reg_cases hrax hrcx with ⟨a, ha, rfl, hne, hslot⟩ | rfl | hr
      · -- slot `3` is the only one of the saved registers that the handler stores to
        exact (hreg a ha hne).trans (hregs a ha hslot)
      · exact hr11
      · have hsaved : r ∈ calleeSaved := (by decide : [.r12, .r13, .r14, .r15] ⊆ calleeSaved) hr
        rw [lfiSyscallReturn_kept P.T t r hr, ht.saved r hsaved, hs.saved r hsaved]

/-- The way back is taken with the kernel stack, from a state that has it in memory. -/
lemma Entered.popped (h : Entered P s0 s) (hsp : s0.reg .rsp = P.sp) {t : State}
    (hk : t.reg .rsp = P.kstackp) (hmem : ∀ x, P.inFrame x → t.mem x = s.mem x) :
    Returned s0 (t.reg .rax) (run P.T Runtime.popCalleeSaved t) := by
  have hslot : ∀ {i : Nat}, i < 7 →
      t.load (P.kstackp + BitVec.ofNat 64 (8 * i)) = s.load (P.kstackp + BitVec.ofNat 64 (8 * i)) :=
    fun hi => load_congr fun x hx => hmem x (Place.inFrame_of_slot hi hx)
  refine popCalleeSaved_returned P.T hk ?_ ?_ ?_
  · rw [hsp, Place.sp_eq]
    rfl
  · intro a ha
    exact (hslot (Nat.lt_succ_of_lt (frameRegs_lt a ha))).trans (h.frame a ha)
  · rw [hsp, ← h.ret, Place.sp_eq]
    exact hslot (by decide)

/-- The end of a run returns to the host. -/
lemma Entered.returned (hP : P.Apart) (h : Entered P s0 s) (hsp : s0.reg .rsp = P.sp) {v : Word}
    (he : Ends P next s v s') : Returned s0 v s' := by
  cases he with
  | ret =>
    have hk : (run P.T [.gottpoff .r11, .loadFs .r11 .r11, .load 0 .r11 .rsp] s).reg .rsp = P.kstackp := by
      refine Eq.trans (?_ : _ = s.load (P.ctx + BitVec.ofNat 64 0)) ?_
      · rw [← h.myctx]
        rfl
      · rw [BitVec.add_zero]
        exact h.kstackp
    rw [Runtime.lfiRet, run_append]
    exact h.popped (t := run P.T [.gottpoff .r11, .loadFs .r11 .r11, .load 0 .r11 .rsp] s) hsp hk fun _ _ => rfl
  | @exit t ht hrdi =>
    -- the frame and `kstackp` outlive the handler, whatever became of `lfi_myctx`
    have hs := h.saved hP next
    have hframe : ∀ x, P.inFrame x → t.mem x = s.mem x := by
      intro x hx
      refine Eq.trans (ht.frames x ?_) (hs.other x (.inl hx))
      rw [hs.rsp]
      exact Place.inFrame_above hx
    have hk : t.reg .rdi = P.kstackp := by
      rw [hrdi, ← h.kstackp]
      refine load_congr fun x hx => ?_
      obtain ⟨hctx, hrax, htp⟩ := Place.kstackp_kept hx
      exact (ht.ctx x hctx hrax htp).trans (hs.other x (.inr (.inl hx)))
    rw [Runtime.lfiAsmCtxExit, run_append]
    exact h.popped (t := run P.T [.mov .rdi .rsp, .mov .rsi .rax] t) hsp hk hframe

/-- The runtime is transparent: in every run, a syscall resumes the guest with its registers, and the end
returns to the host with its own. -/
theorem runtime_transparent {es : List Ev} (h : Called P s0)
    (hr : Run (Step P next) (run P.T Runtime.lfiCtxEntry s0) es s) :
    (∀ s', Step P next s .syscall s' → Resumes P s s') ∧ ∀ v s', Ends P next s v s' → Returned s0 v s' := by
  have hentered : Entered P s0 s := Run.invariant (fun hi hst => hi.step h.apart hst) h.entered hr
  exact ⟨fun s' hst => hentered.resumes h.apart hst, fun v s' he => hentered.returned h.apart h.rsp he⟩

end

/-- A stack below 2^15, a context, the variable and a sandbox. -/
def Place.small : Place := ⟨⟨0x2000, 0⟩, 0x1000, 0x8000, fun x => x - 0x100000 < 0x100000⟩

/-- A host that calls `lfi_ctx_entry`. -/
def hostState : State where
  reg
    | .rdi => 0x1000
    | .rsi => 0x1000
    | .rsp => 0x8000
    | .rbx => 1
    | .r15 => 2
    | _ => 0
  gsbase := 0
  rip := 0
  mem := splice (fun _ => 0) 0x2000 8 (bytes64 0x1000)

/-- The host calls into it. -/
lemma small_called : Called .small hostState where
  apart := by
    constructor
    case stack_ctx =>
      intro x
      unfold Place.inStack Place.inCtx Place.kstackp Place.small
      bv_omega
    case stack_tls =>
      intro x
      unfold Place.inStack Place.inTls Place.kstackp Place.small Tls.myctx
      bv_omega
    case ctx_tls =>
      intro x
      unfold Place.inCtx Place.inTls Place.small Tls.myctx
      bv_omega
    case sandbox =>
      intro x hx
      unfold Place.inFrame Place.inCtx Place.inTls Place.kstackp Tls.myctx
      unfold Place.small at hx ⊢
      refine ⟨?_, ?_, ?_⟩
      · bv_omega
      · bv_omega
      · bv_omega
  rdi := rfl
  rsi := rfl
  rsp := rfl
  myctx := le_splice _ _ _

/-- A handler that returns at once. -/
def returnAtOnce (s : State) : State := s.set .rsp (s.reg .rsp + 8)

/-- That is what a handler does. -/
lemma returnAtOnce_handles (P : Place) (s : State) : Handles P s (returnAtOnce s) where
  rsp := rfl
  saved r hr := by
    have hne : ∀ r ∈ calleeSaved, r ≠ .rsp := by decide
    exact if_neg (hne r hr)
  spares := ⟨fun _ _ => rfl, fun _ _ _ _ => rfl⟩
  myctx _ _ := rfl

/-- A guest that makes a syscall and returns. -/
def syscalled : State :=
  run Place.small.T Runtime.lfiSyscallReturn (returnAtOnce
    (run Place.small.T (Runtime.lfiSyscallEntry 0) (run Place.small.T Runtime.lfiCtxEntry hostState)))

/-- A sandbox that makes one syscall, and returns. -/
theorem runtime_transparent_syscall :
    Returned hostState (syscalled.reg .rax) (run Place.small.T Runtime.lfiRet syscalled) := by
  have hr : Run (Step .small 0) (run Place.small.T Runtime.lfiCtxEntry hostState) [.syscall] syscalled :=
    .snoc (.nil _) (.syscall (returnAtOnce_handles _ _))
  exact (runtime_transparent small_called hr).2 _ _ .ret

end Libtux.X64
