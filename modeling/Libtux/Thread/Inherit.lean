import Libtux.Arch.Runtime
import Libtux.Sys.Clone
import Libtux.Thread.Sandbox

/-!
# The registers a thread inherits

A runtime call saves registers in the context of its thread (`SAVE_PARTIAL_REGS` in
`src/pal/arch/*/runtime.S`), but only those that a C function may clobber: the others survive in the
processor until the call returns. `procnewthread` copies the saved ones, and `lfi_ctx_entry` loads all of
them when it enters the new thread. What is not saved was never saved by anybody: it has been zero since
the context was made (`SaveArea.unsaved`).

So a thread inherits what it should exactly when its parent has zeros in the registers that are not saved
(`clone_inherits`).
-/

namespace Libtux
open Lib

/-- `SAVE_PARTIAL_REGS` on x64. -/
def X64.savePartialRegs (regs : TuxRegs) (cpu : Cpu) : TuxRegs :=
  { regs with
    rsp := cpu.rsp
    rax := cpu.rax
    rdx := cpu.rdx
    rbx := cpu.rbx
    rbp := cpu.rbp
    rsi := cpu.rsi
    rdi := cpu.rdi
    r8 := cpu.r8
    r9 := cpu.r9
    r10 := cpu.r10
    r11 := cpu.r11 }

/-- It is what the instructions do to the context of the thread. -/
lemma X64.savePartialRegs_read (T : Tls) (s : State) :
    (LFIContext.read (run T Runtime.savePartialRegs s).load (s.load T.myctx)).regs =
      savePartialRegs (LFIContext.read s.load (s.load T.myctx)).regs s.cpu := by
  have hlt : ∀ b ∈ s.slots partialRegs, b.1 < 2 ^ 32 :=
    fun b hb => Nat.lt_trans (slots_partialRegs s b hb).2 (by norm_num)
  have hload : ∀ p, (run T Runtime.savePartialRegs s).load p =
      le (putSlots s.mem (s.load T.myctx) (s.slots partialRegs)) p 8 64 := by
    intro p
    rw [savePartialRegs_run]
    rfl
  have hstored : ∀ a ∈ partialRegs, (run T Runtime.savePartialRegs s).load
      (s.load T.myctx + BitVec.ofNat 64 (8 * a.1)) = s.reg a.2 := by
    intro a ha
    rw [hload]
    exact le_putSlots hlt (by simp [State.slots, partialRegs]) (List.mem_map.mpr ⟨a, ha, rfl⟩)
  have hkept : ∀ i ∈ [4, 14, 15, 16, 17, 18, 19], (run T Runtime.savePartialRegs s).load
      (s.load T.myctx + BitVec.ofNat 64 (8 * i)) = s.load (s.load T.myctx + BitVec.ofNat 64 (8 * i)) := by
    intro i hi
    have hne : ∀ i ∈ [4, 14, 15, 16, 17, 18, 19], i < 2 ^ 32 ∧ ∀ a ∈ partialRegs, a.1 ≠ i := by decide
    rw [hload]
    refine le_putSlots_of_notMem (hne i hi).1 fun b hb => ⟨hlt b hb, ?_⟩
    obtain ⟨c, hc, rfl⟩ := List.mem_map.mp hb
    exact (hne i hi).2 c hc
  simp only [LFIContext.read, TuxRegs.read, savePartialRegs, State.cpu, TuxRegs.mk.injEq, BitVec.add_assoc]
  exact ⟨hstored (2, .rsp) (by decide), hstored (3, .rax) (by decide), hkept 4 (by decide),
    hstored (5, .rdx) (by decide), hstored (6, .rbx) (by decide), hstored (7, .rbp) (by decide),
    hstored (8, .rsi) (by decide), hstored (9, .rdi) (by decide), hstored (10, .r8) (by decide),
    hstored (11, .r9) (by decide), hstored (12, .r10) (by decide), hstored (13, .r11) (by decide),
    hkept 14 (by decide), hkept 15 (by decide), hkept 16 (by decide), hkept 17 (by decide),
    hkept 18 (by decide), hkept 19 (by decide)⟩

/-- `SAVE_PARTIAL_REGS` on arm64: `x0` to `x18`, `x30` and the stack pointer. -/
def Arm64.savePartialRegs (regs : TuxRegs) (cpu : Cpu) : TuxRegs where
  x i := if i.val ≤ 18 ∨ i = 30 then cpu.x i else regs.x i
  sp := cpu.sp

/-- The registers of the processor. -/
def Arch.Cpu : Arch → Type
  | .x64 => X64.Cpu
  | .arm64 => Arm64.Cpu

/-- What a runtime call saves. -/
def Arch.save : (A : Arch) → A.machine.Regs → A.Cpu → A.machine.Regs
  | .x64 => X64.savePartialRegs
  | .arm64 => Arm64.savePartialRegs

/-- What `lfi_ctx_entry` loads. -/
def Arch.load : (A : Arch) → A.machine.Regs → A.Cpu
  | .x64 => X64.lfiRestoreRegs
  | .arm64 => Arm64.lfiRestoreRegs

/-- The registers that can be saved in a context of an address space: those of a new context, of one whose
thread made a call with the registers `cpu`, and of one that such a call made for a new thread. -/
inductive SaveArea (A : Arch) (base sys : Word) : A.machine.Regs → Prop where
  | init (entry sp : Word) :
    SaveArea A base sys (A.machine.regsInit (A.machine.lfiRegsInit A.machine.zero base sys) entry sp)
  | call {regs : A.machine.Regs} (cpu : A.Cpu) (v : Word) :
    SaveArea A base sys regs → SaveArea A base sys (A.machine.regsReturn (A.save regs cpu) v)
  | clone {regs : A.machine.Regs} (cpu : A.Cpu) (stack : Word) :
    SaveArea A base sys regs →
    SaveArea A base sys (A.machine.regsSp (A.machine.regsReturn (A.save regs cpu) 0) stack)

/-- The registers of arm64 that are neither saved nor reserved. -/
def Arm64.unsaved : List (Fin 31) := [19, 20, 22, 23, 24, 26, 27, 28, 29]

/-- The reserved registers are as `lfi_regs_init` set them, and the others that are not saved are zero. -/
def Unsaved : (A : Arch) → (base sys : Word) → A.machine.Regs → Prop
  | .x64, base, sys, (regs : X64.TuxRegs) =>
    regs.r12 = 0 ∧ regs.r13 = sys ∧ regs.r14 = base ∧ regs.r15 = 0
  | .arm64, base, sys, (regs : Arm64.TuxRegs) =>
    regs.x Arm64.REG_BASE = base ∧ regs.x Arm64.REG_SYS = sys ∧ ∀ r ∈ Arm64.unsaved, regs.x r = 0

/-- What a new thread should start with, for a parent with the registers `cpu`: the parent's registers, but
`0` as the result, its own stack, and what is reserved. `rcx` is clobbered by the call. -/
def Inherits : (A : Arch) → (cpu child : A.Cpu) → (stack base sys : Word) → Prop
  | .x64, (cpu : X64.Cpu), (child : X64.Cpu), stack, base, sys =>
    child.rax = 0 ∧ child.rsp = stack ∧ child.r13 = sys ∧ child.r14 = base ∧
    child.rdx = cpu.rdx ∧ child.rbx = cpu.rbx ∧ child.rbp = cpu.rbp ∧ child.rsi = cpu.rsi ∧
    child.rdi = cpu.rdi ∧ child.r8 = cpu.r8 ∧ child.r9 = cpu.r9 ∧ child.r10 = cpu.r10 ∧
    child.r11 = cpu.r11 ∧ child.r12 = cpu.r12 ∧ child.r15 = cpu.r15
  | .arm64, (cpu : Arm64.Cpu), (child : Arm64.Cpu), stack, base, sys =>
    child.x 0 = 0 ∧ child.sp = stack ∧ child.x Arm64.REG_BASE = base ∧ child.x Arm64.REG_SYS = sys ∧
    ∀ r, r ≠ 0 → r ≠ Arm64.REG_BASE → r ≠ Arm64.REG_SYS → child.x r = cpu.x r

/-- The parent has zeros where nothing is saved. -/
def UnsavedZero : (A : Arch) → A.Cpu → Prop
  | .x64, (cpu : X64.Cpu) => cpu.r12 = 0 ∧ cpu.r15 = 0
  | .arm64, (cpu : Arm64.Cpu) => ∀ r ∈ Arm64.unsaved, cpu.x r = 0

section
variable {L : LibMMap} {H : HostVm} {O : HostOs} {opts : TuxOptions} {A : Arch} {base sys : Word}

/-- What is saved leaves the registers that are not, -/
lemma Unsaved.save {regs : A.machine.Regs} (h : Unsaved A base sys regs) (cpu : A.Cpu) :
    Unsaved A base sys (A.save regs cpu) := by
  cases A with
  | x64 => exact h
  | arm64 =>
    obtain ⟨hb, hs, hz⟩ := h
    have hkeep : ∀ r ∈ Arm64.unsaved, ¬ (r.val ≤ 18 ∨ r = 30) := by decide
    exact ⟨hb, hs, fun r hr => (if_neg (hkeep r hr)).trans (hz r hr)⟩

/-- and so does the result of a call -/
lemma Unsaved.regsReturn {regs : A.machine.Regs} (h : Unsaved A base sys regs) (v : Word) :
    Unsaved A base sys (A.machine.regsReturn regs v) := by
  cases A with
  | x64 => exact h
  | arm64 =>
    obtain ⟨hb, hs, hz⟩ := h
    have hne : ∀ r ∈ Arm64.unsaved, r ≠ 0 := by decide
    exact ⟨hb, hs, fun r hr => (if_neg (hne r hr)).trans (hz r hr)⟩

/-- or a new stack pointer. -/
lemma Unsaved.regsSp {regs : A.machine.Regs} (h : Unsaved A base sys regs) (v : Word) :
    Unsaved A base sys (A.machine.regsSp regs v) := by
  cases A with
  | x64 => exact h
  | arm64 => exact h

/-- What is not saved is as it was made. -/
lemma SaveArea.unsaved {regs : A.machine.Regs} (h : SaveArea A base sys regs) :
    Unsaved A base sys regs := by
  induction h with
  | init entry sp =>
    cases A with
    | x64 => exact ⟨rfl, rfl, rfl, rfl⟩
    | arm64 =>
      refine ⟨rfl, rfl, fun r hr => ?_⟩
      fin_cases hr <;> rfl
  | call cpu v _ ih => exact (ih.save cpu).regsReturn v
  | clone cpu stack _ ih => exact ((ih.save cpu).regsReturn 0).regsSp stack

/-- What a new thread starts with, register by register. -/
lemma inherits_iff {regs : A.machine.Regs} (h : Unsaved A base sys regs) (cpu : A.Cpu) (stack : Word) :
    Inherits A cpu (A.load (A.machine.regsSp (A.machine.regsReturn (A.save regs cpu) 0) stack)) stack base
      sys ↔ UnsavedZero A cpu := by
  cases A with
  | x64 =>
    obtain ⟨h12, h13, h14, h15⟩ := h
    constructor
    · rintro ⟨-, -, -, -, -, -, -, -, -, -, -, -, -, he, he'⟩
      exact ⟨he.symm.trans h12, he'.symm.trans h15⟩
    · rintro ⟨hz, hz'⟩
      exact ⟨rfl, rfl, h13, h14, rfl, rfl, rfl, rfl, rfl, rfl, rfl, rfl, rfl, h12.trans hz.symm,
        h15.trans hz'.symm⟩
  | arm64 =>
    obtain ⟨hb, hs, hz⟩ := h
    have hne : ∀ r ∈ Arm64.unsaved, r ≠ 0 ∧ r ≠ Arm64.REG_BASE ∧ r ≠ Arm64.REG_SYS ∧
        ¬ (r.val ≤ 18 ∨ r = 30) := by decide
    have hmem : ∀ r : Fin 31, ¬ (r.val ≤ 18 ∨ r = 30) → r ≠ Arm64.REG_BASE → r ≠ Arm64.REG_SYS →
        r ∈ Arm64.unsaved := by decide
    constructor
    · rintro ⟨-, -, -, -, he⟩ r hr
      obtain ⟨h0, h1, h2, hnot⟩ := hne r hr
      have hchild : (if r = 0 then 0 else if r.val ≤ 18 ∨ r = 30 then Arm64.Cpu.x cpu r
          else Arm64.TuxRegs.x regs r) = Arm64.Cpu.x cpu r := he r h0 h1 h2
      rw [if_neg h0, if_neg hnot] at hchild
      exact hchild.symm.trans (hz r hr)
    · intro hzero
      refine ⟨rfl, rfl, hb, hs, fun r h0 h1 h2 => ?_⟩
      show (if r = 0 then 0 else if r.val ≤ 18 ∨ r = 30 then Arm64.Cpu.x cpu r
          else Arm64.TuxRegs.x regs r) = Arm64.Cpu.x cpu r
      rw [if_neg h0]
      split
      · rfl
      next hnot =>
        have hr := hmem r hnot h1 h2
        exact (hz r hr).trans (hzero r hr).symm

/-- The state in which a runtime call is handled. -/
def World.entered (w : World L A.machine) (cpu : A.Cpu) : World L A.machine :=
  { w with p := { w.p with regs := A.save w.p.regs cpu } }

/-- The call of a parent with the registers `cpu`. -/
def World.request (w : World L A.machine) (cpu : A.Cpu) : Word × Args := A.request (w.entered cpu).p.regs

/-- What `arch_syshandle` does after a call starts nothing. -/
lemma started_andThen {r : Res Stop Ev (World L A.machine) Word} :
    (Exec.andThen r fun v => Exec.modify fun w : World L A.machine =>
      { w with p := { w.p with regs := A.machine.regsReturn w.p.regs v } }).st.started = r.st.started := by
  obtain ⟨v, w, l⟩ := r
  cases v with
  | error e => rfl
  | ok v => rfl

/-- A thread that a call starts is the copy of what the call saved. -/
lemma archSyshandle_clone {w : World L A.machine} {p2 : Spawned A.machine}
    (hsys : A.sysno (A.request w.p.regs).1 = some .clone)
    (hstart : ((archSyshandle H O opts A).run w).st.started = p2 :: w.started) :
    p2.regs = A.machine.regsSp (A.machine.regsReturn w.p.regs 0) (A.request w.p.regs).2.a1 := by
  rw [archSyshandle, Exec.bind_run, Exec.get_run, Exec.andThen_ok_nil, Exec.bind_run, started_andThen,
    syshandle, hsys] at hstart
  cases A with
  | x64 =>
    obtain ⟨flags, -, rfl⟩ := sysClone_started hstart
    rfl
  | arm64 =>
    obtain ⟨flags, -, rfl⟩ := sysClone_started hstart
    rfl

/-- A thread inherits what it should exactly when its parent has zeros where nothing is saved. -/
theorem clone_inherits {w : World L A.machine} {p2 : Spawned A.machine} (cpu : A.Cpu)
    (hsave : SaveArea A base sys w.p.regs) (hsys : A.sysno (w.request cpu).1 = some .clone)
    (hstart : ((archSyshandle H O opts A).run (w.entered cpu)).st.started = p2 :: w.started) :
    Inherits A cpu (A.load p2.regs) (w.request cpu).2.a1 base sys ↔ UnsavedZero A cpu := by
  have hregs := archSyshandle_clone hsys hstart
  rw [hregs]
  exact inherits_iff hsave.unsaved cpu _

end

/-- The first thread of a process on x64, once its registers are set. -/
def firstWorld : World .ofRanges (Arch.machine .x64) :=
  let p := procnewfile (M := Arch.machine .x64) (.fresh .plain) 10000
  .ofThread { p with regs := (Arch.machine .x64).regsInit p.regs 0x100010000 0x1f0000000 }

/-- A processor in a clone call with the required flags, with `r12` in it. -/
def cloneCpu (r12 : Word) : Arch.Cpu .x64 :=
  X64.lfiRestoreRegs { X64.TuxRegs.zero with rax := 56, rdi := 0x10f00, rsi := 0x100200000, r12 }

/-- Its context is set up for its sandbox. -/
lemma firstWorld_save : SaveArea .x64 0x100000000 0x100000000 firstWorld.p.regs := .init _ _

/-- The thread that the call starts. -/
lemma firstWorld_clone (r12 : Word) :
    ((archSyshandle (.plain fun _ _ _ => true) .plain .plain .x64).run
      (firstWorld.entered (cloneCpu r12))).st.started =
      (firstWorld.entered (cloneCpu r12)).newthread.prepare 0x10f00 0x100200000 0 0 ::
        firstWorld.started := by
  have hsys : Arch.sysno .x64 (Arch.request .x64 (firstWorld.entered (cloneCpu r12)).p.regs).1 =
      some .clone := by
    change Arch.sysno .x64 56 = _
    decide
  rw [archSyshandle, Exec.bind_run, Exec.get_run, Exec.andThen_ok_nil, Exec.bind_run, started_andThen,
    syshandle, hsys]
  have hf : isfork 0x10f00 = false := by decide
  have hflags : spawnFlags 0x10f00 = some 0x10f00 := by decide
  exact sysClone_creates 0x100200000 0 0 0 hf hflags rfl rfl

/-- With a zero in `r12` everything is inherited. -/
theorem clone_inherits_zero :
    Inherits .x64 (cloneCpu 0)
      (Arch.load .x64 ((firstWorld.entered (cloneCpu 0)).newthread.prepare 0x10f00 0x100200000 0 0).regs)
      0x100200000 0x100000000 0x100000000 :=
  (clone_inherits (cloneCpu 0) firstWorld_save (by decide) (firstWorld_clone 0)).mpr ⟨rfl, rfl⟩

/-- A value in `r12` is lost. -/
theorem clone_loses_r12 :
    ((archSyshandle (.plain fun _ _ _ => true) .plain .plain .x64).run (firstWorld.entered (cloneCpu 7))).st.started =
      (firstWorld.entered (cloneCpu 7)).newthread.prepare 0x10f00 0x100200000 0 0 :: firstWorld.started ∧
    ¬ Inherits .x64 (cloneCpu 7)
      (Arch.load .x64 ((firstWorld.entered (cloneCpu 7)).newthread.prepare 0x10f00 0x100200000 0 0).regs)
      0x100200000 0x100000000 0x100000000 := by
  refine ⟨firstWorld_clone 7, fun h => ?_⟩
  obtain ⟨-, -, -, -, -, -, -, -, -, -, -, -, -, h12, -⟩ := h
  exact absurd h12 (by decide)

end Libtux
