import Libtux.Lib.Word

/-!
# Register files

Model of `struct TuxRegs` (`src/include/lfi_arch.h`), of its users `src/arch/*/regs.c` and
`src/pal/arch/*/regs.c`, and of `lfi_restore_regs` in `src/pal/arch/*/runtime.S`, which is how
`lfi_ctx_entry` enters the sandbox. The vector registers and the arm64 flag words are left out: nothing
here reads or writes them.

`Machine` is what the portable part of the runtime sees of an architecture: how a register file is
initialised and patched, the registers the sandbox rests on once it has been loaded (`Entry`), and the
size of the one structure whose layout differs.
-/

namespace Libtux
open Lib

/-- The registers the sandbox rests on, as the processor holds them when a context is entered: the
stack pointer, every register that must hold the base, the runtime-call register, and the address of
the first instruction. -/
structure Entry where
  sp : Word
  bases : List Word
  sys : Word
  pc : Word
  deriving DecidableEq

/-- An architecture, as the portable part of the runtime sees it. -/
structure Machine where
  Regs : Type
  /-- A register file of zeros. -/
  zero : Regs
  /-- `lfi_regs_init`, with the base of the address space and the sys page. -/
  lfiRegsInit : Regs → Word → Word → Regs
  /-- `regs_init`, with the entry point and the stack pointer. -/
  regsInit : Regs → Word → Word → Regs
  /-- Store through `regs_return`. -/
  regsReturn : Regs → Word → Regs
  /-- Store through `regs_sp`. -/
  regsSp : Regs → Word → Regs
  /-- What `lfi_ctx_entry` loads. -/
  lfiCtxEntry : Regs → Entry
  /-- `sizeof(struct Stat)`. -/
  statSize : Nat

namespace X64

/-- `struct TuxRegs`. -/
structure TuxRegs where
  rsp : Word
  rax : Word
  rcx : Word
  rdx : Word
  rbx : Word
  rbp : Word
  rsi : Word
  rdi : Word
  r8 : Word
  r9 : Word
  r10 : Word
  r11 : Word
  r12 : Word
  r13 : Word
  r14 : Word
  r15 : Word
  fs : Word
  gs : Word

/-- The general-purpose registers of the processor, the base of `gs` and the instruction pointer. -/
structure Cpu where
  rsp : Word
  rax : Word
  rcx : Word
  rdx : Word
  rbx : Word
  rbp : Word
  rsi : Word
  rdi : Word
  r8 : Word
  r9 : Word
  r10 : Word
  r11 : Word
  r12 : Word
  r13 : Word
  r14 : Word
  r15 : Word
  gsbase : Word
  rip : Word

/-- All registers are zero. -/
def TuxRegs.zero : TuxRegs := ⟨0, 0, 0, 0, 0, 0, 0, 0, 0, 0, 0, 0, 0, 0, 0, 0, 0, 0⟩

/-- `lfi_regs_init`. -/
def lfiRegsInit (regs : TuxRegs) (base sys : Word) : TuxRegs :=
  { regs with r14 := base, gs := base, rsp := base, r13 := sys }

/-- `regs_init`. -/
def regsInit (regs : TuxRegs) (entry sp : Word) : TuxRegs := { regs with rsp := sp, r11 := entry }

/-- `regs_return`. -/
def regsReturn (regs : TuxRegs) (v : Word) : TuxRegs := { regs with rax := v }

/-- `regs_sp`. -/
def regsSp (regs : TuxRegs) (v : Word) : TuxRegs := { regs with rsp := v }

/-- `lfi_restore_regs`: every register is loaded from its slot, `gs` through `r11` first, and the jump
goes to what `r11` holds in the end. -/
def lfiRestoreRegs (regs : TuxRegs) : Cpu where
  rsp := regs.rsp
  rax := regs.rax
  rcx := regs.rcx
  rdx := regs.rdx
  rbx := regs.rbx
  rbp := regs.rbp
  rsi := regs.rsi
  rdi := regs.rdi
  r8 := regs.r8
  r9 := regs.r9
  r10 := regs.r10
  r11 := regs.r11
  r12 := regs.r12
  r13 := regs.r13
  r14 := regs.r14
  r15 := regs.r15
  gsbase := regs.gs
  rip := regs.r11

end X64

namespace Arm64

instance neZero_regs : NeZero (31 : Nat) := ⟨by decide⟩

/-- `struct TuxRegs`: `x0` to `x30`, and the stack pointer. -/
structure TuxRegs where
  x : Fin 31 → Word
  sp : Word

/-- The general-purpose registers of the processor and the program counter. -/
structure Cpu where
  x : Fin 31 → Word
  sp : Word
  pc : Word

def REG_ADDR : Fin 31 := 18
def REG_BASE : Fin 31 := 21
def REG_SYS : Fin 31 := 25

/-- Store to one register. -/
def TuxRegs.set (regs : TuxRegs) (r : Fin 31) (v : Word) : TuxRegs :=
  { regs with x := fun i => if i = r then v else regs.x i }

/-- All registers are zero. -/
def TuxRegs.zero : TuxRegs := ⟨fun _ => 0, 0⟩

/-- `lfi_regs_init`. -/
def lfiRegsInit (regs : TuxRegs) (base sys : Word) : TuxRegs :=
  { (((regs.set REG_BASE base).set REG_ADDR base).set 30 base).set REG_SYS sys with sp := base }

/-- `regs_init`. -/
def regsInit (regs : TuxRegs) (entry sp : Word) : TuxRegs := { regs.set 30 entry with sp }

/-- `regs_return`. -/
def regsReturn (regs : TuxRegs) (v : Word) : TuxRegs := regs.set 0 v

/-- `regs_sp`. -/
def regsSp (regs : TuxRegs) (v : Word) : TuxRegs := { regs with sp := v }

/-- `lfi_restore_regs`: the stack pointer goes through `x1`, which is loaded last, and `ret` goes to
`x30`. -/
def lfiRestoreRegs (regs : TuxRegs) : Cpu where
  x := regs.x
  sp := regs.sp
  pc := regs.x 30

end Arm64

/-- `r14` and `gs` hold the base, `r13` the sys page. -/
def Machine.x64 : Machine where
  Regs := X64.TuxRegs
  zero := .zero
  lfiRegsInit := X64.lfiRegsInit
  regsInit := X64.regsInit
  regsReturn := X64.regsReturn
  regsSp := X64.regsSp
  lfiCtxEntry regs :=
    let cpu := X64.lfiRestoreRegs regs
    ⟨cpu.rsp, [cpu.r14, cpu.gsbase], cpu.r13, cpu.rip⟩
  statSize := 144

/-- `x21` holds the base, `x25` the sys page. -/
def Machine.arm64 : Machine where
  Regs := Arm64.TuxRegs
  zero := .zero
  lfiRegsInit := Arm64.lfiRegsInit
  regsInit := Arm64.regsInit
  regsReturn := Arm64.regsReturn
  regsSp := Arm64.regsSp
  lfiCtxEntry regs :=
    let cpu := Arm64.lfiRestoreRegs regs
    ⟨cpu.sp, [cpu.x Arm64.REG_BASE], cpu.x Arm64.REG_SYS, cpu.pc⟩
  statSize := 128

end Libtux
