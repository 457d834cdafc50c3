import Libtux.Arch.Regs
import Libtux.Lib.Bytes

/-!
# Instructions

The instructions of x86-64 that `src/pal/arch/x64/runtime.S` is written in, with their operands in the order of
the source. A program is a list that is run from its beginning to its end; only the last instruction of a list
jumps. Flags are left out.
-/

namespace Libtux.X64
open Lib

/-- The general-purpose registers. -/
inductive Reg where
  | rsp
  | rax
  | rcx
  | rdx
  | rbx
  | rbp
  | rsi
  | rdi
  | r8
  | r9
  | r10
  | r11
  | r12
  | r13
  | r14
  | r15
  deriving DecidableEq

/-- The processor and the memory. -/
@[ext] structure State where
  reg : Reg → Word
  gsbase : Word
  rip : Word
  mem : Word → Byte

/-- Where the variables of the thread are: the base of `fs`, and the offset of `lfi_myctx`. -/
structure Tls where
  fsbase : Word
  tpoff : Word

/-- The address of `lfi_myctx`. -/
def Tls.myctx (T : Tls) : Word := T.fsbase + T.tpoff

namespace State

/-- A register is set. -/
def set (s : State) (r : Reg) (v : Word) : State := { s with reg := fun i => if i = r then v else s.reg i }

/-- A word is loaded. -/
def load (s : State) (p : Word) : Word := le s.mem p 8 64

/-- A word is stored. -/
def store (s : State) (p v : Word) : State := { s with mem := splice s.mem p 8 (bytes64 v) }

end State

/-- The instructions of `runtime.S`, in the order of their operands there. -/
inductive Instr where
  | mov (src dst : Reg)
  | movImm (v : Word) (dst : Reg)
  /-- `mov off(base), dst`. -/
  | load (off : Nat) (base dst : Reg)
  /-- `mov src, off(base)`. -/
  | store (src : Reg) (off : Nat) (base : Reg)
  | push (src : Reg)
  | pop (dst : Reg)
  | add (v : Word) (dst : Reg)
  | sub (v : Word) (dst : Reg)
  /-- `mov lfi_myctx@gottpoff(%rip), dst`. -/
  | gottpoff (dst : Reg)
  /-- `movq %fs:(src), dst`. -/
  | loadFs (src dst : Reg)
  | wrgsbase (src : Reg)
  | jmp (target : Reg)
  /-- `call`, as far as the address `next` of the next instruction is pushed. -/
  | call (next : Word)
  | ret

/-- Push a word. -/
def State.push (s : State) (v : Word) : State :=
  (s.set .rsp (s.reg .rsp - 8)).store (s.reg .rsp - 8) v

/-- What an instruction does. -/
def Instr.exec (T : Tls) (s : State) : Instr → State
  | .mov src dst => s.set dst (s.reg src)
  | .movImm v dst => s.set dst v
  | .load off base dst => s.set dst (s.load (s.reg base + BitVec.ofNat 64 off))
  | .store src off base => s.store (s.reg base + BitVec.ofNat 64 off) (s.reg src)
  | .push src => s.push (s.reg src)
  | .pop dst => (s.set .rsp (s.reg .rsp + 8)).set dst (s.load (s.reg .rsp))
  | .add v dst => s.set dst (s.reg dst + v)
  | .sub v dst => s.set dst (s.reg dst - v)
  | .gottpoff dst => s.set dst T.tpoff
  | .loadFs src dst => s.set dst (s.load (T.fsbase + s.reg src))
  | .wrgsbase src => { s with gsbase := s.reg src }
  | .jmp target => { s with rip := s.reg target }
  | .call next => s.push next
  | .ret => { s.set .rsp (s.reg .rsp + 8) with rip := s.load (s.reg .rsp) }

/-- Run a program. -/
def run (T : Tls) (l : List Instr) (s : State) : State := l.foldl (Instr.exec T) s

/-- Instructions after instructions. -/
lemma run_append (T : Tls) (l l' : List Instr) (s : State) : run T (l ++ l') s = run T l' (run T l s) :=
  List.foldl_append

/-- `struct TuxRegs` in memory. -/
def TuxRegs.read (load : Word → Word) (p : Word) : TuxRegs where
  rsp := load p
  rax := load (p + 8)
  rcx := load (p + 16)
  rdx := load (p + 24)
  rbx := load (p + 32)
  rbp := load (p + 40)
  rsi := load (p + 48)
  rdi := load (p + 56)
  r8 := load (p + 64)
  r9 := load (p + 72)
  r10 := load (p + 80)
  r11 := load (p + 88)
  r12 := load (p + 96)
  r13 := load (p + 104)
  r14 := load (p + 112)
  r15 := load (p + 120)
  fs := load (p + 128)
  gs := load (p + 136)

/-- `struct LFIContext`, as far as the runtime reads it. -/
structure LFIContext where
  kstackp : Word
  tp : Word
  regs : TuxRegs

/-- The context at `p`. -/
def LFIContext.read (load : Word → Word) (p : Word) : LFIContext where
  kstackp := load p
  tp := load (p + 8)
  regs := TuxRegs.read load (p + 16)

/-- The registers of the processor. -/
def State.cpu (s : State) : Cpu where
  rsp := s.reg .rsp
  rax := s.reg .rax
  rcx := s.reg .rcx
  rdx := s.reg .rdx
  rbx := s.reg .rbx
  rbp := s.reg .rbp
  rsi := s.reg .rsi
  rdi := s.reg .rdi
  r8 := s.reg .r8
  r9 := s.reg .r9
  r10 := s.reg .r10
  r11 := s.reg .r11
  r12 := s.reg .r12
  r13 := s.reg .r13
  r14 := s.reg .r14
  r15 := s.reg .r15
  gsbase := s.gsbase
  rip := s.rip

/-- A load depends on the bytes that it reads. -/
lemma load_congr {s s' : State} {p : Word} (h : ∀ x, x - p < 8 → s'.mem x = s.mem x) : s'.load p = s.load p := by
  refine le_congr fun k hk => h _ ?_
  bv_omega

/-! ## Slots -/

/-- The registers with their slots. -/
def State.slots (s : State) (l : List (Nat × Reg)) : List (Nat × Word) := l.map fun a => (a.1, s.reg a.2)

/-- The slots that registers are pushed to, above the stack pointer in the end. -/
def pushSlots : List Reg → List (Nat × Reg)
  | [] => []
  | r :: l => (l.length, r) :: pushSlots l

/-- Registers are stored in their slots. -/
lemma run_stores (T : Tls) (base : Reg) (l : List (Nat × Reg)) (s : State) :
    run T (l.map fun a => .store a.2 (8 * a.1) base) s =
      { s with mem := putSlots s.mem (s.reg base) (s.slots l) } := by
  induction l generalizing s with
  | nil => rfl
  | cons a l ih => exact ih _

namespace State

/-- The last value of a register counts. -/
lemma set_set (s : State) (r : Reg) (v w : Word) : (s.set r v).set r w = s.set r w := by
  refine congrArg (fun f => ({ s with reg := f } : State)) (funext fun i => ?_)
  by_cases h : i = r
  · simp [h]
  · simp [State.set, h]

/-- A register that is set to what it has. -/
lemma set_self (s : State) (r : Reg) : s.set r (s.reg r) = s := by
  refine congrArg (fun f => ({ s with reg := f } : State)) (funext fun i => ?_)
  by_cases h : i = r
  · simp [h]
  · simp [h]

/-- Slots depend on their registers. -/
lemma slots_congr {s s' : State} {l : List (Nat × Reg)} (h : ∀ a ∈ l, s'.reg a.2 = s.reg a.2) :
    s'.slots l = s.slots l :=
  List.map_congr_left fun a ha => by rw [h a ha]

end State

/-- What is pushed is in the list. -/
lemma mem_of_mem_pushSlots {l : List Reg} {a : Nat × Reg} (ha : a ∈ pushSlots l) : a.2 ∈ l := by
  induction l with
  | nil => cases ha
  | cons r l ih =>
    cases ha with
    | head => exact List.mem_cons_self
    | tail _ ha => exact List.mem_cons_of_mem _ (ih ha)

/-- Registers are pushed to their slots. -/
lemma run_pushes (T : Tls) {l : List Reg} {s : State} {k : Word} (hl : .rsp ∉ l)
    (hk : s.reg .rsp = k + BitVec.ofNat 64 (8 * l.length)) : run T (l.map .push) s =
      { s.set .rsp k with mem := putSlots s.mem k (s.slots (pushSlots l)) } := by
  -- the slots are counted from `k`, where the last word goes, so the rest of the list keeps them
  induction l generalizing s with
  | nil =>
    have hrsp : k = s.reg .rsp := by
      rw [hk]
      exact (BitVec.add_zero k).symm
    rw [hrsp, State.set_self]
    rfl
  | cons r l ih =>
    rw [List.length_cons] at hk
    rw [List.mem_cons, not_or] at hl
    have htop : s.reg .rsp - 8 = k + BitVec.ofNat 64 (8 * l.length) := by
      rw [hk]
      bv_omega
    have hslots : (s.push (s.reg r)).slots (pushSlots l) = s.slots (pushSlots l) := by
      refine State.slots_congr fun a ha => if_neg ?_
      intro hrsp
      exact hl.2 (hrsp ▸ mem_of_mem_pushSlots ha)
    have hset : (s.push (s.reg r)).set .rsp k = { s.set .rsp k with mem := (s.push (s.reg r)).mem } :=
      congrArg (fun t : State => { t with mem := (s.push (s.reg r)).mem }) (s.set_set .rsp _ k)
    have hmem : (s.push (s.reg r)).mem =
        splice s.mem (k + BitVec.ofNat 64 (8 * l.length)) 8 (bytes64 (s.reg r)) := by
      rw [← htop]
      rfl
    calc run T ((r :: l).map .push) s = run T (l.map .push) (s.push (s.reg r)) := rfl
      _ = { (s.push (s.reg r)).set .rsp k with
            mem := putSlots (s.push (s.reg r)).mem k ((s.push (s.reg r)).slots (pushSlots l)) } :=
          ih hl.2 htop
      _ = _ := by
          rw [hslots, hset, hmem]
          rfl

end Libtux.X64
