import Libtux.Arch.Regs
import Libtux.Lib.Bytes

/-!
# Instructions of arm64

The instructions that `src/pal/arch/arm64/runtime.S` is written in, with their operands in the order of the
source. A program is a list that is run from its beginning to its end; only the last instruction of a list jumps.

A `Reg` is an operand of 64 bits: a general-purpose register, the stack pointer, or the lower half of a vector
register, whose upper half is cleared when it is written. So a pair of registers is saved by the same
instruction whatever they are. Flags are left out.
-/

namespace Libtux.Arm64
open Lib

/-- The registers that the runtime names. -/
inductive Reg where
  | x (i : Fin 31)
  | sp
  | d (i : Fin 32)
  deriving DecidableEq

/-- The processor and the memory. -/
@[ext] structure State where
  x : Fin 31 → Word
  sp : Word
  vec : Fin 32 → BitVec 128
  pc : Word
  mem : Word → Byte

/-- Where the variables of the thread are: the thread pointer of the host, and the offset of `lfi_myctx`, which
the linker refuses when it takes more than 24 bits. -/
structure Tls where
  tpidr : Word
  tpoff : Word
  tpoff_lt : tpoff.toNat < 2 ^ 24

namespace Tls

variable (T : Tls)

/-- The address of `lfi_myctx`. -/
def myctx : Word := T.tpidr + T.tpoff

/-- `#:tprel_hi12:lfi_myctx, lsl #12`. -/
def hi12 : Word := T.tpoff >>> 12 <<< 12

/-- `#:tprel_lo12_nc:lfi_myctx`. -/
def lo12 : Word := T.tpoff &&& 4095

/-- The two parts of the offset are added one after the other. -/
lemma add_hi12_lo12 : T.tpidr + T.hi12 + T.lo12 = T.myctx := by
  have hparts : T.hi12 + T.lo12 = T.tpoff := by
    apply BitVec.eq_of_toNat_eq
    have hlo : T.tpoff.toNat &&& 4095 = T.tpoff.toNat % 4096 := Nat.and_two_pow_sub_one_eq_mod _ 12
    have hlt := T.tpoff_lt
    have hdiv := Nat.div_add_mod T.tpoff.toNat 4096
    have hhi : T.hi12.toNat = T.tpoff.toNat / 4096 * 4096 := by
      rw [hi12, BitVec.toNat_shiftLeft, BitVec.toNat_ushiftRight, Nat.shiftRight_eq_div_pow, Nat.shiftLeft_eq]
      exact Nat.mod_eq_of_lt (by omega)
    rw [BitVec.toNat_add, hhi, lo12, BitVec.toNat_and, show (4095 : Word).toNat = 4095 from rfl, hlo,
      Nat.mod_eq_of_lt (by omega)]
    omega
  rw [BitVec.add_assoc, hparts]
  rfl

end Tls

namespace State

/-- What a register has. -/
def reg (s : State) : Reg → Word
  | .x i => s.x i
  | .sp => s.sp
  | .d i => (s.vec i).setWidth 64

/-- A vector register is set. -/
def setVec (s : State) (r : Fin 32) (v : BitVec 128) : State :=
  { s with vec := fun i => if i = r then v else s.vec i }

/-- A register is set. A write to the lower half of a vector register clears the upper one. -/
def set (s : State) : Reg → Word → State
  | .x r, v => { s with x := fun i => if i = r then v else s.x i }
  | .sp, v => { s with sp := v }
  | .d r, v => s.setVec r (v.setWidth 128)

/-- A word is loaded. -/
def load (s : State) (p : Word) : Word := le s.mem p 8 64

/-- A word is stored. -/
def store (s : State) (p v : Word) : State := { s with mem := splice s.mem p 8 (bytes64 v) }

end State

/-- The instructions of `runtime.S`. -/
inductive Instr where
  | mov (dst src : Reg)
  /-- `ldr dst, [base, off]`. -/
  | ldr (dst base : Reg) (off : Nat)
  /-- `str src, [base, off]`. -/
  | str (src base : Reg) (off : Nat)
  | ldp (dst dst' base : Reg) (off : Nat)
  | stp (src src' base : Reg) (off : Nat)
  /-- `ldr dst, [sp], off`. -/
  | ldrPost (dst : Reg) (off : Nat)
  /-- `str src, [sp, -off]!`. -/
  | strPre (src : Reg) (off : Nat)
  | ldpPost (dst dst' : Reg) (off : Nat)
  | stpPre (src src' : Reg) (off : Nat)
  /-- `ldp dst, dst', [base, off]` on vector registers. -/
  | ldpQ (dst dst' : Fin 32) (base : Reg) (off : Nat)
  /-- `movi dst.2D, #0`. -/
  | moviZero (dst : Fin 32)
  /-- `mrs dst, tpidr_el0`. -/
  | mrsTpidr (dst : Reg)
  | addHi12 (dst src : Reg)
  | addLo12 (dst src : Reg)
  /-- `add dst, base, src, uxtw`. -/
  | addUxtw (dst base src : Reg)
  /-- `bl`, as far as the address `next` of the next instruction is kept. -/
  | bl (next : Word)
  | br (target : Reg)
  | ret

/-- The lower half of a register, extended with zeros. -/
def uxtw (v : Word) : Word := (v.setWidth 32).setWidth 64

/-- What an instruction does. -/
def Instr.exec (T : Tls) (s : State) : Instr → State
  | .mov dst src => s.set dst (s.reg src)
  | .ldr dst base off => s.set dst (s.load (s.reg base + BitVec.ofNat 64 off))
  | .str src base off => s.store (s.reg base + BitVec.ofNat 64 off) (s.reg src)
  | .ldp dst dst' base off =>
    let p := s.reg base
    (s.set dst (s.load (p + BitVec.ofNat 64 off))).set dst' (s.load (p + BitVec.ofNat 64 (off + 8)))
  | .stp src src' base off =>
    let p := s.reg base
    (s.store (p + BitVec.ofNat 64 off) (s.reg src)).store (p + BitVec.ofNat 64 (off + 8)) (s.reg src')
  | .ldrPost dst off => (s.set .sp (s.sp + BitVec.ofNat 64 off)).set dst (s.load s.sp)
  | .strPre src off =>
    let p := s.sp - BitVec.ofNat 64 off
    (s.set .sp p).store p (s.reg src)
  | .ldpPost dst dst' off =>
    ((s.set .sp (s.sp + BitVec.ofNat 64 off)).set dst (s.load s.sp)).set dst' (s.load (s.sp + 8))
  | .stpPre src src' off =>
    let p := s.sp - BitVec.ofNat 64 off
    ((s.set .sp p).store p (s.reg src)).store (p + 8) (s.reg src')
  | .ldpQ dst dst' base off =>
    let p := s.reg base
    (s.setVec dst (le s.mem (p + BitVec.ofNat 64 off) 16 128)).setVec dst'
      (le s.mem (p + BitVec.ofNat 64 (off + 16)) 16 128)
  | .moviZero dst => s.setVec dst 0
  | .mrsTpidr dst => s.set dst T.tpidr
  | .addHi12 dst src => s.set dst (s.reg src + T.hi12)
  | .addLo12 dst src => s.set dst (s.reg src + T.lo12)
  | .addUxtw dst base src => s.set dst (s.reg base + uxtw (s.reg src))
  | .bl next => s.set (.x 30) next
  | .br target => { s with pc := s.reg target }
  | .ret => { s with pc := s.reg (.x 30) }

/-- Run a program. -/
def run (T : Tls) (l : List Instr) (s : State) : State := l.foldl (Instr.exec T) s

/-- Instructions after instructions. -/
lemma run_append (T : Tls) (l l' : List Instr) (s : State) : run T (l ++ l') s = run T l' (run T l s) :=
  List.foldl_append

/-- `struct TuxRegs` in memory. -/
def TuxRegs.read (load : Word → Word) (p : Word) : TuxRegs where
  x i := load (p + BitVec.ofNat 64 (8 * i))
  sp := load (p + 248)

/-- `struct LFIContext`, as far as the runtime reads it. -/
structure LFIContext where
  kstackp : Word
  tp : Word
  regs : TuxRegs

/-- The context at `p`. -/
def LFIContext.read (load : Word → Word) (p : Word) : LFIContext where
  kstackp := load p
  tp := load (p + 8)
  regs := TuxRegs.read load (p + 16)

/-- The registers of the processor. -/
def State.cpu (s : State) : Cpu := ⟨s.x, s.sp, s.pc⟩

/-- A load depends on the bytes that it reads. -/
lemma load_congr {s s' : State} {p : Word} (h : ∀ x, x - p < 8 → s'.mem x = s.mem x) : s'.load p = s.load p := by
  refine le_congr fun k hk => h _ ?_
  bv_omega

/-! ## Registers -/

namespace State

/-- The register has the new value, -/
lemma reg_set_self (s : State) (r : Reg) (v : Word) : (s.set r v).reg r = v := by
  cases r with
  | x i => exact if_pos rfl
  | sp => rfl
  | d i =>
    refine (congrArg (BitVec.setWidth 64) (if_pos rfl)).trans ?_
    exact BitVec.setWidth_setWidth_of_le v (by decide)

/-- and all others have theirs. -/
lemma reg_set_ne (s : State) {r r' : Reg} (h : r' ≠ r) (v : Word) : (s.set r v).reg r' = s.reg r' := by
  cases r with
  | x i =>
    cases r' with
    | x j => exact if_neg fun hij => h (congrArg Reg.x hij)
    | _ => rfl
  | sp =>
    cases r' with
    | sp => exact absurd rfl h
    | _ => rfl
  | d i =>
    cases r' with
    | d j => exact congrArg (BitVec.setWidth 64) (if_neg fun hij => h (congrArg Reg.d hij))
    | _ => rfl

/-- Memory stays, -/
@[simp] lemma set_mem (s : State) (r : Reg) (v : Word) : (s.set r v).mem = s.mem := by cases r <;> rfl

/-- and so does the program counter. -/
@[simp] lemma set_pc (s : State) (r : Reg) (v : Word) : (s.set r v).pc = s.pc := by cases r <;> rfl

/-- Loads are the same. -/
lemma set_load (s : State) (r : Reg) (v p : Word) : (s.set r v).load p = s.load p := by
  rw [load, set_mem]
  rfl

/-- The registers with their slots. -/
def slots (s : State) (l : List (Nat × Reg)) : List (Nat × Word) := l.map fun a => (a.1, s.reg a.2)

/-- Slots depend on their registers. -/
lemma slots_congr {s s' : State} {l : List (Nat × Reg)} (h : ∀ a ∈ l, s'.reg a.2 = s.reg a.2) :
    s'.slots l = s.slots l :=
  List.map_congr_left fun a ha => by rw [h a ha]

end State

/-! ## Pairs of registers -/

/-- The slots of pairs, by the first of the two. -/
def pairSlots (l : List (Nat × Reg × Reg)) : List (Nat × Reg) :=
  l.flatMap fun a => [(a.1, a.2.1), (a.1 + 1, a.2.2)]

/-- Pairs are stored in their slots. -/
lemma run_stps (T : Tls) (base : Reg) (l : List (Nat × Reg × Reg)) (s : State) :
    run T (l.map fun a => .stp a.2.1 a.2.2 base (8 * a.1)) s =
      { s with mem := putSlots s.mem (s.reg base) (s.slots (pairSlots l)) } := by
  induction l generalizing s with
  | nil => rfl
  | cons a l ih => exact ih _

/-- The slots that pairs are pushed to, above the stack pointer in the end. -/
def pushSlots : List (Reg × Reg) → List (Nat × Reg)
  | [] => []
  | a :: l => (2 * l.length, a.1) :: (2 * l.length + 1, a.2) :: pushSlots l

/-- The slots that pairs are popped from, above the stack pointer at the beginning. -/
def popSlots : List (Reg × Reg) → List (Nat × Reg)
  | [] => []
  | a :: l => (0, a.1) :: (1, a.2) :: (popSlots l).map fun b => (b.1 + 2, b.2)

/-- The registers of pairs. -/
def regs (l : List (Reg × Reg)) : List Reg := l.flatMap fun a => [a.1, a.2]

/-- The registers of the first pair, and the others. -/
lemma regs_cons (a : Reg × Reg) (l : List (Reg × Reg)) : regs (a :: l) = a.1 :: a.2 :: regs l := rfl

/-- What is pushed is in the list. -/
lemma mem_of_mem_pushSlots {l : List (Reg × Reg)} {a : Nat × Reg} (ha : a ∈ pushSlots l) : a.2 ∈ regs l := by
  induction l with
  | nil => cases ha
  | cons b l ih =>
    rw [regs_cons, List.mem_cons, List.mem_cons]
    rcases List.mem_cons.mp ha with rfl | ha
    · exact .inl rfl
    · rcases List.mem_cons.mp ha with rfl | ha
      · exact .inr (.inl rfl)
      · exact .inr (.inr (ih ha))

/-- Pairs are pushed to their slots. -/
lemma run_pushes (T : Tls) {l : List (Reg × Reg)} {s : State} {k : Word} (hl : .sp ∉ regs l)
    (hk : s.sp = k + BitVec.ofNat 64 (16 * l.length)) : run T (l.map fun a => .stpPre a.1 a.2 16) s =
      { s with sp := k, mem := putSlots s.mem k (s.slots (pushSlots l)) } := by
  -- the slots are counted from `k`, where the last pair goes, so the rest of the list keeps them
  induction l generalizing s with
  | nil =>
    have hsp : k = s.sp := by
      rw [hk]
      exact (BitVec.add_zero k).symm
    subst hsp
    rfl
  | cons a l ih =>
    rw [List.length_cons] at hk
    rw [regs_cons, List.mem_cons, List.mem_cons, not_or, not_or] at hl
    have htop : s.sp - BitVec.ofNat 64 16 = k + BitVec.ofNat 64 (16 * l.length) := by
      rw [hk]
      bv_omega
    have hslots : ((Instr.stpPre a.1 a.2 16).exec T s).slots (pushSlots l) = s.slots (pushSlots l) := by
      refine State.slots_congr fun b hb => ?_
      have hne : b.2 ≠ .sp := fun h => hl.2.2 (h ▸ mem_of_mem_pushSlots hb)
      exact s.reg_set_ne hne _
    have h0 : s.sp - BitVec.ofNat 64 16 = k + BitVec.ofNat 64 (8 * (2 * l.length)) := by
      rw [htop, ← Nat.mul_assoc]
    have h1 : s.sp - BitVec.ofNat 64 16 + 8 = k + BitVec.ofNat 64 (8 * (2 * l.length + 1)) := by
      rw [h0]
      bv_omega
    calc run T ((a :: l).map fun a => .stpPre a.1 a.2 16) s
        = run T (l.map fun a => .stpPre a.1 a.2 16) ((Instr.stpPre a.1 a.2 16).exec T s) := rfl
      _ = { (Instr.stpPre a.1 a.2 16).exec T s with
            sp := k
            mem := putSlots ((Instr.stpPre a.1 a.2 16).exec T s).mem k
              (((Instr.stpPre a.1 a.2 16).exec T s).slots (pushSlots l)) } := ih hl.2.2 htop
      _ = _ := by
          have hcons : s.slots (pushSlots (a :: l)) =
              (2 * l.length, s.reg a.1) :: (2 * l.length + 1, s.reg a.2) :: s.slots (pushSlots l) := rfl
          rw [hslots, hcons, putSlots, putSlots, ← h0, ← h1]
          rfl

/-- Pairs are popped from their slots. -/
structure Popped (l : List (Reg × Reg)) (s s' : State) : Prop where
  sp : s'.sp = s.sp + BitVec.ofNat 64 (16 * l.length)
  mem : s'.mem = s.mem
  other : ∀ r, r ≠ .sp → r ∉ regs l → s'.reg r = s.reg r
  slot : ∀ a ∈ popSlots l, s'.reg a.2 = s.load (s.sp + BitVec.ofNat 64 (8 * a.1))

/-- Pairs are popped from where they were pushed, by induction. -/
lemma run_pops (T : Tls) {l : List (Reg × Reg)} (hl : .sp ∉ regs l) (hnd : (regs l).Nodup) (s : State) :
    Popped l s (run T (l.map fun a => .ldpPost a.1 a.2 16) s) := by
  induction l generalizing s with
  | nil => exact ⟨(BitVec.add_zero s.sp).symm, rfl, fun _ _ _ => rfl, fun _ h => by cases h⟩
  | cons a l ih =>
    rw [regs_cons, List.mem_cons, List.mem_cons, not_or, not_or] at hl
    rw [regs_cons, List.nodup_cons, List.nodup_cons, List.mem_cons, not_or] at hnd
    obtain ⟨⟨hab, ha⟩, hb, hnd⟩ := hnd
    have hrun : run T ((a :: l).map fun a => .ldpPost a.1 a.2 16) s =
        run T (l.map fun a => .ldpPost a.1 a.2 16) ((Instr.ldpPost a.1 a.2 16).exec T s) := rfl
    rw [hrun]
    generalize hs1 : (Instr.ldpPost a.1 a.2 16).exec T s = s1
    have hexec : s1 = ((s.set .sp (s.sp + 16)).set a.1 (s.load s.sp)).set a.2 (s.load (s.sp + 8)) := hs1.symm
    have hreg : ∀ r, r ≠ a.1 → r ≠ a.2 → s1.reg r = (s.set .sp (s.sp + 16)).reg r := by
      intro r h h'
      rw [hexec, State.reg_set_ne _ h', State.reg_set_ne _ h]
    have hsp1 : s1.sp = s.sp + 16 := hreg .sp hl.1 hl.2.1
    have hmem1 : s1.mem = s.mem := by
      rw [hexec]
      simp only [State.set_mem]
    have h := ih hl.2.2 hnd s1
    constructor
    case sp =>
      rw [h.sp, hsp1, List.length_cons]
      bv_omega
    case mem => exact h.mem.trans hmem1
    case other =>
      intro r hr hnot
      rw [regs_cons, List.mem_cons, List.mem_cons, not_or, not_or] at hnot
      rw [h.other r hr hnot.2.2, hreg r hnot.1 hnot.2.1]
      exact s.reg_set_ne hr _
    case slot =>
      intro c hc
      rw [popSlots, List.mem_cons, List.mem_cons] at hc
      rcases hc with rfl | rfl | hc
      · rw [h.other a.1 (Ne.symm hl.1) ha, hexec, State.reg_set_ne _ hab, State.reg_set_self]
        exact congrArg s.load (BitVec.add_zero s.sp).symm
      · rw [h.other a.2 (Ne.symm hl.2.1) hb, hexec, State.reg_set_self]
        rfl
      · obtain ⟨b, hb, rfl⟩ := List.mem_map.mp hc
        have hp : s1.sp + BitVec.ofNat 64 (8 * b.1) = s.sp + BitVec.ofNat 64 (8 * (b.1 + 2)) := by
          rw [hsp1]
          bv_omega
        rw [h.slot b hb, hp, State.load, hmem1]
        rfl

end Libtux.Arm64
