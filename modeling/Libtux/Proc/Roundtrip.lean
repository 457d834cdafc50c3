import Libtux.Proc.Args

/-!
# What a program finds on its stack

A program finds its arguments by the convention of the Linux process entry (`InitialStack`): at the stack
pointer the number of arguments, then a pointer to each string, a null word, the environment, which ends
in a null word, and the auxiliary vector.

The checks of `stacksetup` only see the strings. It stores more words than the lower block holds when
there are more than `ARGC_FIT` arguments, and the end of them then lies on the strings; and it cuts a
string of more than `ARGV_MAX` bytes. In all other cases the program finds what it was given
(`stacksetup_roundtrip`).
-/

namespace Libtux
open Lib Elf

variable {L : LibMMap}

/-- The `n` words from `p` on. -/
def readWords (mem : Word → Byte) (p : Word) (n : Nat) : List Word :=
  (List.range n).map fun i => le mem (p + 8 * BitVec.ofNat 64 i) 8 64

/-- A stack as the Linux process entry has it, with no environment. -/
structure InitialStack (mem : Word → Byte) (sp : Word) (argv : List (List Byte))
    (auxv : List (Word × Word)) : Prop where
  argc : le mem sp 8 64 = BitVec.ofNat 64 argv.length
  args : List.Forall₂ (CString mem) (readWords mem (sp + 8) argv.length) argv
  null : le mem (sp + 8 + 8 * BitVec.ofNat 64 argv.length) 8 64 = 0
  envp : le mem (sp + 8 + 8 * BitVec.ofNat 64 (argv.length + 1)) 8 64 = 0
  aux : readWords mem (sp + 8 + 8 * BitVec.ofNat 64 (argv.length + 2)) (auxvWords auxv).length =
    auxvWords auxv

/-- Words are read back. -/
lemma readWords_eq {mem : Word → Byte} {p : Word} {l : List Word}
    (h : ∀ i (hi : i < l.length), le mem (p + 8 * BitVec.ofNat 64 i) 8 64 = l[i]) :
    readWords mem p l.length = l := by
  apply List.ext_getElem
  · rw [readWords, List.length_map, List.length_range]
  · intro i _ hi
    rw [← h i hi]
    simp only [readWords, List.getElem_map, List.getElem_range]

/-- A part of what was stored. -/
lemma Wrote.readWords {stack_top p q : Word} {l l2 : List Word} {as1 as : LFIAddrSpace L} {n : Nat}
    (w : Wrote stack_top p l as1 as) (l1 l3 : List Word) (hl : l = l1 ++ l2 ++ l3) (hn : l1.length = n)
    (hq : q = p + 8 * BitVec.ofNat 64 n) : readWords as.mem q l2.length = l2 := by
  subst hn hl hq
  apply readWords_eq
  intro i hi
  have hlt : l1.length + i < (l1 ++ l2 ++ l3).length := by
    simp only [List.length_append]
    omega
  rw [show p + 8 * BitVec.ofNat 64 l1.length + 8 * BitVec.ofNat 64 i =
    p + 8 * BitVec.ofNat 64 (l1.length + i) by bv_omega, w.word hlt, List.getElem_append_left,
    List.getElem_append_right (Nat.le_add_right ..)]
  · simp only [Nat.add_sub_cancel_left]
  · rw [List.length_append]
    omega

/-- A word in the middle is where it was stored. -/
lemma Wrote.word_at {stack_top p q v : Word} {l : List Word} {as1 as : LFIAddrSpace L} {n : Nat}
    (w : Wrote stack_top p l as1 as) (l1 l3 : List Word) (hl : l = l1 ++ v :: l3) (hn : l1.length = n)
    (hq : q = p + 8 * BitVec.ofNat 64 n) : le as.mem q 8 64 = v := by
  subst hn hl hq
  have hlt : l1.length < (l1 ++ v :: l3).length := by
    rw [List.length_append, List.length_cons]
    omega
  rw [w.word hlt, List.getElem_append_right (Nat.le_refl _)]
  simp only [Nat.sub_self, List.getElem_cons_zero]

/-- A stack as a program expects it, with its two blocks apart and its pointer aligned and inside. -/
structure StackReady (info : LFILoadInfo) (argv : List (List Byte)) (auxv : List (Word × Word))
    (mem : Word → Byte) (sp : Word) : Prop where
  entry : InitialStack mem sp argv auxv
  apart : sp.toNat + blockBytes argv.length ≤ (info.stack + info.stacksize - ARG_BLOCK).toNat
  count : argv.length ≤ ARGC_MAX
  aligned : 16 ∣ sp.toNat
  inside : info.stack.toNat ≤ sp.toNat ∧ sp.toNat < info.stack.toNat + info.stacksize.toNat

section
variable {stack_top sp pagesize arg0 : Word} {info : LFILoadInfo} {argv : List (List Byte)}
  {ptrs : List Word} {e : Nat} {as as1 as' : LFIAddrSpace L}

/-- With the blocks apart, the program finds its arguments, cut to `ARGV_MAX` bytes. -/
lemma StringsAt.initialStack (sa : StringsAt (stack_top - ARG_BLOCK) e argv ptrs as as1)
    (he : e ≤ stack_top.toNat)
    (w : Wrote stack_top sp (stackBlock ptrs (stackAux pagesize info arg0)) as1 as')
    (hfit : sp.toNat + blockBytes argv.length ≤ (stack_top - ARG_BLOCK).toNat) :
    InitialStack as'.mem sp (argv.map (List.take ARGV_MAX)) (stackAux pagesize info arg0) := by
  have hlen : argv.length = ptrs.length := sa.strings.length_eq.symm
  have hbytes := length_stackBlock ptrs pagesize arg0 info
  have htop := stack_top.isLt
  rw [hlen] at hfit
  -- the words end below the strings, so the strings are still there
  have hout : ∀ x : Word, (stack_top - ARG_BLOCK).toNat ≤ x.toNat → as'.mem x = as1.mem x := by
    intro x hx
    have hwfit := w.fit
    rw [w.eq]
    exact putWords_outside (by omega) (.inr (by omega))
  have hargs : readWords as'.mem (sp + 8) ptrs.length = ptrs :=
    w.readWords [BitVec.ofNat 64 ptrs.length] ([0, 0] ++ auxvWords (stackAux pagesize info arg0))
      (by simp [stackBlock]) (n := 1) rfl (by bv_omega)
  refine ⟨?_, ?_, ?_, ?_, ?_⟩
  · rw [List.length_map, hlen]
    exact w.word_at [] _ rfl (n := 0) rfl (by bv_omega)
  · rw [List.length_map, hlen, hargs, List.forall₂_map_right_iff]
    refine sa.strings.imp fun ptr s hs => ?_
    obtain ⟨hstr, hlo, hhi⟩ := hs
    refine hstr.congr fun k hk => hout _ ?_
    rw [toNat_add_ofNat (by omega)]
    omega
  · rw [List.length_map, hlen]
    exact w.word_at (BitVec.ofNat 64 ptrs.length :: ptrs)
      (0 :: auxvWords (stackAux pagesize info arg0)) (by simp [stackBlock])
      (n := ptrs.length + 1) rfl (by bv_omega)
  · rw [List.length_map, hlen]
    exact w.word_at (BitVec.ofNat 64 ptrs.length :: ptrs ++ [0])
      (auxvWords (stackAux pagesize info arg0)) (by simp [stackBlock])
      (n := ptrs.length + 2) (by simp) (by bv_omega)
  · rw [List.length_map, hlen]
    exact w.readWords (BitVec.ofNat 64 ptrs.length :: ptrs ++ [0, 0]) []
      (by simp [stackBlock]) (n := ptrs.length + 3) (by simp) (by bv_omega)

end

/-- Strings that are read back whole were not cut. -/
lemma InitialStack.short {mem : Word → Byte} {sp : Word} {argv : List (List Byte)}
    {auxv : List (Word × Word)} (h : InitialStack mem sp argv auxv)
    (h' : InitialStack mem sp (argv.map (List.take ARGV_MAX)) auxv) : ∀ s ∈ argv, s.length ≤ ARGV_MAX := by
  have hargs := h'.args
  rw [List.length_map] at hargs
  have heq := List.right_unique_forall₂' (fun _ _ _ hs ht => hs.unique ht) h.args hargs
  intro s hs
  have hmap : argv.map id = argv.map (List.take ARGV_MAX) := by rw [List.map_id, ← heq]
  have hcut := List.map_inj_left.mp hmap s hs
  rw [show s = s.take ARGV_MAX from hcut]
  exact List.length_take_le ..

/-- The number of arguments whose words fit in the lower block. -/
def ARGC_FIT : Nat := 471

/-- When `stacksetup` returns true, the program finds its arguments, its empty environment and the
auxiliary vector exactly when there are at most `ARGC_FIT` arguments, none of them longer than `ARGV_MAX`
bytes. The stack is where `lfi_proc_loadelf` maps it. -/
theorem stacksetup_roundtrip (pagesize : Word) {info : LFILoadInfo} {argv : List (List Byte)} {sp : Word}
    {as : LFIAddrSpace L} (hstack : info.stack = as.info.maxaddr - STACKSIZE)
    (hsize : info.stacksize = STACKSIZE) (hne : argv ≠ []) (hz : ∀ s ∈ argv, ∀ b ∈ s, b ≠ 0)
    (h : ((stacksetup pagesize argv info).run as).val = .ok (some sp)) :
    StackReady info argv (stackAux pagesize info (info.stack + info.stacksize - ARG_BLOCK))
        ((stacksetup pagesize argv info).run as).st.mem sp ↔
      argv.length ≤ ARGC_FIT ∧ ∀ s ∈ argv, s.length ≤ ARGV_MAX := by
  have htop : info.stack + info.stacksize = as.info.maxaddr := by
    rw [hstack, hsize, BitVec.sub_add_cancel]
  have hmax := as.info.maxaddr_toNat
  have hbase := as.info.base_top
  obtain ⟨c, hc⟩ := as.info.base_aligned
  have hpos := as.info.base_pos
  obtain ⟨ptrs, e, as1, he, hcount, sa, rfl, w⟩ := stacksetup_some htop hz hne (by omega) (by omega)
    (by omega) h
  rw [htop]
  have hspn : (as.info.maxaddr - 2 * ARG_BLOCK).toNat = as.info.maxaddr.toNat - 8192 := by
    simp only [ARG_BLOCK]
    bv_omega
  have hstrn : (as.info.maxaddr - ARG_BLOCK).toNat = as.info.maxaddr.toNat - 4096 := by
    simp only [ARG_BLOCK]
    bv_omega
  have hstk : info.stack.toNat = as.info.maxaddr.toNat - 2 ^ 21 := by
    rw [hstack]
    simp only [STACKSIZE]
    bv_omega
  have hsz : info.stacksize.toNat = 2 ^ 21 := by
    rw [hsize]
    rfl
  have hfit : (as.info.maxaddr - 2 * ARG_BLOCK).toNat + blockBytes argv.length ≤
      (as.info.maxaddr - ARG_BLOCK).toNat ↔ argv.length ≤ ARGC_FIT := by
    rw [hspn, hstrn, blockBytes, ARGC_FIT]
    omega
  constructor
  · intro r
    have hap := r.apart
    rw [htop] at hap
    exact ⟨hfit.mp hap, r.entry.short (sa.initialStack he w hap)⟩
  · rintro ⟨hargc, hshort⟩
    have hap := hfit.mpr hargc
    have hcut : argv.map (List.take ARGV_MAX) = argv := by
      conv_rhs => rw [← List.map_id argv]
      exact List.map_inj_left.mpr fun s hs => List.take_of_length_le (hshort s hs)
    have hin := sa.initialStack he w hap
    rw [hcut] at hin
    refine ⟨hin, by rw [htop]; exact hap, ?_, by omega, by omega⟩
    rw [← sa.strings.length_eq]
    exact hcount

/-- The stack of a process that runs `textImage` with one argument. -/
theorem stacksetup_roundtrip_text :
    StackReady textInfo [[97]] (stackAux 4096 textInfo (textInfo.stack + textInfo.stacksize - ARG_BLOCK))
      ((stacksetup 4096 [[97]] textInfo).run (.fresh .plain)).st.mem
      (LFIAddrSpaceInfo.plain.maxaddr - 2 * ARG_BLOCK) := by
  have h : ((stacksetup 4096 [[97]] textInfo).run (.fresh .plain)).val =
      .ok (some (LFIAddrSpaceInfo.plain.maxaddr - 2 * ARG_BLOCK)) := by decide +kernel
  refine (stacksetup_roundtrip 4096 (by decide +kernel) rfl (by simp) ?_ h).mpr ⟨by decide, ?_⟩
  · decide
  · decide

/-- One argument more than fit. -/
def manyArgs : List (List Byte) := List.replicate 472 [97]

/-- An argument of one byte more than `ARGV_MAX`. -/
def longArg : List Byte := List.replicate 1025 97

/-- They are accepted. -/
lemma manyArgs_ready {as : LFIAddrSpace L} (hpg : as.info.pagesize.toNat ≤ 2 ^ 20) {info : LFILoadInfo}
    (htop : info.stack + info.stacksize = as.info.maxaddr) :
    ((stacksetup 4096 manyArgs info).run as).val = .ok (some (as.info.maxaddr - 2 * ARG_BLOCK)) := by
  have hz : ∀ s ∈ manyArgs, ∀ b ∈ s, b ≠ 0 := by
    intro s hs
    rw [List.eq_of_mem_replicate hs]
    decide
  have hbytes : stringBytes (manyArgs.take (ARGC_MAX + 1)) = 944 := by decide +kernel
  have hlen : manyArgs.length = 472 := List.length_replicate
  have hblock : ARG_BLOCK.toNat = 4096 := rfl
  have hval := stacksetup_val 4096 hpg htop hz
  generalize ((stacksetup 4096 manyArgs info).run as).val = x at hval
  cases hval with
  | empty hnil =>
    rw [hnil] at hlen
    cases hlen
  | long hlong => omega
  | ready => rfl
  | overrun _ hover =>
    rw [hlen, blockBytes] at hover
    omega

/-- `stacksetup` returns true for both. With the first vector the end of the auxiliary vector lies on the
strings, and with the second the program finds its argument one byte shorter. -/
theorem stacksetup_loses :
    (((stacksetup 4096 manyArgs textInfo).run (.fresh .plain)).val =
        .ok (some (LFIAddrSpaceInfo.plain.maxaddr - 2 * ARG_BLOCK)) ∧
      ¬ StackReady textInfo manyArgs
        (stackAux 4096 textInfo (textInfo.stack + textInfo.stacksize - ARG_BLOCK))
        ((stacksetup 4096 manyArgs textInfo).run (.fresh .plain)).st.mem
        (LFIAddrSpaceInfo.plain.maxaddr - 2 * ARG_BLOCK)) ∧
    (((stacksetup 4096 [longArg] textInfo).run (.fresh .plain)).val =
        .ok (some (LFIAddrSpaceInfo.plain.maxaddr - 2 * ARG_BLOCK)) ∧
      ¬ StackReady textInfo [longArg]
        (stackAux 4096 textInfo (textInfo.stack + textInfo.stacksize - ARG_BLOCK))
        ((stacksetup 4096 [longArg] textInfo).run (.fresh .plain)).st.mem
        (LFIAddrSpaceInfo.plain.maxaddr - 2 * ARG_BLOCK)) := by
  refine ⟨⟨manyArgs_ready (by decide) (by decide +kernel), fun h => ?_⟩, by decide +kernel, fun h => ?_⟩
  · have hap := h.apart
    revert hap
    decide +kernel
  · have hlen : longArg.length = 1025 := List.length_replicate
    obtain ⟨hstr, -⟩ := List.forall₂_cons.mp h.entry.args
    have hbyte := hstr.byte 1024 (by rw [hlen]; decide)
    rw [show longArg[1024] = 97 from List.getElem_replicate _] at hbyte
    revert hbyte
    decide +kernel

end Libtux
