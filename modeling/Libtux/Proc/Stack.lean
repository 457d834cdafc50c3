import Mathlib.Data.List.Forall2
import Mathlib.Data.List.GetD
import Mathlib.Data.List.TakeWhile
import Libtux.Lib.Bytes
import Libtux.Proc.Entry

/-!
# The initial stack

What `stacksetup` leaves in guest memory when it returns true. The strings go to the upper of two blocks
of `ARG_BLOCK` bytes (`stackStrings_some`), everything else to the lower one, as one list of words that
starts at the stack pointer (`stacksetup_some`).
-/

namespace Libtux
open Lib Elf

variable {L : LibMMap} {H : HostVm}

/-! ## Words -/

/-- The words of an auxiliary vector. -/
def auxvWords (auxv : List (Word × Word)) : List Word := auxv.flatMap fun e => [e.1, e.2]

/-- The auxiliary vector that `stacksetup` writes, with the pointer to the first argument. -/
def stackAux (pagesize : Word) (info : LFILoadInfo) (arg0 : Word) : List (Word × Word) :=
  [(AT_SECURE, 0), (AT_BASE, info.ldbase), (AT_PHDR, info.elfbase + info.elfphoff),
    (AT_PHNUM, info.elfphnum.setWidth 64), (AT_PHENT, info.elfphentsize.setWidth 64),
    (AT_ENTRY, info.elfentry), (AT_EXECFN, arg0), (AT_PAGESZ, pagesize), (AT_HWCAP, 0), (AT_HWCAP2, 0),
    (AT_RANDOM, arg0), (AT_FLAGS, 0), (AT_UID, 1000), (AT_EUID, 1000), (AT_GID, 1000),
    (AT_EGID, 1000), (AT_SYSINFO, 0), (AT_SYSINFO_EHDR, 0), (AT_NULL, 0)]

/-- The words of the lower block. -/
def stackBlock (ptrs : List Word) (auxv : List (Word × Word)) : List Word :=
  BitVec.ofNat 64 ptrs.length :: ptrs ++ [0, 0] ++ auxvWords auxv

/-- Store the words of a list on the stack, from `p` on. -/
def stackWords (stack_top : Word) : Word → List Word → Vm L Unit
  | _, [] => pure ()
  | p, v :: l => do
    stackStore stack_top p v
    stackWords stack_top (p + 8) l

/-- The entries of the vector are stored as words. -/
lemma stackAuxv_eq (stack_top av : Word) (auxv : List (Word × Word)) :
    (stackAuxv stack_top av auxv : Vm L Unit) = stackWords stack_top av (auxvWords auxv) := by
  induction auxv generalizing av with
  | nil => rfl
  | cons e auxv ih =>
    have hav : av + 16 = av + 8 + 8 := by bv_omega
    show _ = stackWords stack_top av (e.1 :: e.2 :: auxvWords auxv)
    rw [stackAuxv, stackWords, stackWords, ih, hav]

/-- The state after words were stored. -/
def LFIAddrSpace.putWords (as : LFIAddrSpace L) (p : Word) (l : List Word) : LFIAddrSpace L :=
  { as with mem := Lib.putWords as.mem p l }

/-- A word is stored below the top of the stack, or the store is undefined. -/
lemma stackStore_run (stack_top p v : Word) (as : LFIAddrSpace L) :
    (stackStore stack_top p v).run as =
      if p < stack_top then ⟨.ok (), as.putWords p [v], []⟩ else ⟨.error .undefined, as, []⟩ := by
  rw [stackStore, Exec.check_bind_run, store64, Exec.modify_run]
  rfl

/-- Words that fit below the top are stored. -/
lemma stackWords_run {stack_top p : Word} {l : List Word} (as : LFIAddrSpace L)
    (h : p.toNat + 8 * l.length ≤ stack_top.toNat) :
    (stackWords stack_top p l).run as = ⟨.ok (), as.putWords p l, []⟩ := by
  induction l generalizing p as with
  | nil => exact Exec.pure_run _ _
  | cons v l ih =>
    rw [List.length_cons] at h
    have hlt : p < stack_top := by
      rw [BitVec.lt_def]
      omega
    rw [stackWords, Exec.bind_run, stackStore_run, if_pos hlt, Exec.andThen_ok_nil]
    cases l with
    | nil => exact Exec.pure_run _ _
    | cons v' l' =>
      have hp : (p + 8).toNat = p.toNat + 8 := by
        rw [List.length_cons] at h
        have := stack_top.isLt
        bv_omega
      rw [ih _ (by omega)]
      rfl

/-- Words that do not fit are not. -/
lemma stackWords_undefined {stack_top p : Word} {l : List Word} (as : LFIAddrSpace L)
    (ht : 8 ∣ stack_top.toNat) (hp : 8 ∣ p.toNat) (hle : p.toNat ≤ stack_top.toNat)
    (h : stack_top.toNat < p.toNat + 8 * l.length) :
    ((stackWords stack_top p l).run as).val = .error .undefined := by
  induction l generalizing p as with
  | nil =>
    rw [List.length_nil] at h
    omega
  | cons v l ih =>
    rw [List.length_cons] at h
    rw [stackWords, Exec.bind_run, stackStore_run]
    by_cases hlt : p < stack_top
    · have hlt' : p.toNat < stack_top.toNat := hlt
      have := stack_top.isLt
      have hp8 : (p + 8).toNat = p.toNat + 8 := by bv_omega
      rw [if_pos hlt, Exec.andThen_ok_nil]
      exact ih _ (by omega) (by omega) (by omega)
    · rw [if_neg hlt, Exec.andThen_error]

/-- Words were stored only if they fit. -/
lemma stackWords_ok {stack_top p : Word} {l : List Word} {as : LFIAddrSpace L}
    (ht : 8 ∣ stack_top.toNat) (hp : 8 ∣ p.toNat) (hle : p.toNat ≤ stack_top.toNat)
    (h : ((stackWords stack_top p l).run as).val = .ok ()) :
    p.toNat + 8 * l.length ≤ stack_top.toNat := by
  by_contra hlt
  rw [stackWords_undefined as ht hp hle (by omega)] at h
  cases h

/-- `as` is `as1` with the words `l` from `p` on, below the top. -/
structure Wrote (stack_top p : Word) (l : List Word) (as1 as : LFIAddrSpace L) : Prop where
  eq : as = as1.putWords p l
  fit : p.toNat + 8 * l.length ≤ stack_top.toNat

/-- Going on where the last word ended. -/
lemma Wrote.append {stack_top p q : Word} {l l' : List Word} {as1 as : LFIAddrSpace L} {n : Nat}
    (w : Wrote stack_top p l as1 as) (ht : 8 ∣ stack_top.toNat) (hp : 8 ∣ p.toNat) (hn : l.length = n)
    (hq : q = p + 8 * BitVec.ofNat 64 n)
    (h : ((stackWords stack_top q l').run as).val = .ok ()) :
    Wrote stack_top p (l ++ l') as1 ((stackWords stack_top q l').run as).st := by
  have hfit := w.fit
  subst hn
  by_cases hl' : l' = []
  · subst hl'
    rw [List.append_nil]
    exact w
  have hqn : q.toNat = (p.toNat + 8 * l.length) % 2 ^ 64 := by
    rw [hq]
    bv_omega
  have := stack_top.isLt
  have hlt : p.toNat + 8 * l.length < 2 ^ 64 := by omega
  rw [Nat.mod_eq_of_lt hlt] at hqn
  have hfit' := stackWords_ok ht (by omega) (by omega) h
  refine ⟨?_, ?_⟩
  · rw [stackWords_run as hfit', w.eq, LFIAddrSpace.putWords, LFIAddrSpace.putWords,
      LFIAddrSpace.putWords, putWords_append, hq]
  · rw [List.length_append]
    omega

/-! ## Strings -/

/-- `strnlen` of a string without zeros. -/
lemma strnlen_eq {s : List Byte} (hz : ∀ b ∈ s, b ≠ 0) (n : Nat) : strnlen s n = (s.take n).length := by
  have htake : s.takeWhile (· ≠ 0) = s := by
    rw [List.takeWhile_eq_self_iff]
    intro b hb
    exact decide_eq_true (hz b hb)
  rw [strnlen, htake, List.length_take, Nat.min_comm]

/-- The memory after one string was copied. -/
def putString (mem : Word → Byte) (p : Word) (arg : List Byte) : Word → Byte :=
  let len := BitVec.ofNat 64 (strnlen arg ARGV_MAX + 1)
  splice mem p len fun k => if k = len - 1 then 0 else arg.getD k.toNat 0

section
variable (mem : Word → Byte) {p : Word} {arg : List Byte}

/-- A string changes its own bytes. -/
lemma putString_outside {x : Word} (hz : ∀ b ∈ arg, b ≠ 0) (hp : p.toNat + 2048 ≤ 2 ^ 64)
    (hx : x.toNat < p.toNat ∨ p.toNat + (arg.take ARGV_MAX).length + 1 ≤ x.toNat) :
    putString mem p arg x = mem x := by
  have hle : (arg.take ARGV_MAX).length ≤ 1024 := List.length_take_le ..
  have hlen : (BitVec.ofNat 64 (strnlen arg ARGV_MAX + 1)).toNat = (arg.take ARGV_MAX).length + 1 := by
    rw [strnlen_eq hz, BitVec.toNat_ofNat]
    exact Nat.mod_eq_of_lt (by omega)
  rw [putString, splice_outside (by omega) (by omega)]

/-- What is copied is the string, up to its first `ARGV_MAX` bytes. -/
lemma putString_cstring (hz : ∀ b ∈ arg, b ≠ 0) (hp : p.toNat + 2048 ≤ 2 ^ 64) :
    CString (putString mem p arg) p (arg.take ARGV_MAX) := by
  have hle : (arg.take ARGV_MAX).length ≤ 1024 := List.length_take_le ..
  have hlen : (BitVec.ofNat 64 (strnlen arg ARGV_MAX + 1)).toNat = (arg.take ARGV_MAX).length + 1 := by
    rw [strnlen_eq hz, BitVec.toNat_ofNat]
    exact Nat.mod_eq_of_lt (by omega)
  have hin : ∀ k, k ≤ (arg.take ARGV_MAX).length → putString mem p arg (p + BitVec.ofNat 64 k) =
      if k = (arg.take ARGV_MAX).length then 0 else arg.getD k 0 := by
    intro k hk
    have hpk : (p + BitVec.ofNat 64 k).toNat = p.toNat + k := toNat_add_ofNat (by omega)
    have hkn : (BitVec.ofNat 64 k).toNat = k := by
      rw [BitVec.toNat_ofNat]
      exact Nat.mod_eq_of_lt (by omega)
    have hsub : p + BitVec.ofNat 64 k - p = BitVec.ofNat 64 k := by
      rw [BitVec.add_comm, BitVec.add_sub_cancel]
    rw [putString, splice_inside (by omega) (by omega) (by omega), hsub, hkn]
    have hiff : BitVec.ofNat 64 k = BitVec.ofNat 64 (strnlen arg ARGV_MAX + 1) - 1 ↔
        k = (arg.take ARGV_MAX).length := by
      constructor
      · intro he
        bv_omega
      · intro he
        bv_omega
    simp only [hiff]
  refine ⟨fun k hk => ?_, fun b hb => hz b (List.mem_of_mem_take hb), ?_⟩
  · rw [hin k hk.le, if_neg hk.ne, List.getElem_take]
    have hlt : k < arg.length := lt_of_lt_of_le hk (List.length_take_le' ..)
    exact List.getD_eq_getElem _ _ hlt
  · rw [hin _ le_rfl, if_pos rfl]

end

/-- Strings `argv` at the pointers `ptrs`, between `p` and `e`. -/
structure StringsAt (p : Word) (e : Nat) (argv : List (List Byte)) (ptrs : List Word)
    (as as' : LFIAddrSpace L) : Prop where
  strings : List.Forall₂ (fun ptr s => CString as'.mem ptr (s.take ARGV_MAX) ∧ p.toNat ≤ ptr.toNat ∧
    ptr.toNat + (s.take ARGV_MAX).length < e) ptrs argv
  le : p.toNat ≤ e
  eq : as' = { as with mem := as'.mem }
  outside : ∀ x : Word, x.toNat < p.toNat ∨ e ≤ x.toNat → as'.mem x = as.mem x
  head : ∀ {ptr}, ptrs.head? = some ptr → ptr = p

/-- The first loop of `stacksetup`, when the strings fit. -/
lemma stackStrings_some {stack_top p : Word} {argv : List (List Byte)} {ptrs0 ptrs : List Word}
    {as : LFIAddrSpace L} (hz : ∀ s ∈ argv, ∀ b ∈ s, b ≠ 0) (hp : p.toNat ≤ stack_top.toNat)
    (ht : stack_top.toNat + 2048 ≤ 2 ^ 64)
    (h : ((stackStrings stack_top p argv ptrs0).run as).val = .ok (some ptrs)) :
    ∃ new e, ptrs = ptrs0 ++ new ∧ e ≤ stack_top.toNat ∧ (new ≠ [] → ptrs.length ≤ ARGC_MAX) ∧
      StringsAt p e argv new as ((stackStrings stack_top p argv ptrs0).run as).st := by
  induction argv generalizing p ptrs0 as with
  | nil =>
    simp only [stackStrings, Exec.pure_run, Except.ok.injEq, Option.some.injEq] at h ⊢
    exact ⟨[], p.toNat, by rw [List.append_nil, h], hp, fun hn => absurd rfl hn,
      ⟨.nil, le_rfl, rfl, fun _ _ => rfl, fun hh => by cases hh⟩⟩
  | cons arg argv ih =>
    have hzarg := hz arg (List.mem_cons_self ..)
    have hle : (arg.take ARGV_MAX).length ≤ 1024 := List.length_take_le ..
    have hlen : (BitVec.ofNat 64 (strnlen arg ARGV_MAX + 1)).toNat = (arg.take ARGV_MAX).length + 1 := by
      rw [strnlen_eq hzarg, BitVec.toNat_ofNat]
      exact Nat.mod_eq_of_lt (by omega)
    rw [stackStrings] at h ⊢
    by_cases hfit : p + BitVec.ofNat 64 (strnlen arg ARGV_MAX + 1) ≥ stack_top
    · rw [if_pos hfit] at h
      cases h
    rw [if_neg hfit] at h ⊢
    have hq : (p + BitVec.ofNat 64 (strnlen arg ARGV_MAX + 1)).toNat =
        p.toNat + (arg.take ARGV_MAX).length + 1 := by
      bv_omega
    have hqt : p.toNat + (arg.take ARGV_MAX).length + 1 < stack_top.toNat := by
      rw [← hq]
      exact Nat.lt_of_not_le hfit
    obtain ⟨_, -, h, hst, -⟩ := Exec.bind_ok h
    rw [hst]
    rw [Exec.modify_run] at h ⊢
    obtain ⟨_, hc, h, hst, -⟩ := Exec.bind_ok h
    rw [hst]
    rw [Exec.check_run] at hc h ⊢
    by_cases hcount : ptrs0.length < ARGC_MAX
    case neg =>
      rw [if_neg hcount] at hc
      cases hc
    rw [if_pos hcount] at h ⊢
    obtain ⟨new, e, rfl, he, hn, sa⟩ := ih (fun s hs => hz s (List.mem_cons_of_mem _ hs)) (by omega) h
    refine ⟨p :: new, e, by rw [List.append_assoc]; rfl, he, fun _ => ?_, ?_⟩
    · cases new with
      | nil =>
        rw [List.append_nil, List.length_append]
        exact hcount
      | cons _ _ => exact hn (by simp)
    · have hsle := sa.le
      rw [hq] at hsle
      refine ⟨.cons ⟨?_, le_rfl, by omega⟩ ?_, by omega, ?_, ?_, ?_⟩
      · refine (putString_cstring as.mem hzarg (by omega)).congr fun k hk => ?_
        have hpk : (p + BitVec.ofNat 64 k).toNat = p.toNat + k := toNat_add_ofNat (by omega)
        exact sa.outside _ (.inl (by omega))
      · refine sa.strings.imp fun ptr s hs => ⟨hs.1, ?_, hs.2.2⟩
        have := hs.2.1
        omega
      · rw [sa.eq]
      · intro x hx
        rw [sa.outside x (by omega)]
        exact putString_outside _ hzarg (by omega) (by omega)
      · intro ptr hptr
        cases hptr
        rfl

/-! ## The lower block -/

/-- A pointer is one of the sandbox, or the assertion fails. -/
lemma lfiAsToptr_run (ptr : Word) (as : LFIAddrSpace L) :
    (lfiAsToptr ptr).run as =
      if ptr ≥ as.info.minaddr ∧ ptr < as.info.maxaddr then ⟨.ok ptr, as, []⟩
      else ⟨.error (.assertion .toptr), as, []⟩ := by
  rw [lfiAsToptr, Exec.bind_run, Exec.get_run, Exec.andThen_ok_nil, Exec.check_bind_run, Exec.pure_run]

/-- Inversion of a pointer that was accepted. -/
lemma lfiAsToptr_ok {ptr v : Word} {as : LFIAddrSpace L} (h : ((lfiAsToptr ptr).run as).val = .ok v) :
    v = ptr ∧ ((lfiAsToptr ptr).run as).st = as := by
  rw [lfiAsToptr_run] at h ⊢
  split at h
  · rename_i hv
    rw [if_pos hv]
    exact ⟨(Except.ok.inj h).symm, rfl⟩
  · cases h

/-- The second loop of `stacksetup` stores the pointers, when it goes through. -/
lemma stackPointers_true {stack_top p_argvp : Word} {i : Nat} {ptrs : List Word} {as : LFIAddrSpace L}
    (h : ((stackPointers stack_top p_argvp i ptrs).run as).val = .ok true) :
    ((stackWords stack_top (p_argvp + 8 * BitVec.ofNat 64 i) ptrs).run as).val = .ok () ∧
      ((stackPointers stack_top p_argvp i ptrs).run as).st =
        ((stackWords stack_top (p_argvp + 8 * BitVec.ofNat 64 i) ptrs).run as).st := by
  induction ptrs generalizing i as with
  | nil => exact ⟨rfl, rfl⟩
  | cons ptr ptrs ih =>
    rw [stackPointers] at h ⊢
    by_cases hlow : p_argvp ≥ stack_top - ARG_BLOCK
    · rw [if_pos hlow] at h
      cases h
    rw [if_neg hlow] at h ⊢
    obtain ⟨v, hv, h, hst, -⟩ := Exec.bind_ok h
    obtain ⟨rfl, has⟩ := lfiAsToptr_ok hv
    rw [hst]
    rw [has] at h ⊢
    obtain ⟨_, hs, h, hst, -⟩ := Exec.bind_ok h
    rw [hst]
    obtain ⟨hok, hst'⟩ := ih h
    have hq : p_argvp + 8 * BitVec.ofNat 64 (i + 1) = p_argvp + 8 * BitVec.ofNat 64 i + 8 := by bv_omega
    rw [hq] at hok hst'
    rw [stackWords, Exec.bind_run]
    generalize (stackStore stack_top (p_argvp + 8 * BitVec.ofNat 64 i) v).run as = r at hs hok hst' ⊢
    obtain ⟨rv, rst, rout⟩ := r
    cases hs
    rw [Exec.andThen_ok]
    exact ⟨hok, hst'⟩

/-- Nothing was stored. -/
lemma Wrote.nil {stack_top p : Word} (as : LFIAddrSpace L) (h : p.toNat ≤ stack_top.toNat) :
    Wrote stack_top p [] as as := ⟨rfl, h⟩

/-- One more word. -/
lemma Wrote.store {stack_top p q v : Word} {l : List Word} {as1 as : LFIAddrSpace L} {n : Nat}
    (w : Wrote stack_top p l as1 as) (ht : 8 ∣ stack_top.toNat) (hp : 8 ∣ p.toNat) (hn : l.length = n)
    (hq : q = p + 8 * BitVec.ofNat 64 n)
    (h : ((stackStore stack_top q v).run as).val = .ok ()) :
    Wrote stack_top p (l ++ [v]) as1 ((stackStore stack_top q v).run as).st := by
  have hone : (stackWords stack_top q [v]).run as = (stackStore stack_top q v).run as := by
    rw [stackWords, Exec.bind_run, stackStore_run]
    split
    · rw [Exec.andThen_ok_nil]
      rfl
    · rw [Exec.andThen_error]
  rw [← hone] at h ⊢
  exact w.append ht hp hn hq h

/-- Reading a word that was stored. -/
lemma Wrote.word {stack_top p : Word} {l : List Word} {as1 as : LFIAddrSpace L} {i : Nat}
    (w : Wrote stack_top p l as1 as) (hi : i < l.length) :
    le as.mem (p + 8 * BitVec.ofNat 64 i) 8 64 = l[i] := by
  have hfit := w.fit
  have := stack_top.isLt
  rw [w.eq]
  exact le_putWords (by omega) hi

/-- A word is loaded. -/
lemma load64_run (p : Word) (as : LFIAddrSpace L) :
    (load64 p).run as = ⟨.ok (le as.mem p 8 64), as, []⟩ := Exec.gets_run _ _

/-- The first entries of the auxiliary vector. -/
def stackAux1 (info : LFILoadInfo) : List (Word × Word) :=
  [(AT_SECURE, 0), (AT_BASE, info.ldbase), (AT_PHDR, info.elfbase + info.elfphoff),
    (AT_PHNUM, info.elfphnum.setWidth 64), (AT_PHENT, info.elfphentsize.setWidth 64),
    (AT_ENTRY, info.elfentry)]

/-- The entries from `AT_EXECFN` on. -/
def stackAux2 (pagesize execfn : Word) : List (Word × Word) :=
  [(AT_EXECFN, execfn), (AT_PAGESZ, pagesize), (AT_HWCAP, 0), (AT_HWCAP2, 0)]

/-- The entries from `AT_RANDOM` on. -/
def stackAux3 (random : Word) : List (Word × Word) :=
  [(AT_RANDOM, random), (AT_FLAGS, 0), (AT_UID, 1000), (AT_EUID, 1000), (AT_GID, 1000),
    (AT_EGID, 1000), (AT_SYSINFO, 0), (AT_SYSINFO_EHDR, 0), (AT_NULL, 0)]

/-- The end of `stacksetup`, after the pointers. -/
def stackTail (stack_top sp pagesize argc : Word) (info : LFILoadInfo) : Vm L (Option Word) := do
  stackStore stack_top (sp + 8 + 8 * argc) 0
  stackStore stack_top (sp + 8 + 8 * (argc + 1)) 0
  stackAuxv stack_top (sp + 8 + 8 * (argc + 1) + 8) (stackAux1 info)
  let execfn ← lfiAsToptr (← load64 (sp + 8))
  stackAuxv stack_top (sp + 8 + 8 * (argc + 1) + 8 + 16 * 6) (stackAux2 pagesize execfn)
  let random ← lfiAsToptr (← load64 (sp + 8))
  stackAuxv stack_top (sp + 8 + 8 * (argc + 1) + 8 + 16 * 10) (stackAux3 random)
  pure (some sp)

/-- The part of `stacksetup` after the strings. -/
def stackLower (stack_top sp pagesize argc : Word) (info : LFILoadInfo) (ptrs : List Word) :
    Vm L (Option Word) := do
  stackStore stack_top sp argc
  let ok ← stackPointers stack_top (sp + 8) 0 ptrs
  if ok then stackTail stack_top sp pagesize argc info else pure none

/-- The part of `stacksetup` after its first loop. -/
def stackRest (stack_top sp pagesize argc : Word) (info : LFILoadInfo) :
    Option (List Word) → Vm L (Option Word)
  | none => pure none
  | some ptrs => stackLower stack_top sp pagesize argc info ptrs

/-- `stacksetup` in two parts. -/
lemma stacksetup_eq (pagesize : Word) (argv : List (List Byte)) (info : LFILoadInfo) :
    (stacksetup pagesize argv info : Vm L (Option Word)) =
      stackStrings (info.stack + info.stacksize) (info.stack + info.stacksize - ARG_BLOCK) argv [] >>=
        stackRest (info.stack + info.stacksize) (info.stack + info.stacksize - 2 * ARG_BLOCK) pagesize
          (BitVec.ofNat 64 argv.length) info := by
  unfold stacksetup
  congr

/-- The vector is stored in three parts. -/
lemma stackAux_eq (pagesize arg0 : Word) (info : LFILoadInfo) :
    stackAux1 info ++ stackAux2 pagesize arg0 ++ stackAux3 arg0 = stackAux pagesize info arg0 := rfl

section
variable {stack_top sp pagesize : Word} {info : LFILoadInfo} {as as1 : LFIAddrSpace L}
  {ptrs rest : List Word} {arg0 : Word}

/-- The pointer that is read back and checked is the one that was stored second. -/
lemma Wrote.first {l : List Word} {v : Word} (w : Wrote stack_top sp l as1 as) (hl : 1 < l.length)
    (h : ((load64 (sp + 8) >>= lfiAsToptr).run as).val = .ok v) :
    v = l[1] ∧ ((load64 (sp + 8) >>= lfiAsToptr).run as).st = as := by
  have hword := w.word hl
  rw [show sp + 8 * BitVec.ofNat 64 1 = sp + 8 from rfl] at hword
  rw [Exec.bind_run, load64_run, Exec.andThen_ok_nil, hword] at h ⊢
  exact lfiAsToptr_ok h

/-- The end of `stacksetup` reads the first pointer back. -/
lemma stackTail_some {sp' : Word} (hptrs : ptrs = arg0 :: rest) (ht8 : 8 ∣ stack_top.toNat)
    (hsp8 : 8 ∣ sp.toNat) (w : Wrote stack_top sp (BitVec.ofNat 64 ptrs.length :: ptrs) as1 as)
    (h : ((stackTail stack_top sp pagesize (BitVec.ofNat 64 ptrs.length) info).run as).val =
      .ok (some sp')) :
    sp' = sp ∧ Wrote stack_top sp (stackBlock ptrs (stackAux pagesize info arg0)) as1
      ((stackTail stack_top sp pagesize (BitVec.ofNat 64 ptrs.length) info).run as).st := by
  have hlen : (BitVec.ofNat 64 ptrs.length :: ptrs).length = ptrs.length + 1 := rfl
  generalize hk : ptrs.length = k at *
  unfold stackTail at h ⊢
  simp only [stackAuxv_eq] at h ⊢
  -- the null word and the empty environment
  obtain ⟨_, h1, h, hst, -⟩ := Exec.bind_ok h
  rw [hst]
  have w := w.store ht8 hsp8 hlen (by bv_omega) h1
  have hlen := congrArg (· + 1) hlen
  obtain ⟨_, h2, h, hst, -⟩ := Exec.bind_ok h
  rw [hst]
  have w := w.store ht8 hsp8 (n := k + 2) (by rw [List.length_append]; exact hlen) (by bv_omega) h2
  rw [List.append_assoc] at w
  generalize hl0 : BitVec.ofNat 64 k :: ptrs ++ ([0] ++ [0]) = l0 at w
  have hlen0 : l0.length = k + 3 := by
    rw [← hl0, List.length_append, List.length_cons, hk]
    rfl
  have hword : ∀ l' : List Word, ∃ h : 1 < (l0 ++ l').length, (l0 ++ l')[1] = arg0 := by
    intro l'
    refine ⟨by rw [List.length_append]; omega, ?_⟩
    simp only [← hl0, hptrs, List.cons_append, List.getElem_cons_succ, List.getElem_cons_zero]
  obtain ⟨_, h3, h, hst, -⟩ := Exec.bind_ok h
  rw [hst]
  have w := w.append ht8 hsp8 hlen0 (by bv_omega) h3
  -- the pointer for `AT_EXECFN`
  obtain ⟨hl, harg⟩ := hword (auxvWords (stackAux1 info))
  rw [← Exec.bind_assoc_run] at h ⊢
  obtain ⟨v, h4, h, hst, -⟩ := Exec.bind_ok h
  obtain ⟨rfl, has⟩ := w.first hl h4
  rw [hst]
  rw [has, harg] at h ⊢
  obtain ⟨_, h5, h, hst, -⟩ := Exec.bind_ok h
  rw [hst]
  have hlen1 : (l0 ++ auxvWords (stackAux1 info)).length = k + 15 := by
    rw [List.length_append, hlen0]
    rfl
  have w := w.append ht8 hsp8 hlen1 (by bv_omega) h5
  -- and the one for `AT_RANDOM`
  rw [List.append_assoc] at w
  obtain ⟨hl, harg'⟩ := hword (auxvWords (stackAux1 info) ++ auxvWords (stackAux2 pagesize arg0))
  rw [← Exec.bind_assoc_run] at h ⊢
  obtain ⟨v, h6, h, hst, -⟩ := Exec.bind_ok h
  obtain ⟨rfl, has⟩ := w.first hl h6
  rw [hst]
  rw [has, harg'] at h ⊢
  obtain ⟨_, h7, h, hst, -⟩ := Exec.bind_ok h
  rw [hst]
  have hlen2 : (l0 ++ (auxvWords (stackAux1 info) ++ auxvWords (stackAux2 pagesize arg0))).length =
      k + 23 := by
    rw [List.length_append, hlen0]
    rfl
  have w := w.append ht8 hsp8 hlen2 (by bv_omega) h7
  rw [Exec.pure_run] at h ⊢
  refine ⟨(Option.some.inj (Except.ok.inj h)).symm, ?_⟩
  have hblock : l0 ++ (auxvWords (stackAux1 info) ++ auxvWords (stackAux2 pagesize arg0)) ++
      auxvWords (stackAux3 arg0) = stackBlock ptrs (stackAux pagesize info arg0) := by
    rw [stackBlock, hk, ← stackAux_eq, ← hl0]
    simp only [auxvWords, List.flatMap_append, List.append_assoc]
    rfl
  rw [← hblock]
  exact w

end

/-- What `stacksetup` leaves when it returns true: the strings in the upper block, and then the words
from the stack pointer on. -/
lemma stacksetup_some {pagesize : Word} {argv : List (List Byte)} {info : LFILoadInfo} {sp : Word}
    {as : LFIAddrSpace L} {stack_top : Word} (htop : info.stack + info.stacksize = stack_top)
    (hz : ∀ s ∈ argv, ∀ b ∈ s, b ≠ 0) (hne : argv ≠ []) (ht8 : 8 ∣ stack_top.toNat)
    (hlow : 8192 ≤ stack_top.toNat) (hhigh : stack_top.toNat + 2048 ≤ 2 ^ 64)
    (h : ((stacksetup pagesize argv info).run as).val = .ok (some sp)) :
    ∃ ptrs e as1, e ≤ stack_top.toNat ∧ ptrs.length ≤ ARGC_MAX ∧
      StringsAt (stack_top - ARG_BLOCK) e argv ptrs as as1 ∧ sp = stack_top - 2 * ARG_BLOCK ∧
      Wrote stack_top sp (stackBlock ptrs (stackAux pagesize info (stack_top - ARG_BLOCK))) as1
        ((stacksetup pagesize argv info).run as).st := by
  rw [stacksetup_eq, htop] at h ⊢
  have hspn : (stack_top - 2 * ARG_BLOCK).toNat = stack_top.toNat - 8192 := by
    simp only [ARG_BLOCK]
    bv_omega
  have hstrn : (stack_top - ARG_BLOCK).toNat = stack_top.toNat - 4096 := by
    simp only [ARG_BLOCK]
    bv_omega
  obtain ⟨o, ho, h, hst, -⟩ := Exec.bind_ok h
  rw [hst]
  cases o with
  | none => cases h
  | some ptrs =>
    obtain ⟨new, e, hnew, he, hcount, sa⟩ := stackStrings_some hz (by omega) hhigh ho
    rw [List.nil_append] at hnew
    subst hnew
    have hlen := sa.strings.length_eq
    obtain ⟨ptr, rest, hptrs⟩ : ∃ ptr rest, ptrs = ptr :: rest := by
      cases ptrs with
      | nil => exact absurd (List.length_eq_zero_iff.mp hlen.symm) hne
      | cons ptr rest => exact ⟨ptr, rest, rfl⟩
    have hptr : ptr = stack_top - ARG_BLOCK := sa.head (by rw [hptrs]; rfl)
    rw [hptr] at hptrs
    rw [stackRest] at h ⊢
    rw [← hlen] at h ⊢
    generalize ((stackStrings stack_top (stack_top - ARG_BLOCK) argv []).run as).st = as1 at *
    refine ⟨ptrs, e, as1, he, hcount (by rw [hptrs]; simp), sa, ?_⟩
    unfold stackLower at h ⊢
    obtain ⟨_, h1, h, hst, -⟩ := Exec.bind_ok h
    rw [hst]
    have hle : (stack_top - 2 * ARG_BLOCK).toNat ≤ stack_top.toNat := by omega
    have w := (Wrote.nil as1 hle).store ht8 (by omega) (n := 0) rfl (by bv_omega) h1
    obtain ⟨ok, h2, h, hst, -⟩ := Exec.bind_ok h
    rw [hst]
    cases ok with
    | false => cases h
    | true =>
      obtain ⟨hok, hst⟩ := stackPointers_true h2
      rw [show stack_top - 2 * ARG_BLOCK + 8 + 8 * BitVec.ofNat 64 0 = stack_top - 2 * ARG_BLOCK + 8 by
        bv_omega] at hok hst
      have w := w.append ht8 (by omega) (n := 1) rfl (by bv_omega) hok
      rw [if_pos rfl] at h ⊢
      rw [← hst] at w
      obtain ⟨rfl, w⟩ := stackTail_some hptrs ht8 (by omega) w h
      exact ⟨rfl, w⟩

/-- The bytes that `stacksetup` stores from the stack pointer on: the count, the pointers, two null words
and nineteen entries of the auxiliary vector. -/
def blockBytes (argc : Nat) : Nat := 8 * (argc + 3) + 16 * 19

/-- What is stored, in bytes. -/
lemma length_stackBlock (ptrs : List Word) (pagesize arg0 : Word) (info : LFILoadInfo) :
    8 * (stackBlock ptrs (stackAux pagesize info arg0)).length = blockBytes ptrs.length := by
  have haux : (auxvWords (stackAux pagesize info arg0)).length = 38 := rfl
  simp only [stackBlock, List.length_append, List.length_cons, haux, List.length_nil, blockBytes]
  omega

end Libtux
