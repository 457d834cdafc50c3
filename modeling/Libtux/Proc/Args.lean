import Libtux.Proc.Stack

/-!
# When the stack can be set up

What `stacksetup` answers for every argument vector (`stacksetup_val`): false when the strings do not fit
in their block, true when they do and the words below them fit on the stack, and otherwise no answer. An
empty vector leaves a null word where the pointer for `AT_EXECFN` is read, which `lfi_as_toptr` refuses
with an assertion. With too many strings the function runs over `argv_ptrs` or over the end of the stack.
-/

namespace Libtux
open Lib Elf

variable {L : LibMMap}

/-- The bytes that the strings take, with their terminators. -/
def stringBytes (argv : List (List Byte)) : Nat :=
  (argv.map fun s => (s.take ARGV_MAX).length + 1).sum

/-- The first string takes what is left of it, and a zero. -/
lemma stringBytes_cons (arg : List Byte) (argv : List (List Byte)) :
    stringBytes (arg :: argv) = (arg.take ARGV_MAX).length + 1 + stringBytes argv := by
  rw [stringBytes, List.map_cons, List.sum_cons]
  rfl

/-! ## Strings -/

/-- The first loop of `stacksetup`. The strings that matter are those up to one more than `argv_ptrs`
has entries left for. -/
lemma stackStrings_val {stack_top : Word} (p : Word) {argv : List (List Byte)} (ptrs0 : List Word)
    (as : LFIAddrSpace L) (hz : ∀ s ∈ argv, ∀ b ∈ s, b ≠ 0) (hp : p.toNat < stack_top.toNat)
    (ht : stack_top.toNat + 2048 ≤ 2 ^ 64) (hn : ptrs0.length ≤ ARGC_MAX) :
    (stack_top.toNat ≤ p.toNat + stringBytes (argv.take (ARGC_MAX + 1 - ptrs0.length)) ∧
      ((stackStrings stack_top p argv ptrs0).run as).val = .ok none) ∨
    (p.toNat + stringBytes (argv.take (ARGC_MAX + 1 - ptrs0.length)) < stack_top.toNat ∧
      ptrs0.length + argv.length ≤ ARGC_MAX ∧
      ∃ ptrs, ((stackStrings stack_top p argv ptrs0).run as).val = .ok (some ptrs)) ∨
    (p.toNat + stringBytes (argv.take (ARGC_MAX + 1 - ptrs0.length)) < stack_top.toNat ∧
      ARGC_MAX < ptrs0.length + argv.length ∧
      ((stackStrings stack_top p argv ptrs0).run as).val = .error .undefined) := by
  induction argv generalizing p ptrs0 as with
  | nil =>
    right
    left
    rw [List.take_nil]
    exact ⟨hp, hn, ptrs0, rfl⟩
  | cons arg argv ih =>
    have hzarg := hz arg (List.mem_cons_self ..)
    have hle : (arg.take ARGV_MAX).length ≤ 1024 := List.length_take_le ..
    have hlen : (BitVec.ofNat 64 (strnlen arg ARGV_MAX + 1)).toNat = (arg.take ARGV_MAX).length + 1 := by
      rw [strnlen_eq hzarg, BitVec.toNat_ofNat]
      exact Nat.mod_eq_of_lt (by omega)
    have hq : (p + BitVec.ofNat 64 (strnlen arg ARGV_MAX + 1)).toNat =
        p.toNat + (arg.take ARGV_MAX).length + 1 := by
      bv_omega
    have htake : (arg :: argv).take (ARGC_MAX + 1 - ptrs0.length) =
        arg :: argv.take (ARGC_MAX - ptrs0.length) := by
      rw [Nat.succ_sub hn, List.take_succ_cons]
    rw [htake, stringBytes_cons, stackStrings]
    by_cases hfit : p + BitVec.ofNat 64 (strnlen arg ARGV_MAX + 1) ≥ stack_top
    · left
      have hfit : stack_top.toNat ≤ p.toNat + (arg.take ARGV_MAX).length + 1 := hq ▸ hfit
      rw [if_pos ‹_›]
      exact ⟨by omega, rfl⟩
    rw [if_neg hfit]
    have hlt : p.toNat + (arg.take ARGV_MAX).length + 1 < stack_top.toNat := by
      rw [← hq]
      exact Nat.lt_of_not_le hfit
    rw [Exec.bind_run, Exec.modify_run, Exec.andThen_ok_nil, Exec.check_bind_run]
    by_cases hcount : ptrs0.length < ARGC_MAX
    case neg =>
      right
      right
      have hzero : ARGC_MAX - ptrs0.length = 0 := by omega
      rw [if_neg hcount, hzero, List.take_zero, List.length_cons]
      exact ⟨hlt, by omega, rfl⟩
    rw [if_pos hcount]
    have hih := ih (p + BitVec.ofNat 64 (strnlen arg ARGV_MAX + 1)) (ptrs0 ++ [p])
      { as with mem := putString as.mem p arg } (fun s hs => hz s (List.mem_cons_of_mem _ hs)) (by omega)
      (by rw [List.length_append]; exact hcount)
    rw [hq, List.length_append, List.length_singleton,
      show ARGC_MAX + 1 - (ptrs0.length + 1) = ARGC_MAX - ptrs0.length by omega] at hih
    rw [List.length_cons]
    obtain ⟨h1, h2⟩ | ⟨h1, h2, ptrs, h3⟩ | ⟨h1, h2, h3⟩ := hih
    · exact .inl ⟨by omega, h2⟩
    · exact .inr (.inl ⟨by omega, by omega, ptrs, h3⟩)
    · exact .inr (.inr ⟨by omega, by omega, h3⟩)

/-! ## Words -/

/-- One word that is stored on the stack. -/
lemma stackStore_bind {α : Type} (stack_top q v : Word) (f : Unit → Vm L α) (as : LFIAddrSpace L) :
    (stackStore stack_top q v >>= f).run as = (stackWords stack_top q [v] >>= f).run as := by
  simp only [stackWords, Exec.bind_assoc_run]
  rw [Exec.bind_run, Exec.bind_run, stackStore_run]
  split
  · rw [Exec.andThen_ok_nil, Exec.andThen_ok_nil, Exec.bind_run, Exec.pure_run, Exec.andThen_ok_nil]
  · rw [Exec.andThen_error, Exec.andThen_error]

/-- Going on where the last word ended either stops or goes on. -/
lemma Wrote.bind_words {α : Type} {stack_top p q : Word} {l l' : List Word} {as1 as : LFIAddrSpace L}
    {n : Nat} {f : Unit → Vm L α} {P : Except Stop α → Prop} (w : Wrote stack_top p l as1 as)
    (ht : 8 ∣ stack_top.toNat) (hp : 8 ∣ p.toNat) (hn : l.length = n)
    (hq : q = p + 8 * BitVec.ofNat 64 n)
    (hstop : stack_top.toNat < p.toNat + 8 * (n + l'.length) → P (.error .undefined))
    (hgo : ∀ as2, Wrote stack_top p (l ++ l') as1 as2 → P ((f ()).run as2).val) :
    P ((stackWords stack_top q l' >>= f).run as).val := by
  have hfit := w.fit
  have := stack_top.isLt
  have hqn : q.toNat = p.toNat + 8 * n := by
    rw [hn] at hfit
    rw [hq]
    bv_omega
  by_cases hroom : q.toNat + 8 * l'.length ≤ stack_top.toNat
  · have hrun := stackWords_run as hroom
    have hok : ((stackWords stack_top q l').run as).val = .ok () := by rw [hrun]
    have hgo := hgo _ (w.append ht hp hn hq hok)
    rw [hrun] at hgo
    rw [Exec.bind_run, hrun, Exec.andThen_ok_nil]
    exact hgo
  · have hund := stackWords_undefined as ht (by omega) (by omega) (Nat.lt_of_not_le hroom)
    rw [Exec.bind_run, Res.eq_mk hund, Exec.andThen_error]
    exact hstop (by omega)

/-- What a run that stores its words and checks one of them answers: whether there is room for the words,
and whether the one that is checked is a pointer. -/
structure TailVal (room good : Prop) (sp : Word) (x : Except Stop (Option Word)) : Prop where
  returns : room → good → x = .ok (some sp)
  refuses : room → ¬ good → x = .error (.assertion .toptr)
  overruns : ¬ room → good → x = .error .undefined

/-- There is no room for the vector, -/
lemma TailVal.overrun {room good : Prop} {sp : Word} (h : ¬ room) :
    TailVal room good sp (.error .undefined) :=
  ⟨fun hr => absurd hr h, fun hr => absurd hr h, fun _ _ => rfl⟩

/-- or the first argument is no pointer of the sandbox. -/
lemma TailVal.refuse {room good : Prop} {sp : Word} (h : ¬ good) :
    TailVal room good sp (.error (.assertion .toptr)) :=
  ⟨fun _ hg => absurd hg h, fun _ _ => rfl, fun _ hg => absurd hg h⟩

section
variable {stack_top sp v : Word} {as as1 : LFIAddrSpace L} {ptrs rest : List Word}

/-- The pointer that is read back and checked. -/
lemma Wrote.bind_first {α : Type} {l : List Word} {f : Word → Vm L α} {P : Except Stop α → Prop}
    (w : Wrote stack_top sp l as1 as) (hl : 1 < l.length)
    (hstop : ¬ (l[1] ≥ as1.info.minaddr ∧ l[1] < as1.info.maxaddr) → P (.error (.assertion .toptr)))
    (hgo : (l[1] ≥ as1.info.minaddr ∧ l[1] < as1.info.maxaddr) → P ((f l[1]).run as).val) :
    P ((load64 (sp + 8) >>= fun x => lfiAsToptr x >>= f).run as).val := by
  have hword := w.word hl
  have hinfo : as.info = as1.info := by
    rw [w.eq]
    rfl
  rw [show sp + 8 * BitVec.ofNat 64 1 = sp + 8 from rfl] at hword
  rw [Exec.bind_run, load64_run, Exec.andThen_ok_nil, hword, Exec.bind_run, lfiAsToptr_run, hinfo]
  split
  · rw [Exec.andThen_ok_nil]
    exact hgo ‹_›
  · rw [Exec.andThen_error]
    exact hstop ‹_›

/-- The end of `stacksetup`, with the word after the count. -/
lemma stackTail_val (pagesize : Word) (info : LFILoadInfo) (hv : ptrs ++ [0, 0] = v :: rest)
    (ht8 : 8 ∣ stack_top.toNat) (hsp8 : 8 ∣ sp.toNat)
    (w : Wrote stack_top sp (BitVec.ofNat 64 ptrs.length :: ptrs) as1 as) :
    TailVal (sp.toNat + blockBytes ptrs.length ≤ stack_top.toNat)
      (v ≥ as1.info.minaddr ∧ v < as1.info.maxaddr) sp
      ((stackTail stack_top sp pagesize (BitVec.ofNat 64 ptrs.length) info).run as).val := by
  have hlen : (BitVec.ofNat 64 ptrs.length :: ptrs).length = ptrs.length + 1 := rfl
  have hblock := length_stackBlock ptrs pagesize v info
  generalize hk : ptrs.length = k at *
  have haux1 : (auxvWords (stackAux1 info)).length = 12 := rfl
  have haux2 : ∀ x, (auxvWords (stackAux2 pagesize x)).length = 8 := fun _ => rfl
  have haux3 : ∀ x, (auxvWords (stackAux3 x)).length = 18 := fun _ => rfl
  unfold blockBytes
  unfold stackTail
  simp only [stackAuxv_eq]
  rw [stackStore_bind]
  refine w.bind_words ht8 hsp8 hlen (by bv_omega) (fun h => .overrun ?_) fun as2 w => ?_
  · rw [List.length_singleton] at h
    omega
  rw [stackStore_bind]
  refine w.bind_words (n := k + 2) ht8 hsp8 ?_ (by bv_omega) (fun h => .overrun ?_) fun as3 w => ?_
  · rw [List.length_append, hlen]
    rfl
  · rw [List.length_singleton] at h
    omega
  rw [List.append_assoc] at w
  obtain ⟨l0, hl0⟩ : ∃ l0, l0 = BitVec.ofNat 64 k :: ptrs ++ ([0] ++ [0]) := ⟨_, rfl⟩
  rw [← hl0] at w
  have hcons : l0 = BitVec.ofNat 64 k :: v :: rest := by
    rw [hl0, ← hv]
    rfl
  have hlen0 : l0.length = k + 3 := by
    rw [hl0, List.length_append, hlen]
    rfl
  refine w.bind_words ht8 hsp8 hlen0 (by bv_omega) (fun h => .overrun (by omega)) fun as4 w => ?_
  have hword : ∀ l' : List Word, ∃ h : 1 < (l0 ++ l').length, (l0 ++ l')[1] = v := by
    intro l'
    refine ⟨by rw [List.length_append]; omega, ?_⟩
    simp only [hcons, List.cons_append, List.getElem_cons_succ, List.getElem_cons_zero]
  obtain ⟨hl, harg⟩ := hword (auxvWords (stackAux1 info))
  refine w.bind_first hl (fun h => .refuse (harg ▸ h)) fun hgood => ?_
  rw [harg] at hgood ⊢
  have hlen1 : (l0 ++ auxvWords (stackAux1 info)).length = k + 15 := by
    rw [List.length_append, hlen0, haux1]
  refine w.bind_words ht8 hsp8 hlen1 (by bv_omega) (fun h => .overrun ?_) fun as5 w => ?_
  · rw [haux2] at h
    omega
  rw [List.append_assoc] at w
  obtain ⟨hl, harg⟩ := hword (auxvWords (stackAux1 info) ++ auxvWords (stackAux2 pagesize v))
  refine w.bind_first hl (fun h => .refuse (harg ▸ h)) fun hgood => ?_
  rw [harg] at hgood ⊢
  have hlen2 : (l0 ++ (auxvWords (stackAux1 info) ++ auxvWords (stackAux2 pagesize v))).length =
      k + 23 := by
    rw [List.length_append, List.length_append, hlen0, haux1, haux2]
  refine w.bind_words ht8 hsp8 hlen2 (by bv_omega) (fun h => .overrun ?_) fun as6 w => ?_
  · rw [haux3] at h
    omega
  have hfit := w.fit
  rw [List.length_append, hlen2, haux3] at hfit
  rw [Exec.pure_run]
  exact ⟨fun _ _ => rfl, fun _ hbad => absurd hgood hbad, fun hroom => absurd (by omega) hroom⟩

/-- The second loop of `stacksetup`, for pointers into the address space. -/
lemma stackPointers_bind {α : Type} {p_argvp : Word} {i : Nat} (f : Bool → Vm L α)
    (hlow : p_argvp < stack_top - ARG_BLOCK)
    (hptrs : ∀ ptr ∈ ptrs, ptr ≥ as.info.minaddr ∧ ptr < as.info.maxaddr) :
    ((stackPointers stack_top p_argvp i ptrs >>= f).run as).val =
      ((stackWords stack_top (p_argvp + 8 * BitVec.ofNat 64 i) ptrs >>= fun _ => f true).run as).val := by
  induction ptrs generalizing i as with
  | nil => rfl
  | cons ptr ptrs ih =>
    have hq : p_argvp + 8 * BitVec.ofNat 64 (i + 1) = p_argvp + 8 * BitVec.ofNat 64 i + 8 := by bv_omega
    rw [stackPointers, if_neg (BitVec.not_le.mpr hlow), stackWords, Exec.bind_assoc_run,
      Exec.bind_assoc_run, Exec.bind_run, lfiAsToptr_run, if_pos (hptrs ptr (List.mem_cons_self ..)),
      Exec.andThen_ok_nil, Exec.bind_assoc_run, Exec.bind_run, Exec.bind_run, stackStore_run]
    split
    · have hrest : ∀ x ∈ ptrs, x ≥ (as.putWords (p_argvp + 8 * BitVec.ofNat 64 i) [ptr]).info.minaddr ∧
          x < (as.putWords (p_argvp + 8 * BitVec.ofNat 64 i) [ptr]).info.maxaddr :=
        fun x hx => hptrs x (List.mem_cons_of_mem _ hx)
      rw [Exec.andThen_ok_nil, Exec.andThen_ok_nil, ih hrest, hq]
    · rw [Exec.andThen_error, Exec.andThen_error]

/-- The part of `stacksetup` after the strings, for pointers into the address space. -/
lemma stackLower_val (pagesize : Word) (info : LFILoadInfo) (hv : ptrs ++ [0, 0] = v :: rest)
    (ht8 : 8 ∣ stack_top.toNat)
    (hlow : 8192 ≤ stack_top.toNat)
    (hptrs : ∀ ptr ∈ ptrs, ptr ≥ as.info.minaddr ∧ ptr < as.info.maxaddr) :
    TailVal ((stack_top - 2 * ARG_BLOCK).toNat + blockBytes ptrs.length ≤ stack_top.toNat)
      (v ≥ as.info.minaddr ∧ v < as.info.maxaddr) (stack_top - 2 * ARG_BLOCK)
      ((stackLower stack_top (stack_top - 2 * ARG_BLOCK) pagesize (BitVec.ofNat 64 ptrs.length) info
        ptrs).run as).val := by
  have hspn : (stack_top - 2 * ARG_BLOCK).toNat = stack_top.toNat - 8192 := by
    simp only [ARG_BLOCK]
    bv_omega
  have hargvp : stack_top - 2 * ARG_BLOCK + 8 < stack_top - ARG_BLOCK := by
    simp only [ARG_BLOCK]
    bv_omega
  have hsp : (stack_top - 2 * ARG_BLOCK).toNat ≤ stack_top.toNat := by omega
  have hsp8 : 8 ∣ (stack_top - 2 * ARG_BLOCK).toNat := by omega
  unfold stackLower
  rw [stackStore_bind]
  refine (Wrote.nil as hsp).bind_words (n := 0) ht8 hsp8 rfl (by bv_omega) (fun h => .overrun ?_)
    fun as2 w => ?_
  · rw [List.length_singleton] at h
    omega
  have hinfo : as2.info = as.info := by
    rw [w.eq]
    rfl
  rw [stackPointers_bind _ hargvp (by rw [hinfo]; exact hptrs)]
  refine w.bind_words (n := 1) ht8 hsp8 rfl (by bv_omega) (fun h => .overrun ?_) fun as3 w => ?_
  · unfold blockBytes
    omega
  exact stackTail_val pagesize info hv ht8 hsp8 w

end

/-- The pointers lie where the strings do. -/
lemma StringsAt.ptr_bounds {p : Word} {e : Nat} {argv : List (List Byte)} {ptrs : List Word}
    {as as' : LFIAddrSpace L} (sa : StringsAt p e argv ptrs as as') :
    ∀ ptr ∈ ptrs, p.toNat ≤ ptr.toNat ∧ ptr.toNat < e := by
  have h : List.Forall₂ (fun (ptr : Word) (_ : List Byte) => (p.toNat ≤ ptr.toNat ∧ ptr.toNat < e) ∧ True)
      ptrs argv := by
    refine sa.strings.imp fun ptr s hs => ⟨⟨hs.2.1, ?_⟩, trivial⟩
    exact lt_of_le_of_lt (Nat.le_add_right ..) hs.2.2
  exact (List.forall₂_and_left ..).mp h |>.1

/-- What `stacksetup` answers. -/
inductive StackVal (argv : List (List Byte)) (sp : Word) : Except Stop (Option Word) → Prop where
  | empty : argv = [] → StackVal argv sp (.error (.assertion .toptr))
  | long : ARG_BLOCK.toNat ≤ stringBytes (argv.take (ARGC_MAX + 1)) → StackVal argv sp (.ok none)
  | ready : argv ≠ [] → stringBytes (argv.take (ARGC_MAX + 1)) < ARG_BLOCK.toNat →
    blockBytes argv.length ≤ 2 * ARG_BLOCK.toNat → StackVal argv sp (.ok (some sp))
  | overrun : stringBytes (argv.take (ARGC_MAX + 1)) < ARG_BLOCK.toNat →
    2 * ARG_BLOCK.toNat < blockBytes argv.length → StackVal argv sp (.error .undefined)

/-- The part after the strings takes one of these ways. -/
lemma StringsAt.stackVal (pagesize : Word) (info : LFILoadInfo) {argv : List (List Byte)} {ptrs : List Word}
    {e : Nat} {stack_top : Word} {as as1 : LFIAddrSpace L}
    (sa : StringsAt (stack_top - ARG_BLOCK) e argv ptrs as as1) (he : e ≤ stack_top.toNat)
    (ht8 : 8 ∣ stack_top.toNat) (hlow : 8192 ≤ stack_top.toNat) (htop : stack_top = as.info.maxaddr)
    (hmin : 0 < as.info.minaddr.toNat ∧ as.info.minaddr.toNat ≤ (stack_top - ARG_BLOCK).toNat)
    (hb : stringBytes (argv.take (ARGC_MAX + 1)) < ARG_BLOCK.toNat) :
    StackVal argv (stack_top - 2 * ARG_BLOCK) ((stackLower stack_top (stack_top - 2 * ARG_BLOCK) pagesize
      (BitVec.ofNat 64 argv.length) info ptrs).run as1).val := by
  have hinfo : as1.info = as.info := by rw [sa.eq]
  have hlen := sa.strings.length_eq
  have hblock : ARG_BLOCK.toNat = 4096 := rfl
  have hptrs : ∀ ptr ∈ ptrs, ptr ≥ as1.info.minaddr ∧ ptr < as1.info.maxaddr := by
    intro ptr hptr
    obtain ⟨h1, h2⟩ := sa.ptr_bounds ptr hptr
    rw [hinfo, ge_iff_le, BitVec.le_def, BitVec.lt_def, ← htop]
    omega
  have hroom : (stack_top - 2 * ARG_BLOCK).toNat + blockBytes ptrs.length ≤ stack_top.toNat ↔
      blockBytes argv.length ≤ 2 * ARG_BLOCK.toNat := by
    have hspn : (stack_top - 2 * ARG_BLOCK).toNat = stack_top.toNat - 8192 := by
      simp only [ARG_BLOCK]
      bv_omega
    rw [hlen, hspn]
    omega
  rw [← hlen]
  cases ptrs with
  | nil =>
    have hargv : argv = [] := List.length_eq_zero_iff.mp hlen.symm
    have hzero : ¬ ((0 : Word) ≥ as1.info.minaddr ∧ (0 : Word) < as1.info.maxaddr) := by
      rw [hinfo, ge_iff_le, BitVec.le_def]
      have h0 : (0 : Word).toNat = 0 := rfl
      omega
    have hfit : blockBytes argv.length ≤ 2 * ARG_BLOCK.toNat := by
      rw [hargv, hblock, List.length_nil, blockBytes]
      omega
    have tv := stackLower_val pagesize info (show [] ++ [0, 0] = 0 :: [0] from rfl) ht8 hlow hptrs
    rw [tv.refuses (hroom.mpr hfit) hzero]
    exact .empty hargv
  | cons ptr rest =>
    have hne : argv ≠ [] := by
      rintro rfl
      cases hlen
    have tv := stackLower_val pagesize info List.cons_append ht8 hlow hptrs
    have hgood := hptrs ptr (List.mem_cons_self ..)
    by_cases hfit : blockBytes argv.length ≤ 2 * ARG_BLOCK.toNat
    · rw [tv.returns (hroom.mpr hfit) hgood]
      exact .ready hne hb hfit
    · rw [tv.overruns (fun h => hfit (hroom.mp h)) hgood]
      exact .overrun hb (Nat.lt_of_not_le hfit)

/-- `stacksetup` takes one of these ways, on a stack at the top of the address space. -/
lemma stacksetup_val (pagesize : Word) {argv : List (List Byte)} {info : LFILoadInfo}
    {as : LFIAddrSpace L} (hpg : as.info.pagesize.toNat ≤ 2 ^ 20)
    (htop : info.stack + info.stacksize = as.info.maxaddr) (hz : ∀ s ∈ argv, ∀ b ∈ s, b ≠ 0) :
    StackVal argv (as.info.maxaddr - 2 * ARG_BLOCK) ((stacksetup pagesize argv info).run as).val := by
  have hmax := as.info.maxaddr_toNat
  have hmin := as.info.minaddr_toNat (by omega)
  have hbase := as.info.base_top
  obtain ⟨c, hc⟩ := as.info.base_aligned
  have hstrn : (as.info.maxaddr - ARG_BLOCK).toNat = as.info.maxaddr.toNat - 4096 := by
    simp only [ARG_BLOCK]
    bv_omega
  have hblock : ARG_BLOCK.toNat = 4096 := rfl
  have hstart : (as.info.maxaddr - ARG_BLOCK).toNat < as.info.maxaddr.toNat := by omega
  rw [stacksetup_eq, htop, Exec.bind_run]
  have hstr := stackStrings_val (as.info.maxaddr - ARG_BLOCK) [] as hz hstart (by omega) (by decide)
  rw [List.length_nil, Nat.sub_zero, Nat.zero_add] at hstr
  obtain ⟨hb, hv⟩ | ⟨hb, hn, ptrs, hv⟩ | ⟨hb, hn, hv⟩ := hstr
  · rw [Res.eq_mk hv, Exec.andThen_ok, stackRest, Exec.pure_run]
    exact .long (by omega)
  · obtain ⟨new, e, hnew, he, -, sa⟩ := stackStrings_some hz (by omega) (by omega) hv
    rw [List.nil_append] at hnew
    subst hnew
    rw [Res.eq_mk hv, Exec.andThen_ok_val, stackRest]
    exact sa.stackVal pagesize info he (by omega) (by omega) rfl (by omega) (by omega)
  · rw [Res.eq_mk hv, Exec.andThen_error]
    refine .overrun (by omega) ?_
    have : ARGC_MAX = 1024 := rfl
    unfold blockBytes
    omega

end Libtux
