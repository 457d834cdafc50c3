import Libtux.Thread.Join

/-!
# Requeueing sleepers

`FUTEX_REQUEUE` wakes some of the sleepers of one word and moves some of the others to a second one. The
wrappers of `sys_futex` hand the host the word, the operation and `val`, as for a wake; `val2` and `uaddr2`
are not passed on, and the host finds in their place whatever the registers of the caller hold. With some
operands it refuses the call, and then nobody wakes. A contract about the sleepers is therefore one for every
value of these: it holds exactly when nobody sleeps on the word.
-/

namespace Libtux
open Lib

/-- The threads asleep on each word, the one that has slept longest first, and the words in memory that the host
can read. A sleeper had the host read its word, and there is more than one such word. -/
structure Sleepers where
  asleep : Word → List Nat
  valid : Word → Bool
  valid_of_asleep : ∀ a, asleep a ≠ [] → valid a = true
  exists_valid : ∀ a, ∃ b, b ≠ a ∧ b &&& 3 = 0 ∧ valid b = true

/-- `val` sleepers of `uaddr` are woken, and `val2` of the rest moved to `uaddr2`. The result is who woke and who
sleeps where. -/
def requeued (uaddr : Word) (val val2 : Nat) (uaddr2 : Word) (asleep : Word → List Nat) :
    List Nat × (Word → List Nat) :=
  let rest := (asleep uaddr).drop val
  ((asleep uaddr).take val,
    if uaddr2 = uaddr then Function.update asleep uaddr rest
    else Function.update (Function.update asleep uaddr (rest.drop val2)) uaddr2 (asleep uaddr2 ++ rest.take val2))

/-- The host refuses a requeue when one of the numbers is negative, and when a word is not aligned or not one that
it can read. -/
def RequeueAccepts (s : Sleepers) (uaddr : Word) (val val2 : CInt) (uaddr2 : Word) : Prop :=
  0 ≤ val.toInt ∧ 0 ≤ val2.toInt ∧ s.valid uaddr = true ∧ uaddr2 &&& 3 = 0 ∧ s.valid uaddr2 = true

instance (s : Sleepers) (uaddr : Word) (val val2 : CInt) (uaddr2 : Word) :
    Decidable (RequeueAccepts s uaddr val val2 uaddr2) :=
  inferInstanceAs (Decidable (_ ∧ _ ∧ _ ∧ _ ∧ _))

/-- `FUTEX_REQUEUE` of the host. -/
def futexRequeue (uaddr : Word) (val val2 : CInt) (uaddr2 : Word) (s : Sleepers) :
    List Nat × (Word → List Nat) :=
  if RequeueAccepts s uaddr val val2 uaddr2 then requeued uaddr val.toNat val2.toNat uaddr2 s.asleep
  else ([], s.asleep)

/-- The operands of a futex call that the wrappers do not pass. The number is an `int` to the host. -/
structure Unpassed where
  val2 : CInt
  uaddr2 : Word

/-- What a requeue that was issued does, with the operands that were not passed. -/
def FutexCall.requeues (g : Unpassed) (s : Sleepers) : FutexCall → Option (List Nat × (Word → List Nat))
  | .requeue uaddr _ val => some (futexRequeue uaddr val g.val2 g.uaddr2 s)
  | _ => none

variable {L : LibMMap} {M : Machine} {O : HostOs}

/-- What `sys_futex` should do for a requeue, of the sleepers `s`: what is asked for happens, although the host
finds `g` where it looks for the other operands. The second address and `val3` are arguments of `sys_futex` that
it does not use. -/
def Requeues (O : HostOs) (w : World L M) (uaddr : Word) (op val : CInt) (val2 uaddr2 : Word) (s : Sleepers)
    (g : Unpassed) : Prop :=
  ∃ c, futexOf (sysFutex O uaddr op val val2) w = some c ∧
    c.requeues g s = some (requeued uaddr val.toNat val2.toNat uaddr2 s.asleep)

/-- Without sleepers nobody wakes and nobody moves. -/
lemma requeued_nil {uaddr : Word} {asleep : Word → List Nat} (h : asleep uaddr = []) (val val2 : Nat)
    (uaddr2 : Word) : requeued uaddr val val2 uaddr2 asleep = ([], asleep) := by
  have hself : Function.update asleep uaddr [] = asleep := by
    rw [← h]
    exact Function.update_eq_self ..
  rw [requeued, h, List.drop_nil, List.take_nil, List.drop_nil, List.take_nil, List.append_nil, hself,
    Function.update_eq_self, ite_self]

/-- When all sleepers wake, the last two operands do not matter. -/
lemma requeued_all {uaddr : Word} {val : Nat} {asleep : Word → List Nat} (h : (asleep uaddr).length ≤ val)
    (val2 : Nat) (uaddr2 : Word) :
    requeued uaddr val val2 uaddr2 asleep = (asleep uaddr, Function.update asleep uaddr []) := by
  have hrest : (asleep uaddr).drop val = [] := List.drop_eq_nil_of_le h
  rw [requeued, hrest, List.drop_nil, List.take_nil, List.append_nil, List.take_of_length_le h]
  split
  · rfl
  · rename_i hne
    congr 1
    exact Function.update_eq_iff.mpr ⟨(Function.update_of_ne hne ..).symm, fun _ _ => rfl⟩

/-- With sleepers that stay asleep they do: nobody is moved, or one is moved to another word. -/
lemma requeued_differs {uaddr b : Word} {val : Nat} {asleep : Word → List Nat} (h : val < (asleep uaddr).length)
    (hb : b ≠ uaddr) : requeued uaddr val 0 b asleep ≠ requeued uaddr val 1 b asleep := by
  intro heq
  have hat := congrArg (fun r => (r.2 uaddr).length) heq
  simp only [requeued, if_neg hb, Function.update_of_ne hb.symm, Function.update_self, List.length_drop] at hat
  omega

/-- Some operands that the host may find are not as they should be: it refuses the call, or it moves nobody, or
one sleeper to another word. -/
lemma requeue_fails {uaddr : Word} {s : Sleepers} (h : s.asleep uaddr ≠ []) (val : CInt)
    (r : List Nat × (Word → List Nat)) (hr : r.1 = (s.asleep uaddr).take val.toNat) :
    ∃ g : Unpassed, futexRequeue uaddr val g.val2 g.uaddr2 s ≠ r := by
  by_contra hall
  have hall : ∀ g : Unpassed, futexRequeue uaddr val g.val2 g.uaddr2 s = r := fun g =>
    not_not.mp fun hne => hall ⟨g, hne⟩
  have hrefused : ([], s.asleep) = r := by
    rw [← hall ⟨-1, 0⟩, futexRequeue, if_neg]
    exact fun hacc => absurd hacc.2.1 (by decide)
  rw [← hrefused] at hr hall
  have hpos : 0 < (s.asleep uaddr).length := List.length_pos_iff.mpr h
  -- nobody wakes, so that none should
  have hval : val.toNat = 0 := by
    have hlen := congrArg List.length hr
    rw [List.length_take, List.length_nil] at hlen
    omega
  obtain rfl : val = 0 := BitVec.eq_of_toNat_eq hval
  obtain ⟨b, hb, halign, hvalid⟩ := s.exists_valid uaddr
  have hdoes : ∀ val2 : CInt, 0 ≤ val2.toInt → requeued uaddr 0 val2.toNat b s.asleep = ([], s.asleep) := by
    intro val2 hval2
    rw [← hall ⟨val2, b⟩, futexRequeue, if_pos ⟨by decide, hval2, s.valid_of_asleep _ h, halign, hvalid⟩]
    rfl
  exact requeued_differs hpos hb ((hdoes 0 (by decide)).trans (hdoes 1 (by decide)).symm)

/-- The call that is issued. -/
lemma futexOf_requeue {w : World L M} {uaddr : Word} {op : CInt} (val : CInt) (val2 : Word)
    (h : Word4 w.info uaddr) (hop : op &&& ~~~TUX_FUTEX_PRIVATE_FLAG = TUX_FUTEX_REQUEUE) :
    futexOf (sysFutex O uaddr op val val2) w = some (.requeue uaddr op val) := by
  have h' : Word4 ({ w with futexes := [] } : World L M).info uaddr := h
  rw [futexOf, sysFutex, if_neg (not_not.mpr h.and_three), Exec.bind_run, procbufalign_word4 h',
    Exec.andThen_ok]
  dsimp only
  rw [hop, if_neg (by decide), if_neg (by decide), if_pos rfl, hostFutex_st]
  rfl

/-- A requeue of sleepers of a word in the sandbox does what it should, whatever the host finds in place of the
operands, exactly when nobody sleeps on the word. With operands that the host accepts it does when all sleepers are
to be woken. -/
theorem requeue_contract {w : World L M} {uaddr : Word} {op : CInt} (val : CInt) (val2 uaddr2 : Word)
    (s : Sleepers) (h : Word4 w.info uaddr)
    (hop : op &&& ~~~TUX_FUTEX_PRIVATE_FLAG = TUX_FUTEX_REQUEUE) :
    ((∀ g, Requeues O w uaddr op val val2 uaddr2 s g) ↔ s.asleep uaddr = []) ∧
    ∀ g, RequeueAccepts s uaddr val g.val2 g.uaddr2 → (s.asleep uaddr).length ≤ val.toNat →
      Requeues O w uaddr op val val2 uaddr2 s g := by
  have hcall : ∀ g, Requeues O w uaddr op val val2 uaddr2 s g ↔
      futexRequeue uaddr val g.val2 g.uaddr2 s = requeued uaddr val.toNat val2.toNat uaddr2 s.asleep := by
    intro g
    rw [Requeues, futexOf_requeue val val2 h hop]
    constructor
    · rintro ⟨c, ⟨rfl⟩, hc⟩
      exact Option.some.inj hc
    · exact fun hc => ⟨_, rfl, congrArg some hc⟩
  refine ⟨⟨fun hall => ?_, fun hnil g => ?_⟩, fun g hacc hle => ?_⟩
  · by_contra hne
    obtain ⟨g, hg⟩ := requeue_fails hne val (requeued uaddr val.toNat val2.toNat uaddr2 s.asleep) rfl
    exact hg ((hcall g).mp (hall g))
  · rw [hcall, requeued_nil hnil, futexRequeue, requeued_nil hnil, ite_self]
  · rw [hcall, futexRequeue, if_pos hacc, requeued_all hle, requeued_all hle]

/-- The first thread of a process. -/
def firstThread : World .ofRanges .x64 := World.ofThread (procnewfile (.fresh .plain) 10000)

/-- The first word of its usable addresses can hold a futex. -/
lemma firstThread_word4 : Word4 firstThread.info LFIAddrSpaceInfo.plain.minaddr :=
  ⟨by decide, by decide, by decide, by decide⟩

/-- Threads asleep on the first word of a process, on a host that can read every word. -/
def Sleepers.onFirst (l : List Nat) : Sleepers where
  asleep a := if a = LFIAddrSpaceInfo.plain.minaddr then l else []
  valid _ := true
  valid_of_asleep _ _ := rfl
  exists_valid a := by
    by_cases ha : a = 0
    · exact ⟨4, by rw [ha]; decide, by decide, rfl⟩
    · exact ⟨0, Ne.symm ha, by decide, rfl⟩

/-- One sleeper is woken, if the host takes what it finds for a second word. -/
theorem requeue_contract_one :
    Requeues .plain firstThread LFIAddrSpaceInfo.plain.minaddr TUX_FUTEX_REQUEUE 1 1
      (LFIAddrSpaceInfo.plain.minaddr + 4) (.onFirst [7]) ⟨5, 0⟩ :=
  (requeue_contract 1 1 _ _ firstThread_word4 (by decide)).2 _ ⟨by decide, by decide, rfl, by decide, rfl⟩
    (by decide)

/-- Of two sleepers the second one is not moved, as it should be, when the host finds that it is to move none. When
the host finds a negative number, not even the first one is woken. -/
theorem requeue_loses_second :
    ¬ Requeues .plain firstThread LFIAddrSpaceInfo.plain.minaddr TUX_FUTEX_REQUEUE 1 1
        (LFIAddrSpaceInfo.plain.minaddr + 4) (.onFirst [7, 8]) ⟨0, 0⟩ ∧
      ¬ Requeues .plain firstThread LFIAddrSpaceInfo.plain.minaddr TUX_FUTEX_REQUEUE 1 1
        (LFIAddrSpaceInfo.plain.minaddr + 4) (.onFirst [7, 8]) ⟨-1, 0⟩ := by
  constructor
  · rintro ⟨c, hc, hg⟩
    rw [futexOf_requeue 1 1 firstThread_word4 (by decide)] at hc
    cases hc
    have hat := congrArg (fun r => (r.2 (LFIAddrSpaceInfo.plain.minaddr + 4))) (Option.some.inj hg)
    revert hat
    decide
  · rintro ⟨c, hc, hg⟩
    rw [futexOf_requeue 1 1 firstThread_word4 (by decide)] at hc
    cases hc
    have hat := congrArg Prod.fst (Option.some.inj hg)
    revert hat
    decide

end Libtux
