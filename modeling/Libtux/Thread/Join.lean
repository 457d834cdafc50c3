import Libtux.Lib.Run
import Libtux.Pal.Ranges
import Libtux.Sys.Thread

/-!
# Waiting for a thread to exit

A thread that exits clears the word at its `ctid` and wakes who sleeps there (`clearctid`); others load
the word and, while it is not zero, wait on it with `sys_futex`. `Joining` is such a system: one thread
that exits and any number of waiters, interleaved. The exiting thread runs the two halves of `clearctid`,
a waiter runs `sys_futex`, and the futex calls that these make are carried out on the sleepers the way
the host does it (`Futexes.wait`, `Futexes.Wake`).

`exit_wakes_all`: once `clearctid` is through, nobody sleeps. The invariant is that a sleeper means that
the wake is still to come: while the word is not zero it has not been cleared, and afterwards nobody
falls asleep on it any more.
-/

namespace Libtux
open Lib

/-- A waiter: between calls, with the value it loaded, or asleep on a word (with the private flag of the
operation, which the host tells apart). -/
inductive Waiter where
  | running
  | loaded (v : CInt)
  | asleep (uaddr : Word) (priv : Bool)
  deriving DecidableEq

/-- How far the exiting thread is. -/
inductive Exiting where
  | running
  | cleared
  | finished
  deriving DecidableEq

/-- Does the operation have the private flag? -/
def isPrivate (op : CInt) : Bool := op &&& TUX_FUTEX_PRIVATE_FLAG ≠ 0

/-- The exiting thread, `n` waiters and the memory they share. The world is the one of the exiting
thread. -/
structure Joining (L : LibMMap) (M : Machine) (n : Nat) where
  w : World L M
  exiter : Exiting
  waiter : Fin n → Waiter

/-- What the threads do. -/
inductive JoinAct (n : Nat) where
  | clear
  | wake
  | load (i : Fin n)
  | wait (i : Fin n)
  | spurious (i : Fin n)
  /-- A store of any thread to another word. -/
  | store (x : Word) (b : Byte)

section
variable {L : LibMMap} {M : Machine} {n : Nat} (O : HostOs) (ctid : Word)

/-- The futex call that a program makes. -/
def futexOf {α : Type} (x : Sys L M α) (w : World L M) : Option FutexCall :=
  ((x.run { w with futexes := [] }).st.futexes).head?

/-- A wait on the host: the word is compared and the caller put to sleep in one step. -/
def Waiter.wait (w : World L M) : Option FutexCall → Waiter
  | some (.wait uaddr op val _) => if w.word uaddr = val then .asleep uaddr (isPrivate op) else .running
  | _ => .running

/-- A wake on the host: of those asleep on the word, as many as asked for are woken, whichever they
are. -/
structure Woken (call : Option FutexCall) (f g : Fin n → Waiter) : Prop where
  others : ∀ i, g i = f i ∨ (g i = .running ∧ ∃ u op v, call = some (.wake u op v) ∧
    f i = .asleep u (isPrivate op))
  enough : ∀ u op v, call = some (.wake u op v) →
    (Finset.univ.filter fun i => f i = .asleep u (isPrivate op) ∧ g i = .running).card =
      min v.toNat (Finset.univ.filter fun i => f i = .asleep u (isPrivate op)).card

/-- The steps of the system. -/
inductive Joining.Step : Joining L M n → JoinAct n → Joining L M n → Prop where
  | clear {s : Joining L M n} : s.exiter = .running →
    Joining.Step s .clear { s with w := (clearctidStore.run s.w).st, exiter := .cleared }
  | wake {s : Joining L M n} {waiter : Fin n → Waiter} : s.exiter = .cleared →
    Woken (futexOf (clearctidWake O) s.w) s.waiter waiter →
    Joining.Step s .wake { w := ((clearctidWake O).run s.w).st, exiter := .finished, waiter }
  | load {s : Joining L M n} {i : Fin n} : s.waiter i = .running →
    Joining.Step s (.load i) { s with waiter := Function.update s.waiter i (.loaded (s.w.word ctid)) }
  | wait {s : Joining L M n} {i : Fin n} {v : CInt} : s.waiter i = .loaded v → v ≠ 0 →
    Joining.Step s (.wait i)
      { s with
        waiter := Function.update s.waiter i
          (.wait s.w (futexOf (sysFutex O ctid TUX_FUTEX_WAIT v 0) s.w)) }
  | spurious {s : Joining L M n} {i : Fin n} {u : Word} {b : Bool} : s.waiter i = .asleep u b →
    Joining.Step s (.spurious i) { s with waiter := Function.update s.waiter i .running }
  | store {s : Joining L M n} {x : Word} {b : Byte} : ¬ inWord ctid x →
    Joining.Step s (.store x b) { s with w := s.w.setMem (Function.update s.w.mem x b) }

/-- The thread of a new `Spawned`, in the process of its parent. -/
def Spawned.thread (p2 : Spawned M) (p : TuxThread L M) : TuxThread L M :=
  { p with regs := p2.regs, sys := p2.sys, tp := p2.tp, ctid := p2.ctid, tid := p2.tid }

/-- The two ways in which a thread gets its `ctid`. -/
inductive Records : World L M → Word → Prop where
  | setTidAddress (w : World L M) (ctid : Word) : Records ((sysSetTidAddress ctid).run w).st ctid
  | clone (w : World L M) (p2 : Spawned M) (flags stack ctidp tls : Word) :
    hasFlag flags TUX_CLONE_CHILD_CLEARTID = true →
    Records { w with p := (p2.prepare flags stack ctidp tls).thread w.p } ctidp

end

section
variable {L : LibMMap} {M : Machine} {n : Nat} {O : HostOs} {ctid : Word} {w : World L M}
  {s s' : Joining L M n} {x : JoinAct n}

/-- The word to clear is the one that was asked for. -/
lemma Records.eq (h : Records w ctid) : w.p.ctid = ctid := by
  cases h with
  | setTidAddress => rfl
  | clone w p2 flags stack tls hf => exact if_pos ‹_›

/-- A word of the sandbox that `sys_futex` accepts. -/
structure Word4 (i : LFIAddrSpaceInfo) (ctid : Word) : Prop where
  ne_null : ctid ≠ 0
  aligned : ctid.toNat % 4 = 0
  lo : i.minaddr ≤ ctid
  hi : ctid < i.maxaddr

/-- It is aligned. -/
lemma Word4.and_three {i : LFIAddrSpaceInfo} (h : Word4 i ctid) : ctid &&& 3 = 0 := by
  apply BitVec.eq_of_toNat_eq
  rw [BitVec.toNat_and, show (3 : Word).toNat = 2 ^ 2 - 1 from rfl, Nat.and_two_pow_sub_one_eq_mod]
  exact h.aligned

/-- `procbufalign` accepts it. -/
lemma procbufalign_word4 (h : Word4 w.info ctid) :
    (procbufalign ctid 4 4).run w = ⟨.ok (some ctid), w, [.ask ⟨ctid, 4⟩]⟩ := by
  have hfm : lfiAsFmptr w.info ctid = some ctid := if_pos ⟨h.lo, h.hi⟩
  simp only [procbufalign, ask, Exec.bind_run, Exec.tell_run, Exec.andThen_ok, Exec.gets_run, hfm, h.aligned,
    ne_eq, not_true_eq_false, if_false]
  rfl

/-- A futex call on the host is recorded. -/
lemma hostFutex_st (uaddr : Word) (c : FutexCall) (w : World L M) :
    ((hostFutex O uaddr c).run w).st = { w.called with futexes := c :: w.futexes } := by
  simp only [hostFutex, touch, Exec.bind_run, Exec.tell_run, Exec.andThen_ok, Exec.modify_run, hostCall_run,
    World.called]
  cases O.ret w.ncall with
  | none => rfl
  | some r => rfl

/-- What `sys_futex` does on such a word, for a wait without a timeout. -/
lemma sysFutex_wait (h : Word4 w.info ctid) (v : CInt) :
    ((sysFutex O ctid TUX_FUTEX_WAIT v 0).run w).st =
      { w.called with futexes := .wait ctid TUX_FUTEX_WAIT v none :: w.futexes } := by
  have hcmd : TUX_FUTEX_WAIT &&& ~~~TUX_FUTEX_PRIVATE_FLAG = TUX_FUTEX_WAIT := by
    decide
  simp only [sysFutex, h.and_three, ne_eq, not_true_eq_false, if_false, Exec.bind_run, procbufalign_word4 h,
    Exec.andThen_ok, hcmd, if_true, futexwait]
  exact hostFutex_st ..

/-- And for a wake. -/
lemma sysFutex_wake (h : Word4 w.info ctid) (v : CInt) :
    ((sysFutex O ctid TUX_FUTEX_WAKE v 0).run w).st =
      { w.called with futexes := .wake ctid TUX_FUTEX_WAKE v :: w.futexes } := by
  have hcmd : TUX_FUTEX_WAKE &&& ~~~TUX_FUTEX_PRIVATE_FLAG = TUX_FUTEX_WAKE := by
    decide
  have hne : TUX_FUTEX_WAKE ≠ TUX_FUTEX_WAIT := by
    decide
  simp only [sysFutex, h.and_three, ne_eq, not_true_eq_false, if_false, Exec.bind_run, procbufalign_word4 h,
    Exec.andThen_ok, hcmd, if_neg hne, if_true]
  exact hostFutex_st ..

/-- A wait asks the host for one with these operands. -/
lemma futexOf_wait (h : Word4 w.info ctid) (v : CInt) :
    futexOf (sysFutex O ctid TUX_FUTEX_WAIT v 0) w = some (.wait ctid TUX_FUTEX_WAIT v none) := by
  rw [futexOf, sysFutex_wait (w := { w with futexes := [] }) h]
  rfl

/-- The exiting thread. -/
structure Exits (ctid : Word) (w : World L M) : Prop where
  ctid_eq : w.p.ctid = ctid
  word : Word4 w.info ctid

namespace Exits

/-- The exit stores a zero, -/
lemma store (h : Exits ctid w) : (clearctidStore.run w).st = w.put32 ctid 0 := by
  simp only [clearctidStore, Exec.bind_run, Exec.gets_run, Exec.andThen_ok_nil, h.ctid_eq, ne_eq, h.word.ne_null,
    not_false_eq_true, if_true, store32_run]
  rfl

/-- and wakes whoever waits, -/
lemma wake (h : Exits ctid w) : ((clearctidWake O).run w).st =
    { w.called with futexes := .wake ctid TUX_FUTEX_WAKE INT_MAX :: w.futexes } := by
  have hst : ((clearctidWake O).run w).st = ((sysFutex O ctid TUX_FUTEX_WAKE INT_MAX 0).run w).st := by
    simp only [clearctidWake, Exec.bind_run, Exec.gets_run, Exec.andThen_ok_nil, h.ctid_eq]
    generalize (sysFutex O ctid TUX_FUTEX_WAKE INT_MAX 0).run w = r
    obtain ⟨v, t, l⟩ := r
    cases v with
    | error e => rfl
    | ok v => rfl
  rw [hst, sysFutex_wake h.word]

/-- by one call of the host. -/
lemma futexOf_wake (h : Exits ctid w) :
    futexOf (clearctidWake O) w = some (.wake ctid TUX_FUTEX_WAKE INT_MAX) := by
  have h' : Exits ctid { w with futexes := [] } := ⟨h.ctid_eq, h.word⟩
  rw [futexOf, h'.wake]
  rfl

end Exits

/-- A wake for at least as many as there are wakes all. -/
lemma Woken.all {f g : Fin n → Waiter} {u : Word} {op v : CInt} (h : Woken (some (.wake u op v)) f g)
    (hn : n ≤ v.toNat) {i : Fin n} (hi : f i = .asleep u (isPrivate op)) : g i = .running := by
  have hcard := h.enough u op v rfl
  have hle : (Finset.univ.filter fun i => f i = .asleep u (isPrivate op)).card ≤ n :=
    (Finset.card_le_univ _).trans (by rw [Fintype.card_fin])
  rw [min_eq_right (hle.trans hn)] at hcard
  have hsub : (Finset.univ.filter fun i => f i = .asleep u (isPrivate op) ∧ g i = .running) ⊆
      Finset.univ.filter fun i => f i = .asleep u (isPrivate op) :=
    Finset.monotone_filter_right _ fun _ _ h => h.1
  have heq := Finset.eq_of_subset_of_card_le hsub hcard.ge
  have hmem : i ∈ Finset.univ.filter fun i => f i = .asleep u (isPrivate op) := by
    simp [hi]
  rw [← heq] at hmem
  exact (Finset.mem_filter.mp hmem).2.2

/-- Waking everybody is a wake, when it was asked for that many. -/
lemma Woken.everyone (f : Fin n → Waiter) (u : Word) (op : CInt) {v : CInt} (hn : n ≤ v.toNat) :
    Woken (some (.wake u op v)) f fun i => if f i = .asleep u (isPrivate op) then .running else f i := by
  refine ⟨fun i => ?_, ?_⟩
  · by_cases hi : f i = .asleep u (isPrivate op)
    · exact .inr ⟨if_pos hi, u, op, v, rfl, hi⟩
    · exact .inl (if_neg hi)
  · rintro u' op' v' heq
    cases heq
    have hle : (Finset.univ.filter fun i => f i = .asleep u (isPrivate op)).card ≤ n :=
      (Finset.card_le_univ _).trans (by rw [Fintype.card_fin])
    rw [min_eq_right (hle.trans hn)]
    congr 1
    ext i
    simp only [Finset.mem_filter, Finset.mem_univ, true_and, and_iff_left_iff_imp]
    exact fun hi => if_pos hi

namespace Joining

/-- The invariant. -/
structure Inv (ctid : Word) (s : Joining L M n) : Prop where
  exits : Exits ctid s.w
  zero : s.exiter ≠ .running → s.w.word ctid = 0
  asleep : ∀ {i u b}, s.waiter i = .asleep u b → u = ctid ∧ b = false
  awake : s.exiter = .finished → ∀ {i u b}, s.waiter i ≠ .asleep u b

/-- One waiter goes on, and is asleep afterwards only where it may be. -/
lemma Inv.update {i : Fin n} {v : Waiter} (I : s.Inv ctid)
    (hv : ∀ {u b}, v = .asleep u b → u = ctid ∧ b = false ∧ s.exiter ≠ .finished) :
    Inv ctid { s with waiter := Function.update s.waiter i v } := by
  have hcases : ∀ {j u b}, Function.update s.waiter i v j = .asleep u b →
      s.waiter j = .asleep u b ∨ v = .asleep u b := by
    intro j u b hj
    by_cases hji : j = i
    · subst hji
      rw [Function.update_self] at hj
      exact .inr hj
    · rw [Function.update_of_ne hji] at hj
      exact .inl hj
  refine ⟨I.exits, I.zero, fun {j u b} hj => ?_, fun hfin {j u b} hj => ?_⟩
  · obtain hj | hj := hcases hj
    · exact I.asleep hj
    · exact ⟨(hv hj).1, (hv hj).2.1⟩
  · obtain hj | hj := hcases hj
    · exact I.awake hfin hj
    · exact (hv hj).2.2 hfin

/-- Every step keeps the invariant. -/
lemma Inv.step (I : s.Inv ctid) (hn : n ≤ INT_MAX.toNat) (h : Step O ctid s x s') : s'.Inv ctid := by
  cases h with
  | clear he =>
    rw [I.exits.store]
    exact ⟨⟨I.exits.ctid_eq, I.exits.word⟩, fun _ => put32_word .., I.asleep, fun h => nomatch h⟩
  | @wake waiter he hw =>
    rw [I.exits.futexOf_wake] at hw
    rw [I.exits.wake]
    have hnone : ∀ {i u b}, waiter i ≠ .asleep u b := by
      intro i u b hi
      obtain hsame | ⟨hrun, -⟩ := hw.others i
      · have hs : s.waiter i = .asleep u b := hsame.symm.trans hi
        obtain ⟨rfl, rfl⟩ := I.asleep hs
        rw [hw.all hn hs] at hi
        cases hi
      · rw [hrun] at hi
        cases hi
    exact ⟨⟨I.exits.ctid_eq, I.exits.word⟩, fun _ => I.zero (by rw [he]; decide),
      fun hi => absurd hi hnone, fun _ => hnone⟩
  | load => exact I.update nofun
  | @wait i v hi hv =>
    rw [futexOf_wait I.exits.word]
    refine I.update fun {u b} hu => ?_
    by_cases hword : s.w.word ctid = v
    · -- it falls asleep, so the word is not cleared yet
      simp only [Waiter.wait, if_pos hword] at hu
      cases hu
      refine ⟨rfl, rfl, fun hfin => hv ?_⟩
      rw [← hword]
      exact I.zero (by rw [hfin]; decide)
    · simp only [Waiter.wait, if_neg hword] at hu
      cases hu
  | spurious => exact I.update nofun
  | @store a b ha =>
    refine ⟨⟨I.exits.ctid_eq, I.exits.word⟩, fun he => ?_, I.asleep, I.awake⟩
    rw [← I.zero he]
    refine le32_congr fun y hy => ?_
    have hne : y ≠ a := by
      rintro rfl
      exact ha hy
    exact Function.update_of_ne hne ..

/-- The wake can always be made. -/
lemma Inv.wakes (I : s.Inv ctid) (hn : n ≤ INT_MAX.toNat) (he : s.exiter = .cleared) :
    ∃ s', Step O ctid s .wake s' ∧ s'.exiter = .finished := by
  have hwoken := Woken.everyone s.waiter ctid TUX_FUTEX_WAKE hn
  rw [← I.exits.futexOf_wake (O := O)] at hwoken
  exact ⟨_, .wake he hwoken, rfl⟩

/-- It holds while nobody has done anything. -/
lemma Inv.init {w : World L M} (hrec : Records w ctid) (hword : Word4 w.info ctid) :
    Joining.Inv ctid (⟨w, .running, fun _ => .running⟩ : Joining L M n) :=
  ⟨⟨hrec.eq, hword⟩, fun h => absurd rfl h, nofun, nofun⟩

end Joining

/-- No waiter is left asleep by a thread that exits. -/
theorem exit_wakes_all (O : HostOs) {ctid : Word} {w : World L M} {l : List (JoinAct n)}
    {s : Joining L M n} (hrec : Records w ctid) (hword : Word4 w.info ctid) (hn : n ≤ INT_MAX.toNat)
    (hrun : Run (Joining.Step O ctid) ⟨w, .running, fun _ => .running⟩ l s)
    (hfin : s.exiter = .finished) (i : Fin n) (b : Bool) : s.waiter i ≠ .asleep ctid b := by
  have hinv : s.Inv ctid :=
    hrun.invariant (I := Joining.Inv ctid) (fun I hst => I.step hn hst) (.init hrec hword)
  exact hinv.awake hfin

end

/-- The word of a thread in the plain sandbox. -/
def plainCtid : Word := LFIAddrSpaceInfo.plain.base + 0x100000

/-- A thread that has set its `ctid`, with its id there. -/
def World.joinable : World .ofRanges .x64 :=
  ((sysSetTidAddress plainCtid).run
    ((World.ofThread (procnewfile (.fresh .plain) 10000)).put32 plainCtid 10000)).st

/-- A waiter falls asleep, and the exit wakes it. -/
theorem exit_wakes_all_plain : ∃ l s, Run (Joining.Step .plain plainCtid)
      (⟨World.joinable, .running, fun _ => .running⟩ : Joining .ofRanges .x64 1) l s ∧
    s.exiter = .finished ∧ ∀ i b, s.waiter i ≠ .asleep plainCtid b := by
  have hword : Word4 World.joinable.info plainCtid :=
    ⟨by decide, by decide, by decide, by decide⟩
  have h1 : Run (Joining.Step .plain plainCtid)
      (⟨World.joinable, .running, fun _ => .running⟩ : Joining .ofRanges .x64 1) _ _ :=
    .snoc (.snoc (.snoc (.nil _) (.load (i := 0) rfl)) (.wait (i := 0) rfl (by decide +kernel))) (.clear rfl)
  have hinv := h1.invariant (I := Joining.Inv plainCtid) (fun I hst => I.step (by decide) hst)
    (.init (.setTidAddress _ _) hword)
  obtain ⟨s, hwake, hfin⟩ := hinv.wakes (O := .plain) (by decide) rfl
  have h2 := Run.snoc h1 hwake
  exact ⟨_, s, h2, hfin, exit_wakes_all .plain (.setTidAddress _ _) hword (by decide) h2 hfin⟩

end Libtux
