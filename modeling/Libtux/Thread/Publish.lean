import Libtux.Lib.Run
import Libtux.Pal.Ranges
import Libtux.Sys.Thread

/-!
# Publishing the id of a new thread

A call of `spawn` that was accepted, with `CLONE_PARENT_SETTID`, run in steps together with the thread it
creates. The steps of the parent are the pieces of `spawn`: prepare the thread (`spawnPrepare`, which
stores to `ctid` when asked to), start it (`spawnStart`), and store its id to `ptid` (`spawnPublish`).
The new thread runs as soon as it is started: it executes guest instructions, each with at most one byte
stored anywhere, and it may exit.

The guest relies on its id being at `ptid` before it runs. `spawn_publishes` says which runs grant that,
and `spawn_publishes_late` shows one that does not: the new thread is scheduled before the parent stores.
-/

namespace Libtux
open Lib

/-- The arguments of `spawn`, the flags as they are after the checks. -/
structure CloneArgs where
  flags : Word
  stack : Word
  ptidp : Word
  ctidp : Word
  tls : Word

/-- How far the parent is. -/
inductive Spawning (M : Machine) where
  | entered
  | prepared (p2 : Spawned M)
  | created (p2 : Spawned M)
  | returned (p2 : Spawned M)

/-- How far the new thread is. -/
inductive NewThread where
  | none
  | running
  | exited
  deriving DecidableEq

/-- Parent and new thread. -/
structure Cloning (L : LibMMap) (M : Machine) where
  w : World L M
  parent : Spawning M
  child : NewThread
  /-- Has the new thread itself stored to the word at `ptid`? -/
  dirty : Bool

/-- What the two threads do. -/
inductive CloneAct where
  | prepare
  | start
  | publish
  /-- A guest instruction of the new thread, with what it stores. -/
  | run (store : Option (Word × Byte))
  | exit
  deriving DecidableEq

/-- A step of the new thread. -/
def CloneAct.isChild : CloneAct → Bool
  | .run _ => true
  | .exit => true
  | _ => false

section
variable {L : LibMMap} {M : Machine} (O : HostOs) (c : CloneArgs)

/-- Store one byte. -/
def World.poke (w : World L M) (a : Word × Byte) : World L M := w.setMem (Function.update w.mem a.1 a.2)

/-- The steps of parent and new thread. -/
inductive Cloning.Step : Cloning L M → CloneAct → Cloning L M → Prop where
  | prepare {s : Cloning L M} {p2 : Spawned M} : s.parent = .entered →
    ((spawnPrepare O c.flags c.stack c.ctidp c.tls).run s.w).val = .ok (some p2) →
    Cloning.Step s .prepare
      { s with
        w := ((spawnPrepare O c.flags c.stack c.ctidp c.tls).run s.w).st
        parent := .prepared p2 }
  | start {s : Cloning L M} {p2 : Spawned M} : s.parent = .prepared p2 →
    ((spawnStart O p2).run s.w).val = .ok () →
    Cloning.Step s .start
      { s with w := ((spawnStart O p2).run s.w).st, parent := .created p2, child := .running }
  | publish {s : Cloning L M} {p2 : Spawned M} : s.parent = .created p2 →
    Cloning.Step s .publish
      { s with w := ((spawnPublish c.flags c.ptidp p2).run s.w).st, parent := .returned p2 }
  | run {s : Cloning L M} : s.child = .running → Cloning.Step s (.run none) s
  | store {s : Cloning L M} {a : Word × Byte} : s.child = .running →
    Cloning.Step s (.run (some a))
      { s with w := s.w.poke a, dirty := s.dirty || decide (inWord (procaddr c.ptidp) a.1) }
  /-- `sys_exit` of the new thread, which clears its `ctid`. -/
  | exit {s : Cloning L M} {p2 : Spawned M} : s.parent = .created p2 ∨ s.parent = .returned p2 →
    s.child = .running →
    Cloning.Step s .exit
      { s with
        w := if p2.ctid ≠ 0 then s.w.setMem (splice s.w.mem (procaddr p2.ctid) 4 (bytes64 0)) else s.w
        child := .exited }

/-- The thread the parent is creating. -/
def Spawning.thread : Spawning M → Option (Spawned M)
  | .entered => none
  | .prepared p2 => some p2
  | .created p2 => some p2
  | .returned p2 => some p2

/-- The new thread finds its id at `ptid`, unless it stored there itself. -/
def Cloning.Published (s : Cloning L M) : Prop :=
  ∃ p2, s.parent.thread = some p2 ∧ (s.w.word (procaddr c.ptidp) = p2.tid ∨ s.dirty = true)

/-- What is wanted of a step: one of the new thread finds the id, and the parent does not store it after
the new thread has exited. -/
def Cloning.Fine (s : Cloning L M) (a : CloneAct) : Prop :=
  (a.isChild = true → s.Published c) ∧ (a = .publish → s.child ≠ .exited)

/-- The new thread waits for the parent's store to `ptid`. When the store to `ctid` went to the same word
before it was started, it may run, but not exit. -/
def Cloning.Waits (s : Cloning L M) (a : CloneAct) : Prop :=
  a.isChild = true → (∃ p2, s.parent = .returned p2) ∨
    (hasFlag c.flags TUX_CLONE_CHILD_SETTID = true ∧ procaddr c.ctidp = procaddr c.ptidp ∧ a ≠ .exit)

end

section
variable {L : LibMMap} {M : Machine} {O : HostOs} {c : CloneArgs} {s s' : Cloning L M} {a : CloneAct}

/-- The invariant of the runs in which the new thread waits. -/
structure Cloning.Inv (c : CloneArgs) (s : Cloning L M) : Prop where
  idle : s.parent.thread = none ∨ (∃ p2, s.parent = .prepared p2) → s.child = .none
  early : s.child = .exited → ∃ p2, s.parent = .returned p2
  returned : ∀ {p2}, s.parent = .returned p2 → s.child = .running →
    s.w.word (procaddr c.ptidp) = p2.tid ∨ s.dirty = true
  same : hasFlag c.flags TUX_CLONE_CHILD_SETTID = true → procaddr c.ctidp = procaddr c.ptidp →
    ∀ {p2}, s.parent = .prepared p2 ∨ s.parent = .created p2 →
      s.w.word (procaddr c.ptidp) = p2.tid ∨ s.dirty = true

/-- Preparing the thread stores its id to `ctid`. -/
lemma spawnPrepare_word {flags stack ctidp tls : Word} {w : World L M} {p2 : Spawned M}
    (hf : hasFlag flags TUX_CLONE_CHILD_SETTID = true)
    (h : ((spawnPrepare O flags stack ctidp tls).run w).val = .ok (some p2)) :
    ((spawnPrepare O flags stack ctidp tls).run w).st.word (procaddr ctidp) = p2.tid := by
  rw [spawnPrepare_run] at h ⊢
  cases hr : O.ret w.ncall with
  | none => simp [hr] at h
  | some r =>
    simp only [hr, hf, Option.isSome_some, if_true, Except.ok.injEq, Option.some.injEq] at h ⊢
    rw [put32_word, ← h]
    rfl

/-- The start of a thread stores nothing. -/
lemma spawnStart_word {w : World L M} {p2 : Spawned M} (ptr : Word)
    (h : ((spawnStart O p2).run w).val = .ok ()) : ((spawnStart O p2).run w).st.word ptr = w.word ptr := by
  rw [spawnStart_run] at h ⊢
  cases hr : O.ret w.ncall with
  | none => simp [hr] at h
  | some r => rfl

/-- The parent's store. -/
lemma spawnPublish_word {flags ptidp : Word} {w : World L M} {p2 : Spawned M}
    (hf : hasFlag flags TUX_CLONE_PARENT_SETTID = true) :
    ((spawnPublish flags ptidp p2).run w).st.word (procaddr ptidp) = p2.tid := by
  rw [spawnPublish_run, if_pos hf, put32_word]

/-- A byte stored elsewhere does not change a word. -/
lemma poke_word {w : World L M} {ptr : Word} {x : Word × Byte} (h : ¬ inWord ptr x.1) :
    (w.poke x).word ptr = w.word ptr := by
  refine le32_congr fun y hy => ?_
  have hne : y ≠ x.1 := by
    rintro rfl
    exact h hy
  exact Function.update_of_ne hne ..

/-- A step of the new thread keeps its id, or is a store of its own. -/
lemma poke_published {w : World L M} {ptr : Word} {x : Word × Byte} {tid : CInt} {dirty : Bool}
    (h : w.word ptr = tid ∨ dirty = true) :
    (w.poke x).word ptr = tid ∨ (dirty || decide (inWord ptr x.1)) = true := by
  by_cases hin : inWord ptr x.1
  · exact .inr (by simp [hin])
  · rw [poke_word hin]
    exact h.imp id fun hd => by simp [hd]

namespace Cloning

/-- Every step that meets the condition keeps the invariant. -/
lemma Inv.step (I : s.Inv c) (hf : hasFlag c.flags TUX_CLONE_PARENT_SETTID = true) (hok : s.Waits c a)
    (h : Step O c s a s') : s'.Inv c := by
  cases h with
  | @prepare p2 hp hv =>
    have hnone := I.idle (.inl (by rw [hp]; rfl))
    refine ⟨fun _ => hnone, fun he => ?_, fun hr => (nomatch hr), fun hset heq p2' hp' => ?_⟩
    · rw [hnone] at he
      cases he
    · obtain hp' | hp' := hp'
      · cases hp'
        dsimp only
        rw [← heq, spawnPrepare_word hset hv]
        exact .inl rfl
      · cases hp'
  | @start p2 hp hv =>
    refine ⟨fun hn => ?_, fun he => (nomatch he), fun hr => (nomatch hr), fun hset heq p2' hp' => ?_⟩
    · obtain hn | ⟨_, hn⟩ := hn <;> cases hn
    · obtain hp' | hp' := hp'
      · cases hp'
      · cases hp'
        dsimp only
        rw [spawnStart_word _ hv]
        exact I.same hset heq (.inl hp)
  | @publish p2 hp =>
    refine ⟨fun hn => ?_, fun _ => ⟨p2, rfl⟩, fun hr _ => ?_, fun _ _ {p2'} hp' => ?_⟩
    · obtain hn | ⟨_, hn⟩ := hn <;> cases hn
    · cases hr
      exact .inl (spawnPublish_word hf)
    · obtain hp' | hp' := hp' <;> cases hp'
  | run => exact I
  | @store x hc =>
    refine ⟨fun hn => I.idle hn, fun he => I.early he, fun hr hc' => ?_, fun hset heq _ hp => ?_⟩
    · exact poke_published (I.returned hr hc')
    · exact poke_published (I.same hset heq hp)
  | @exit p2 hp hc =>
    have hret : ∃ p2, s.parent = .returned p2 := by
      obtain hret | ⟨_, _, hne⟩ := hok rfl
      · exact hret
      · exact absurd rfl hne
    obtain ⟨q, hret⟩ := hret
    refine ⟨fun hn => ?_, fun _ => ⟨q, hret⟩, fun _ he => (nomatch he), fun _ _ {p2'} hp' => ?_⟩
    · obtain hn | ⟨_, hn⟩ := hn
      · dsimp only at hn
        rw [hret] at hn
        cases hn
      · dsimp only at hn
        rw [hret] at hn
        cases hn
    · obtain hp' | hp' := hp'
      · dsimp only at hp'
        rw [hret] at hp'
        cases hp'
      · dsimp only at hp'
        rw [hret] at hp'
        cases hp'

/-- In a state of such a run, a step that meets the condition is as wanted. -/
lemma Inv.fine (I : s.Inv c) (hok : s.Waits c a) (h : Step O c s a s') : s.Fine c a := by
  have hchild : s.child = .running → (∃ p2, s.parent = .returned p2) ∨
      (hasFlag c.flags TUX_CLONE_CHILD_SETTID = true ∧ procaddr c.ctidp = procaddr c.ptidp) →
      s.Published c := by
    rintro hc (⟨p2, hp⟩ | ⟨hset, heq⟩)
    · exact ⟨p2, by rw [hp]; rfl, I.returned hp hc⟩
    · cases hp : s.parent with
      | entered =>
        have := I.idle (.inl (by rw [hp]; rfl))
        rw [this] at hc
        cases hc
      | prepared p2 => exact ⟨p2, by rw [hp]; rfl, I.same hset heq (.inl hp)⟩
      | created p2 => exact ⟨p2, by rw [hp]; rfl, I.same hset heq (.inr hp)⟩
      | returned p2 => exact ⟨p2, by rw [hp]; rfl, I.returned hp hc⟩
  have hwaits : a.isChild = true → (∃ p2, s.parent = .returned p2) ∨
      (hasFlag c.flags TUX_CLONE_CHILD_SETTID = true ∧ procaddr c.ctidp = procaddr c.ptidp) :=
    fun ha => (hok ha).imp id fun h => ⟨h.1, h.2.1⟩
  cases h with
  | prepare => exact ⟨nofun, nofun⟩
  | start => exact ⟨nofun, nofun⟩
  | @publish p2 hp =>
    refine ⟨nofun, fun _ he => ?_⟩
    obtain ⟨q, hq⟩ := I.early he
    rw [hp] at hq
    cases hq
  | run hc => exact ⟨fun ha => hchild hc (hwaits ha), nofun⟩
  | store hc => exact ⟨fun ha => hchild hc (hwaits ha), nofun⟩
  | exit _ hc => exact ⟨fun ha => hchild hc (hwaits ha), nofun⟩

/-- A call of `spawn` before it did anything. -/
def enter (w : World L M) : Cloning L M := ⟨w, .entered, .none, false⟩

end Cloning

/-- In the runs in which the new thread waits for the parent's store, it finds its id at every step, and
the parent does not store it late. -/
theorem spawn_publishes (O : HostOs) {c : CloneArgs} {w : World L M} {l : List CloneAct} {s : Cloning L M}
    (hset : hasFlag c.flags TUX_CLONE_PARENT_SETTID = true)
    (hrun : Run (Guarded (Cloning.Waits c) (Cloning.Step O c)) (.enter w) l s) :
    ∀ {a s'}, s.Waits c a → Cloning.Step O c s a s' → s.Fine c a := by
  have h0 : (Cloning.enter w).Inv c := ⟨fun _ => rfl, nofun, nofun, fun _ _ {_} h => by
    obtain h | h := h <;> cases h⟩
  have hinv : s.Inv c := hrun.invariant (I := Cloning.Inv c) (fun I hst => I.step hset hst.1 hst.2) h0
  intro a s' hok hst
  exact hinv.fine hok hst

end

/-- A thread of a 4 GiB sandbox without mappings. -/
def World.plain (M : Machine) : World .ofRanges M := .ofThread (procnewfile (.fresh .plain) 10000)

/-- The required flags with `CLONE_PARENT_SETTID`, and words inside the sandbox. -/
def CloneArgs.plain : CloneArgs :=
  ⟨0x110f00, LFIAddrSpaceInfo.plain.base + 0x200000, LFIAddrSpaceInfo.plain.base + 0x100000, 0, 0⟩

/-- A step of the parent waits for nobody. -/
lemma Cloning.Step.parent {L : LibMMap} {M : Machine} {O : HostOs} {c : CloneArgs} {s s' : Cloning L M}
    {a : CloneAct} (h : Cloning.Step O c s a s') (ha : a.isChild = false) :
    Guarded (Cloning.Waits c) (Cloning.Step O c) s a s' := by
  refine ⟨fun hchild => ?_, h⟩
  rw [ha] at hchild
  cases hchild

/-- The parent stores before the new thread takes its first step. -/
theorem spawn_publishes_plain : ∃ l s, Run (Guarded (Cloning.Waits .plain) (Cloning.Step .plain .plain))
    (Cloning.enter (World.plain .x64)) l s ∧ Cloning.Step .plain .plain s (.run none) s ∧
    s.Fine .plain (.run none) := by
  have h1 : Run (Guarded (Cloning.Waits .plain) (Cloning.Step .plain .plain))
      (Cloning.enter (World.plain .x64)) _ _ :=
    .snoc (.snoc (.snoc (.nil _) (Cloning.Step.parent (.prepare rfl rfl) rfl))
      (Cloning.Step.parent (.start rfl rfl) rfl)) (Cloning.Step.parent (.publish rfl) rfl)
  refine ⟨_, _, h1, .run rfl, spawn_publishes .plain ?_ h1 ?_ (.run rfl)⟩
  · decide
  · exact fun _ => .inl ⟨_, rfl⟩

/-- The new thread is scheduled first, and does not find its id. -/
theorem spawn_publishes_late : ∃ l s, Run (Cloning.Step .plain .plain)
    (Cloning.enter (World.plain .x64)) l s ∧ Cloning.Step .plain .plain s (.run none) s ∧
    ¬ s.Fine .plain (.run none) := by
  have h1 : Run (Cloning.Step .plain .plain) (Cloning.enter (World.plain .x64)) _ _ :=
    .snoc (.snoc (.nil _) (.prepare rfl rfl)) (.start rfl rfl)
  refine ⟨_, _, h1, .run rfl, fun hfine => ?_⟩
  obtain ⟨p2, hp2, hword | hdirty⟩ := hfine.1 rfl
  · cases hp2
    revert hword
    decide +kernel
  · cases hdirty

end Libtux
