import Libtux.Sys.Thread
import Libtux.Pal.Ranges

/-!
# The flags of clone

Which flags `spawn` accepts. `CloneValid` is the intended check, on all 64 bits. The complements of the
masks of `spawn` are taken before they are widened, so that the code makes it on the lower half only: the
two agree exactly when the upper half is empty or the lower half is refused anyway.
-/

namespace Libtux
open Lib

variable {L : LibMMap} {M : Machine}

/-- The bits that are neither the signal nor allowed nor ignored. -/
def cloneOther : Word := ~~~(0xff ||| flag64 spawnAllowed ||| flag64 spawnIgnored)

/-- The flags a thread can be created with: no signal or `SIGCHLD`, everything required, and nothing that is
neither allowed nor ignored. -/
def CloneValid (flags : Word) : Prop :=
  (flags &&& 0xff = 0 ∨ flags &&& 0xff = flag64 TUX_SIGCHLD) ∧
    flags &&& flag64 spawnRequired = flag64 spawnRequired ∧
    flags &&& cloneOther = 0

instance (flags : Word) : Decidable (CloneValid flags) := inferInstanceAs (Decidable (_ ∧ _ ∧ _))

/-- The lower half of the flags. -/
def lowFlags (flags : Word) : Word := flags &&& 0xffffffff

/-- The upper half, in place. -/
def highFlags (flags : Word) : Word := flags &&& 0xffffffff00000000

/-- `spawn` makes the check on the lower half. -/
lemma spawnFlags_isSome (flags : Word) : (spawnFlags flags).isSome = true ↔ CloneValid (lowFlags flags) := by
  have hbyte : lowFlags flags &&& 0xff = flags &&& 0xff := by
    rw [lowFlags, BitVec.and_assoc]
    rfl
  have hreq : lowFlags flags &&& flag64 spawnRequired = flags &&& flag64 spawnRequired := by
    rw [lowFlags, BitVec.and_assoc]
    rfl
  have hrest : flags &&& ~~~0xff &&& flag64 (~~~spawnIgnored) &&& flag64 (~~~spawnAllowed) =
      lowFlags flags &&& cloneOther := by
    rw [lowFlags, BitVec.and_assoc, BitVec.and_assoc, BitVec.and_assoc]
    rfl
  have hreq' : flags &&& ~~~0xff &&& flag64 (~~~spawnIgnored) &&& flag64 spawnRequired =
      flags &&& flag64 spawnRequired := by
    rw [BitVec.and_assoc, BitVec.and_assoc]
    rfl
  rw [CloneValid, hbyte, hreq, ← hrest]
  unfold spawnFlags
  dsimp only
  rw [hreq']
  by_cases h1 : flags &&& 0xff = 0 ∨ flags &&& 0xff = flag64 TUX_SIGCHLD
  · have h1' : ¬ (flags &&& 0xff ≠ 0 ∧ flags &&& 0xff ≠ flag64 TUX_SIGCHLD) := by
      rw [← not_or, not_not]
      exact h1
    rw [if_neg h1']
    split
    next h2 => exact iff_of_false (by decide) fun h => h2 h.2.2
    next h2 =>
      rw [not_not] at h2
      split
      next h3 => exact iff_of_false (by decide) fun h => h3 h.2.1
      next h3 => exact iff_of_true rfl ⟨h1, not_not.mp h3, h2⟩
  · rw [if_pos (not_or.mp h1)]
    exact iff_of_false (by decide) fun h => h1 h.1

/-- The check on all bits is that on the lower half, and that the upper half is empty. -/
lemma cloneValid_iff (flags : Word) :
    CloneValid flags ↔ CloneValid (lowFlags flags) ∧ highFlags flags = 0 := by
  have hbyte : lowFlags flags &&& 0xff = flags &&& 0xff := by
    rw [lowFlags, BitVec.and_assoc]
    rfl
  have hreq : lowFlags flags &&& flag64 spawnRequired = flags &&& flag64 spawnRequired := by
    rw [lowFlags, BitVec.and_assoc]
    rfl
  have hmask : cloneOther = (0xffffffff &&& cloneOther) ||| 0xffffffff00000000 := by decide
  have hsplit : flags &&& cloneOther = 0 ↔ lowFlags flags &&& cloneOther = 0 ∧ highFlags flags = 0 := by
    rw [lowFlags, highFlags, BitVec.and_assoc]
    nth_rewrite 1 [hmask]
    rw [BitVec.and_or_distrib_left]
    exact BitVec.or_eq_zero_iff
  rw [CloneValid, CloneValid, hbyte, hreq, hsplit]
  tauto

/-- What `sys_clone` should do with flags that are no fork: ask the host for a thread, which is there
afterwards if the host grants it, or refuse, without a thread and without writing anything. -/
def CloneContract (w : World L M) (flags : Word) : Prop :=
  ∀ (O : HostOs) (stack ptid ctid tls : Word),
    (CloneValid flags → (O.ret w.ncall).isSome = true → (O.ret (w.ncall + 1)).isSome = true →
      ∃ p2, ((sysClone O flags stack ptid ctid tls).run w).st.started = p2 :: w.started) ∧
    (¬ CloneValid flags → (sysClone O flags stack ptid ctid tls).run w = ⟨.ok (negErr TUX_EINVAL), w, []⟩)

/-- Flags that `spawn` does not accept are refused. -/
lemma sysClone_refused {flags : Word} (O : HostOs) (stack ptid ctid tls : Word) (w : World L M)
    (hf : isfork flags = false) (h : spawnFlags flags = none) :
    (sysClone O flags stack ptid ctid tls).run w = ⟨.ok (negErr TUX_EINVAL), w, []⟩ := by
  rw [sysClone, Exec.check_bind_run, if_pos hf, spawn, h]
  exact Exec.pure_run _ _

/-- With flags that `spawn` accepts, a host that grants it gets a new thread. -/
lemma sysClone_creates {flags flags' : Word} {O : HostOs} (stack ptid ctid tls : Word) {w : World L M}
    (hf : isfork flags = false) (h : spawnFlags flags = some flags') (h1 : (O.ret w.ncall).isSome = true)
    (h2 : (O.ret (w.ncall + 1)).isSome = true) :
    ((sysClone O flags stack ptid ctid tls).run w).st.started =
      w.newthread.prepare flags' stack ctid tls :: w.started := by
  have hprep : ∃ w1 l, (spawnPrepare O flags' stack ctid tls).run w =
      ⟨.ok (some (w.newthread.prepare flags' stack ctid tls)), w1, l⟩ ∧ w1.ncall = w.ncall + 1 ∧
        w1.started = w.started := by
    rw [spawnPrepare_run, if_pos h1]
    split
    · exact ⟨_, _, rfl, rfl, rfl⟩
    · exact ⟨_, _, rfl, rfl, rfl⟩
  obtain ⟨w1, l, hrun, hcall, hst⟩ := hprep
  rw [sysClone, Exec.check_bind_run, if_pos hf, spawn, h]
  dsimp only
  rw [Exec.bind_run, hrun, Exec.andThen_ok]
  dsimp only
  rw [Exec.bind_run, spawnStart_run, hcall, if_pos h2, Exec.andThen_ok_nil, spawnPublish_run]
  split
  · exact congrArg _ hst
  · exact congrArg _ hst

/-- For flags that are no fork, `sys_clone` makes the check it should exactly when the upper half is empty,
or the lower half alone is refused. -/
theorem clone_validates (w : World L M) {flags : Word} (hf : isfork flags = false) :
    CloneContract w flags ↔ (CloneValid (lowFlags flags) → highFlags flags = 0) := by
  rw [← spawnFlags_isSome]
  cases hs : spawnFlags flags with
  | none =>
    have hbad : ¬ CloneValid flags := by
      rw [cloneValid_iff, ← spawnFlags_isSome, hs]
      exact fun h => absurd h.1 (by decide)
    refine iff_of_true (fun O stack ptid ctid tls => ⟨fun h => absurd h hbad, fun _ => ?_⟩)
      fun h => absurd h (by decide)
    exact sysClone_refused O stack ptid ctid tls w hf hs
  | some flags' =>
    have hlow : CloneValid (lowFlags flags) := by
      rw [← spawnFlags_isSome, hs]
      rfl
    constructor
    · intro hc _
      by_contra hhigh
      have hbad : ¬ CloneValid flags := fun h => hhigh ((cloneValid_iff flags).mp h).2
      have hrefused := (hc .plain 0 0 0 0).2 hbad
      have hcreates := sysClone_creates (O := .plain) 0 0 0 0 (w := w) hf hs rfl rfl
      rw [hrefused] at hcreates
      exact absurd (congrArg List.length hcreates) (by simp)
    · intro hhigh O stack ptid ctid tls
      have hgood : CloneValid flags := (cloneValid_iff flags).mpr ⟨hlow, hhigh rfl⟩
      refine ⟨fun _ h1 h2 => ?_, fun h => absurd hgood h⟩
      exact ⟨_, sysClone_creates stack ptid ctid tls hf hs h1 h2⟩

/-- The flags of a thread without a signal, and nothing that is not required. -/
def threadFlags : Word := flag64 spawnRequired

/-- These flags are checked as they should. -/
theorem clone_validates_thread :
    CloneContract (World.ofThread (procnewfile (M := .x64) (.fresh .plain) 10000)) threadFlags :=
  (clone_validates _ (by decide)).mpr fun _ => by decide

/-- The same flags with bit 32 set create a thread. -/
theorem clone_high_bit :
    isfork (threadFlags ||| 0x100000000) = false ∧ ¬ CloneValid (threadFlags ||| 0x100000000) ∧
    ((sysClone .plain (threadFlags ||| 0x100000000) 0 0 0 0).run
      (World.ofThread (procnewfile (M := .x64) (.fresh .plain) 10000))).st.started ≠ [] := by
  refine ⟨by decide, by decide, ?_⟩
  rw [sysClone_creates 0 0 0 0 (by decide) (show spawnFlags (threadFlags ||| 0x100000000) = some threadFlags
    from by decide) rfl rfl]
  exact List.cons_ne_nil _ _

end Libtux
