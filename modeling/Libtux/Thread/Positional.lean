import Libtux.Lib.Run
import Libtux.Sys.Pread

/-!
# Positional reads among other threads

The threads of a process share the offset of an open file. `sys_read`, `sys_write` and `sys_lseek` are one
host call each, and the host makes that one step. `sys_pread64` is four, and between them the offset is not
where the other threads left it. No lock is held, so another thread can come in between.

* `Sharing.Step` has one step for each host call. `Sharing.alone` is the file as it would be without the
  positional reads, which is what the other threads are owed.
* `Sharing.Inv` is the invariant of the runs in which nobody comes in between. The file differs from
  `alone` in its offset, and only while some thread has it displaced; no thread that asked for the offset has
  got anything else than that of `alone`.
* `Sharing.pread_steps` says that the four steps are the host calls of `preadCalls`.
-/

namespace Libtux
open Lib

/-- A call on the descriptor that is one host call. -/
inductive OffsetCall where
  | read (size : Word)
  | write (bytes : List Byte)
  | lseek (offset : Word) (whence : Whence)

/-- What the host does to the file. -/
def OffsetCall.on (f : OpenFile) : OffsetCall → OpenFile
  | .read size => (f.read size.toNat).2
  | .write bytes => (f.write bytes).2
  | .lseek offset whence => (f.seek offset.toInt whence).2

/-- Where a thread is in `sys_pread64`. -/
inductive PreadPhase where
  | idle
  /-- It asked for the offset. -/
  | asked (size offset orig : Word)
  /-- It sought to its own. -/
  | sought (size offset orig : Word)
  /-- It has read. -/
  | read (bytes : List Byte) (orig : Word)

/-- The offset is not where the other threads left it. -/
def PreadPhase.displaced : PreadPhase → Bool
  | .sought .. => true
  | .read .. => true
  | _ => false

/-- What `lseek` returned for the offset of the file. -/
def PreadPhase.orig : PreadPhase → Option Word
  | .idle => none
  | .asked _ _ orig => some orig
  | .sought _ _ orig => some orig
  | .read _ orig => some orig

/-- An open file that threads share. -/
structure Sharing where
  file : OpenFile
  phase : Nat → PreadPhase
  /-- The file as it is without the positional reads. -/
  alone : OpenFile

/-- What a thread does. -/
inductive SharingAct where
  | call (c : OffsetCall)
  | ask (size offset : Word)
  | seek
  | read
  | restore

namespace Sharing

/-- Thread `i` goes on to another phase. -/
def goto (s : Sharing) (i : Nat) (file : OpenFile) (ph : PreadPhase) : Sharing :=
  { s with file, phase := Function.update s.phase i ph }

/-- One host call of one thread. -/
inductive Step : Sharing → Nat × SharingAct → Sharing → Prop where
  | call {s : Sharing} {i : Nat} (c : OffsetCall) : s.phase i = .idle →
    Step s (i, .call c) { s with file := c.on s.file, alone := c.on s.alone }
  | ask {s : Sharing} {i : Nat} (size offset : Word) : s.phase i = .idle →
    Step s (i, .ask size offset)
      (s.goto i (s.file.seek 0 .current).2 (.asked size offset (seekAnswer (s.file.seek 0 .current).1)))
  | seek {s : Sharing} {i : Nat} {size offset orig : Word} : s.phase i = .asked size offset orig →
    Step s (i, .seek) (s.goto i (s.file.seek offset.toInt .start).2 (.sought size offset orig))
  | read {s : Sharing} {i : Nat} {size offset orig : Word} : s.phase i = .sought size offset orig →
    Step s (i, .read) (s.goto i (s.file.read size.toNat).2 (.read (s.file.read size.toNat).1 orig))
  | restore {s : Sharing} {i : Nat} {bytes : List Byte} {orig : Word} : s.phase i = .read bytes orig →
    Step s (i, .restore) (s.goto i (s.file.seek orig.toInt .start).2 .idle)

/-- A file that no thread is in a `sys_pread64` on. -/
def start (f : OpenFile) : Sharing := ⟨f, fun _ => .idle, f⟩

/-- What is wanted of a step: a positional read takes the bytes at its own offset, and the other calls find
and leave the offset that they would without the positional reads. -/
def Undisturbed (s : Sharing) (x : Nat × SharingAct) (s' : Sharing) : Prop :=
  match x.2 with
  | .call _ => s.file.pos = s.alone.pos ∧ s'.file.pos = s'.alone.pos
  | .read => ∀ size offset orig, s.phase x.1 = .sought size offset orig →
    (s.file.read size.toNat).1 = slice s.alone.data offset.toNat size.toNat
  | _ => True

/-- Some other thread has displaced the offset. -/
def Held (s : Sharing) (i : Nat) : Prop := ∃ j, j ≠ i ∧ (s.phase j).displaced = true

/-- Nobody comes in between: no step is taken while another thread has displaced the offset, and the offset is
not moved while another thread knows what it was. A positional read is at an offset the file can have. -/
def Apart (s : Sharing) (x : Nat × SharingAct) : Prop :=
  ¬ s.Held x.1 ∧
    match x.2 with
    | .call c => (∃ j, (s.phase j).orig.isSome = true) → (c.on s.file).pos = s.file.pos
    | .ask _ offset => 0 ≤ offset.toInt ∧ offset.toNat ≤ s.file.limit
    | _ => True

section
variable {s s' : Sharing} {i : Nat} {x : Nat × SharingAct}

/-- The thread is there, -/
lemma goto_self (s : Sharing) (i : Nat) (f : OpenFile) (ph : PreadPhase) : (s.goto i f ph).phase i = ph :=
  Function.update_self ..

/-- all others are where they were, -/
lemma goto_other (s : Sharing) {i j : Nat} (f : OpenFile) (ph : PreadPhase) (h : j ≠ i) :
    (s.goto i f ph).phase j = s.phase j := Function.update_of_ne h ..

/-- and the last step counts. -/
lemma goto_goto (s : Sharing) (i : Nat) (f f' : OpenFile) (ph ph' : PreadPhase) :
    (s.goto i f ph).goto i f' ph' = s.goto i f' ph' := by
  rw [goto, goto, goto, Function.update_idem]

/-! ## The invariant -/

/-- The file is the one without the positional reads, except for its offset. -/
structure Inv (s : Sharing) : Prop where
  seekable : s.alone.seekable = true
  moved : ∃ p hp, s.file = s.alone.moveTo p hp
  still : (∀ i, (s.phase i).displaced = false) → s.file = s.alone
  orig : ∀ {i o}, (s.phase i).orig = some o → o = BitVec.ofNat 64 s.alone.pos
  asked : ∀ {i size offset o}, s.phase i = .asked size offset o →
    0 ≤ offset.toInt ∧ offset.toNat ≤ s.alone.limit
  sought : ∀ {i size offset o}, s.phase i = .sought size offset o → s.file.pos = offset.toNat

namespace Inv

/-- Where nobody else has displaced the offset, a thread that has not either finds it as it should be. -/
lemma found (I : s.Inv) (hfree : ¬ s.Held i) (hi : (s.phase i).displaced = false) : s.file = s.alone := by
  refine I.still fun j => ?_
  by_cases hj : j = i
  · rw [hj, hi]
  · cases hd : (s.phase j).displaced with
    | false => rfl
    | true => exact absurd ⟨j, hj, hd⟩ hfree

/-- A step of a positional read moves the offset and nothing else. -/
lemma goto (I : s.Inv) (hfree : ¬ s.Held i) {f : OpenFile} {ph : PreadPhase} {p : Nat} {hp : p ≤ s.alone.limit}
    (hf : f = s.alone.moveTo p hp) (hstill : ph.displaced = false → p = s.alone.pos)
    (horig : ∀ {o}, ph.orig = some o → o = BitVec.ofNat 64 s.alone.pos)
    (hasked : ∀ {size offset o}, ph = .asked size offset o →
      0 ≤ offset.toInt ∧ offset.toNat ≤ s.alone.limit)
    (hsought : ∀ {size offset o}, ph = .sought size offset o → p = offset.toNat) : (s.goto i f ph).Inv where
  seekable := I.seekable
  moved := ⟨p, hp, hf⟩
  still hno := by
    have hi := hno i
    rw [goto_self] at hi
    exact hf.trans (s.alone.moveTo_of_eq hp (hstill hi))
  orig {j o} ho := by
    by_cases hj : j = i
    · subst hj
      rw [goto_self] at ho
      exact horig ho
    · rw [goto_other s f ph hj] at ho
      exact I.orig ho
  asked {j size offset o} hph := by
    by_cases hj : j = i
    · subst hj
      rw [goto_self] at hph
      exact hasked hph
    · rw [goto_other s f ph hj] at hph
      exact I.asked hph
  sought {j size offset o} hph := by
    by_cases hj : j = i
    · subst hj
      rw [goto_self] at hph
      have hfile : (s.goto j f ph).file = f := rfl
      rw [hfile, hf]
      exact hsought hph
    · -- another thread would have it displaced
      rw [goto_other s f ph hj] at hph
      exact absurd ⟨j, hj, by rw [hph]; rfl⟩ hfree

/-- The shared file may become as long as the other one, -/
lemma limit (I : s.Inv) : s.file.limit = s.alone.limit := by
  obtain ⟨p, hp, hf⟩ := I.moved
  rw [hf, OpenFile.moveTo_limit]

/-- and has the same data. -/
lemma data (I : s.Inv) : s.file.data = s.alone.data := by
  obtain ⟨p, hp, hf⟩ := I.moved
  rw [hf, OpenFile.moveTo_data]

/-- Moved to the same offset, the two files are the same. -/
lemma moveTo_eq (I : s.Inv) {p : Nat} (hp : p ≤ s.file.limit) (hle : p ≤ s.alone.limit) :
    s.file.moveTo p hp = s.alone.moveTo p hle := by
  obtain ⟨q, hq, hf⟩ := I.moved
  revert hp
  rw [hf]
  exact fun _ => rfl

/-- It has positions too. -/
lemma file_seekable (I : s.Inv) : s.file.seekable = true := by
  obtain ⟨p, hp, hf⟩ := I.moved
  rw [hf, OpenFile.moveTo_seekable]
  exact I.seekable

end Inv

/-- A call leaves the kind of the file, -/
lemma on_seekable (c : OffsetCall) (f : OpenFile) : (c.on f).seekable = f.seekable := by
  cases c with
  | read size => exact f.read_kind size.toNat |>.1
  | write bytes => exact f.write_kind bytes |>.1
  | lseek offset whence => exact f.seek_kind offset.toInt whence |>.1

/-- and its limit. -/
lemma on_limit (c : OffsetCall) (f : OpenFile) : (c.on f).limit = f.limit := by
  cases c with
  | read size => exact f.read_kind size.toNat |>.2
  | write bytes => exact f.write_kind bytes |>.2
  | lseek offset whence => exact f.seek_kind offset.toInt whence |>.2

/-- Every step that is not in between keeps the invariant. -/
lemma Inv.step (I : s.Inv) (hok : s.Apart x) (h : Step s x s') : s'.Inv := by
  obtain ⟨hfree, hok⟩ := hok
  cases h with
  | @call i c hi =>
    have hf := I.found hfree (by rw [hi]; rfl)
    have hno : ∀ j, (s.phase j).displaced = false := by
      intro j
      cases hd : (s.phase j).displaced with
      | false => rfl
      | true =>
        refine absurd ⟨j, ?_, hd⟩ hfree
        rintro rfl
        rw [hi] at hd
        cases hd
    have hpos : ∀ {j o}, (s.phase j).orig = some o → (c.on s.alone).pos = s.alone.pos := by
      intro j o ho
      have := hok ⟨j, by rw [ho]; rfl⟩
      rwa [hf] at this
    exact {
      seekable := (on_seekable c s.alone).trans I.seekable
      moved := ⟨_, OpenFile.pos_le _, by rw [hf]; exact (OpenFile.moveTo_self _).symm⟩
      still := fun _ => by rw [hf]
      orig := fun {j o} ho => by
        have heq := hpos ho
        exact (I.orig ho).trans (congrArg (BitVec.ofNat 64) heq.symm)
      asked := fun hph => by
        have := I.asked hph
        rwa [← on_limit c] at this
      sought := fun {j _ _ _} hph => by
        have := hno j
        rw [hph] at this
        cases this }
  | @ask i size offset hi =>
    have hf := I.found hfree (by rw [hi]; rfl)
    rw [OpenFile.seek_current I.file_seekable, hf]
    refine I.goto hfree (s.alone.moveTo_self).symm (fun _ => rfl) ?_ ?_ ?_
    · rintro o ho
      cases ho
      rfl
    · rintro size offset o hph
      cases hph
      rw [I.limit] at hok
      exact hok
    · rintro size offset o hph
      cases hph
  | @seek i size offset orig hi =>
    have hf := I.found hfree (by rw [hi]; rfl)
    obtain ⟨hpos, hle⟩ := I.asked hi
    rw [hf, toInt_of_nonneg hpos, OpenFile.seek_start I.seekable hle]
    refine I.goto hfree rfl (fun h => Bool.noConfusion h) ?_ ?_ ?_
    · rintro o ho
      cases ho
      exact I.orig (i := i) (by rw [hi]; rfl)
    · rintro _ _ _ hph
      cases hph
    · rintro size offset o hph
      cases hph
      rfl
  | @read i size offset orig hi =>
    obtain ⟨p, hp, hr, -⟩ := OpenFile.read_moves I.file_seekable size.toNat
    have hle : p ≤ s.alone.limit := by
      rw [← I.limit]
      exact hp
    have hmoved := hr.trans (I.moveTo_eq hp hle)
    refine I.goto hfree hmoved (fun h => Bool.noConfusion h) ?_ ?_ ?_
    · rintro o ho
      cases ho
      exact I.orig (i := i) (by rw [hi]; rfl)
    · rintro _ _ _ hph
      cases hph
    · rintro _ _ _ hph
      cases hph
  | @restore i bytes orig hi =>
    -- it seeks back to the offset of `alone`
    have horig := I.orig (i := i) (o := orig) (by rw [hi]; rfl)
    have hle : s.alone.pos ≤ s.file.limit := by
      rw [I.limit]
      exact s.alone.pos_le
    rw [horig, toInt_pos, OpenFile.seek_start I.file_seekable hle]
    have hmoved := I.moveTo_eq hle s.alone.pos_le
    refine I.goto hfree hmoved (fun _ => rfl) ?_ ?_ ?_
    · rintro _ ho
      cases ho
    · rintro _ _ _ hph
      cases hph
    · rintro _ _ _ hph
      cases hph

/-- Where the invariant holds, a step does what is wanted of it. -/
lemma Inv.undisturbed (I : s.Inv) (hok : s.Apart x) (h : Step s x s') : s.Undisturbed x s' := by
  obtain ⟨hfree, hok⟩ := hok
  cases h with
  | call c hi =>
    have hf := I.found hfree (by rw [hi]; rfl)
    exact ⟨by rw [hf], by rw [hf]⟩
  | ask size offset hi => trivial
  | seek hi => trivial
  | read hi =>
    intro size offset orig hph
    rw [OpenFile.read_seekable I.file_seekable, I.data, I.sought hph]
  | restore hi => trivial

/-- It holds while nobody has done anything. -/
lemma Inv.start {f : OpenFile} (h : f.seekable = true) : (Sharing.start f).Inv where
  seekable := h
  moved := ⟨f.pos, f.pos_le, f.moveTo_self.symm⟩
  still _ := rfl
  orig ho := by cases ho
  asked hph := by cases hph
  sought hph := by cases hph

end
end Sharing

/-- When nobody comes in between, every positional read takes the bytes at its own offset, and every other call
finds and leaves the offset that it would without the positional reads. -/
theorem pread64_undisturbed {f : OpenFile} (hf : f.seekable = true) {l : List (Nat × SharingAct)}
    {s s' : Sharing} {x : Nat × SharingAct} (hrun : Run (Guarded Sharing.Apart Sharing.Step) (.start f) l s)
    (hok : s.Apart x) (hst : s.Step x s') : s.Undisturbed x s' := by
  have hinv : s.Inv := by
    refine hrun.invariant (I := Sharing.Inv) ?_ (.start hf)
    rintro s x s' I ⟨hok, hst⟩
    exact I.step hok hst
  exact hinv.undisturbed hok hst

namespace Sharing

/-- Thread `i` is `k` steps into a `sys_pread64`. -/
def preading (s : Sharing) (i : Nat) (size offset : Word) : Nat → Sharing
  | 0 => s
  | 1 => s.goto i (s.file.seek 0 .current).2 (.asked size offset (seekAnswer (s.file.seek 0 .current).1))
  | 2 => s.goto i (sought s.file offset) (.sought size offset (seekAnswer (s.file.seek 0 .current).1))
  | 3 => s.goto i ((sought s.file offset).read size.toNat).2
    (.read ((sought s.file offset).read size.toNat).1 (seekAnswer (s.file.seek 0 .current).1))
  | _ => s.goto i
    (((sought s.file offset).read size.toNat).2.seek (seekAnswer (s.file.seek 0 .current).1).toInt .start).2 .idle

/-- Each of the four is a step. -/
lemma preading_step {s : Sharing} {i : Nat} (hi : s.phase i = .idle) (size offset : Word) :
    Step s (i, .ask size offset) (s.preading i size offset 1) ∧
      Step (s.preading i size offset 1) (i, .seek) (s.preading i size offset 2) ∧
      Step (s.preading i size offset 2) (i, .read) (s.preading i size offset 3) ∧
      Step (s.preading i size offset 3) (i, .restore) (s.preading i size offset 4) := by
  have h2 := Step.seek (goto_self s i (s.file.seek 0 .current).2
    (.asked size offset (seekAnswer (s.file.seek 0 .current).1)))
  have h3 := Step.read (goto_self s i (sought s.file offset)
    (.sought size offset (seekAnswer (s.file.seek 0 .current).1)))
  have h4 := Step.restore (goto_self s i ((sought s.file offset).read size.toNat).2
    (.read ((sought s.file offset).read size.toNat).1 (seekAnswer (s.file.seek 0 .current).1)))
  rw [goto_goto] at h2 h3 h4
  exact ⟨.ask size offset hi, h2, h3, h4⟩

/-- The four steps. -/
def preadSteps (i : Nat) (size offset : Word) : List (Nat × SharingAct) :=
  [(i, .ask size offset), (i, .seek), (i, .read), (i, .restore)]

/-- The steps of a `sys_pread64` that nobody comes in between are its host calls, when the host moves all that it is
asked for: the bytes that are read are those that `preadCalls` stores, and the file is the one that it leaves. -/
theorem pread_steps {L : LibMMap} {M : Machine} {K : ReadHost} {s : Sharing} {i : Nat} (hi : s.phase i = .idle)
    (w : World L M) (buf size offset : Word)
    (hall : K.moves buf size w.p.as.prot (sought s.file offset).rest =
      .ok (min size.toNat (sought s.file offset).rest)) :
    Run Step s (preadSteps i size offset) (s.preading i size offset 4) ∧
      ∃ bytes orig, (s.preading i size offset 3).phase i = .read bytes orig ∧
        (preadCalls K buf size offset).run ⟨w, s.file⟩ = ⟨.ok (BitVec.ofNat 64 bytes.length),
          ⟨w.stored buf bytes, (s.preading i size offset 4).file⟩, [.touch ⟨buf, size.toNat⟩]⟩ := by
  obtain ⟨h1, h2, h3, h4⟩ := preading_step hi size offset
  refine ⟨((((Run.nil s).snoc h1).snoc h2).snoc h3).snoc h4, _, _, goto_self .., ?_⟩
  have hreads : preadReads K buf size offset w.p.as.prot s.file =
      (.ok ((sought s.file offset).read size.toNat).1, ((sought s.file offset).read size.toNat).2) := by
    rw [preadReads, ReadHost.reads, hall]
    dsimp only
    rw [OpenFile.read_min_rest]
  rw [preadCalls_run, preadFile, hreads]
  rfl

/-- A thread that is alone in it goes through a `sys_pread64` undisturbed. -/
lemma preading_apart {s : Sharing} {i : Nat} {size offset : Word} (hidle : ∀ j, s.phase j = .idle)
    (hoff : 0 ≤ offset.toInt ∧ offset.toNat ≤ s.file.limit) :
    Run (Guarded Apart Step) s (preadSteps i size offset) (s.preading i size offset 4) := by
  obtain ⟨h1, h2, h3, h4⟩ := preading_step (hidle i) size offset
  have hfree : ∀ f ph, ¬ (s.goto i f ph).Held i := by
    rintro f ph ⟨j, hj, hd⟩
    rw [goto_other s f ph hj, hidle j] at hd
    cases hd
  have hstart : ¬ s.Held i := by
    rintro ⟨j, -, hd⟩
    rw [hidle j] at hd
    cases hd
  exact ((((Run.nil s).snoc ⟨⟨hstart, hoff⟩, h1⟩).snoc ⟨⟨hfree _ _, trivial⟩, h2⟩).snoc
    ⟨⟨hfree _ _, trivial⟩, h3⟩).snoc ⟨⟨hfree _ _, trivial⟩, h4⟩

end Sharing

/-- A positional read by one thread, then a read by another. -/
theorem pread64_undisturbed_sixBytes :
    ∃ s s', Run (Guarded Sharing.Apart Sharing.Step) (.start (sixBytes true)) (Sharing.preadSteps 1 1 4) s ∧
      s.Step (2, .call (.read 1)) s' ∧ s.Undisturbed (2, .call (.read 1)) s' := by
  let s := (Sharing.start (sixBytes true)).preading 1 1 4 4
  have hrun : Run (Guarded Sharing.Apart Sharing.Step) (.start (sixBytes true)) (Sharing.preadSteps 1 1 4) s :=
    Sharing.preading_apart (fun _ => rfl) (by decide)
  have hidle : ∀ j, s.phase j = .idle := by
    intro j
    by_cases hj : j = 1
    · rw [hj]
      exact Sharing.goto_self ..
    · exact Sharing.goto_other _ _ _ hj
  have hst : s.Step (2, .call (.read 1)) _ := .call (.read 1) (hidle 2)
  refine ⟨s, _, hrun, hst, pread64_undisturbed rfl hrun ⟨?_, ?_⟩ hst⟩
  · rintro ⟨j, -, hd⟩
    rw [hidle j] at hd
    cases hd
  · rintro ⟨j, ho⟩
    rw [hidle j] at ho
    cases ho

/-- A read in between finds the offset of the positional read, and a seek in between makes the positional read
take the bytes at the offset it went to. -/
theorem pread64_disturbed :
    (∃ s s', Run Sharing.Step (.start (sixBytes true)) [(1, .ask 1 4), (1, .seek)] s ∧
      s.Step (2, .call (.read 1)) s' ∧ s.file.pos = 4 ∧ s.alone.pos = 2 ∧
      ¬ s.Undisturbed (2, .call (.read 1)) s') ∧
    ∃ s s', Run Sharing.Step (.start (sixBytes true))
        [(1, .ask 1 4), (1, .seek), (2, .call (.lseek 0 .start))] s ∧
      s.Step (1, .read) s' ∧ s'.phase 1 = .read [1] 2 ∧ ¬ s.Undisturbed (1, .read) s' := by
  let s := (Sharing.start (sixBytes true)).preading 1 1 4 2
  obtain ⟨h1, h2, -⟩ := Sharing.preading_step (s := .start (sixBytes true)) (i := 1) rfl 1 4
  have hrun : Run Sharing.Step (.start (sixBytes true)) [(1, .ask 1 4), (1, .seek)] s :=
    ((Run.nil _).snoc h1).snoc h2
  have hidle : s.phase 2 = .idle := Sharing.goto_other _ _ _ (by decide)
  have hsought : s.phase 1 = .sought 1 4 2 := Sharing.goto_self ..
  refine ⟨⟨s, _, hrun, .call (.read 1) hidle, by decide, by decide, fun h => ?_⟩, ?_⟩
  · exact absurd h.1 (by decide)
  · refine ⟨_, _, hrun.snoc (.call (.lseek 0 .start) hidle), .read hsought, Sharing.goto_self .., fun h => ?_⟩
    exact absurd (h 1 4 2 hsought) (by decide)

end Libtux
