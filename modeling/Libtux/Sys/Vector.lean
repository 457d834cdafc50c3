import Libtux.Lib.Bytes
import Libtux.Lib.Prefix
import Libtux.Sys.Confine
import Libtux.Sys.Fail
import Mathlib.Data.BitVec

/-!
# Vectored transfers

`sys_writev` and `sys_readv` transfer the buffers of an array one after the other, with `sys_write` and
`sys_read`, and add up what these return. What is moved should be a prefix of the buffers in the order of the
array, and the result its length (`VecContract`).

The loop goes on after a transfer that moved less than its buffer, and the error of the host comes back from
`tuxerr` as a positive number, which the loop takes for a length. So the contract holds only when every call of
the host succeeds and moves nothing after a short one. The loop reads each entry when it gets there, and a
`sys_readv` may have stored into the array by then: `World.iovAt` follows the memory that the entries are read
from, and `iov_contract_iff` says exactly when the contract holds.
-/

namespace Libtux
open Lib

/-- The two vectored calls. -/
inductive VecOp where
  | writev
  | readv
  deriving DecidableEq

/-- The handler that a call needs. -/
def VecOp.file : VecOp → FileOp
  | .writev => .write
  | .readv => .read

/-- A byte that was moved: from or to which entry of the array and which address. -/
structure Moved where
  entry : Nat
  addr : Word
  byte : Byte

/-- The entry and the address of a byte. -/
def Moved.place (x : Moved) : Nat × Word := (x.entry, x.addr)

/-- The first bytes of the buffer of entry `i`. -/
def places (i : Nat) (base : Word) (n : Nat) : List (Nat × Word) :=
  (List.range n).map fun k => (i, base + BitVec.ofNat 64 k)

/-- Entry `i` of the array: the address and the length of its buffer. -/
def entryAt (mem : Word → Byte) (iov : Word) (i : Nat) : Word × Word :=
  let entry := iov + BitVec.ofNat 64 (16 * i)
  (le mem entry 8 64, le mem (entry + 8) 8 64)

section
variable {L : LibMMap} {M : Machine} (O : HostOs)

/-- The transfer of one entry. -/
def VecOp.io (op : VecOp) (fd : CInt) : Word → Word → Sys L M Word :=
  match op with
  | .writev => sysWrite O fd
  | .readv => sysRead O fd

/-- `sys_writev` or `sys_readv`. -/
def VecOp.sys (op : VecOp) (fd : CInt) (iovp iovcnt : Word) : Sys L M Word :=
  match op with
  | .writev => sysWritev O fd iovp iovcnt
  | .readv => sysReadv O fd iovp iovcnt

/-- How many bytes the host moves in its `k`-th call, which is asked for `size`. -/
def HostOs.moves (k : Nat) (size : Word) : Nat :=
  match O.ret k with
  | none => 0
  | some r => min r size.toNat

/-- The bytes that the next call of the host moves for an entry. -/
def World.moved (w : World L M) (op : VecOp) (i : Nat) (e : Word × Word) : List Moved :=
  (List.range (O.moves w.ncall e.2)).map fun k =>
    let addr := e.1 + BitVec.ofNat 64 k
    ⟨i, addr, match op with
      | .writev => w.mem addr
      | .readv => O.data w.ncall (BitVec.ofNat 64 k)⟩

/-- The bytes that the loop moves, from entry `i` on. An entry moves bytes when it gets to call the host. -/
def iovMoved (op : VecOp) (fd : CInt) (iov : Word) : Nat → Nat → World L M → List Moved
  | 0, _, _ => []
  | n + 1, i, w =>
    let e := entryAt w.mem iov i
    let r := (op.io O fd e.1 e.2).run w
    (if r.st.ncall = w.ncall then [] else w.moved O op i e) ++
      match r.val with
      | .error _ => []
      | .ok v => if v.msb then [] else iovMoved op fd iov n (i + 1) r.st

/-- The bytes that a call moves. -/
def World.vecMoved (w : World L M) (op : VecOp) (fd : CInt) (iovp iovcnt : Word) : List Moved :=
  match alignedTo 8 (lfiAsFmptr w.info iovp) with
  | none => []
  | some iov => iovMoved O op fd iov iovcnt.toNat 0 w

/-- The buffers of an array one after the other. -/
def World.vecGiven (w : World L M) (iovp iovcnt : Word) : List (Nat × Word) :=
  (List.range iovcnt.toNat).flatMap fun i =>
    places i (entryAt w.mem iovp i).1 (entryAt w.mem iovp i).2.toNat

/-- What the bytes that are moved are: those of the buffers, or what the buffers hold in the end. -/
def MovedBytes (op : VecOp) (mem mem' : Word → Byte) (moved : List Moved) : Prop :=
  match op with
  | .writev => mem' = mem ∧ ∀ x ∈ moved, x.byte = mem x.addr
  | .readv => mem' = moved.foldl (fun mem x => Function.update mem x.addr x.byte) mem

/-- A call moves a prefix of the buffers and returns its length, and a negative error only when it moved
nothing. -/
def VecContract (op : VecOp) (fd : CInt) (iovp iovcnt : Word) (w : World L M) : Prop :=
  let r := (op.sys O fd iovp iovcnt).run w
  let moved := w.vecMoved O op fd iovp iovcnt
  MovedBytes op w.mem r.st.mem moved ∧ ∃ v, r.val = .ok v ∧
    (v.msb = true → moved = []) ∧
    (v.msb = false → moved.map Moved.place <+: w.vecGiven iovp iovcnt ∧ v.toNat = moved.length)

/-! ## The entries as the loop finds them -/

/-- The memory after the `k`-th call of the host, for the buffer of an entry. -/
def HostOs.stores (op : VecOp) (k : Nat) (e : Word × Word) (mem : Word → Byte) : Word → Byte :=
  match op with
  | .writev => mem
  | .readv => splice mem e.1 (BitVec.ofNat 64 (O.moves k e.2)) (O.data k)

/-- The memory and the number of calls when the loop gets to an entry. -/
def World.iovAt (w : World L M) (op : VecOp) (iov : Word) : Nat → (Word → Byte) × Nat
  | 0 => (w.mem, w.ncall)
  | i + 1 =>
    let s := w.iovAt op iov i
    let e := entryAt s.1 iov i
    if e.2 = 0 then s else (O.stores op s.2 e s.1, s.2 + 1)

/-- An entry as the loop finds it. -/
def World.foundEntry (w : World L M) (op : VecOp) (iov : Word) (i : Nat) : Word × Word :=
  entryAt (w.iovAt O op iov i).1 iov i

/-- How many bytes are moved for an entry that is not refused. -/
def World.got (w : World L M) (op : VecOp) (iov : Word) (i : Nat) : Nat :=
  if (w.foundEntry O op iov i).2 = 0 then 0 else O.moves (w.iovAt O op iov i).2 (w.foundEntry O op iov i).2

/-- An entry is refused before the host is called. -/
def World.Refused (w : World L M) (op : VecOp) (fd : CInt) (iov : Word) (i : Nat) : Prop :=
  (w.foundEntry O op iov i).2 ≠ 0 ∧
    (w.handles fd op.file = false ∨ lfiAsFmptr w.info (w.foundEntry O op iov i).1 = none)

instance (w : World L M) (op : VecOp) (fd : CInt) (iov : Word) (i : Nat) : Decidable (w.Refused O op fd iov i) :=
  inferInstanceAs (Decidable (_ ∧ (_ ∨ _)))

/-- The call for an entry succeeds and returns how much it moved. -/
def World.Told (w : World L M) (op : VecOp) (iov : Word) (i : Nat) : Prop :=
  (w.foundEntry O op iov i).2 ≠ 0 →
    ∃ r, O.ret (w.iovAt O op iov i).2 = some r ∧ r ≤ (w.foundEntry O op iov i).2.toNat

/-- All entries of an array are moved as they should be: none is refused, no call fails, what is moved is
what the array asked for in the beginning, and nothing is moved after a buffer that was not moved whole. -/
structure VecKeeps (op : VecOp) (fd : CInt) (iov : Word) (n : Nat) (w : World L M) : Prop where
  accepted : ∀ i < n, ¬ w.Refused O op fd iov i
  told : ∀ i < n, w.Told O op iov i
  asked : ∀ i < n, w.got O op iov i ≠ 0 → (w.foundEntry O op iov i).1 = (entryAt w.mem iov i).1 ∧
    w.got O op iov i ≤ (entryAt w.mem iov i).2.toNat
  noGap : ∀ i j, i < j → j < n → w.got O op iov j ≠ 0 → w.got O op iov i = (entryAt w.mem iov i).2.toNat

/-- The first entry that is refused, before anything was moved. -/
def VecRefused (op : VecOp) (fd : CInt) (iov : Word) (n : Nat) (w : World L M) : Prop :=
  ∃ m < n, w.Refused O op fd iov m ∧ ∀ i < m, ¬ w.Refused O op fd iov i ∧ w.got O op iov i = 0

/-- The bytes that are moved for an entry that is not refused. -/
def World.movedAt (w : World L M) (op : VecOp) (iov : Word) (i : Nat) : List Moved :=
  let s := w.iovAt O op iov i
  (List.range (w.got O op iov i)).map fun k =>
    let addr := (w.foundEntry O op iov i).1 + BitVec.ofNat 64 k
    ⟨i, addr, match op with
      | .writev => s.1 addr
      | .readv => O.data s.2 (BitVec.ofNat 64 k)⟩

/-- What the loop adds to its total for an entry that is not refused. -/
def World.answer (w : World L M) (op : VecOp) (iov : Word) (i : Nat) : Word :=
  if (w.foundEntry O op iov i).2 = 0 then 0 else sizeAnswer O (w.iovAt O op iov i).2

/-! ## One entry -/

section
variable {O} {op : VecOp} {fd : CInt} {iov : Word} {w w' : World L M} {i : Nat}

/-- The state when the loop gets to entry `i`. -/
structure AtEntry (O : HostOs) (op : VecOp) (iov : Word) (w : World L M) (i : Nat) (w' : World L M) : Prop where
  mem : w'.mem = (w.iovAt O op iov i).1
  ncall : w'.ncall = (w.iovAt O op iov i).2
  info : w'.info = w.info
  handles : ∀ fd op, w'.handles fd op = w.handles fd op

/-- The first entry. -/
lemma AtEntry.start (w : World L M) : AtEntry O op iov w 0 w := ⟨rfl, rfl, rfl, fun _ _ => rfl⟩

/-- A transfer of nothing. -/
lemma io_zero (op : VecOp) (fd : CInt) (p : Word) (w : World L M) :
    (op.io O fd p 0).run w = ⟨.ok 0, w, []⟩ := by
  cases op with
  | writev => exact Exec.pure_run 0 w
  | readv => exact Exec.pure_run 0 w

/-- The state after the call of the host for a buffer. -/
def World.after (w : World L M) (O : HostOs) (op : VecOp) (buf size : Word) : World L M :=
  match op with
  | .writev => w.called
  | .readv => (w.filled O buf size).called

/-- A transfer is one call of the host, -/
lemma after_ncall (w : World L M) (op : VecOp) (buf size : Word) : (w.after O op buf size).ncall = w.ncall + 1 := by
  cases op with
  | writev => rfl
  | readv => exact congrArg (· + 1) (World.filled_ncall w buf size)

/-- which leaves the bounds of the address space, -/
lemma after_info (w : World L M) (op : VecOp) (buf size : Word) : (w.after O op buf size).info = w.info := by
  cases op with
  | writev => rfl
  | readv => exact w.filled_info buf size

/-- what the descriptors can do, -/
lemma after_handles (w : World L M) (op : VecOp) (buf size : Word) (fd : CInt) (h : FileOp) :
    (w.after O op buf size).handles fd h = w.handles fd h := by
  cases op with
  | writev => rfl
  | readv =>
    rw [World.after, World.filled]
    cases O.ret w.ncall with
    | none => rfl
    | some r => rfl

/-- and of memory all but its buffer. -/
lemma after_mem (w : World L M) (op : VecOp) (buf size : Word) :
    (w.after O op buf size).mem = O.stores op w.ncall (buf, size) w.mem := by
  cases op with
  | writev => rfl
  | readv =>
    rw [World.after, World.filled, HostOs.stores, HostOs.moves]
    cases O.ret w.ncall with
    | none =>
      funext x
      exact (splice_of_not_lt BitVec.not_lt_zero).symm
    | some r => rfl

/-- What the transfer of an entry comes to that asks for something. -/
lemma io_run (op : VecOp) (fd : CInt) {p size : Word} (hsize : size ≠ 0) (w : World L M) :
    (op.io O fd p size).run w =
      if w.handles fd op.file then
        match lfiAsFmptr w.info p with
        | none => ⟨.ok (negErr TUX_EFAULT), w, [.ask ⟨p, size.toNat⟩]⟩
        | some buf => ⟨.ok (sizeAnswer O w.ncall), w.after O op buf size,
          [.ask ⟨p, size.toNat⟩, .touch ⟨buf, size.toNat⟩]⟩
      else ⟨.ok (if w.fdfile fd = none then negErr TUX_EBADF else negErr TUX_EPERM), w, []⟩ := by
  cases op with
  | writev =>
    rw [VecOp.io, sysWrite, if_neg hsize, withHandler_run, Exec.bind_run, procbuf_run, Exec.andThen_ok]
    cases lfiAsFmptr w.info p with
    | none =>
      dsimp only
      rw [Exec.pure_run, List.append_nil]
      rfl
    | some buf =>
      dsimp only
      rw [Exec.bind_run, touch_run, Exec.andThen_ok, hostSize_run]
      rfl
  | readv =>
    rw [VecOp.io, sysRead, if_neg hsize, withHandler_run, Exec.bind_run, procbuf_run, Exec.andThen_ok]
    cases lfiAsFmptr w.info p with
    | none =>
      dsimp only
      rw [Exec.pure_run, List.append_nil]
      rfl
    | some buf =>
      dsimp only
      rw [hostFill_run]
      rfl

/-- An entry is refused, and nothing happens. -/
lemma entry_refused (h : AtEntry O op iov w i w') (hrefused : w.Refused O op fd iov i) :
    ∃ v l, (op.io O fd (w.foundEntry O op iov i).1 (w.foundEntry O op iov i).2).run w' = ⟨.ok v, w', l⟩ ∧
      v.msb = true := by
  obtain ⟨hsize, hno⟩ := hrefused
  rw [io_run op fd hsize, h.handles, h.info]
  rcases hno with hno | hno
  · rw [hno, if_neg Bool.false_ne_true]
    refine ⟨_, _, rfl, ?_⟩
    split <;> decide
  · rw [hno]
    split
    · exact ⟨_, _, rfl, by decide⟩
    · refine ⟨_, _, rfl, ?_⟩
      split <;> decide

/-- The next entry, -/
lemma iovAt_succ (w : World L M) (i : Nat) : w.iovAt O op iov (i + 1) =
    if (w.foundEntry O op iov i).2 = 0 then w.iovAt O op iov i else
      (O.stores op (w.iovAt O op iov i).2 (w.foundEntry O op iov i) (w.iovAt O op iov i).1,
        (w.iovAt O op iov i).2 + 1) := rfl

/-- after one without bytes, -/
lemma iovAt_skip (hsize : (w.foundEntry O op iov i).2 = 0) : w.iovAt O op iov (i + 1) = w.iovAt O op iov i := by
  rw [iovAt_succ, if_pos hsize]

/-- and after one with some. -/
lemma iovAt_move (hsize : (w.foundEntry O op iov i).2 ≠ 0) : w.iovAt O op iov (i + 1) =
    (O.stores op (w.iovAt O op iov i).2 (w.foundEntry O op iov i) (w.iovAt O op iov i).1,
      (w.iovAt O op iov i).2 + 1) := by
  rw [iovAt_succ, if_neg hsize]

/-- An entry is transferred. -/
lemma entry_accepted (h : AtEntry O op iov w i w') (hok : ¬ w.Refused O op fd iov i) :
    ∃ w'' l, (op.io O fd (w.foundEntry O op iov i).1 (w.foundEntry O op iov i).2).run w' =
        ⟨.ok (w.answer O op iov i), w'', l⟩ ∧ AtEntry O op iov w (i + 1) w'' ∧
      (if w''.ncall = w'.ncall then [] else w'.moved O op i (w.foundEntry O op iov i)) = w.movedAt O op iov i := by
  by_cases hsize : (w.foundEntry O op iov i).2 = 0
  · have hnext := iovAt_skip hsize
    refine ⟨w', [], ?_, ⟨?_, ?_, h.info, h.handles⟩, ?_⟩
    · rw [World.answer, if_pos hsize, hsize]
      exact io_zero op fd _ w'
    · rw [hnext]
      exact h.mem
    · rw [hnext]
      exact h.ncall
    · rw [if_pos rfl, World.movedAt, World.got, if_pos hsize]
      rfl
  · have hhandles : w.handles fd op.file = true := by
      by_contra hno
      exact hok ⟨hsize, .inl (Bool.not_eq_true _ ▸ hno)⟩
    have hbuf : lfiAsFmptr w.info (w.foundEntry O op iov i).1 = some (w.foundEntry O op iov i).1 := by
      cases hp : lfiAsFmptr w.info (w.foundEntry O op iov i).1 with
      | none => exact absurd ⟨hsize, .inr hp⟩ hok
      | some b => rw [(fmptr_some hp).1]
    have hrun := io_run (O := O) op fd hsize w' (p := (w.foundEntry O op iov i).1)
    rw [h.handles, hhandles, if_pos rfl, h.info, hbuf] at hrun
    dsimp only at hrun
    have hgot : w.got O op iov i = O.moves w'.ncall (w.foundEntry O op iov i).2 := by
      rw [World.got, if_neg hsize, h.ncall]
    have hanswer : w.answer O op iov i = sizeAnswer O w'.ncall := by
      rw [World.answer, if_neg hsize, h.ncall]
    have hnext := iovAt_move hsize
    rw [hanswer]
    refine ⟨_, _, hrun, ⟨?_, ?_, ?_, fun fd' h' => ?_⟩, ?_⟩
    · rw [hnext, after_mem, h.mem, h.ncall]
    · rw [hnext, after_ncall, h.ncall]
    · rw [after_info, h.info]
    · rw [after_handles, h.handles]
    · rw [after_ncall, if_neg (Nat.succ_ne_self _), World.moved, World.movedAt, hgot, h.mem, h.ncall]

/-! ## The loop -/

/-- How the loop ends after `m` of the entries from `i` on: at one that is refused, or at the end. -/
inductive LoopEnds (O : HostOs) (op : VecOp) (fd : CInt) (iov : Word) (w : World L M) (n i m : Nat) (total : Word) :
    Except Stop Word → Prop where
  | refused {v : Word} : m < n → w.Refused O op fd iov (i + m) → v.msb = true →
    LoopEnds O op fd iov w n i m total (.ok v)
  | all : m = n →
    LoopEnds O op fd iov w n i m total (.ok (total + ((List.range' i n).map (w.answer O op iov)).sum))

/-- The end of the loop after one more entry before. -/
lemma LoopEnds.succ {n m : Nat} {total : Word} {val : Except Stop Word}
    (h : LoopEnds O op fd iov w n (i + 1) m (total + w.answer O op iov i) val) :
    LoopEnds O op fd iov w (n + 1) i (m + 1) total val := by
  cases h with
  | refused hlt hrefused hv =>
    rw [Nat.add_right_comm] at hrefused
    exact .refused (Nat.succ_lt_succ hlt) hrefused hv
  | all heq =>
    have hend : LoopEnds O op fd iov w (n + 1) i (m + 1) total _ := .all (congrArg (· + 1) heq)
    rwa [List.range'_succ, List.map_cons, List.sum_cons, ← BitVec.add_assoc] at hend

/-- What is moved from the next entry on. -/
lemma iovMoved_succ {n : Nat} {v : Word} {w'' : World L M} {l : List Ev}
    (hr : (op.io O fd (entryAt w'.mem iov i).1 (entryAt w'.mem iov i).2).run w' = ⟨.ok v, w'', l⟩) :
    iovMoved O op fd iov (n + 1) i w' =
      (if w''.ncall = w'.ncall then [] else w'.moved O op i (entryAt w'.mem iov i)) ++
        if v.msb then [] else iovMoved O op fd iov n (i + 1) w'' := by
  rw [iovMoved, hr]

/-- No length that the loop adds is negative. -/
lemma World.answer_msb : (w.answer O op iov i).msb = false := by
  rw [World.answer]
  split
  · rfl
  · exact sizeAnswer_msb _

/-- The loop, by induction on the entries that are left. -/
lemma iovLoop_run (n i : Nat) (total : Word) (w' : World L M) (h : AtEntry O op iov w i w') :
    ∃ m, (∀ j, i ≤ j → j < i + m → ¬ w.Refused O op fd iov j) ∧
      LoopEnds O op fd iov w n i m total ((iovLoop (op.io O fd) iov n i total).run w').val ∧
      AtEntry O op iov w (i + m) ((iovLoop (op.io O fd) iov n i total).run w').st ∧
      iovMoved O op fd iov n i w' = (List.range' i m).flatMap (w.movedAt O op iov) := by
  induction n generalizing i total w' with
  | zero =>
    refine ⟨0, fun j hij hj => absurd hj (Nat.not_lt.mpr hij), ?_, ?_, rfl⟩
    · rw [iovLoop, Exec.pure_run]
      have hend : LoopEnds O op fd iov w 0 i 0 total _ := .all rfl
      have hzero : total + (0 : Word) = total := BitVec.add_zero total
      rwa [List.range'_zero, List.map_nil, List.sum_nil, hzero] at hend
    · rw [iovLoop, Exec.pure_run]
      exact h
  | succ n ih =>
    have hentry : entryAt w'.mem iov i = w.foundEntry O op iov i := by rw [World.foundEntry, h.mem]
    by_cases hrefused : w.Refused O op fd iov i
    · obtain ⟨v, l, hrun, hv⟩ := entry_refused h hrefused
      rw [← hentry] at hrun
      rw [iovMoved_succ hrun, iovLoop_succ hrun, if_pos hv, if_pos rfl, if_pos hv]
      -- the loop returns the error, and moves nothing more
      exact ⟨0, fun j hij hj => absurd hj (Nat.not_lt.mpr hij), .refused n.succ_pos hrefused hv, h, rfl⟩
    · obtain ⟨w'', l, hrun, hnext, hmoved⟩ := entry_accepted h hrefused
      rw [← hentry] at hrun hmoved
      obtain ⟨m, hall, hend, hat, hlist⟩ := ih (i + 1) (total + w.answer O op iov i) w'' hnext
      have hv : (w.answer O op iov i).msb = false := World.answer_msb
      rw [iovMoved_succ hrun, iovLoop_succ hrun, hv, if_neg Bool.false_ne_true, if_neg Bool.false_ne_true, hmoved,
        hlist]
      have hstep : i + 1 + m = i + (m + 1) := by omega
      rw [hstep] at hall hat
      refine ⟨m + 1, fun j hij hj => ?_, ?_, hat, ?_⟩
      · rcases Nat.eq_or_lt_of_le hij with rfl | hlt
        · exact hrefused
        · exact hall j hlt hj
      · exact hend.succ
      · rw [List.range'_succ, List.flatMap_cons]

/-! ## The bytes -/

/-- Bytes stored one after the other are a range of bytes. -/
lemma foldl_splice (mem : Word → Byte) (i : Nat) (p : Word) (g : Word → Byte) {n : Nat} (hn : n < 2 ^ 64) :
    ((List.range n).map fun k => (⟨i, p + BitVec.ofNat 64 k, g (BitVec.ofNat 64 k)⟩ : Moved)).foldl
      (fun mem x => Function.update mem x.addr x.byte) mem = splice mem p (BitVec.ofNat 64 n) g := by
  induction n with
  | zero =>
    funext x
    exact (splice_of_not_lt BitVec.not_lt_zero).symm
  | succ n ih =>
    rw [List.range_succ, List.map_append, List.foldl_append, ih (by omega)]
    funext x
    rw [List.map_singleton, List.foldl_cons, List.foldl_nil, Function.update_apply]
    by_cases hx : x = p + BitVec.ofNat 64 n
    · have hsub : x - p = BitVec.ofNat 64 n := by bv_omega
      have hlt : x - p < BitVec.ofNat 64 (n + 1) := by bv_omega
      rw [if_pos hx, splice_of_lt hlt, hsub]
    · rw [if_neg hx]
      by_cases hlt : x - p < BitVec.ofNat 64 n
      · have hlt' : x - p < BitVec.ofNat 64 (n + 1) := by bv_omega
        rw [splice_of_lt hlt, splice_of_lt hlt']
      · have hlt' : ¬ x - p < BitVec.ofNat 64 (n + 1) := by bv_omega
        rw [splice_of_not_lt hlt, splice_of_not_lt hlt']

/-- The host moves no more than it is asked to. -/
lemma moves_le (k : Nat) (size : Word) : O.moves k size ≤ size.toNat := by
  rw [HostOs.moves]
  cases O.ret k with
  | none => exact Nat.zero_le _
  | some r => exact Nat.min_le_right _ _

/-- What the entries moved is what the host did. -/
lemma movedBytes_range (m : Nat) :
    MovedBytes op w.mem (w.iovAt O op iov m).1 ((List.range m).flatMap (w.movedAt O op iov)) := by
  induction m with
  | zero =>
    cases op with
    | writev => exact ⟨rfl, fun x hx => absurd hx List.not_mem_nil⟩
    | readv => rfl
  | succ m ih =>
    rw [List.range_succ, List.flatMap_append, List.flatMap_singleton]
    cases op with
    | writev =>
      have hsame : (w.iovAt O .writev iov (m + 1)).1 = (w.iovAt O .writev iov m).1 := by
        rw [World.iovAt]
        split
        · rfl
        · rfl
      refine ⟨hsame.trans ih.1, fun x hx => ?_⟩
      rcases List.mem_append.mp hx with hx | hx
      · exact ih.2 x hx
      · obtain ⟨k, -, rfl⟩ := List.mem_map.mp hx
        exact congrFun ih.1 _
    | readv =>
      have ih : (w.iovAt O .readv iov m).1 = _ := ih
      rw [MovedBytes, List.foldl_append, ← ih, World.movedAt, World.got]
      by_cases hsize : (w.foundEntry O .readv iov m).2 = 0
      · rw [iovAt_skip hsize, if_pos hsize]
        rfl
      · rw [iovAt_move hsize, if_neg hsize]
        exact (foldl_splice _ _ _ _ (Nat.lt_of_le_of_lt (moves_le _ _) (BitVec.isLt _))).symm

/-! ## An array of its own -/

/-- No buffer meets the array. -/
def World.ArrayApart (w : World L M) (iov : Word) (n : Nat) : Prop :=
  ∀ i < n, ∀ x, x - (entryAt w.mem iov i).1 < (entryAt w.mem iov i).2 → ¬ x - iov < BitVec.ofNat 64 (16 * n)

/-- Entries depend on the array. -/
lemma entryAt_congr {mem mem' : Word → Byte} {n : Nat} (hn : 16 * n < 2 ^ 64) (hi : i < n)
    (h : ∀ x, x - iov < BitVec.ofNat 64 (16 * n) → mem' x = mem x) : entryAt mem' iov i = entryAt mem iov i := by
  have hword : ∀ k, k ≤ 8 → le mem' (iov + BitVec.ofNat 64 (16 * i) + BitVec.ofNat 64 k) 8 64 =
      le mem (iov + BitVec.ofNat 64 (16 * i) + BitVec.ofNat 64 k) 8 64 := by
    intro k hk
    refine le_congr fun j hj => h _ ?_
    bv_omega
  have hbase := hword 0 (by decide)
  rw [BitVec.add_zero] at hbase
  exact Prod.ext hbase (hword 8 le_rfl)

/-- The loop finds each entry as it was, in a `sys_writev` and when the buffers are apart from the array. -/
lemma found_apart {n : Nat} (hn : 16 * n < 2 ^ 64) (h : op = .writev ∨ w.ArrayApart iov n) (hi : i < n) :
    w.foundEntry O op iov i = entryAt w.mem iov i := by
  have hsame : ∀ j ≤ n, ∀ x, x - iov < BitVec.ofNat 64 (16 * n) → (w.iovAt O op iov j).1 x = w.mem x := by
    intro j
    induction j with
    | zero => exact fun _ x _ => rfl
    | succ j ih =>
      intro hj x hx
      have ih := ih (by omega)
      rw [World.iovAt]
      split
      · exact ih x hx
      next hsize =>
        rw [entryAt_congr hn hj ih]
        cases op with
        | writev => exact ih x hx
        | readv =>
          -- what was read went to a buffer, and no buffer meets the array
          have hout : ¬ x - (entryAt w.mem iov j).1 < BitVec.ofNat 64
              (O.moves (w.iovAt O .readv iov j).2 (entryAt w.mem iov j).2) := by
            have hle := moves_le (O := O) (w.iovAt O .readv iov j).2 (entryAt w.mem iov j).2
            intro hlt
            rcases h with h | h
            · cases h
            · refine h j hj x ?_ hx
              bv_omega
          exact (splice_of_not_lt hout).trans (ih x hx)
  exact entryAt_congr hn hi (hsame i hi.le)

/-! ## The places -/

/-- The places of an entry are its own, -/
lemma mem_places {i n j : Nat} {base x : Word} (h : (j, x) ∈ places i base n) : j = i := by
  obtain ⟨k, -, hk⟩ := List.mem_map.mp h
  exact (congrArg Prod.fst hk).symm

/-- as many as there are bytes, -/
lemma length_places (i : Nat) (base : Word) (n : Nat) : (places i base n).length = n := by
  rw [places, List.length_map, List.length_range]

/-- and none if there are none. -/
lemma places_ne_nil {i n : Nat} {base : Word} : places i base n ≠ [] ↔ n ≠ 0 := by
  rw [← List.length_pos_iff, length_places, Nat.pos_iff_ne_zero]

/-- The first bytes of two buffers are a prefix when they are bytes of one buffer. -/
lemma places_prefix {i m n : Nat} {p q : Word} : places i p m <+: places i q n ↔ (m ≠ 0 → p = q ∧ m ≤ n) := by
  constructor
  · intro h hm
    have hle := h.length_le
    rw [length_places, length_places] at hle
    refine ⟨?_, hle⟩
    have hget := h.getElem (i := 0) (by rw [length_places]; omega)
    simp only [places, List.getElem_map, List.getElem_range, BitVec.add_zero, Prod.mk.injEq] at hget
    exact hget.2
  · intro h
    by_cases hm : m = 0
    · rw [hm]
      exact List.nil_prefix
    · obtain ⟨rfl, hle⟩ := h hm
      have htake : (List.range n).take m = List.range m := by rw [List.take_range, Nat.min_eq_left hle]
      rw [places, ← htake]
      exact (List.take_prefix m _).map _

/-- Places of one entry are the same if they are as many. -/
lemma places_eq {i m n : Nat} {p q : Word} (h : m ≠ 0 → p = q) : places i p m = places i q n ↔ m = n := by
  refine ⟨fun heq => ?_, ?_⟩
  · have hlen := congrArg List.length heq
    rwa [length_places, length_places] at hlen
  · rintro rfl
    by_cases hm : m = 0
    · rw [hm]
      rfl
    · rw [h hm]

/-- The bytes of an entry are moved in order, -/
lemma place_movedAt (i : Nat) :
    (w.movedAt O op iov i).map Moved.place = places i (w.foundEntry O op iov i).1 (w.got O op iov i) := by
  rw [World.movedAt, List.map_map]
  rfl

/-- as many as the host got. -/
lemma length_movedAt (i : Nat) : (w.movedAt O op iov i).length = w.got O op iov i := by
  rw [World.movedAt, List.length_map, List.length_range]

/-- What is moved is a prefix of the buffers when each entry moves what it was to move, without a gap. -/
lemma moved_prefix_iff (n : Nat) :
    ((List.range n).flatMap (w.movedAt O op iov)).map Moved.place <+:
      ((List.range n).flatMap fun i => places i (entryAt w.mem iov i).1 (entryAt w.mem iov i).2.toNat) ↔
    (∀ i < n, w.got O op iov i ≠ 0 → (w.foundEntry O op iov i).1 = (entryAt w.mem iov i).1 ∧
      w.got O op iov i ≤ (entryAt w.mem iov i).2.toNat) ∧
    ∀ i j, i < j → j < n → w.got O op iov j ≠ 0 → w.got O op iov i = (entryAt w.mem iov i).2.toNat := by
  have hmap : ((List.range n).flatMap (w.movedAt O op iov)).map Moved.place =
      (List.range n).flatMap fun i => places i (w.foundEntry O op iov i).1 (w.got O op iov i) := by
    rw [List.map_flatMap]
    simp only [place_movedAt]
  rw [hmap, flatMap_prefix_iff (t := Prod.fst) (fun h => mem_places h) (fun h => mem_places h) List.nodup_range,
    pairwise_range]
  simp only [List.mem_range, places_prefix, places_ne_nil]
  refine and_congr_right fun hasked => ?_
  constructor
  · exact fun h i j hij hj hne => (places_eq fun hi => (hasked i (hij.trans hj) hi).1).mp (h i j hij hj hne)
  · exact fun h i j hij hj hne => (places_eq fun hi => (hasked i (hij.trans hj) hi).1).mpr (h i j hij hj hne)

/-! ## The result -/

/-- A sum of small words does not wrap. -/
lemma sum_toNat {f : Nat → Word} {c : Nat} {l : List Nat} (h : ∀ j ∈ l, (f j).toNat ≤ c)
    (hlen : l.length * c < 2 ^ 64) :
    (l.map f).sum.toNat = (l.map fun j => (f j).toNat).sum ∧ (l.map f).sum.toNat ≤ l.length * c := by
  induction l with
  | nil => exact ⟨rfl, Nat.zero_le _⟩
  | cons i l ih =>
    rw [List.length_cons, Nat.succ_mul] at hlen ⊢
    obtain ⟨heq, hle⟩ := ih (fun j hj => h j (List.mem_cons_of_mem _ hj)) (by omega)
    have hi := h i List.mem_cons_self
    rw [List.map_cons, List.sum_cons, List.map_cons, List.sum_cons, ← heq, BitVec.toNat_add,
      Nat.mod_eq_of_lt (by omega)]
    exact ⟨rfl, by omega⟩

/-- Sums are equal when no summand is larger in one of them. -/
lemma sum_eq_iff {f g : Nat → Nat} {l : List Nat} (h : ∀ j ∈ l, g j ≤ f j) :
    (l.map g).sum ≤ (l.map f).sum ∧ ((l.map f).sum = (l.map g).sum ↔ ∀ j ∈ l, f j = g j) := by
  induction l with
  | nil => exact ⟨le_rfl, iff_of_true rfl fun j hj => absurd hj List.not_mem_nil⟩
  | cons i l ih =>
    obtain ⟨hle, heq⟩ := ih fun j hj => h j (List.mem_cons_of_mem _ hj)
    have hi := h i List.mem_cons_self
    simp only [List.map_cons, List.sum_cons, List.forall_mem_cons]
    rw [← heq]
    omega

/-- Each entry makes at most one call. -/
lemma iovAt_ncall (i : Nat) : w.ncall ≤ (w.iovAt O op iov i).2 ∧ (w.iovAt O op iov i).2 ≤ w.ncall + i := by
  induction i with
  | zero => exact ⟨le_rfl, le_rfl⟩
  | succ i ih =>
    rw [World.iovAt]
    split
    · exact ⟨ih.1, by omega⟩
    · exact ⟨Nat.le_succ_of_le ih.1, Nat.succ_le_succ ih.2⟩

/-- What the loop adds for an entry is not less than what was moved, and no more only if the call told it. -/
lemma answer_toNat {n : Nat} (hcap : ∀ k r, w.ncall ≤ k → k < w.ncall + n → O.ret k = some r → r ≤ 2 ^ 32)
    {i : Nat} (hi : i < n) : (w.answer O op iov i).toNat ≤ 2 ^ 32 ∧ w.got O op iov i ≤ (w.answer O op iov i).toNat ∧
      ((w.answer O op iov i).toNat = w.got O op iov i ↔ w.Told O op iov i) := by
  have hncall : w.ncall ≤ (w.iovAt O op iov i).2 ∧ (w.iovAt O op iov i).2 ≤ w.ncall + i := iovAt_ncall i
  obtain ⟨hlo, hhi⟩ := hncall
  rw [World.answer, World.got, World.Told]
  split
  next hsize => exact ⟨Nat.zero_le _, le_rfl, iff_of_true rfl fun h => absurd hsize h⟩
  next hsize =>
    rw [sizeAnswer, HostOs.moves]
    cases hret : O.ret (w.iovAt O op iov i).2 with
    | none =>
      -- the error of the host is positive, so it is added to the total without anything being moved
      have hpos := O.errno_pos (w.iovAt O op iov i).2
      have hlt := O.errno_lt (w.iovAt O op iov i).2
      have herr : (BitVec.ofInt 64 (tuxerr (O.errno (w.iovAt O op iov i).2))).toNat =
          O.errno (w.iovAt O op iov i).2 := by
        rw [tuxerr, if_pos (Int.natCast_nonneg _), BitVec.ofInt_natCast, BitVec.toNat_ofNat]
        exact Nat.mod_eq_of_lt (by omega)
      dsimp only
      rw [herr]
      refine ⟨by omega, by omega, iff_of_false (by omega) fun h => ?_⟩
      obtain ⟨r, hr, -⟩ := h hsize
      cases hr
    | some r =>
      have hr := hcap _ r hlo (by omega) hret
      have hnat : (BitVec.ofNat 64 r).toNat = r := by
        rw [BitVec.toNat_ofNat]
        exact Nat.mod_eq_of_lt (by omega)
      dsimp only
      rw [hnat]
      refine ⟨hr, Nat.min_le_left _ _, ?_⟩
      constructor
      · exact fun h _ => ⟨r, rfl, by omega⟩
      · intro h
        obtain ⟨r', hr', hle⟩ := h hsize
        cases hr'
        omega

/-- The array is inside the address space. -/
def World.ArrayInside (w : World L M) (iovp iovcnt : Word) : Prop :=
  w.info.base.toNat ≤ iovp.toNat ∧ iovp.toNat + 16 * iovcnt.toNat ≤ w.info.base.toNat + w.info.size.toNat

instance (w : World L M) (iovp iovcnt : Word) : Decidable (w.ArrayInside iovp iovcnt) :=
  inferInstanceAs (Decidable (_ ∧ _))

/-- A vector call is `sysIov`. -/
lemma vec_eq (op : VecOp) (fd : CInt) (iovp iovcnt : Word) :
    op.sys O fd iovp iovcnt = (sysIov (op.io O fd) iovp iovcnt : Sys L M Word) := by
  cases op with
  | writev => rfl
  | readv => rfl

/-- A pointer is used as it was given. -/
lemma aligned_eq {i : LFIAddrSpaceInfo} {p b : Word} (h : alignedTo 8 (lfiAsFmptr i p) = some b) : b = p := by
  cases hp : lfiAsFmptr i p with
  | none =>
    rw [hp] at h
    cases h
  | some q =>
    rw [hp, alignedTo] at h
    split at h
    · cases h
    · cases h
      exact (fmptr_some hp).1

/-- An array that is refused. -/
lemma vec_refused {iovp iovcnt : Word} (h : alignedTo 8 (lfiAsFmptr w.info iovp) = none) :
    VecContract O op fd iovp iovcnt w := by
  have hrun : ((op.sys O fd iovp iovcnt).run w).val = .ok (negErr TUX_EFAULT) ∧
      ((op.sys O fd iovp iovcnt).run w).st = w := by
    rw [vec_eq, sysIov, Exec.bind_run, ask_run, Exec.andThen_ok, Exec.bind_run, procbufalign_run, Exec.andThen_ok, h]
    dsimp only
    rw [Exec.pure_run]
    exact ⟨rfl, rfl⟩
  have hmoved : w.vecMoved O op fd iovp iovcnt = [] := by rw [World.vecMoved, h]
  rw [VecContract, hrun.1, hrun.2, hmoved]
  refine ⟨?_, _, rfl, fun _ => rfl, fun hv => absurd hv (by decide)⟩
  cases op with
  | writev => exact ⟨rfl, fun x hx => absurd hx List.not_mem_nil⟩
  | readv => rfl

/-- The contract of an array that is accepted is one of the loop. -/
lemma vec_accepted {iovp iovcnt : Word} (h : alignedTo 8 (lfiAsFmptr w.info iovp) = some iovp) {m : Nat}
    {val : Except Stop Word} (hval : ((iovLoop (op.io O fd) iovp iovcnt.toNat 0 0).run w).val = val)
    (hat : AtEntry O op iovp w m ((iovLoop (op.io O fd) iovp iovcnt.toNat 0 0).run w).st)
    (hmoved : iovMoved O op fd iovp iovcnt.toNat 0 w = (List.range m).flatMap (w.movedAt O op iovp)) :
    VecContract O op fd iovp iovcnt w ↔ ∃ v, val = .ok v ∧
      (v.msb = true → (List.range m).flatMap (w.movedAt O op iovp) = []) ∧
      (v.msb = false → ((List.range m).flatMap (w.movedAt O op iovp)).map Moved.place <+: w.vecGiven iovp iovcnt ∧
        v.toNat = ((List.range m).flatMap (w.movedAt O op iovp)).length) := by
  have hrun : ((op.sys O fd iovp iovcnt).run w).val = val ∧
      ((op.sys O fd iovp iovcnt).run w).st = ((iovLoop (op.io O fd) iovp iovcnt.toNat 0 0).run w).st := by
    rw [vec_eq, sysIov, Exec.bind_run, ask_run, Exec.andThen_ok, Exec.bind_run, procbufalign_run, Exec.andThen_ok, h]
    exact ⟨hval, rfl⟩
  have hlist : w.vecMoved O op fd iovp iovcnt = (List.range m).flatMap (w.movedAt O op iovp) := by
    rw [World.vecMoved, h]
    exact hmoved
  rw [VecContract, hrun.1, hrun.2, hlist, hat.mem]
  exact and_iff_right (movedBytes_range m)

/-- An array whose first refused entry is `m`. -/
lemma refused_iff {n m : Nat} (hm : m < n) (hall : ∀ j < m, ¬ w.Refused O op fd iov j)
    (hrefused : w.Refused O op fd iov m) :
    (List.range m).flatMap (w.movedAt O op iov) = [] ↔ VecRefused O op fd iov n w ∨ VecKeeps O op fd iov n w := by
  have hnil : (List.range m).flatMap (w.movedAt O op iov) = [] ↔ ∀ i < m, w.got O op iov i = 0 := by
    rw [List.flatMap_eq_nil_iff]
    simp only [List.mem_range, ← List.length_eq_zero_iff, length_movedAt]
  rw [hnil]
  constructor
  · exact fun h => .inl ⟨m, hm, hrefused, fun i hi => ⟨hall i hi, h i hi⟩⟩
  · rintro (⟨m', hm', hrefused', hbefore⟩ | hkeeps)
    · have heq : m' = m := by
        rcases Nat.lt_trichotomy m' m with hlt | heq | hlt
        · exact absurd hrefused' (hall m' hlt)
        · exact heq
        · exact absurd hrefused (hbefore m hlt).1
      rw [heq] at hbefore
      exact fun i hi => (hbefore i hi).2
    · exact absurd hrefused (hkeeps.accepted m hm)

/-- An array none of whose entries is refused. -/
lemma all_iff {iovcnt : Word} (hn : iovcnt.toNat ≤ 2 ^ 28)
    (hcap : ∀ k r, w.ncall ≤ k → k < w.ncall + iovcnt.toNat → O.ret k = some r → r ≤ 2 ^ 32)
    (hall : ∀ j < iovcnt.toNat, ¬ w.Refused O op fd iov j) {v : Word}
    (hv : v = ((List.range iovcnt.toNat).map (w.answer O op iov)).sum) :
    v.msb = false ∧
      (((List.range iovcnt.toNat).flatMap (w.movedAt O op iov)).map Moved.place <+: w.vecGiven iov iovcnt ∧
        v.toNat = ((List.range iovcnt.toNat).flatMap (w.movedAt O op iov)).length ↔
      VecRefused O op fd iov iovcnt.toNat w ∨ VecKeeps O op fd iov iovcnt.toNat w) := by
  have hanswer : ∀ j ∈ List.range iovcnt.toNat, (w.answer O op iov j).toNat ≤ 2 ^ 32 ∧
      w.got O op iov j ≤ (w.answer O op iov j).toNat ∧
      ((w.answer O op iov j).toNat = w.got O op iov j ↔ w.Told O op iov j) :=
    fun j hj => answer_toNat hcap (List.mem_range.mp hj)
  obtain ⟨hsum, hbound⟩ := sum_toNat (f := w.answer O op iov) (fun j hj => (hanswer j hj).1)
    (by rw [List.length_range]; omega)
  rw [List.length_range] at hbound
  have hlen : ((List.range iovcnt.toNat).flatMap (w.movedAt O op iov)).length =
      ((List.range iovcnt.toNat).map (w.got O op iov)).sum := by
    rw [List.length_flatMap]
    simp only [length_movedAt]
  have htold : v.toNat = ((List.range iovcnt.toNat).map (w.got O op iov)).sum ↔
      ∀ j < iovcnt.toNat, w.Told O op iov j := by
    rw [hv, hsum, (sum_eq_iff fun j hj => (hanswer j hj).2.1).2]
    refine ⟨fun h j hj => ?_, fun h j hj => (hanswer j hj).2.2.mpr (h j (List.mem_range.mp hj))⟩
    exact (hanswer j (List.mem_range.mpr hj)).2.2.mp (h j (List.mem_range.mpr hj))
  refine ⟨?_, ?_⟩
  · rw [BitVec.msb_eq_decide, decide_eq_false_iff_not, hv]
    omega
  · rw [hlen, htold, World.vecGiven, moved_prefix_iff]
    constructor
    · rintro ⟨⟨hasked, hgap⟩, htold⟩
      exact .inr ⟨hall, htold, hasked, hgap⟩
    · rintro (⟨m, hm, hrefused, -⟩ | hkeeps)
      · exact absurd hrefused (hall m hm)
      · exact ⟨⟨hkeeps.asked, hkeeps.noGap⟩, hkeeps.told⟩

end
end

/-- A vectored call moves a prefix of its buffers exactly when its array is refused, or an entry is before
anything was moved, or all entries are moved as they should be. The array is in the address space, and a call of
the host moves no more than an address space holds. -/
theorem iov_contract_iff {L : LibMMap} {M : Machine} (O : HostOs) (op : VecOp) (fd : CInt) {iovp iovcnt : Word}
    {w : World L M} (harray : w.ArrayInside iovp iovcnt)
    (hcap : ∀ k r, w.ncall ≤ k → k < w.ncall + iovcnt.toNat → O.ret k = some r → r ≤ 2 ^ 32) :
    VecContract O op fd iovp iovcnt w ↔ alignedTo 8 (lfiAsFmptr w.info iovp) = none ∨
      VecRefused O op fd iovp iovcnt.toNat w ∨ VecKeeps O op fd iovp iovcnt.toNat w := by
  cases halign : alignedTo 8 (lfiAsFmptr w.info iovp) with
  | none => exact iff_of_true (vec_refused halign) (.inl rfl)
  | some iov =>
    have hiov : iov = iovp := aligned_eq halign
    rw [hiov] at halign
    rw [or_iff_right (Option.some_ne_none _)]
    have hstart : AtEntry O op iovp w 0 w := .start w
    obtain ⟨m, hall, hend, hat, hmoved⟩ := @iovLoop_run L M O op fd iovp w iovcnt.toNat 0 0 w hstart
    rw [Nat.zero_add] at hall hat
    rw [← List.range_eq_range'] at hmoved
    have hall : ∀ j < m, ¬ w.Refused O op fd iovp j := fun j hj => hall j (Nat.zero_le j) hj
    generalize hval : ((iovLoop (op.io O fd) iovp iovcnt.toNat 0 0).run w).val = val at hend
    rw [vec_accepted halign hval hat hmoved]
    cases hend with
    | @refused v hm hrefused hv =>
      rw [Nat.zero_add] at hrefused
      rw [← refused_iff hm hall hrefused]
      constructor
      · rintro ⟨v', hv', hneg, -⟩
        cases hv'
        exact hneg hv
      · refine fun h => ⟨v, rfl, fun _ => h, fun hpos => ?_⟩
        rw [hv] at hpos
        cases hpos
    | all heq =>
      have hn : iovcnt.toNat ≤ 2 ^ 28 := by
        have := harray.2
        rw [w.info.size_toNat] at this
        have := harray.1
        omega
      have hzero : ∀ x : Word, (0 : Word) + x = x := BitVec.zero_add
      rw [heq] at hall ⊢
      rw [hzero, ← List.range_eq_range']
      obtain ⟨hpos, hiff⟩ := @all_iff L M O op fd iovp w iovcnt hn hcap hall _ rfl
      rw [← hiff]
      constructor
      · rintro ⟨v', hv', -, hend⟩
        cases hv'
        exact hend hpos
      · refine fun h => ⟨_, rfl, fun hneg => ?_, fun _ => h⟩
        rw [hpos] at hneg
        cases hneg

/-- Two buffers of four bytes, in an array at the start of the sandbox. -/
def World.twoBuffers : World .ofRanges .x64 :=
  let w := World.withFiles ((Tux.opened 0).procs 0) (Tux.opened 0).files
  w.setMem (putWords w.mem w.info.minaddr [w.info.minaddr + 64, 4, w.info.minaddr + 128, 4])

/-- A host whose first call moves `n` bytes, and all others four. -/
def HostOs.firstOf (n : Nat) (h : n < 2 ^ 63) : HostOs :=
  { HostOs.plain with
    ret := fun k => some (if k = 0 then n else 4)
    ret_lt := fun {k r} hr => by
      cases hr
      split
      · exact h
      · decide }

/-- Its entries. -/
lemma twoBuffers_entry {i : Nat} (hi : i < 2) :
    entryAt World.twoBuffers.mem LFIAddrSpaceInfo.plain.minaddr i =
      (LFIAddrSpaceInfo.plain.minaddr + 64 * BitVec.ofNat 64 (i + 1), 4) := by
  have hmem : ∀ k (hk : k < 4),
      le World.twoBuffers.mem (LFIAddrSpaceInfo.plain.minaddr + 8 * BitVec.ofNat 64 k) 8 64 =
      [LFIAddrSpaceInfo.plain.minaddr + 64, 4, LFIAddrSpaceInfo.plain.minaddr + 128, 4][k] :=
    fun k hk => le_putWords (by decide) hk
  obtain rfl | rfl : i = 0 ∨ i = 1 := by omega
  · exact Prod.ext (hmem 0 (by decide)) (hmem 1 (by decide))
  · exact Prod.ext (hmem 2 (by decide)) (hmem 3 (by decide))

/-- Two full transfers of four bytes. -/
theorem iov_contract_full :
    VecContract (.firstOf 4 (by decide)) .writev 1 LFIAddrSpaceInfo.plain.minaddr 2 World.twoBuffers := by
  have hfound : ∀ i < 2,
      World.twoBuffers.foundEntry (.firstOf 4 (by decide)) .writev LFIAddrSpaceInfo.plain.minaddr i =
      (LFIAddrSpaceInfo.plain.minaddr + 64 * BitVec.ofNat 64 (i + 1), 4) :=
    fun i hi => (found_apart (by decide) (.inl rfl) hi).trans (twoBuffers_entry hi)
  have hret : ∀ k, (HostOs.firstOf 4 (by decide)).ret k = some 4 := fun k => congrArg some (ite_self 4)
  have hgot : ∀ i < 2,
      World.twoBuffers.got (.firstOf 4 (by decide)) .writev LFIAddrSpaceInfo.plain.minaddr i = 4 := by
    intro i hi
    rw [World.got, hfound i hi, HostOs.moves, hret]
    rfl
  refine (iov_contract_iff (.firstOf 4 (by decide)) .writev 1 (w := World.twoBuffers) (by decide +kernel) ?_).mpr
    (.inr (.inr ⟨fun i hi hrefused => ?_, fun i hi _ => ⟨4, hret _, ?_⟩, fun i hi _ => ⟨?_, ?_⟩,
      fun i j hij hj _ => ?_⟩))
  · intro k r _ _ hr
    rw [hret] at hr
    cases hr
    decide
  · obtain ⟨-, hno⟩ := hrefused
    rw [hfound i hi] at hno
    have hhandles : World.twoBuffers.handles 1 (VecOp.file .writev) = true := by decide +kernel
    have hinside : ∀ i < 2, lfiAsFmptr World.twoBuffers.info
        (LFIAddrSpaceInfo.plain.minaddr + 64 * BitVec.ofNat 64 (i + 1)) ≠ none := by decide +kernel
    rw [hhandles] at hno
    exact hno.elim Bool.noConfusion (hinside i hi)
  · rw [hfound i hi]
    exact Nat.le_refl 4
  · rw [hfound i hi, twoBuffers_entry hi]
  · rw [hgot i hi, twoBuffers_entry hi]
    exact Nat.le_refl 4
  · rw [hgot i (hij.trans hj), twoBuffers_entry (hij.trans hj)]
    rfl

/-- After a short transfer the loop goes on with the next buffer. -/
theorem iov_gap :
    ¬ VecContract (.firstOf 2 (by decide)) .writev 1 LFIAddrSpaceInfo.plain.minaddr 2 World.twoBuffers := by
  rintro ⟨-, v, hv, -, hpos⟩
  have hval : ((sysWritev (.firstOf 2 (by decide)) 1 LFIAddrSpaceInfo.plain.minaddr 2).run World.twoBuffers).val =
      .ok 6 := by decide +kernel
  have hsix : v = 6 := Except.ok.inj (hv.symm.trans hval)
  have hprefix := (hpos (by rw [hsix]; decide)).1
  exact absurd hprefix (by decide +kernel)

end Libtux
