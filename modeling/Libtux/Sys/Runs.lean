import Libtux.Sys.Dispatch

/-!
# How the parts of a system call run

One equation for each accessor of `src/syscalls/syscalls.h`, for the lookup of a descriptor or of a
directory, and for each host wrapper. The results about system calls use these and do not unfold the
definitions.
-/

namespace Libtux
open Lib

section
variable {L : LibMMap} {M : Machine} {O : HostOs}

/-- A range is asked for, -/
lemma ask_run (ptr : Word) (len : Nat) (w : World L M) :
    (ask ptr len).run w = ⟨.ok (), w, [.ask ⟨ptr, len⟩]⟩ := by
  rw [ask, Exec.tell_run]

/-- or touched. -/
lemma touch_run (ptr : Word) (len : Nat) (w : World L M) :
    (touch ptr len).run w = ⟨.ok (), w, [.touch ⟨ptr, len⟩]⟩ := by
  rw [touch, Exec.tell_run]

/-! ## Accessors -/

/-- What `procbuf` does. -/
lemma procbuf_run (bufp size : Word) (w : World L M) :
    (procbuf bufp size).run w = ⟨.ok (lfiAsFmptr w.info bufp), w, [.ask ⟨bufp, size.toNat⟩]⟩ := by
  rw [procbuf, Exec.bind_run, ask_run, Exec.andThen_ok, Exec.gets_run, List.append_nil]

/-- The pointer that `procbufalign` returns for the one that `lfi_as_fmptr` returned. -/
def alignedTo (align : Nat) : Option Word → Option Word
  | none => none
  | some buf => if buf.toNat % align ≠ 0 then none else some buf

/-- What `procbufalign` does. -/
lemma procbufalign_run (bufp size : Word) (align : Nat) (w : World L M) :
    (procbufalign bufp size align).run w =
      ⟨.ok (alignedTo align (lfiAsFmptr w.info bufp)), w, [.ask ⟨bufp, size.toNat⟩]⟩ := by
  rw [procbufalign, Exec.bind_run, ask_run, Exec.andThen_ok, Exec.gets_run, List.append_nil]
  cases lfiAsFmptr w.info bufp with
  | none => rfl
  | some buf => rfl

/-- Where `strnlen` stops in a path. -/
def World.pathEnd (w : World L M) (str : Word) : Word :=
  str + BitVec.ofNat 64 (strnlenAt w.mem str TUX_PATH_MAX)

/-- The path that `procpath` returns for the pointer that `lfi_as_fmptr` returned. -/
def World.pathTo (w : World L M) : Option Word → Option Word
  | none => none
  | some str =>
    if w.pathEnd str ≥ w.info.maxaddr then none
    else if w.mem (w.pathEnd str) ≠ 0 then none
    else some str

/-- What `procpath` reads. -/
def World.pathReads (w : World L M) : Option Word → List Ev
  | none => []
  | some str =>
    .touch ⟨str, min (strnlenAt w.mem str TUX_PATH_MAX + 1) TUX_PATH_MAX⟩ ::
      if w.pathEnd str ≥ w.info.maxaddr then [] else [.touch ⟨w.pathEnd str, 1⟩]

/-- The path that `procpath` accepts. -/
def World.path (w : World L M) (pathp : Word) : Option Word := w.pathTo (lfiAsFmptr w.info pathp)

/-- What `procpath` does. -/
lemma procpath_run (pathp : Word) (w : World L M) :
    (procpath pathp).run w = ⟨.ok (w.path pathp), w, w.pathReads (lfiAsFmptr w.info pathp)⟩ := by
  rw [procpath, Exec.bind_run, Exec.get_run, Exec.andThen_ok_nil, World.path]
  cases lfiAsFmptr w.info pathp with
  | none => rw [Exec.pure_run, World.pathTo, World.pathReads]
  | some str =>
    rw [World.pathTo, World.pathReads]
    dsimp only
    rw [Exec.bind_run, touch_run, Exec.andThen_ok, ← World.pathEnd]
    by_cases hmax : w.pathEnd str ≥ w.info.maxaddr
    · rw [if_pos hmax, if_pos hmax, if_pos hmax, Exec.pure_run]
      rfl
    · rw [if_neg hmax, if_neg hmax, if_neg hmax, Exec.bind_run, touch_run, Exec.andThen_ok]
      by_cases hnul : w.mem (w.pathEnd str) ≠ 0
      · rw [if_pos hnul, if_pos hnul, Exec.pure_run]
        rfl
      · rw [if_neg hnul, if_neg hnul, Exec.pure_run]
        rfl

/-- A pointer that is accepted is in the sandbox. -/
lemma fmptr_some {i : LFIAddrSpaceInfo} {p b : Word} (h : lfiAsFmptr i p = some b) :
    b = p ∧ i.minaddr ≤ p ∧ p < i.maxaddr := by
  unfold lfiAsFmptr at h
  split at h
  next hin =>
    cases h
    exact ⟨rfl, hin⟩
  next => cases h

/-- A path is found where its pointer is, -/
lemma pathTo_some {w : World L M} {o : Option Word} {str : Word} (h : w.pathTo o = some str) : o = some str := by
  cases o with
  | none => cases h
  | some b =>
    rw [World.pathTo] at h
    split at h
    · cases h
    · split at h
      · cases h
      · exact h

/-- which is what was given. -/
lemma World.path_eq {w : World L M} {p str : Word} (h : w.path p = some str) : str = p :=
  (fmptr_some (pathTo_some h)).1

/-- Only the thread matters for paths. -/
lemma World.path_congr {w w' : World L M} (h : w.p = w'.p) (pathp : Word) : w.path pathp = w'.path pathp := by
  have hmem : w.mem = w'.mem := congrArg (fun p => p.as.mem) h
  have hinfo : w.info = w'.info := congrArg (fun p => p.as.info) h
  have hend : w.pathEnd = w'.pathEnd := by
    funext str
    rw [World.pathEnd, World.pathEnd, hmem]
  rw [World.path, World.path, hinfo]
  cases lfiAsFmptr w'.info pathp with
  | none => rfl
  | some str => rw [World.pathTo, World.pathTo, hmem, hinfo, hend]

/-! ## Host wrappers -/

/-- What a wrapper returns that passes on the host's result. -/
def sizeAnswer (O : HostOs) (k : Nat) : Word :=
  match O.ret k with
  | none => BitVec.ofInt 64 (tuxerr (O.errno k))
  | some r => BitVec.ofNat 64 r

/-- What a wrapper returns that returns `0` on success. -/
def intAnswer (O : HostOs) (k : Nat) : Word :=
  match O.ret k with
  | none => BitVec.ofInt 64 (tuxerr (O.errno k))
  | some _ => 0

/-- A call of the host that answers a size, -/
lemma hostSize_run (w : World L M) :
    (hostSize O).run w = ⟨.ok (sizeAnswer O w.ncall), w.called, []⟩ := by
  rw [hostSize, Exec.bind_run, Exec.gets_run, Exec.andThen_ok_nil, Exec.bind_run, hostCall_run,
    Exec.andThen_ok_nil, sizeAnswer]
  cases O.ret w.ncall with
  | none => rw [Exec.pure_run]
  | some r => rw [Exec.pure_run]

/-- and one that answers an `int`. -/
lemma hostInt_run (w : World L M) :
    (hostInt O).run w = ⟨.ok (intAnswer O w.ncall), w.called, []⟩ := by
  rw [hostInt, Exec.bind_run, Exec.gets_run, Exec.andThen_ok_nil, Exec.bind_run, hostCall_run,
    Exec.andThen_ok_nil, intAnswer]
  cases O.ret w.ncall with
  | none => rw [Exec.pure_run]
  | some r => rw [Exec.pure_run]

/-- A wrapper never returns a negative value: its errors are error numbers, not negated. -/
lemma sizeAnswer_msb (k : Nat) : (sizeAnswer O k).msb = false := by
  rw [BitVec.msb_eq_decide]
  simp only [decide_eq_false_iff_not, not_le]
  unfold sizeAnswer
  cases hr : O.ret k with
  | none =>
    have := O.errno_lt k
    have herr : tuxerr (O.errno k) = O.errno k := if_pos (Int.natCast_nonneg _)
    rw [herr, BitVec.ofInt_natCast]
    simp only [BitVec.toNat_ofNat]
    omega
  | some r =>
    have := O.ret_lt hr
    simp only [BitVec.toNat_ofNat]
    omega

/-- Its answer is not negative. -/
lemma intAnswer_msb (k : Nat) : (intAnswer O k).msb = false := by
  have hsize := sizeAnswer_msb (O := O) k
  unfold intAnswer
  unfold sizeAnswer at hsize
  cases hr : O.ret k with
  | none =>
    rw [hr] at hsize
    exact hsize
  | some r => exact BitVec.msb_zero

/-- The world after a host call stored its bytes. -/
def World.filled (w : World L M) (O : HostOs) (ptr len : Word) : World L M :=
  match O.ret w.ncall with
  | none => w
  | some r => w.fill O ptr (BitVec.ofNat 64 (min r len.toNat))

/-- To fill a buffer is no other call. -/
lemma World.filled_ncall (w : World L M) (ptr len : Word) : (w.filled O ptr len).ncall = w.ncall := by
  unfold World.filled
  cases O.ret w.ncall with
  | none => rfl
  | some r => rfl

/-- A call of the host that fills a buffer. -/
lemma hostFill_run (ptr len : Word) (w : World L M) :
    (hostFill O ptr len).run w =
      ⟨.ok (sizeAnswer O w.ncall), (w.filled O ptr len).called, [.touch ⟨ptr, len.toNat⟩]⟩ := by
  have hsize : (hostSize O).run (w.filled O ptr len) =
      ⟨.ok (sizeAnswer O w.ncall), (w.filled O ptr len).called, []⟩ := by
    rw [hostSize_run, World.filled_ncall]
  rw [hostFill, Exec.bind_run, touch_run, Exec.andThen_ok, Exec.bind_run, Exec.get_run,
    Exec.andThen_ok_nil]
  unfold World.filled at hsize ⊢
  cases hret : O.ret w.ncall with
  | none =>
    rw [hret] at hsize
    dsimp only at hsize ⊢
    rw [hsize, List.append_nil]
  | some r =>
    rw [hret] at hsize
    dsimp only at hsize ⊢
    rw [Exec.bind_run, Exec.modify_run, Exec.andThen_ok_nil, hsize, List.append_nil]

/-- The world after `host_getpath` stored the path. -/
def World.gotPath (w : World L M) (O : HostOs) (dir : Option HostFile) (buf size : Word) : World L M :=
  match O.ret w.ncall, dir with
  | none, _ => w
  | some _, none => w.fill O buf size
  | some r, some _ =>
    let r := BitVec.ofNat 64 (min r (size - 1).toNat)
    (w.fill O buf r).setMem (splice (w.fill O buf r).mem (buf + r) 1 fun _ => 0)

/-- What `host_getpath` touches. -/
def getpathTouches (O : HostOs) (k : Nat) (dir : Option HostFile) (buf size : Word) : List Ev :=
  match dir, O.ret k with
  | none, _ => [.touch ⟨buf, size.toNat⟩]
  | some _, none => [.touch ⟨buf, (size - 1).toNat⟩]
  | some _, some r =>
    [.touch ⟨buf, (size - 1).toNat⟩, .touch ⟨buf + BitVec.ofNat 64 (min r (size - 1).toNat), 1⟩]

/-- What `host_getpath` does. -/
lemma hostGetpath_run (dir : Option HostFile) (buf size : Word) (w : World L M) :
    (hostGetpath O dir buf size).run w = ⟨.ok (intAnswer O w.ncall), (w.gotPath O dir buf size).called,
      getpathTouches O w.ncall dir buf size⟩ := by
  rw [hostGetpath, Exec.bind_run, Exec.get_run, Exec.andThen_ok_nil]
  unfold World.gotPath getpathTouches
  cases dir with
  | none =>
    dsimp only
    rw [Exec.bind_run, touch_run, Exec.andThen_ok]
    cases hret : O.ret w.ncall with
    | none =>
      rw [if_neg (by decide), hostInt_run, List.append_nil]
    | some r =>
      rw [if_pos (Option.isSome_some), Exec.bind_run, Exec.modify_run, Exec.andThen_ok_nil, hostInt_run,
        List.append_nil]
      rfl
  | some d =>
    dsimp only
    rw [Exec.bind_run, touch_run, Exec.andThen_ok]
    cases hret : O.ret w.ncall with
    | none =>
      dsimp only
      rw [hostInt_run, List.append_nil]
    | some r =>
      dsimp only
      rw [Exec.bind_run, Exec.modify_run, Exec.andThen_ok_nil, Exec.bind_run, touch_run, Exec.andThen_ok,
        Exec.bind_run, Exec.modify_run, Exec.andThen_ok_nil, hostInt_run]
      rfl

/-! ## Descriptors -/

/-- Does a descriptor have a handler? -/
def World.handles (w : World L M) (fd : CInt) (op : FileOp) : Bool :=
  match w.fdfile fd with
  | none => false
  | some f => f.has op

/-- What is done with a handler, or without one. -/
lemma withHandler_run (fd : CInt) (op : FileOp) (e : Nat) (body : Sys L M Word) (w : World L M) :
    (withHandler fd op e body).run w =
      if w.handles fd op then body.run w
      else ⟨.ok (if w.fdfile fd = none then negErr TUX_EBADF else negErr e), w, []⟩ := by
  rw [withHandler, Exec.bind_run, Exec.get_run, Exec.andThen_ok_nil, World.handles]
  cases w.fdfile fd with
  | none => rw [if_neg Bool.false_ne_true, if_pos rfl, Exec.pure_run]
  | some f =>
    dsimp only
    rw [Exec.ite_run, Exec.pure_run, if_neg (Option.some_ne_none f)]

/-- How many host calls it takes to look up a directory. -/
def World.lookups (w : World L M) (dirfd : CInt) : Nat :=
  if dirfd ≠ TUX_AT_FDCWD ∧ w.handles dirfd .file = true then 1 else 0

/-- The directory that `getfdir` finds. -/
def World.dir (w : World L M) (O : HostOs) (dirfd : CInt) : Option (Option HostFile) :=
  if dirfd = TUX_AT_FDCWD then some w.fds.cwd.file
  else
    match w.fdfile dirfd with
    | none => none
    | some f => if f.has .file then if O.isdir w.ncall then some (some f.file) else none else none

/-- The world after `k` host calls that change nothing else. -/
def World.calls (w : World L M) (k : Nat) : World L M := { w with ncall := w.ncall + k }

/-- Calls are counted. -/
lemma World.calls_ncall (w : World L M) (k : Nat) : (w.calls k).ncall = w.ncall + k := rfl

/-- Whether a file is a directory. -/
lemma hostIsdir_run (w : World L M) : (hostIsdir O).run w = ⟨.ok (O.isdir w.ncall), w.calls 1, []⟩ := by
  rw [hostIsdir, Exec.mk_run]
  rfl

/-- What `getfdir` does. -/
lemma getfdir_run (dirfd : CInt) (w : World L M) :
    (getfdir O dirfd).run w = ⟨.ok (w.dir O dirfd), w.calls (w.lookups dirfd), []⟩ := by
  rw [getfdir, Exec.get_ite_run, World.dir, World.lookups, World.handles]
  split
  next hcwd =>
    rw [if_neg fun h => h.1 hcwd, Exec.pure_run]
    rfl
  next hcwd =>
    cases w.fdfile dirfd with
    | none =>
      rw [if_neg fun h => Bool.false_ne_true h.2, Exec.pure_run]
      rfl
    | some f =>
      dsimp only
      rw [Exec.ite_run]
      by_cases hfile : f.has .file = true
      · have hone : dirfd ≠ TUX_AT_FDCWD ∧ f.has .file = true := ⟨hcwd, hfile⟩
        rw [if_pos hone, if_pos hfile, if_pos hfile, Exec.bind_run, hostIsdir_run, Exec.andThen_ok_nil,
          Exec.ite_run, Exec.pure_run, Exec.pure_run]
        split <;> rfl
      · have hzero : ¬ (dirfd ≠ TUX_AT_FDCWD ∧ f.has .file = true) := fun h => hfile h.2
        rw [if_neg hzero, if_neg hfile, if_neg hfile, Exec.pure_run]
        rfl

end
end Libtux
