import Libtux.Sys.Runs
import Libtux.Sys.Heap
import Mathlib.Data.BitVec

/-!
# How host errors are reported

A system call that ends in a host wrapper should answer with the host's result, and with the negated
error number when the host call failed. The wrappers of `src/host` pass `errno` to `tuxerr` as it is,
which returns a positive number unchanged, so that a failure comes back as a positive result, and the
tests for a negative result around them are never taken. The futex wrappers and `host_sched_yield`
return the `-1` of libc, and `sys_clock_gettime` and `sys_ioctl`, which call the host themselves, negate
`errno`.

* `EndsAt` and its rules (`ends_bind`, `ends_handler`, `ends_path`, `ends_dir`, …) find the host call a
  system call ends in; `sysRead_ends` and the lemmas after it apply them to each call.
* `iovLoop_sum` is the total of the vector calls, by induction over the entries.
* `Sysno.prescribed` is the convention and `host_errors_reported` says when the value in the guest's
  return register is the one it prescribes.
-/

namespace Libtux
open Lib

section
variable {L : LibMMap} {M : Machine} {H : HostVm} {O : HostOs} {opts : TuxOptions}

/-- When `x` returns, at most `low` host calls were made in all, or exactly `high`, and then it returns
`ans`. -/
def EndsAt (x : Sys L M Word) (w : World L M) (low high : Nat) (ans : Word) : Prop :=
  ∀ v w' out, x.run w = ⟨.ok v, w', out⟩ → w'.ncall ≤ low ∨ w'.ncall = high ∧ v = ans

/-- `x` returns before the host call `first`, or makes it as its last and returns `ans`. -/
abbrev Ends (x : Sys L M Word) (w : World L M) (first : Nat) (ans : Word) : Prop :=
  EndsAt x w first (first + 1) ans

section
variable {α : Type} {w w₁ : World L M} {low high : Nat} {ans : Word}

/-- A value, when no call of the host is due any more. -/
lemma ends_pure (v : Word) (hn : w.ncall ≤ low) : EndsAt (pure v) w low high ans := by
  intro v' w' out h
  rw [Exec.pure_run] at h
  injection h with _ hw
  exact .inl (hw ▸ hn)

/-- A part that returned. -/
lemma ends_bind {x : Sys L M α} {f : α → Sys L M Word} {a : α} {l : List Ev}
    (hx : x.run w = ⟨.ok a, w₁, l⟩) (h : EndsAt (f a) w₁ low high ans) : EndsAt (x >>= f) w low high ans := by
  intro v w' out hrun
  rw [Exec.bind_run, hx, Exec.andThen_ok] at hrun
  injection hrun with hv hw
  exact h v w' ((f a).run w₁).out (by rw [← hv, ← hw])

/-- Two branches. -/
lemma ends_ite {p : Prop} [Decidable p] {x y : Sys L M Word} (hx : EndsAt x w low high ans)
    (hy : EndsAt y w low high ans) : EndsAt (if p then x else y) w low high ans := by
  split
  · exact hx
  · exact hy

/-- A handler, which is refused before any call. -/
lemma ends_handler {fd : CInt} {op : FileOp} {e : Nat} {body : Sys L M Word} (hn : w.ncall ≤ low)
    (h : EndsAt body w low high ans) : EndsAt (withHandler fd op e body) w low high ans := by
  intro v w' out hrun
  rw [withHandler_run] at hrun
  split at hrun
  · exact h v w' out hrun
  · injection hrun with _ hw
    exact .inl (hw ▸ hn)

/-- An accessor that may refuse. -/
lemma ends_option {x : Sys L M (Option α)} {f : Option α → Sys L M Word} {o : Option α} {l : List Ev}
    {e : Word} (hx : x.run w = ⟨.ok o, w₁, l⟩) (hn : w₁.ncall ≤ low) (hnone : f none = pure e)
    (hsome : ∀ a, EndsAt (f (some a)) w₁ low high ans) : EndsAt (x >>= f) w low high ans := by
  apply ends_bind hx
  cases o with
  | none =>
    rw [hnone]
    exact ends_pure e hn
  | some a => exact hsome a

/-- A path that may be refused. -/
lemma ends_path {pathp : Word} {f : Word → Sys L M Word} (hn : w.ncall ≤ low)
    (h : ∀ p, EndsAt (f p) w low high ans) : EndsAt (withPath pathp f) w low high ans := by
  unfold withPath
  exact ends_option (procpath_run pathp w) hn rfl h

/-- A directory that may be refused, after it was looked up. -/
lemma ends_dir {dirfd : CInt} {f : Option HostFile → Sys L M Word}
    (hn : w.ncall + w.lookups dirfd ≤ low)
    (h : ∀ d, EndsAt (f d) (w.calls (w.lookups dirfd)) low high ans) :
    EndsAt (withDir O dirfd f) w low high ans := by
  unfold withDir
  exact ends_option (getfdir_run dirfd w) hn rfl h

/-- The last call of the host answers, -/
lemma ends_hostInt : Ends (hostInt O) w w.ncall (intAnswer O w.ncall) := by
  intro v w' out h
  rw [hostInt_run] at h
  injection h with hv hw
  exact .inr ⟨hw ▸ rfl, (Except.ok.inj hv).symm⟩

/-- by a size -/
lemma ends_hostSize : Ends (hostSize O) w w.ncall (sizeAnswer O w.ncall) := by
  intro v w' out h
  rw [hostSize_run] at h
  injection h with hv hw
  exact .inr ⟨hw ▸ rfl, (Except.ok.inj hv).symm⟩

/-- or by what it filled. -/
lemma ends_hostFill {ptr len : Word} : Ends (hostFill O ptr len) w w.ncall (sizeAnswer O w.ncall) := by
  intro v w' out h
  rw [hostFill_run] at h
  injection h with hv hw
  refine .inr ⟨?_, (Except.ok.inj hv).symm⟩
  rw [← hw, World.called, World.filled_ncall]

/-! ## What the calls end in -/

/-- `sys_write` answers what the host did. -/
lemma sysWrite_ends (fd : CInt) (bufp size : Word) :
    Ends (sysWrite O fd bufp size) w w.ncall (sizeAnswer O w.ncall) := by
  unfold sysWrite
  apply ends_ite (ends_pure 0 le_rfl)
  apply ends_handler le_rfl
  apply ends_option (procbuf_run bufp size w) le_rfl rfl
  intro buf
  exact ends_bind (touch_run buf size.toNat w) ends_hostSize

/-- `sys_read` does. -/
lemma sysRead_ends (fd : CInt) (bufp size : Word) :
    Ends (sysRead O fd bufp size) w w.ncall (sizeAnswer O w.ncall) := by
  unfold sysRead
  apply ends_ite (ends_pure 0 le_rfl)
  apply ends_handler le_rfl
  apply ends_option (procbuf_run bufp size w) le_rfl rfl
  intro buf
  exact ends_hostFill

/-- `sys_getdents64` does. -/
lemma sysGetdents64_ends (fd : CInt) (dirp count : Word) :
    Ends (sysGetdents64 O fd dirp count) w w.ncall (sizeAnswer O w.ncall) := by
  unfold sysGetdents64
  apply ends_handler le_rfl
  apply ends_option (procbufalign_run dirp count 8 w) le_rfl rfl
  intro buf
  exact ends_hostFill

/-- `sys_lseek` does. -/
lemma sysLseek_ends (fd whence : CInt) :
    Ends (sysLseek O fd whence) w w.ncall (sizeAnswer O w.ncall) := by
  unfold sysLseek Exec.check
  apply ends_handler le_rfl
  split
  · exact ends_bind (Exec.pure_run () w) ends_hostSize
  · intro v w' out h
    rw [Exec.bind_run, Exec.stop_run, Exec.andThen_error] at h
    injection h with hv
    cases hv

/-- A call that hands its descriptor on does. -/
lemma sysHandler_ends (op : FileOp) (fd : CInt) :
    Ends (sysHandler O op fd) w w.ncall (intAnswer O w.ncall) := ends_handler le_rfl ends_hostInt

/-- The structure is filled before the wrapper returns. -/
lemma copystat_ends (stat : Word) :
    Ends (do
      let w ← Exec.get
      if (O.ret w.ncall).isSome then
        touch stat 120
        Exec.modify fun w => w.fill O stat 120
      hostInt O) w w.ncall (intAnswer O w.ncall) := by
  apply ends_bind (Exec.get_run w)
  apply ends_ite
  · apply ends_bind (touch_run stat 120 w)
    exact ends_bind (Exec.modify_run _ w) ends_hostInt
  · exact ends_hostInt

/-- `sys_newfstatat` does, after its directory. -/
lemma sysNewfstatat_ends (dirfd flags : CInt) (pathp statbufp : Word) :
    Ends (sysNewfstatat O dirfd pathp statbufp flags) w
      (w.ncall + if flags &&& TUX_AT_EMPTY_PATH = 0 then w.lookups dirfd else 0)
      (intAnswer O (w.ncall + if flags &&& TUX_AT_EMPTY_PATH = 0 then w.lookups dirfd else 0)) := by
  unfold sysNewfstatat
  apply ends_option (procbufalign_run statbufp _ 8 w) (Nat.le_add_right _ _) rfl
  intro stat
  dsimp only
  split
  · apply ends_path (Nat.le_add_right _ _)
    intro path
    apply ends_dir le_rfl
    intro dir
    exact copystat_ends stat
  · exact ends_handler le_rfl (copystat_ends stat)

/-- What `sys_readlinkat` makes of the wrapper's result. -/
def linkAnswer (O : HostOs) (k : Nat) : Word :=
  let r : CInt := (sizeAnswer O k).setWidth 32
  if r.msb then negErr (O.errno k) else r.setWidth 64

/-- `sys_readlinkat` does, after its directory. -/
lemma sysReadlinkat_ends (dirfd : CInt) (pathp bufp size : Word) :
    Ends (sysReadlinkat O dirfd pathp bufp size) w (w.ncall + w.lookups dirfd)
      (linkAnswer O (w.ncall + w.lookups dirfd)) := by
  unfold sysReadlinkat
  apply ends_dir le_rfl
  intro dir
  apply ends_bind (procpath_run pathp _)
  apply ends_bind (procbuf_run bufp size _)
  cases World.path (w.calls (w.lookups dirfd)) pathp with
  | none => exact ends_pure _ le_rfl
  | some path =>
    cases lfiAsFmptr (w.calls (w.lookups dirfd)).info bufp with
    | none => exact ends_pure _ le_rfl
    | some buf =>
      apply ends_bind (Exec.gets_run _ _)
      intro v w' out h
      rw [Exec.bind_run, hostFill_run, Exec.andThen_ok, Exec.ite_run, Exec.pure_run, Exec.pure_run,
        ← apply_ite fun v => (⟨.ok v, _, []⟩ : Res Stop Ev (World L M) Word)] at h
      injection h with hv hw
      refine .inr ⟨?_, (Except.ok.inj hv).symm⟩
      rw [← hw, World.called, World.filled_ncall, World.calls_ncall]

/-- `sys_unlinkat` does, after its directory. -/
lemma sysUnlinkat_ends (dirfd flags : CInt) (pathp : Word) :
    Ends (sysUnlinkat O dirfd pathp flags) w (w.ncall + w.lookups dirfd)
      (intAnswer O (w.ncall + w.lookups dirfd)) := by
  unfold sysUnlinkat
  apply ends_dir le_rfl
  intro dir
  apply ends_ite (ends_pure _ le_rfl)
  apply ends_path le_rfl
  intro path
  exact ends_hostInt

/-- `sys_renameat` does, after both its directories. -/
lemma sysRenameat_ends (olddir newdir : CInt) (oldpathp newpathp : Word) :
    Ends (sysRenameat O olddir oldpathp newdir newpathp) w
      (w.ncall + (w.lookups olddir + w.lookups newdir))
      (intAnswer O (w.ncall + (w.lookups olddir + w.lookups newdir))) := by
  have hn : ((w.calls (w.lookups olddir)).calls (w.lookups newdir)).ncall =
      w.ncall + (w.lookups olddir + w.lookups newdir) := Nat.add_assoc _ _ _
  rw [← hn]
  unfold sysRenameat
  apply ends_bind (getfdir_run olddir w)
  apply ends_bind (getfdir_run newdir _)
  cases w.dir O olddir with
  | none => exact ends_pure _ le_rfl
  | some oldf =>
    cases (w.calls (w.lookups olddir)).dir O newdir with
    | none => exact ends_pure _ le_rfl
    | some newf =>
      apply ends_bind (procpath_run oldpathp _)
      apply ends_bind (procpath_run newpathp _)
      split
      · exact ends_hostInt
      · exact ends_pure _ le_rfl

/-- `sys_faccessat2` does, after its directory. -/
lemma sysFaccessat2_ends (dirfd flags : CInt) (pathp : Word) :
    Ends (sysFaccessat2 O dirfd pathp flags) w (w.ncall + w.lookups dirfd)
      (intAnswer O (w.ncall + w.lookups dirfd)) := by
  unfold sysFaccessat2
  apply ends_dir le_rfl
  intro dir
  apply ends_ite (ends_pure _ le_rfl)
  apply ends_path le_rfl
  intro path
  exact ends_hostInt

/-- `sys_mkdirat` does, after its directory. -/
lemma sysMkdirat_ends (dirfd : CInt) (pathp : Word) :
    Ends (sysMkdirat O dirfd pathp) w (w.ncall + w.lookups dirfd)
      (intAnswer O (w.ncall + w.lookups dirfd)) := by
  unfold sysMkdirat
  apply ends_dir le_rfl
  intro dir
  apply ends_path le_rfl
  intro path
  exact ends_hostInt

/-- `sys_chown` does. -/
lemma sysChown_ends (pathp : Word) : Ends (sysChown O pathp) w w.ncall (intAnswer O w.ncall) :=
  ends_path le_rfl fun _ => ends_hostInt

/-- `sys_chmod` does. -/
lemma sysChmod_ends (pathp : Word) : Ends (sysChmod O pathp) w w.ncall (intAnswer O w.ncall) :=
  ends_path le_rfl fun _ => ends_hostInt

/-- `sys_getrandom` does. -/
lemma sysGetrandom_ends (bufp buflen : Word) (flags : CInt) :
    Ends (sysGetrandom O bufp buflen flags) w w.ncall (sizeAnswer O w.ncall) := by
  unfold sysGetrandom
  apply ends_option (procbuf_run bufp buflen w) le_rfl rfl
  intro buf
  exact ends_ite (ends_pure _ le_rfl) ends_hostFill

/-- `sys_prctl` does. -/
lemma sysPrctl_ends (op : CInt) (arg2 : Word) :
    Ends (sysPrctl O op arg2) w w.ncall (intAnswer O w.ncall) := by
  unfold sysPrctl
  apply ends_ite _ (ends_pure _ le_rfl)
  apply ends_option (procbuf_run arg2 16 w) le_rfl rfl
  intro name
  exact ends_bind (touch_run name 16 w) ends_hostInt

/-- `sys_time` does. -/
lemma sysTime_ends (tlocp : Word) : Ends (sysTime O tlocp) w w.ncall (sizeAnswer O w.ncall) :=
  ends_ite (ends_pure _ le_rfl) ends_hostSize

/-- A host call without a wrapper: what the code around it returns. -/
lemma ends_hostCall {f : Option Nat → Sys L M Word} {ans : Word}
    (h : ∀ w₁ : World L M, ∃ l w₂, (f (O.ret w.ncall)).run w₁ = ⟨.ok ans, w₂, l⟩ ∧ w₂.ncall = w₁.ncall) :
    Ends (hostCall O >>= f) w w.ncall ans := by
  apply ends_bind (hostCall_run w)
  intro v w' out hrun
  obtain ⟨l, w₂, h₁, hn⟩ := h w.called
  rw [h₁] at hrun
  injection hrun with hv hw
  exact .inr ⟨hw ▸ hn, (Except.ok.inj hv).symm⟩

/-- What `sys_clock_gettime` and `sys_ioctl` return for their host call. -/
def errnoAnswer (O : HostOs) (k : Nat) : Word :=
  match O.ret k with
  | none => negErr (O.errno k)
  | some _ => 0

/-- A structure that is filled. -/
lemma fillStruct_pure_run (ptr : Word) (len : Nat) (v : Word) (w : World L M) :
    (fillStruct O ptr len >>= fun _ => pure v : Sys L M Word).run w =
      ⟨.ok v, w.fill O ptr (BitVec.ofNat 64 len), [.touch ⟨ptr, len⟩]⟩ := by
  rw [fillStruct, Exec.bind_run, Exec.bind_run, touch_run, Exec.andThen_ok, Exec.modify_run,
    Exec.andThen_ok, Exec.pure_run]
  rfl

/-- `sys_sysinfo` does. -/
lemma sysSysinfo_ends (infop : Word) :
    Ends (sysSysinfo O infop) w w.ncall (intAnswer O w.ncall) := by
  unfold sysSysinfo intAnswer
  apply ends_option (procbufalign_run infop _ 8 w) le_rfl rfl
  intro info
  apply ends_bind (Exec.gets_run _ w)
  apply ends_hostCall
  intro w₁
  cases O.ret w.ncall with
  | none => exact ⟨_, _, Exec.pure_run _ w₁, rfl⟩
  | some r => exact ⟨_, _, fillStruct_pure_run _ _ 0 w₁, rfl⟩

/-- `sys_clock_gettime` answers the error of the host. -/
lemma sysClockGettime_ends (clockid : CInt) (tp : Word) :
    Ends (sysClockGettime O clockid tp) w w.ncall (errnoAnswer O w.ncall) := by
  unfold sysClockGettime errnoAnswer
  apply ends_ite (ends_pure _ le_rfl)
  apply ends_option (procbufalign_run tp 16 8 w) le_rfl rfl
  intro t
  apply ends_bind (Exec.gets_run _ w)
  apply ends_hostCall
  intro w₁
  cases O.ret w.ncall with
  | none => exact ⟨_, _, Exec.pure_run _ w₁, rfl⟩
  | some r => exact ⟨_, _, fillStruct_pure_run _ _ 0 w₁, rfl⟩

/-- `sys_ioctl` does so too. -/
lemma sysIoctl_ends (fd : CInt) (request va0 : Word) :
    Ends (sysIoctl O fd request va0) w w.ncall (errnoAnswer O w.ncall) := by
  unfold sysIoctl errnoAnswer
  apply ends_ite (ends_pure _ le_rfl)
  apply ends_ite (ends_pure _ le_rfl)
  apply ends_option (procbufalign_run va0 8 2 w) le_rfl rfl
  intro ws
  apply ends_bind (Exec.gets_run _ w)
  apply ends_hostCall
  intro w₁
  cases O.ret w.ncall with
  | none => exact ⟨_, _, Exec.pure_run _ w₁, rfl⟩
  | some r => exact ⟨_, _, fillStruct_pure_run _ _ 0 w₁, rfl⟩

/-- What the futex wrappers return: the result of `syscall`, which is `-1` for every error. -/
def rawAnswer (O : HostOs) (k : Nat) : Word :=
  match O.ret k with
  | none => -1
  | some r => BitVec.ofNat 64 r

/-- A futex call on the host answers -1 for every error. -/
lemma hostFutex_ends (uaddr : Word) (c : FutexCall) :
    Ends (hostFutex O uaddr c) w w.ncall (rawAnswer O w.ncall) := by
  unfold hostFutex rawAnswer
  apply ends_bind (touch_run uaddr 4 w)
  apply ends_bind (Exec.modify_run _ w)
  apply ends_hostCall
  intro w₁
  change ∃ l w₂, (match O.ret w.ncall with | none => pure (-1) | some r => pure _ : Sys L M Word).run w₁ = _ ∧ _
  cases O.ret w.ncall with
  | none => exact ⟨_, _, Exec.pure_run _ w₁, rfl⟩
  | some r => exact ⟨_, _, Exec.pure_run _ w₁, rfl⟩

/-- `sys_futex` answers what it does. -/
lemma sysFutex_ends (uaddrp timeoutp : Word) (op val : CInt) :
    Ends (sysFutex O uaddrp op val timeoutp) w w.ncall (rawAnswer O w.ncall) := by
  unfold sysFutex
  apply ends_ite (ends_pure _ le_rfl)
  apply ends_option (procbufalign_run uaddrp 4 4 w) le_rfl rfl
  intro uaddr
  apply ends_ite
  · unfold futexwait
    apply ends_ite _ (hostFutex_ends uaddr _)
    apply ends_option (procbufalign_run timeoutp 16 8 w) le_rfl rfl
    intro timeout
    exact ends_bind (touch_run timeout 16 w) (hostFutex_ends uaddr _)
  · apply ends_ite (hostFutex_ends uaddr _)
    exact ends_ite (hostFutex_ends uaddr _) (ends_pure _ le_rfl)

/-- What `sys_sched_yield` returns. -/
def yieldAnswer (O : HostOs) (k : Nat) : Word :=
  match O.ret k with
  | none => -1
  | some _ => 0

/-- `sys_sched_yield` answers -1 for an error. -/
lemma sysSchedYield_ends : Ends (sysSchedYield O) w w.ncall (yieldAnswer O w.ncall) := by
  unfold sysSchedYield yieldAnswer
  apply ends_hostCall
  intro w₁
  cases O.ret w.ncall with
  | none => exact ⟨_, _, Exec.pure_run _ w₁, rfl⟩
  | some r => exact ⟨_, _, Exec.pure_run _ w₁, rfl⟩

/-- `sys_pread64` answers the third of its four calls. -/
lemma sysPread64_ends (fd : CInt) (bufp size : Word) :
    EndsAt (sysPread64 O fd bufp size) w w.ncall (w.ncall + 4) (sizeAnswer O (w.ncall + 2)) := by
  unfold sysPread64
  apply ends_handler le_rfl
  apply ends_handler le_rfl
  apply ends_option (procbuf_run bufp size w) le_rfl rfl
  intro buf
  apply ends_bind (hostSize_run w)
  apply ends_bind (hostSize_run _)
  apply ends_bind (hostFill_run buf size _)
  apply ends_bind (hostSize_run _)
  intro v w' out h
  rw [Exec.pure_run] at h
  injection h with hv hw
  refine .inr ⟨?_, (Except.ok.inj hv).symm⟩
  rw [← hw]
  change (World.filled _ O buf size).ncall + 1 + 1 = _
  rw [World.filled_ncall]
  rfl

/-- A relative path takes two host calls, and the second one is made even if the first one failed. -/
lemma sysTruncate_ends (pathp : Word) :
    Ends (sysTruncate O pathp) w w.ncall (intAnswer O w.ncall) ∨
      EndsAt (sysTruncate O pathp) w w.ncall (w.ncall + 2) (intAnswer O (w.ncall + 1)) := by
  unfold sysTruncate withPath
  cases hpath : w.path pathp with
  | none =>
    refine .inl (ends_bind (procpath_run pathp w) ?_)
    rw [hpath]
    exact ends_pure _ le_rfl
  | some path =>
    by_cases hslash : w.mem path ≠ 0x2f
    · refine .inr (ends_bind (procpath_run pathp w) ?_)
      rw [hpath]
      apply ends_bind (Exec.get_run w)
      rw [if_pos hslash]
      apply ends_bind (hostInt_run w)
      rw [if_neg (by rw [intAnswer_msb]; exact Bool.false_ne_true)]
      intro v w' out h
      rw [hostInt_run] at h
      injection h with hv hw
      exact .inr ⟨hw ▸ rfl, (Except.ok.inj hv).symm⟩
    · refine .inl (ends_bind (procpath_run pathp w) ?_)
      rw [hpath]
      apply ends_bind (Exec.get_run w)
      rw [if_neg hslash]
      exact ends_hostInt

/-- The errors with which an entry of a vector is refused before its host call. -/
def refusals : List Word := [negErr TUX_EBADF, negErr TUX_EPERM, negErr TUX_EFAULT]

/-- One entry of a vector: nothing is transferred, or the entry is refused, or its host call is made. -/
def EntryRun (O : HostOs) (w w' : World L M) (v : Word) : Prop :=
  w'.ncall = w.ncall ∧ (v = 0 ∨ v ∈ refusals) ∨ w'.ncall = w.ncall + 1 ∧ v = sizeAnswer O w.ncall

/-- A transfer makes one call, or none. -/
lemma entry_of_transfer {fd : CInt} {op : FileOp} {bufp size : Word} {f : Option Word → Sys L M Word}
    (hnone : f none = pure (negErr TUX_EFAULT))
    (hsome : ∀ {buf} {w w' : World L M} {v out}, (f (some buf)).run w = ⟨.ok v, w', out⟩ →
      w'.ncall = w.ncall + 1 ∧ v = sizeAnswer O w.ncall)
    {w' : World L M} {v : Word} {out : List Ev}
    (h : (if size = 0 then pure 0
      else withHandler fd op TUX_EPERM (procbuf bufp size >>= f) : Sys L M Word).run w =
        ⟨.ok v, w', out⟩) : EntryRun O w w' v := by
  rw [Exec.ite_run] at h
  split at h
  · rw [Exec.pure_run] at h
    injection h with hv hw
    exact .inl ⟨hw ▸ rfl, .inl (Except.ok.inj hv).symm⟩
  · rw [withHandler_run] at h
    split at h
    · rw [Exec.bind_run, procbuf_run, Exec.andThen_ok] at h
      cases hbuf : lfiAsFmptr w.info bufp with
      | none =>
        rw [hbuf, hnone, Exec.pure_run] at h
        injection h with hv hw
        exact .inl ⟨hw ▸ rfl, .inr (by simp [← Except.ok.inj hv, refusals])⟩
      | some buf =>
        rw [hbuf] at h
        injection h with hv hw
        exact .inr (hsome (by rw [Res.eq_mk hv, hw]))
    · injection h with hv hw
      refine .inl ⟨hw ▸ rfl, .inr ?_⟩
      rw [← Except.ok.inj hv]
      split <;> simp [refusals]

/-- `sys_write` does, -/
lemma sysWrite_entry {fd : CInt} {bufp size : Word} {w' : World L M} {v : Word} {out : List Ev}
    (h : (sysWrite O fd bufp size).run w = ⟨.ok v, w', out⟩) : EntryRun O w w' v := by
  unfold sysWrite at h
  refine entry_of_transfer rfl ?_ h
  intro buf w w' v out h
  rw [Exec.bind_run, touch_run, Exec.andThen_ok, hostSize_run] at h
  injection h with hv hw
  exact ⟨hw ▸ rfl, (Except.ok.inj hv).symm⟩

/-- and so does `sys_read`. -/
lemma sysRead_entry {fd : CInt} {bufp size : Word} {w' : World L M} {v : Word} {out : List Ev}
    (h : (sysRead O fd bufp size).run w = ⟨.ok v, w', out⟩) : EntryRun O w w' v := by
  unfold sysRead at h
  refine entry_of_transfer rfl ?_ h
  intro buf w w' v out h
  change (hostFill O buf size).run w = _ at h
  rw [hostFill_run] at h
  injection h with hv hw
  refine ⟨?_, (Except.ok.inj hv).symm⟩
  rw [← hw, World.called, World.filled_ncall]

/-- The host's result as a word. -/
def hostRet (O : HostOs) (k : Nat) : Word := BitVec.ofNat 64 ((O.ret k).getD 0)

/-- The answer to a call that succeeded is what the host returned. -/
lemma sizeAnswer_some {k : Nat} (h : (O.ret k).isSome) : sizeAnswer O k = hostRet O k := by
  obtain ⟨r, hr⟩ := Option.isSome_iff_exists.mp h
  rw [sizeAnswer, hostRet, hr, Option.getD_some]

/-- A refusal is negative. -/
lemma refusals_msb {v : Word} (h : v ∈ refusals) : v.msb = true := by
  simp only [refusals, List.mem_cons, List.not_mem_nil, or_false] at h
  rcases h with rfl | rfl | rfl <;> decide

/-- The loop answers the sum of its transfers, by induction on the entries that are left. -/
lemma iovLoop_sum {io : Word → Word → Sys L M Word} {iov : Word}
    (hio : ∀ {b s} {w w' : World L M} {v out}, (io b s).run w = ⟨.ok v, w', out⟩ → EntryRun O w w' v) :
    ∀ {n i total} {w w' : World L M} {v out}, (iovLoop io iov n i total).run w = ⟨.ok v, w', out⟩ →
      w.ncall ≤ w'.ncall ∧
      ((∀ k ∈ List.range' w.ncall (w'.ncall - w.ncall), (O.ret k).isSome) →
        v = total + ((List.range' w.ncall (w'.ncall - w.ncall)).map (hostRet O)).sum ∨
          v ∈ refusals) := by
  intro n
  induction n with
  | zero =>
    intro i total w w' v out h
    rw [iovLoop, Exec.pure_run] at h
    injection h with hv hw
    subst hw
    refine ⟨le_rfl, fun _ => .inl ?_⟩
    simp [← Except.ok.inj hv]
  | succ n ih =>
    intro i total w w' v out h
    rw [iovLoop, Exec.bind_run, touch_run, Exec.andThen_ok, Exec.bind_run, Exec.get_run,
      Exec.andThen_ok_nil, Exec.bind_run] at h
    generalize hr : (io _ _).run w = r at h
    obtain ⟨val, w₁, l⟩ := r
    cases val with
    | error e =>
      rw [Exec.andThen_error] at h
      injection h with hv
      cases hv
    | ok a =>
      have hentry := hio hr
      rw [Exec.andThen_ok, Exec.ite_run, Exec.pure_run] at h
      split at h
      next hneg =>
        injection h with hv hw
        cases Except.ok.inj hv
        subst hw
        rcases hentry with ⟨hn, rfl | hrefused⟩ | ⟨hn, rfl⟩
        · cases hneg
        · exact ⟨hn.ge, fun _ => .inr hrefused⟩
        · rw [sizeAnswer_msb] at hneg
          cases hneg
      next hpos =>
        injection h with hv hw
        obtain ⟨hle, hsum⟩ := ih (Res.eq_mk hv)
        rw [hw] at hle hsum
        rcases hentry with ⟨hn, rfl | hrefused⟩ | ⟨hn, rfl⟩
        · have hzero : total + (0 : Word) = total := BitVec.add_zero total
          rw [hn, hzero] at hsum
          exact ⟨hn ▸ hle, hsum⟩
        · exact absurd (refusals_msb hrefused) hpos
        · refine ⟨by omega, fun hall => ?_⟩
          have hcons : List.range' w.ncall (w'.ncall - w.ncall) =
              w.ncall :: List.range' w₁.ncall (w'.ncall - w₁.ncall) := by
            rw [show w'.ncall - w.ncall = w'.ncall - w₁.ncall + 1 by omega, List.range'_succ, hn]
          rw [hcons] at hall ⊢
          rw [List.map_cons, List.sum_cons, ← sizeAnswer_some (hall _ List.mem_cons_self), ← BitVec.add_assoc]
          exact hsum fun k hk => hall k (List.mem_cons_of_mem _ hk)

/-- So does the vector call. -/
lemma sysIov_sum {io : Word → Word → Sys L M Word} {iovp iovcnt : Word}
    (hio : ∀ {b s} {w w' : World L M} {v out}, (io b s).run w = ⟨.ok v, w', out⟩ → EntryRun O w w' v)
    {w' : World L M} {v : Word} {out : List Ev} (h : (sysIov io iovp iovcnt).run w = ⟨.ok v, w', out⟩)
    (hall : ∀ k ∈ List.range' w.ncall (w'.ncall - w.ncall), (O.ret k).isSome) :
    v = ((List.range' w.ncall (w'.ncall - w.ncall)).map (hostRet O)).sum ∨ v ∈ refusals := by
  rw [sysIov, Exec.bind_run, ask_run, Exec.andThen_ok, Exec.bind_run, procbufalign_run,
    Exec.andThen_ok] at h
  generalize alignedTo 8 (lfiAsFmptr w.info iovp) = o at h
  injection h with hv hw
  cases o with
  | none =>
    dsimp only at hv
    rw [Exec.pure_run] at hv
    exact .inr (by simp [← Except.ok.inj hv, refusals])
  | some iov =>
    dsimp only at hv hw
    have hrun := Res.eq_mk hv
    rw [hw] at hrun
    have hzero (x : Word) : (0 : Word) + x = x := BitVec.zero_add x
    rw [← hzero (List.sum _)]
    exact (iovLoop_sum hio hrun).2 hall

end
end

/-! ## The convention -/

namespace Sysno

/-- The calls whose value is what a host call returned. -/
def hosted : Sysno → Bool
  | write | read | writev | readv | pread64 | lseek | getdents64 | ftruncate | fchown | fchmod | fsync
  | newfstatat | fstat | stat | lstat | readlinkat | readlink | truncate | chown | chmod | unlinkat
  | unlink | renameat | rename | faccessat | access | mkdirat | mkdir | getrandom | sysinfo | prctl
  | time | clockGettime | ioctl | futex | schedYield | mprotect => true
  | _ => false

/-- The calls that make one host call for each entry. -/
def vector : Sysno → Bool
  | writev | readv => true
  | _ => false

section
variable {L : LibMMap} {M : Machine} (H : HostVm) (O : HostOs)

/-- How many host calls are made to look up directories. -/
def lookups (n : Sysno) (a : Args) (w : World L M) : Nat :=
  match n with
  | newfstatat => if toInt a.a3 &&& TUX_AT_EMPTY_PATH = 0 then w.lookups (toInt a.a0) else 0
  | readlinkat | unlinkat | faccessat | mkdirat => w.lookups (toInt a.a0)
  | renameat => w.lookups (toInt a.a0) + w.lookups (toInt a.a2)
  | _ => 0

/-- The host calls that a run from `w` to `w'` made after that. -/
def hostCalls (n : Sysno) (a : Args) (w w' : World L M) : List Nat :=
  List.range' (w.ncall + n.lookups a w) (w'.ncall - (w.ncall + n.lookups a w))

/-- What the success of the host calls is reported as. -/
def success (n : Sysno) (ks : List Nat) : Word :=
  match n with
  | pread64 => (ks[2]?).elim 0 (hostRet O)
  | write | read | writev | readv | lseek | getdents64 | readlinkat | readlink | getrandom | time
  | futex => (ks.map (hostRet O)).sum
  | _ => 0

/-- What the convention prescribes: the negated error number of the host call that failed, and the
result when none did. -/
def prescribed (n : Sysno) (ks : List Nat) : Word :=
  match ks.find? fun k => (O.ret k).isNone with
  | some k => negErr (O.errno k)
  | none => n.success O ks

/-- The run made its host call. -/
def Called (n : Sysno) (a : Args) (w w' : World L M) : Prop :=
  match n with
  | mprotect => w.p.as.nmprotect < w'.p.as.nmprotect
  | n => n.hostCalls a w w' ≠ []

/-- The value `v` is what the convention prescribes. An entry of a vector may be refused before its host
call. -/
def Follows (n : Sysno) (a : Args) (w w' : World L M) (v : Word) : Prop :=
  match n with
  | mprotect =>
    v = if H.mprotect w.p.as.nmprotect a.a0 a.a1 then 0 else negErr (H.errno w.p.as.nmprotect)
  | n => v = n.prescribed O (n.hostCalls a w w') ∨ n.vector = true ∧ v ∈ refusals

/-- What the host has to do for that. The futex calls and `sched_yield` return `-1` for an error, which
is `-EPERM`, and the length of a link goes through an `int`. -/
def Meets (n : Sysno) (a : Args) (w w' : World L M) : Prop :=
  match n with
  | mprotect => H.mprotect w.p.as.nmprotect a.a0 a.a1 = true
  | clockGettime | ioctl => True
  | futex | schedYield => ∀ k ∈ n.hostCalls a w w', (O.ret k).isSome ∨ O.errno k = TUX_EPERM
  | readlink | readlinkat => ∀ k ∈ n.hostCalls a w w', ∃ r, O.ret k = some r ∧ r < 2 ^ 31
  | n => ∀ k ∈ n.hostCalls a w w', (O.ret k).isSome

end

section
variable {L : LibMMap} {M : Machine} {H : HostVm} {O : HostOs} {n : Sysno} {a : Args} {k : Nat}

/-- What is prescribed for one call that failed, -/
lemma prescribed_none (h : O.ret k = none) : n.prescribed O [k] = negErr (O.errno k) := by
  simp [prescribed, h]

/-- for one that succeeded, -/
lemma prescribed_some {r : Nat} (h : O.ret k = some r) : n.prescribed O [k] = n.success O [k] := by
  simp [prescribed, h]

/-- A negated error number is negative. -/
lemma ne_negErr {v : Word} (hv : v.msb = false) (k : Nat) : v ≠ negErr (O.errno k) := by
  rintro rfl
  have hpos := O.errno_pos k
  have hlt := O.errno_lt k
  rw [BitVec.msb_eq_decide] at hv
  simp only [negErr, BitVec.toNat_ofNat, BitVec.toNat_neg, decide_eq_false_iff_not, not_le] at hv
  omega

/-- and for several that did. -/
lemma prescribed_all {ks : List Nat} (hall : ∀ j ∈ ks, (O.ret j).isSome) :
    n.prescribed O ks = n.success O ks := by
  have hfind : (ks.find? fun j => (O.ret j).isNone) = none := by
    rw [List.find?_eq_none]
    intro j hj
    rw [Option.isNone_iff_eq_none, ← ne_eq, Option.ne_none_iff_isSome]
    exact hall j hj
  rw [prescribed, hfind]

/-- A value that is not negative cannot stand for a host call that failed. -/
lemma all_of_follows {ks : List Nat} {v : Word} (hv : v.msb = false) (h : v = n.prescribed O ks) :
    ∀ j ∈ ks, (O.ret j).isSome := by
  intro j hj
  by_contra hnone
  unfold prescribed at h
  split at h
  next i _ => exact ne_negErr hv i h
  next hfind =>
    have := List.find?_eq_none.mp hfind j hj
    rw [Option.isNone_iff_eq_none, ← ne_eq, Option.ne_none_iff_isSome] at this
    exact hnone this

/-- A call that never returns a negative value follows the convention when no host call fails, and only
then. -/
lemma follows_iff {ks : List Nat} {v : Word} (hv : v.msb = false)
    (hsucc : (∀ j ∈ ks, (O.ret j).isSome) → v = n.success O ks) :
    v = n.prescribed O ks ↔ ∀ j ∈ ks, (O.ret j).isSome :=
  ⟨all_of_follows hv, fun hall => (hsucc hall).trans (prescribed_all hall).symm⟩

/-- An answer by error number is as prescribed. -/
lemma errno_follows (hs : n.success O [k] = 0) : errnoAnswer O k = n.prescribed O [k] := by
  cases hr : O.ret k with
  | none => rw [prescribed_none hr, errnoAnswer, hr]
  | some r => rw [prescribed_some hr, hs, errnoAnswer, hr]

/-- `-1` is the negated error number of `EPERM` only. -/
lemma neg_one_eq_negErr : (-1 : Word) = negErr (O.errno k) ↔ O.errno k = TUX_EPERM := by
  have hpos := O.errno_pos k
  have hlt := O.errno_lt k
  unfold negErr TUX_EPERM
  constructor
  · intro h
    have hone : (1 : Word).toNat = 1 := rfl
    have := congrArg BitVec.toNat h
    simp only [BitVec.toNat_ofNat, BitVec.toNat_neg, hone] at this
    omega
  · intro h
    rw [h]
    rfl

/-- The -1 of a futex is when the error is `EPERM`. -/
lemma raw_follows (hs : n.success O [k] = hostRet O k) :
    rawAnswer O k = n.prescribed O [k] ↔ ∀ j ∈ [k], (O.ret j).isSome ∨ O.errno j = TUX_EPERM := by
  rw [List.forall_mem_singleton]
  cases hr : O.ret k with
  | none =>
    rw [prescribed_none hr, rawAnswer, hr]
    simpa using neg_one_eq_negErr
  | some r =>
    rw [prescribed_some hr, hs, rawAnswer, hr, hostRet, hr]
    simp

/-- So is that of a yield. -/
lemma yield_follows (hs : n.success O [k] = 0) :
    yieldAnswer O k = n.prescribed O [k] ↔ ∀ j ∈ [k], (O.ret j).isSome ∨ O.errno j = TUX_EPERM := by
  rw [List.forall_mem_singleton]
  cases hr : O.ret k with
  | none =>
    rw [prescribed_none hr, yieldAnswer, hr]
    simpa using neg_one_eq_negErr
  | some r =>
    rw [prescribed_some hr, hs, yieldAnswer, hr]
    simp

/-- A small value survives an `int`. -/
lemma through_int {x e : Word} (h : x.toNat < 2 ^ 31) :
    (if (x.setWidth 32).msb then e else (x.setWidth 32).setWidth 64) = x := by
  have hnat : (x.setWidth 32).toNat = x.toNat := by
    rw [BitVec.toNat_setWidth]
    exact Nat.mod_eq_of_lt (by omega)
  have hmsb : (x.setWidth 32).msb = false := by
    rw [BitVec.msb_eq_decide, hnat]
    simp only [decide_eq_false_iff_not, not_le]
    omega
  rw [hmsb, if_neg Bool.false_ne_true]
  apply BitVec.eq_of_toNat_eq
  rw [BitVec.toNat_setWidth, hnat]
  exact Nat.mod_eq_of_lt (by omega)

/-- A large one does not, nor is it a negated error number. -/
lemma not_through_int {x : Word} {e : Nat} (hpos : 0 < e) (hlt : e < 4096) (h : 2 ^ 31 ≤ x.toNat)
    (h63 : x.toNat < 2 ^ 63) :
    (if (x.setWidth 32).msb then negErr e else (x.setWidth 32).setWidth 64) ≠ x := by
  intro heq
  split at heq
  · have := congrArg BitVec.toNat heq
    simp only [negErr, BitVec.toNat_ofNat, BitVec.toNat_neg] at this
    omega
  next hmsb =>
    rw [BitVec.msb_eq_decide] at hmsb
    simp only [decide_eq_true_eq, not_le] at hmsb
    have := congrArg BitVec.toNat heq
    rw [BitVec.toNat_setWidth, Nat.mod_eq_of_lt (by omega)] at this
    omega

/-- A link is answered by an `int`. -/
lemma link_follows (hs : n.success O [k] = hostRet O k) :
    linkAnswer O k = n.prescribed O [k] ↔ ∀ j ∈ [k], ∃ r, O.ret j = some r ∧ r < 2 ^ 31 := by
  have hpos := O.errno_pos k
  have hlt := O.errno_lt k
  rw [List.forall_mem_singleton]
  cases hr : O.ret k with
  | none =>
    have herr : sizeAnswer O k = BitVec.ofInt 64 (tuxerr (O.errno k)) := by
      rw [sizeAnswer, hr]
    have hnat : (sizeAnswer O k).toNat = O.errno k := by
      have htux : tuxerr (O.errno k) = O.errno k := if_pos (Int.natCast_nonneg _)
      rw [herr, htux, BitVec.ofInt_natCast, BitVec.toNat_ofNat]
      exact Nat.mod_eq_of_lt (by omega)
    rw [prescribed_none hr, linkAnswer, through_int (by omega)]
    refine ⟨fun h => absurd h (ne_negErr (sizeAnswer_msb k) k), ?_⟩
    rintro ⟨r, hr, -⟩
    cases hr
  | some r =>
    have hr63 := O.ret_lt hr
    have hnat : (sizeAnswer O k).toNat = r := by
      rw [sizeAnswer, hr]
      exact Nat.mod_eq_of_lt (by omega)
    rw [prescribed_some hr, hs, ← sizeAnswer_some (Option.isSome_iff_exists.mpr ⟨r, hr⟩), linkAnswer]
    constructor
    · intro h
      refine ⟨r, rfl, hnat ▸ ?_⟩
      by_contra hbig
      refine not_through_int hpos hlt (not_lt.mp hbig) (by omega) h
    · rintro ⟨r', hr', hsmall⟩
      cases hr'
      exact through_int (by omega)

variable {w w' : World L M} {v : Word}

/-- The host calls of a run that ended after one of them. -/
lemma hostCalls_of_ends {x : Sys L M Word} {out : List Ev} {c : Nat} {ans : Word}
    (h : EndsAt x w (w.ncall + n.lookups a w) (w.ncall + n.lookups a w + c) ans)
    (hrun : x.run w = ⟨.ok v, w', out⟩) (hcalled : n.hostCalls a w w' ≠ []) :
    n.hostCalls a w w' = List.range' (w.ncall + n.lookups a w) c ∧ v = ans := by
  unfold hostCalls at hcalled ⊢
  rcases h v w' out hrun with hle | ⟨heq, hv⟩
  · rw [Nat.sub_eq_zero_of_le hle] at hcalled
    exact absurd rfl hcalled
  · rw [heq, Nat.add_sub_cancel_left]
    exact ⟨rfl, hv⟩

/-- Under `meets` the value follows the convention, and a value that follows it, and that is not the
refusal of an entry, was returned under `meets`. -/
def Settled (O : HostOs) (n : Sysno) (ks : List Nat) (v : Word) (meets : List Nat → Prop) : Prop :=
  (meets ks → v = n.prescribed O ks ∨ n.vector = true ∧ v ∈ refusals) ∧
    ((n.vector = true → v.msb = false) →
      v = n.prescribed O ks ∨ n.vector = true ∧ v ∈ refusals → meets ks)

/-- A call that is no vector. -/
lemma settled_of_iff {ks : List Nat} {meets : List Nat → Prop} (hvec : n.vector = false)
    (h : v = n.prescribed O ks ↔ meets ks) : Settled O n ks v meets := by
  refine ⟨fun hm => .inl (h.mpr hm), ?_⟩
  rintro - (hv | ⟨hv, -⟩)
  · exact h.mp hv
  · rw [hvec] at hv
    cases hv

/-- A call with one call of the host at its end. -/
lemma settled_of_ends {x : Sys L M Word} {out : List Ev} {ans : Word} {meets : List Nat → Prop}
    (hvec : n.vector = false)
    (h : Ends x w (w.ncall + n.lookups a w) ans) (hrun : x.run w = ⟨.ok v, w', out⟩)
    (hcalled : n.hostCalls a w w' ≠ [])
    (hiff : ans = n.prescribed O [w.ncall + n.lookups a w] ↔ meets [w.ncall + n.lookups a w]) :
    Settled O n (n.hostCalls a w w') v meets := by
  obtain ⟨hks, rfl⟩ := hostCalls_of_ends h hrun hcalled
  rw [hks]
  exact settled_of_iff hvec hiff

/-- Calls that answer a size, -/
lemma size_settled {x : Sys L M Word} {out : List Ev} (hvec : n.vector = false)
    (hs : ∀ k, n.success O [k] = hostRet O k + 0)
    (h : Ends x w (w.ncall + n.lookups a w) (sizeAnswer O (w.ncall + n.lookups a w)))
    (hrun : x.run w = ⟨.ok v, w', out⟩) (hcalled : n.hostCalls a w w' ≠ []) :
    Settled O n (n.hostCalls a w w') v fun ks => ∀ k ∈ ks, (O.ret k).isSome := by
  refine settled_of_ends hvec h hrun hcalled (follows_iff (sizeAnswer_msb _) ?_)
  intro hall
  rw [hs, sizeAnswer_some (hall _ List.mem_cons_self)]
  exact (BitVec.add_zero _).symm

/-- that answer an `int`, -/
lemma int_settled {x : Sys L M Word} {out : List Ev} (hvec : n.vector = false)
    (hs : ∀ k, n.success O [k] = 0)
    (h : Ends x w (w.ncall + n.lookups a w) (intAnswer O (w.ncall + n.lookups a w)))
    (hrun : x.run w = ⟨.ok v, w', out⟩) (hcalled : n.hostCalls a w w' ≠ []) :
    Settled O n (n.hostCalls a w w') v fun ks => ∀ k ∈ ks, (O.ret k).isSome := by
  refine settled_of_ends hvec h hrun hcalled (follows_iff (intAnswer_msb _) ?_)
  intro hall
  obtain ⟨r, hr⟩ := Option.isSome_iff_exists.mp (hall _ List.mem_cons_self)
  rw [hs, intAnswer, hr]

/-- that answer the length of a link, -/
lemma link_settled {x : Sys L M Word} {out : List Ev} (hvec : n.vector = false)
    (hs : ∀ k, n.success O [k] = hostRet O k + 0)
    (h : Ends x w (w.ncall + n.lookups a w) (linkAnswer O (w.ncall + n.lookups a w)))
    (hrun : x.run w = ⟨.ok v, w', out⟩) (hcalled : n.hostCalls a w w' ≠ []) :
    Settled O n (n.hostCalls a w w') v fun ks => ∀ k ∈ ks, ∃ r, O.ret k = some r ∧ r < 2 ^ 31 :=
  settled_of_ends hvec h hrun hcalled (link_follows ((hs _).trans (BitVec.add_zero _)))

/-- and that answer zero or an error number. -/
lemma errno_settled {x : Sys L M Word} {out : List Ev} (hvec : n.vector = false)
    (hs : ∀ k, n.success O [k] = 0)
    (h : Ends x w (w.ncall + n.lookups a w) (errnoAnswer O (w.ncall + n.lookups a w)))
    (hrun : x.run w = ⟨.ok v, w', out⟩) (hcalled : n.hostCalls a w w' ≠ []) :
    Settled O n (n.hostCalls a w w') v fun _ => True :=
  settled_of_ends hvec h hrun hcalled (iff_of_true (errno_follows (hs _)) trivial)

/-- Futexes, -/
lemma futex_settled {x : Sys L M Word} {out : List Ev}
    (h : Ends x w w.ncall (rawAnswer O w.ncall)) (hrun : x.run w = ⟨.ok v, w', out⟩)
    (hcalled : futex.hostCalls a w w' ≠ []) :
    Settled O futex (futex.hostCalls a w w') v
      fun ks => ∀ k ∈ ks, (O.ret k).isSome ∨ O.errno k = TUX_EPERM :=
  settled_of_ends (n := futex) rfl h hrun hcalled (raw_follows (BitVec.add_zero _))

/-- yields, -/
lemma schedYield_settled {out : List Ev} (hrun : (sysSchedYield O).run w = ⟨.ok v, w', out⟩)
    (hcalled : schedYield.hostCalls a w w' ≠ []) :
    Settled O schedYield (schedYield.hostCalls a w w') v
      fun ks => ∀ k ∈ ks, (O.ret k).isSome ∨ O.errno k = TUX_EPERM :=
  settled_of_ends (n := schedYield) rfl sysSchedYield_ends hrun hcalled (yield_follows rfl)

/-- The current directory is not looked up. -/
lemma lookups_cwd (w : World L M) : w.lookups TUX_AT_FDCWD = 0 := by
  rw [World.lookups, if_neg fun h => h.1 rfl]

/-- reads at an offset, -/
lemma pread64_settled {fd : CInt} {bufp size : Word} {out : List Ev}
    (hrun : (sysPread64 O fd bufp size).run w = ⟨.ok v, w', out⟩)
    (hcalled : pread64.hostCalls a w w' ≠ []) :
    Settled O pread64 (pread64.hostCalls a w w') v fun ks => ∀ k ∈ ks, (O.ret k).isSome := by
  obtain ⟨hks, rfl⟩ := hostCalls_of_ends (n := pread64) (sysPread64_ends fd bufp size) hrun hcalled
  refine settled_of_iff rfl (follows_iff (sizeAnswer_msb _) ?_)
  rw [hks]
  intro hall
  refine sizeAnswer_some (hall _ ?_)
  exact List.mem_cons_of_mem _ (List.mem_cons_of_mem _ List.mem_cons_self)

/-- truncations, -/
lemma truncate_settled {pathp : Word} {out : List Ev}
    (hrun : (sysTruncate O pathp).run w = ⟨.ok v, w', out⟩) (hcalled : truncate.hostCalls a w w' ≠ []) :
    Settled O truncate (truncate.hostCalls a w w') v fun ks => ∀ k ∈ ks, (O.ret k).isSome := by
  rcases sysTruncate_ends (O := O) (w := w) pathp with h | h
  · exact int_settled (n := truncate) rfl (fun _ => rfl) h hrun hcalled
  · obtain ⟨hks, rfl⟩ := hostCalls_of_ends (n := truncate) h hrun hcalled
    refine settled_of_iff rfl (follows_iff (intAnswer_msb _) ?_)
    rw [hks]
    intro hall
    obtain ⟨r, hr⟩ := Option.isSome_iff_exists.mp (hall _ (List.mem_cons_of_mem _ List.mem_cons_self))
    change intAnswer O (w.ncall + 1) = 0
    change O.ret (w.ncall + 1) = some r at hr
    rw [intAnswer, hr]

/-- vectors, -/
lemma vector_settled {io : Word → Word → Sys L M Word} {iovp iovcnt : Word} {out : List Ev}
    (hio : ∀ {b s} {w w' : World L M} {v out}, (io b s).run w = ⟨.ok v, w', out⟩ → EntryRun O w w' v)
    (hvec : n.vector = true) (hlook : n.lookups a w = 0)
    (hs : ∀ ks, n.success O ks = (ks.map (hostRet O)).sum)
    (hrun : (sysIov io iovp iovcnt).run w = ⟨.ok v, w', out⟩) :
    Settled O n (n.hostCalls a w w') v fun ks => ∀ k ∈ ks, (O.ret k).isSome := by
  have hsum := sysIov_sum hio hrun
  have hks : n.hostCalls a w w' = List.range' w.ncall (w'.ncall - w.ncall) := by
    rw [hostCalls, hlook, Nat.add_zero]
  rw [← hks] at hsum
  constructor
  · intro hall
    rcases hsum hall with hv | hv
    · exact .inl (hv.trans ((prescribed_all hall).trans (hs _)).symm)
    · exact .inr ⟨hvec, hv⟩
  · intro hmsb hfol
    rcases hfol with hv | ⟨-, hv⟩
    · exact all_of_follows (hmsb hvec) hv
    · rw [refusals_msb hv] at hmsb
      cases hmsb hvec

variable {opts : TuxOptions} {A : Arch}

/-- and protections. -/
lemma mprotect_settled (herrno : ∀ k, H.errno k < 4096) {addr len : Word} {prot : CInt} {out : List Ev}
    (hrun : (sysMprotect H addr len prot).run w = ⟨.ok v, w', out⟩) :
    (v = if H.mprotect w.p.as.nmprotect addr len then 0 else negErr (H.errno w.p.as.nmprotect)) ↔
      H.mprotect w.p.as.nmprotect addr len = true := by
  have hpos := H.errno_pos w.p.as.nmprotect
  have hlt := herrno w.p.as.nmprotect
  have htux : tuxerr (H.errno w.p.as.nmprotect) = H.errno w.p.as.nmprotect :=
    if_pos (Int.natCast_nonneg _)
  rw [sysMprotect, procaddr, lfiAsValidptr, Exec.bind_run, onSpace_run, lfiAsMprotect, Exec.bind_run, Exec.get_run,
    Exec.andThen_ok_nil, Exec.check_bind_run] at hrun
  split at hrun
  · rw [hostMprotect, Exec.mk_run] at hrun
    split at hrun
    next hok =>
      rw [Exec.andThen_ok, Exec.pure_run] at hrun
      injection hrun with hv
      rw [if_pos hok, ← Except.ok.inj hv]
      exact iff_of_true rfl hok
    next hfail =>
      rw [Exec.andThen_ok, Exec.pure_run] at hrun
      injection hrun with hv
      rw [if_neg hfail, ← Except.ok.inj hv, htux, BitVec.ofInt_natCast, negErr]
      refine iff_of_false (fun h => ?_) hfail
      have := congrArg BitVec.toNat h
      simp only [BitVec.toNat_ofNat, BitVec.toNat_neg] at this
      omega
  · rw [Exec.andThen_error] at hrun
    injection hrun with hv
    cases hv

/-- A system call that returned after its host call. -/
lemma syscall_settled (herrno : ∀ k, H.errno k < 4096) {w w' : World L A.machine} {out : List Ev}
    (hn : n.hosted = true) (hrun : (syscall H O opts A n a).run w = ⟨.ok v, w', out⟩)
    (hcalled : n.Called a w w') :
    (n.Meets H O a w w' → n.Follows H O a w w' v) ∧
      ((n.vector = true → v.msb = false) → n.Follows H O a w w' v → n.Meets H O a w w') := by
  cases n with
  | write => exact size_settled (n := write) rfl (fun _ => rfl) (sysWrite_ends _ _ _) hrun hcalled
  | read => exact size_settled (n := read) rfl (fun _ => rfl) (sysRead_ends _ _ _) hrun hcalled
  | lseek => exact size_settled (n := lseek) rfl (fun _ => rfl) (sysLseek_ends _ _) hrun hcalled
  | getdents64 => exact size_settled (n := getdents64) rfl (fun _ => rfl) (sysGetdents64_ends _ _ _) hrun hcalled
  | getrandom => exact size_settled (n := getrandom) rfl (fun _ => rfl) (sysGetrandom_ends _ _ _) hrun hcalled
  | time => exact size_settled (n := time) rfl (fun _ => rfl) (sysTime_ends _) hrun hcalled
  | ftruncate => exact int_settled (n := ftruncate) rfl (fun _ => rfl) (sysHandler_ends _ _) hrun hcalled
  | fchown => exact int_settled (n := fchown) rfl (fun _ => rfl) (sysHandler_ends _ _) hrun hcalled
  | fchmod => exact int_settled (n := fchmod) rfl (fun _ => rfl) (sysHandler_ends _ _) hrun hcalled
  | fsync => exact int_settled (n := fsync) rfl (fun _ => rfl) (sysHandler_ends _ _) hrun hcalled
  | newfstatat => exact int_settled (n := newfstatat) rfl (fun _ => rfl) (sysNewfstatat_ends _ _ _ _) hrun hcalled
  | chown => exact int_settled (n := chown) rfl (fun _ => rfl) (sysChown_ends _) hrun hcalled
  | chmod => exact int_settled (n := chmod) rfl (fun _ => rfl) (sysChmod_ends _) hrun hcalled
  | unlinkat => exact int_settled (n := unlinkat) rfl (fun _ => rfl) (sysUnlinkat_ends _ _ _) hrun hcalled
  | renameat => exact int_settled (n := renameat) rfl (fun _ => rfl) (sysRenameat_ends _ _ _ _) hrun hcalled
  | faccessat => exact int_settled (n := faccessat) rfl (fun _ => rfl) (sysFaccessat2_ends _ _ _) hrun hcalled
  | mkdirat => exact int_settled (n := mkdirat) rfl (fun _ => rfl) (sysMkdirat_ends _ _) hrun hcalled
  | sysinfo => exact int_settled (n := sysinfo) rfl (fun _ => rfl) (sysSysinfo_ends _) hrun hcalled
  | prctl => exact int_settled (n := prctl) rfl (fun _ => rfl) (sysPrctl_ends _ _) hrun hcalled
  | unlink =>
    have h := sysUnlinkat_ends (O := O) (w := w) TUX_AT_FDCWD 0 a.a0
    rw [lookups_cwd] at h
    exact int_settled (n := unlink) rfl (fun _ => rfl) h hrun hcalled
  | access =>
    have h := sysFaccessat2_ends (O := O) (w := w) TUX_AT_FDCWD 0 a.a0
    rw [lookups_cwd] at h
    exact int_settled (n := access) rfl (fun _ => rfl) h hrun hcalled
  | mkdir =>
    have h := sysMkdirat_ends (O := O) (w := w) TUX_AT_FDCWD a.a0
    rw [lookups_cwd] at h
    exact int_settled (n := mkdir) rfl (fun _ => rfl) h hrun hcalled
  | rename =>
    have h := sysRenameat_ends (O := O) (w := w) TUX_AT_FDCWD TUX_AT_FDCWD a.a0 a.a1
    rw [lookups_cwd] at h
    exact int_settled (n := rename) rfl (fun _ => rfl) h hrun hcalled
  | fstat =>
    have h := sysNewfstatat_ends (O := O) (w := w) (toInt a.a0) TUX_AT_EMPTY_PATH 0 a.a1
    rw [if_neg (by decide)] at h
    exact int_settled (n := fstat) rfl (fun _ => rfl) h hrun hcalled
  | stat =>
    have h := sysNewfstatat_ends (O := O) (w := w) TUX_AT_FDCWD 0 a.a0 a.a1
    rw [lookups_cwd, ite_self] at h
    exact int_settled (n := stat) rfl (fun _ => rfl) h hrun hcalled
  | lstat =>
    have h := sysNewfstatat_ends (O := O) (w := w) TUX_AT_FDCWD 0 a.a0 a.a1
    rw [lookups_cwd, ite_self] at h
    exact int_settled (n := lstat) rfl (fun _ => rfl) h hrun hcalled
  | readlinkat => exact link_settled (n := readlinkat) rfl (fun _ => rfl) (sysReadlinkat_ends _ _ _ _) hrun hcalled
  | readlink =>
    have h := sysReadlinkat_ends (O := O) (w := w) TUX_AT_FDCWD a.a0 a.a1 a.a2
    rw [lookups_cwd] at h
    exact link_settled (n := readlink) rfl (fun _ => rfl) h hrun hcalled
  | clockGettime =>
    exact errno_settled (n := clockGettime) rfl (fun _ => rfl) (sysClockGettime_ends _ _) hrun hcalled
  | ioctl => exact errno_settled (n := ioctl) rfl (fun _ => rfl) (sysIoctl_ends _ _ _) hrun hcalled
  | futex => exact futex_settled (sysFutex_ends _ _ _ _) hrun hcalled
  | schedYield => exact schedYield_settled hrun hcalled
  | pread64 => exact pread64_settled hrun hcalled
  | truncate => exact truncate_settled hrun hcalled
  | writev => exact vector_settled (n := writev) sysWrite_entry rfl rfl (fun _ => rfl) hrun
  | readv => exact vector_settled (n := readv) sysRead_entry rfl rfl (fun _ => rfl) hrun
  | mprotect =>
    have h := mprotect_settled herrno hrun
    exact ⟨h.mpr, fun _ => h.mp⟩
  | _ => cases hn

end
end Sysno

/-- The register that holds the answer. -/
def Arch.answer : (A : Arch) → A.machine.Regs → Word
  | .x64, (regs : X64.TuxRegs) => regs.rax
  | .arm64, (regs : Arm64.TuxRegs) => regs.x 0

/-- The answer is in the register for it. -/
lemma Arch.answer_regsReturn (A : Arch) (regs : A.machine.Regs) (v : Word) :
    A.answer (A.machine.regsReturn regs v) = v := by
  cases A with
  | x64 => rfl
  | arm64 => rfl

section
variable {L : LibMMap} {H : HostVm} {O : HostOs} {opts : TuxOptions} {A : Arch}

/-- The world with other registers. -/
def World.setRegs {M : Machine} (w : World L M) (regs : M.Regs) : World L M :=
  { w with p := { w.p with regs } }

/-- The registers are the new ones. -/
lemma World.setRegs_p_regs {M : Machine} (w : World L M) (regs : M.Regs) :
    (w.setRegs regs).p.regs = regs := rfl

section
variable {M : Machine} {n : Sysno} {a : Args} {w w' : World L M} {v : Word} (regs : M.Regs)

/-- Which calls the host got does not depend on them, -/
lemma Sysno.called_setRegs : n.Called a w (w'.setRegs regs) ↔ n.Called a w w' := by
  cases n <;> rfl

/-- nor does what they prescribe, -/
lemma Sysno.follows_setRegs : n.Follows H O a w (w'.setRegs regs) v ↔ n.Follows H O a w w' v := by
  cases n <;> rfl

/-- nor when that is met. -/
lemma Sysno.meets_setRegs : n.Meets H O a w (w'.setRegs regs) ↔ n.Meets H O a w w' := by
  cases n <;> rfl

end

/-- Inversion of a system call that returned to the guest. -/
lemma archSyshandle_ok {n : Sysno} {w w' : World L A.machine} {out : List Ev}
    (hsys : A.sysno (A.request w.p.regs).1 = some n)
    (h : (archSyshandle H O opts A).run w = ⟨.ok (), w', out⟩) :
    ∃ v w₁ l, (syscall H O opts A n (A.request w.p.regs).2).run w = ⟨.ok v, w₁, l⟩ ∧
      w' = w₁.setRegs (A.machine.regsReturn w₁.p.regs v) := by
  rw [archSyshandle, Exec.bind_run, Exec.get_run, Exec.andThen_ok_nil, Exec.bind_run, syshandle, hsys] at h
  dsimp only at h
  generalize (syscall H O opts A n (A.request w.p.regs).2).run w = r at h
  obtain ⟨val, w₁, l⟩ := r
  cases val with
  | error e =>
    rw [Exec.andThen_error] at h
    injection h with hv
    cases hv
  | ok v =>
    rw [Exec.andThen_ok, Exec.modify_run] at h
    injection h with _ hw
    exact ⟨v, w₁, l, rfl, hw.symm⟩

/-- When a system call that ends in a host wrapper returns to the guest after its host call, the return
register holds what the convention prescribes if `Sysno.Meets` holds: no host call failed, for most
calls. Conversely, a register that holds it shows `Sysno.Meets`, unless it holds the refusal of an entry
of a vector. -/
theorem host_errors_reported (herrno : ∀ k, H.errno k < 4096) {n : Sysno} {w w' : World L A.machine}
    {out : List Ev} (hsys : A.sysno (A.request w.p.regs).1 = some n) (hn : n.hosted = true)
    (hrun : (archSyshandle H O opts A).run w = ⟨.ok (), w', out⟩)
    (hcalled : n.Called (A.request w.p.regs).2 w w') :
    (n.Meets H O (A.request w.p.regs).2 w w' →
      n.Follows H O (A.request w.p.regs).2 w w' (A.answer w'.p.regs)) ∧
    ((n.vector = true → (A.answer w'.p.regs).msb = false) →
      n.Follows H O (A.request w.p.regs).2 w w' (A.answer w'.p.regs) →
      n.Meets H O (A.request w.p.regs).2 w w') := by
  obtain ⟨v, w₁, l, hcall, rfl⟩ := archSyshandle_ok hsys hrun
  rw [World.setRegs_p_regs, A.answer_regsReturn, Sysno.meets_setRegs, Sysno.follows_setRegs]
  exact Sysno.syscall_settled herrno hn hcall ((Sysno.called_setRegs _).mp hcalled)

end

/-- A thread that asks for 16 random bytes without waiting. -/
def randomStart : World .ofRanges Arch.x64.machine :=
  .ofThread { procnewfile (M := .x64) (.fresh .plain) 1 with
    regs := { X64.TuxRegs.zero with
      rax := 318, rdi := LFIAddrSpaceInfo.plain.minaddr, rsi := 16, rdx := 1 } }

/-- Where the host returns no bytes, the guest reads `0`. -/
theorem host_errors_reported_getrandom :
    ∃ w' out, (archSyshandle .open .plain .plain .x64).run randomStart = ⟨.ok (), w', out⟩ ∧
      Sysno.getrandom.Follows .open .plain (Arch.x64.request randomStart.p.regs).2 randomStart w'
        (Arch.x64.answer w'.p.regs) := by
  have hok : ((archSyshandle .open .plain .plain .x64).run randomStart).val = .ok () := by
    decide +kernel
  have hcall : ((archSyshandle .open .plain .plain .x64).run randomStart).st.ncall = 1 := by
    decide +kernel
  have hks : Sysno.getrandom.hostCalls (Arch.x64.request randomStart.p.regs).2 randomStart
      ((archSyshandle .open .plain .plain .x64).run randomStart).st = [0] := by
    rw [Sysno.hostCalls, hcall]
    rfl
  have hcalled : Sysno.getrandom.Called (Arch.x64.request randomStart.p.regs).2 randomStart
      ((archSyshandle .open .plain .plain .x64).run randomStart).st := by
    change Sysno.hostCalls _ _ _ _ ≠ []
    rw [hks]
    exact List.cons_ne_nil 0 []
  have herrno : ∀ k, HostVm.open.errno k < 4096 := fun _ => show 12 < 4096 by decide
  have hsys : Arch.x64.sysno (Arch.x64.request randomStart.p.regs).1 = some .getrandom := by decide
  refine ⟨_, _, Res.eq_mk hok, (host_errors_reported herrno hsys rfl (Res.eq_mk hok) hcalled).1 ?_⟩
  intro j _
  rfl

/-- A host on which every call fails with `EAGAIN`. -/
def HostOs.again : HostOs where
  ret _ := none
  errno _ := TUX_EAGAIN
  data _ _ := 0
  isdir _ := false
  newfile _ := .nofile
  ret_lt h := by cases h
  errno_pos _ := by decide
  errno_lt _ := by decide

/-- The failure of a host call comes back as a length: `EAGAIN` as 11 bytes that were never stored. -/
theorem getrandom_eagain_is_eleven :
    ∃ w' out, (archSyshandle .open .again .plain .x64).run randomStart = ⟨.ok (), w', out⟩ ∧
      Sysno.getrandom.Called (Arch.x64.request randomStart.p.regs).2 randomStart w' ∧
      Arch.x64.answer w'.p.regs = 11 ∧
      ¬ Sysno.getrandom.Follows .open .again (Arch.x64.request randomStart.p.regs).2 randomStart w'
        (Arch.x64.answer w'.p.regs) := by
  have hok : ((archSyshandle .open .again .plain .x64).run randomStart).val = .ok () := by
    decide +kernel
  have hcall : ((archSyshandle .open .again .plain .x64).run randomStart).st.ncall = 1 := by
    decide +kernel
  have hanswer : Arch.x64.answer ((archSyshandle .open .again .plain .x64).run randomStart).st.p.regs =
      11 := by
    decide +kernel
  have hks : Sysno.getrandom.hostCalls (Arch.x64.request randomStart.p.regs).2 randomStart
      ((archSyshandle .open .again .plain .x64).run randomStart).st = [0] := by
    rw [Sysno.hostCalls, hcall]
    rfl
  refine ⟨_, _, Res.eq_mk hok, ?_, hanswer, ?_⟩
  · change Sysno.hostCalls _ _ _ _ ≠ []
    rw [hks]
    exact List.cons_ne_nil 0 []
  · change ¬ (_ = Sysno.prescribed _ _ (Sysno.hostCalls _ _ _ _) ∨ _)
    rw [hanswer, hks]
    decide

end Libtux
