import Libtux.Sys.World

/-!
# System calls on threads

Model of `src/syscalls/sys_thread.c` and `src/syscalls/sys_proc.c`, of `procnewthread` (`src/proc.c`) and
of `src/host/linux/futex.c`. `spawn` is cut at the points where other threads can see it: the new thread
is prepared (`spawnPrepare`), started, and its id stored for the parent (`spawnPublish`).
-/

namespace Libtux
open Lib

def TUX_FUTEX_WAIT : CInt := 0
def TUX_FUTEX_WAKE : CInt := 1
def TUX_FUTEX_REQUEUE : CInt := 3
def TUX_FUTEX_PRIVATE_FLAG : CInt := 128

def TUX_CLONE_VM : CInt := 0x100
def TUX_CLONE_FS : CInt := 0x200
def TUX_CLONE_FILES : CInt := 0x400
def TUX_CLONE_SIGHAND : CInt := 0x800
def TUX_CLONE_VFORK : CInt := 0x4000
def TUX_CLONE_THREAD : CInt := 0x10000
def TUX_CLONE_SYSVSEM : CInt := 0x40000
def TUX_CLONE_SETTLS : CInt := 0x80000
def TUX_CLONE_PARENT_SETTID : CInt := 0x100000
def TUX_CLONE_CHILD_CLEARTID : CInt := 0x200000
def TUX_CLONE_DETACHED : CInt := 0x400000
def TUX_CLONE_CHILD_SETTID : CInt := 0x1000000
def TUX_CLONE_IO : CInt := 0x80000000
def TUX_SIGCHLD : CInt := 0x11

/-! ## Flags of clone -/

/-- A constant of the source as a 64-bit word. -/
def flag64 (f : CInt) : Word := f.setWidth 64

/-- `isfork`. -/
def isfork (flags : Word) : Bool :=
  let allowed := flag64 (TUX_CLONE_CHILD_SETTID ||| TUX_CLONE_CHILD_CLEARTID)
  flags &&& ~~~allowed = flag64 TUX_SIGCHLD ∨
    flags &&& ~~~allowed = flag64 (TUX_CLONE_VM ||| TUX_CLONE_VFORK ||| TUX_SIGCHLD)

/-- `allowed` in `spawn`. -/
def spawnAllowed : CInt :=
  TUX_CLONE_THREAD ||| TUX_CLONE_VM ||| TUX_CLONE_FS ||| TUX_CLONE_FILES ||| TUX_CLONE_SIGHAND |||
  TUX_CLONE_SETTLS ||| TUX_CLONE_PARENT_SETTID ||| TUX_CLONE_CHILD_CLEARTID |||
  TUX_CLONE_CHILD_SETTID ||| TUX_CLONE_SYSVSEM

/-- `required` in `spawn`. -/
def spawnRequired : CInt :=
  TUX_CLONE_THREAD ||| TUX_CLONE_VM ||| TUX_CLONE_FS ||| TUX_CLONE_FILES ||| TUX_CLONE_SIGHAND

/-- `ignored` in `spawn`. -/
def spawnIgnored : CInt := TUX_CLONE_DETACHED ||| TUX_CLONE_IO

/-- The flags that `spawn` goes on with, or `none` for `EINVAL`. The masks are `unsigned`, so that their
complements have no bit in the upper half: `flags &= ~ignored` clears that half, and `flags & ~allowed`
does not see it. `~0xff` is an `int` and keeps it. -/
def spawnFlags (flags : Word) : Option Word :=
  if flags &&& 0xff ≠ 0 ∧ flags &&& 0xff ≠ flag64 TUX_SIGCHLD then none
  else
    let flags := flags &&& ~~~0xff &&& flag64 (~~~spawnIgnored)
    if flags &&& flag64 (~~~spawnAllowed) ≠ 0 then none
    else if flags &&& flag64 spawnRequired ≠ flag64 spawnRequired then none
    else some flags

/-- Is a flag set? -/
def hasFlag (flags : Word) (f : CInt) : Bool := flags &&& flag64 f ≠ 0

section
variable {L : LibMMap} {M : Machine} (H : HostVm) (O : HostOs) (opts : TuxOptions)

/-! ## Futexes -/

/-- A futex call of the host, which reads the word at `uaddr` and returns what `syscall` returns: `-1`
when it fails. -/
def hostFutex (uaddr : Word) (c : FutexCall) : Sys L M Word := do
  touch uaddr 4
  Exec.modify fun w => { w with futexes := c :: w.futexes }
  match ← hostCall O with
  | none => pure (-1)
  | some r => pure (BitVec.ofNat 64 r)

/-- `futexwait`. The wrapper reads the timeout. -/
def futexwait (uaddr : Word) (op val : CInt) (timeoutp : Word) : Sys L M Word :=
  if timeoutp ≠ 0 then do
    match ← procbufalign timeoutp 16 8 with
    | none => pure (negErr TUX_EFAULT)
    | some timeout =>
      touch timeout 16
      hostFutex O uaddr (.wait uaddr op val (some timeout))
  else hostFutex O uaddr (.wait uaddr op val none)

/-- `sys_futex`. -/
def sysFutex (uaddrp : Word) (op val : CInt) (timeoutp : Word) : Sys L M Word :=
  if uaddrp &&& 3 ≠ 0 then pure (negErr TUX_EFAULT)
  else do
    match ← procbufalign uaddrp 4 4 with
    | none => pure (negErr TUX_EFAULT)
    | some uaddr =>
      let cmd := op &&& ~~~TUX_FUTEX_PRIVATE_FLAG
      if cmd = TUX_FUTEX_WAIT then futexwait O uaddr op val timeoutp
      else if cmd = TUX_FUTEX_WAKE then hostFutex O uaddr (.wake uaddr op val)
      else if cmd = TUX_FUTEX_REQUEUE then hostFutex O uaddr (.requeue uaddr op val)
      else pure (negErr TUX_EINVAL)

/-! ## Starting a thread -/

/-- `nexttid`. -/
def nexttid : Sys L M CInt := do
  let tid ← Exec.gets (·.nexttid)
  Exec.modify fun w => { w with nexttid := w.nexttid + 1 }
  pure tid

/-- `procnewthread`: the registers of a new context are replaced by a copy of the caller's. `none` when
there is no memory. -/
def procnewthread : Sys L M (Option (Spawned M)) := do
  match ← hostCall O with
  | none => pure none
  | some _ =>
    let tid ← nexttid
    let w ← Exec.get
    pure (some ⟨w.p.regs, w.p.as.info.base, 0, 0, tid⟩)

/-- What `spawn` sets in the new thread. -/
def Spawned.prepare (p2 : Spawned M) (flags stack ctidp tls : Word) : Spawned M where
  regs := M.regsSp (M.regsReturn p2.regs 0) (procaddr stack)
  sys := p2.sys
  tp := if hasFlag flags TUX_CLONE_SETTLS then tls else p2.tp
  ctid := if hasFlag flags TUX_CLONE_CHILD_CLEARTID then ctidp else p2.ctid
  tid := p2.tid

/-- Store a thread id, if the flag for it is set. -/
def storeTid (set : Bool) (ptr : Word) (tid : CInt) : Sys L M Unit :=
  if set then do
    ask ptr 4
    store32 ptr tid
  else pure ()

/-- The part of `spawn` before `pthread_create`. -/
def spawnPrepare (flags stack ctidp tls : Word) : Sys L M (Option (Spawned M)) := do
  match ← procnewthread O with
  | none => pure none
  | some p2 =>
    storeTid (hasFlag flags TUX_CLONE_CHILD_SETTID) (procaddr ctidp) p2.tid
    pure (some (p2.prepare flags stack ctidp tls))

/-- `pthread_create`; failure is not implemented. -/
def spawnStart (p2 : Spawned M) : Sys L M Unit := do
  let r ← hostCall O
  Exec.check (r.isSome = true) (.assertion .freeMachine)
  Exec.modify fun w => { w with started := p2 :: w.started }

/-- The part of `spawn` after `pthread_create`. -/
def spawnPublish (flags ptidp : Word) (p2 : Spawned M) : Sys L M Word := do
  storeTid (hasFlag flags TUX_CLONE_PARENT_SETTID) (procaddr ptidp) p2.tid
  pure (p2.tid.signExtend 64)

/-- `spawn`. -/
def spawn (flags stack ptidp ctidp tls : Word) : Sys L M Word :=
  match spawnFlags flags with
  | none => pure (negErr TUX_EINVAL)
  | some flags => do
    match ← spawnPrepare O flags stack ctidp tls with
    | none => pure (negErr TUX_EAGAIN)
    | some p2 =>
      spawnStart O p2
      spawnPublish flags ptidp p2

/-- `sys_clone`. -/
def sysClone (flags stack ptid ctid tls : Word) : Sys L M Word := do
  Exec.check (isfork flags = false) (.assertion .fork)
  spawn O flags stack ptid ctid tls

/-! ## The rest -/

/-- `sys_sched_getaffinity`. The mask goes to an address that nothing checks. -/
def sysSchedGetaffinity (cpusetsize maskaddr : Word) : Sys L M Word := do
  let count ← hostCall O
  let count : CInt := BitVec.ofNat 32 (count.getD 0)
  let rc : CInt := (ceilp (count.setWidth 64) 64 / 8).setWidth 32
  if cpusetsize < rc.setWidth 64 then pure (negErr TUX_EINVAL)
  else do
    match ← hostCall O with
    | none => pure (negErr TUX_ENOMEM)
    | some _ =>
      ask (procaddr maskaddr) rc.toNat
      touch (procaddr maskaddr) rc.toNat
      Exec.modify fun w => w.fill O (procaddr maskaddr) (rc.setWidth 64)
      pure (rc.setWidth 64)

/-- `sys_sched_yield`: what the host's `sched_yield` returns, `-1` when it fails. -/
def sysSchedYield : Sys L M Word := do
  match ← hostCall O with
  | none => pure (-1)
  | some _ => pure 0

/-- `sys_set_tid_address`. -/
def sysSetTidAddress (ctid : Word) : Sys L M Word := do
  Exec.modify fun w => { w with p := { w.p with ctid := procaddr ctid } }
  let w ← Exec.get
  pure (w.p.tid.signExtend 64)

/-- `sys_gettid`. -/
def sysGettid : Sys L M Word := Exec.gets fun w => w.p.tid.signExtend 64

def INT_MAX : CInt := 0x7fffffff

/-- The store of `clearctid`. -/
def clearctidStore : Sys L M Unit := do
  let ctid ← Exec.gets (·.p.ctid)
  if ctid ≠ 0 then store32 (procaddr ctid) 0 else pure ()

/-- The wake of `clearctid`. -/
def clearctidWake : Sys L M Unit := do
  let ctid ← Exec.gets (·.p.ctid)
  let _ ← sysFutex O ctid TUX_FUTEX_WAKE INT_MAX 0

/-- `clearctid`. -/
def clearctid : Sys L M Unit := do
  clearctidStore
  clearctidWake O

/-- Leave the sandbox. -/
def leaveWith (code : Word) : Sys L M Word := Exec.stop (if opts.pauseOnExit then .pause code else .exit code)

/-- `sys_exit`. -/
def sysExit (code : Word) : Sys L M Word := do
  clearctid O
  leaveWith opts code

/-- `sys_exit_group`. -/
def sysExitGroup (code : Word) : Sys L M Word := leaveWith opts code

end

/-! ## How they run -/

section
variable {L : LibMMap} {M : Machine} {O : HostOs} {w : World L M}

/-- The world after a word was stored. -/
def World.put32 (w : World L M) (ptr : Word) (v : CInt) : World L M :=
  w.setMem (splice w.mem ptr 4 (bytes64 (v.setWidth 64)))

/-- A word is stored. -/
lemma store32_run (ptr : Word) (v : CInt) (w : World L M) :
    (store32 ptr v).run w = ⟨.ok (), w.put32 ptr v, [.touch ⟨ptr, 4⟩]⟩ := by
  simp only [store32, touch, Exec.bind_run, Exec.tell_run, Exec.andThen_ok, Exec.modify_run,
    List.append_nil, World.put32]

/-- It is there. -/
lemma put32_word (w : World L M) (ptr : Word) (v : CInt) : (w.put32 ptr v).word ptr = v :=
  le32_splice w.mem ptr v

/-- An id is stored, or not. -/
lemma storeTid_run (set : Bool) (ptr : Word) (tid : CInt) (w : World L M) :
    (storeTid set ptr tid).run w =
      if set then ⟨.ok (), w.put32 ptr tid, [.ask ⟨ptr, 4⟩, .touch ⟨ptr, 4⟩]⟩ else ⟨.ok (), w, []⟩ := by
  cases set with
  | false => rfl
  | true =>
    simp only [storeTid, if_true, ask, Exec.bind_run, Exec.tell_run, Exec.andThen_ok, store32_run,
      List.singleton_append]

/-- The world after one more host call. -/
def World.called (w : World L M) : World L M := { w with ncall := w.ncall + 1 }

/-- The next call of the host. -/
lemma hostCall_run (w : World L M) : (hostCall O).run w = ⟨.ok (O.ret w.ncall), w.called, []⟩ := rfl

/-- The world after a thread id was taken. -/
def World.tidTaken (w : World L M) : World L M := { w with nexttid := w.nexttid + 1 }

/-- The new thread, a copy of the caller. -/
def World.newthread (w : World L M) : Spawned M := ⟨w.p.regs, w.p.as.info.base, 0, 0, w.nexttid⟩

/-- What `procnewthread` does. -/
lemma procnewthread_run (w : World L M) :
    (procnewthread O).run w =
      if (O.ret w.ncall).isSome then ⟨.ok (some w.newthread), w.called.tidTaken, []⟩
      else ⟨.ok none, w.called, []⟩ := by
  simp only [procnewthread, Exec.bind_run, hostCall_run, Exec.andThen_ok_nil]
  cases O.ret w.ncall with
  | none => rfl
  | some r => rfl

/-- What `spawn` does first, -/
lemma spawnPrepare_run (flags stack ctidp tls : Word) (w : World L M) :
    (spawnPrepare O flags stack ctidp tls).run w =
      if (O.ret w.ncall).isSome then
        if hasFlag flags TUX_CLONE_CHILD_SETTID then
          ⟨.ok (some (w.newthread.prepare flags stack ctidp tls)),
            w.called.tidTaken.put32 (procaddr ctidp) w.nexttid,
            [.ask ⟨procaddr ctidp, 4⟩, .touch ⟨procaddr ctidp, 4⟩]⟩
        else ⟨.ok (some (w.newthread.prepare flags stack ctidp tls)), w.called.tidTaken, []⟩
      else ⟨.ok none, w.called, []⟩ := by
  simp only [spawnPrepare, Exec.bind_run, procnewthread_run]
  cases O.ret w.ncall with
  | none => simp
  | some r =>
    simp only [Option.isSome_some, if_true, Exec.andThen_ok_nil, Exec.bind_run, storeTid_run]
    cases hasFlag flags TUX_CLONE_CHILD_SETTID with
    | false => simp
    | true => simp [World.newthread]

/-- when it starts the thread, -/
lemma spawnStart_run (p2 : Spawned M) (w : World L M) :
    (spawnStart O p2).run w =
      if (O.ret w.ncall).isSome then ⟨.ok (), { w.called with started := p2 :: w.started }, []⟩
      else ⟨.error (.assertion .freeMachine), w.called, []⟩ := by
  simp only [spawnStart, Exec.bind_run, hostCall_run, Exec.andThen_ok_nil, Exec.check_run]
  cases O.ret w.ncall with
  | none => simp
  | some r =>
    simp
    rfl

/-- and after that. -/
lemma spawnPublish_run (flags ptidp : Word) (p2 : Spawned M) (w : World L M) :
    (spawnPublish flags ptidp p2).run w =
      if hasFlag flags TUX_CLONE_PARENT_SETTID then
        ⟨.ok (p2.tid.signExtend 64), w.put32 (procaddr ptidp) p2.tid,
          [.ask ⟨procaddr ptidp, 4⟩, .touch ⟨procaddr ptidp, 4⟩]⟩
      else ⟨.ok (p2.tid.signExtend 64), w, []⟩ := by
  simp only [spawnPublish, Exec.bind_run, storeTid_run]
  cases hasFlag flags TUX_CLONE_PARENT_SETTID with
  | false => simp
  | true => simp

end
end Libtux
