import Libtux.Lib.Trace
import Libtux.Sys.Runs

/-!
# What a system call leaves alone

`Sysno.changes` is a table of the parts of the state that each system call may change: the descriptors and
file objects, the mappings, the break, the threads, and what the calling thread keeps about itself.
`Frames S W` says of a run that the parts outside of `S` are as before, and that guest memory, unless `S` has
the mappings, is as before at every address that was not touched and is not in `W`. It composes, so a call is
taken apart by the rules of `Respects`; a store is framed by the `touch` that announces it
(`respects_touch`). `syscall_frames` is the frame of every call.
-/

namespace Libtux
open Lib Exec

/-- An address of a range. -/
def Range.Has (r : Range) (x : Word) : Prop := (x - r.ptr).toNat < r.len

instance (r : Range) (x : Word) : Decidable (r.Has x) := inferInstanceAs (Decidable (_ < _))

/-- The parts of the state in which system calls differ. -/
inductive Part where
  /-- The records and the protections of the address space. -/
  | space
  /-- The break. -/
  | heap
  /-- The descriptors, the current directory and the file objects. -/
  | files
  /-- The threads that were started, and the counter of their ids. -/
  | threads
  /-- The thread pointer and the address to clear of the calling thread. -/
  | self
  deriving DecidableEq

section
variable {L : LibMMap} {M : Machine}

/-- What a run that goes from `w` to `w'` with the events `l` leaves alone. -/
structure Frames (S : Part → Bool) (W : Word → Prop) (w : World L M) (l : List Ev) (w' : World L M) : Prop where
  info : w'.info = w.info
  brkbase : w'.p.brkbase = w.p.brkbase
  regs : w'.p.regs = w.p.regs
  sys : w'.p.sys = w.p.sys
  tid : w'.p.tid = w.p.tid
  space : S .space = false → w'.p.as = { w.p.as with mem := w'.mem }
  mem : S .space = false → ∀ x, w'.mem x ≠ w.mem x → W x ∨ ∃ r, .touch r ∈ l ∧ r.Has x
  heap : S .heap = false → w'.p.brksize = w.p.brksize
  files : S .files = false → w'.fds = w.fds ∧ w'.files = w.files
  threads : S .threads = false → w'.started = w.started ∧ w'.nexttid = w.nexttid
  self : S .self = false → w'.p.tp = w.p.tp ∧ w'.p.ctid = w.p.ctid

/-- No address. -/
def nowhere (_ : Word) : Prop := False

variable {S : Part → Bool} {W : Word → Prop} {O : HostOs} {α : Type}

/-- Another thread of control with the same process is framed. -/
lemma Frames.of_p {w w' : World L M} {l : List Ev} (hp : w'.p = w.p)
    (hfiles : S .files = false → w'.fds = w.fds ∧ w'.files = w.files)
    (hthreads : S .threads = false → w'.started = w.started ∧ w'.nexttid = w.nexttid) :
    Frames S W w l w' := by
  have hmem : w'.mem = w.mem := congrArg (fun p => p.as.mem) hp
  constructor
  case mem =>
    intro _ x hx
    exact absurd (congrFun hmem x) hx
  case space =>
    intro _
    rw [hmem, hp]
    rfl
  case files => exact hfiles
  case threads => exact hthreads
  case info => exact congrArg (fun p => p.as.info) hp
  case self => exact fun _ => ⟨congrArg TuxThread.tp hp, congrArg TuxThread.ctid hp⟩
  all_goals simp only [hp, implies_true]

/-- Nothing but the host was called. -/
lemma Frames.of_host {w : World L M} {l : List Ev} (n : Nat) (f : List FutexCall) :
    Frames S W w l { w with ncall := n, futexes := f } :=
  .of_p rfl (fun _ => ⟨rfl, rfl⟩) fun _ => ⟨rfl, rfl⟩

/-- A run that leaves its state is framed. -/
lemma Frames.refl (w : World L M) (l : List Ev) : Frames S W w l w := .of_host w.ncall w.futexes

/-- What two runs leave alone, the one after the other leaves alone. -/
lemma frames_composes : Composes (Frames (L := L) (M := M) S W) where
  nil w := .refl w []
  append {w w' w'' l l'} h h' := by
    constructor
    case info => exact h'.info.trans h.info
    case brkbase => exact h'.brkbase.trans h.brkbase
    case regs => exact h'.regs.trans h.regs
    case sys => exact h'.sys.trans h.sys
    case tid => exact h'.tid.trans h.tid
    case space =>
      intro hS
      rw [h'.space hS, h.space hS]
    case mem =>
      intro hS x hx
      by_cases hne : w''.mem x = w'.mem x
      · rw [hne] at hx
        rcases h.mem hS x hx with hW | ⟨r, hr, hin⟩
        · exact .inl hW
        · exact .inr ⟨r, List.mem_append_left _ hr, hin⟩
      · rcases h'.mem hS x hne with hW | ⟨r, hr, hin⟩
        · exact .inl hW
        · exact .inr ⟨r, List.mem_append_right _ hr, hin⟩
    case heap => exact fun hS => (h'.heap hS).trans (h.heap hS)
    case files => exact fun hS => ⟨(h'.files hS).1.trans (h.files hS).1, (h'.files hS).2.trans (h.files hS).2⟩
    case threads =>
      exact fun hS => ⟨(h'.threads hS).1.trans (h.threads hS).1, (h'.threads hS).2.trans (h.threads hS).2⟩
    case self => exact fun hS => ⟨(h'.self hS).1.trans (h.self hS).1, (h'.self hS).2.trans (h.self hS).2⟩

/-- Parts that may change in `S` may change in a larger set. -/
lemma Frames.mono {S' : Part → Bool} (hS : ∀ p, S' p = false → S p = false) {w w' : World L M} {l : List Ev}
    (h : Frames S W w l w') : Frames S' W w l w' where
  info := h.info
  brkbase := h.brkbase
  regs := h.regs
  sys := h.sys
  tid := h.tid
  space hp := h.space (hS _ hp)
  mem hp := h.mem (hS _ hp)
  heap hp := h.heap (hS _ hp)
  files hp := h.files (hS _ hp)
  threads hp := h.threads (hS _ hp)
  self hp := h.self (hS _ hp)

/-! ## Stores -/

/-- A store to addresses of `W`. -/
lemma frames_setMem {w : World L M} {mem : Word → Byte} {l : List Ev}
    (h : ∀ x, mem x ≠ w.mem x → W x) : Frames S W w l (w.setMem mem) := by
  constructor
  case mem => exact fun _ x hx => .inl (h x hx)
  all_goals simp only [World.setMem, World.info, World.mem, implies_true, and_self]

/-- The same as a step of a program. -/
lemma respects_store {f : World L M → Word → Byte} (h : ∀ w x, f w x ≠ w.mem x → W x) :
    Respects (Frames S W) (modify fun w => w.setMem (f w) : Sys L M Unit) :=
  respects_modify fun w => frames_setMem (h w)

/-- A splice changes its own addresses only. -/
lemma splice_has {f g : Word → Byte} {p n x : Word} {len : Nat} (hn : n.toNat ≤ len)
    (h : splice f p n g x ≠ f x) : Range.Has ⟨p, len⟩ x := by
  have hlt : x - p < n := by
    by_contra hge
    exact h (splice_of_not_lt hge)
  exact lt_of_lt_of_le hlt hn

/-- A store is announced by a `touch`. -/
lemma respects_touch {p : Word} {len : Nat} {f : Unit → Sys L M α}
    (h : Respects (Frames S fun x => W x ∨ Range.Has ⟨p, len⟩ x) (f ())) :
    Respects (Frames S W) (touch p len >>= f) := by
  intro w
  have hf := h w
  unfold RespectsAt at hf ⊢
  rw [bind_run, touch_run, andThen_ok]
  generalize (f ()).run w = r at hf
  constructor
  case mem =>
    intro hS x hx
    rcases hf.mem hS x hx with (hW | hin) | ⟨r', hr', hin⟩
    · exact .inl hW
    · exact .inr ⟨_, List.mem_append_left _ (List.mem_singleton_self _), hin⟩
    · exact .inr ⟨r', List.mem_append_right _ hr', hin⟩
  case info => exact hf.info
  case brkbase => exact hf.brkbase
  case regs => exact hf.regs
  case sys => exact hf.sys
  case tid => exact hf.tid
  case space => exact hf.space
  case heap => exact hf.heap
  case files => exact hf.files
  case threads => exact hf.threads
  case self => exact hf.self

/-- To touch a range changes nothing, -/
lemma touch_frames (p : Word) (len : Nat) : Respects (Frames S W) (touch p len : Sys L M Unit) :=
  respects_tell fun w => .refl w _

/-- nor does to be asked for one. -/
lemma ask_frames (p : Word) (len : Nat) : Respects (Frames S W) (ask p len : Sys L M Unit) :=
  respects_tell fun w => .refl w _

/-- What the host fills is in the range that it was given. -/
lemma fill_frames {p len : Word} {n : Nat} (hn : len.toNat ≤ n) :
    Respects (Frames S fun x => W x ∨ Range.Has ⟨p, n⟩ x) (modify fun w => w.fill O p len : Sys L M Unit) :=
  respects_store fun _ _ hx => .inr (splice_has hn hx)

/-- A word is stored where it is touched. -/
lemma store32_frames (p : Word) (v : CInt) : Respects (Frames S W) (store32 p v : Sys L M Unit) :=
  respects_touch (respects_store fun _ _ hx => .inr (splice_has le_rfl hx))

/-! ## Accessors and wrappers -/

/-- A run that returns its state but for what the host counts. -/
lemma frames_of_run {x : Sys L M α} (h : ∀ w : World L M, ∃ n, (x.run w).st = w.calls n) :
    Respects (Frames S W) x := by
  intro w
  obtain ⟨n, hn⟩ := h w
  rw [RespectsAt, hn]
  exact .of_host _ _

/-- `procbuf` changes nothing. -/
lemma procbuf_frames (p size : Word) : Respects (Frames S W) (procbuf p size : Sys L M _) :=
  frames_of_run fun w => ⟨0, by rw [procbuf_run]; rfl⟩

/-- `procbufalign` changes nothing. -/
lemma procbufalign_frames (p size : Word) (align : Nat) :
    Respects (Frames S W) (procbufalign p size align : Sys L M _) :=
  frames_of_run fun w => ⟨0, by rw [procbufalign_run]; rfl⟩

/-- `procpath` changes nothing. -/
lemma procpath_frames (p : Word) : Respects (Frames S W) (procpath p : Sys L M _) :=
  frames_of_run fun w => ⟨0, by rw [procpath_run]; rfl⟩

/-- A call of the host is counted. -/
lemma hostCall_frames : Respects (Frames S W) (hostCall O : Sys L M _) :=
  frames_of_run fun _ => ⟨1, rfl⟩

/-- So is one that answers a size, -/
lemma hostSize_frames : Respects (Frames S W) (hostSize O : Sys L M _) :=
  frames_of_run fun w => ⟨1, by rw [hostSize_run]; rfl⟩

/-- one that answers an `int`, -/
lemma hostInt_frames : Respects (Frames S W) (hostInt O : Sys L M _) :=
  frames_of_run fun w => ⟨1, by rw [hostInt_run]; rfl⟩

/-- and one that asks for a directory. -/
lemma hostIsdir_frames : Respects (Frames S W) (hostIsdir O : Sys L M _) :=
  frames_of_run fun w => ⟨1, by rw [hostIsdir_run]⟩

/-- `getfdir` changes nothing. -/
lemma getfdir_frames (dirfd : CInt) : Respects (Frames S W) (getfdir O dirfd : Sys L M _) :=
  frames_of_run fun w => ⟨_, by rw [getfdir_run]⟩

/-- A part of the state is read. -/
lemma gets_frames (f : World L M → α) : Respects (Frames S W) (gets f : Sys L M α) :=
  respects_gets frames_composes f

/-- A value is returned. -/
lemma pure_frames (a : α) : Respects (Frames S W) (pure a : Sys L M α) := respects_pure frames_composes a

/-- Two parts of a call that are framed are so together. -/
lemma bind_frames {β : Type} {x : Sys L M α} {f : α → Sys L M β} (hx : Respects (Frames S W) x)
    (hf : ∀ a, Respects (Frames S W) (f a)) : Respects (Frames S W) (x >>= f) :=
  Respects.bind frames_composes hx hf

/-- The state is read, and used. -/
lemma get_frames {f : World L M → Sys L M α} (hf : ∀ w, Respects (Frames S W) (f w)) :
    Respects (Frames S W) (get >>= f) := bind_frames (respects_get frames_composes) hf

/-- An assertion changes nothing. -/
lemma check_frames (p : Prop) [Decidable p] (e : Stop) : Respects (Frames S W) (check p e : Sys L M Unit) :=
  respects_check frames_composes p e

/-- An accessor that may refuse, and what is done with what it returns. -/
lemma option_frames {β : Type} {x : Sys L M (Option β)} {f : Option β → Sys L M α}
    (hx : Respects (Frames S W) x) (hnone : Respects (Frames S W) (f none))
    (hsome : ∀ b, Respects (Frames S W) (f (some b))) : Respects (Frames S W) (x >>= f) := by
  refine bind_frames hx fun o => ?_
  cases o with
  | none => exact hnone
  | some b => exact hsome b

/-- A buffer that the host fills is touched. -/
lemma hostFill_frames (p len : Word) : Respects (Frames S W) (hostFill O p len : Sys L M Word) := by
  unfold hostFill
  refine respects_touch (get_frames fun w => ?_)
  cases O.ret w.ncall with
  | none => exact hostSize_frames
  | some r =>
    refine bind_frames (fill_frames ?_) fun _ => hostSize_frames
    rw [BitVec.toNat_ofNat]
    exact (Nat.mod_le _ _).trans (Nat.min_le_right _ _)

/-- A structure that the host fills is touched. -/
lemma fillStruct_frames (p : Word) (len : Nat) : Respects (Frames S W) (fillStruct O p len : Sys L M Unit) := by
  refine respects_touch (fill_frames ?_)
  rw [BitVec.toNat_ofNat]
  exact Nat.mod_le _ _

/-- A string is copied to where it is touched. -/
lemma strcpyTo_frames (p : Word) (s : List Byte) : Respects (Frames S W) (strcpyTo p s : Sys L M Unit) := by
  refine respects_touch (respects_store fun _ _ hx => .inr (splice_has ?_ hx))
  rw [BitVec.toNat_ofNat]
  exact Nat.mod_le _ _

/-- A handler is framed as its body. -/
lemma withHandler_frames {fd : CInt} {op : FileOp} {e : Nat} {body : Sys L M Word}
    (h : Respects (Frames S W) body) : Respects (Frames S W) (withHandler fd op e body) := by
  refine get_frames fun w => ?_
  cases w.fdfile fd with
  | none => exact pure_frames _
  | some f => exact Respects.ite h (pure_frames _)

/-- A call with a path is framed as what it does with it. -/
lemma withPath_frames {p : Word} {f : Word → Sys L M Word} (h : ∀ a, Respects (Frames S W) (f a)) :
    Respects (Frames S W) (withPath p f) := option_frames (procpath_frames p) (pure_frames _) h

/-- A call with a directory is framed as what it does with it. -/
lemma withDir_frames {dirfd : CInt} {f : Option HostFile → Sys L M Word}
    (h : ∀ a, Respects (Frames S W) (f a)) : Respects (Frames S W) (withDir O dirfd f) :=
  option_frames (getfdir_frames dirfd) (pure_frames _) h

/-! ## Calls on files -/

/-- `sys_write` changes nothing. -/
lemma sysWrite_frames (fd : CInt) (p size : Word) :
    Respects (Frames S W) (sysWrite O fd p size : Sys L M Word) :=
  Respects.ite (pure_frames _) (withHandler_frames (option_frames (procbuf_frames _ _) (pure_frames _)
    fun _ => bind_frames (touch_frames _ _) fun _ => hostSize_frames))

/-- `sys_read` changes its buffer. -/
lemma sysRead_frames (fd : CInt) (p size : Word) :
    Respects (Frames S W) (sysRead O fd p size : Sys L M Word) :=
  Respects.ite (pure_frames _) (withHandler_frames (option_frames (procbuf_frames _ _) (pure_frames _)
    fun _ => hostFill_frames _ _))

/-- The loop over the entries of a vector, by induction on how many are left. -/
lemma iovLoop_frames {io : Word → Word → Sys L M Word} (hio : ∀ p n, Respects (Frames S W) (io p n))
    (iov : Word) (n i : Nat) (total : Word) : Respects (Frames S W) (iovLoop io iov n i total) := by
  induction n generalizing i total with
  | zero => exact pure_frames _
  | succ n ih =>
    refine bind_frames (touch_frames _ _) fun _ => get_frames fun w => bind_frames (hio _ _) fun r => ?_
    exact Respects.ite (pure_frames _) (ih _ _)

/-- A vector call changes what its transfers do. -/
lemma sysIov_frames {io : Word → Word → Sys L M Word} (hio : ∀ p n, Respects (Frames S W) (io p n))
    (iovp iovcnt : Word) : Respects (Frames S W) (sysIov io iovp iovcnt) :=
  bind_frames (ask_frames _ _) fun _ => option_frames (procbufalign_frames _ _ _) (pure_frames _)
    fun _ => iovLoop_frames hio _ _ _ _

/-- `sys_pread64` changes its buffer. -/
lemma sysPread64_frames (fd : CInt) (p size : Word) :
    Respects (Frames S W) (sysPread64 O fd p size : Sys L M Word) :=
  withHandler_frames <| withHandler_frames <| option_frames (procbuf_frames _ _) (pure_frames _) fun _ =>
    bind_frames hostSize_frames fun _ => bind_frames hostSize_frames fun _ =>
      bind_frames (hostFill_frames _ _) fun _ => bind_frames hostSize_frames fun _ => pure_frames _

/-- `sys_getdents64` changes its buffer. -/
lemma sysGetdents64_frames (fd : CInt) (p count : Word) :
    Respects (Frames S W) (sysGetdents64 O fd p count : Sys L M Word) :=
  withHandler_frames (option_frames (procbufalign_frames _ _ _) (pure_frames _) fun _ => hostFill_frames _ _)

/-- `sys_lseek` changes nothing. -/
lemma sysLseek_frames (fd whence : CInt) : Respects (Frames S W) (sysLseek O fd whence : Sys L M Word) :=
  withHandler_frames (bind_frames (check_frames _ _) fun _ => hostSize_frames)

/-- A call that hands its descriptor on changes nothing. -/
lemma sysHandler_frames (op : FileOp) (fd : CInt) : Respects (Frames S W) (sysHandler O op fd : Sys L M Word) :=
  withHandler_frames hostInt_frames

/-- `sys_newfstatat` changes its structure, when the host fills it. -/
lemma sysNewfstatat_frames (dirfd : CInt) (pathp statp : Word) (flags : CInt) :
    Respects (Frames S W) (sysNewfstatat O dirfd pathp statp flags : Sys L M Word) := by
  refine option_frames (procbufalign_frames _ _ _) (pure_frames _) fun stat => ?_
  have hcopy : Respects (Frames S W) (get >>= fun w =>
      if (O.ret w.ncall).isSome then
        touch stat 120 >>= fun _ => modify (fun w => w.fill O stat 120) >>= fun _ => hostInt O
      else hostInt O : Sys L M Word) :=
    get_frames fun _ => Respects.ite
      (respects_touch (bind_frames (fill_frames le_rfl) fun _ => hostInt_frames)) hostInt_frames
  exact Respects.ite (withPath_frames fun _ => withDir_frames fun _ => hcopy) (withHandler_frames hcopy)

/-- `sys_readlinkat` changes its buffer. -/
lemma sysReadlinkat_frames (dirfd : CInt) (pathp p size : Word) :
    Respects (Frames S W) (sysReadlinkat O dirfd pathp p size : Sys L M Word) := by
  refine withDir_frames fun _ => option_frames (procpath_frames _) ?_ fun path => ?_
  · exact bind_frames (procbuf_frames _ _) fun _ => pure_frames _
  · refine option_frames (procbuf_frames _ _) (pure_frames _) fun buf => ?_
    refine bind_frames (gets_frames _) fun n => bind_frames (hostFill_frames _ _) fun r => ?_
    exact Respects.ite (pure_frames _) (pure_frames _)

/-- `sys_truncate` changes nothing. -/
lemma sysTruncate_frames (p : Word) : Respects (Frames S W) (sysTruncate O p : Sys L M Word) :=
  withPath_frames fun _ => get_frames fun _ =>
    Respects.ite (bind_frames hostInt_frames fun _ => Respects.ite (pure_frames _) hostInt_frames)
      hostInt_frames

/-- `sys_unlinkat` changes nothing. -/
lemma sysUnlinkat_frames (dirfd : CInt) (p : Word) (flags : CInt) :
    Respects (Frames S W) (sysUnlinkat O dirfd p flags : Sys L M Word) :=
  withDir_frames fun _ => Respects.ite (pure_frames _) (withPath_frames fun _ => hostInt_frames)

/-- `sys_renameat` changes nothing. -/
lemma sysRenameat_frames (olddir : CInt) (oldp : Word) (newdir : CInt) (newp : Word) :
    Respects (Frames S W) (sysRenameat O olddir oldp newdir newp : Sys L M Word) := by
  refine bind_frames (getfdir_frames _) fun oldf => bind_frames (getfdir_frames _) fun newf => ?_
  cases oldf with
  | none => exact pure_frames _
  | some oldf =>
    cases newf with
    | none => exact pure_frames _
    | some newf =>
      refine option_frames (procpath_frames _) ?_ fun path => ?_
      · exact bind_frames (procpath_frames _) fun _ => pure_frames _
      · exact option_frames (procpath_frames _) (pure_frames _) fun _ => hostInt_frames

/-- `sys_faccessat2` changes nothing. -/
lemma sysFaccessat2_frames (dirfd : CInt) (p : Word) (flags : CInt) :
    Respects (Frames S W) (sysFaccessat2 O dirfd p flags : Sys L M Word) :=
  withDir_frames fun _ => Respects.ite (pure_frames _) (withPath_frames fun _ => hostInt_frames)

/-- `sys_mkdirat` changes nothing. -/
lemma sysMkdirat_frames (dirfd : CInt) (p : Word) :
    Respects (Frames S W) (sysMkdirat O dirfd p : Sys L M Word) :=
  withDir_frames fun _ => withPath_frames fun _ => hostInt_frames

/-- `host_getpath` changes its buffer, and the zero that it puts behind the path of a directory. -/
lemma hostGetpath_frames (dir : Option HostFile) (buf size : Word) :
    Respects (Frames S W) (hostGetpath O dir buf size : Sys L M Word) := by
  refine get_frames fun w => ?_
  cases dir with
  | none =>
    exact respects_touch (Respects.ite (bind_frames (fill_frames le_rfl) fun _ => hostInt_frames)
      hostInt_frames)
  | some d =>
    refine respects_touch ?_
    cases O.ret w.ncall with
    | none => exact hostInt_frames
    | some r =>
      refine bind_frames (fill_frames ?_) fun _ => ?_
      · rw [BitVec.toNat_ofNat]
        exact (Nat.mod_le _ _).trans (Nat.min_le_right _ _)
      · refine respects_touch ?_
        exact bind_frames (respects_store fun _ _ hx => .inr (splice_has le_rfl hx)) fun _ => hostInt_frames

/-- `sys_getcwd` changes its buffer, and the last byte of it. -/
lemma sysGetcwd_frames (p size : Word) : Respects (Frames S W) (sysGetcwd O p size : Sys L M Word) := by
  refine Respects.ite (pure_frames _) (option_frames (procbuf_frames _ _) (pure_frames _) fun buf => ?_)
  refine get_frames fun w => bind_frames (hostGetpath_frames _ _ _) fun r => ?_
  refine Respects.ite (pure_frames _) (respects_touch ?_)
  exact bind_frames (respects_store fun _ _ hx => .inr (splice_has le_rfl hx)) fun _ => pure_frames _

/-! ## The other calls -/

/-- `sys_getrandom` changes its buffer. -/
lemma sysGetrandom_frames (p len : Word) (flags : CInt) :
    Respects (Frames S W) (sysGetrandom O p len flags : Sys L M Word) :=
  option_frames (procbuf_frames _ _) (pure_frames _) fun _ =>
    Respects.ite (pure_frames _) (hostFill_frames _ _)

/-- `sys_prctl` changes nothing. -/
lemma sysPrctl_frames (op : CInt) (p : Word) : Respects (Frames S W) (sysPrctl O op p : Sys L M Word) :=
  Respects.ite (option_frames (procbuf_frames _ _) (pure_frames _) fun _ =>
    bind_frames (touch_frames _ _) fun _ => hostInt_frames) (pure_frames _)

/-- A call of the host that fills a structure. -/
lemma struct_frames {p : Word} {len : Nat} {e : Nat → Word} :
    Respects (Frames S W) (gets World.ncall >>= fun n => hostCall O >>= fun r =>
      match r with
      | none => pure (e n)
      | some _ => fillStruct O p len >>= fun _ => pure 0 : Sys L M Word) :=
  bind_frames (gets_frames _) fun _ => option_frames hostCall_frames (pure_frames _) fun _ =>
    bind_frames (fillStruct_frames _ _) fun _ => pure_frames _

/-- `sys_sysinfo` changes its structure. -/
lemma sysSysinfo_frames (p : Word) : Respects (Frames S W) (sysSysinfo O p : Sys L M Word) :=
  option_frames (procbufalign_frames _ _ _) (pure_frames _) fun _ => struct_frames

/-- `sys_clock_gettime` changes its structure. -/
lemma sysClockGettime_frames (clockid : CInt) (p : Word) :
    Respects (Frames S W) (sysClockGettime O clockid p : Sys L M Word) :=
  Respects.ite (pure_frames _) (option_frames (procbufalign_frames _ _ _) (pure_frames _) fun _ => struct_frames)

/-- `sys_ioctl` changes its structure. -/
lemma sysIoctl_frames (fd : CInt) (request p : Word) :
    Respects (Frames S W) (sysIoctl O fd request p : Sys L M Word) :=
  Respects.ite (pure_frames _) (Respects.ite (pure_frames _)
    (option_frames (procbufalign_frames _ _ _) (pure_frames _) fun _ => struct_frames))

/-- `sys_uname` changes its structure, by four strings. -/
lemma sysUname_frames (p : Word) : Respects (Frames S W) (sysUname p : Sys L M Word) :=
  option_frames (procbufalign_frames _ _ _) (pure_frames _) fun _ =>
    bind_frames (strcpyTo_frames _ _) fun _ => bind_frames (strcpyTo_frames _ _) fun _ =>
      bind_frames (strcpyTo_frames _ _) fun _ => bind_frames (strcpyTo_frames _ _) fun _ => pure_frames _

/-- `sys_sched_getaffinity` changes its mask. -/
lemma sysSchedGetaffinity_frames (size p : Word) :
    Respects (Frames S W) (sysSchedGetaffinity O size p : Sys L M Word) := by
  refine bind_frames hostCall_frames fun count => Respects.ite (pure_frames _) ?_
  refine option_frames hostCall_frames (pure_frames _) fun _ => bind_frames (ask_frames _ _) fun _ => ?_
  refine respects_touch (bind_frames (fill_frames ?_) fun _ => pure_frames _)
  rw [BitVec.toNat_setWidth]
  exact Nat.mod_le _ _

/-- `sys_sched_yield` changes nothing. -/
lemma sysSchedYield_frames : Respects (Frames S W) (sysSchedYield O : Sys L M Word) :=
  option_frames hostCall_frames (pure_frames _) fun _ => pure_frames _

/-- `sys_time` changes nothing. -/
lemma sysTime_frames (p : Word) : Respects (Frames S W) (sysTime O p : Sys L M Word) :=
  Respects.ite (pure_frames _) hostSize_frames

/-! ## Threads -/

/-- A futex call on the host is recorded. -/
lemma hostFutex_frames (uaddr : Word) (c : FutexCall) :
    Respects (Frames S W) (hostFutex O uaddr c : Sys L M Word) :=
  bind_frames (touch_frames _ _) fun _ => bind_frames (respects_modify fun _ => .of_host _ _) fun _ =>
    option_frames hostCall_frames (pure_frames _) fun _ => pure_frames _

/-- A wait changes nothing else. -/
lemma futexwait_frames (uaddr : Word) (op val : CInt) (timeoutp : Word) :
    Respects (Frames S W) (futexwait O uaddr op val timeoutp : Sys L M Word) :=
  Respects.ite (option_frames (procbufalign_frames _ _ _) (pure_frames _) fun _ =>
    bind_frames (touch_frames _ _) fun _ => hostFutex_frames _ _) (hostFutex_frames _ _)

/-- `sys_futex` changes nothing else. -/
lemma sysFutex_frames (uaddrp : Word) (op val : CInt) (timeoutp : Word) :
    Respects (Frames S W) (sysFutex O uaddrp op val timeoutp : Sys L M Word) :=
  Respects.ite (pure_frames _) (option_frames (procbufalign_frames _ _ _) (pure_frames _) fun _ =>
    Respects.ite (futexwait_frames _ _ _ _)
      (Respects.ite (hostFutex_frames _ _) (Respects.ite (hostFutex_frames _ _) (pure_frames _))))

/-- An id is stored where it is touched. -/
lemma storeTid_frames (set : Bool) (p : Word) (tid : CInt) :
    Respects (Frames S W) (storeTid set p tid : Sys L M Unit) :=
  Respects.ite (bind_frames (ask_frames _ _) fun _ => store32_frames _ _) (pure_frames _)

/-- `sys_exit` stores a zero, and wakes. -/
lemma sysExit_frames (opts : TuxOptions) (code : Word) :
    Respects (Frames S W) (sysExit O opts code : Sys L M Word) := by
  have hstore : Respects (Frames S W) (clearctidStore : Sys L M Unit) :=
    bind_frames (gets_frames _) fun ctid => Respects.ite (store32_frames _ _) (pure_frames _)
  have hwake : Respects (Frames S W) (clearctidWake O : Sys L M Unit) :=
    bind_frames (gets_frames _) fun ctid => bind_frames (sysFutex_frames _ _ _ _) fun _ => pure_frames _
  exact bind_frames (bind_frames hstore fun _ => hwake) fun _ => respects_stop frames_composes _

/-- A change of the threads alone. -/
lemma threads_frames (hS : S .threads = true) {f : World L M → World L M} (hp : ∀ w, (f w).p = w.p)
    (hfiles : ∀ w, (f w).fds = w.fds ∧ (f w).files = w.files) :
    Respects (Frames S W) (modify f : Sys L M Unit) :=
  respects_modify fun w => .of_p (hp w) (fun _ => hfiles w) fun h => by
    rw [hS] at h
    cases h

/-- `spawn` changes the threads, and the words that it stores. -/
lemma spawn_frames (hS : S .threads = true) (flags stack ptidp ctidp tls : Word) :
    Respects (Frames S W) (spawn O flags stack ptidp ctidp tls : Sys L M Word) := by
  unfold spawn
  cases spawnFlags flags with
  | none => exact pure_frames _
  | some flags =>
    refine option_frames ?_ (pure_frames _) fun p2 => bind_frames ?_ fun _ => ?_
    · refine option_frames ?_ (pure_frames _) fun p2 => bind_frames (storeTid_frames _ _ _) fun _ => pure_frames _
      refine option_frames hostCall_frames (pure_frames _) fun _ => bind_frames ?_ fun tid => ?_
      · refine bind_frames (gets_frames _) fun tid => bind_frames ?_ fun _ => pure_frames _
        exact threads_frames hS (fun _ => rfl) fun _ => ⟨rfl, rfl⟩
      · exact bind_frames (respects_get frames_composes) fun _ => pure_frames _
    · refine bind_frames hostCall_frames fun r => bind_frames (check_frames _ _) fun _ => ?_
      exact threads_frames hS (fun _ => rfl) fun _ => ⟨rfl, rfl⟩
    · exact bind_frames (storeTid_frames _ _ _) fun _ => pure_frames _

/-- `sys_clone` changes what `spawn` does. -/
lemma sysClone_frames (hS : S .threads = true) (flags stack ptid ctid tls : Word) :
    Respects (Frames S W) (sysClone O flags stack ptid ctid tls : Sys L M Word) :=
  bind_frames (check_frames _ _) fun _ => spawn_frames hS _ _ _ _ _

/-- A change of what the thread keeps about itself. -/
lemma self_frames (hS : S .self = true) {f : World L M → World L M}
    (hf : ∀ w, ∃ tp ctid, f w = { w with p := { w.p with tp, ctid } }) :
    Respects (Frames S W) (modify f : Sys L M Unit) := by
  refine respects_modify fun w => ?_
  obtain ⟨tp, ctid, hw⟩ := hf w
  rw [hw]
  constructor
  case self =>
    intro h
    rw [hS] at h
    cases h
  case mem => exact fun _ x hx => absurd rfl hx
  all_goals simp only [World.info, World.mem, implies_true, and_self]

/-- `sys_set_tid_address` changes the address to clear. -/
lemma sysSetTidAddress_frames (hS : S .self = true) (ctid : Word) :
    Respects (Frames S W) (sysSetTidAddress ctid : Sys L M Word) :=
  bind_frames (self_frames hS fun w => ⟨w.p.tp, procaddr ctid, rfl⟩) fun _ =>
    get_frames fun _ => pure_frames _

/-- `sys_arch_prctl` changes the thread pointer. -/
lemma sysArchPrctl_frames (hS : S .self = true) (code : CInt) (addr : Word) :
    Respects (Frames S W) (sysArchPrctl code addr : Sys L M Word) :=
  Respects.ite (bind_frames (self_frames hS fun w => ⟨procaddr addr, w.p.ctid, rfl⟩) fun _ => pure_frames _)
    (pure_frames _)

/-! ## Descriptors -/

/-- A change of the files alone. -/
lemma files_frames (hS : S .files = true) {f : World L M → World L M} (hp : ∀ w, (f w).p = w.p)
    (hthreads : ∀ w, (f w).started = w.started ∧ (f w).nexttid = w.nexttid) :
    Respects (Frames S W) (modify f : Sys L M Unit) :=
  respects_modify fun w => .of_p (hp w) (fun h => by
    rw [hS] at h
    cases h) fun _ => hthreads w

/-- `sys_openat` changes the files. -/
lemma sysOpenat_frames (hS : S .files = true) (dirfd : CInt) (p : Word) :
    Respects (Frames S W) (sysOpenat O dirfd p : Sys L M Word) := by
  refine withDir_frames fun _ => withPath_frames fun _ => get_frames fun w => ?_
  refine bind_frames (files_frames hS (fun _ => rfl) fun _ => ⟨rfl, rfl⟩) fun _ => ?_
  cases (w.fds.openat w.files (O.newfile w.ncall)).1 with
  | none => exact pure_frames _
  | some fd => exact pure_frames _

/-- `sys_close` changes the files. -/
lemma sysClose_frames (hS : S .files = true) (fd : CInt) :
    Respects (Frames S W) (sysClose fd : Sys L M Word) :=
  get_frames fun _ => bind_frames (files_frames hS (fun _ => rfl) fun _ => ⟨rfl, rfl⟩) fun _ =>
    Respects.ite (pure_frames _) (pure_frames _)

/-- `sys_chdir` changes the files. -/
lemma sysChdir_frames (hS : S .files = true) (p : Word) :
    Respects (Frames S W) (sysChdir O p : Sys L M Word) :=
  withPath_frames fun _ => get_frames fun _ =>
    bind_frames (files_frames hS (fun _ => rfl) fun _ => ⟨rfl, rfl⟩) fun _ => pure_frames _

/-- `sys_fchdir` changes the files. -/
lemma sysFchdir_frames (hS : S .files = true) (fd : CInt) :
    Respects (Frames S W) (sysFchdir O fd : Sys L M Word) :=
  withHandler_frames (bind_frames hostIsdir_frames fun _ => Respects.ite
    (bind_frames (files_frames hS (fun _ => rfl) fun _ => ⟨rfl, rfl⟩) fun _ => pure_frames _) (pure_frames _))

end

/-! ## The address space -/

section
variable {L : LibMMap} {M : Machine} {H : HostVm} {S : Part → Bool} {W : Word → Prop} {α : Type}

/-- The address space stays where it is. -/
def Stays (as : LFIAddrSpace L) (_ : List Ev) (as' : LFIAddrSpace L) : Prop := as'.info = as.info

/-- Where an address space is stays the same from call to call. -/
lemma stays_composes : Composes (Stays (L := L)) := composes_keeps LFIAddrSpace.info

/-- An `mmap` of the host changes pages. -/
lemma hostMmap_stays (addr len : Word) (prot : CInt) (hf : Option HostFile) :
    Respects Stays (hostMmap H addr len prot hf : Vm L Bool) := by
  intro as
  simp only [RespectsAt, hostMmap, mk_run]
  split <;> rfl

/-- `asmap` changes what the host does. -/
lemma asmap_stays (addr len : Word) (prot : CInt) (hf : Option HostFile) :
    Respects Stays (asmap H addr len prot hf : Vm L Int) :=
  Respects.bind stays_composes (respects_gets stays_composes _) fun _ =>
    Respects.bind stays_composes (hostMmap_stays _ _ _ _) fun _ =>
      Respects.ite (respects_pure stays_composes _) (respects_pure stays_composes _)

/-- The callbacks of libmmap change what the host does. -/
lemma cbunmaps_stays (ps : List (Word × Word)) : Respects Stays (cbunmaps H ps : Vm L Unit) := by
  induction ps with
  | nil => exact respects_pure stays_composes _
  | cons p ps ih =>
    exact Respects.bind stays_composes (Respects.bind stays_composes (hostMmap_stays _ _ _ _) fun _ =>
      respects_check stays_composes _ _) fun _ => ih

/-- A record that is dropped changes the records. -/
lemma mmUnmap_stays (addr size : Word) : Respects Stays (mmUnmap addr size : Vm L Unit) :=
  respects_modify fun as => by
    split <;> rfl

/-- The end of the mapping calls: the record is dropped when the host does not map. -/
lemma asmap_tail_stays (addr len : Word) (prot : CInt) (hf : Option HostFile) :
    Respects Stays (asmap H addr len prot hf >>= fun r =>
      if r < 0 then mmUnmap addr len >>= fun _ => pure mapFailed else pure addr : Vm L Word) :=
  Respects.bind stays_composes (asmap_stays _ _ _ _) fun _ => Respects.ite
    (Respects.bind stays_composes (mmUnmap_stays _ _) fun _ => respects_pure stays_composes _)
    (respects_pure stays_composes _)

/-- `lfi_as_mapany` leaves the address space where it is. -/
lemma lfiAsMapany_stays (size : Word) (prot : CInt) (hf : Option HostFile) :
    Respects Stays (lfiAsMapany H size prot hf : Vm L Word) := by
  refine Respects.bind stays_composes (respects_get stays_composes) fun as => ?_
  cases L.mapany as.mm size with
  | none => exact respects_pure stays_composes _
  | some r => exact Respects.bind stays_composes (respects_modify fun _ => rfl) fun _ => asmap_tail_stays _ _ _ _

/-- `lfi_as_mapat` leaves it there. -/
lemma lfiAsMapat_stays (addr size : Word) (prot : CInt) (hf : Option HostFile) :
    Respects Stays (lfiAsMapat H addr size prot hf : Vm L Word) := by
  refine Respects.bind stays_composes (respects_get stays_composes) fun as => ?_
  refine Respects.bind stays_composes (respects_tell fun _ => rfl) fun _ => ?_
  refine Respects.bind stays_composes (respects_check stays_composes _ _) fun _ => ?_
  cases L.mapat as.mm addr size with
  | none => exact respects_pure stays_composes _
  | some r =>
    refine Respects.bind stays_composes (respects_modify fun _ => rfl) fun _ => ?_
    exact Respects.bind stays_composes (cbunmaps_stays _) fun _ => asmap_tail_stays _ _ _ _

/-- `lfi_as_mprotect` leaves it there. -/
lemma lfiAsMprotect_stays (addr size : Word) (prot : CInt) :
    Respects Stays (lfiAsMprotect H addr size prot : Vm L Int) := by
  refine Respects.bind stays_composes (respects_get stays_composes) fun as => ?_
  refine Respects.bind stays_composes (respects_check stays_composes _ _) fun _ as => ?_
  simp only [RespectsAt, hostMprotect, mk_run]
  rfl

/-- `lfi_as_munmap` leaves it there. -/
lemma lfiAsMunmap_stays (addr size : Word) : Respects Stays (lfiAsMunmap H addr size : Vm L Int) := by
  refine Respects.bind stays_composes (respects_get stays_composes) fun as => ?_
  refine Respects.ite (Respects.bind stays_composes (respects_tell fun _ => rfl) fun _ => ?_)
    (respects_pure stays_composes _)
  cases L.unmap as.mm addr size with
  | none => exact respects_pure stays_composes _
  | some r =>
    refine Respects.bind stays_composes (respects_modify fun _ => rfl) fun _ => ?_
    exact Respects.bind stays_composes (cbunmaps_stays _) fun _ => respects_pure stays_composes _

/-- What is done to the address space changes nothing else. -/
lemma space_frames (hS : S .space = true) {x : Vm L α} (hx : Respects Stays x) :
    Respects (Frames S W) (onSpace x : Sys L M α) := by
  refine hx.zoom fun {w l as} h => ?_
  constructor
  case info => exact h
  case space =>
    intro hno
    rw [hS] at hno
    cases hno
  case mem =>
    intro hno
    rw [hS] at hno
    cases hno
  all_goals simp only [implies_true, and_self]

variable {O : HostOs} {opts : TuxOptions}

/-- The file of a mapping is looked up. -/
lemma mapfile_frames (fd : CInt) : Respects (Frames S W) (mapfile fd : Sys L M _) := by
  refine bind_frames (respects_get frames_composes) fun w => Respects.ite (pure_frames _) ?_
  cases w.fdfile fd with
  | none => exact pure_frames _
  | some f => exact Respects.ite (pure_frames _) (pure_frames _)

/-- The mapping calls of `mmap`, with the file looked up before. -/
lemma map_frames (hS : S .space = true) {x : Option HostFile → Vm L Word} {f : Word → Word} {fd : CInt}
    (hx : ∀ hf, Respects Stays (x hf)) :
    Respects (Frames S W) (mapfile fd >>= fun r =>
      match r with
      | .error e => pure e
      | .ok hf => onSpace (x hf) >>= fun addr =>
        if addr = mapFailed then pure (negErr TUX_EINVAL) else pure (f addr) : Sys L M Word) := by
  refine bind_frames (mapfile_frames fd) fun r => ?_
  cases r with
  | error e => exact pure_frames _
  | ok hf => exact bind_frames (space_frames hS (hx hf)) fun _ => Respects.ite (pure_frames _) (pure_frames _)

/-- `sys_mmap` changes the address space. -/
lemma sysMmap_frames (hS : S .space = true) (addr length : Word) (prot flags fd : CInt) :
    Respects (Frames S W) (sysMmap H opts addr length prot flags fd : Sys L M Word) :=
  Respects.ite (pure_frames _) (Respects.ite (pure_frames _) (Respects.ite
    (map_frames hS fun _ => lfiAsMapat_stays _ _ _ _) (map_frames hS fun _ => lfiAsMapany_stays _ _ _)))

/-- `sys_mprotect` changes the address space. -/
lemma sysMprotect_frames (hS : S .space = true) (addr length : Word) (prot : CInt) :
    Respects (Frames S W) (sysMprotect H addr length prot : Sys L M Word) :=
  bind_frames (space_frames hS (lfiAsMprotect_stays _ _ _)) fun _ => pure_frames _

/-- `sys_munmap` changes the address space. -/
lemma sysMunmap_frames (hS : S .space = true) (addr length : Word) :
    Respects (Frames S W) (sysMunmap H addr length : Sys L M Word) :=
  bind_frames (space_frames hS (lfiAsMunmap_stays _ _)) fun _ => pure_frames _

/-- The break changes. -/
lemma setbrk_frames (hS : S .space = true) (hheap : S .heap = true) (newsize : Word) :
    Respects (Frames S W) (setbrk newsize : Sys L M Word) := by
  refine bind_frames (respects_modify fun w => ?_) fun _ => gets_frames _
  constructor
  case heap =>
    intro h
    rw [hheap] at h
    cases h
  case space =>
    intro h
    rw [hS] at h
    cases h
  case mem =>
    intro h
    rw [hS] at h
    cases h
  all_goals simp only [World.info, implies_true, and_self]

/-- `sys_brk` changes the address space and the break. -/
lemma sysBrk_frames (hS : S .space = true) (hheap : S .heap = true) (addr : Word) :
    Respects (Frames S W) (sysBrk H opts addr : Sys L M Word) := by
  refine bind_frames (gets_frames _) fun p => bind_frames (check_frames _ _) fun _ => ?_
  refine Respects.ite (pure_frames _) (Respects.ite ?_ (setbrk_frames hS hheap _))
  refine bind_frames (space_frames hS ?_) fun _ => Respects.ite (pure_frames _) (setbrk_frames hS hheap _)
  exact Respects.ite (lfiAsMapat_stays _ _ _ _) (lfiAsMapat_stays _ _ _ _)

end

/-! ## All calls -/

/-- The parts that a system call may change. -/
def Sysno.changes : Sysno → Part → Bool
  | .openat, p | .open, p | .close, p | .chdir, p | .fchdir, p => p = .files
  | .mmap, p | .mprotect, p | .munmap, p => p = .space
  | .brk, p => p = .space ∨ p = .heap
  | .clone, p => p = .threads
  | .setTidAddress, p | .archPrctl, p => p = .self
  | _, _ => false

section
variable {L : LibMMap} {H : HostVm} {O : HostOs} {opts : TuxOptions} {A : Arch}

variable (H O opts) in
/-- Every call respects its row of the table. -/
lemma syscall_respects (n : Sysno) (a : Args) :
    Respects (Frames n.changes nowhere) (syscall H O opts A n a : Sys L A.machine Word) := by
  cases n with
  | write => exact sysWrite_frames _ _ _
  | read => exact sysRead_frames _ _ _
  | lseek => exact sysLseek_frames _ _
  | exit => exact sysExit_frames _ _
  | exitGroup => exact respects_stop frames_composes _
  | brk => exact sysBrk_frames rfl rfl _
  | openat => exact sysOpenat_frames rfl _ _
  | «open» => exact sysOpenat_frames rfl _ _
  | close => exact sysClose_frames rfl _
  | writev => exact sysIov_frames (sysWrite_frames _) _ _
  | readv => exact sysIov_frames (sysRead_frames _) _ _
  | pread64 => exact sysPread64_frames _ _ _
  | mmap => exact sysMmap_frames rfl _ _ _ _ _
  | mprotect => exact sysMprotect_frames rfl _ _ _
  | munmap => exact sysMunmap_frames rfl _ _
  | getdents64 => exact sysGetdents64_frames _ _ _
  | newfstatat => exact sysNewfstatat_frames _ _ _ _
  | fstat => exact sysNewfstatat_frames _ _ _ _
  | stat => exact sysNewfstatat_frames _ _ _ _
  | lstat => exact sysNewfstatat_frames _ _ _ _
  | fchmod => exact sysHandler_frames _ _
  | ftruncate => exact sysHandler_frames _ _
  | fchown => exact sysHandler_frames _ _
  | fsync => exact sysHandler_frames _ _
  | truncate => exact sysTruncate_frames _
  | chdir => exact sysChdir_frames rfl _
  | fchdir => exact sysFchdir_frames rfl _
  | mkdirat => exact sysMkdirat_frames _ _
  | mkdir => exact sysMkdirat_frames _ _
  | getrandom => exact sysGetrandom_frames _ _ _
  | getcwd => exact sysGetcwd_frames _ _
  | clockGettime => exact sysClockGettime_frames _ _
  | unlinkat => exact sysUnlinkat_frames _ _ _
  | unlink => exact sysUnlinkat_frames _ _ _
  | renameat => exact sysRenameat_frames _ _ _ _
  | rename => exact sysRenameat_frames _ _ _ _
  | faccessat => exact sysFaccessat2_frames _ _ _
  | access => exact sysFaccessat2_frames _ _ _
  | readlinkat => exact sysReadlinkat_frames _ _ _ _
  | readlink => exact sysReadlinkat_frames _ _ _ _
  | ioctl => exact sysIoctl_frames _ _ _
  | gettid => exact gets_frames _
  | futex => exact sysFutex_frames _ _ _ _
  | clone =>
    cases A with
    | x64 => exact sysClone_frames rfl _ _ _ _ _
    | arm64 => exact sysClone_frames rfl _ _ _ _ _
  | setTidAddress => exact sysSetTidAddress_frames rfl _
  | schedGetaffinity => exact sysSchedGetaffinity_frames _ _
  | schedYield => exact sysSchedYield_frames
  | rtSigreturn => exact respects_stop frames_composes _
  | uname => exact sysUname_frames _
  | sysinfo => exact sysSysinfo_frames _
  | prctl => exact sysPrctl_frames _ _
  | archPrctl => exact sysArchPrctl_frames rfl _ _
  | time => exact sysTime_frames _
  | chown => exact withPath_frames fun _ => hostInt_frames
  | chmod => exact withPath_frames fun _ => hostInt_frames
  | _ => exact pure_frames _

/-- The parts that a system call with a number may change. -/
def Arch.changes (A : Arch) (num : Word) (p : Part) : Bool := (A.sysno num).any fun n => n.changes p

/-- A system call, whatever its number and its arguments are and however it ends, changes only the parts that
`Sysno.changes` has for it; unless it is one of the mapping calls, it changes guest memory only where it
announced an access. -/
theorem syscall_frames (num : Word) (a : Args) (w : World L A.machine) :
    Frames (A.changes num) nowhere w ((syshandle H O opts A num a).run w).out
      ((syshandle H O opts A num a).run w).st := by
  unfold syshandle
  cases hn : A.sysno num with
  | none => exact respects_stop frames_composes _ w
  | some n =>
    refine (syscall_respects H O opts n a w).mono fun p hp => ?_
    unfold Arch.changes at hp
    rw [hn] at hp
    exact hp

end
end Libtux
