import Libtux.Pal.Local
import Libtux.Pal.Ranges
import Libtux.Proc.Layout
import Libtux.Sys.Frame

/-!
# What a system call depends on

The other half of the frame: a system call reads guest memory only where it announced an access. `World.Same D`
relates two worlds that differ in nothing but guest memory, outside of `D`. From related worlds a call that
touches only `D` ends alike and leaves related worlds (`syscall_local`). Libtux
itself reads paths, the entries of a vector, and no more; what the host reads is what was announced to it, so its
answers are the same for both.
-/

namespace Libtux
open Lib Exec

/-- An event that touches only `D`. -/
def Ev.In (D : Word → Prop) : Ev → Prop
  | .touch r => ∀ x, r.Has x → D x
  | _ => True

/-- The two worlds differ at most in guest memory outside of `D`. -/
structure World.Same {L : LibMMap} {M : Machine} (D : Word → Prop) (w w' : World L M) : Prop where
  eq : w' = w.setMem w'.mem
  mem : ∀ x, D x → w'.mem x = w.mem x

/-- The bytes of a range that a load reads. -/
lemma Range.has_add {p : Word} {n k : Nat} (hk : k < n) (hn : n < 2 ^ 64) :
    Range.Has ⟨p, n⟩ (p + BitVec.ofNat 64 k) := by
  have hsub : p + BitVec.ofNat 64 k - p = BitVec.ofNat 64 k := by bv_omega
  unfold Range.Has
  rw [hsub, BitVec.toNat_ofNat, Nat.mod_eq_of_lt (hk.trans hn)]
  exact hk

/-- The end of a string is found by reading up to it. -/
lemma strnlenAt_congr {f g : Word → Byte} {str : Word} {n : Nat}
    (h : ∀ k < min (strnlenAt f str n + 1) n, g (str + BitVec.ofNat 64 k) = f (str + BitVec.ofNat 64 k)) :
    strnlenAt g str n = strnlenAt f str n := by
  induction n generalizing str with
  | zero => rfl
  | succ n ih =>
    have h0 := h 0 (by omega)
    rw [BitVec.add_zero] at h0
    rw [strnlenAt, strnlenAt, h0]
    split
    · rfl
    · rename_i hne
      rw [ih fun k hk => ?_]
      rw [add_ofNat_succ]
      refine h (k + 1) ?_
      rw [strnlenAt, if_neg hne]
      omega

section
variable {L : LibMMap} {M : Machine} {O : HostOs} {D : Word → Prop} {α : Type}

/-- Two runs of a call that end alike if they touch only `D`. -/
abbrev Local (D : Word → Prop) (x : Sys L M α) : Prop := Agrees (World.Same D) (Ev.In D) x

/-- Where the address space is does not depend on its memory. -/
lemma World.setMem_info (w : World L M) (m : Word → Byte) : (w.setMem m).info = w.info := rfl

namespace World.Same

variable {w w' : World L M}

/-- A world does not differ from itself. -/
lemma refl (w : World L M) : Same D w w := ⟨rfl, fun _ _ => rfl⟩

/-- What does not depend on memory is the same. -/
lemma congr (h : Same D w w') {f : World L M → α} (hf : ∀ m, f (w.setMem m) = f w) : f w' = f w := by
  rw [h.eq]
  exact hf _

/-- A change of the world that leaves memory as it is and does not look at it. -/
lemma change (h : Same D w w') {f : World L M → World L M} (hmem : ∀ w, (f w).mem = w.mem)
    (hf : ∀ m, f (w.setMem m) = (f w).setMem m) : Same D (f w) (f w') where
  eq := by
    rw [hmem, h.eq]
    exact hf _
  mem := by
    rw [hmem, hmem]
    exact h.mem

/-- Nor do their address spaces differ in anything else. -/
lemma space (h : Same D w w') : w.p.as.Same D w'.p.as where
  eq := by
    rw [h.eq]
    rfl
  mem := h.mem

end World.Same

/-! ## Accessors and wrappers -/

/-- A part of the state other than memory. -/
lemma local_gets {f : World L M → α} (hf : ∀ w m, f (w.setMem m) = f w) : Local D (gets f : Sys L M α) :=
  agrees_gets fun h => h.congr (hf _)

/-- The state, when what is done with it does not depend on its memory. -/
lemma local_get {f : World L M → Sys L M α} (hf : ∀ w m, f (w.setMem m) = f w) (h : ∀ w, Local D (f w)) :
    Local D (get >>= f) := Agrees.get_bind (fun h => h.congr (hf _)) h

/-- A change that has nothing to do with memory. -/
lemma local_modify {f : World L M → World L M} (hmem : ∀ w, (f w).mem = w.mem)
    (hf : ∀ w m, f (w.setMem m) = (f w).setMem m) : Local D (modify f : Sys L M Unit) :=
  agrees_modify fun h => h.change hmem (hf _)

/-- What is touched is announced. -/
lemma touch_local (p : Word) (len : Nat) : Local D (touch p len : Sys L M Unit) := agrees_tell _

/-- What is asked for is not even read. -/
lemma ask_local (p : Word) (len : Nat) : Local D (ask p len : Sys L M Unit) := agrees_tell _

/-- A splice of the same bytes. -/
lemma splice_local (p n : Word) {g : World L M → Word → Byte} (hg : ∀ w m, g (w.setMem m) = g w) :
    Local D (modify fun w => w.setMem (splice w.mem p n (g w)) : Sys L M Unit) := by
  refine agrees_modify fun {w w'} h => ⟨?_, fun x hx => ?_⟩
  · rw [h.eq]
    rfl
  · have hgw : g w' = g w := h.congr (hg w)
    have hx := h.mem x hx
    unfold World.setMem World.mem splice at *
    dsimp only
    rw [hgw, hx]

/-- The host fills a buffer with the same bytes. -/
lemma fill_local (p len : Word) : Local D (modify fun w => w.fill O p len : Sys L M Unit) :=
  splice_local p len fun _ _ => rfl

/-- The same word is stored. -/
lemma store32_local (p : Word) (v : CInt) : Local D (store32 p v : Sys L M Unit) :=
  Agrees.bind (touch_local _ _) fun _ => splice_local p 4 fun _ _ => rfl

/-- `procbuf` looks at the pointer. -/
lemma procbuf_local (p size : Word) : Local D (procbuf p size : Sys L M _) :=
  Agrees.bind (ask_local _ _) fun _ => local_gets fun _ _ => by rw [World.setMem_info]

/-- `procbufalign` looks at the pointer. -/
lemma procbufalign_local (p size : Word) (align : Nat) : Local D (procbufalign p size align : Sys L M _) :=
  Agrees.bind (ask_local _ _) fun _ => local_gets fun _ _ => by rw [World.setMem_info]

/-- A path is read up to its end, and there once more. -/
lemma procpath_local (p : Word) : Local D (procpath p : Sys L M _) := by
  refine agrees_get fun {w w'} h => ?_
  have hinfo : w'.info = w.info := h.congr fun _ => rfl
  rw [hinfo]
  cases lfiAsFmptr w.info p with
  | none => exact agrees_pure _ h
  | some str =>
    refine AgreesAt.of_tell fun hstr => ?_
    have hlen : strnlenAt w'.mem str TUX_PATH_MAX = strnlenAt w.mem str TUX_PATH_MAX := by
      refine strnlenAt_congr fun k hk => h.mem _ (hstr _ (Range.has_add hk ?_))
      have hmax : TUX_PATH_MAX < 2 ^ 64 := by decide
      omega
    dsimp only
    rw [hlen]
    refine AgreesAt.bind (touch_local _ _ h) fun _ _ _ h1 _ _ => ?_
    split
    · exact agrees_pure _ h1
    · refine AgreesAt.of_tell fun hend => ?_
      rw [h.mem _ (hend _ ?_)]
      · exact Agrees.bind (touch_local _ _) (fun _ => Agrees.ite (agrees_pure _) (agrees_pure _)) h1
      · have := Range.has_add (p := str + BitVec.ofNat 64 (strnlenAt w.mem str TUX_PATH_MAX)) (n := 1)
          (k := 0) (by decide) (by decide)
        rwa [BitVec.add_zero] at this

/-- The host answers by the number of the call. -/
lemma hostCall_local : Local D (hostCall O : Sys L M _) := by
  intro w w' h _
  simp only [hostCall, mk_run]
  refine ⟨?_, rfl, h.change (f := World.called) (fun _ => rfl) fun _ => rfl⟩
  exact h.congr (f := fun w => Except.ok (O.ret w.ncall)) fun _ => rfl

/-- So it does with a size, -/
lemma hostSize_local : Local D (hostSize O : Sys L M _) := by
  refine Agrees.bind (local_gets fun _ _ => rfl) fun n => Agrees.bind hostCall_local fun r => ?_
  cases r with
  | none => exact agrees_pure _
  | some r => exact agrees_pure _

/-- with an `int`, -/
lemma hostInt_local : Local D (hostInt O : Sys L M _) := by
  refine Agrees.bind (local_gets fun _ _ => rfl) fun n => Agrees.bind hostCall_local fun r => ?_
  cases r with
  | none => exact agrees_pure _
  | some r => exact agrees_pure _

/-- and with whether a file is a directory. -/
lemma hostIsdir_local : Local D (hostIsdir O : Sys L M _) := by
  intro w w' h _
  simp only [hostIsdir, mk_run]
  refine ⟨?_, rfl, h.change (f := World.called) (fun _ => rfl) fun _ => rfl⟩
  exact h.congr (f := fun w => Except.ok (O.isdir w.ncall)) fun _ => rfl

/-- `getfdir` looks at the descriptors. -/
lemma getfdir_local (dirfd : CInt) : Local D (getfdir O dirfd : Sys L M _) := by
  refine local_get (fun _ _ => rfl) fun w => Agrees.ite (agrees_pure _) ?_
  cases w.fdfile dirfd with
  | none => exact agrees_pure _
  | some f =>
    exact Agrees.ite (Agrees.bind hostIsdir_local fun _ => Agrees.ite (agrees_pure _) (agrees_pure _))
      (agrees_pure _)

/-- An accessor that may refuse, and what is done with what it returns. -/
lemma local_option {β : Type} {x : Sys L M (Option β)} {f : Option β → Sys L M α} (hx : Local D x)
    (hnone : Local D (f none)) (hsome : ∀ b, Local D (f (some b))) : Local D (x >>= f) := by
  refine Agrees.bind hx fun o => ?_
  cases o with
  | none => exact hnone
  | some b => exact hsome b

/-- A buffer that the host fills, and what the call returns. -/
lemma hostFill_local (p len : Word) : Local D (hostFill O p len : Sys L M Word) := by
  refine Agrees.bind (touch_local _ _) fun _ => local_get (fun _ _ => rfl) fun w => ?_
  cases O.ret w.ncall with
  | none => exact hostSize_local
  | some r => exact Agrees.bind (fill_local _ _) fun _ => hostSize_local

/-- A structure that the host fills. -/
lemma fillStruct_local (p : Word) (len : Nat) : Local D (fillStruct O p len : Sys L M Unit) :=
  Agrees.bind (touch_local _ _) fun _ => fill_local _ _

/-- A string of the runtime that is copied. -/
lemma strcpyTo_local (p : Word) (s : List Byte) : Local D (strcpyTo p s : Sys L M Unit) :=
  Agrees.bind (touch_local _ _) fun _ => splice_local _ _ fun _ _ => rfl

/-- A handler depends on what its body does. -/
lemma withHandler_local {fd : CInt} {op : FileOp} {e : Nat} {body : Sys L M Word} (h : Local D body) :
    Local D (withHandler fd op e body) := by
  refine local_get (fun _ _ => rfl) fun w => ?_
  cases w.fdfile fd with
  | none => exact agrees_pure _
  | some f => exact Agrees.ite h (agrees_pure _)

/-- A call with a path depends on the path and on what is done with it. -/
lemma withPath_local {p : Word} {f : Word → Sys L M Word} (h : ∀ a, Local D (f a)) :
    Local D (withPath p f) := local_option (procpath_local p) (agrees_pure _) h

/-- A call with a directory depends on what is done with it. -/
lemma withDir_local {dirfd : CInt} {f : Option HostFile → Sys L M Word} (h : ∀ a, Local D (f a)) :
    Local D (withDir O dirfd f) := local_option (getfdir_local dirfd) (agrees_pure _) h

/-! ## Calls on files -/

/-- `sys_write` leaves its buffer to the host. -/
lemma sysWrite_local (fd : CInt) (p size : Word) : Local D (sysWrite O fd p size : Sys L M Word) :=
  Agrees.ite (agrees_pure _) (withHandler_local (local_option (procbuf_local _ _) (agrees_pure _)
    fun _ => Agrees.bind (touch_local _ _) fun _ => hostSize_local))

/-- `sys_read` does so too. -/
lemma sysRead_local (fd : CInt) (p size : Word) : Local D (sysRead O fd p size : Sys L M Word) :=
  Agrees.ite (agrees_pure _) (withHandler_local (local_option (procbuf_local _ _) (agrees_pure _)
    fun _ => hostFill_local _ _))

/-- The loop over the entries of a vector, by induction on how many are left. Each entry is read after it was
announced. -/
lemma iovLoop_local {io : Word → Word → Sys L M Word} (hio : ∀ p n, Local D (io p n)) (iov : Word)
    (n i : Nat) (total : Word) : Local D (iovLoop io iov n i total) := by
  induction n generalizing i total with
  | zero => exact agrees_pure _
  | succ n ih =>
    rw [iovLoop]
    refine Agrees.tell_bind fun hentry => agrees_get fun {w w'} h => ?_
    have hload : ∀ k j : Nat, j + k ≤ 16 →
        le w'.mem (iov + BitVec.ofNat 64 (16 * i) + BitVec.ofNat 64 j) k 64 =
          le w.mem (iov + BitVec.ofNat 64 (16 * i) + BitVec.ofNat 64 j) k 64 := by
      intro k j hjk
      refine le_congr fun m hm => h.mem _ (hentry _ ?_)
      have := Range.has_add (p := iov + BitVec.ofNat 64 (16 * i)) (n := 16) (k := j + m) (by omega) (by decide)
      rwa [BitVec.ofNat_add, ← BitVec.add_assoc] at this
    have hbase := hload 8 0 (by decide)
    rw [BitVec.add_zero] at hbase
    have hlen : le w'.mem (iov + BitVec.ofNat 64 (16 * i) + 8) 8 64 =
        le w.mem (iov + BitVec.ofNat 64 (16 * i) + 8) 8 64 := hload 8 8 (by decide)
    rw [hbase, hlen]
    exact Agrees.bind (hio _ _) (fun r => Agrees.ite (agrees_pure _) (ih _ _)) h

/-- A vector call reads its entries, and what its transfers do. -/
lemma sysIov_local {io : Word → Word → Sys L M Word} (hio : ∀ p n, Local D (io p n)) (iovp iovcnt : Word) :
    Local D (sysIov io iovp iovcnt) :=
  Agrees.bind (ask_local _ _) fun _ => local_option (procbufalign_local _ _ _) (agrees_pure _)
    fun _ => iovLoop_local hio _ _ _ _

/-- `sys_pread64` reads nothing. -/
lemma sysPread64_local (fd : CInt) (p size : Word) : Local D (sysPread64 O fd p size : Sys L M Word) :=
  withHandler_local <| withHandler_local <| local_option (procbuf_local _ _) (agrees_pure _) fun _ =>
    Agrees.bind hostSize_local fun _ => Agrees.bind hostSize_local fun _ =>
      Agrees.bind (hostFill_local _ _) fun _ => Agrees.bind hostSize_local fun _ => agrees_pure _

/-- `sys_getdents64` reads nothing. -/
lemma sysGetdents64_local (fd : CInt) (p count : Word) :
    Local D (sysGetdents64 O fd p count : Sys L M Word) :=
  withHandler_local (local_option (procbufalign_local _ _ _) (agrees_pure _) fun _ => hostFill_local _ _)

/-- `sys_lseek` reads nothing. -/
lemma sysLseek_local (fd whence : CInt) : Local D (sysLseek O fd whence : Sys L M Word) :=
  withHandler_local (Agrees.bind (agrees_check _ _) fun _ => hostSize_local)

/-- A call that hands its descriptor on reads nothing. -/
lemma sysHandler_local (op : FileOp) (fd : CInt) : Local D (sysHandler O op fd : Sys L M Word) :=
  withHandler_local hostInt_local

/-- `sys_newfstatat` reads its path. -/
lemma sysNewfstatat_local (dirfd : CInt) (pathp statp : Word) (flags : CInt) :
    Local D (sysNewfstatat O dirfd pathp statp flags : Sys L M Word) := by
  refine local_option (procbufalign_local _ _ _) (agrees_pure _) fun stat => ?_
  have hcopy : Local D (get >>= fun w =>
      if (O.ret w.ncall).isSome then
        touch stat 120 >>= fun _ => modify (fun w => w.fill O stat 120) >>= fun _ => hostInt O
      else hostInt O : Sys L M Word) :=
    local_get (fun _ _ => rfl) fun _ => Agrees.ite
      (Agrees.bind (touch_local _ _) fun _ => Agrees.bind (fill_local _ _) fun _ => hostInt_local) hostInt_local
  exact Agrees.ite (withPath_local fun _ => withDir_local fun _ => hcopy) (withHandler_local hcopy)

/-- `sys_readlinkat` reads its path. -/
lemma sysReadlinkat_local (dirfd : CInt) (pathp p size : Word) :
    Local D (sysReadlinkat O dirfd pathp p size : Sys L M Word) := by
  refine withDir_local fun _ => local_option (procpath_local _) ?_ fun path => ?_
  · exact Agrees.bind (procbuf_local _ _) fun _ => agrees_pure _
  · refine local_option (procbuf_local _ _) (agrees_pure _) fun buf => ?_
    refine Agrees.bind (local_gets fun _ _ => rfl) fun n => Agrees.bind (hostFill_local _ _) fun r => ?_
    exact Agrees.ite (agrees_pure _) (agrees_pure _)

/-- The first byte of an accepted path was announced when its length was taken. -/
lemma path_first {w : World L M} {p str : Word} (hval : ((procpath p).run w).val = .ok (some str))
    (hP : ∀ e ∈ ((procpath p).run w).out, e.In D) : D str := by
  rw [procpath_run] at hval hP
  have hpath : w.path p = some str := Except.ok.inj hval
  have hfm : lfiAsFmptr w.info p = some str := pathTo_some hpath
  rw [hfm, World.pathReads] at hP
  refine hP _ (List.mem_cons_self ..) str ?_
  unfold Range.Has
  rw [BitVec.sub_self]
  have hmax : 0 < TUX_PATH_MAX := by decide
  exact Nat.lt_min.mpr ⟨Nat.succ_pos _, hmax⟩

/-- `sys_truncate` reads its path, and the first byte of it once more. -/
lemma sysTruncate_local (p : Word) : Local D (sysTruncate O p : Sys L M Word) := by
  refine fun _ _ h => AgreesAt.bind (procpath_local p h) fun o t t' ht hval hP => ?_
  cases o with
  | none => exact agrees_pure _ ht
  | some str =>
    refine agrees_get (fun {w w'} h => ?_) ht
    rw [h.mem _ (path_first hval hP)]
    exact Agrees.ite (Agrees.bind hostInt_local fun _ => Agrees.ite (agrees_pure _) hostInt_local)
      hostInt_local h

/-- `sys_unlinkat` reads its path. -/
lemma sysUnlinkat_local (dirfd : CInt) (p : Word) (flags : CInt) :
    Local D (sysUnlinkat O dirfd p flags : Sys L M Word) :=
  withDir_local fun _ => Agrees.ite (agrees_pure _) (withPath_local fun _ => hostInt_local)

/-- `sys_renameat` reads both its paths. -/
lemma sysRenameat_local (olddir : CInt) (oldp : Word) (newdir : CInt) (newp : Word) :
    Local D (sysRenameat O olddir oldp newdir newp : Sys L M Word) := by
  refine Agrees.bind (getfdir_local _) fun oldf => Agrees.bind (getfdir_local _) fun newf => ?_
  cases oldf with
  | none => exact agrees_pure _
  | some oldf =>
    cases newf with
    | none => exact agrees_pure _
    | some newf =>
      refine local_option (procpath_local _) ?_ fun path => ?_
      · exact Agrees.bind (procpath_local _) fun _ => agrees_pure _
      · exact local_option (procpath_local _) (agrees_pure _) fun _ => hostInt_local

/-- `sys_faccessat2` reads its path. -/
lemma sysFaccessat2_local (dirfd : CInt) (p : Word) (flags : CInt) :
    Local D (sysFaccessat2 O dirfd p flags : Sys L M Word) :=
  withDir_local fun _ => Agrees.ite (agrees_pure _) (withPath_local fun _ => hostInt_local)

/-- `sys_mkdirat` reads its path. -/
lemma sysMkdirat_local (dirfd : CInt) (p : Word) : Local D (sysMkdirat O dirfd p : Sys L M Word) :=
  withDir_local fun _ => withPath_local fun _ => hostInt_local

/-- `host_getpath` reads nothing. -/
lemma hostGetpath_local (dir : Option HostFile) (buf size : Word) :
    Local D (hostGetpath O dir buf size : Sys L M Word) := by
  refine local_get (fun _ _ => rfl) fun w => ?_
  cases dir with
  | none =>
    exact Agrees.bind (touch_local _ _) fun _ =>
      Agrees.ite (Agrees.bind (fill_local _ _) fun _ => hostInt_local) hostInt_local
  | some d =>
    refine Agrees.bind (touch_local _ _) fun _ => ?_
    cases O.ret w.ncall with
    | none => exact hostInt_local
    | some r =>
      exact Agrees.bind (fill_local _ _) fun _ => Agrees.bind (touch_local _ _) fun _ =>
        Agrees.bind (splice_local _ 1 fun _ _ => rfl) fun _ => hostInt_local

/-- `sys_getcwd` reads nothing. -/
lemma sysGetcwd_local (p size : Word) : Local D (sysGetcwd O p size : Sys L M Word) := by
  refine Agrees.ite (agrees_pure _) (local_option (procbuf_local _ _) (agrees_pure _) fun buf => ?_)
  refine local_get (fun _ _ => rfl) fun w => Agrees.bind (hostGetpath_local _ _ _) fun r => ?_
  exact Agrees.ite (agrees_pure _) (Agrees.bind (touch_local _ _) fun _ =>
    Agrees.bind (splice_local _ 1 fun _ _ => rfl) fun _ => agrees_pure _)

/-! ## The other calls -/

/-- `sys_getrandom` reads nothing. -/
lemma sysGetrandom_local (p len : Word) (flags : CInt) :
    Local D (sysGetrandom O p len flags : Sys L M Word) :=
  local_option (procbuf_local _ _) (agrees_pure _) fun _ => Agrees.ite (agrees_pure _) (hostFill_local _ _)

/-- `sys_prctl` leaves the name to the host. -/
lemma sysPrctl_local (op : CInt) (p : Word) : Local D (sysPrctl O op p : Sys L M Word) :=
  Agrees.ite (local_option (procbuf_local _ _) (agrees_pure _) fun _ =>
    Agrees.bind (touch_local _ _) fun _ => hostInt_local) (agrees_pure _)

/-- A call of the host that fills a structure. -/
lemma struct_local {p : Word} {len : Nat} {e : Nat → Word} :
    Local D (gets World.ncall >>= fun n => hostCall O >>= fun r =>
      match r with
      | none => pure (e n)
      | some _ => fillStruct O p len >>= fun _ => pure 0 : Sys L M Word) :=
  Agrees.bind (local_gets fun _ _ => rfl) fun _ => local_option hostCall_local (agrees_pure _) fun _ =>
    Agrees.bind (fillStruct_local _ _) fun _ => agrees_pure _

/-- `sys_sysinfo` reads nothing. -/
lemma sysSysinfo_local (p : Word) : Local D (sysSysinfo O p : Sys L M Word) :=
  local_option (procbufalign_local _ _ _) (agrees_pure _) fun _ => struct_local

/-- `sys_clock_gettime` reads nothing. -/
lemma sysClockGettime_local (clockid : CInt) (p : Word) :
    Local D (sysClockGettime O clockid p : Sys L M Word) :=
  Agrees.ite (agrees_pure _) (local_option (procbufalign_local _ _ _) (agrees_pure _) fun _ => struct_local)

/-- `sys_ioctl` reads nothing. -/
lemma sysIoctl_local (fd : CInt) (request p : Word) : Local D (sysIoctl O fd request p : Sys L M Word) :=
  Agrees.ite (agrees_pure _) (Agrees.ite (agrees_pure _)
    (local_option (procbufalign_local _ _ _) (agrees_pure _) fun _ => struct_local))

/-- `sys_uname` reads nothing. -/
lemma sysUname_local (p : Word) : Local D (sysUname p : Sys L M Word) :=
  local_option (procbufalign_local _ _ _) (agrees_pure _) fun _ =>
    Agrees.bind (strcpyTo_local _ _) fun _ => Agrees.bind (strcpyTo_local _ _) fun _ =>
      Agrees.bind (strcpyTo_local _ _) fun _ => Agrees.bind (strcpyTo_local _ _) fun _ => agrees_pure _

/-- `sys_sched_getaffinity` reads nothing. -/
lemma sysSchedGetaffinity_local (size p : Word) :
    Local D (sysSchedGetaffinity O size p : Sys L M Word) := by
  refine Agrees.bind hostCall_local fun count => Agrees.ite (agrees_pure _) ?_
  refine local_option hostCall_local (agrees_pure _) fun _ => Agrees.bind (ask_local _ _) fun _ => ?_
  exact Agrees.bind (touch_local _ _) fun _ => Agrees.bind (fill_local _ _) fun _ => agrees_pure _

/-- `sys_sched_yield` reads nothing. -/
lemma sysSchedYield_local : Local D (sysSchedYield O : Sys L M Word) :=
  local_option hostCall_local (agrees_pure _) fun _ => agrees_pure _

/-- `sys_time` reads nothing. -/
lemma sysTime_local (p : Word) : Local D (sysTime O p : Sys L M Word) :=
  Agrees.ite (agrees_pure _) hostSize_local

/-! ## Threads -/

/-- The host reads the word of a futex. -/
lemma hostFutex_local (uaddr : Word) (c : FutexCall) : Local D (hostFutex O uaddr c : Sys L M Word) :=
  Agrees.bind (touch_local _ _) fun _ => Agrees.bind (local_modify (fun _ => rfl) fun _ _ => rfl) fun _ =>
    local_option hostCall_local (agrees_pure _) fun _ => agrees_pure _

/-- A wait leaves its timeout to the host. -/
lemma futexwait_local (uaddr : Word) (op val : CInt) (timeoutp : Word) :
    Local D (futexwait O uaddr op val timeoutp : Sys L M Word) :=
  Agrees.ite (local_option (procbufalign_local _ _ _) (agrees_pure _) fun _ =>
    Agrees.bind (touch_local _ _) fun _ => hostFutex_local _ _) (hostFutex_local _ _)

/-- `sys_futex` reads nothing. -/
lemma sysFutex_local (uaddrp : Word) (op val : CInt) (timeoutp : Word) :
    Local D (sysFutex O uaddrp op val timeoutp : Sys L M Word) :=
  Agrees.ite (agrees_pure _) (local_option (procbufalign_local _ _ _) (agrees_pure _) fun _ =>
    Agrees.ite (futexwait_local _ _ _ _)
      (Agrees.ite (hostFutex_local _ _) (Agrees.ite (hostFutex_local _ _) (agrees_pure _))))

/-- An id is stored, or not. -/
lemma storeTid_local (set : Bool) (p : Word) (tid : CInt) : Local D (storeTid set p tid : Sys L M Unit) :=
  Agrees.ite (Agrees.bind (ask_local _ _) fun _ => store32_local _ _) (agrees_pure _)

/-- `sys_exit` stores a zero, and wakes. -/
lemma sysExit_local (opts : TuxOptions) (code : Word) : Local D (sysExit O opts code : Sys L M Word) := by
  have hstore : Local D (clearctidStore : Sys L M Unit) :=
    Agrees.bind (local_gets fun _ _ => rfl) fun ctid => Agrees.ite (store32_local _ _) (agrees_pure _)
  have hwake : Local D (clearctidWake O : Sys L M Unit) :=
    Agrees.bind (local_gets fun _ _ => rfl) fun ctid =>
      Agrees.bind (sysFutex_local _ _ _ _) fun _ => agrees_pure _
  exact Agrees.bind (Agrees.bind hstore fun _ => hwake) fun _ => agrees_stop _

/-- A new thread copies registers, and no memory. -/
lemma spawn_local (flags stack ptidp ctidp tls : Word) :
    Local D (spawn O flags stack ptidp ctidp tls : Sys L M Word) := by
  unfold spawn
  cases spawnFlags flags with
  | none => exact agrees_pure _
  | some flags =>
    refine local_option ?_ (agrees_pure _) fun p2 => Agrees.bind ?_ fun _ => ?_
    · refine local_option ?_ (agrees_pure _) fun p2 => Agrees.bind (storeTid_local _ _ _) fun _ => agrees_pure _
      refine local_option hostCall_local (agrees_pure _) fun _ => Agrees.bind ?_ fun tid => ?_
      · refine Agrees.bind (local_gets fun _ _ => rfl) fun tid => Agrees.bind ?_ fun _ => agrees_pure _
        exact local_modify (fun _ => rfl) fun _ _ => rfl
      · exact local_get (fun _ _ => rfl) fun _ => agrees_pure _
    · refine Agrees.bind hostCall_local fun r => Agrees.bind (agrees_check _ _) fun _ => ?_
      exact local_modify (fun _ => rfl) fun _ _ => rfl
    · exact Agrees.bind (storeTid_local _ _ _) fun _ => agrees_pure _

/-- `sys_clone` reads what `spawn` does. -/
lemma sysClone_local (flags stack ptid ctid tls : Word) :
    Local D (sysClone O flags stack ptid ctid tls : Sys L M Word) :=
  Agrees.bind (agrees_check _ _) fun _ => spawn_local _ _ _ _ _

/-- `sys_set_tid_address` reads nothing. -/
lemma sysSetTidAddress_local (ctid : Word) : Local D (sysSetTidAddress ctid : Sys L M Word) :=
  Agrees.bind (local_modify (fun _ => rfl) fun _ _ => rfl) fun _ =>
    local_get (fun _ _ => rfl) fun _ => agrees_pure _

/-- `sys_arch_prctl` reads nothing. -/
lemma sysArchPrctl_local (code : CInt) (addr : Word) : Local D (sysArchPrctl code addr : Sys L M Word) :=
  Agrees.ite (Agrees.bind (local_modify (fun _ => rfl) fun _ _ => rfl) fun _ => agrees_pure _) (agrees_pure _)

/-! ## Descriptors -/

/-- `sys_openat` reads its path. -/
lemma sysOpenat_local (dirfd : CInt) (p : Word) : Local D (sysOpenat O dirfd p : Sys L M Word) := by
  refine withDir_local fun _ => withPath_local fun _ => local_get (fun _ _ => rfl) fun w => ?_
  refine Agrees.bind (local_modify (fun _ => rfl) fun _ _ => rfl) fun _ => ?_
  cases (w.fds.openat w.files (O.newfile w.ncall)).1 with
  | none => exact agrees_pure _
  | some fd => exact agrees_pure _

/-- `sys_close` reads nothing. -/
lemma sysClose_local (fd : CInt) : Local D (sysClose fd : Sys L M Word) :=
  local_get (fun _ _ => rfl) fun _ => Agrees.bind (local_modify (fun _ => rfl) fun _ _ => rfl) fun _ =>
    Agrees.ite (agrees_pure _) (agrees_pure _)

/-- `sys_chdir` reads its path. -/
lemma sysChdir_local (p : Word) : Local D (sysChdir O p : Sys L M Word) :=
  withPath_local fun _ => local_get (fun _ _ => rfl) fun _ =>
    Agrees.bind (local_modify (fun _ => rfl) fun _ _ => rfl) fun _ => agrees_pure _

/-- `sys_fchdir` reads nothing. -/
lemma sysFchdir_local (fd : CInt) : Local D (sysFchdir O fd : Sys L M Word) :=
  withHandler_local (Agrees.bind hostIsdir_local fun _ => Agrees.ite
    (Agrees.bind (local_modify (fun _ => rfl) fun _ _ => rfl) fun _ => agrees_pure _) (agrees_pure _))

end

/-! ## The address space -/

section
variable {L : LibMMap} {M : Machine} {H : HostVm} {O : HostOs} {opts : TuxOptions} {D : Word → Prop}

/-- What is done to the address space, when it does not look at the memory. -/
lemma space_local {α : Type} {x : Vm L α} (hx : Agrees (LFIAddrSpace.Same D) (Ev.In D) x) :
    Local D (onSpace x : Sys L M α) := by
  refine hx.zoom (fun h => h.space) fun {w w' as as'} h has => ⟨?_, has.mem⟩
  rw [h.eq, has.eq]
  rfl

/-- The file of a mapping is found by the descriptors. -/
lemma mapfile_local (fd : CInt) : Local D (mapfile fd : Sys L M _) := by
  refine local_get (fun _ _ => rfl) fun w => Agrees.ite (agrees_pure _) ?_
  cases w.fdfile fd with
  | none => exact agrees_pure _
  | some f => exact Agrees.ite (agrees_pure _) (agrees_pure _)

/-- The mapping calls of `mmap`, with the file looked up before. -/
lemma map_local {x : Option HostFile → Vm L Word} {f : Word → Word} {fd : CInt}
    (hx : ∀ hf, Agrees (LFIAddrSpace.Same D) (Ev.In D) (x hf)) :
    Local D (mapfile fd >>= fun r =>
      match r with
      | .error e => pure e
      | .ok hf => onSpace (x hf) >>= fun addr =>
        if addr = mapFailed then pure (negErr TUX_EINVAL) else pure (f addr) : Sys L M Word) := by
  refine Agrees.bind (mapfile_local fd) fun r => ?_
  cases r with
  | error e => exact agrees_pure _
  | ok hf => exact Agrees.bind (space_local (hx hf)) fun _ => Agrees.ite (agrees_pure _) (agrees_pure _)

/-- `sys_mmap` reads nothing. -/
lemma sysMmap_local (addr length : Word) (prot flags fd : CInt) :
    Local D (sysMmap H opts addr length prot flags fd : Sys L M Word) :=
  Agrees.ite (agrees_pure _) (Agrees.ite (agrees_pure _) (Agrees.ite
    (map_local fun _ => lfiAsMapat_agrees _ _ _ _) (map_local fun _ => lfiAsMapany_agrees _ _ _)))

/-- `sys_mprotect` reads nothing. -/
lemma sysMprotect_local (addr length : Word) (prot : CInt) :
    Local D (sysMprotect H addr length prot : Sys L M Word) :=
  Agrees.bind (space_local (lfiAsMprotect_agrees _ _ _)) fun _ => agrees_pure _

/-- `sys_munmap` reads nothing. -/
lemma sysMunmap_local (addr length : Word) : Local D (sysMunmap H addr length : Sys L M Word) :=
  Agrees.bind (space_local (lfiAsMunmap_agrees _ _)) fun _ => agrees_pure _

/-- The break is not in memory. -/
lemma setbrk_local (newsize : Word) : Local D (setbrk newsize : Sys L M Word) :=
  Agrees.bind (local_modify (fun _ => rfl) fun _ _ => rfl) fun _ => local_gets fun _ _ => rfl

/-- The two ways in which the heap is mapped. -/
lemma brkMap_agrees (p : TuxThread L M) (newsize : Word) :
    Agrees (LFIAddrSpace.Same D) (Ev.In D) (brkMap H opts p newsize) :=
  Agrees.ite (lfiAsMapat_agrees _ _ _ _) (lfiAsMapat_agrees _ _ _ _)

/-- `sys_brk` reads the heap of the thread, which is not in memory. -/
lemma sysBrk_local (addr : Word) : Local D (sysBrk H opts addr : Sys L M Word) := by
  have hbrk : ∀ p : TuxThread L M, Local D (check (brkSize p addr < TUX_BRKMAXSIZE) (.assertion .brkNewsize) >>=
      fun _ =>
        if brkSize p addr = p.brksize then pure (brkTo p addr)
        else if brkTo p addr ≥ p.brkbase + p.brksize then
          onSpace (brkMap H opts p (brkSize p addr)) >>= fun map =>
            if map = mapFailed then pure (-1) else setbrk (brkSize p addr)
        else setbrk (brkSize p addr) : Sys L M Word) :=
    fun p => Agrees.bind (agrees_check _ _) fun _ => Agrees.ite (agrees_pure _)
      (Agrees.ite (Agrees.bind (space_local (brkMap_agrees _ _)) fun _ =>
        Agrees.ite (agrees_pure _) (setbrk_local _)) (setbrk_local _))
  refine agrees_gets_bind fun {w w'} h => ?_
  have hbase : w'.p.brkbase = w.p.brkbase := h.congr (f := fun w => w.p.brkbase) fun _ => rfl
  have hsize : w'.p.brksize = w.p.brksize := h.congr (f := fun w => w.p.brksize) fun _ => rfl
  have hto : brkTo w'.p addr = brkTo w.p addr := by
    unfold brkTo
    rw [hbase, hsize]
  have hsz : brkSize w'.p addr = brkSize w.p addr := by
    unfold brkSize
    rw [hto, hbase]
  have hmap : ∀ n, brkMap H opts w'.p n = brkMap H opts w.p n := by
    intro n
    unfold brkMap
    rw [hbase, hsize]
  rw [hto, hsz, hbase, hsize, hmap]
  exact hbrk w.p h

end

/-! ## All calls -/

section
variable {L : LibMMap} {H : HostVm} {O : HostOs} {opts : TuxOptions} {A : Arch} {D : Word → Prop}

/-- Every call reads only what it announced. -/
lemma syscall_agrees (n : Sysno) (a : Args) : Local D (syscall H O opts A n a : Sys L A.machine Word) := by
  cases n with
  | write => exact sysWrite_local _ _ _
  | read => exact sysRead_local _ _ _
  | lseek => exact sysLseek_local _ _
  | exit => exact sysExit_local _ _
  | exitGroup => exact agrees_stop _
  | brk => exact sysBrk_local _
  | openat => exact sysOpenat_local _ _
  | «open» => exact sysOpenat_local _ _
  | close => exact sysClose_local _
  | writev => exact sysIov_local (sysWrite_local _) _ _
  | readv => exact sysIov_local (sysRead_local _) _ _
  | pread64 => exact sysPread64_local _ _ _
  | mmap => exact sysMmap_local _ _ _ _ _
  | mprotect => exact sysMprotect_local _ _ _
  | munmap => exact sysMunmap_local _ _
  | getdents64 => exact sysGetdents64_local _ _ _
  | newfstatat => exact sysNewfstatat_local _ _ _ _
  | fstat => exact sysNewfstatat_local _ _ _ _
  | stat => exact sysNewfstatat_local _ _ _ _
  | lstat => exact sysNewfstatat_local _ _ _ _
  | fchmod => exact sysHandler_local _ _
  | ftruncate => exact sysHandler_local _ _
  | fchown => exact sysHandler_local _ _
  | fsync => exact sysHandler_local _ _
  | truncate => exact sysTruncate_local _
  | chdir => exact sysChdir_local _
  | fchdir => exact sysFchdir_local _
  | mkdirat => exact sysMkdirat_local _ _
  | mkdir => exact sysMkdirat_local _ _
  | getrandom => exact sysGetrandom_local _ _ _
  | getcwd => exact sysGetcwd_local _ _
  | clockGettime => exact sysClockGettime_local _ _
  | unlinkat => exact sysUnlinkat_local _ _ _
  | unlink => exact sysUnlinkat_local _ _ _
  | renameat => exact sysRenameat_local _ _ _ _
  | rename => exact sysRenameat_local _ _ _ _
  | faccessat => exact sysFaccessat2_local _ _ _
  | access => exact sysFaccessat2_local _ _ _
  | readlinkat => exact sysReadlinkat_local _ _ _ _
  | readlink => exact sysReadlinkat_local _ _ _ _
  | ioctl => exact sysIoctl_local _ _ _
  | gettid => exact local_gets fun _ _ => rfl
  | futex => exact sysFutex_local _ _ _ _
  | clone =>
    cases A with
    | x64 => exact sysClone_local _ _ _ _ _
    | arm64 => exact sysClone_local _ _ _ _ _
  | setTidAddress => exact sysSetTidAddress_local _
  | schedGetaffinity => exact sysSchedGetaffinity_local _ _
  | schedYield => exact sysSchedYield_local
  | rtSigreturn => exact agrees_stop _
  | uname => exact sysUname_local _
  | sysinfo => exact sysSysinfo_local _
  | prctl => exact sysPrctl_local _ _
  | archPrctl => exact sysArchPrctl_local _ _
  | time => exact sysTime_local _
  | chown => exact withPath_local fun _ => hostInt_local
  | chmod => exact withPath_local fun _ => hostInt_local
  | _ => exact agrees_pure _

/-- So does the dispatch, which ends the thread for a number that it does not know. -/
lemma syshandle_agrees (num : Word) (a : Args) : Local D (syshandle H O opts A num a : Sys L A.machine Word) := by
  unfold syshandle
  cases A.sysno num with
  | none => exact agrees_stop _
  | some n => exact syscall_agrees n a

/-- A system call depends on guest memory only where it announced an access. From a world that differs in
memory outside of these ranges, the call ends in the same way, with the same result and after the same events,
and leaves a world that differs in nothing else. -/
theorem syscall_local (num : Word) (a : Args) {w w' : World L A.machine} (h : w.Same D w')
    (hD : ∀ r, .touch r ∈ ((syshandle H O opts A num a).run w).out → ∀ x, r.Has x → D x) :
    ((syshandle H O opts A num a).run w').val = ((syshandle H O opts A num a).run w).val ∧
      ((syshandle H O opts A num a).run w').out = ((syshandle H O opts A num a).run w).out ∧
      World.Same D ((syshandle H O opts A num a).run w).st ((syshandle H O opts A num a).run w').st := by
  obtain ⟨hval, hout, hst⟩ := syshandle_agrees num a h fun e he => by
    cases e with
    | touch r => exact hD r he
    | _ => trivial
  exact ⟨hval, hout, hst⟩

end

/-- The first thread of a process whose memory is all zeros. -/
def zeroWorld : World .ofRanges (Arch.machine .x64) := .ofThread (procnewfile (.fresh .plain) 10000)

/-- The arguments of a call that is given the lowest address of the window. -/
def lowArgs : Args := ⟨LFIAddrSpaceInfo.plain.minaddr, 0, 0, 0, 0, 0⟩

/-- `truncate` reads the zero that ends its path, and not the byte after it. -/
theorem syscall_local_truncate :
    ((syshandle (.plain fun _ _ _ => true) .plain .plain .x64 76 lowArgs).run
      (zeroWorld.setMem (Function.update zeroWorld.mem (lowArgs.a0 + 1) 7))).val = .ok 0 := by
  have hsame : zeroWorld.Same (fun x => Range.Has ⟨lowArgs.a0, 1⟩ x)
      (zeroWorld.setMem (Function.update zeroWorld.mem (lowArgs.a0 + 1) 7)) := by
    refine ⟨rfl, fun x hx => Function.update_of_ne (fun hne => ?_) ..⟩
    subst hne
    exact absurd hx (by decide +kernel)
  refine (syscall_local (A := .x64) 76 lowArgs hsame fun r hr x hx => ?_).1.trans (by decide +kernel)
  have hout : ((syshandle (.plain fun _ _ _ => true) .plain .plain .x64 76 lowArgs).run zeroWorld).out =
      [.touch ⟨lowArgs.a0, 1⟩, .touch ⟨lowArgs.a0, 1⟩] := by decide +kernel
  rw [hout, List.mem_cons, List.mem_singleton, or_self, Ev.touch.injEq] at hr
  rw [← hr]
  exact hx

end Libtux
