import Libtux.Sys.Runs
import Libtux.Sys.Heap

/-!
# Which guest memory a system call touches

The accessors of `src/syscalls/syscalls.h` check where a buffer starts. None of them looks at its size,
`procpath` reads a string before it compares its end with the end of the sandbox, and `procaddr`, which
`spawn`, `clearctid` and `sys_sched_getaffinity` store through, checks nothing.

* `Confined` is what is wanted of a run, with a proposition for the ranges asked for before it. Its rules
  (`conf_step`, `conf_buf`, `conf_handler`, `conf_path`, `conf_dir`, …) are equivalences, so that
  rewriting with them turns a system call into the condition it needs.
* `iovLoop_confined` is the loop of the vector calls, by induction over the entries; the memory that
  holds the entries may change on the way.
* `Sysno.Fits` is the condition of each call, and `syscalls_confined` the equivalence, in every state.
-/

namespace Libtux
open Lib

/-! ## Confined runs -/

/-- A range inside the usable part of an address space. An empty range is inside. -/
def Inside (i : LFIAddrSpaceInfo) (r : Range) : Prop :=
  r.len = 0 ∨ i.minaddr ≤ r.ptr ∧ r.ptr.toNat + r.len ≤ i.maxaddr.toNat

instance (i : LFIAddrSpaceInfo) (r : Range) : Decidable (Inside i r) :=
  inferInstanceAs (Decidable (_ ∨ _ ∧ _))

/-- An answer from `-4095` to `-1`. -/
def IsErr (v : Word) : Prop := 2 ^ 64 - 4096 < v.toNat

section
variable {L : LibMMap} {M : Machine}

/-- Every range that was touched is inside, and the answer is an error if a range was asked for that is
not, now or before (`q`). -/
def Confined (i : LFIAddrSpaceInfo) (q : Prop) (r : Res Stop Ev (World L M) Word) : Prop :=
  (∀ p, .touch p ∈ r.out → Inside i p) ∧
    ((q ∨ ∃ p, .ask p ∈ r.out ∧ ¬ Inside i p) → ∀ v, r.val = .ok v → IsErr v)

variable {α : Type} {i : LFIAddrSpaceInfo} {q : Prop} {w w₁ : World L M}

/-- How a program that returned constrains what follows it. -/
lemma conf_step {x : Sys L M α} {f : α → Sys L M Word} {a : α} {l : List Ev}
    (hx : x.run w = ⟨.ok a, w₁, l⟩) :
    Confined i q ((x >>= f).run w) ↔
      (∀ p, .touch p ∈ l → Inside i p) ∧
        Confined i (q ∨ ∃ p, .ask p ∈ l ∧ ¬ Inside i p) ((f a).run w₁) := by
  rw [Exec.bind_run, hx, Exec.andThen_ok]
  simp only [Confined, List.mem_append, or_imp, forall_and, or_and_right, exists_or]
  tauto

/-- A part that goes through no event only hands on its state. -/
lemma conf_quiet {x : Sys L M α} {f : α → Sys L M Word} {a : α} (hx : x.run w = ⟨.ok a, w₁, []⟩) :
    Confined i q ((x >>= f).run w) ↔ Confined i q ((f a).run w₁) := by
  rw [conf_step hx]
  simp

/-- A part that touches a range needs it to be inside. -/
lemma conf_touch {x : Sys L M α} {f : α → Sys L M Word} {a : α} {p : Range}
    (hx : x.run w = ⟨.ok a, w₁, [.touch p]⟩) :
    Confined i q ((x >>= f).run w) ↔ Inside i p ∧ Confined i q ((f a).run w₁) := by
  rw [conf_step hx]
  simp

/-- A part that is asked for a range leaves the rest to answer for it. -/
lemma conf_ask {x : Sys L M α} {f : α → Sys L M Word} {a : α} {p : Range}
    (hx : x.run w = ⟨.ok a, w₁, [.ask p]⟩) :
    Confined i q ((x >>= f).run w) ↔ Confined i (q ∨ ¬ Inside i p) ((f a).run w₁) := by
  rw [conf_step hx]
  simp

/-- An end without events needs an error as soon as a range before it was not inside. -/
lemma conf_value {x : Sys L M Word} {v : Word} (hx : x.run w = ⟨.ok v, w₁, []⟩) :
    Confined i q (x.run w) ↔ (q → IsErr v) := by
  rw [hx]
  simp [Confined]

/-- The same of a program that is its answer. -/
lemma conf_pure (v : Word) : Confined i q ((pure v : Sys L M Word).run w) ↔ (q → IsErr v) :=
  conf_value (Exec.pure_run v w)

/-- An error number below 4096 is answered as an error. -/
lemma isErr_negErr {e : Nat} (hpos : 0 < e) (hlt : e < 4096) : IsErr (negErr e) := by
  simp only [IsErr, negErr, BitVec.toNat_neg, BitVec.toNat_ofNat]
  omega

/-- A refusal needs nothing. -/
lemma conf_negErr {e : Nat} (hpos : 0 < e) (hlt : e < 4096) :
    Confined i q ((pure (negErr e) : Sys L M Word).run w) ↔ True := by
  rw [conf_pure]
  exact iff_of_true (fun _ => isErr_negErr hpos hlt) trivial

variable {O : HostOs}

/-- `lfi_as_fmptr` returns its argument. -/
lemma alignedTo_some {align : Nat} {o : Option Word} {b : Word} (h : alignedTo align o = some b) :
    o = some b ∧ b.toNat % align = 0 := by
  cases o with
  | none => cases h
  | some c =>
    rw [alignedTo] at h
    split at h
    · cases h
    next hmod =>
      cases h
      exact ⟨rfl, not_not.mp hmod⟩

/-! ## Accessors and wrappers -/

/-- An accessor whose failure is answered with an error: it succeeds and the rest is confined, or it fails. -/
lemma conf_option {x : Sys L M (Option Word)} {f : Option Word → Sys L M Word} {o : Option Word} {p : Word}
    {r : Range} {e : Nat} (hx : x.run w = ⟨.ok o, w, [.ask r]⟩) (ho : ∀ b, o = some b → b = p)
    (hnone : f none = pure (negErr e)) (hpos : 0 < e) (hlt : e < 4096) :
    Confined i q ((x >>= f).run w) ↔
      o = none ∨ Confined i (q ∨ ¬ Inside i r) ((f (some p)).run w) := by
  rw [conf_ask hx]
  cases o with
  | none =>
    rw [hnone]
    exact iff_of_true ((conf_negErr hpos hlt).mpr trivial) (.inl rfl)
  | some b =>
    cases ho b rfl
    simp

/-- The rule of `procbuf`. -/
lemma conf_buf {f : Option Word → Sys L M Word} {p size : Word} {e : Nat}
    (hnone : f none = pure (negErr e)) (hpos : 0 < e) (hlt : e < 4096) :
    Confined i q ((procbuf p size >>= f).run w) ↔
      lfiAsFmptr w.info p = none ∨ Confined i (q ∨ ¬ Inside i ⟨p, size.toNat⟩) ((f (some p)).run w) :=
  conf_option (procbuf_run p size w) (fun _ h => (fmptr_some h).1) hnone hpos hlt

/-- The rule of `procbufalign`. -/
lemma conf_bufalign {f : Option Word → Sys L M Word} {p size : Word} {align e : Nat}
    (hnone : f none = pure (negErr e)) (hpos : 0 < e) (hlt : e < 4096) :
    Confined i q ((procbufalign p size align >>= f).run w) ↔
      alignedTo align (lfiAsFmptr w.info p) = none ∨
        Confined i (q ∨ ¬ Inside i ⟨p, size.toNat⟩) ((f (some p)).run w) :=
  conf_option (procbufalign_run p size align w) (fun _ h => (fmptr_some (alignedTo_some h).1).1) hnone
    hpos hlt

/-- The rule of a handler: a descriptor without it is refused. -/
lemma conf_handler {fd : CInt} {op : FileOp} {e : Nat} {body : Sys L M Word} (hpos : 0 < e)
    (hlt : e < 4096) :
    Confined i q ((withHandler fd op e body).run w) ↔
      w.handles fd op = false ∨ Confined i q (body.run w) := by
  rw [withHandler_run]
  cases w.handles fd op with
  | true => simp
  | false =>
    refine iff_of_true ?_ (.inl rfl)
    rw [if_neg Bool.false_ne_true, ← apply_ite negErr, ← Exec.pure_run, conf_negErr]
    · trivial
    · split
      · decide
      · exact hpos
    · split
      · decide
      · exact hlt

/-- The bytes of a path that are read are inside, or the pointer is refused. -/
def World.PathFits (w : World L M) (pathp : Word) : Prop :=
  lfiAsFmptr w.info pathp = none ∨
    Inside w.info ⟨pathp, min (strnlenAt w.mem pathp TUX_PATH_MAX + 1) TUX_PATH_MAX⟩

/-- `strnlen` stops at its limit. -/
lemma strnlenAt_le (mem : Word → Byte) (str : Word) (n : Nat) : strnlenAt mem str n ≤ n := by
  induction n generalizing str with
  | zero => exact le_rfl
  | succ n ih =>
    unfold strnlenAt
    split
    · exact Nat.zero_le _
    · exact Nat.succ_le_succ (ih _)

/-- The second access of `procpath` comes after the check, and is always inside. -/
lemma pathReads_inside (w : World L M) (pathp : Word) :
    (∀ p, .touch p ∈ w.pathReads (lfiAsFmptr w.info pathp) → Inside w.info p) ↔ w.PathFits pathp := by
  unfold World.PathFits
  cases h : lfiAsFmptr w.info pathp with
  | none => simp [World.pathReads]
  | some str =>
    obtain ⟨rfl, hmin, hmax⟩ := fmptr_some h
    have hend : w.pathEnd str < w.info.maxaddr → Inside w.info ⟨w.pathEnd str, 1⟩ := by
      intro hlt
      have hle := strnlenAt_le w.mem str TUX_PATH_MAX
      have htop := w.info.maxaddr_toNat
      have hbase := w.info.base_top
      have hnat : (w.pathEnd str).toNat = str.toNat + strnlenAt w.mem str TUX_PATH_MAX := by
        unfold World.pathEnd TUX_PATH_MAX at *
        rw [BitVec.toNat_add, BitVec.toNat_ofNat, Nat.mod_eq_of_lt (a := strnlenAt w.mem str 4096)]
        · apply Nat.mod_eq_of_lt
          bv_omega
        · omega
      refine .inr ⟨?_, ?_⟩
      · change w.info.minaddr.toNat ≤ (w.pathEnd str).toNat
        have : w.info.minaddr.toNat ≤ str.toNat := hmin
        omega
      · exact hlt
    rw [World.pathReads]
    split
    · simp
    next hlt =>
      have := hend (BitVec.not_le.mp hlt)
      simp [this]

/-- `procpath` does not say what it is asked for. -/
lemma not_ask_pathReads (o : Option Word) (r : Range) : .ask r ∉ w.pathReads o := by
  intro hr
  cases o with
  | none => cases hr
  | some str =>
    rw [World.pathReads] at hr
    split at hr <;> simp at hr

/-- The rule of `procpath`, whose reads have to be inside before anything is refused. -/
lemma conf_procpath {f : Option Word → Sys L M Word} {p : Word} :
    Confined w.info q ((procpath p >>= f).run w) ↔
      w.PathFits p ∧ Confined w.info q ((f (w.path p)).run w) := by
  have hask : ¬ ∃ r, Ev.ask r ∈ w.pathReads (lfiAsFmptr w.info p) ∧ ¬ Inside w.info r :=
    fun ⟨r, hr, _⟩ => not_ask_pathReads _ r hr
  rw [conf_step (procpath_run p w), pathReads_inside, or_iff_left hask]

/-- The rule of a path that is refused with `EFAULT`. -/
lemma conf_path {f : Word → Sys L M Word} {p : Word} :
    Confined w.info q ((withPath p f).run w) ↔
      w.PathFits p ∧ (w.path p = none ∨ Confined w.info q ((f p).run w)) := by
  have hsome : ∀ str, w.path p = some str → str = p := fun _ h => World.path_eq h
  unfold withPath
  rw [conf_procpath]
  refine and_congr_right fun _ => ?_
  generalize w.path p = o at hsome
  cases o with
  | none => exact iff_of_true ((conf_negErr (by decide) (by decide)).mpr trivial) (.inl rfl)
  | some str =>
    cases hsome str rfl
    simp

/-- The rule of a directory that is refused with `EBADF`. -/
lemma conf_dir {g : Sys L M Word} {dirfd : CInt} :
    Confined i q ((withDir O dirfd fun _ => g).run w) ↔
      w.dir O dirfd = none ∨ Confined i q (g.run (w.calls (w.lookups dirfd))) := by
  unfold withDir
  rw [conf_quiet (getfdir_run dirfd w)]
  cases w.dir O dirfd with
  | none => exact iff_of_true ((conf_negErr (by decide) (by decide)).mpr trivial) (.inl rfl)
  | some d => simp

/-- An answer without its top bit is no error. -/
lemma not_isErr {v : Word} (hv : v.msb = false) : ¬ IsErr v := by
  intro h
  rw [BitVec.msb_eq_decide] at hv
  simp only [IsErr, decide_eq_false_iff_not, not_le] at h hv
  omega

/-- A call that answers without an error must not have been asked for a range that is outside. -/
lemma conf_nonneg {x : Sys L M Word} {v : Word} (hx : x.run w = ⟨.ok v, w₁, []⟩) (hv : v.msb = false) :
    Confined i q (x.run w) ↔ ¬ q := by
  rw [conf_value hx]
  exact ⟨fun h hq => not_isErr hv (h hq), fun h hq => absurd hq h⟩

/-- An answer of the host is no error. -/
lemma conf_hostInt : Confined i q ((hostInt O).run w) ↔ ¬ q := conf_nonneg (hostInt_run w) (intAnswer_msb _)

/-- A size that the host answers is no error. -/
lemma conf_hostSize : Confined i q ((hostSize O).run w) ↔ ¬ q :=
  conf_nonneg (hostSize_run w) (sizeAnswer_msb _)

/-- A buffer that the host fills has to be inside. -/
lemma conf_hostFill {p len : Word} :
    Confined i q ((hostFill O p len).run w) ↔ Inside i ⟨p, len.toNat⟩ ∧ ¬ q := by
  rw [hostFill_run]
  have := not_isErr (sizeAnswer_msb (O := O) w.ncall)
  simp [Confined, this]

/-! Host calls change none of this. The equations are rewritten with, so that nothing is evaluated. -/

/-- They leave the bounds of the address space. -/
lemma World.calls_info (w : World L M) (k : Nat) : (w.calls k).info = w.info := rfl

/-- They leave the memory. -/
lemma World.calls_mem (w : World L M) (k : Nat) : (w.calls k).mem = w.mem := rfl

/-- A path is found after them as before. -/
lemma World.calls_path (w : World L M) (k : Nat) (p : Word) : (w.calls k).path p = w.path p := by
  have hthread : (w.calls k).p = w.p := rfl
  exact World.path_congr hthread p

/-- It fits after them as before. -/
lemma World.calls_pathFits (w : World L M) (k : Nat) (p : Word) :
    (w.calls k).PathFits p ↔ w.PathFits p := by
  unfold World.PathFits
  rw [World.calls_info, World.calls_mem]

/-- The path of a call that looks up its directory first. -/
lemma conf_calls_path {f : Word → Sys L M Word} {p : Word} {k : Nat} :
    Confined w.info q ((withPath p f).run (w.calls k)) ↔
      w.PathFits p ∧ (w.path p = none ∨ Confined w.info q ((f p).run (w.calls k))) := by
  rw [← World.calls_info w k, conf_path, World.calls_pathFits, World.calls_path]

/-! ## What each call needs -/

/-- A buffer that is refused, or inside. -/
def World.BufFits (w : World L M) (p : Word) (len : Nat) : Prop :=
  lfiAsFmptr w.info p = none ∨ Inside w.info ⟨p, len⟩

/-- A structure that is refused, or inside. -/
def World.AlignFits (w : World L M) (p : Word) (len align : Nat) : Prop :=
  alignedTo align (lfiAsFmptr w.info p) = none ∨ Inside w.info ⟨p, len⟩

/-- The buffer of a `read` or a `write`. -/
def World.TransferFits (w : World L M) (fd : CInt) (op : FileOp) (p size : Word) : Prop :=
  size = 0 ∨ w.handles fd op = false ∨ w.BufFits p size.toNat

/-- `sys_write` needs its buffer, when it comes to it. -/
lemma sysWrite_confined (fd : CInt) (p size : Word) :
    Confined w.info False ((sysWrite O fd p size).run w) ↔ w.TransferFits fd .write p size := by
  unfold sysWrite World.TransferFits World.BufFits
  by_cases hsize : size = 0
  · rw [if_pos hsize, conf_pure]
    simp [hsize]
  · rw [if_neg hsize, conf_handler (by decide) (by decide), conf_buf rfl (by decide) (by decide),
      conf_touch (touch_run p size.toNat w), conf_hostSize]
    tauto

/-- `sys_read` needs the same. -/
lemma sysRead_confined (fd : CInt) (p size : Word) :
    Confined w.info False ((sysRead O fd p size).run w) ↔ w.TransferFits fd .read p size := by
  unfold sysRead World.TransferFits World.BufFits
  by_cases hsize : size = 0
  · rw [if_pos hsize, conf_pure]
    simp [hsize]
  · rw [if_neg hsize, conf_handler (by decide) (by decide), conf_buf rfl (by decide) (by decide)]
    change _ ∨ _ ∨ Confined _ _ ((hostFill O p size).run w) ↔ _
    rw [conf_hostFill]
    tauto

/-- `sys_getdents64` needs an aligned buffer of the size it is given. -/
lemma sysGetdents64_confined (fd : CInt) (p count : Word) :
    Confined w.info False ((sysGetdents64 O fd p count).run w) ↔
      w.handles fd .getdents = false ∨ w.AlignFits p count.toNat 8 := by
  unfold sysGetdents64 World.AlignFits
  rw [conf_handler (by decide) (by decide), conf_bufalign rfl (by decide) (by decide)]
  change _ ∨ _ ∨ Confined _ _ ((hostFill O p count).run w) ↔ _
  rw [conf_hostFill]
  tauto

/-- `sys_pread64` needs its buffer when the file can both be read and be sought. -/
lemma sysPread64_confined (fd : CInt) (p size : Word) :
    Confined w.info False ((sysPread64 O fd p size).run w) ↔
      w.handles fd .read = false ∨ w.handles fd .lseek = false ∨ w.BufFits p size.toNat := by
  unfold sysPread64 World.BufFits
  rw [conf_handler (by decide) (by decide), conf_handler (by decide) (by decide),
    conf_buf rfl (by decide) (by decide), conf_quiet (hostSize_run w), conf_quiet (hostSize_run _),
    conf_touch (hostFill_run p size _), conf_quiet (hostSize_run _), conf_pure]
  have := not_isErr (sizeAnswer_msb (O := O) w.called.called.ncall)
  tauto

/-- The structure and the path of `sys_newfstatat`. -/
def World.StatFits (w : World L M) (O : HostOs) (dirfd : CInt) (pathp statp : Word) (flags : CInt) :
    Prop :=
  alignedTo 8 (lfiAsFmptr w.info statp) = none ∨
    if flags &&& TUX_AT_EMPTY_PATH = 0 then
      w.PathFits pathp ∧
        (w.path pathp = none ∨ w.dir O dirfd = none ∨ Inside w.info ⟨statp, M.statSize⟩)
    else w.handles dirfd .stat = false ∨ Inside w.info ⟨statp, M.statSize⟩

/-- What starts a range that is inside is inside. -/
lemma Inside.mono {p : Word} {m n : Nat} (h : Inside i ⟨p, n⟩) (hle : m ≤ n) : Inside i ⟨p, m⟩ := by
  rcases h with h | ⟨hmin, hmax⟩
  · exact .inl (Nat.eq_zero_of_le_zero (h ▸ hle))
  · exact .inr ⟨hmin, le_trans (Nat.add_le_add_left hle _) hmax⟩

/-- A structure is filled up to its end or not at all: what the answer needs is enough for that. -/
lemma copystat_confined {n : Nat} (hn : 120 ≤ n) (stat : Word) :
    Confined i (False ∨ ¬ Inside i ⟨stat, n⟩) ((do
      let w ← Exec.get
      if (O.ret w.ncall).isSome then
        touch stat 120
        Exec.modify fun w => w.fill O stat 120
      hostInt O : Sys L M Word).run w) ↔ Inside i ⟨stat, n⟩ := by
  rw [conf_quiet (Exec.get_run w), false_or]
  split
  · rw [conf_touch (touch_run stat 120 w), conf_quiet (Exec.modify_run _ w), conf_hostInt, not_not]
    exact and_iff_right_of_imp fun h => h.mono hn
  · rw [conf_hostInt, not_not]

/-- `sys_newfstatat` needs its path and its structure, or with `AT_EMPTY_PATH` the structure only. -/
lemma sysNewfstatat_confined (hsize : 120 ≤ M.statSize) (hsize64 : M.statSize < 2 ^ 64) (dirfd flags : CInt)
    (pathp statp : Word) :
    Confined w.info False ((sysNewfstatat O dirfd pathp statp flags).run w) ↔
      w.StatFits O dirfd pathp statp flags := by
  have hnat : (BitVec.ofNat 64 M.statSize).toNat = M.statSize := by
    rw [BitVec.toNat_ofNat]
    exact Nat.mod_eq_of_lt hsize64
  unfold sysNewfstatat World.StatFits
  rw [conf_bufalign rfl (by decide) (by decide), hnat]
  refine or_congr_right ?_
  dsimp only
  split
  · rw [conf_path, conf_dir, copystat_confined hsize]
  · rw [conf_handler (by decide) (by decide), copystat_confined hsize]

/-- The path and the buffer of `sys_readlinkat`. -/
def World.LinkFits (w : World L M) (O : HostOs) (dirfd : CInt) (pathp bufp size : Word) : Prop :=
  w.dir O dirfd = none ∨ w.PathFits pathp ∧ (w.path pathp = none ∨ w.BufFits bufp size.toNat)

/-- A path and a buffer that are looked up before either of them is refused. -/
lemma conf_path_buf {g : Option Word → Option Word → Sys L M Word} {pathp bufp size : Word}
    (hpath : ∀ o, g none o = pure (negErr TUX_EFAULT))
    (hbuf : ∀ p, g (some p) none = pure (negErr TUX_EFAULT)) :
    Confined w.info q ((procpath pathp >>= fun path => procbuf bufp size >>= fun buf => g path buf).run w) ↔
      w.PathFits pathp ∧ (w.path pathp = none ∨ lfiAsFmptr w.info bufp = none ∨
        Confined w.info (q ∨ ¬ Inside w.info ⟨bufp, size.toNat⟩) ((g (some pathp) (some bufp)).run w)) := by
  have hp : ∀ str, w.path pathp = some str → str = pathp := fun _ h => World.path_eq h
  rw [conf_procpath]
  refine and_congr_right fun _ => ?_
  generalize w.path pathp = o at hp
  cases o with
  | none =>
    refine iff_of_true ?_ (.inl rfl)
    rw [conf_ask (procbuf_run bufp size w), hpath, conf_negErr (by decide) (by decide)]
    trivial
  | some path =>
    cases hp path rfl
    rw [conf_buf (hbuf pathp) (by decide) (by decide), or_iff_right (Option.some_ne_none pathp)]

/-- `sys_readlinkat` needs its path, and its buffer when the path is one. -/
lemma sysReadlinkat_confined (dirfd : CInt) (pathp bufp size : Word) :
    Confined w.info False ((sysReadlinkat O dirfd pathp bufp size).run w) ↔
      w.LinkFits O dirfd pathp bufp size := by
  unfold sysReadlinkat World.LinkFits World.BufFits
  rw [conf_dir, ← World.calls_info w (w.lookups dirfd), conf_path_buf (fun _ => rfl) fun _ => rfl,
    World.calls_pathFits, World.calls_path, World.calls_info]
  refine or_congr_right (and_congr_right fun _ => or_congr_right (or_congr_right ?_))
  rw [conf_quiet (Exec.gets_run _ _), conf_touch (hostFill_run bufp size _), false_or]
  refine and_iff_left_of_imp fun h => ?_
  dsimp only
  split
  · exact (conf_pure _).mpr fun hno => absurd h hno
  · exact (conf_pure _).mpr fun hno => absurd h hno

/-- The path of a call that looks up its directory first. -/
def World.DirPathFits (w : World L M) (O : HostOs) (dirfd : CInt) (pathp : Word) : Prop :=
  w.dir O dirfd = none ∨ w.PathFits pathp

/-- A path followed by a program that touches nothing. -/
lemma conf_path_quiet {f : Word → Sys L M Word} {p : Word} (h : Confined w.info False ((f p).run w)) :
    Confined w.info False ((withPath p f).run w) ↔ w.PathFits p := by
  rw [conf_path]
  exact and_iff_left (.inr h)

/-- The same behind a directory. -/
lemma conf_dir_path {f : Word → Sys L M Word} {dirfd : CInt} {p : Word}
    (h : Confined w.info False ((f p).run (w.calls (w.lookups dirfd)))) :
    Confined w.info False ((withDir O dirfd fun _ => withPath p f).run w) ↔ w.DirPathFits O dirfd p := by
  rw [conf_dir, conf_calls_path]
  exact or_congr_right (and_iff_left (.inr h))

/-- A host call touches nothing of the guest. -/
lemma conf_int : Confined i False ((hostInt O).run w) := conf_hostInt.mpr not_false

/-- `sys_openat` needs its path when there is a directory. -/
lemma sysOpenat_confined (dirfd : CInt) (pathp : Word) :
    Confined w.info False ((sysOpenat O dirfd pathp).run w) ↔ w.DirPathFits O dirfd pathp := by
  unfold sysOpenat
  refine conf_dir_path ?_
  rw [conf_quiet (Exec.get_run _)]
  dsimp only
  rw [conf_quiet (Exec.modify_run _ _)]
  split
  · exact (conf_pure _).mpr False.elim
  · exact (conf_pure _).mpr False.elim

/-- `sys_mkdirat` needs the same. -/
lemma sysMkdirat_confined (dirfd : CInt) (pathp : Word) :
    Confined w.info False ((sysMkdirat O dirfd pathp).run w) ↔ w.DirPathFits O dirfd pathp :=
  conf_dir_path conf_int

/-- `sys_unlinkat` looks at its flags before its path. -/
lemma sysUnlinkat_confined (dirfd flags : CInt) (pathp : Word) :
    Confined w.info False ((sysUnlinkat O dirfd pathp flags).run w) ↔
      (flags ≠ 0 ∧ flags ≠ TUX_AT_REMOVEDIR) ∨ w.DirPathFits O dirfd pathp := by
  unfold sysUnlinkat
  split
  next h =>
    refine iff_of_true (conf_dir.mpr (.inr ?_)) (.inl h)
    exact (conf_negErr (by decide) (by decide)).mpr trivial
  next h =>
    rw [or_iff_right h]
    exact conf_dir_path conf_int

/-- `sys_faccessat2` does so too. -/
lemma sysFaccessat2_confined (dirfd flags : CInt) (pathp : Word) :
    Confined w.info False ((sysFaccessat2 O dirfd pathp flags).run w) ↔
      flags ≠ 0 ∨ w.DirPathFits O dirfd pathp := by
  unfold sysFaccessat2
  split
  next h =>
    refine iff_of_true (conf_dir.mpr (.inr ?_)) (.inl h)
    exact (conf_negErr (by decide) (by decide)).mpr trivial
  next h =>
    rw [or_iff_right h]
    exact conf_dir_path conf_int

/-- `sys_chown` needs its path. -/
lemma sysChown_confined (pathp : Word) :
    Confined w.info False ((sysChown O pathp).run w) ↔ w.PathFits pathp := conf_path_quiet conf_int

/-- `sys_chmod` needs its path. -/
lemma sysChmod_confined (pathp : Word) :
    Confined w.info False ((sysChmod O pathp).run w) ↔ w.PathFits pathp := conf_path_quiet conf_int

/-- `sys_truncate` needs its path, with a working directory or without. -/
lemma sysTruncate_confined (pathp : Word) :
    Confined w.info False ((sysTruncate O pathp).run w) ↔ w.PathFits pathp := by
  apply conf_path_quiet
  rw [conf_quiet (Exec.get_run w)]
  split
  · rw [conf_quiet (hostInt_run w)]
    split
    · exact (conf_pure _).mpr False.elim
    · exact conf_int
  · exact conf_int

/-- `sys_chdir` needs its path. -/
lemma sysChdir_confined (pathp : Word) :
    Confined w.info False ((sysChdir O pathp).run w) ↔ w.PathFits pathp := by
  apply conf_path_quiet
  rw [conf_quiet (Exec.get_run w)]
  dsimp only
  rw [conf_quiet (Exec.modify_run _ w)]
  exact (conf_pure _).mpr False.elim

/-- The paths of `sys_renameat`. -/
def World.RenameFits (w : World L M) (O : HostOs) (olddir : CInt) (oldpathp : Word) (newdir : CInt)
    (newpathp : Word) : Prop :=
  w.dir O olddir = none ∨ (w.calls (w.lookups olddir)).dir O newdir = none ∨
    w.PathFits oldpathp ∧ w.PathFits newpathp

/-- Two paths that are both read before either of them is refused. -/
lemma conf_two_paths {g : Option Word → Option Word → Sys L M Word} {p p' : Word}
    (hold : ∀ o, g none o = pure (negErr TUX_EFAULT))
    (hnew : ∀ p, g (some p) none = pure (negErr TUX_EFAULT))
    (hboth : ∀ p p', g (some p) (some p') = hostInt O) :
    Confined w.info False ((procpath p >>= fun o => procpath p' >>= fun o' => g o o').run w) ↔
      w.PathFits p ∧ w.PathFits p' := by
  rw [conf_procpath, conf_procpath]
  refine and_congr_right fun _ => and_iff_left ?_
  cases w.path p with
  | none =>
    rw [hold]
    exact (conf_negErr (by decide) (by decide)).mpr trivial
  | some a =>
    cases w.path p' with
    | none =>
      rw [hnew]
      exact (conf_negErr (by decide) (by decide)).mpr trivial
    | some b =>
      rw [hboth]
      exact conf_int

/-- Two directories that are both looked up before either of them is refused. -/
lemma conf_two_dirs {g : Option (Option HostFile) → Option (Option HostFile) → Sys L M Word}
    {x : Sys L M Word} {d d' : CInt} (hold : ∀ o, g none o = pure (negErr TUX_EBADF))
    (hnew : ∀ p, g (some p) none = pure (negErr TUX_EBADF)) (hboth : ∀ p p', g (some p) (some p') = x) :
    Confined i False ((getfdir O d >>= fun o => getfdir O d' >>= fun o' => g o o').run w) ↔
      w.dir O d = none ∨ (w.calls (w.lookups d)).dir O d' = none ∨
        Confined i False (x.run ((w.calls (w.lookups d)).calls ((w.calls (w.lookups d)).lookups d'))) := by
  rw [conf_quiet (getfdir_run d w), conf_quiet (getfdir_run d' _)]
  generalize (w.calls (w.lookups d)).calls _ = w'
  generalize (w.calls (w.lookups d)).dir O d' = o'
  cases w.dir O d with
  | none =>
    rw [hold]
    exact iff_of_true ((conf_negErr (by decide) (by decide)).mpr trivial) (.inl rfl)
  | some a =>
    cases o' with
    | none =>
      rw [hnew]
      exact iff_of_true ((conf_negErr (by decide) (by decide)).mpr trivial) (.inr (.inl rfl))
    | some b =>
      rw [hboth]
      simp

/-- `sys_renameat` needs both its paths when there are both directories. -/
lemma sysRenameat_confined (olddir newdir : CInt) (oldpathp newpathp : Word) :
    Confined w.info False ((sysRenameat O olddir oldpathp newdir newpathp).run w) ↔
      w.RenameFits O olddir oldpathp newdir newpathp := by
  unfold sysRenameat World.RenameFits
  rw [conf_two_dirs (fun _ => rfl) (fun _ => rfl) fun _ _ => rfl]
  refine or_congr_right (or_congr_right ?_)
  generalize (w.calls (w.lookups olddir)).lookups newdir = k'
  generalize w.lookups olddir = k
  exact conf_two_paths (w := (w.calls k).calls k') (fun _ => rfl) (fun _ => rfl) fun _ _ => rfl

/-- `sys_getrandom` refuses its flags after its buffer was looked up, and needs it otherwise. -/
lemma sysGetrandom_confined (p len : Word) (flags : CInt) :
    Confined w.info False ((sysGetrandom O p len flags).run w) ↔
      flags &&& ~~~3 ≠ 0 ∨ w.BufFits p len.toNat := by
  unfold sysGetrandom World.BufFits
  rw [conf_buf rfl (by decide) (by decide)]
  dsimp only
  split
  next h =>
    exact iff_of_true (.inr ((conf_negErr (by decide) (by decide)).mpr trivial)) (.inl h)
  next h =>
    rw [conf_hostFill, or_iff_right h]
    tauto

/-- `sys_prctl` needs the 16 bytes of a name. -/
lemma sysPrctl_confined (op : CInt) (arg2 : Word) :
    Confined w.info False ((sysPrctl O op arg2).run w) ↔ op ≠ TUX_PR_SET_NAME ∨ w.BufFits arg2 16 := by
  unfold sysPrctl World.BufFits
  split
  next h =>
    rw [conf_buf rfl (by decide) (by decide), conf_touch (touch_run arg2 16 w), conf_hostInt,
      or_iff_right (not_not.mpr h)]
    change _ ∨ Inside w.info ⟨arg2, 16⟩ ∧ ¬ (False ∨ ¬ Inside w.info ⟨arg2, 16⟩) ↔ _
    tauto
  next h => exact iff_of_true ((conf_negErr (by decide) (by decide)).mpr trivial) (.inl h)

/-- A structure that is filled when the host call succeeds, and whose call reports the error when it
fails. -/
lemma conf_fill {p v : Word} {n : Nat} :
    Confined i (False ∨ ¬ Inside i ⟨p, n⟩) ((fillStruct O p n >>= fun _ => pure v : Sys L M Word).run w) ↔
      Inside i ⟨p, n⟩ := by
  have hrun : (fillStruct O p n).run w = ⟨.ok (), w.fill O p (BitVec.ofNat 64 n), [.touch ⟨p, n⟩]⟩ := by
    rw [fillStruct, Exec.bind_run, touch_run, Exec.andThen_ok, Exec.modify_run, List.append_nil]
  rw [conf_touch hrun, conf_pure, false_or]
  exact and_iff_left_of_imp fun h hno => absurd h hno

/-- `sys_sysinfo` needs its structure. -/
lemma sysSysinfo_confined (p : Word) :
    Confined w.info False ((sysSysinfo O p).run w) ↔ w.AlignFits p sysinfoSize 8 := by
  unfold sysSysinfo World.AlignFits
  rw [conf_bufalign rfl (by decide) (by decide)]
  refine or_congr_right ?_
  rw [conf_quiet (Exec.gets_run _ w), conf_quiet (hostCall_run w)]
  cases hr : O.ret w.ncall with
  | none =>
    have hv := intAnswer_msb (O := O) w.ncall
    rw [intAnswer, hr] at hv
    refine (conf_nonneg (Exec.pure_run _ _) hv).trans ?_
    rw [false_or, not_not]
    rfl
  | some r => exact conf_fill

/-- `sys_clock_gettime` needs its structure for a clock that it knows, when the host has the time. -/
lemma sysClockGettime_confined (clockid : CInt) (p : Word) :
    Confined w.info False ((sysClockGettime O clockid p).run w) ↔
      (clockid ≠ 0 ∧ clockid ≠ 1) ∨ O.ret w.ncall = none ∨ w.AlignFits p 16 8 := by
  unfold sysClockGettime World.AlignFits
  split
  next h => exact iff_of_true ((conf_negErr (by decide) (by decide)).mpr trivial) (.inl h)
  next h =>
    rw [or_iff_right h, conf_bufalign rfl (by decide) (by decide), conf_quiet (Exec.gets_run _ w),
      conf_quiet (hostCall_run w)]
    cases hr : O.ret w.ncall with
    | none =>
      refine iff_of_true (.inr ?_) (.inl rfl)
      exact (conf_negErr (O.errno_pos _) (O.errno_lt _)).mpr trivial
    | some r =>
      rw [or_iff_right (Option.some_ne_none r)]
      exact or_congr_right conf_fill

/-- `sys_ioctl` needs the size of a window. -/
lemma sysIoctl_confined (fd : CInt) (request p : Word) :
    Confined w.info False ((sysIoctl O fd request p).run w) ↔
      (fd ≠ 0 ∧ fd ≠ 1 ∧ fd ≠ 2) ∨ request ≠ TUX_TIOCGWINSZ ∨ O.ret w.ncall = none ∨
        w.AlignFits p 8 2 := by
  unfold sysIoctl World.AlignFits
  split
  next h => exact iff_of_true ((conf_negErr (by decide) (by decide)).mpr trivial) (.inl h)
  next h =>
    rw [or_iff_right h]
    split
    next h => exact iff_of_true ((conf_negErr (by decide) (by decide)).mpr trivial) (.inl h)
    next h =>
      rw [or_iff_right h, conf_bufalign rfl (by decide) (by decide), conf_quiet (Exec.gets_run _ w),
        conf_quiet (hostCall_run w)]
      cases hr : O.ret w.ncall with
      | none =>
        refine iff_of_true (.inr ?_) (.inl rfl)
        exact (conf_negErr (O.errno_pos _) (O.errno_lt _)).mpr trivial
      | some r =>
        rw [or_iff_right (Option.some_ne_none r)]
        exact or_congr_right conf_fill

/-- A part of a range. -/
lemma Inside.part {p : Word} {k m n : Nat} (h : Inside i ⟨p, n⟩) (hle : k + m ≤ n) :
    Inside i ⟨p + BitVec.ofNat 64 k, m⟩ := by
  rcases h with h | ⟨hmin, hmax⟩
  · exact .inl (by dsimp only at h ⊢; omega)
  · dsimp only at hmin hmax
    have htop := i.maxaddr.isLt
    have hmin' : i.minaddr.toNat ≤ p.toNat := hmin
    have hnat : (p + BitVec.ofNat 64 k).toNat = p.toNat + k := by
      rw [BitVec.toNat_add, BitVec.toNat_ofNat, Nat.mod_eq_of_lt (a := k) (by omega)]
      exact Nat.mod_eq_of_lt (by omega)
    refine .inr ⟨?_, ?_⟩
    · change i.minaddr.toNat ≤ (p + BitVec.ofNat 64 k).toNat
      omega
    · change (p + BitVec.ofNat 64 k).toNat + m ≤ i.maxaddr.toNat
      omega

/-- `strcpy` touches the string and the zero behind it. -/
lemma strcpyTo_run (ptr : Word) (str : List Byte) (w : World L M) :
    ∃ w', (strcpyTo ptr str).run w = ⟨.ok (), w', [.touch ⟨ptr, str.length + 1⟩]⟩ := by
  rw [strcpyTo, Exec.bind_run, touch_run, Exec.andThen_ok, Exec.modify_run, List.append_nil]
  exact ⟨_, rfl⟩

/-- The rule of `strcpy`. -/
lemma conf_strcpy {ptr : Word} {str : List Byte} {x : Sys L M Word} {P : Prop}
    (h : ∀ w : World L M, Confined i q (x.run w) ↔ P) :
    Confined i q ((strcpyTo ptr str >>= fun _ => x).run w) ↔ Inside i ⟨ptr, str.length + 1⟩ ∧ P := by
  obtain ⟨w', hrun⟩ := strcpyTo_run ptr str w
  rw [conf_touch hrun, h w']

/-- `sys_uname` needs its structure, of which it fills four fields. -/
lemma sysUname_confined (p : Word) :
    Confined w.info False ((sysUname p).run w) ↔ w.AlignFits p (5 * UTSNAME_LENGTH) 1 := by
  unfold sysUname World.AlignFits
  rw [conf_bufalign rfl (by decide) (by decide)]
  refine or_congr_right ?_
  change Confined _ (False ∨ ¬ Inside w.info ⟨p, 5 * UTSNAME_LENGTH⟩) _ ↔ _
  rw [conf_strcpy fun _ => conf_strcpy fun _ => conf_strcpy fun _ => conf_strcpy fun w =>
    conf_nonneg (Exec.pure_run 0 w) BitVec.msb_zero, false_or, not_not]
  refine ⟨fun h => h.2.2.2.2, fun h => ⟨h.mono ?_, h.part ?_, h.part ?_, h.part ?_, h⟩⟩ <;> decide

/-- `host_getpath` stays in its buffer, and says nothing about it. -/
lemma getpathTouches_inside {k : Nat} (dir : Option HostFile) (buf : Word) {size : Word}
    (hsize : size ≠ 0) : (∀ p, .ask p ∉ getpathTouches O k dir buf size) ∧
      ∀ i, Inside i ⟨buf, size.toNat⟩ → ∀ p, .touch p ∈ getpathTouches O k dir buf size → Inside i p := by
  have hpos : (size - 1).toNat + 1 = size.toNat := by bv_omega
  have hbuf : ∀ i, Inside i ⟨buf, size.toNat⟩ → Inside i ⟨buf, (size - 1).toNat⟩ :=
    fun i h => h.mono (by omega)
  unfold getpathTouches
  cases dir with
  | none =>
    refine ⟨by simp, fun i h p hp => ?_⟩
    simp only [List.mem_singleton, Ev.touch.injEq] at hp
    exact hp ▸ h
  | some d =>
    cases O.ret k with
    | none =>
      refine ⟨by simp, fun i h p hp => ?_⟩
      simp only [List.mem_singleton, Ev.touch.injEq] at hp
      exact hp ▸ hbuf i h
    | some r =>
      refine ⟨by simp, fun i h p hp => ?_⟩
      simp only [List.mem_cons, Ev.touch.injEq, List.not_mem_nil, or_false] at hp
      rcases hp with rfl | rfl
      · exact hbuf i h
      · exact h.part (by omega)

/-- The size that is handed to the host. -/
lemma clip_spec {size : Word} (h : size ≠ 0) :
    (if size.toNat < TUX_PATH_MAX then size else BitVec.ofNat 64 TUX_PATH_MAX) ≠ 0 ∧
      (if size.toNat < TUX_PATH_MAX then size else BitVec.ofNat 64 TUX_PATH_MAX).toNat ≤ size.toNat := by
  split
  · exact ⟨h, le_rfl⟩
  next hbig => exact ⟨by decide, not_lt.mp hbig⟩

/-- The rest of `sys_getcwd`: its answer is the pointer, which is no error. -/
lemma conf_getcwd {p size clip : Word} (hclip : clip ≠ 0) (hle : clip.toNat ≤ size.toNat)
    (hmax : p < w.info.maxaddr) :
    Confined w.info (False ∨ ¬ Inside w.info ⟨p, size.toNat⟩) ((do
      let w ← Exec.get
      let r ← hostGetpath O w.fds.cwd.file p clip
      if r.msb then pure 0
      else
        touch (p + clip - 1) 1
        Exec.modify fun w => w.setMem (splice w.mem (p + clip - 1) 1 fun _ => 0)
        pure p : Sys L M Word).run w) ↔ Inside w.info ⟨p, size.toNat⟩ := by
  obtain ⟨hask, htouch⟩ :=
    getpathTouches_inside (O := O) (k := w.ncall) w.fds.cwd.file p hclip
  have hlast : p + clip - 1 = p + BitVec.ofNat 64 (clip.toNat - 1) := by bv_omega
  have hpos : 0 < clip.toNat := by bv_omega
  have hptr : ¬ IsErr p := by
    have htop := w.info.maxaddr_toNat
    have hbase := w.info.base_top
    have : p.toNat < w.info.maxaddr.toNat := hmax
    unfold IsErr
    omega
  rw [conf_quiet (Exec.get_run w), conf_step (hostGetpath_run w.fds.cwd.file p clip w), intAnswer_msb,
    if_neg Bool.false_ne_true, conf_touch (touch_run _ 1 _), conf_quiet (Exec.modify_run _ _), conf_pure]
  constructor
  · rintro ⟨-, -, herr⟩
    by_contra hout
    exact hptr (herr (.inl (.inr hout)))
  · intro hin
    refine ⟨htouch _ (hin.mono hle), ?_, ?_⟩
    · rw [hlast]
      exact hin.part (by omega)
    · rintro ((hf | hout) | ⟨r, hr, -⟩)
      · exact hf.elim
      · exact absurd hin hout
      · exact absurd hr (hask r)

/-- `sys_getcwd` needs the buffer that it was given, though it clips it to the sandbox. -/
lemma sysGetcwd_confined (p size : Word) :
    Confined w.info False ((sysGetcwd O p size).run w) ↔ size = 0 ∨ w.BufFits p size.toNat := by
  unfold sysGetcwd World.BufFits
  split
  next h => exact iff_of_true ((conf_pure 0).mpr False.elim) (.inl h)
  next h =>
    rw [or_iff_right h, conf_buf rfl (by decide) (by decide)]
    cases hp : lfiAsFmptr w.info p with
    | none => exact iff_of_true (.inl rfl) (.inl rfl)
    | some b =>
      obtain ⟨-, -, hmax⟩ := fmptr_some hp
      rw [or_iff_right (Option.some_ne_none b), or_iff_right (Option.some_ne_none b)]
      exact conf_getcwd (clip_spec h).1 (clip_spec h).2 hmax

/-! ## Threads -/

/-- A range that is inside can be asked for. -/
lemma conf_of_inside {p : Range} {r : Res Stop Ev (World L M) Word} (h : Inside i p) :
    Confined i (q ∨ ¬ Inside i p) r ↔ Confined i q r := by
  rw [or_iff_left (not_not.mpr h)]

/-- The end of the usable part is aligned, so an aligned word that starts inside is inside. -/
lemma aligned_inside {p b : Word} (h : alignedTo 4 (lfiAsFmptr i p) = some b) : Inside i ⟨p, 4⟩ := by
  obtain ⟨hptr, hmod⟩ := alignedTo_some h
  obtain ⟨rfl, hmin, hmax⟩ := fmptr_some hptr
  have htop := i.maxaddr_toNat
  have hlt : b.toNat < i.maxaddr.toNat := hmax
  obtain ⟨k, hk⟩ := i.base_aligned
  refine .inr ⟨hmin, ?_⟩
  dsimp only
  omega

/-- A futex call on the host touches its word. -/
lemma hostFutex_confined {uaddr : Word} {c : FutexCall} (h : Inside i ⟨uaddr, 4⟩) :
    Confined i False ((hostFutex O uaddr c).run w) := by
  unfold hostFutex
  rw [conf_touch (touch_run uaddr 4 w), conf_quiet (Exec.modify_run _ w), conf_quiet (hostCall_run _)]
  refine ⟨h, ?_⟩
  split
  · exact (conf_pure _).mpr False.elim
  · exact (conf_pure _).mpr False.elim

/-- The timeout of a wait. -/
def World.FutexFits (w : World L M) (uaddrp : Word) (op : CInt) (timeoutp : Word) : Prop :=
  uaddrp &&& 3 ≠ 0 ∨ alignedTo 4 (lfiAsFmptr w.info uaddrp) = none ∨
    op &&& ~~~TUX_FUTEX_PRIVATE_FLAG ≠ TUX_FUTEX_WAIT ∨ timeoutp = 0 ∨ w.AlignFits timeoutp 16 8

/-- A wait needs its timeout, when it has one. -/
lemma futexwait_confined {uaddr timeoutp : Word} {op val : CInt} (h : Inside w.info ⟨uaddr, 4⟩) :
    Confined w.info False ((futexwait O uaddr op val timeoutp).run w) ↔
      timeoutp = 0 ∨ w.AlignFits timeoutp 16 8 := by
  unfold futexwait World.AlignFits
  split
  next ht =>
    rw [or_iff_right ht, conf_bufalign rfl (by decide) (by decide)]
    refine or_congr_right ?_
    rw [conf_touch (touch_run timeoutp 16 w)]
    refine and_iff_left_of_imp fun hin => ?_
    exact (conf_of_inside hin).mpr (hostFutex_confined h)
  next ht => exact iff_of_true (hostFutex_confined h) (.inl (not_not.mp ht))

/-- `sys_futex` needs the timeout of a wait: its word is inside whenever it is accepted. -/
lemma sysFutex_confined (uaddrp timeoutp : Word) (op val : CInt) :
    Confined w.info False ((sysFutex O uaddrp op val timeoutp).run w) ↔
      w.FutexFits uaddrp op timeoutp := by
  unfold sysFutex World.FutexFits
  split
  next h => exact iff_of_true ((conf_negErr (by decide) (by decide)).mpr trivial) (.inl h)
  next h =>
    rw [or_iff_right h, conf_bufalign rfl (by decide) (by decide)]
    cases hp : alignedTo 4 (lfiAsFmptr w.info uaddrp) with
    | none => exact iff_of_true (.inl rfl) (.inl rfl)
    | some b =>
      have hin := aligned_inside hp
      rw [or_iff_right (Option.some_ne_none b), or_iff_right (Option.some_ne_none b)]
      refine (conf_of_inside hin).trans ?_
      dsimp only
      split
      next hop =>
        rw [or_iff_right (not_not.mpr hop)]
        exact futexwait_confined hin
      next hop =>
        refine iff_of_true ?_ (.inl hop)
        split
        · exact hostFutex_confined hin
        · split
          · exact hostFutex_confined hin
          · exact (conf_negErr (by decide) (by decide)).mpr trivial

/-- The words that `sys_clone` stores. -/
def World.CloneFits (w : World L M) (O : HostOs) (flags ptid ctid : Word) : Prop :=
  ∀ f, isfork flags = false → spawnFlags flags = some f → (O.ret w.ncall).isSome →
    (hasFlag f TUX_CLONE_CHILD_SETTID → Inside w.info ⟨ctid, 4⟩) ∧
    ((O.ret (w.ncall + 1)).isSome → hasFlag f TUX_CLONE_PARENT_SETTID → Inside w.info ⟨ptid, 4⟩)

/-- A run that does not return only has to touch what is inside. -/
lemma conf_error {e : Stop} {l : List Ev} :
    Confined i q (⟨.error e, w, l⟩ : Res Stop Ev (World L M) Word) ↔ ∀ p, .touch p ∈ l → Inside i p := by
  simp [Confined]

/-- A store at the end needs its range. -/
lemma conf_stored {v : Word} {p : Range} :
    Confined i False (⟨.ok v, w, [.ask p, .touch p]⟩ : Res Stop Ev (World L M) Word) ↔ Inside i p := by
  simp only [Confined, List.mem_cons, List.not_mem_nil, or_false, reduceCtorEq, false_or, Ev.touch.injEq,
    Ev.ask.injEq, forall_eq, exists_eq_left, Except.ok.injEq, forall_eq']
  exact and_iff_left_of_imp fun h hno => absurd h hno

/-- What a store touches. -/
lemma touches_stored {p : Range} : (∀ r, Ev.touch r ∈ [.ask p, .touch p] → Inside i r) ↔ Inside i p := by
  simp

/-- What a store is asked for. -/
lemma asks_stored {p : Range} : (∀ r, Ev.ask r ∈ [.ask p, .touch p] → Inside i r) ↔ Inside i p := by
  simp

/-- The rule of a store on the way. -/
lemma conf_store {x : Sys L M α} {f : α → Sys L M Word} {a : α} {p : Range}
    (hx : x.run w = ⟨.ok a, w₁, [.ask p, .touch p]⟩) :
    Confined i q ((x >>= f).run w) ↔ Inside i p ∧ Confined i q ((f a).run w₁) := by
  rw [conf_step hx]
  have hask : (∃ r, Ev.ask r ∈ [.ask p, .touch p] ∧ ¬ Inside i r) ↔ ¬ Inside i p := by
    rw [← asks_stored, not_forall]
    simp only [Classical.not_imp]
  rw [touches_stored, hask]
  exact and_congr_right fun h => conf_of_inside h

/-- The part of `spawn` after the new thread was prepared. -/
lemma spawnStart_confined {f ptid : Word} {p2 : Spawned M} :
    Confined i False ((spawnStart O p2 >>= fun _ => spawnPublish f ptid p2).run w) ↔
      ((O.ret w.ncall).isSome → hasFlag f TUX_CLONE_PARENT_SETTID → Inside i ⟨ptid, 4⟩) := by
  rw [Exec.bind_run, spawnStart_run]
  split
  next hret =>
    rw [Exec.andThen_ok_nil, spawnPublish_run]
    split
    next hset =>
      rw [conf_stored]
      exact ⟨fun h _ _ => h, fun h => h hret hset⟩
    next hset =>
      rw [← Exec.pure_run, conf_pure]
      exact iff_of_true False.elim fun _ h => absurd h hset
  next hret =>
    rw [Exec.andThen_error, conf_error]
    exact iff_of_true (fun _ h => nomatch h) fun h => absurd h hret

/-- `spawn` needs the word of the child, and that of the parent when the thread starts. -/
lemma spawn_confined {f stack ptid ctid tls : Word} :
    Confined w.info False ((do
      match ← spawnPrepare O f stack ctid tls with
      | none => pure (negErr TUX_EAGAIN)
      | some p2 =>
        spawnStart O p2
        spawnPublish f ptid p2 : Sys L M Word).run w) ↔
      ((O.ret w.ncall).isSome → (hasFlag f TUX_CLONE_CHILD_SETTID → Inside w.info ⟨ctid, 4⟩) ∧
        ((O.ret (w.ncall + 1)).isSome → hasFlag f TUX_CLONE_PARENT_SETTID → Inside w.info ⟨ptid, 4⟩)) := by
  have hprep := spawnPrepare_run (O := O) f stack ctid tls w
  split at hprep
  next hret =>
    split at hprep
    next hset =>
      rw [conf_store hprep]
      dsimp only
      rw [spawnStart_confined]
      exact ⟨fun h _ => ⟨fun _ => h.1, h.2⟩, fun h => ⟨(h hret).1 hset, (h hret).2⟩⟩
    next hset =>
      rw [conf_quiet hprep]
      dsimp only
      rw [spawnStart_confined]
      exact ⟨fun h _ => ⟨fun hs => absurd hs hset, h⟩, fun h => (h hret).2⟩
  next hret =>
    rw [conf_quiet hprep]
    refine iff_of_true ?_ fun h => absurd h hret
    exact (conf_negErr (by decide) (by decide)).mpr trivial

/-- `sys_clone` needs what `spawn` does, for flags that it accepts and that are no fork. -/
lemma sysClone_confined (flags stack ptid ctid tls : Word) :
    Confined w.info False ((sysClone O flags stack ptid ctid tls).run w) ↔ w.CloneFits O flags ptid ctid := by
  unfold sysClone World.CloneFits
  rw [Exec.check_bind_run]
  split
  next hfork =>
    unfold spawn
    cases hflags : spawnFlags flags with
    | none =>
      refine iff_of_true ?_ nofun
      exact (conf_negErr (by decide) (by decide)).mpr trivial
    | some f =>
      refine spawn_confined.trans ⟨fun h f' _ hf => ?_, fun h => h f hfork rfl⟩
      cases hf
      exact h
  next hfork =>
    rw [conf_error]
    exact iff_of_true (fun _ h => nomatch h) fun _ h => absurd h hfork

/-- The size of the affinity mask. -/
def affinitySize (O : HostOs) (k : Nat) : CInt :=
  (ceilp ((BitVec.ofNat 32 ((O.ret k).getD 0) : CInt).setWidth 64) 64 / 8).setWidth 32

/-- The mask of `sys_sched_getaffinity`. -/
def World.AffinityFits (w : World L M) (O : HostOs) (cpusetsize maskaddr : Word) : Prop :=
  cpusetsize < (affinitySize O w.ncall).setWidth 64 ∨ O.ret (w.ncall + 1) = none ∨
    Inside w.info ⟨maskaddr, (affinitySize O w.ncall).toNat⟩

/-- `sys_sched_getaffinity` needs as much of the mask as there are processors. -/
lemma sysSchedGetaffinity_confined (cpusetsize maskaddr : Word) :
    Confined w.info False ((sysSchedGetaffinity O cpusetsize maskaddr).run w) ↔
      w.AffinityFits O cpusetsize maskaddr := by
  unfold sysSchedGetaffinity World.AffinityFits affinitySize
  rw [conf_quiet (hostCall_run w)]
  dsimp only
  generalize (ceilp ((BitVec.ofNat 32 ((O.ret w.ncall).getD 0) : CInt).setWidth 64) 64 / 8).setWidth 32 = rc
  split
  next h => exact iff_of_true ((conf_negErr (by decide) (by decide)).mpr trivial) (.inl h)
  next h =>
    rw [or_iff_right h, conf_quiet (hostCall_run _)]
    have hcall : w.called.ncall = w.ncall + 1 := rfl
    rw [hcall]
    cases O.ret (w.ncall + 1) with
    | none => exact iff_of_true ((conf_negErr (by decide) (by decide)).mpr trivial) (.inl rfl)
    | some r =>
      rw [or_iff_right (Option.some_ne_none r), conf_ask (ask_run _ _ _), conf_touch (touch_run _ _ _),
        conf_quiet (Exec.modify_run _ _), conf_pure, false_or]
      exact ⟨fun h => h.1, fun h => ⟨h, fun hno => absurd h hno⟩⟩

/-- A thread that leaves the sandbox gets no answer. -/
lemma conf_leave {r : Res Stop Ev (World L M) Unit} {opts : TuxOptions} {code : Word} :
    Confined i q (Exec.andThen r fun _ => leaveWith opts code) ↔ ∀ p, .touch p ∈ r.out → Inside i p := by
  obtain ⟨val, w', l⟩ := r
  cases val with
  | error e => rw [Exec.andThen_error, conf_error]
  | ok _ =>
    rw [Exec.andThen_ok, leaveWith, Exec.stop_run, conf_error]
    simp

/-- `clearctid` stores a zero where the thread asked for it. -/
lemma clearctidStore_run :
    clearctidStore.run w =
      if w.p.ctid ≠ 0 then ⟨.ok (), w.put32 w.p.ctid 0, [.touch ⟨w.p.ctid, 4⟩]⟩ else ⟨.ok (), w, []⟩ := by
  rw [clearctidStore, Exec.bind_run, Exec.gets_run, Exec.andThen_ok_nil, Exec.ite_run, store32_run,
    Exec.pure_run]
  rfl

/-- The wake of `clearctid` is a futex call without a timeout. -/
lemma clearctidWake_touch {p : Range} (h : .touch p ∈ ((clearctidWake O).run w).out) : Inside w.info p := by
  have hconf := (sysFutex_confined (O := O) (w := w) w.p.ctid 0 TUX_FUTEX_WAKE INT_MAX).mpr
    (.inr (.inr (.inl (by decide))))
  rw [clearctidWake, Exec.bind_run, Exec.gets_run, Exec.andThen_ok_nil, Exec.bind_run] at h
  refine hconf.1 p ?_
  generalize (sysFutex O w.p.ctid TUX_FUTEX_WAKE INT_MAX 0).run w = r at h
  obtain ⟨val, w', l⟩ := r
  cases val with
  | error e => exact h
  | ok v =>
    rw [Exec.andThen_ok, Exec.pure_run, List.append_nil] at h
    exact h

/-- `sys_exit` needs the word that `clearctid` stores, and nothing for the wake. -/
lemma sysExit_confined (opts : TuxOptions) (code : Word) :
    Confined w.info False ((sysExit O opts code).run w) ↔
      w.p.ctid = 0 ∨ Inside w.info ⟨w.p.ctid, 4⟩ := by
  rw [sysExit, Exec.bind_run, conf_leave, clearctid, Exec.bind_run, clearctidStore_run]
  split
  next h =>
    rw [or_iff_right h, Exec.andThen_ok]
    refine ⟨fun hall => hall _ (List.mem_append_left _ List.mem_cons_self), fun hin p hp => ?_⟩
    rcases List.mem_append.mp hp with hp | hp
    · cases List.mem_singleton.mp hp
      exact hin
    · exact clearctidWake_touch (w := w.put32 w.p.ctid 0) hp
  next h =>
    rw [Exec.andThen_ok_nil]
    exact iff_of_true (fun p hp => clearctidWake_touch hp) (.inl (not_not.mp h))

/-! ## Vectors -/

/-- What one transfer of a vector does: nothing for an empty buffer or a bad descriptor, a refusal, or
the transfer of its buffer. -/
inductive Transfer (w : World L M) (p size : Word) (fits : Prop) : Res Stop Ev (World L M) Word → Prop
  | nothing {v : Word} (hfits : fits) (hv : v = 0 ∨ IsErr v) : Transfer w p size fits ⟨.ok v, w, []⟩
  | fault {v : Word} (hfits : fits) (hv : IsErr v) :
    Transfer w p size fits ⟨.ok v, w, [.ask ⟨p, size.toNat⟩]⟩
  | done {v : Word} {w' : World L M} (hfits : fits ↔ Inside w.info ⟨p, size.toNat⟩) (hv : v.msb = false)
    (hinfo : w'.info = w.info) :
    Transfer w p size fits ⟨.ok v, w', [.ask ⟨p, size.toNat⟩, .touch ⟨p, size.toNat⟩]⟩

/-- `sys_read` and `sys_write` are transfers, whatever they do with the buffer in the end. -/
lemma transfer_of {fd : CInt} {op : FileOp} {p size : Word} {f : Option Word → Sys L M Word}
    (hnone : f none = pure (negErr TUX_EFAULT))
    (hsome : ∃ v w', (f (some p)).run w = ⟨.ok v, w', [.touch ⟨p, size.toNat⟩]⟩ ∧ v.msb = false ∧
      w'.info = w.info) :
    Transfer w p size (w.TransferFits fd op p size)
      ((if size = 0 then pure 0
        else withHandler fd op TUX_EPERM (procbuf p size >>= f) : Sys L M Word).run w) := by
  unfold World.TransferFits World.BufFits
  rw [Exec.ite_run]
  split
  next h =>
    rw [Exec.pure_run]
    exact .nothing (.inl h) (.inl rfl)
  next h =>
    rw [withHandler_run]
    split
    next hop =>
      have hop' : ¬ w.handles fd op = false := by
        rw [hop]
        exact Bool.true_eq_false.mp
      rw [Exec.bind_run, procbuf_run, Exec.andThen_ok]
      cases hp : lfiAsFmptr w.info p with
      | none =>
        rw [hnone, Exec.pure_run]
        exact .fault (.inr (.inr (.inl rfl))) (isErr_negErr (by decide) (by decide))
      | some b =>
        obtain ⟨rfl, -, -⟩ := fmptr_some hp
        obtain ⟨v, w', hrun, hv, hinfo⟩ := hsome
        rw [hrun]
        refine .done ?_ hv hinfo
        rw [or_iff_right h, or_iff_right hop', or_iff_right (Option.some_ne_none b)]
    next hop =>
      refine .nothing (.inr (.inl (Bool.eq_false_iff.mpr hop))) (.inr ?_)
      split
      · exact isErr_negErr (by decide) (by decide)
      · exact isErr_negErr (by decide) (by decide)

/-- `sys_write` is a transfer. -/
lemma sysWrite_transfer (fd : CInt) (p size : Word) (w : World L M) :
    Transfer w p size (w.TransferFits fd .write p size) ((sysWrite O fd p size).run w) := by
  unfold sysWrite
  refine transfer_of rfl ⟨sizeAnswer O w.ncall, w.called, ?_, sizeAnswer_msb _, rfl⟩
  rw [Exec.bind_run, touch_run, Exec.andThen_ok, hostSize_run]
  rfl

/-- A buffer that is filled leaves the bounds of the address space. -/
lemma World.filled_info (w : World L M) (p len : Word) : (w.filled O p len).info = w.info := by
  unfold World.filled
  cases O.ret w.ncall with
  | none => rfl
  | some r => rfl

/-- `sys_read` is a transfer. -/
lemma sysRead_transfer (fd : CInt) (p size : Word) (w : World L M) :
    Transfer w p size (w.TransferFits fd .read p size) ((sysRead O fd p size).run w) := by
  unfold sysRead
  refine transfer_of rfl ⟨sizeAnswer O w.ncall, (w.filled O p size).called, ?_, sizeAnswer_msb _, ?_⟩
  · exact hostFill_run p size w
  · exact w.filled_info p size

/-- The entries of a vector, in the order in which they are taken: each entry is inside and its buffer
fits, in the memory that the transfers before it left, until an entry is refused. -/
def iovFits (io : Word → Word → Sys L M Word) (fits : World L M → Word → Word → Prop) (iov : Word) :
    Nat → Nat → World L M → Prop
  | 0, _, _ => True
  | n + 1, i, w =>
    let entry := iov + BitVec.ofNat 64 (16 * i)
    let p := le w.mem entry 8 64
    let size := le w.mem (entry + 8) 8 64
    Inside w.info ⟨entry, 16⟩ ∧ fits w p size ∧
      ∀ v w' l, (io p size).run w = ⟨.ok v, w', l⟩ → v.msb = false → iovFits io fits iov n (i + 1) w'

/-- An error has its top bit. -/
lemma isErr_msb {v : Word} (h : IsErr v) : v.msb = true := by
  by_contra hv
  exact not_isErr (Bool.eq_false_iff.mpr hv) h

section
variable {io : Word → Word → Sys L M Word} {fits : World L M → Word → Word → Prop} {iov : Word}

/-- One iteration of the loop. -/
lemma iovLoop_succ {n k : Nat} {total v : Word} {w' : World L M} {l : List Ev}
    (hr : (io (le w.mem (iov + BitVec.ofNat 64 (16 * k)) 8 64)
      (le w.mem (iov + BitVec.ofNat 64 (16 * k) + 8) 8 64)).run w = ⟨.ok v, w', l⟩) :
    (iovLoop io iov (n + 1) k total).run w =
      if v.msb then ⟨.ok v, w', .touch ⟨iov + BitVec.ofNat 64 (16 * k), 16⟩ :: l⟩
      else ⟨((iovLoop io iov n (k + 1) (total + v)).run w').val,
        ((iovLoop io iov n (k + 1) (total + v)).run w').st,
        .touch ⟨iov + BitVec.ofNat 64 (16 * k), 16⟩ ::
          (l ++ ((iovLoop io iov n (k + 1) (total + v)).run w').out)⟩ := by
  rw [iovLoop, Exec.bind_run, touch_run, Exec.andThen_ok, Exec.bind_run, Exec.get_run,
    Exec.andThen_ok_nil, Exec.bind_run, hr, Exec.andThen_ok, Exec.ite_run, Exec.pure_run]
  split
  · rw [List.append_nil]
    rfl
  · rfl

/-- What the first of the entries that are left needs. -/
lemma iovFits_succ {n k : Nat} {v : Word} {w' : World L M} {l : List Ev}
    (hr : (io (le w.mem (iov + BitVec.ofNat 64 (16 * k)) 8 64)
      (le w.mem (iov + BitVec.ofNat 64 (16 * k) + 8) 8 64)).run w = ⟨.ok v, w', l⟩) :
    iovFits io fits iov (n + 1) k w ↔
      Inside w.info ⟨iov + BitVec.ofNat 64 (16 * k), 16⟩ ∧
        fits w (le w.mem (iov + BitVec.ofNat 64 (16 * k)) 8 64)
          (le w.mem (iov + BitVec.ofNat 64 (16 * k) + 8) 8 64) ∧
        (v.msb = false → iovFits io fits iov n (k + 1) w') := by
  rw [iovFits, hr]
  refine and_congr_right fun _ => and_congr_right fun _ => ⟨fun h => h v w' l rfl, ?_⟩
  intro h v₂ w₂ l₂ heq
  injection heq with hv hw
  cases Except.ok.inj hv
  cases hw
  exact h

/-- What the loop over the entries from `k` on is shown to do: it touches only what is inside exactly
when `fit` holds, and then its answer is an error or all that it was asked for is inside. -/
def LoopConfined (i : LFIAddrSpaceInfo) (iov : Word) (n k : Nat) (fit : Prop)
    (r : Res Stop Ev (World L M) Word) : Prop :=
  ((∀ p, .touch p ∈ r.out → Inside i p) ↔ fit) ∧
    (fit → ∀ v, r.val = .ok v → IsErr v ∨
      (∀ p, .ask p ∈ r.out → Inside i p) ∧
      ∀ j < n, Inside i ⟨iov + BitVec.ofNat 64 (16 * (k + j)), 16⟩)

/-- The loop ends with the refusal of an entry. -/
lemma loop_stop {n k : Nat} {fit : Prop} {v : Word} {l : List Ev} (hv : IsErr v)
    (hl : ∀ p, .touch p ∉ l) (hfit : fit ↔ Inside i ⟨iov + BitVec.ofNat 64 (16 * k), 16⟩) :
    LoopConfined i iov n k fit
      (⟨.ok v, w, .touch ⟨iov + BitVec.ofNat 64 (16 * k), 16⟩ :: l⟩ : Res Stop Ev (World L M) Word) := by
  constructor
  · simp [hfit, hl]
  · intro _ v' hv'
    cases Except.ok.inj hv'
    exact .inl hv

/-- The loop goes on after an entry. -/
lemma loop_continue {n k : Nat} {fit rest f : Prop} {r : Res Stop Ev (World L M) Word} {l : List Ev}
    (hl : (∀ p, .touch p ∈ l → Inside i p) ↔ f) (hask : f → ∀ p, .ask p ∈ l → Inside i p)
    (hr : LoopConfined i iov n (k + 1) rest r)
    (hfit : fit ↔ Inside i ⟨iov + BitVec.ofNat 64 (16 * k), 16⟩ ∧ f ∧ rest) :
    LoopConfined i iov (n + 1) k fit
      ⟨r.val, r.st, .touch ⟨iov + BitVec.ofNat 64 (16 * k), 16⟩ :: (l ++ r.out)⟩ := by
  obtain ⟨htouch, hval⟩ := hr
  constructor
  · rw [hfit, ← hl, ← htouch]
    simp only [List.mem_cons, List.mem_append, Ev.touch.injEq]
    constructor
    · exact fun h => ⟨h _ (.inl rfl), fun p hp => h p (.inr (.inl hp)), fun p hp => h p (.inr (.inr hp))⟩
    · rintro ⟨h₁, h₂, h₃⟩ p (rfl | hp | hp)
      · exact h₁
      · exact h₂ p hp
      · exact h₃ p hp
  · intro hf v hv
    obtain ⟨hentry, hfits, hrest⟩ := hfit.mp hf
    rcases hval hrest v hv with herr | ⟨hasks, hentries⟩
    · exact .inl herr
    · refine .inr ⟨fun p hp => ?_, fun j hj => ?_⟩
      · simp only [List.mem_cons, List.mem_append, reduceCtorEq, false_or] at hp
        exact hp.elim (hask hfits p) (hasks p)
      · cases j with
        | zero => exact hentry
        | succ j =>
          have := hentries j (by omega)
          rwa [show k + 1 + j = k + (j + 1) by omega] at this

/-- The loop touches only what is inside when the entries fit and only then, and when they fit, a
refused entry ends it with an error. -/
lemma iovLoop_confined (hio : ∀ w p size, Transfer w p size (fits w p size) ((io p size).run w))
    (iov : Word) : ∀ (n k : Nat) (total : Word) (w : World L M),
      LoopConfined w.info iov n k (iovFits io fits iov n k w) ((iovLoop io iov n k total).run w) := by
  intro n
  induction n with
  | zero =>
    intro k total w
    rw [iovLoop, Exec.pure_run]
    simp [iovFits, LoopConfined]
  | succ n ih =>
    intro k total w
    have ht := hio w (le w.mem (iov + BitVec.ofNat 64 (16 * k)) 8 64)
      (le w.mem (iov + BitVec.ofNat 64 (16 * k) + 8) 8 64)
    generalize hr : (io (le w.mem (iov + BitVec.ofNat 64 (16 * k)) 8 64)
      (le w.mem (iov + BitVec.ofNat 64 (16 * k) + 8) 8 64)).run w = r at ht
    cases ht with
    | @nothing v hfits hv =>
      rw [iovLoop_succ hr, iovFits_succ hr]
      rcases hv with rfl | hv
      · rw [if_neg (by decide)]
        refine loop_continue (f := True) (by simp) (by simp) (ih (k + 1) _ w) ?_
        exact and_congr_right fun _ => ⟨fun h => ⟨trivial, h.2 BitVec.msb_zero⟩, fun h => ⟨hfits, fun _ => h.2⟩⟩
      · rw [if_pos (isErr_msb hv)]
        exact loop_stop hv (by simp) ⟨And.left, fun h => ⟨h, hfits, fun hm => absurd hv (not_isErr hm)⟩⟩
    | @fault v hfits hv =>
      rw [iovLoop_succ hr, iovFits_succ hr, if_pos (isErr_msb hv)]
      exact loop_stop hv (by simp) ⟨And.left, fun h => ⟨h, hfits, fun hm => absurd hv (not_isErr hm)⟩⟩
    | @done v w' hfits hv hinfo =>
      rw [iovLoop_succ hr, iovFits_succ hr, hv, if_neg Bool.false_ne_true]
      have hrest := ih (k + 1) (total + v) w'
      rw [hinfo] at hrest
      refine loop_continue touches_stored asks_stored.mpr hrest ?_
      exact and_congr_right fun _ => ⟨fun h => ⟨hfits.mp h.1, h.2 rfl⟩, fun h => ⟨hfits.mpr h.1, fun _ => h.2⟩⟩

/-- Entries that are all inside are one range that is inside. -/
lemma entries_inside {n : Nat} (hn : 0 < n)
    (h : ∀ j < n, Inside i ⟨iov + BitVec.ofNat 64 (16 * (0 + j)), 16⟩) : Inside i ⟨iov, n * 16⟩ := by
  have hfirst := h 0 hn
  have hall : ∀ j < n, iov.toNat + 16 * j + 16 ≤ i.maxaddr.toNat := by
    intro j
    induction j with
    | zero =>
      intro _
      rcases hfirst with h | ⟨-, h⟩
      · cases h
      · simpa using h
    | succ j ih =>
      intro hj
      have hprev := ih (by omega)
      have htop := i.maxaddr.isLt
      rcases h (j + 1) hj with h | ⟨-, h⟩
      · cases h
      · have hnat : (iov + BitVec.ofNat 64 (16 * (0 + (j + 1)))).toNat = (iov.toNat + 16 * (j + 1)) % 2 ^ 64 := by
          rw [BitVec.toNat_add, BitVec.toNat_ofNat, Nat.add_mod_mod, Nat.zero_add]
        dsimp only at h
        omega
  rcases hfirst with h | ⟨hmin, -⟩
  · cases h
  · have hzero : iov + BitVec.ofNat 64 (16 * (0 + 0)) = iov := BitVec.add_zero iov
    rw [hzero] at hmin
    have := hall (n - 1) (by omega)
    refine .inr ⟨hmin, ?_⟩
    dsimp only
    omega

/-- The array of a vector and its entries. -/
def World.IovFits (w : World L M) (io : Word → Word → Sys L M Word)
    (fits : World L M → Word → Word → Prop) (iovp iovcnt : Word) : Prop :=
  alignedTo 8 (lfiAsFmptr w.info iovp) = none ∨ iovFits io fits iovp iovcnt.toNat 0 w

/-- A vector call needs its entries, and the buffers of all it comes to: the array is inside if its entries are. -/
lemma sysIov_confined (hio : ∀ w p size, Transfer w p size (fits w p size) ((io p size).run w))
    (iovp iovcnt : Word) :
    Confined w.info False ((sysIov io iovp iovcnt).run w) ↔ w.IovFits io fits iovp iovcnt := by
  unfold sysIov World.IovFits
  rw [conf_ask (ask_run _ _ w), conf_bufalign rfl (by decide) (by decide)]
  refine or_congr_right ?_
  obtain ⟨htouch, hval⟩ := iovLoop_confined hio iovp iovcnt.toNat 0 0 w
  refine ⟨fun h => htouch.mp h.1, fun h => ⟨htouch.mpr h, fun hout v hv => ?_⟩⟩
  rcases hval h v hv with herr | ⟨hasks, hentries⟩
  · exact herr
  · have hin : Inside w.info ⟨iovp, iovcnt.toNat * 16⟩ := by
      rcases Nat.eq_zero_or_pos iovcnt.toNat with hz | hpos
      · exact .inl (by rw [hz])
      · exact entries_inside hpos hentries
    have hwrap : (iovcnt * 16).toNat ≤ iovcnt.toNat * 16 := by
      rw [BitVec.toNat_mul]
      exact Nat.mod_le _ _
    rcases hout with ((hf | hout) | hout) | ⟨r, hr, hout⟩
    · exact hf.elim
    · exact absurd hin hout
    · exact absurd (hin.mono hwrap) hout
    · exact absurd (hasks r hr) hout

end

/-! ## Calls that touch nothing -/

/-- An event that is about no memory of the guest. -/
def Ev.Other : Ev → Prop
  | ask _ | touch _ => False
  | _ => True

/-- A call without such events needs nothing. -/
lemma conf_other {x : Sys L M Word} (h : Exec.Emits Ev.Other x) : Confined i False (x.run w) := by
  refine ⟨fun p hp => (h w _ hp).elim, ?_⟩
  rintro (hf | ⟨p, hp, -⟩)
  · exact hf.elim
  · exact (h w _ hp).elim

section
variable {H : HostVm}

/-- An `mmap` of the host is about no memory of the guest. -/
lemma hostMmap_other (addr len : Word) (prot : CInt) (hf : Option HostFile) :
    Exec.Emits Ev.Other (hostMmap H addr len prot hf : Vm L Bool) := by
  apply Exec.emits_of_out
  intro as
  rw [hostMmap, Exec.mk_run]
  split <;> rfl

/-- Nor is what `asmap` makes of it, -/
lemma asmap_other (addr len : Word) (prot : CInt) (hf : Option HostFile) :
    Exec.Emits Ev.Other (asmap H addr len prot hf : Vm L Int) := by
  unfold asmap
  refine Exec.Emits.bind (Exec.emits_gets _) fun n => ?_
  refine Exec.Emits.bind (hostMmap_other addr len prot hf) fun ok => ?_
  exact (Exec.emits_pure _).ite (Exec.emits_pure _)

/-- nor the callbacks of libmmap. -/
lemma cbunmaps_other (ps : List (Word × Word)) : Exec.Emits Ev.Other (cbunmaps H ps : Vm L Unit) := by
  induction ps with
  | nil => exact Exec.emits_pure ()
  | cons p ps ih =>
    obtain ⟨start, len⟩ := p
    refine Exec.Emits.bind ?_ fun _ => ih
    exact (hostMmap_other start len _ none).bind fun ok => Exec.emits_check _ _

/-- The end of `lfi_as_mapany` and `lfi_as_mapat`. -/
lemma mapEnd_other (addr size : Word) (prot : CInt) (hf : Option HostFile) :
    Exec.Emits Ev.Other (do
      let r ← asmap H addr size prot hf
      if r < 0 then
        mmUnmap addr size
        pure mapFailed
      else pure addr : Vm L Word) := by
  refine Exec.Emits.bind (asmap_other addr size prot hf) fun r => ?_
  exact Exec.Emits.ite ((Exec.emits_modify _).bind fun _ => Exec.emits_pure _) (Exec.emits_pure _)

/-- `lfi_as_mapany` touches nothing. -/
lemma lfiAsMapany_other (size : Word) (prot : CInt) (hf : Option HostFile) :
    Exec.Emits Ev.Other (lfiAsMapany H size prot hf : Vm L Word) := by
  unfold lfiAsMapany
  refine Exec.Emits.bind (Exec.emits_get) fun as => ?_
  cases L.mapany as.mm size with
  | none => exact Exec.emits_pure _
  | some m => exact (Exec.emits_modify _).bind fun _ => mapEnd_other _ _ _ _

/-- `lfi_as_mapat` touches nothing. -/
lemma lfiAsMapat_other (addr size : Word) (prot : CInt) (hf : Option HostFile) :
    Exec.Emits Ev.Other (lfiAsMapat H addr size prot hf : Vm L Word) := by
  unfold lfiAsMapat
  refine Exec.Emits.bind (Exec.emits_get) fun as => ?_
  refine Exec.Emits.bind (Exec.emits_tell trivial) fun _ => ?_
  refine Exec.Emits.bind (Exec.emits_check _ _) fun _ => ?_
  cases L.mapat as.mm addr size with
  | none => exact Exec.emits_pure _
  | some m =>
    refine Exec.Emits.bind (Exec.emits_modify _) fun _ => ?_
    exact (cbunmaps_other m.2).bind fun _ => mapEnd_other _ _ _ _

/-- `lfi_as_mprotect` touches nothing. -/
lemma lfiAsMprotect_other (addr size : Word) (prot : CInt) :
    Exec.Emits Ev.Other (lfiAsMprotect H addr size prot : Vm L Int) := by
  unfold lfiAsMprotect
  refine Exec.Emits.bind (Exec.emits_get) fun as => ?_
  refine Exec.Emits.bind (Exec.emits_check _ _) fun _ => ?_
  apply Exec.emits_of_out
  intro as
  rw [hostMprotect, Exec.mk_run]

/-- `lfi_as_munmap` touches nothing. -/
lemma lfiAsMunmap_other (addr size : Word) : Exec.Emits Ev.Other (lfiAsMunmap H addr size : Vm L Int) := by
  unfold lfiAsMunmap
  refine Exec.Emits.bind (Exec.emits_get) fun as => ?_
  refine Exec.Emits.ite ?_ (Exec.emits_pure _)
  refine Exec.Emits.bind (Exec.emits_tell trivial) fun _ => ?_
  cases L.unmap as.mm addr size with
  | none => exact Exec.emits_pure _
  | some m =>
    refine Exec.Emits.bind (Exec.emits_modify _) fun _ => ?_
    exact (cbunmaps_other m.2).bind fun _ => Exec.emits_pure _

/-- A call on the address space has the events that it has there. -/
lemma onSpace_other {x : Vm L α} (h : Exec.Emits Ev.Other x) :
    Exec.Emits Ev.Other (onSpace x : Sys L M α) := h.zoom _ _

/-- `sys_mprotect` touches nothing. -/
lemma sysMprotect_other (addr len : Word) (prot : CInt) :
    Exec.Emits Ev.Other (sysMprotect H addr len prot : Sys L M Word) :=
  (onSpace_other (lfiAsMprotect_other _ _ _)).bind fun _ => Exec.emits_pure _

/-- `sys_munmap` touches nothing. -/
lemma sysMunmap_other (addr len : Word) : Exec.Emits Ev.Other (sysMunmap H addr len : Sys L M Word) :=
  (onSpace_other (lfiAsMunmap_other _ _)).bind fun _ => Exec.emits_pure _

/-- A mapping at the end of a call. -/
lemma mapped_other {x : Vm L Word} {e : Word} {f : Word → Word} (h : Exec.Emits Ev.Other x) :
    Exec.Emits Ev.Other (do
      let addr ← onSpace x
      if addr = mapFailed then pure e else pure (f addr) : Sys L M Word) := by
  refine Exec.Emits.bind (onSpace_other h) fun addr => ?_
  exact (Exec.emits_pure _).ite (Exec.emits_pure _)

/-- The file of a mapping is looked up without a word of the guest. -/
lemma mapfile_other (fd : CInt) :
    Exec.Emits Ev.Other (mapfile fd : Sys L M (Except Word (Option HostFile))) := by
  unfold mapfile
  refine Exec.Emits.bind (Exec.emits_get) fun w => ?_
  refine Exec.Emits.ite (Exec.emits_pure _) ?_
  cases w.fdfile fd with
  | none => exact Exec.emits_pure _
  | some f => exact (Exec.emits_pure _).ite (Exec.emits_pure _)

/-- `sys_mmap` touches nothing. -/
lemma sysMmap_other (opts : TuxOptions) (addr len : Word) (prot flags fd : CInt) :
    Exec.Emits Ev.Other (sysMmap H opts addr len prot flags fd : Sys L M Word) := by
  unfold sysMmap
  refine Exec.Emits.ite (Exec.emits_pure _) ?_
  refine Exec.Emits.ite (Exec.emits_pure _) ?_
  apply Exec.Emits.ite
  · apply (mapfile_other fd).bind
    intro hf
    cases hf with
    | error e => exact Exec.emits_pure _
    | ok hf => exact mapped_other (lfiAsMapat_other _ _ _ _)
  · apply (mapfile_other fd).bind
    intro hf
    cases hf with
    | error e => exact Exec.emits_pure _
    | ok hf => exact mapped_other (lfiAsMapany_other _ _ _)

/-- `sys_brk` touches nothing. -/
lemma sysBrk_other (opts : TuxOptions) (addr : Word) :
    Exec.Emits Ev.Other (sysBrk H opts addr : Sys L M Word) := by
  unfold sysBrk brkMap
  have hset : ∀ n, Exec.Emits Ev.Other (setbrk n : Sys L M Word) := fun n =>
    (Exec.emits_modify _).bind fun _ => Exec.emits_gets _
  refine Exec.Emits.bind (Exec.emits_gets _) fun p => ?_
  refine Exec.Emits.bind (Exec.emits_check _ _) fun _ => ?_
  refine Exec.Emits.ite (Exec.emits_pure _) ?_
  refine Exec.Emits.ite ?_ (hset _)
  refine Exec.Emits.bind (onSpace_other ?_) fun map => ?_
  · exact Exec.Emits.ite (lfiAsMapat_other _ _ _ _) (lfiAsMapat_other _ _ _ _)
  · exact (Exec.emits_pure _).ite (hset _)

/-- A handler touches what its body does. -/
lemma withHandler_other {fd : CInt} {op : FileOp} {e : Nat} {body : Sys L M Word}
    (h : Exec.Emits Ev.Other body) : Exec.Emits Ev.Other (withHandler fd op e body) := by
  unfold withHandler
  refine Exec.Emits.bind Exec.emits_get fun w => ?_
  cases w.fdfile fd with
  | none => exact Exec.emits_pure _
  | some f => exact Exec.Emits.ite h (Exec.emits_pure _)

/-- A host call touches nothing. -/
lemma hostInt_other : Exec.Emits Ev.Other (hostInt O : Sys L M Word) :=
  Exec.emits_of_out fun w => by rw [hostInt_run]

/-- A host call that answers a size touches nothing. -/
lemma hostSize_other : Exec.Emits Ev.Other (hostSize O : Sys L M Word) :=
  Exec.emits_of_out fun w => by rw [hostSize_run]

/-- `sys_lseek` touches nothing. -/
lemma sysLseek_other (fd whence : CInt) : Exec.Emits Ev.Other (sysLseek O fd whence : Sys L M Word) :=
  withHandler_other ((Exec.emits_check _ _).bind fun _ => hostSize_other)

/-- A call that hands its descriptor on touches nothing. -/
lemma sysHandler_other (op : FileOp) (fd : CInt) :
    Exec.Emits Ev.Other (sysHandler O op fd : Sys L M Word) := withHandler_other hostInt_other

/-- `sys_close` touches nothing. -/
lemma sysClose_other (fd : CInt) : Exec.Emits Ev.Other (sysClose fd : Sys L M Word) := by
  unfold sysClose
  refine Exec.Emits.bind Exec.emits_get fun w => ?_
  refine Exec.Emits.bind (Exec.emits_modify _) fun _ => ?_
  exact (Exec.emits_pure _).ite (Exec.emits_pure _)

/-- `sys_fchdir` touches nothing. -/
lemma sysFchdir_other (fd : CInt) : Exec.Emits Ev.Other (sysFchdir O fd : Sys L M Word) := by
  unfold sysFchdir
  refine withHandler_other (Exec.Emits.bind (Exec.emits_of_out fun w => ?_) fun dir => ?_)
  · rw [hostIsdir_run]
  · exact Exec.Emits.ite ((Exec.emits_modify _).bind fun _ => Exec.emits_pure _) (Exec.emits_pure _)

/-- `sys_sched_yield` touches nothing. -/
lemma sysSchedYield_other : Exec.Emits Ev.Other (sysSchedYield O : Sys L M Word) := by
  unfold sysSchedYield
  refine Exec.Emits.bind (Exec.emits_of_out fun w => ?_) fun r => ?_
  · rw [hostCall_run]
  · cases r with
    | none => exact Exec.emits_pure _
    | some r => exact Exec.emits_pure _

/-- `sys_time` touches nothing. -/
lemma sysTime_other (tlocp : Word) : Exec.Emits Ev.Other (sysTime O tlocp : Sys L M Word) :=
  (Exec.emits_pure _).ite hostSize_other

/-- `sys_set_tid_address` stores nothing yet. -/
lemma sysSetTidAddress_other (ctid : Word) : Exec.Emits Ev.Other (sysSetTidAddress ctid : Sys L M Word) :=
  (Exec.emits_modify _).bind fun _ => Exec.emits_get.bind fun _ => Exec.emits_pure _

/-- `sys_arch_prctl` touches nothing. -/
lemma sysArchPrctl_other (code : CInt) (addr : Word) :
    Exec.Emits Ev.Other (sysArchPrctl code addr : Sys L M Word) :=
  Exec.Emits.ite ((Exec.emits_modify _).bind fun _ => Exec.emits_pure _) (Exec.emits_pure _)

end

end

/-! ## All calls -/

section
variable {L : LibMMap} {H : HostVm} {O : HostOs} {opts : TuxOptions} {A : Arch}

/-- The arguments with which a call stays in the sandbox. A call that takes no pointer, or none that it
follows, always does. -/
def Sysno.Fits (O : HostOs) (n : Sysno) (a : Args) (w : World L A.machine) : Prop :=
  match n with
  | write => w.TransferFits (toInt a.a0) .write a.a1 a.a2
  | read => w.TransferFits (toInt a.a0) .read a.a1 a.a2
  | writev =>
    w.IovFits (sysWrite O (toInt a.a0)) (fun w => w.TransferFits (toInt a.a0) .write) a.a1 a.a2
  | readv => w.IovFits (sysRead O (toInt a.a0)) (fun w => w.TransferFits (toInt a.a0) .read) a.a1 a.a2
  | pread64 =>
    w.handles (toInt a.a0) .read = false ∨ w.handles (toInt a.a0) .lseek = false ∨
      w.BufFits a.a1 a.a2.toNat
  | getdents64 => w.handles (toInt a.a0) .getdents = false ∨ w.AlignFits a.a1 a.a2.toNat 8
  | newfstatat => w.StatFits O (toInt a.a0) a.a1 a.a2 (toInt a.a3)
  | fstat => w.StatFits O (toInt a.a0) 0 a.a1 TUX_AT_EMPTY_PATH
  | stat | lstat => w.StatFits O TUX_AT_FDCWD a.a0 a.a1 0
  | readlinkat => w.LinkFits O (toInt a.a0) a.a1 a.a2 a.a3
  | readlink => w.LinkFits O TUX_AT_FDCWD a.a0 a.a1 a.a2
  | openat | mkdirat | faccessat => w.DirPathFits O (toInt a.a0) a.a1
  | unlinkat =>
    (toInt a.a2 ≠ 0 ∧ toInt a.a2 ≠ TUX_AT_REMOVEDIR) ∨ w.DirPathFits O (toInt a.a0) a.a1
  | «open» | mkdir | access | unlink => w.DirPathFits O TUX_AT_FDCWD a.a0
  | renameat => w.RenameFits O (toInt a.a0) a.a1 (toInt a.a2) a.a3
  | rename => w.RenameFits O TUX_AT_FDCWD a.a0 TUX_AT_FDCWD a.a1
  | truncate | chown | chmod | chdir => w.PathFits a.a0
  | getrandom => toInt a.a2 &&& ~~~3 ≠ 0 ∨ w.BufFits a.a0 a.a1.toNat
  | getcwd => a.a1 = 0 ∨ w.BufFits a.a0 a.a1.toNat
  | clockGettime =>
    (toInt a.a0 ≠ 0 ∧ toInt a.a0 ≠ 1) ∨ O.ret w.ncall = none ∨ w.AlignFits a.a1 16 8
  | ioctl =>
    (toInt a.a0 ≠ 0 ∧ toInt a.a0 ≠ 1 ∧ toInt a.a0 ≠ 2) ∨ a.a1 ≠ TUX_TIOCGWINSZ ∨
      O.ret w.ncall = none ∨ w.AlignFits a.a2 8 2
  | uname => w.AlignFits a.a0 (5 * UTSNAME_LENGTH) 1
  | sysinfo => w.AlignFits a.a0 sysinfoSize 8
  | prctl => toInt a.a0 ≠ TUX_PR_SET_NAME ∨ w.BufFits a.a1 16
  | futex => w.FutexFits a.a0 (toInt a.a1) a.a3
  | clone => w.CloneFits O a.a0 a.a2 (match A with | .x64 => a.a3 | .arm64 => a.a4)
  | schedGetaffinity => w.AffinityFits O a.a1 a.a2
  | exit => w.p.ctid = 0 ∨ Inside w.info ⟨w.p.ctid, 4⟩
  | _ => True

/-- A `struct stat` holds the 120 bytes that are filled. -/
lemma statSize_le (A : Arch) : 120 ≤ A.machine.statSize ∧ A.machine.statSize < 2 ^ 64 := by
  cases A with
  | x64 => exact ⟨by decide, by decide⟩
  | arm64 => exact ⟨by decide, by decide⟩

/-- One system call. -/
lemma syscall_confined (n : Sysno) (a : Args) (w : World L A.machine) :
    Confined w.info False ((syscall H O opts A n a).run w) ↔ n.Fits O a w := by
  cases n with
  | write => exact sysWrite_confined _ _ _
  | read => exact sysRead_confined _ _ _
  | writev => exact sysIov_confined (fun w p size => sysWrite_transfer _ p size w) _ _
  | readv => exact sysIov_confined (fun w p size => sysRead_transfer _ p size w) _ _
  | pread64 => exact sysPread64_confined _ _ _
  | getdents64 => exact sysGetdents64_confined _ _ _
  | newfstatat => exact sysNewfstatat_confined (statSize_le A).1 (statSize_le A).2 _ _ _ _
  | fstat => exact sysNewfstatat_confined (statSize_le A).1 (statSize_le A).2 _ _ _ _
  | stat => exact sysNewfstatat_confined (statSize_le A).1 (statSize_le A).2 _ _ _ _
  | lstat => exact sysNewfstatat_confined (statSize_le A).1 (statSize_le A).2 _ _ _ _
  | readlinkat => exact sysReadlinkat_confined _ _ _ _
  | readlink => exact sysReadlinkat_confined _ _ _ _
  | openat => exact sysOpenat_confined _ _
  | «open» => exact sysOpenat_confined _ _
  | mkdirat => exact sysMkdirat_confined _ _
  | mkdir => exact sysMkdirat_confined _ _
  | faccessat => exact (sysFaccessat2_confined _ _ _).trans (or_iff_right (not_not.mpr rfl))
  | access => exact (sysFaccessat2_confined _ _ _).trans (or_iff_right (not_not.mpr rfl))
  | unlinkat => exact sysUnlinkat_confined _ _ _
  | unlink => exact (sysUnlinkat_confined _ _ _).trans (or_iff_right fun h => h.1 rfl)
  | renameat => exact sysRenameat_confined _ _ _ _
  | rename => exact sysRenameat_confined _ _ _ _
  | truncate => exact sysTruncate_confined _
  | chown => exact sysChown_confined _
  | chmod => exact sysChmod_confined _
  | chdir => exact sysChdir_confined _
  | getrandom => exact sysGetrandom_confined _ _ _
  | getcwd => exact sysGetcwd_confined _ _
  | clockGettime => exact sysClockGettime_confined _ _
  | ioctl => exact sysIoctl_confined _ _ _
  | uname => exact sysUname_confined _
  | sysinfo => exact sysSysinfo_confined _
  | prctl => exact sysPrctl_confined _ _
  | futex => exact sysFutex_confined _ _ _ _
  | clone =>
    cases A with
    | x64 => exact sysClone_confined _ _ _ _ _
    | arm64 => exact sysClone_confined _ _ _ _ _
  | schedGetaffinity => exact sysSchedGetaffinity_confined _ _
  | exit => exact sysExit_confined _ _
  | exitGroup => exact iff_of_true (conf_other (Exec.emits_stop _)) trivial
  | brk => exact iff_of_true (conf_other (sysBrk_other _ _)) trivial
  | mmap => exact iff_of_true (conf_other (sysMmap_other _ _ _ _ _ _)) trivial
  | mprotect => exact iff_of_true (conf_other (sysMprotect_other _ _ _)) trivial
  | munmap => exact iff_of_true (conf_other (sysMunmap_other _ _)) trivial
  | lseek => exact iff_of_true (conf_other (sysLseek_other _ _)) trivial
  | close => exact iff_of_true (conf_other (sysClose_other _)) trivial
  | ftruncate => exact iff_of_true (conf_other (sysHandler_other _ _)) trivial
  | fchown => exact iff_of_true (conf_other (sysHandler_other _ _)) trivial
  | fchmod => exact iff_of_true (conf_other (sysHandler_other _ _)) trivial
  | fsync => exact iff_of_true (conf_other (sysHandler_other _ _)) trivial
  | fchdir => exact iff_of_true (conf_other (sysFchdir_other _)) trivial
  | gettid => exact iff_of_true (conf_other (Exec.emits_gets _)) trivial
  | setTidAddress => exact iff_of_true (conf_other (sysSetTidAddress_other _)) trivial
  | schedYield => exact iff_of_true (conf_other sysSchedYield_other) trivial
  | rtSigreturn => exact iff_of_true (conf_other (Exec.emits_stop _)) trivial
  | archPrctl => exact iff_of_true (conf_other (sysArchPrctl_other _ _)) trivial
  | time => exact iff_of_true (conf_other (sysTime_other _)) trivial
  | _ => exact iff_of_true (conf_other (Exec.emits_pure _)) trivial

/-- A system call touches only memory inside the sandbox, and answers with an error when it was asked
for a range that is not inside, exactly when its arguments fit. -/
theorem syscalls_confined (num : Word) (a : Args) (w : World L A.machine) :
    ((∀ p, .touch p ∈ ((syshandle H O opts A num a).run w).out → Inside w.info p) ∧
      ((∃ p, .ask p ∈ ((syshandle H O opts A num a).run w).out ∧ ¬ Inside w.info p) →
        ∀ v, ((syshandle H O opts A num a).run w).val = .ok v → IsErr v)) ↔
      ∀ n, A.sysno num = some n → n.Fits O a w := by
  have hconf : Confined w.info False ((syshandle H O opts A num a).run w) ↔
      ∀ n, A.sysno num = some n → n.Fits O a w := by
    unfold syshandle
    cases A.sysno num with
    | none => exact iff_of_true (conf_other (Exec.emits_stop _)) nofun
    | some n =>
      refine (syscall_confined n a w).trans ⟨fun h m hm => ?_, fun h => h n rfl⟩
      cases hm
      exact h
  rw [← hconf, Confined, false_or]

end

/-- A new process. -/
def plainStart : World .ofRanges Arch.x64.machine :=
  .ofThread (procnewfile (M := .x64) (.fresh .plain) 1)

/-- A buffer that starts in the last byte of the sandbox is filled past its end, and the thread id of a
`clone` is stored at an address of the host. -/
theorem syscalls_overrun :
    (∃ p, .touch p ∈ ((syshandle .open .plain .plain .x64 318
        ⟨LFIAddrSpaceInfo.plain.maxaddr - 1, 16, 0, 0, 0, 0⟩).run plainStart).out ∧
      ¬ Inside plainStart.info p) ∧
    ∃ p, .touch p ∈ ((syshandle .open .plain .plain .x64 56
        ⟨0x1010f00, LFIAddrSpaceInfo.plain.minaddr, 0, 16, 0, 0⟩).run plainStart).out ∧
      ¬ Inside plainStart.info p := by
  refine ⟨⟨⟨LFIAddrSpaceInfo.plain.maxaddr - 1, 16⟩, ?_, by decide +kernel⟩,
    ⟨⟨16, 4⟩, ?_, by decide +kernel⟩⟩
  · decide +kernel
  · decide +kernel

end Libtux
