import Libtux.Sys.Getcwd
import Libtux.Sys.Open

/-!
# The path of `sys_truncate`

`sys_truncate` is the one call that builds an absolute path itself: `host_getpath` puts the path of the
current directory into one buffer, `cwk_path_join` joins it with the guest's path in another. `Cwalk` is
what is known of the latter. `World.truncated` is the path that `host_truncate` is given.

It should name the file that `sys_openat` would open. That is so exactly when the path is absolute, or the
directory was looked up and the joined path fits (`truncate_contract`): a failed lookup is not noticed, as
its error is not negative, and neither is a joined path that was cut. The hook of `filenew` has to be out
of the way too.
-/

namespace Libtux
open Lib

/-- cwalk: the joined path, of which `cwk_path_join` writes what fits in its buffer. -/
structure Cwalk where
  joined : List Byte → List Byte → List Byte
  absolute : ∀ {a}, a.head? = some slash → ∀ p, (joined a p).head? = some slash
  /-- The directory matters. -/
  varies : ∀ p, ∃ a b, a.head? = some slash ∧ b.head? = some slash ∧
    (joined a p).take (TUX_PATH_MAX - 1) ≠ (joined b p).take (TUX_PATH_MAX - 1)

section
variable {L : LibMMap} {M : Machine} (c : Cwalk) (O : HostOs) (w : World L M)

/-- The string in the buffer `cwd` of `sys_truncate`: the path of the directory, or what was there before
when the lookup failed. -/
def cwdBuffer (s junk : List Byte) : List Byte :=
  if (O.ret w.ncall).isSome then s.take (TUX_PATH_MAX - 1) else junk

/-- The path that `sys_truncate` hands to `host_truncate` for the string that `procpath` returned, `none` when
it returns before. -/
def World.truncates (s junk : List Byte) : Option Word → Option (List Byte)
  | none => none
  | some path =>
    if w.mem path ≠ slash then
      if (intAnswer O w.ncall).msb then none
      else some ((c.joined (cwdBuffer O w s junk) (w.pathBytes path)).take (TUX_PATH_MAX - 1))
    else some (w.pathBytes path)

/-- The path that `sys_truncate` hands to `host_truncate`. -/
def World.truncated (s junk : List Byte) (pathp : Word) : Option (List Byte) :=
  w.truncates c O s junk (w.path pathp)

/-- What `sys_truncate` should do, for a current directory with path `s`: in every file system where the
joined path names what the path names from the directory, and whatever the buffer holds, `host_truncate`
is given a path of the file that `sys_openat` opens, or a negative error is returned. -/
def TruncateContract (hook : Option (List Byte → CInt → CInt → Option Nat)) (s : List Byte)
    (pathp : Word) : Prop :=
  ∀ (fs : FileSystem Nat) (junk : List Byte), fs.hook = hook →
    (w.mem pathp ≠ slash → ∀ flags mode, fs.openat none (c.joined s (w.pathBytes pathp)) flags mode =
      fs.openat w.fds.cwd.file (w.pathBytes pathp) flags mode) →
    match w.truncated c O s junk pathp with
    | none => ∃ e, ((sysTruncate O pathp).run w).val = .ok e ∧ e.msb = true
    | some q => ∀ flags mode, fs.openat none q (flags &&& ~~~TUX_O_CLOEXEC) mode =
        fs.filenew w.fds.cwd.file (w.pathBytes pathp) flags mode

/-- The path is absolute, or the directory was looked up and the joined path fits. -/
def TruncateFits (s : List Byte) (pathp : Word) : Prop :=
  w.mem pathp = slash ∨
    ((O.ret w.ncall).isSome = true ∧ (c.joined s (w.pathBytes pathp)).length < TUX_PATH_MAX)

/-- `filenew` does not ask the hook, or the hook has no file for the path. -/
def HookSilent (hook : Option (List Byte → CInt → CInt → Option Nat)) (pathp : Word) : Prop :=
  w.fds.cwd.file = none → ∀ flags mode : CInt,
    hook.bind (fun h => h (w.pathBytes pathp) (flags &&& ~~~TUX_O_CLOEXEC) mode) = none

variable {c O w} {hook : Option (List Byte → CInt → CInt → Option Nat)} {s : List Byte} {pathp : Word}

/-- Without the hook `filenew` opens what the host opens. -/
lemma filenew_host {fs : FileSystem Nat} (hfs : fs.hook = hook) (hh : HookSilent w hook pathp)
    (flags mode : CInt) : fs.filenew w.fds.cwd.file (w.pathBytes pathp) flags mode =
      fs.openat w.fds.cwd.file (w.pathBytes pathp) (flags &&& ~~~TUX_O_CLOEXEC) mode := by
  rw [FileSystem.filenew]
  by_cases hdir : w.fds.cwd.file = none
  · have hnone := hh hdir flags mode
    rw [if_pos hdir, FileSystem.hooked, hfs, hnone]
  · rw [if_neg hdir]

/-- The path that is built, past `procpath`. -/
lemma truncated_some (hp : w.path pathp = some pathp) (junk : List Byte) :
    w.truncated c O s junk pathp = some (if w.mem pathp = slash then w.pathBytes pathp
      else (c.joined (cwdBuffer O w s junk) (w.pathBytes pathp)).take (TUX_PATH_MAX - 1)) := by
  rw [World.truncated, hp, World.truncates, intAnswer_msb, if_neg Bool.false_ne_true, ite_not]
  split
  · rfl
  · rfl

/-- The host has no file at all. -/
def FileSystem.nothing (hook : Option (List Byte → CInt → CInt → Option Nat)) : FileSystem Nat where
  hook
  openat _ _ _ _ := none
  absolute _ _ _ _ _ := rfl

/-- The host has one file, under two names. -/
def FileSystem.named (hook : Option (List Byte → CInt → CInt → Option Nat)) (a b : List Byte) :
    FileSystem Nat where
  hook
  openat _ p _ _ := if p = a ∨ p = b then some 0 else none
  absolute _ _ _ _ _ := rfl

/-- A file of the hook is never truncated. -/
lemma TruncateContract.silent (h : TruncateContract c O w hook s pathp)
    (hp : w.path pathp = some pathp) : HookSilent w hook pathp := by
  intro hdir flags mode
  have hno := h (.nothing hook) [] rfl fun _ _ _ => rfl
  rw [truncated_some hp] at hno
  have hnone := hno flags mode
  cases hk : hook.bind fun h => h (w.pathBytes pathp) (flags &&& ~~~TUX_O_CLOEXEC) mode with
  | none => rfl
  | some f =>
    have hhook : (FileSystem.nothing hook).hooked (w.pathBytes pathp) (flags &&& ~~~TUX_O_CLOEXEC) mode =
      some f := hk
    rw [FileSystem.filenew, if_pos hdir, hhook] at hnone
    cases hnone

/-- A relative path has another first byte than an absolute one. -/
lemma pathBytes_ne {q : List Byte} (hrel : w.mem pathp ≠ slash) (hq : q.head? = some slash) :
    q ≠ w.pathBytes pathp := by
  rintro rfl
  rw [World.pathBytes] at hq
  cases hn : strnlenAt w.mem pathp TUX_PATH_MAX with
  | zero =>
    rw [hn] at hq
    cases hq
  | succ n =>
    rw [hn, List.range_succ_eq_map, List.map_cons, List.head?_cons, BitVec.add_zero] at hq
    exact hrel (Option.some.inj hq)

/-- A lookup that fails and a path that is cut lead to another file. -/
lemma TruncateContract.fits (h : TruncateContract c O w hook s pathp) (hs : s.head? = some slash)
    (hshort : (O.ret w.ncall).isSome = true → s.length < TUX_PATH_MAX)
    (hp : w.path pathp = some pathp) : TruncateFits c O w s pathp := by
  by_contra hno
  rw [TruncateFits, not_or, not_and] at hno
  obtain ⟨hrel, hlook⟩ := hno
  have hsilent := h.silent hp
  -- Whatever the buffer holds, the path that is built has to be one of the two names of the file.
  have hname : ∀ junk, (c.joined (cwdBuffer O w s junk) (w.pathBytes pathp)).take (TUX_PATH_MAX - 1) =
      c.joined s (w.pathBytes pathp) ∨
      (c.joined (cwdBuffer O w s junk) (w.pathBytes pathp)).take (TUX_PATH_MAX - 1) =
        w.pathBytes pathp := by
    intro junk
    have hopen := h (.named hook (c.joined s (w.pathBytes pathp)) (w.pathBytes pathp)) junk rfl fun _ _ _ => by
      simp [FileSystem.named]
    rw [truncated_some hp, if_neg hrel] at hopen
    have h0 := hopen 0 0
    rw [filenew_host rfl hsilent] at h0
    by_contra hne
    simp only [FileSystem.named, if_neg hne, or_true, if_true] at h0
    cases h0
  -- The names differ from it in the first byte, and in what they are joined with.
  have hhead : ∀ a : List Byte, a.head? = some slash →
      ((c.joined a (w.pathBytes pathp)).take (TUX_PATH_MAX - 1)).head? = some slash := by
    intro a ha
    rw [List.head?_take, if_neg (by decide)]
    exact c.absolute ha _
  cases hret : (O.ret w.ncall).isSome with
  | true =>
    have hbuf : cwdBuffer O w s [] = s := by
      rw [cwdBuffer, if_pos hret]
      have := hshort hret
      exact List.take_of_length_le (by omega)
    have hlen := hlook hret
    rcases hname [] with hq | hq
    · rw [hbuf] at hq
      have hcut := congrArg List.length hq
      rw [List.length_take] at hcut
      have hmax : TUX_PATH_MAX = 4096 := rfl
      omega
    · rw [hbuf] at hq
      exact pathBytes_ne hrel (hhead s hs) hq
  | false =>
    have hbuf : ∀ junk, cwdBuffer O w s junk = junk := by
      intro junk
      rw [cwdBuffer, hret]
      rfl
    have hall : ∀ a : List Byte, a.head? = some slash →
        (c.joined a (w.pathBytes pathp)).take (TUX_PATH_MAX - 1) = c.joined s (w.pathBytes pathp) := by
      intro a ha
      have hq := hname a
      rw [hbuf] at hq
      exact hq.resolve_right (pathBytes_ne hrel (hhead a ha))
    obtain ⟨a, b, ha, hb, hab⟩ := c.varies (w.pathBytes pathp)
    exact hab ((hall a ha).trans (hall b hb).symm)

end

/-- Joined with one slash, as cwalk joins normal paths. -/
def Cwalk.plain : Cwalk where
  joined a p := a ++ slash :: p
  absolute {a} h p := by
    cases a with
    | nil => rfl
    | cons b a => exact h
  varies p := by
    refine ⟨[slash], [slash, 0x61], rfl, rfl, fun h => ?_⟩
    have hone := congrArg (fun l : List Byte => l[1]?) h
    simp only [List.getElem?_take_of_lt (show 1 < TUX_PATH_MAX - 1 by decide)] at hone
    cases hone

end Libtux
