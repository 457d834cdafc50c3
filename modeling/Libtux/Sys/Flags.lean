import Libtux.Sys.Open

/-!
# Open flags

`openflags` (`src/host/posix/file.c`) translates the flags of the guest into those of the host one by one.
`TUX_O_TRUNC` and `TUX_O_PATH` are not on its list, so the host is never asked for either. The constants of the
host are a parameter (`HostFlags`): flags of which no two have a bit in common.

`openflags_conveys_iff` says for which flags the host is asked for what the guest asked for, and that
`sys_chdir`, which asks for a path, never is.
-/

namespace Libtux
open Lib

def TUX_O_RDONLY : CInt := 0x0
def TUX_O_WRONLY : CInt := 0x1
def TUX_O_RDWR : CInt := 0x2
def TUX_O_CREAT : CInt := 0x40
def TUX_O_TRUNC : CInt := 0x200
def TUX_O_APPEND : CInt := 0x400
def TUX_O_NONBLOCK : CInt := 0x800
def TUX_O_DIRECTORY : CInt := 0x10000
def TUX_O_PATH : CInt := 0x200000

/-- What an open can be asked for. Reading is what is left when it is not asked for a way to write. -/
inductive OpenFlag where
  | wronly
  | rdwr
  | creat
  | trunc
  | append
  | nonblock
  | directory
  | path
  deriving DecidableEq

/-- The flag of the guest. -/
def OpenFlag.tux : OpenFlag → CInt
  | .wronly => TUX_O_WRONLY
  | .rdwr => TUX_O_RDWR
  | .creat => TUX_O_CREAT
  | .trunc => TUX_O_TRUNC
  | .append => TUX_O_APPEND
  | .nonblock => TUX_O_NONBLOCK
  | .directory => TUX_O_DIRECTORY
  | .path => TUX_O_PATH

/-- The constants of the host. -/
structure HostFlags where
  /-- `O_RDONLY`. -/
  rdonly : CInt
  flag : OpenFlag → CInt
  ne_zero : ∀ x, flag x ≠ 0
  apart : ∀ {x y}, x ≠ y → flag x &&& flag y = 0

/-- `flags` when the guest asked for `f`, and nothing otherwise. -/
def asked (flags f host : CInt) : CInt := if flags &&& f ≠ 0 then host else 0

/-- `openflags`. -/
def openflags (C : HostFlags) (flags : CInt) : CInt :=
  asked flags TUX_O_RDONLY C.rdonly ||| asked flags TUX_O_WRONLY (C.flag .wronly) |||
    asked flags TUX_O_RDWR (C.flag .rdwr) ||| asked flags TUX_O_CREAT (C.flag .creat) |||
    asked flags TUX_O_APPEND (C.flag .append) ||| asked flags TUX_O_NONBLOCK (C.flag .nonblock) |||
    asked flags TUX_O_DIRECTORY (C.flag .directory)

/-- The flags of the host's `openat` in `sys_openat`: `filenew` takes out `TUX_O_CLOEXEC`. -/
def openatFlags (C : HostFlags) (flags : CInt) : CInt := openflags C (flags &&& ~~~TUX_O_CLOEXEC)

/-- The flags of the host's `openat` in `sys_chdir`. -/
def chdirFlags (C : HostFlags) : CInt := openflags C (TUX_O_DIRECTORY ||| TUX_O_PATH)

/-- The host is asked for what the guest asked for. -/
def Conveys (C : HostFlags) (flags host : CInt) : Prop :=
  ∀ x : OpenFlag, host &&& C.flag x ≠ 0 ↔ flags &&& x.tux ≠ 0

/-- What can be opened on a host by its own flags. -/
def FileSystem.posix {F : Type} (C : HostFlags) (hook : Option (List Byte → CInt → CInt → Option F))
    (openat : Option HostFile → List Byte → CInt → CInt → Option F)
    (absolute : ∀ {path}, path.head? = some slash → ∀ dir dir' flags mode,
      openat dir path flags mode = openat dir' path flags mode) : FileSystem F where
  hook
  openat dir path flags mode := openat dir path (openflags C flags) mode
  absolute h dir dir' flags mode := absolute h dir dir' (openflags C flags) mode

/-- A `filenew` that does not get its file from the hook gets it from an open with `openatFlags`. -/
lemma posix_filenew {F : Type} {C : HostFlags} {hook : Option (List Byte → CInt → CInt → Option F)}
    {openat : Option HostFile → List Byte → CInt → CInt → Option F}
    (absolute : ∀ {path}, path.head? = some slash → ∀ dir dir' flags mode,
      openat dir path flags mode = openat dir' path flags mode) {dir : Option HostFile} {path : List Byte}
    {flags mode : CInt} (h : dir ≠ none ∨ hook = none) :
    (FileSystem.posix C hook openat absolute).filenew dir path flags mode =
      openat dir path (openatFlags C flags) mode := by
  rw [FileSystem.filenew]
  obtain h | rfl := h
  · rw [if_neg h]
    rfl
  · rw [FileSystem.hooked, FileSystem.posix, Option.bind_none, ite_self]
    rfl

section
variable {C : HostFlags} {flags : CInt}

/-- One flag of the host in what `openflags` asks for. -/
lemma asked_and {f : CInt} {x y : OpenFlag} :
    asked flags f (C.flag y) &&& C.flag x = if y = x then asked flags f (C.flag x) else 0 := by
  split
  next h =>
    rw [h, asked]
    split
    · exact BitVec.and_self
    · exact BitVec.zero_and
  next h =>
    rw [asked]
    split
    · exact C.apart h
    · exact BitVec.zero_and

/-- A flag is asked for when it is set. -/
lemma asked_ne_zero {f : CInt} {x : OpenFlag} : asked flags f (C.flag x) ≠ 0 ↔ flags &&& f ≠ 0 := by
  rw [asked]
  split
  next h => exact iff_of_true (C.ne_zero x) h
  next h => exact iff_of_false (not_not.mpr rfl) h

/-- `TUX_O_RDONLY` is no bit. -/
lemma asked_rdonly (host : CInt) : asked flags TUX_O_RDONLY host = 0 := by
  rw [asked, TUX_O_RDONLY, if_neg]
  exact not_not.mpr BitVec.and_zero

/-- The host is asked for a flag when the guest asked for it, but for two flags never. -/
lemma openflags_and (x : OpenFlag) :
    openflags C flags &&& C.flag x ≠ 0 ↔ flags &&& x.tux ≠ 0 ∧ x ≠ .trunc ∧ x ≠ .path := by
  rw [openflags, asked_rdonly]
  simp only [BitVec.and_or_distrib_right, asked_and]
  cases x with
  -- no line of `openflags` asks for these
  | trunc | path => simp
  | wronly | rdwr | creat | append | nonblock | directory =>
    simp [OpenFlag.tux]
    exact asked_ne_zero

/-- `openflags` conveys all but two flags. -/
lemma openflags_conveys : Conveys C flags (openflags C flags) ↔
    flags &&& TUX_O_TRUNC = 0 ∧ flags &&& TUX_O_PATH = 0 := by
  constructor
  · intro h
    refine ⟨?_, ?_⟩
    · by_contra hne
      exact (openflags_and .trunc).mp ((h .trunc).mpr hne) |>.2.1 rfl
    · by_contra hne
      exact (openflags_and .path).mp ((h .path).mpr hne) |>.2.2 rfl
  · rintro ⟨htrunc, hpath⟩ x
    rw [openflags_and]
    refine ⟨And.left, fun h => ⟨h, ?_, ?_⟩⟩
    · rintro rfl
      exact h htrunc
    · rintro rfl
      exact h hpath

/-- Without `TUX_O_CLOEXEC` the flags are those that were asked for. -/
lemma cloexec_and (x : OpenFlag) : (flags &&& ~~~TUX_O_CLOEXEC) &&& x.tux = flags &&& x.tux := by
  have hx : ~~~TUX_O_CLOEXEC &&& x.tux = x.tux := by
    cases x <;> decide
  rw [BitVec.and_assoc, hx]

/-- `O_CLOEXEC` is not one of the flags to convey. -/
lemma conveys_cloexec {host : CInt} : Conveys C (flags &&& ~~~TUX_O_CLOEXEC) host ↔ Conveys C flags host := by
  unfold Conveys
  simp only [cloexec_and]

end

/-- `sys_openat` asks the host for what the guest asked for exactly when that was neither truncation nor a path,
and `sys_chdir` never does. -/
theorem openflags_conveys_iff (C : HostFlags) (flags : CInt) :
    (Conveys C flags (openatFlags C flags) ↔ flags &&& TUX_O_TRUNC = 0 ∧ flags &&& TUX_O_PATH = 0) ∧
      ¬ Conveys C (TUX_O_DIRECTORY ||| TUX_O_PATH) (chdirFlags C) := by
  refine ⟨?_, fun h => absurd (openflags_conveys.mp h).2 (by decide)⟩
  have htrunc : flags &&& ~~~TUX_O_CLOEXEC &&& TUX_O_TRUNC = flags &&& TUX_O_TRUNC := cloexec_and .trunc
  have hpath : flags &&& ~~~TUX_O_CLOEXEC &&& TUX_O_PATH = flags &&& TUX_O_PATH := cloexec_and .path
  rw [openatFlags, ← conveys_cloexec, openflags_conveys, htrunc, hpath]

/-- The constants of Linux on x86-64. -/
def HostFlags.linux : HostFlags where
  rdonly := 0
  flag := OpenFlag.tux
  ne_zero x := by cases x <;> decide
  apart {x y} h := by revert h; cases x <;> cases y <;> decide

/-- To write to a file and truncate it, the host is only asked to write. -/
theorem openflags_drops_trunc :
    openatFlags .linux (TUX_O_WRONLY ||| TUX_O_CREAT ||| TUX_O_TRUNC) = TUX_O_WRONLY ||| TUX_O_CREAT ∧
      ¬ Conveys .linux (TUX_O_WRONLY ||| TUX_O_CREAT ||| TUX_O_TRUNC)
        (openatFlags .linux (TUX_O_WRONLY ||| TUX_O_CREAT ||| TUX_O_TRUNC)) ∧
      chdirFlags .linux = TUX_O_DIRECTORY := by
  refine ⟨by decide, fun h => ?_, by decide⟩
  exact absurd ((h .trunc).mpr (by decide)) (by decide)

end Libtux
