import Libtux.Lib.Layout
import Libtux.Sys.Runs

/-!
# Stat records

`copystat` (`src/host/posix/file.c`) assigns the fields of the host's record to the members of
`struct Stat` (`src/arch/*/arch_types.h`), whose bytes the guest reads by the layout of its kernel. On
arm64 the two layouts are one. On x64 `tux_nlink_t` has four bytes where the kernel has eight, so that
`st_mode`, `st_uid` and `st_gid` are four bytes too low: the guest reads the mode as the upper half of the
number of links, the owner as the mode, the group as the owner, and four bytes that nobody wrote as the
group (`stat_roundtrip`).
-/

namespace Libtux
open Lib

/-- The fields of a record. -/
inductive StatField where
  | dev | ino | nlink | mode | uid | gid | rdev | size | blksize | blocks
  | atimSec | atimNsec | mtimSec | mtimNsec | ctimSec | ctimNsec
  deriving DecidableEq

/-- The three times, the last fields of every layout. -/
def statTimes : List (Member StatField) :=
  [⟨some .atimSec, 8⟩, ⟨some .atimNsec, 8⟩, ⟨some .mtimSec, 8⟩, ⟨some .mtimNsec, 8⟩, ⟨some .ctimSec, 8⟩,
    ⟨some .ctimNsec, 8⟩]

/-- `struct Stat`. -/
def Arch.structStat : Arch → List (Member StatField)
  | .x64 =>
    [⟨some .dev, 8⟩, ⟨some .ino, 8⟩, ⟨some .nlink, 4⟩, ⟨some .mode, 4⟩, ⟨some .uid, 4⟩, ⟨some .gid, 4⟩,
      ⟨none, 4⟩, ⟨some .rdev, 8⟩, ⟨some .size, 8⟩, ⟨some .blksize, 8⟩, ⟨some .blocks, 8⟩] ++ statTimes ++
    [⟨none, 8⟩, ⟨none, 8⟩, ⟨none, 8⟩]
  | .arm64 =>
    [⟨some .dev, 8⟩, ⟨some .ino, 8⟩, ⟨some .mode, 4⟩, ⟨some .nlink, 4⟩, ⟨some .uid, 4⟩, ⟨some .gid, 4⟩,
      ⟨some .rdev, 8⟩, ⟨none, 8⟩, ⟨some .size, 8⟩, ⟨some .blksize, 4⟩, ⟨none, 4⟩, ⟨some .blocks, 8⟩] ++
    statTimes ++ [⟨none, 4⟩, ⟨none, 4⟩]

/-- The fields in the order in which `copystat` assigns them. -/
def copiedFields : List StatField :=
  [.dev, .ino, .nlink, .mode, .uid, .gid, .rdev, .size, .blksize, .blocks, .atimSec, .atimNsec, .mtimSec,
    .mtimNsec, .ctimSec, .ctimNsec]

/-- `copystat`: guest memory with the structure at `stat` filled from the host's record. -/
def copystat (A : Arch) (stat : Word) (kstat : StatField → Word) (mem : Word → Byte) : Word → Byte :=
  putMembers A.structStat stat kstat mem copiedFields

/-- The layout of the Linux kernel. -/
def Arch.kernelStat : Arch → List (Member StatField)
  | .x64 =>
    [⟨some .dev, 8⟩, ⟨some .ino, 8⟩, ⟨some .nlink, 8⟩, ⟨some .mode, 4⟩, ⟨some .uid, 4⟩, ⟨some .gid, 4⟩,
      ⟨none, 4⟩, ⟨some .rdev, 8⟩, ⟨some .size, 8⟩, ⟨some .blksize, 8⟩, ⟨some .blocks, 8⟩] ++ statTimes
  | .arm64 =>
    [⟨some .dev, 8⟩, ⟨some .ino, 8⟩, ⟨some .mode, 4⟩, ⟨some .nlink, 4⟩, ⟨some .uid, 4⟩, ⟨some .gid, 4⟩,
      ⟨some .rdev, 8⟩, ⟨none, 8⟩, ⟨some .size, 8⟩, ⟨some .blksize, 4⟩, ⟨none, 4⟩, ⟨some .blocks, 8⟩] ++
    statTimes

/-- What the guest reads as a field. -/
def statField (A : Arch) (mem : Word → Byte) (stat : Word) (f : StatField) : Nat :=
  leBytes mem (stat + BitVec.ofNat 64 (slot A.kernelStat f).1) (slot A.kernelStat f).2

/-- Every field fits the width it has for the kernel. -/
def FitsKernel (A : Arch) (kstat : StatField → Word) : Prop :=
  ∀ f, (kstat f).toNat < 256 ^ (slot A.kernelStat f).2

/-- The guest reads every field as the host has it. -/
def StatRead (A : Arch) (stat : Word) (kstat : StatField → Word) (mem : Word → Byte) : Prop :=
  ∀ f, statField A (copystat A stat kstat mem) stat f = (kstat f).toNat

/-- The values that the x64 layouts agree on: what was in memory at the kernel's `st_gid` counts. -/
structure Shifted (stat : Word) (kstat : StatField → Word) (mem : Word → Byte) : Prop where
  nlink : (kstat .nlink).toNat / 2 ^ 32 = (kstat .mode).toNat
  mode : (kstat .mode).toNat = (kstat .uid).toNat
  uid : (kstat .uid).toNat = (kstat .gid).toNat
  gid : leBytes mem (stat + 32) 4 = (kstat .gid).toNat

section
variable {A : Arch} {stat : Word} {kstat : StatField → Word} {mem : Word → Byte}

/-- Its members are not empty, -/
lemma structStat_pos (A : Arch) : ∀ m ∈ A.structStat, 0 < m.size := by
  cases A <;> decide

/-- and small. -/
lemma structStat_small (A : Arch) : ∀ f ∈ copiedFields, Small A.structStat f := by
  cases A <;> decide

/-- All fields are copied. -/
lemma mem_copiedFields (f : StatField) : f ∈ copiedFields := by
  cases f <;> decide

/-- A member holds its field, cut to the width of the member. -/
lemma leBytes_copystat (A : Arch) (f : StatField) {s : Nat × Nat} (h : slot A.structStat f = s) :
    leBytes (copystat A stat kstat mem) (stat + BitVec.ofNat 64 s.1) s.2 =
      (kstat f).toNat % 256 ^ s.2 := by
  subst h
  exact leBytes_putMembers (structStat_pos A) (show copiedFields.Nodup by decide) (mem_copiedFields f)
    (structStat_small A)

/-- The guest reads a field where it, or another one of its width, was stored. -/
lemma statField_stored {f : StatField} (g : StatField) (hfit : FitsKernel A kstat)
    (h : slot A.structStat g = slot A.kernelStat f)
    (hw : (slot A.kernelStat g).2 = (slot A.kernelStat f).2) :
    statField A (copystat A stat kstat mem) stat f = (kstat g).toNat := by
  rw [statField, leBytes_copystat A g h, ← hw]
  exact Nat.mod_eq_of_lt (hfit g)

/-- On x64 the links take in the mode. -/
lemma statField_x64_nlink (hfit : FitsKernel .x64 kstat) :
    statField .x64 (copystat .x64 stat kstat mem) stat .nlink =
      (kstat .nlink).toNat % 2 ^ 32 + 2 ^ 32 * (kstat .mode).toNat := by
  have hn : leBytes (copystat .x64 stat kstat mem) (stat + BitVec.ofNat 64 16) 4 =
      (kstat .nlink).toNat % 256 ^ 4 := leBytes_copystat .x64 .nlink (s := (16, 4)) (by decide)
  have hm : leBytes (copystat .x64 stat kstat mem) (stat + BitVec.ofNat 64 20) 4 =
      (kstat .mode).toNat % 256 ^ 4 := leBytes_copystat .x64 .mode (s := (20, 4)) (by decide)
  have hmode : (kstat .mode).toNat < 256 ^ 4 := hfit .mode
  have hsplit := leBytes_add (copystat .x64 stat kstat mem) (stat + BitVec.ofNat 64 16) 4 4
  rw [BitVec.add_assoc] at hsplit
  rw [hn] at hsplit
  rw [show BitVec.ofNat 64 16 + BitVec.ofNat 64 4 = BitVec.ofNat 64 20 from rfl, hm,
    Nat.mod_eq_of_lt hmode] at hsplit
  exact hsplit

/-- On x64 the group is what was in memory before. -/
lemma statField_x64_gid :
    statField .x64 (copystat .x64 stat kstat mem) stat .gid = leBytes mem (stat + 32) 4 := by
  have hgap : ∀ k < 4, ∀ f ∈ copiedFields, 32 + k < (slot Arch.x64.structStat f).1 ∨
      (slot Arch.x64.structStat f).1 + (slot Arch.x64.structStat f).2 ≤ 32 + k := by decide
  have haddr : ∀ k, stat + BitVec.ofNat 64 32 + BitVec.ofNat 64 k = stat + BitVec.ofNat 64 (32 + k) := by
    intro k
    rw [BitVec.add_assoc, ← BitVec.ofNat_add]
  show leBytes _ (stat + BitVec.ofNat 64 32) 4 = leBytes mem (stat + BitVec.ofNat 64 32) 4
  apply leBytes_congr
  intro k hk
  rw [haddr]
  exact putMembers_outside (structStat_small .x64) (by omega) (hgap k hk)

/-- `copystat` writes from `st_dev` to `st_ctim` only. -/
lemma copystat_outside {x : Word} (h : 120 ≤ (x - stat).toNat) :
    copystat A stat kstat mem x = mem x := by
  have hends : ∀ f ∈ copiedFields, (slot A.structStat f).1 + (slot A.structStat f).2 ≤ 120 := by
    cases A <;> decide
  have hx : x = stat + BitVec.ofNat 64 (x - stat).toNat := by
    rw [BitVec.ofNat_toNat, BitVec.setWidth_eq]
    bv_omega
  rw [hx]
  exact putMembers_outside (structStat_small A) (BitVec.isLt _) fun f hf => .inr ((hends f hf).trans h)

/-- What `sys_fstat` leaves in guest memory when the host has a record for the file: the bytes that the
host call stores are those of `copystat`. -/
lemma sysFstat_copystat {L : LibMMap} {O : HostOs} {w : World L A.machine} {fd : CInt} {statbufp : Word}
    {n : Nat} (hbuf : alignedTo 8 (lfiAsFmptr w.info statbufp) = some stat)
    (hfd : w.handles fd .stat = true) (hret : O.ret w.ncall = some n)
    (hdata : ∀ k < 120, O.data w.ncall (BitVec.ofNat 64 k) =
      copystat A stat kstat w.mem (stat + BitVec.ofNat 64 k)) :
    ((sysFstat O fd statbufp).run w).val = .ok 0 ∧
    ((sysFstat O fd statbufp).run w).st.mem = copystat A stat kstat w.mem := by
  have hfill : splice w.mem stat 120 (O.data w.ncall) = copystat A stat kstat w.mem := by
    funext x
    by_cases hx : x - stat < 120
    · have h120 : (x - stat).toNat < 120 := hx
      have he := hdata (x - stat).toNat h120
      rw [BitVec.ofNat_toNat, BitVec.setWidth_eq] at he
      rw [splice_of_lt hx, he]
      congr 1
      bv_omega
    · rw [splice_of_not_lt hx, copystat_outside (by bv_omega)]
  have hrun : (sysFstat O fd statbufp).run w = ⟨.ok (intAnswer O w.ncall), (w.fill O stat 120).called,
      [.ask ⟨statbufp, (BitVec.ofNat 64 A.machine.statSize).toNat⟩, .touch ⟨stat, 120⟩]⟩ := by
    rw [sysFstat, sysNewfstatat, Exec.bind_run, procbufalign_run, hbuf, Exec.andThen_ok]
    dsimp only
    rw [if_neg (by decide), withHandler_run, if_pos hfd, Exec.bind_run, Exec.get_run, Exec.andThen_ok_nil,
      hret]
    simp only [Option.isSome_some, if_true, Exec.bind_run, touch_run, Exec.modify_run, Exec.andThen_ok,
      hostInt_run]
    rfl
  rw [hrun]
  refine ⟨?_, hfill⟩
  rw [intAnswer, hret]

/-- The guest reads every field back, always on arm64, and on x64 when the fields it reads in place of
one another are equal. -/
theorem stat_roundtrip (stat : Word) (mem : Word → Byte) (hfit : FitsKernel A kstat) :
    StatRead A stat kstat mem ↔ (A = .x64 → Shifted stat kstat mem) := by
  cases A with
  | arm64 =>
    refine iff_of_true (fun f => ?_) nofun
    cases f <;> exact statField_stored _ hfit (by decide) rfl
  | x64 =>
    have hmode : statField .x64 (copystat .x64 stat kstat mem) stat .mode = (kstat .uid).toNat :=
      statField_stored .uid hfit (by decide) rfl
    have huid : statField .x64 (copystat .x64 stat kstat mem) stat .uid = (kstat .gid).toNat :=
      statField_stored .gid hfit (by decide) rfl
    constructor
    · intro h _
      have hnlink := h .nlink
      rw [statField_x64_nlink hfit] at hnlink
      refine ⟨by omega, ?_, ?_, ?_⟩
      · rw [← h .mode, hmode]
      · rw [← h .uid, huid]
      · rw [← statField_x64_gid, h .gid]
    · intro h f
      obtain ⟨hn, hm, hu, hg⟩ := h rfl
      cases f with
      | nlink =>
        rw [statField_x64_nlink hfit]
        omega
      | mode => rw [hmode, hm]
      | uid => rw [huid, hu]
      | gid => rw [statField_x64_gid, hg]
      | _ => exact statField_stored _ hfit (by decide) rfl

end

/-- A regular file with one link, of user and group 1000. -/
def plainFile : StatField → Word
  | .nlink => 1
  | .mode => 0o100644
  | .uid => 1000
  | .gid => 1000
  | .size => 4096
  | _ => 0

/-- On arm64 its record is read back. -/
theorem stat_roundtrip_plainFile : StatRead .arm64 0x100010000 plainFile fun _ => 0 := by
  refine (stat_roundtrip _ _ fun f => ?_).mpr nofun
  cases f <;> decide

/-- On x64 the guest reads 1000 for its mode. -/
theorem stat_x64_shifted :
    FitsKernel .x64 plainFile ∧ ¬ StatRead .x64 0x100010000 plainFile fun _ => 0 := by
  have hfit : FitsKernel .x64 plainFile := by
    intro f
    cases f <;> decide
  refine ⟨hfit, fun h => ?_⟩
  have hmode := h .mode
  rw [statField_stored (f := .mode) .uid hfit (by decide) rfl] at hmode
  exact absurd hmode (by decide)

end Libtux
