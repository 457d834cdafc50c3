import Libtux.Lib.Bytes
import Libtux.Pal.Ranges
import Libtux.Sys.Runs

/-!
# The path of the current directory

`sys_getcwd` should return the whole path of the current directory or fail. `host_getpath` asks `getcwd`
when no directory was ever set, which fails when the path does not fit, and reads the link of the
descriptor otherwise, which cuts the path. Neither reaches the guest: the errors of the wrapper are not
negative (`intAnswer_msb`), so that the call always returns its buffer. It meets its contract exactly when
there is nothing to report (`getcwd_contract`).
-/

namespace Libtux
open Lib

/-- The path of a directory. -/
structure DirPath (s : List Byte) : Prop where
  absolute : s.head? = some 0x2f
  nonzero : ∀ b ∈ s, b ≠ 0
  short : s.length < TUX_PATH_MAX

/-- What Linux answers a lookup of a directory with path `s`, into `size` bytes, when the lookup
succeeds. `getcwd` stores the path and a zero, or fails. `readlink`, which is given one byte less, needs
room for at least one, and stores as much of the path as there is room for. -/
structure LinuxPath (O : HostOs) (k : Nat) (dir : Option HostFile) (s : List Byte) (size : Nat) : Prop where
  getcwd : dir = none → ∀ r, O.ret k = some r → s.length < size ∧
    (∀ j (h : j < s.length), O.data k (BitVec.ofNat 64 j) = s[j]) ∧ O.data k (BitVec.ofNat 64 s.length) = 0
  readlink : dir ≠ none → ∀ r, O.ret k = some r → 1 < size ∧ r = min s.length (size - 1) ∧
    ∀ j (h : j < s.length), j < r → O.data k (BitVec.ofNat 64 j) = s[j]

/-- The room that `sys_getcwd` gives to the host. -/
def getcwdRoom (size : Word) : Word :=
  if size.toNat < TUX_PATH_MAX then size else BitVec.ofNat 64 TUX_PATH_MAX

section
variable {L : LibMMap} {M : Machine} {O : HostOs} {w : World L M} {bufp size : Word} {s : List Byte}

/-- The directory was looked up, and its path fits with the zero. -/
def PathFound (O : HostOs) (k : Nat) (s : List Byte) (size : Word) : Prop :=
  (O.ret k).isSome = true ∧ s.length < size.toNat

instance (O : HostOs) (k : Nat) (s : List Byte) (size : Word) : Decidable (PathFound O k s size) :=
  inferInstanceAs (Decidable (_ ∧ _))

/-- What `sys_getcwd` should do: it returns the buffer, with the path in it, or a null pointer or a
negative error. -/
structure GetcwdContract (O : HostOs) (w : World L M) (bufp size : Word) (s : List Byte) : Prop where
  success : ((sysGetcwd O bufp size).run w).val = .ok bufp ↔ PathFound O w.ncall s size
  path : ((sysGetcwd O bufp size).run w).val = .ok bufp →
    CString ((sysGetcwd O bufp size).run w).st.mem bufp s
  failure : ¬ PathFound O w.ncall s size →
    ∃ r : Word, ((sysGetcwd O bufp size).run w).val = .ok r ∧ (r = 0 ∨ r.msb = true)

/-- The room for a path is that of the buffer, up to the longest path. -/
lemma getcwdRoom_spec (h : size ≠ 0) : 0 < (getcwdRoom size).toNat ∧ (getcwdRoom size).toNat ≤ 4096 ∧
    (getcwdRoom size).toNat ≤ size.toNat ∧
    ∀ n < TUX_PATH_MAX, n < size.toNat → n < (getcwdRoom size).toNat := by
  have hpos : 0 < size.toNat := by bv_omega
  unfold getcwdRoom
  split
  next hlt => exact ⟨hpos, hlt.le, le_rfl, fun _ _ h => h⟩
  next hge => exact ⟨by decide, by decide, not_lt.mp hge, fun _ h _ => h⟩

/-- Whatever the host answers, `sys_getcwd` returns its buffer. -/
lemma sysGetcwd_run (O : HostOs) (hbuf : lfiAsFmptr w.info bufp = some bufp) (hsize : size ≠ 0) :
    ((sysGetcwd O bufp size).run w).val = .ok bufp ∧
    ((sysGetcwd O bufp size).run w).st.mem =
      splice (w.gotPath O w.fds.cwd.file bufp (getcwdRoom size)).mem
        (bufp + getcwdRoom size - 1) 1 fun _ => 0 := by
  rw [sysGetcwd, if_neg hsize, Exec.bind_run, procbuf_run, hbuf, Exec.andThen_ok]
  dsimp only
  rw [← getcwdRoom, Exec.bind_run, Exec.get_run, Exec.andThen_ok_nil, Exec.bind_run, hostGetpath_run,
    Exec.andThen_ok, intAnswer_msb, if_neg Bool.false_ne_true, Exec.bind_run, touch_run, Exec.andThen_ok,
    Exec.bind_run, Exec.modify_run, Exec.andThen_ok_nil, Exec.pure_run]
  exact ⟨rfl, rfl⟩

/-- The `k`-th address of an array, in a part of it that was overwritten or not. -/
lemma splice_add {f g : Word → Byte} {p n : Word} {k : Nat} (hk : k < 2 ^ 64) :
    splice f p n g (p + BitVec.ofNat 64 k) =
      if k < n.toNat then g (BitVec.ofNat 64 k) else f (p + BitVec.ofNat 64 k) := by
  have hsub : p + BitVec.ofNat 64 k - p = BitVec.ofNat 64 k := by
    rw [BitVec.add_comm, BitVec.add_sub_cancel]
  have hlt : BitVec.ofNat 64 k < n ↔ k < n.toNat := by
    rw [BitVec.lt_def, BitVec.toNat_ofNat, Nat.mod_eq_of_lt hk]
  rw [splice, hsub]
  simp only [hlt]

/-- A zero is put behind a string. -/
lemma CString.terminate {f : Word → Byte} {p : Word} {n : Nat} (hn : n < 2 ^ 64)
    (hbyte : ∀ k (h : k < s.length), f (p + BitVec.ofNat 64 k) = s[k]) (hs : ∀ b ∈ s, b ≠ 0)
    (hle : s.length ≤ n) (hstop : s.length < n → f (p + BitVec.ofNat 64 s.length) = 0) :
    CString (splice f (p + BitVec.ofNat 64 n) 1 fun _ => 0) p s := by
  have hbefore : ∀ k < n, splice f (p + BitVec.ofNat 64 n) 1 (fun _ => (0 : Byte))
      (p + BitVec.ofNat 64 k) = f (p + BitVec.ofNat 64 k) := by
    intro k hk
    apply splice_of_not_lt
    bv_omega
  refine ⟨fun k hk => ?_, hs, ?_⟩
  · rw [hbefore k (by omega), hbyte k hk]
  · cases Nat.lt_or_eq_of_le hle with
    | inl hlt => rw [hbefore _ hlt, hstop hlt]
    | inr he =>
      rw [he]
      apply splice_of_lt
      rw [BitVec.sub_self]
      decide

/-- Both lookups leave a path that fits in the buffer, with its zero. -/
lemma gotPath_cstring (bufp : Word) {dir : Option HostFile} {room : Word} {r : Nat} (hs : DirPath s)
    (hl : LinuxPath O w.ncall dir s room.toNat) (hret : O.ret w.ncall = some r)
    (hfit : s.length < room.toNat) : CString (w.gotPath O dir bufp room).mem bufp s := by
  have htop := room.isLt
  have hpred : (room - 1).toNat = room.toNat - 1 := by bv_omega
  unfold World.gotPath
  rw [hret]
  cases dir with
  | none =>
    obtain ⟨-, hbyte, hstop⟩ := hl.getcwd rfl r hret
    have hfill : ∀ k < room.toNat, (w.fill O bufp room).mem (bufp + BitVec.ofNat 64 k) =
        O.data w.ncall (BitVec.ofNat 64 k) := by
      intro k hk
      exact (splice_add (by omega)).trans (if_pos hk)
    exact ⟨fun k hk => (hfill k (by omega)).trans (hbyte k hk), hs.nonzero, (hfill _ hfit).trans hstop⟩
  | some d =>
    obtain ⟨-, hr, hbyte⟩ := hl.readlink (Option.some_ne_none d) r hret
    have hlen : min r (room - 1).toNat = s.length := by omega
    dsimp only
    rw [hlen]
    refine CString.terminate (by omega) (fun k hk => ?_) hs.nonzero le_rfl fun h => absurd h (by omega)
    have hlt : k < (BitVec.ofNat 64 s.length).toNat := by
      rw [BitVec.toNat_ofNat, Nat.mod_eq_of_lt (by omega)]
      exact hk
    exact ((splice_add (by omega)).trans (if_pos hlt)).trans (hbyte k hk (by omega))

/-- `sys_getcwd` does what it should exactly when the directory is looked up and its path fits: it has no
way to fail. -/
theorem getcwd_contract (hs : DirPath s) (hbuf : lfiAsFmptr w.info bufp = some bufp) (hsize : size ≠ 0)
    (hl : LinuxPath O w.ncall w.fds.cwd.file s (getcwdRoom size).toNat) :
    GetcwdContract O w bufp size s ↔ PathFound O w.ncall s size := by
  obtain ⟨hval, hmem⟩ := sysGetcwd_run O hbuf hsize
  obtain ⟨hpos, hmax, -, hroom⟩ := getcwdRoom_spec hsize
  constructor
  · intro h
    exact h.success.mp hval
  · intro h
    refine ⟨iff_of_true hval h, fun _ => ?_, fun hn => absurd h hn⟩
    obtain ⟨r, hret⟩ := Option.isSome_iff_exists.mp h.1
    have hfit := hroom _ hs.short h.2
    have hpath := gotPath_cstring bufp hs hl hret hfit
    have hlast : bufp + getcwdRoom size - 1 = bufp + BitVec.ofNat 64 ((getcwdRoom size).toNat - 1) := by
      bv_omega
    rw [hmem, hlast]
    exact CString.terminate (by omega) hpath.byte hs.nonzero (by omega) fun _ => hpath.stop

end

/-- A host whose lookups find the directory `/a`, and return its first `n` bytes. -/
def HostOs.finding (n : Nat) (h : n < 3) : HostOs :=
  { HostOs.plain with
    ret _ := some n
    data _ k := if k = 0 then 0x2f else if k = 1 then 0x61 else 0
    ret_lt e := by
      cases e
      omega }

/-- A thread with a current directory. -/
def World.inDir : World .ofRanges .x64 :=
  { World.ofThread (procnewfile (.fresh .plain) 10000) with fds := ⟨.empty, ⟨some 3, none⟩⟩ }

/-- `/a` is a path. -/
lemma dirPath_a : DirPath [0x2f, 0x61] := ⟨rfl, by decide, by decide⟩

/-- A Linux that finds it. -/
lemma linuxPath_finding (k n size : Nat) (h : n < 3) (hsize : 1 < size) (hn : n = min 2 (size - 1)) :
    LinuxPath (.finding n h) k (some 3) [0x2f, 0x61] size where
  getcwd e := nomatch e
  readlink _ r hr := by
    cases hr
    refine ⟨hsize, hn, fun j hj _ => ?_⟩
    match j, hj with
    | 0, _ => rfl
    | 1, _ => rfl

/-- Three bytes have room for `/a`. -/
theorem getcwd_contract_finding :
    GetcwdContract (.finding 2 (by omega)) World.inDir LFIAddrSpaceInfo.plain.minaddr 3 [0x2f, 0x61] :=
  (getcwd_contract dirPath_a (by decide) (by decide)
    (linuxPath_finding _ _ _ _ (by decide) (by decide))).mpr (by decide)

/-- Two bytes do not: the guest is told that it is in `/`. -/
theorem getcwd_cuts :
    DirPath [0x2f, 0x61] ∧ LinuxPath (.finding 1 (by omega)) 0 (some 3) [0x2f, 0x61] 2 ∧
    ((sysGetcwd (.finding 1 (by omega)) LFIAddrSpaceInfo.plain.minaddr 2).run World.inDir).val =
      .ok LFIAddrSpaceInfo.plain.minaddr ∧
    CString ((sysGetcwd (.finding 1 (by omega)) LFIAddrSpaceInfo.plain.minaddr 2).run World.inDir).st.mem
      LFIAddrSpaceInfo.plain.minaddr [0x2f] ∧
    ¬ GetcwdContract (.finding 1 (by omega)) World.inDir LFIAddrSpaceInfo.plain.minaddr 2
      [0x2f, 0x61] := by
  have hbuf : lfiAsFmptr World.inDir.info LFIAddrSpaceInfo.plain.minaddr =
      some LFIAddrSpaceInfo.plain.minaddr := by decide
  have hsize : (2 : Word) ≠ 0 := by decide
  obtain ⟨hval, hmem⟩ := sysGetcwd_run (.finding 1 (by omega)) hbuf hsize
  refine ⟨dirPath_a, linuxPath_finding _ _ _ _ (by decide) (by decide), hval, ?_, fun h => ?_⟩
  · rw [hmem]
    exact ⟨by decide, by decide, by decide⟩
  · exact absurd (h.success.mp hval) (by decide)

end Libtux
