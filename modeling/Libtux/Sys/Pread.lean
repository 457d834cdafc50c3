import Libtux.Lib.OpenFile
import Libtux.Sys.Confine

/-!
# Positional reads

`sys_pread64` is a read between seeks: it asks for the offset of the file, seeks to the place, reads, and
seeks back to the offset it asked for. It looks at none of the four results. A seek that fails leaves the
offset alone, so the read then takes the bytes at the current offset, or the data pending in a file that
cannot seek; and `host_seek` reports its failures as positive numbers (`tuxerr`), which are taken for
offsets. Nor does it look at how much the host read, which need not be all that it was asked for.

`sysPread64At` has the open file in its state, which the other system calls do not need; it is the
`sysPread64` of the other modules on a host that answers as the file does (`sysPread64At_host`).
`pread64_positional_iff` says when a call is the positional read it stands for.
-/

namespace Libtux
open Lib

/-- The state of a system call on a descriptor, with the open file that the descriptor denotes. -/
structure Opened (L : LibMMap) (M : Machine) where
  w : World L M
  file : OpenFile

/-- A system call on an open file. -/
abbrev FileSys (L : LibMMap) (M : Machine) := Exec Stop Ev (Opened L M)

/-- The error number of a failed `lseek`. -/
def seekErrno : SeekError → Nat
  | .unseekable => 29
  | .invalid => TUX_EINVAL

/-- What `host_seek` returns. -/
def seekAnswer : Except SeekError Nat → Word
  | .ok p => BitVec.ofNat 64 p
  | .error e => BitVec.ofInt 64 (tuxerr (seekErrno e))

section
variable {L : LibMMap} {M : Machine}

/-- The world with some bytes stored in guest memory. -/
def World.stored (w : World L M) (buf : Word) (bytes : List Byte) : World L M :=
  w.setMem (splice w.mem buf (BitVec.ofNat 64 bytes.length) fun k => bytes.getD k.toNat 0)

/-- `host_seek`. The offset is signed. -/
def hostSeek (loc : Word) (whence : Whence) : FileSys L M Word := ⟨fun s =>
  ⟨.ok (seekAnswer (s.file.seek loc.toInt whence).1), { s with file := (s.file.seek loc.toInt whence).2 }, []⟩⟩

/-- The most that one `read` moves. -/
def MAX_RW_COUNT : Nat := 0x7ffff000

/-- The `read` of a host. `moves buf size prot rest` is how many of the `rest` bytes that a file has it moves to a
buffer in memory with the protections `prot`, or the error number when it fails. It stops where writes are not
allowed, and moves nothing only at the end of the file. -/
structure ReadHost where
  moves : Word → Word → (Word → CInt) → Nat → Except Nat Nat
  moves_le : ∀ {buf size prot rest n}, moves buf size prot rest = .ok n →
    n ≤ size.toNat ∧ n ≤ rest ∧ n ≤ MAX_RW_COUNT
  moves_open : ∀ {buf size prot rest n}, moves buf size prot rest = .ok n →
    ∀ k : Nat, k < n → prot (buf + BitVec.ofNat 64 k) &&& LFI_PROT_WRITE ≠ 0
  moves_zero : ∀ {buf size prot rest}, moves buf size prot rest = .ok 0 → size = 0 ∨ rest = 0
  errno : ∀ {buf size prot rest e}, moves buf size prot rest = .error e → 0 < e ∧ e < 4096

/-- What a read of `f` moves, and the file after it. -/
def ReadHost.reads (K : ReadHost) (buf size : Word) (prot : Word → CInt) (f : OpenFile) :
    Except Nat (List Byte) × OpenFile :=
  match K.moves buf size prot f.rest with
  | .ok n => (.ok (f.read n).1, (f.read n).2)
  | .error e => (.error e, f)

/-- What `host_read` returns. -/
def readAnswer : Except Nat (List Byte) → Word
  | .ok bytes => BitVec.ofNat 64 bytes.length
  | .error e => BitVec.ofInt 64 (tuxerr e)

/-- The world after a read. -/
def World.took (w : World L M) (buf : Word) : Except Nat (List Byte) → World L M
  | .ok bytes => w.stored buf bytes
  | .error _ => w

variable (K : ReadHost)

/-- `host_read`. -/
def hostRead (buf size : Word) : FileSys L M Word := ⟨fun s =>
  ⟨.ok (readAnswer (K.reads buf size s.w.p.as.prot s.file).1),
    ⟨s.w.took buf (K.reads buf size s.w.p.as.prot s.file).1, (K.reads buf size s.w.p.as.prot s.file).2⟩,
    [.touch ⟨buf, size.toNat⟩]⟩⟩

/-- A system call that does not use the open file. -/
def onWorld {α : Type} (x : Sys L M α) : FileSys L M α := Exec.zoom (·.w) (fun w s => { s with w }) x

/-- The four host calls of `sys_pread64`. -/
def preadCalls (buf size offset : Word) : FileSys L M Word := do
  let orig ← hostSeek 0 .current
  let _ ← hostSeek offset .start
  let n ← hostRead K buf size
  let _ ← hostSeek orig .start
  pure n

/-- `sys_pread64`. -/
def sysPread64At (fd : CInt) (bufp size offset : Word) : FileSys L M Word := do
  let s ← Exec.get
  match s.w.fdfile fd with
  | none => pure (negErr TUX_EBADF)
  | some f =>
    if ¬ f.has .read ∨ ¬ f.has .lseek then pure (negErr TUX_EPERM)
    else
      match ← onWorld (procbuf bufp size) with
      | none => pure (negErr TUX_EFAULT)
      | some buf => preadCalls K buf size offset

/-- What a positional read does: `v` is how many bytes there are at the offset, and these are what is stored, in
memory that is open to writes. The offset of the file stays, and so does what is pending in a file that cannot seek. -/
structure Positional (s s' : Opened L M) (buf size offset v : Word) : Prop where
  pos : s'.file.pos = s.file.pos
  pending : s.file.seekable = false → s'.file.data = s.file.data
  read : s.file.seekable = true → 0 ≤ offset.toInt →
    v.toNat = min size.toNat (s.file.data.length - offset.toNat) ∧ s.w.p.as.Writable buf v ∧
      s'.w.mem = (s.w.stored buf (slice s.file.data offset.toNat size.toNat)).mem
  refused : s.file.seekable = false ∨ offset.toInt < 0 → IsErr v ∧ s'.w.mem = s.w.mem

/-! ## How it runs -/

/-- What a seek of the host does, -/
lemma hostSeek_run (loc : Word) (whence : Whence) (s : Opened L M) :
    (hostSeek loc whence).run s = ⟨.ok (seekAnswer (s.file.seek loc.toInt whence).1),
      { s with file := (s.file.seek loc.toInt whence).2 }, []⟩ := by
  rw [hostSeek, Exec.mk_run]

/-- and what a read does. -/
lemma hostRead_run (buf size : Word) (s : Opened L M) :
    (hostRead K buf size).run s = ⟨.ok (readAnswer (K.reads buf size s.w.p.as.prot s.file).1),
      ⟨s.w.took buf (K.reads buf size s.w.p.as.prot s.file).1, (K.reads buf size s.w.p.as.prot s.file).2⟩,
      [.touch ⟨buf, size.toNat⟩]⟩ := by
  rw [hostRead, Exec.mk_run]

/-- The file after the first two calls. -/
def sought (f : OpenFile) (offset : Word) : OpenFile :=
  ((f.seek 0 .current).2.seek offset.toInt .start).2

/-- What the third call moves, and the file after it. -/
def preadReads (buf size offset : Word) (prot : Word → CInt) (f : OpenFile) :
    Except Nat (List Byte) × OpenFile := K.reads buf size prot (sought f offset)

/-- The file after all four. -/
def preadFile (buf size offset : Word) (prot : Word → CInt) (f : OpenFile) : OpenFile :=
  ((preadReads K buf size offset prot f).2.seek (seekAnswer (f.seek 0 .current).1).toInt .start).2

/-- The four calls together. -/
lemma preadCalls_run (buf size offset : Word) (s : Opened L M) :
    (preadCalls K buf size offset).run s =
      ⟨.ok (readAnswer (preadReads K buf size offset s.w.p.as.prot s.file).1),
        ⟨s.w.took buf (preadReads K buf size offset s.w.p.as.prot s.file).1,
          preadFile K buf size offset s.w.p.as.prot s.file⟩,
        [.touch ⟨buf, size.toNat⟩]⟩ := by
  rw [preadCalls, Exec.bind_run, hostSeek_run, Exec.andThen_ok_nil, Exec.bind_run, hostSeek_run,
    Exec.andThen_ok_nil, Exec.bind_run, hostRead_run, Exec.andThen_ok, Exec.bind_run, hostSeek_run,
    Exec.andThen_ok_nil, Exec.pure_run]
  rfl

/-- The call gets to its host calls when the file has the handlers and the buffer is accepted. -/
lemma sysPread64At_run {s : Opened L M} {fd : CInt} {bufp size offset buf : Word}
    (hread : s.w.handles fd .read = true) (hlseek : s.w.handles fd .lseek = true)
    (hbuf : lfiAsFmptr s.w.info bufp = some buf) :
    (sysPread64At K fd bufp size offset).run s =
      ⟨.ok (readAnswer (preadReads K buf size offset s.w.p.as.prot s.file).1),
        ⟨s.w.took buf (preadReads K buf size offset s.w.p.as.prot s.file).1,
          preadFile K buf size offset s.w.p.as.prot s.file⟩,
        [.ask ⟨bufp, size.toNat⟩, .touch ⟨buf, size.toNat⟩]⟩ := by
  have hasked : (onWorld (procbuf bufp size) : FileSys L M _).run s =
      ⟨.ok (some buf), s, [.ask ⟨bufp, size.toNat⟩]⟩ := by
    rw [onWorld, Exec.zoom, Exec.mk_run, procbuf_run, hbuf]
  rw [World.handles] at hread hlseek
  rw [sysPread64At, Exec.bind_run, Exec.get_run, Exec.andThen_ok_nil]
  cases hf : s.w.fdfile fd with
  | none =>
    rw [hf] at hread
    cases hread
  | some f =>
    rw [hf] at hread hlseek
    dsimp only at hread hlseek ⊢
    rw [Exec.ite_run, if_neg (by simp [hread, hlseek]), Exec.bind_run, hasked, Exec.andThen_ok,
      preadCalls_run]
    rfl

/-! ## When it is a positional read -/

section
variable {f : OpenFile} {size offset : Word}

/-- A position that is refused leaves the file where it is. -/
lemma sought_invalid (h : f.seekable = true) (hoff : ¬ (0 ≤ offset.toInt ∧ offset.toInt ≤ f.limit)) :
    sought f offset = f := by
  rw [sought, OpenFile.seek_current h, OpenFile.seek_start_invalid h hoff]

/-- A nonnegative offset is the number that it reads as. -/
lemma toInt_of_nonneg (h : 0 ≤ offset.toInt) : offset.toInt = offset.toNat := by
  rw [BitVec.toInt_eq_toNat_cond] at h ⊢
  split <;> omega

/-- One that is not moves it. -/
lemma sought_valid (h : f.seekable = true) (hpos : 0 ≤ offset.toInt) (hle : offset.toNat ≤ f.limit) :
    sought f offset = f.moveTo offset.toNat hle := by
  rw [sought, OpenFile.seek_current h, toInt_of_nonneg hpos, OpenFile.seek_start h hle]

/-- An offset goes through a signed result. -/
lemma toInt_pos (f : OpenFile) : (BitVec.ofNat 64 f.pos).toInt = f.pos := by
  have hlt := f.limit_lt
  have hle := f.pos_le
  rw [BitVec.toInt_eq_toNat_cond, BitVec.toNat_ofNat, Nat.mod_eq_of_lt (by omega), if_pos (by omega)]

/-- The offset that was asked for is sought in the end. -/
lemma preadFile_eq (h : f.seekable = true) {p : Nat} (hp : p ≤ f.limit) (hs : sought f offset = f.moveTo p hp)
    (buf : Word) (prot : Word → CInt) : preadFile K buf size offset prot f = f := by
  rw [preadFile, preadReads, OpenFile.seek_current h, seekAnswer, toInt_pos, hs, ReadHost.reads]
  split
  · exact (OpenFile.seek_read_seek h hp _).2
  · dsimp only
    rw [OpenFile.seek_start (f := f.moveTo p hp) h f.pos_le]
    exact f.moveTo_self

end

/-- A number below `2 ^ 63` is no error. -/
lemma not_isErr_ofNat {n : Nat} (h : n < 2 ^ 63) :
    (BitVec.ofNat 64 n).toNat = n ∧ ¬ IsErr (BitVec.ofNat 64 n) := by
  have hnat : (BitVec.ofNat 64 n).toNat = n := by
    rw [BitVec.toNat_ofNat, Nat.mod_eq_of_lt]
    omega
  refine ⟨hnat, fun herr => ?_⟩
  unfold IsErr at herr
  omega

/-- A read moves a number of bytes, or fails with a small error number that `host_read` returns as it is. -/
lemma ReadHost.reads_cases (buf size : Word) (prot : Word → CInt) (f : OpenFile) :
    (∃ n, K.moves buf size prot f.rest = .ok n ∧ n ≤ size.toNat ∧ n ≤ f.rest ∧ n < 2 ^ 63 ∧
      K.reads buf size prot f = (.ok (f.read n).1, (f.read n).2) ∧
      readAnswer (K.reads buf size prot f).1 = BitVec.ofNat 64 n) ∨
    ∃ e, K.moves buf size prot f.rest = .error e ∧ 0 < e ∧ e < 4096 ∧
      K.reads buf size prot f = (.error e, f) ∧
      readAnswer (K.reads buf size prot f).1 = BitVec.ofNat 64 e := by
  unfold reads
  cases hm : K.moves buf size prot f.rest with
  | ok n =>
    obtain ⟨hsize, hrest, hmax⟩ := K.moves_le hm
    have hlt : MAX_RW_COUNT < 2 ^ 63 := by decide
    refine .inl ⟨n, rfl, hsize, hrest, by omega, rfl, ?_⟩
    rw [readAnswer, OpenFile.read_length, Nat.min_eq_left hrest]
  | error e =>
    obtain ⟨hpos, hlt⟩ := K.errno hm
    refine .inr ⟨e, rfl, hpos, hlt, rfl, ?_⟩
    rw [readAnswer, tuxerr, if_pos (Int.natCast_nonneg e), BitVec.ofInt_natCast]

/-- The read of the host moves all that it was asked for and the file has. When it fails with just that number, and
the bytes are in the buffer already, nobody can tell. -/
def MovesAll (s : Opened L M) (buf size : Word) (f : OpenFile) : Prop :=
  K.moves buf size s.w.p.as.prot f.rest = .ok (min size.toNat f.rest) ∨
    K.moves buf size s.w.p.as.prot f.rest = .error (min size.toNat f.rest) ∧
      s.w.p.as.Writable buf (BitVec.ofNat 64 (min size.toNat f.rest)) ∧
      (s.w.stored buf (f.read size.toNat).1).mem = s.w.mem

/-- Where the file was sought, the call is a positional read exactly when all is moved. -/
lemma positional_reads_iff {s : Opened L M} {buf size offset : Word} (hseek : s.file.seekable = true)
    (hpos : 0 ≤ offset.toInt) {f : OpenFile}
    (hbytes : (f.read size.toNat).1 = slice s.file.data offset.toNat size.toNat) :
    Positional s ⟨s.w.took buf (K.reads buf size s.w.p.as.prot f).1, s.file⟩ buf size offset
      (readAnswer (K.reads buf size s.w.p.as.prot f).1) ↔ MovesAll K s buf size f := by
  have hne : ¬ (s.file.seekable = false ∨ offset.toInt < 0) := by
    rw [hseek]
    rintro (h | h)
    · cases h
    · exact absurd hpos (not_le.mpr h)
  have hlen : min size.toNat f.rest = min size.toNat (s.file.data.length - offset.toNat) := by
    rw [← OpenFile.read_length, hbytes, length_slice]
  have hlt : min size.toNat f.rest < 2 ^ 63 := by
    have := s.file.data_le
    have := s.file.limit_lt
    omega
  obtain ⟨n, hm, hsize, hrest, hn, hr, hv⟩ | ⟨e, hm, hep, helt, hr, hv⟩ :=
    K.reads_cases buf size s.w.p.as.prot f
  · obtain ⟨hnat, -⟩ := not_isErr_ofNat hn
    rw [hv, hr, MovesAll, hm]
    constructor
    · intro h
      have := (h.read hseek hpos).1
      rw [hnat, ← hlen] at this
      exact .inl (congrArg Except.ok this)
    · rintro (h | ⟨h, -⟩)
      · obtain rfl := Except.ok.inj h
        have hopen : s.w.p.as.Writable buf (BitVec.ofNat 64 (min size.toNat f.rest)) := by
          intro k hk
          rw [hnat] at hk
          exact K.moves_open hm k hk
        refine ⟨rfl, fun _ => rfl, fun _ _ => ⟨hnat.trans hlen, hopen, ?_⟩, fun h => absurd h hne⟩
        rw [World.took, OpenFile.read_min_rest, hbytes]
      · cases h
  · obtain ⟨hnat, -⟩ := not_isErr_ofNat (n := e) (by omega)
    rw [hv, hr, MovesAll, hm]
    constructor
    · intro h
      obtain ⟨heq, hopen, hmem⟩ := h.read hseek hpos
      rw [hnat, ← hlen] at heq
      subst heq
      rw [hbytes]
      exact .inr ⟨rfl, hopen, hmem.symm⟩
    · rintro (h | ⟨h, hopen, hmem⟩)
      · cases h
      · obtain rfl := Except.error.inj h
        rw [hbytes] at hmem
        exact ⟨rfl, fun _ => rfl, fun _ _ => ⟨hnat.trans hlen, hopen, hmem.symm⟩, fun h => absurd h hne⟩

/-- `sys_pread64` is a positional read exactly when the file can seek to the offset, or else has nothing to
read where it is, and the host moves all that there is. -/
theorem pread64_positional_iff {s : Opened L M} {fd : CInt} {bufp size offset buf : Word}
    (hread : s.w.handles fd .read = true) (hlseek : s.w.handles fd .lseek = true)
    (hbuf : lfiAsFmptr s.w.info bufp = some buf) :
    (∃ v, ((sysPread64At K fd bufp size offset).run s).val = .ok v ∧
      Positional s ((sysPread64At K fd bufp size offset).run s).st buf size offset v) ↔
    s.file.seekable = true ∧ 0 ≤ offset.toInt ∧
      (offset.toNat ≤ s.file.limit ∨ size = 0 ∨ s.file.data.length ≤ s.file.pos) ∧
      MovesAll K s buf size (sought s.file offset) := by
  have hval : ∀ v : Word, (Except.ok (readAnswer (preadReads K buf size offset s.w.p.as.prot s.file).1) :
      Except Stop Word) = .ok v ↔ v = readAnswer (preadReads K buf size offset s.w.p.as.prot s.file).1 :=
    fun v => ⟨fun h => (Except.ok.inj h).symm, fun h => h ▸ rfl⟩
  have herr : ¬ IsErr (readAnswer (preadReads K buf size offset s.w.p.as.prot s.file).1) := by
    obtain ⟨n, -, -, -, hn, -, hv⟩ | ⟨e, -, -, helt, -, hv⟩ :=
      K.reads_cases buf size s.w.p.as.prot (sought s.file offset)
    · rw [preadReads, hv]
      exact (not_isErr_ofNat hn).2
    · rw [preadReads, hv]
      exact (not_isErr_ofNat (by omega)).2
  rw [sysPread64At_run K hread hlseek hbuf]
  simp only [hval, exists_eq_left]
  cases hseek : s.file.seekable with
  | false =>
    -- the read takes what is pending
    exact iff_of_false (fun h => herr (h.refused (.inl hseek)).1) fun h => Bool.false_ne_true h.1
  | true =>
    rcases lt_or_ge offset.toInt 0 with hneg | hpos
    · exact iff_of_false (fun h => herr (h.refused (.inr hneg)).1) fun h => absurd h.2.1 (not_le.mpr hneg)
    · by_cases hle : offset.toNat ≤ s.file.limit
      · have hs := sought_valid hseek hpos hle
        have hbytes : ((sought s.file offset).read size.toNat).1 = slice s.file.data offset.toNat size.toNat := by
          rw [hs]
          exact (OpenFile.seek_read_seek hseek hle size.toNat).1
        rw [preadFile_eq K hseek _ hs, preadReads, positional_reads_iff K hseek hpos hbytes]
        exact ⟨fun h => ⟨rfl, hpos, .inl hle, h⟩, fun h => h.2.2.2⟩
      · -- the seek fails, and the read is one at the current offset
        have hs := sought_invalid hseek (fun h => hle (by rw [toInt_of_nonneg hpos] at h; omega))
        have hpast : slice s.file.data offset.toNat size.toNat = [] := by
          have := s.file.data_le
          exact slice_eq_nil.mpr (.inr (by omega))
        have hrest : s.file.rest = s.file.data.length - s.file.pos := if_pos hseek
        rw [preadFile_eq K hseek s.file.pos_le hs, preadReads, hs]
        constructor
        · intro h
          have hv := (h.read hseek hpos).1
          rw [← length_slice, hpast, List.length_nil] at hv
          -- a read that moves nothing had nothing to move
          have hnil : size = 0 ∨ s.file.data.length ≤ s.file.pos := by
            obtain ⟨n, hm, -, -, hn, -, hans⟩ | ⟨e, -, hep, helt, -, hans⟩ :=
              K.reads_cases buf size s.w.p.as.prot s.file
            · rw [hans, (not_isErr_ofNat hn).1] at hv
              subst hv
              refine (K.moves_zero hm).imp_right fun h0 => ?_
              omega
            · rw [hans, (not_isErr_ofNat (by omega)).1] at hv
              omega
          refine ⟨rfl, hpos, .inr hnil, ?_⟩
          have hbytes : (s.file.read size.toNat).1 = slice s.file.data offset.toNat size.toNat := by
            rw [hpast, OpenFile.read_seekable hseek]
            refine slice_eq_nil.mpr (hnil.imp_left fun h0 => ?_)
            rw [h0]
            rfl
          exact (positional_reads_iff K hseek hpos hbytes).mp h
        · rintro ⟨-, -, hnil, hall⟩
          have hbytes : (s.file.read size.toNat).1 = slice s.file.data offset.toNat size.toNat := by
            rw [hpast, OpenFile.read_seekable hseek]
            refine slice_eq_nil.mpr ((hnil.resolve_left hle).imp_left fun h0 => ?_)
            rw [h0]
            rfl
          exact (positional_reads_iff K hseek hpos hbytes).mpr hall

end

/-- A host that reads all at once or fails. -/
def ReadHost.plain : ReadHost where
  moves buf size prot rest :=
    if ∀ k : Nat, k < min size.toNat (min rest MAX_RW_COUNT) →
        prot (buf + BitVec.ofNat 64 k) &&& LFI_PROT_WRITE ≠ 0 then
      .ok (min size.toNat (min rest MAX_RW_COUNT))
    else .error 14
  moves_le {_ size _ rest n} h := by
    split at h
    · obtain rfl := Except.ok.inj h
      omega
    · cases h
  moves_open h := by
    split at h
    · obtain rfl := Except.ok.inj h
      assumption
    · cases h
  moves_zero {_ size _ rest} h := by
    split at h
    · have h := Except.ok.inj h
      have hmax : 0 < MAX_RW_COUNT := by decide
      rcases Nat.eq_zero_or_pos size.toNat with h0 | hpos
      · exact .inl (BitVec.eq_of_toNat_eq h0)
      · exact .inr (by omega)
    · cases h
  errno h := by
    split at h
    · cases h
    · obtain rfl := Except.error.inj h
      decide

/-- A process with one open file, as descriptor `0`, and memory that is open. -/
def World.oneFile : World .ofRanges Arch.x64.machine :=
  let as := { LFIAddrSpace.fresh .plain with prot := fun _ => LFI_PROT_READ ||| LFI_PROT_WRITE }
  let w := World.ofThread (procnewfile as 10000)
  let o := w.fds.openat w.files .ok
  { w with fds := o.2.1, files := o.2.2 }

/-- Six bytes that are open at the third. -/
def sixBytes (seekable : Bool) : OpenFile where
  data := [1, 2, 3, 4, 5, 6]
  pos := 2
  seekable
  append := false
  limit := 2 ^ 63 - 1
  pos_le := by decide
  data_le := by decide
  limit_lt := by decide

/-- Two bytes from the fourth on. -/
theorem pread64_positional_sixBytes :
    ∃ v, ((sysPread64At .plain 0 LFIAddrSpaceInfo.plain.minaddr 2 3).run
        ⟨World.oneFile, sixBytes true⟩).val = .ok v ∧
      Positional (L := .ofRanges) ⟨World.oneFile, sixBytes true⟩
        ((sysPread64At .plain 0 LFIAddrSpaceInfo.plain.minaddr 2 3).run ⟨World.oneFile, sixBytes true⟩).st
        LFIAddrSpaceInfo.plain.minaddr 2 3 v :=
  (pread64_positional_iff .plain (s := ⟨World.oneFile, sixBytes true⟩) (by decide) (by decide) (by decide)).mpr
    ⟨rfl, by decide, .inl (by decide), .inl (by decide +kernel)⟩

/-- At offset `-1` the four bytes at the current offset are read, and from a pipe the six that are pending are
taken. -/
theorem pread64_not_positional :
    (((sysPread64At .plain 0 LFIAddrSpaceInfo.plain.minaddr 8 (-1)).run
        ⟨World.oneFile, sixBytes true⟩).val = .ok 4 ∧
      ¬ ∃ v, ((sysPread64At .plain 0 LFIAddrSpaceInfo.plain.minaddr 8 (-1)).run
          ⟨World.oneFile, sixBytes true⟩).val = .ok v ∧
        Positional (L := .ofRanges) ⟨World.oneFile, sixBytes true⟩
          ((sysPread64At .plain 0 LFIAddrSpaceInfo.plain.minaddr 8 (-1)).run ⟨World.oneFile, sixBytes true⟩).st
          LFIAddrSpaceInfo.plain.minaddr 8 (-1) v) ∧
    ((sysPread64At .plain 0 LFIAddrSpaceInfo.plain.minaddr 8 0).run
      ⟨World.oneFile, sixBytes false⟩).val = .ok 6 ∧
    ((sysPread64At .plain 0 LFIAddrSpaceInfo.plain.minaddr 8 0).run
      ⟨World.oneFile, sixBytes false⟩).st.file.data = [] := by
  have hval : ((sysPread64At .plain 0 LFIAddrSpaceInfo.plain.minaddr 8 (-1)).run
      ⟨World.oneFile, sixBytes true⟩).val = .ok 4 := by
    decide +kernel
  refine ⟨⟨hval, ?_⟩, by decide +kernel, by decide +kernel⟩
  rintro ⟨v, hv, hpos⟩
  rw [hval] at hv
  cases hv
  exact absurd (hpos.refused (.inr (by decide))).1 (by unfold IsErr; decide)

section
variable {L : LibMMap} {M : Machine} (K : ReadHost)

/-! ## The host that the file stands for -/

/-- The answers of the host to the four calls on a file, the first of which is call `n`. -/
def preadHost (f : OpenFile) (n : Nat) (buf size offset : Word) (prot : Word → CInt) : HostOs where
  ret k :=
    if k = n then (f.seek 0 .current).1.toOption
    else if k = n + 1 then ((f.seek 0 .current).2.seek offset.toInt .start).1.toOption
    else if k = n + 2 then (K.moves buf size prot (sought f offset).rest).toOption
    else ((preadReads K buf size offset prot f).2.seek (seekAnswer (f.seek 0 .current).1).toInt .start).1.toOption
  errno k :=
    if k = n + 2 then
      match K.moves buf size prot (sought f offset).rest with
      | .ok _ => 1
      | .error e => e
    else if f.seekable then TUX_EINVAL else 29
  data _ k :=
    match (preadReads K buf size offset prot f).1 with
    | .ok bytes => bytes.getD k.toNat 0
    | .error _ => 0
  isdir _ := false
  newfile _ := .nofile
  ret_lt := by
    intro k r h
    split_ifs at h
    · exact OpenFile.seek_lt h
    · exact OpenFile.seek_lt h
    · cases hm : K.moves buf size prot (sought f offset).rest with
      | ok m =>
        rw [hm] at h
        cases h
        exact lt_of_le_of_lt (K.moves_le hm).2.2 (by decide)
      | error e =>
        rw [hm] at h
        cases h
    · exact OpenFile.seek_lt h
  errno_pos k := by
    split
    · split
      · decide
      · rename_i hm
        exact (K.errno hm).1
    · split <;> decide
  errno_lt k := by
    split
    · split
      · decide
      · rename_i hm
        exact (K.errno hm).2
    · split <;> decide

/-- The third call of such a host is the read. -/
lemma preadHost_read (f : OpenFile) (n : Nat) (buf size offset : Word) (prot : Word → CInt) :
    (preadHost K f n buf size offset prot).ret (n + 2) =
      (K.moves buf size prot (sought f offset).rest).toOption := by
  have h0 : n + 2 ≠ n := by omega
  have h1 : n + 2 ≠ n + 1 := by omega
  simp only [preadHost, if_neg h0, if_neg h1, if_true]

/-- What the host's `read` returns. -/
lemma preadHost_answer (f : OpenFile) (n : Nat) (buf size offset : Word) (prot : Word → CInt) :
    sizeAnswer (preadHost K f n buf size offset prot) (n + 2) =
      readAnswer (preadReads K buf size offset prot f).1 := by
  rw [sizeAnswer, preadHost_read, preadReads, ReadHost.reads]
  cases hm : K.moves buf size prot (sought f offset).rest with
  | ok m =>
    have hle := (K.moves_le hm).2.1
    dsimp only [Except.toOption, readAnswer]
    rw [OpenFile.read_length, Nat.min_eq_left hle]
  | error e =>
    dsimp only [Except.toOption, readAnswer, preadHost]
    rw [if_pos rfl, hm]

/-- What the host's `read` leaves. -/
lemma preadHost_filled (f : OpenFile) (w : World L M) (buf size offset : Word) (prot : Word → CInt) :
    (w.called.called.filled (preadHost K f w.ncall buf size offset prot) buf size).p =
      (w.took buf (preadReads K buf size offset prot f).1).p := by
  have hn : w.called.called.ncall = w.ncall + 2 := rfl
  rw [World.filled, hn, preadHost_read, preadReads, ReadHost.reads]
  cases hm : K.moves buf size prot (sought f offset).rest with
  | error e => rfl
  | ok m =>
    obtain ⟨hsize, hrest, -⟩ := K.moves_le hm
    simp only [Except.toOption, World.took, World.stored, World.fill, preadHost, preadReads, ReadHost.reads, hm,
      OpenFile.read_length, Nat.min_eq_left hsize, Nat.min_eq_left hrest]
    rfl

/-- The system call on such a host returns the same, goes through the same events, and leaves the same
thread. -/
theorem sysPread64At_host (s : Opened L M) (fd : CInt) (bufp size offset : Word) :
    let r := (sysPread64 (preadHost K s.file s.w.ncall bufp size offset s.w.p.as.prot) fd bufp size).run s.w
    let r' := (sysPread64At K fd bufp size offset).run s
    r.val = r'.val ∧ r.st.p = r'.st.w.p ∧ r.out = r'.out := by
  intro r r'
  have hr : r = (sysPread64 (preadHost K s.file s.w.ncall bufp size offset s.w.p.as.prot) fd bufp size).run s.w :=
    rfl
  have hr' : r' = (sysPread64At K fd bufp size offset).run s := rfl
  have hasked : (onWorld (procbuf bufp size) : FileSys L M _).run s =
      ⟨.ok (lfiAsFmptr s.w.info bufp), s, [.ask ⟨bufp, size.toNat⟩]⟩ := by
    rw [onWorld, Exec.zoom, Exec.mk_run, procbuf_run]
  rw [sysPread64, withHandler_run, withHandler_run, World.handles, World.handles] at hr
  rw [sysPread64At, Exec.bind_run, Exec.get_run, Exec.andThen_ok_nil] at hr'
  cases hf : s.w.fdfile fd with
  | none =>
    simp only [hf, Bool.false_eq_true, if_false, if_true] at hr
    rw [hf] at hr'
    dsimp only at hr'
    rw [Exec.pure_run] at hr'
    rw [hr, hr']
    exact ⟨rfl, rfl, rfl⟩
  | some f =>
    simp only [hf, reduceCtorEq, if_false] at hr
    rw [hf] at hr'
    dsimp only at hr'
    rw [Exec.ite_run] at hr'
    cases hread : f.has .read with
    | false =>
      rw [if_neg (by rw [hread]; exact Bool.false_ne_true)] at hr
      rw [if_pos (.inl (by rw [hread]; exact Bool.false_ne_true)), Exec.pure_run] at hr'
      rw [hr, hr']
      exact ⟨rfl, rfl, rfl⟩
    | true =>
      rw [if_pos hread] at hr
      cases hlseek : f.has .lseek with
      | false =>
        rw [if_neg (by rw [hlseek]; exact Bool.false_ne_true)] at hr
        rw [if_pos (.inr (by rw [hlseek]; exact Bool.false_ne_true)), Exec.pure_run] at hr'
        rw [hr, hr']
        exact ⟨rfl, rfl, rfl⟩
      | true =>
        rw [if_pos hlseek, Exec.bind_run, procbuf_run, Exec.andThen_ok] at hr
        rw [if_neg (by simp [hread, hlseek]), Exec.bind_run, hasked, Exec.andThen_ok] at hr'
        cases hbuf : lfiAsFmptr s.w.info bufp with
        | none =>
          rw [hbuf] at hr hr'
          dsimp only at hr hr'
          rw [Exec.pure_run] at hr hr'
          rw [hr, hr']
          exact ⟨rfl, rfl, rfl⟩
        | some buf =>
          have heq : bufp = buf := by
            unfold lfiAsFmptr at hbuf
            split at hbuf
            · exact Option.some.inj hbuf
            · cases hbuf
          subst heq
          rw [hbuf] at hr hr'
          dsimp only at hr hr'
          rw [Exec.bind_run, hostSize_run, Exec.andThen_ok_nil, Exec.bind_run, hostSize_run,
            Exec.andThen_ok_nil, Exec.bind_run, hostFill_run, Exec.andThen_ok, Exec.bind_run, hostSize_run,
            Exec.andThen_ok_nil, Exec.pure_run] at hr
          rw [preadCalls_run] at hr'
          have hn : s.w.called.called.ncall = s.w.ncall + 2 := rfl
          rw [hr, hr', hn, preadHost_answer]
          refine ⟨rfl, ?_, rfl⟩
          exact preadHost_filled K s.file s.w bufp size offset s.w.p.as.prot

end
end Libtux
