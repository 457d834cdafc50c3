import Libtux.Lib.Bytes

/-!
# ELF images

Model of `src/buf.h` and of the headers of `src/elfload.h`. A buffer is what it is in the source, a
pointer and a size: `data` gives the byte at every offset from the pointer, of which the first `size`
are the image and the rest whatever lies around it in the host's memory, so that a read past the image is
a value of the model too. Of the bytes around it `readable` says which the host can read at all; to read
another one is a fault. `bufread` is the number of bytes that are copied; the bytes themselves are `data`
from the offset on.
-/

namespace Libtux.Elf
open Lib

/-- A pointer to bytes and their number (C `buf_t`), and what the host has around them: nothing, unless it
is said. -/
structure Buf where
  data : Word → Byte
  size : Word
  readable : Word → Bool := fun k => decide (k < size)
  inside : ∀ k, k < size → readable k = true := by exact fun _ h => decide_eq_true h

/-- The `n` bytes from `offset` on can be read. -/
def Buf.Readable (buf : Buf) (offset n : Word) : Prop :=
  ∀ k : Nat, k < n.toNat → buf.readable (offset + BitVec.ofNat 64 k) = true

instance (buf : Buf) (offset n : Word) : Decidable (buf.Readable offset n) :=
  Nat.decidableBallLT n.toNat fun k _ => buf.readable (offset + BitVec.ofNat 64 k) = true

/-- The number of bytes `bufread` copies and returns. Both the sum and the difference wrap. -/
def bufread (buf : Buf) (count offset : Word) : Word :=
  if offset + count > buf.size then buf.size - offset else count

/-- A read that stays in the image copies what it is asked for. -/
lemma bufread_of_le {buf : Buf} {count offset : Word}
    (h : offset.toNat + count.toNat ≤ buf.size.toNat) : bufread buf count offset = count := by
  have := buf.size.isLt
  unfold bufread
  rw [if_neg]
  bv_omega

/-- A read whose end does not wrap copies what it is asked for only when it stays in the image. -/
lemma le_of_bufread_eq {buf : Buf} {count offset : Word}
    (hw : offset.toNat + count.toNat < 2 ^ 64) (h : bufread buf count offset = count) :
    offset.toNat + count.toNat ≤ buf.size.toNat := by
  unfold bufread at h
  split at h
  · bv_omega
  · bv_omega

def ELF_MAGIC : BitVec 32 := 0x464C457F
def ELFCLASS64 : Byte := 2
def EV_CURRENT : BitVec 32 := 1
def ET_EXEC : BitVec 16 := 2
def ET_DYN : BitVec 16 := 3
def PT_LOAD : BitVec 32 := 1
def PF_X : CInt := 1
def PF_W : CInt := 2
def PF_R : CInt := 4

/-- The fields of the file header that are read (C `struct FileHeader`). -/
structure FileHeader where
  magic : BitVec 32
  width : Byte
  type : BitVec 16
  version : BitVec 32
  entry : Word
  phoff : Word
  phentsize : BitVec 16
  phnum : BitVec 16

/-- The size of a file header in the file. -/
def FileHeader.bytes : Word := 64

/-- The file header in the first 64 bytes. -/
def FileHeader.read (f : Word → Byte) : FileHeader where
  magic := le f 0 4 32
  width := f 4
  type := le f 16 2 16
  version := le f 20 4 32
  entry := le f 24 8 64
  phoff := le f 32 8 64
  phentsize := le f 54 2 16
  phnum := le f 56 2 16

/-- The fields of a program header that are read (C `struct ProgHeader`). -/
structure ProgHeader where
  type : BitVec 32
  flags : CInt
  offset : Word
  vaddr : Word
  filesz : Word
  memsz : Word
  align : Word
  deriving DecidableEq

/-- The size of a program header in the file. -/
def ProgHeader.bytes : Word := 56

/-- The program header at `p`. -/
def ProgHeader.read (f : Word → Byte) (p : Word) : ProgHeader where
  type := le f p 4 32
  flags := le f (p + 4) 4 32
  offset := le f (p + 8) 8 64
  vaddr := le f (p + 16) 8 64
  filesz := le f (p + 32) 8 64
  memsz := le f (p + 40) 8 64
  align := le f (p + 48) 8 64

/-- The file header of an image. -/
def Buf.ehdr (buf : Buf) : FileHeader := .read buf.data

/-- The size of the program headers of an image. -/
def Buf.phbytes (buf : Buf) : Word := ProgHeader.bytes * buf.ehdr.phnum.setWidth 64

/-- The size of the header table does not wrap. -/
lemma Buf.phbytes_toNat (buf : Buf) : buf.phbytes.toNat = 56 * buf.ehdr.phnum.toNat := by
  have := buf.ehdr.phnum.isLt
  rw [Buf.phbytes, BitVec.toNat_mul, BitVec.toNat_setWidth]
  simp only [ProgHeader.bytes]
  simp
  omega

/-- The program headers of an image: `phnum` of them, one after the other from `phoff` on. -/
def Buf.phdrs (buf : Buf) : List ProgHeader :=
  (List.range buf.ehdr.phnum.toNat).map fun i =>
    .read buf.data (buf.ehdr.phoff + ProgHeader.bytes * BitVec.ofNat 64 i)

/-! ## Writing an image -/

/-- The `n` little-endian bytes of a number. -/
def toLe : Nat → Nat → List Byte
  | 0, _ => []
  | n + 1, x => BitVec.ofNat 8 x :: toLe n (x / 256)

/-- The bytes of a program header; the fields that are not read are `0`. -/
def ProgHeader.write (p : ProgHeader) : List Byte :=
  toLe 4 p.type.toNat ++ toLe 4 p.flags.toNat ++ toLe 8 p.offset.toNat ++ toLe 8 p.vaddr.toNat ++
    toLe 8 0 ++ toLe 8 p.filesz.toNat ++ toLe 8 p.memsz.toNat ++ toLe 8 p.align.toNat

/-- An image with these program headers right after the file header, and then `rest`. -/
def Buf.write (type : BitVec 16) (entry : Word) (ps : List ProgHeader) (rest : List Byte) : Buf :=
  let bytes := toLe 4 ELF_MAGIC.toNat ++ [ELFCLASS64] ++ toLe 11 0 ++ toLe 2 type.toNat ++ toLe 2 0 ++
    toLe 4 EV_CURRENT.toNat ++ toLe 8 entry.toNat ++ toLe 8 64 ++ toLe 8 0 ++ toLe 4 0 ++ toLe 2 64 ++
    toLe 2 56 ++ toLe 2 ps.length ++ toLe 6 0 ++ ps.flatMap ProgHeader.write ++ rest
  { data := fun k => bytes.getD k.toNat 0, size := BitVec.ofNat 64 bytes.length }

end Libtux.Elf
