import Libtux.Lib.Word
import Mathlib.Tactic

/-!
# Open files

An open file is what it holds with the offset that everyone who has it open shares. A seek, a read and a
write are one step each. `slice` is what a positional read returns, which takes no notice of the offset.

Reading at a place by seeking to it, reading, and seeking back is `OpenFile.seek_read_seek`.
-/

namespace Libtux.Lib

/-- What the offset of a seek counts from. -/
inductive Whence where
  | start
  | current
  | stop
  deriving DecidableEq

/-- Why a seek fails. -/
inductive SeekError where
  | unseekable
  | invalid
  deriving DecidableEq

/-- The bytes of `data` from `pos` on, and `size` at most. -/
def slice (data : List Byte) (pos size : Nat) : List Byte := (data.drop pos).take size

/-- A slice is cut at the end of the data. -/
@[simp] lemma length_slice (data : List Byte) (pos size : Nat) :
    (slice data pos size).length = min size (data.length - pos) := by
  rw [slice, List.length_take, List.length_drop]

/-- A slice is empty if it is asked to be, or starts behind the data. -/
lemma slice_eq_nil {data : List Byte} {pos size : Nat} :
    slice data pos size = [] ↔ size = 0 ∨ data.length ≤ pos := by
  rw [← List.length_eq_zero_iff, length_slice]
  omega

/-- An open file. What a file holds that is not seekable is the data pending in it. -/
structure OpenFile where
  data : List Byte
  pos : Nat
  seekable : Bool
  /-- Every write goes to the end. -/
  append : Bool
  /-- The largest offset. -/
  limit : Nat
  pos_le : pos ≤ limit
  data_le : data.length ≤ limit
  limit_lt : limit < 2 ^ 63

namespace OpenFile

/-- The file with another offset. -/
def moveTo (f : OpenFile) (pos : Nat) (h : pos ≤ f.limit) : OpenFile := { f with pos, pos_le := h }

/-- The position is the new one, -/
@[simp] lemma moveTo_pos (f : OpenFile) (p : Nat) (h : p ≤ f.limit) : (f.moveTo p h).pos = p := rfl

/-- the data are the same, -/
@[simp] lemma moveTo_data (f : OpenFile) (p : Nat) (h : p ≤ f.limit) : (f.moveTo p h).data = f.data := rfl

/-- the kind of the file too, -/
@[simp] lemma moveTo_seekable (f : OpenFile) (p : Nat) (h : p ≤ f.limit) :
    (f.moveTo p h).seekable = f.seekable := rfl

/-- and how long it may become. -/
@[simp] lemma moveTo_limit (f : OpenFile) (p : Nat) (h : p ≤ f.limit) : (f.moveTo p h).limit = f.limit := rfl

/-- The last of two moves counts. -/
@[simp] lemma moveTo_moveTo (f : OpenFile) (p q : Nat) (h : p ≤ f.limit) (h' : q ≤ f.limit) :
    (f.moveTo p h).moveTo q h' = f.moveTo q h' := rfl

/-- A move to where the file is. -/
lemma moveTo_self (f : OpenFile) : f.moveTo f.pos f.pos_le = f := rfl

/-- The same, by an equation. -/
lemma moveTo_of_eq (f : OpenFile) {p : Nat} (h : p ≤ f.limit) (hp : p = f.pos) : f.moveTo p h = f := by
  subst hp
  exact f.moveTo_self

/-- What a seek counts from. -/
def origin (f : OpenFile) : Whence → Nat
  | .start => 0
  | .current => f.pos
  | .stop => f.data.length

/-- A seek. -/
def seek (f : OpenFile) (off : Int) (whence : Whence) : Except SeekError Nat × OpenFile :=
  if f.seekable then
    if h : 0 ≤ f.origin whence + off ∧ f.origin whence + off ≤ f.limit then
      (.ok (f.origin whence + off).toNat, f.moveTo (f.origin whence + off).toNat (by omega))
    else (.error .invalid, f)
  else (.error .unseekable, f)

/-- A read of up to `size` bytes. Reading from a file that is not seekable takes the bytes out of it. -/
def read (f : OpenFile) (size : Nat) : List Byte × OpenFile :=
  if f.seekable then
    (slice f.data f.pos size, f.moveTo (f.pos + (slice f.data f.pos size).length) (by
      have := f.pos_le
      have := f.data_le
      rw [length_slice]
      omega))
  else (f.data.take size, { f with
    data := f.data.drop size
    data_le := le_trans (by rw [List.length_drop]; exact Nat.sub_le _ _) f.data_le })

/-- How many bytes there are to read. -/
def rest (f : OpenFile) : Nat := if f.seekable then f.data.length - f.pos else f.data.length

/-- Where a write starts. -/
def writePos (f : OpenFile) : Nat := if f.append then f.data.length else f.pos

/-- How many bytes of a write fit. -/
def room (f : OpenFile) (bytes : List Byte) : Nat := min bytes.length (f.limit - f.writePos)

/-- What the file holds after a write of the first `n` bytes. The gap beyond its end is filled with
zeros. -/
def patched (f : OpenFile) (bytes : List Byte) (n : Nat) : List Byte :=
  (f.data.take f.writePos ++ List.replicate (f.writePos - f.data.length) 0) ++
    (bytes.take n ++ f.data.drop (f.writePos + n))

/-- A write starts within the limit. -/
lemma writePos_le (f : OpenFile) : f.writePos ≤ f.limit := by
  unfold writePos
  split
  · exact f.data_le
  · exact f.pos_le

/-- A write makes the data longer when it passes their end. -/
lemma length_patched (f : OpenFile) (bytes : List Byte) :
    (f.patched bytes (f.room bytes)).length = max f.data.length (f.writePos + f.room bytes) := by
  have hroom : f.room bytes ≤ bytes.length := min_le_left _ _
  unfold patched
  simp only [List.length_append, List.length_take, List.length_replicate, List.length_drop]
  omega

/-- A write, with the number of bytes written. A write that nothing is left of changes nothing, and what is
written to a file that is not seekable goes elsewhere. -/
def write (f : OpenFile) (bytes : List Byte) : Nat × OpenFile :=
  if f.seekable then
    if f.room bytes = 0 then (0, f)
    else (f.room bytes, { f with
      data := f.patched bytes (f.room bytes)
      pos := f.writePos + f.room bytes
      pos_le := by
        have := f.writePos_le
        unfold room
        omega
      data_le := by
        have := f.writePos_le
        have := f.data_le
        rw [length_patched]
        unfold room
        omega })
  else (bytes.length, f)

/-! ## Seeks -/

/-- A seek from the start, -/
lemma seek_start {f : OpenFile} (h : f.seekable = true) {off : Nat} (hle : off ≤ f.limit) :
    f.seek off .start = (.ok off, f.moveTo off hle) := by
  have hz : ((f.origin .start : Nat) : Int) + off = off := by
    rw [origin, Nat.cast_zero, zero_add]
  rw [seek, if_pos h, dif_pos (by rw [hz]; omega)]
  simp only [hz, Int.toNat_natCast]

/-- and one that asks where the file is. -/
lemma seek_current {f : OpenFile} (h : f.seekable = true) : f.seek 0 .current = (.ok f.pos, f) := by
  have hz : ((f.origin .current : Nat) : Int) + 0 = f.pos := by
    rw [origin, add_zero]
  have := f.pos_le
  rw [seek, if_pos h, dif_pos (by rw [hz]; omega)]
  simp only [hz, Int.toNat_natCast]
  rw [f.moveTo_self]

/-- A seek to a place that the file cannot have leaves the offset where it is. -/
lemma seek_start_invalid {f : OpenFile} (h : f.seekable = true) {off : Int}
    (hoff : ¬ (0 ≤ off ∧ off ≤ f.limit)) : f.seek off .start = (.error .invalid, f) := by
  have hz : ((f.origin .start : Nat) : Int) + off = off := by
    rw [origin, Nat.cast_zero, zero_add]
  rw [seek, if_pos h, dif_neg (by rwa [hz])]

/-- A position is a nonnegative `off_t`. -/
lemma seek_lt {f : OpenFile} {off : Int} {whence : Whence} {p : Nat}
    (h : (f.seek off whence).1.toOption = some p) : p < 2 ^ 63 := by
  have := f.limit_lt
  unfold seek at h
  split at h
  · split at h
    next hle =>
      cases h
      omega
    · cases h
  · cases h

/-! ## Reads -/

/-- A file with positions is read where it is. -/
lemma read_seekable {f : OpenFile} (h : f.seekable = true) (size : Nat) :
    (f.read size).1 = slice f.data f.pos size := by
  rw [read, if_pos h]

/-- A read gets what is left, or what it asked for. -/
lemma read_length (f : OpenFile) (size : Nat) : (f.read size).1.length = min size f.rest := by
  unfold read rest
  split
  · rw [length_slice]
  · rw [List.length_take]

/-- To ask for more than there is makes no difference. -/
lemma read_min_rest (f : OpenFile) (size : Nat) : f.read (min size f.rest) = f.read size := by
  cases h : f.seekable with
  | true =>
    have hs : slice f.data f.pos (min size f.rest) = slice f.data f.pos size := by
      rw [rest, if_pos h, slice, slice, ← List.length_drop, ← List.take_take, List.take_length]
    simp only [read, h, if_true, hs]
  | false =>
    have hrest : f.rest = f.data.length := by rw [rest, h, if_neg Bool.false_ne_true]
    have htake : f.data.take (min size f.data.length) = f.data.take size := by
      rw [← List.take_take, List.take_length]
    have hdrop : f.data.drop (min size f.data.length) = f.data.drop size := by
      rcases Nat.le_total size f.data.length with hle | hle
      · rw [Nat.min_eq_left hle]
      · rw [Nat.min_eq_right hle, List.drop_length, List.drop_eq_nil_of_le hle]
    simp only [read, h, Bool.false_eq_true, if_false, hrest, htake, hdrop]

/-- A read of a seekable file moves the offset and does nothing else. -/
lemma read_moves {f : OpenFile} (h : f.seekable = true) (size : Nat) :
    ∃ p hp, (f.read size).2 = f.moveTo p hp ∧ p = f.pos + (slice f.data f.pos size).length := by
  rw [read, if_pos h]
  exact ⟨_, _, rfl, rfl⟩

/-- To seek, read and seek back is to read without moving. -/
lemma seek_read_seek {f : OpenFile} (h : f.seekable = true) {off : Nat} (hle : off ≤ f.limit) (size : Nat) :
    ((f.moveTo off hle).read size).1 = slice f.data off size ∧
      (((f.moveTo off hle).read size).2.seek f.pos .start).2 = f := by
  have hs : (f.moveTo off hle).seekable = true := h
  refine ⟨read_seekable hs size, ?_⟩
  obtain ⟨p, hp, hr, -⟩ := read_moves hs size
  rw [hr, seek_start (f := (f.moveTo off hle).moveTo p hp) h f.pos_le]
  exact f.moveTo_self

/-! ## What no call changes -/

/-- A seek leaves the kind of the file and its limit, -/
lemma seek_kind (f : OpenFile) (off : Int) (whence : Whence) :
    (f.seek off whence).2.seekable = f.seekable ∧ (f.seek off whence).2.limit = f.limit := by
  unfold seek
  split
  · split
    · exact ⟨rfl, rfl⟩
    · exact ⟨rfl, rfl⟩
  · exact ⟨rfl, rfl⟩

/-- and so does a read -/
lemma read_kind (f : OpenFile) (size : Nat) :
    (f.read size).2.seekable = f.seekable ∧ (f.read size).2.limit = f.limit := by
  unfold read
  split
  · exact ⟨rfl, rfl⟩
  · exact ⟨rfl, rfl⟩

/-- or a write. -/
lemma write_kind (f : OpenFile) (bytes : List Byte) :
    (f.write bytes).2.seekable = f.seekable ∧ (f.write bytes).2.limit = f.limit := by
  unfold write
  split
  · split
    · exact ⟨rfl, rfl⟩
    · exact ⟨rfl, rfl⟩
  · exact ⟨rfl, rfl⟩

end OpenFile
end Libtux.Lib
