import Libtux.Align
import Libtux.Lib.Layout
import Libtux.Lib.Run
import Libtux.Pal.Vm
import Mathlib.Data.List.GetD

/-!
# Directory entries

`host_getdents64` (`src/host/posix/dir.c`) stores a record for each entry that `readdir` has, until the buffer
of `count` bytes is full. A record is as long as its name needs, but the loop clears a whole `struct Dirent` of
280 bytes for it before, and it asks only whether the record starts inside the buffer.

The buffer should be all that is written to, and what is returned should be read back, record by record, as the
entries that were consumed (`GetdentsContract`). It is when every record that is started has 280 bytes, and the
directory could be opened at all: otherwise the error number is returned as it is, as a number of bytes
(`getdents_contract_iff`).
-/

namespace Libtux
open Lib

/-- What `readdir` returns (C `struct dirent`). -/
structure HostDirent where
  ino : Word
  type : Byte
  name : List Byte
  nonzero : ∀ b ∈ name, b ≠ 0

/-- The members of `struct Dirent` before the name. -/
inductive DirentField where
  | ino
  | off
  | reclen
  | type
  deriving DecidableEq

/-- The members of a record, in order. -/
def direntLayout : List (Member DirentField) :=
  [⟨some .ino, 8⟩, ⟨some .off, 8⟩, ⟨some .reclen, 2⟩, ⟨some .type, 1⟩]

/-- The offset of `d_name`. -/
def direntName : Nat := 19

/-- The size of `d_name`. -/
def sizeofName : Nat := 256

/-- The size of `struct Dirent`. -/
def sizeofDirent : Nat := 280

namespace HostDirent

/-- The length of the name, as far as it is kept. -/
def len (ent : HostDirent) : Nat :=
  if ent.name.length ≥ sizeofName then sizeofName - 1 else ent.name.length

/-- `d_reclen`. -/
def reclen (ent : HostDirent) : BitVec 16 :=
  (ceilp (8 + 8 + 2 + 1 + BitVec.ofNat 64 ent.len + 1) 8).setWidth 16

/-- What the loop stores in each of them. -/
def member (ent : HostDirent) : DirentField → Word
  | .ino => ent.ino
  | .off => -1
  | .reclen => ent.reclen.setWidth 64
  | .type => ent.type.setWidth 64

/-- The members in the order in which the loop assigns to them. -/
def assigned : List DirentField := [.ino, .off, .type, .reclen]

/-- The record of an entry, at `p`: `memset`, the members, and `strncpy`. -/
def put (ent : HostDirent) (p : Word) (mem : Word → Byte) : Word → Byte :=
  let mem := splice mem p (BitVec.ofNat 64 sizeofDirent) fun _ => 0
  let mem := putMembers direntLayout p ent.member mem assigned
  splice mem (p + BitVec.ofNat 64 direntName) (BitVec.ofNat 64 ent.len) fun k => ent.name.getD k.toNat 0

/-- The ranges of the buffer that are written to for an entry at `o`. -/
def stores (ent : HostDirent) (o : Nat) : List (Nat × Nat) :=
  (o, sizeofDirent) :: assigned.map (fun i => (o + (slot direntLayout i).1, (slot direntLayout i).2)) ++
    [(o + direntName, ent.len)]

end HostDirent

/-- What is left of a `host_getdents64`: the entries it consumed, and the ranges of the buffer it wrote to. -/
structure Getdents where
  mem : Word → Byte
  ret : Word
  consumed : List HostDirent
  stores : List (Nat × Nat)

/-- The loop. `readdir` returns the entries of the list and then null. -/
def getdentsLoop (dirp count : Word) : List HostDirent → (Word → Byte) → Word → Getdents
  | [], mem, written => ⟨mem, written, [], []⟩
  | ent :: ents, mem, written =>
    if written < count then
      let g := getdentsLoop dirp count ents (ent.put (dirp + written) mem) (written + ent.reclen.setWidth 64)
      { g with consumed := ent :: g.consumed, stores := ent.stores written.toNat ++ g.stores }
    else ⟨mem, written, [], []⟩

/-- `fdopendir`. -/
inductive Opendir where
  | failed (errno : Nat) (pos : 0 < errno) (lt : errno < 4096)
  | opened (ents : List HostDirent)

/-- `host_getdents64` of the posix host. `errno` is never negative, so the last test never fails. -/
def hostGetdents64 (mem : Word → Byte) (dirp count : Word) : Opendir → Getdents
  | .failed errno _ _ => ⟨mem, BitVec.ofInt 64 (tuxerr errno), [], []⟩
  | .opened ents => getdentsLoop dirp count ents mem 0

/-- The record at `o` in the buffer stands for the entry, and `o'` is where the next one starts. -/
structure IsDirent (mem : Word → Byte) (dirp : Word) (o : Nat) (ent : HostDirent) (o' : Nat) : Prop where
  next : o' = o + leBytes mem (dirp + BitVec.ofNat 64 (o + 16)) 2
  aligned : 8 ∣ leBytes mem (dirp + BitVec.ofNat 64 (o + 16)) 2
  ino : le mem (dirp + BitVec.ofNat 64 o) 8 64 = ent.ino
  name : CString mem (dirp + BitVec.ofNat 64 (o + 19)) (ent.name.take 255)
  inside : o + 19 + (ent.name.take 255).length < o'

/-- `host_getdents64` writes to the buffer only, and what it returns are the entries it consumed. -/
def GetdentsContract (mem : Word → Byte) (dirp count : Word) (d : Opendir) : Prop :=
  let g := hostGetdents64 mem dirp count d
  (∀ s ∈ g.stores, s.1 + s.2 ≤ count.toNat) ∧ Run (IsDirent g.mem dirp) 0 g.consumed g.ret.toNat

/-- Where the record of an entry starts. -/
def recordStart (ents : List HostDirent) (i : Nat) : Nat := ((ents.take i).map (·.reclen.toNat)).sum

/-! ## One record -/

namespace HostDirent
variable {ent : HostDirent} {p : Word} {mem : Word → Byte}

/-- A name is cut after 255 bytes, -/
lemma len_eq (ent : HostDirent) : ent.len = (ent.name.take 255).length := by
  rw [len, sizeofName, List.length_take]
  split <;> omega

/-- so its length fits a byte. -/
lemma len_lt (ent : HostDirent) : ent.len < 256 := by
  rw [len_eq, List.length_take]
  omega

/-- A record is a multiple of eight bytes long, has place for the name, and is not longer than the structure. -/
lemma reclen_spec (ent : HostDirent) :
    8 ∣ ent.reclen.toNat ∧ direntName + ent.len < ent.reclen.toNat ∧ ent.reclen.toNat ≤ sizeofDirent := by
  have hlen := ent.len_lt
  have hsize : (8 + 8 + 2 + 1 + BitVec.ofNat 64 ent.len + 1 : Word).toNat = 20 + ent.len := by
    bv_omega
  have hge := @le_ceilp (8 + 8 + 2 + 1 + BitVec.ofNat 64 ent.len + 1) 8 (by rw [hsize]; bv_omega)
  have hle := ceilp_le (8 + 8 + 2 + 1 + BitVec.ofNat 64 ent.len + 1) 8
  have hdvd := @dvd_ceilp (8 + 8 + 2 + 1 + BitVec.ofNat 64 ent.len + 1) 8 3 (by decide) (by decide)
  have hsum : (8 + 8 + 2 + 1 + BitVec.ofNat 64 ent.len + 1 + (8 - 1) : Word).toNat = 27 + ent.len := by
    bv_omega
  rw [hsum] at hle
  rw [hsize] at hge
  have hnat : ent.reclen.toNat = (ceilp (8 + 8 + 2 + 1 + BitVec.ofNat 64 ent.len + 1) 8).toNat := by
    rw [reclen, BitVec.toNat_setWidth]
    exact Nat.mod_eq_of_lt (by omega)
  rw [hnat, direntName, sizeofDirent]
  omega

/-- The members are small. -/
lemma small_assigned : ∀ i ∈ assigned, Small direntLayout i := by decide

/-- Nothing outside the structure changes. -/
lemma put_outside {x : Word} (h : ¬ x - p < BitVec.ofNat 64 sizeofDirent) : ent.put p mem x = mem x := by
  have hlen := ent.len_lt
  have hx : x = p + BitVec.ofNat 64 (x - p).toNat := by bv_omega
  have hge : 280 ≤ (x - p).toNat := by
    rw [sizeofDirent] at h
    bv_omega
  have hname : ¬ x - (p + BitVec.ofNat 64 direntName) < BitVec.ofNat 64 ent.len := by
    rw [direntName]
    bv_omega
  rw [put, splice_of_not_lt hname]
  have hmembers : ∀ i ∈ assigned, (x - p).toNat < (slot direntLayout i).1 ∨
      (slot direntLayout i).1 + (slot direntLayout i).2 ≤ (x - p).toNat := by
    have hend : ∀ i ∈ assigned, (slot direntLayout i).1 + (slot direntLayout i).2 ≤ 280 := by decide
    exact fun i hi => .inr ((hend i hi).trans hge)
  have hput : putMembers direntLayout p ent.member (splice mem p (BitVec.ofNat 64 sizeofDirent) fun _ => 0) assigned
      (p + BitVec.ofNat 64 (x - p).toNat) = _ := putMembers_outside small_assigned (x - p).isLt hmembers
  rw [← hx] at hput
  rw [hput, splice_of_not_lt h]

/-- The bytes before the name are those of the members. -/
lemma put_low {k : Nat} (hk : k < direntName) :
    ent.put p mem (p + BitVec.ofNat 64 k) =
      putMembers direntLayout p ent.member (splice mem p (BitVec.ofNat 64 sizeofDirent) fun _ => 0) assigned
        (p + BitVec.ofNat 64 k) := by
  have hlen := ent.len_lt
  have hname : ¬ p + BitVec.ofNat 64 k - (p + BitVec.ofNat 64 direntName) < BitVec.ofNat 64 ent.len := by
    rw [direntName] at hk ⊢
    bv_omega
  rw [put, splice_of_not_lt hname]

/-- The bytes of the name. -/
lemma put_name {k : Nat} (hk : k < ent.len) :
    ent.put p mem (p + BitVec.ofNat 64 (direntName + k)) = ent.name.getD k 0 := by
  have hlen := ent.len_lt
  have hsub : p + BitVec.ofNat 64 (direntName + k) - (p + BitVec.ofNat 64 direntName) = BitVec.ofNat 64 k := by
    bv_omega
  have hlt : p + BitVec.ofNat 64 (direntName + k) - (p + BitVec.ofNat 64 direntName) < BitVec.ofNat 64 ent.len := by
    rw [hsub]
    bv_omega
  have hnat : (BitVec.ofNat 64 k).toNat = k := by bv_omega
  rw [put, splice_of_lt hlt, hsub, hnat]

/-- After the name come zeros. -/
lemma put_stop {k : Nat} (hk : direntName + ent.len ≤ k) (hlt : k < sizeofDirent) :
    ent.put p mem (p + BitVec.ofNat 64 k) = 0 := by
  have hlen := ent.len_lt
  have hsize : k < 280 := hlt
  have hname : ¬ p + BitVec.ofNat 64 k - (p + BitVec.ofNat 64 direntName) < BitVec.ofNat 64 ent.len := by
    rw [direntName] at hk ⊢
    bv_omega
  have hset : p + BitVec.ofNat 64 k - p < BitVec.ofNat 64 sizeofDirent := by
    rw [sizeofDirent]
    bv_omega
  have hend : ∀ i ∈ assigned, (slot direntLayout i).1 + (slot direntLayout i).2 ≤ direntName := by decide
  rw [put, splice_of_not_lt hname,
    putMembers_outside small_assigned (by omega) fun i hi => .inr ((hend i hi).trans (by omega)),
    splice_of_lt hset]

/-- A member is read back. -/
lemma leBytes_put {i : DirentField} (hi : i ∈ assigned) :
    leBytes (ent.put p mem) (p + BitVec.ofNat 64 (slot direntLayout i).1) (slot direntLayout i).2 =
      (ent.member i).toNat % 256 ^ (slot direntLayout i).2 := by
  have hend : ∀ i ∈ assigned, (slot direntLayout i).1 + (slot direntLayout i).2 ≤ direntName := by decide
  rw [← leBytes_putMembers (by decide) (by decide) hi small_assigned]
  apply leBytes_congr
  intro k hk
  rw [show p + BitVec.ofNat 64 (slot direntLayout i).1 + BitVec.ofNat 64 k =
    p + BitVec.ofNat 64 ((slot direntLayout i).1 + k) by bv_omega]
  have := hend i hi
  exact put_low (by omega)

end HostDirent

/-- The record that the loop stores stands for its entry. -/
lemma put_isDirent (ent : HostDirent) (dirp : Word) (o : Nat) (mem : Word → Byte) :
    IsDirent (ent.put (dirp + BitVec.ofNat 64 o) mem) dirp o ent (o + ent.reclen.toNat) := by
  obtain ⟨hdvd, hinside, -⟩ := ent.reclen_spec
  have hlen := ent.len_lt
  have haddr : ∀ k, dirp + BitVec.ofNat 64 (o + k) = dirp + BitVec.ofNat 64 o + BitVec.ofNat 64 k := by
    intro k
    bv_omega
  have hreclen : leBytes (ent.put (dirp + BitVec.ofNat 64 o) mem) (dirp + BitVec.ofNat 64 (o + 16)) 2 =
      ent.reclen.toNat := by
    have hread := @HostDirent.leBytes_put ent (dirp + BitVec.ofNat 64 o) mem .reclen (by decide)
    have hmem : (ent.member .reclen).toNat % 256 ^ 2 = ent.reclen.toNat := by
      rw [HostDirent.member]
      bv_omega
    rw [haddr]
    exact hread.trans hmem
  refine ⟨by rw [hreclen], by rwa [hreclen], ?_, ?_, ?_⟩
  · have hread := @HostDirent.leBytes_put ent (dirp + BitVec.ofNat 64 o) mem .ino (by decide)
    have hmem : (ent.member .ino).toNat % 256 ^ 8 = ent.ino.toNat := Nat.mod_eq_of_lt ent.ino.isLt
    have hino := hread.trans hmem
    have hzero : dirp + BitVec.ofNat 64 o + BitVec.ofNat 64 (slot direntLayout .ino).1 = dirp + BitVec.ofNat 64 o :=
      BitVec.add_zero _
    rw [hzero] at hino
    rw [le, show leBytes _ _ 8 = ent.ino.toNat from hino, BitVec.ofNat_toNat, BitVec.setWidth_eq]
  · have hname : ∀ k, dirp + BitVec.ofNat 64 (o + 19) + BitVec.ofNat 64 k =
        dirp + BitVec.ofNat 64 o + BitVec.ofNat 64 (direntName + k) := by
      intro k
      rw [direntName]
      bv_omega
    refine ⟨fun k hk => ?_, fun b hb => ent.nonzero b (List.mem_of_mem_take hb), ?_⟩
    · rw [← ent.len_eq] at hk
      rw [hname, ent.put_name hk, List.getElem_take, List.getD_eq_getElem]
    · rw [hname, ← ent.len_eq]
      refine ent.put_stop le_rfl ?_
      rw [direntName, sizeofDirent]
      omega
  · rw [← ent.len_eq]
    rw [direntName] at hinside
    omega

/-! ## The loop -/

/-- A record is where it was when its bytes are. -/
lemma IsDirent.congr {mem mem' : Word → Byte} {dirp : Word} {o o' : Nat} {ent : HostDirent}
    (h : IsDirent mem dirp o ent o')
    (hsame : ∀ k < o', mem' (dirp + BitVec.ofNat 64 k) = mem (dirp + BitVec.ofNat 64 k)) :
    IsDirent mem' dirp o ent o' := by
  have hbyte : ∀ {a k : Nat}, o + a + k < o' → mem' (dirp + BitVec.ofNat 64 (o + a) + BitVec.ofNat 64 k) =
      mem (dirp + BitVec.ofNat 64 (o + a) + BitVec.ofNat 64 k) := by
    intro a k hk
    rw [show dirp + BitVec.ofNat 64 (o + a) + BitVec.ofNat 64 k = dirp + BitVec.ofNat 64 (o + a + k) by bv_omega]
    exact hsame _ hk
  have hin := h.inside
  have hlen : leBytes mem' (dirp + BitVec.ofNat 64 (o + 16)) 2 = leBytes mem (dirp + BitVec.ofNat 64 (o + 16)) 2 :=
    leBytes_congr fun k hk => hbyte (by omega)
  have hino : le mem' (dirp + BitVec.ofNat 64 o) 8 64 = le mem (dirp + BitVec.ofNat 64 o) 8 64 :=
    le_congr fun k hk => hbyte (a := 0) (by omega)
  exact ⟨by rw [hlen]; exact h.next, by rw [hlen]; exact h.aligned, hino.trans h.ino,
    h.name.congr fun k hk => hbyte (by omega), h.inside⟩

/-- So are all records before a place. -/
lemma dirents_congr {mem mem' : Word → Byte} {dirp : Word} {ents : List HostDirent} {o : Nat}
    (h : Run (IsDirent mem dirp) 0 ents o)
    (hsame : ∀ k < o, mem' (dirp + BitVec.ofNat 64 k) = mem (dirp + BitVec.ofNat 64 k)) :
    Run (IsDirent mem' dirp) 0 ents o := by
  induction h with
  | nil => exact .nil 0
  | snoc _ hst ih =>
    have hin := hst.inside
    exact .snoc (ih fun k hk => hsame k (by omega)) (hst.congr hsame)

section
variable {dirp count : Word}

/-- What was written does not wrap, if the next record is in the buffer. -/
lemma written_add {ent : HostDirent} {written : Word} (h : written.toNat + sizeofDirent ≤ count.toNat) :
    (written + ent.reclen.setWidth 64).toNat = written.toNat + ent.reclen.toNat := by
  have hle := ent.reclen_spec.2.2
  have hwidth : (ent.reclen.setWidth 64 : Word).toNat = ent.reclen.toNat := by bv_omega
  have := count.isLt
  rw [BitVec.toNat_add, hwidth]
  exact Nat.mod_eq_of_lt (by omega)

/-- The whole structure is the largest range of a record. -/
lemma stores_le_iff {ent : HostDirent} {o n : Nat} :
    (∀ s ∈ ent.stores o, s.1 + s.2 ≤ n) ↔ o + sizeofDirent ≤ n := by
  constructor
  · exact fun h => h (o, sizeofDirent) List.mem_cons_self
  · intro h s hs
    rw [HostDirent.stores, List.cons_append, List.mem_cons, List.mem_append, List.mem_map, List.mem_singleton] at hs
    have hend : ∀ i ∈ HostDirent.assigned, (slot direntLayout i).1 + (slot direntLayout i).2 ≤ direntName := by
      decide
    have hlen := ent.len_lt
    rw [direntName] at *
    rw [sizeofDirent] at *
    rcases hs with rfl | ⟨i, hi, rfl⟩ | rfl
    · exact h
    · have := hend i hi
      dsimp only
      omega
    · dsimp only
      omega

/-- The loop writes to the buffer only exactly when every record that it starts has place for the structure. -/
lemma getdentsLoop_stores (ents : List HostDirent) (mem : Word → Byte) (written : Word) :
    (∀ s ∈ (getdentsLoop dirp count ents mem written).stores, s.1 + s.2 ≤ count.toNat) ↔
      ∀ i < ents.length, written.toNat + recordStart ents i < count.toNat →
        written.toNat + recordStart ents i + sizeofDirent ≤ count.toNat := by
  induction ents generalizing mem written with
  | nil => exact iff_of_true (fun s hs => absurd hs List.not_mem_nil) fun i hi => absurd hi (Nat.not_lt_zero i)
  | cons ent ents ih =>
    -- the first record starts here, all others after its length
    have hsplit : (∀ i < (ent :: ents).length, written.toNat + recordStart (ent :: ents) i < count.toNat →
          written.toNat + recordStart (ent :: ents) i + sizeofDirent ≤ count.toNat) ↔
        (written.toNat < count.toNat → written.toNat + sizeofDirent ≤ count.toNat) ∧
        ∀ i < ents.length, written.toNat + ent.reclen.toNat + recordStart ents i < count.toNat →
          written.toNat + ent.reclen.toNat + recordStart ents i + sizeofDirent ≤ count.toNat := by
      rw [List.length_cons, Nat.forall_lt_succ_left]
      simp only [recordStart, List.take_succ_cons, List.take_zero, List.map_cons, List.map_nil, List.sum_cons,
        List.sum_nil, Nat.add_zero, Nat.add_assoc]
    rw [hsplit, getdentsLoop]
    split
    next hlt =>
      rw [List.forall_mem_append, stores_le_iff, ih]
      constructor
      · -- where the next record starts is only known when this one did not wrap around
        rintro ⟨hfits, hrest⟩
        rw [written_add hfits] at hrest
        exact ⟨fun _ => hfits, hrest⟩
      · rintro ⟨hfits, hrest⟩
        have hfits := hfits hlt
        rw [written_add hfits]
        exact ⟨hfits, hrest⟩
    next hge =>
      have : ¬ written.toNat < count.toNat := hge
      exact iff_of_true (fun s hs => absurd hs List.not_mem_nil) ⟨fun h => absurd h this, fun i _ h => by omega⟩

/-- Records that are in the buffer stay there, and each pass through the loop adds one. -/
lemma getdentsLoop_run {ents seen : List HostDirent} {mem : Word → Byte} {written : Word}
    (hrun : Run (IsDirent mem dirp) 0 seen written.toNat)
    (hin : ∀ s ∈ (getdentsLoop dirp count ents mem written).stores, s.1 + s.2 ≤ count.toNat) :
    Run (IsDirent (getdentsLoop dirp count ents mem written).mem dirp) 0
      (seen ++ (getdentsLoop dirp count ents mem written).consumed)
      (getdentsLoop dirp count ents mem written).ret.toNat := by
  induction ents generalizing seen mem written with
  | nil =>
    rw [getdentsLoop, List.append_nil]
    exact hrun
  | cons ent ents ih =>
    rw [getdentsLoop] at hin ⊢
    split at hin
    next hlt =>
      rw [if_pos hlt]
      have hfits : written.toNat + sizeofDirent ≤ count.toNat :=
        hin (written.toNat, sizeofDirent) (List.mem_append_left _ List.mem_cons_self)
      have hbound := count.isLt
      -- the new record starts after those that were seen
      have hkept : ∀ k < written.toNat, ent.put (dirp + written) mem (dirp + BitVec.ofNat 64 k) =
          mem (dirp + BitVec.ofNat 64 k) := by
        intro k hk
        apply ent.put_outside
        rw [sizeofDirent] at hfits ⊢
        bv_omega
      have hput := put_isDirent ent dirp written.toNat mem
      rw [BitVec.ofNat_toNat, BitVec.setWidth_eq] at hput
      have hseen := (dirents_congr hrun hkept).snoc hput
      rw [← written_add hfits] at hseen
      have hrec := ih hseen fun s hs => hin s (List.mem_append_right _ hs)
      rw [List.append_assoc] at hrec
      exact hrec
    next hge =>
      rw [if_neg hge, List.append_nil]
      exact hrun

end

/-- `host_getdents64` keeps to the buffer and returns what it consumed exactly when the directory was opened and
every record that starts in the buffer has 280 bytes there. -/
theorem getdents_contract_iff (mem : Word → Byte) (dirp count : Word) (d : Opendir) :
    GetdentsContract mem dirp count d ↔ ∃ ents, d = .opened ents ∧ ∀ i < ents.length,
      recordStart ents i < count.toNat → recordStart ents i + sizeofDirent ≤ count.toNat := by
  cases d with
  | failed errno pos lt =>
    refine iff_of_false (fun h => ?_) (by rintro ⟨ents, h, -⟩; cases h)
    have hzero : (BitVec.ofInt 64 (tuxerr errno)).toNat = 0 := h.2.eq_of_nil
    rw [tuxerr, if_pos (Int.natCast_nonneg errno)] at hzero
    bv_omega
  | opened ents =>
    have hstores := @getdentsLoop_stores dirp count ents mem 0
    have hzero : (0 : Word).toNat = 0 := rfl
    simp only [hzero, Nat.zero_add] at hstores
    constructor
    · exact fun h => ⟨ents, rfl, hstores.mp h.1⟩
    · rintro ⟨_, ⟨⟩, h⟩
      exact ⟨hstores.mpr h, @getdentsLoop_run dirp count ents [] mem 0 (.nil 0) (hstores.mpr h)⟩

/-- An entry with a name of one byte. -/
def HostDirent.short : HostDirent := ⟨1, 8, [0x61], by decide⟩

/-- In a buffer of 32 bytes, 24 of which the entry needs, the loop clears 280. -/
theorem getdents_overruns :
    ¬ GetdentsContract (fun _ => 1) 0x1000 32 (.opened [.short]) ∧
      (hostGetdents64 (fun _ => 1) 0x1000 32 (.opened [.short])).ret = 24 ∧
      (hostGetdents64 (fun _ => 1) 0x1000 32 (.opened [.short])).mem (0x1000 + 279) = 0 := by
  refine ⟨fun h => ?_, by decide +kernel, by decide +kernel⟩
  have hfits := (@stores_le_iff .short _ _).mp fun s hs => h.1 s (List.mem_append_left _ hs)
  exact absurd hfits (by decide)

end Libtux
