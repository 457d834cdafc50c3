import Libtux.Lib.Word

/-!
# Rounding

Model of `src/align.h`. `truncp` and `ceilp` are written with a mask, so they round to a multiple of
`align` only when `align` is a power of two. Everything the loader relies on holds for the mask of
any alignment: rounding down does not pass the address and loses less than `align`
(`truncp_le`, `le_truncp_add`), rounding up that does not wrap does not fall short
(`le_ceilp`), and an alignment that is a multiple of the page size yields multiples of the page size
(`dvd_truncp`, `dvd_ceilp`), an alignment of zero included.
-/

namespace Libtux
open Lib

/-- Round down (C `truncp`). -/
def truncp (addr align : Word) : Word :=
  let align_mask := align - 1
  addr &&& ~~~align_mask

/-- Round up (C `ceilp`). -/
def ceilp (addr align : Word) : Word :=
  let align_mask := align - 1
  (addr + align_mask) &&& ~~~align_mask

/-- Rounding down does not pass the address. -/
lemma truncp_le (addr align : Word) : (truncp addr align).toNat ≤ addr.toNat :=
  toNat_and_not_le addr (align - 1)

/-- Rounding down loses at most the mask. -/
lemma le_truncp_add (addr align : Word) :
    addr.toNat ≤ (truncp addr align).toNat + (align - 1).toNat :=
  toNat_le_and_not_add addr (align - 1)

/-- Rounding up does not fall short, unless the sum with the mask wraps. -/
lemma le_ceilp {addr align : Word} (h : addr.toNat + (align - 1).toNat < 2 ^ 64) :
    addr.toNat ≤ (ceilp addr align).toNat := by
  have hle : (addr + (align - 1)).toNat ≤ (ceilp addr align).toNat + (align - 1).toNat :=
    toNat_le_and_not_add (addr + (align - 1)) (align - 1)
  rw [BitVec.toNat_add, Nat.mod_eq_of_lt h] at hle
  omega

/-- Rounding up adds at most the mask, also when it wraps. -/
lemma ceilp_le (addr align : Word) :
    (ceilp addr align).toNat ≤ (addr + (align - 1)).toNat :=
  toNat_and_not_le (addr + (align - 1)) (align - 1)

/-- The mask of a multiple of a power of two has the low bits set. -/
lemma dvd_mask_add_one {align : Word} {k : Nat} (hk : k ≤ 64) (h : 2 ^ k ∣ align.toNat) :
    2 ^ k ∣ (align - 1).toNat + 1 := by
  by_cases hz : align = 0
  · subst hz
    exact Nat.pow_dvd_pow 2 hk
  · have hpos : 0 < align.toNat := by
      rw [Nat.pos_iff_ne_zero]
      exact fun h0 => hz (BitVec.eq_of_toNat_eq h0)
    rw [BitVec.toNat_sub_of_le (by bv_omega)]
    rwa [show (1 : Word).toNat = 1 from rfl, Nat.sub_add_cancel hpos]

/-- Rounding down to a multiple of a power of two gives a multiple of that power. -/
lemma dvd_truncp {addr align : Word} {k : Nat} (hk : k ≤ 64) (h : 2 ^ k ∣ align.toNat) :
    2 ^ k ∣ (truncp addr align).toNat :=
  dvd_and_not addr (align - 1) (dvd_mask_add_one hk h)

/-- Rounding up to a multiple of a power of two gives a multiple of that power. -/
lemma dvd_ceilp {addr align : Word} {k : Nat} (hk : k ≤ 64) (h : 2 ^ k ∣ align.toNat) :
    2 ^ k ∣ (ceilp addr align).toNat :=
  dvd_and_not (addr + (align - 1)) (align - 1) (dvd_mask_add_one hk h)

end Libtux
