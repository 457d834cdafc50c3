import Mathlib.Tactic

/-!
# Machine words

The 64-bit words of the modelled machine and what clearing the bits of a mask does to one. A mask
`m` splits a word into the part below it, `x &&& m`, and the part that survives, `x &&& ~~~m`; the
two add up to `x` without a carry (`toNat_and_not_add`), which is all the rounding functions need,
whatever the mask looks like. `dvd_and_not` is the other half: when `m + 1` is a multiple of a power
of two, so is everything the mask lets through.
-/

namespace Libtux.Lib

/-- A machine word. -/
abbrev Word := BitVec 64

/-- A byte of memory. -/
abbrev Byte := BitVec 8

/-- A C `int`, kept as its bits. -/
abbrev CInt := BitVec 32

/-- What a mask clears and what it keeps share no bit. -/
lemma and_not_and_and {w : Nat} (x m : BitVec w) : (x &&& ~~~m) &&& (x &&& m) = 0#w := by
  ext i hi
  simp only [BitVec.getElem_and, BitVec.getElem_not, BitVec.getElem_zero]
  cases x[i] <;> cases m[i] <;> rfl

/-- A word is the sum of what a mask clears and what it keeps. -/
lemma and_not_add_and {w : Nat} (x m : BitVec w) : (x &&& ~~~m) + (x &&& m) = x := by
  rw [BitVec.add_eq_or_of_and_eq_zero _ _ (and_not_and_and x m)]
  ext i hi
  simp only [BitVec.getElem_or, BitVec.getElem_and, BitVec.getElem_not]
  cases x[i] <;> cases m[i] <;> rfl

/-- The sum of the two parts does not wrap. -/
lemma toNat_and_not_add {w : Nat} (x m : BitVec w) :
    (x &&& ~~~m).toNat + (x &&& m).toNat = x.toNat := by
  rw [← BitVec.toNat_add_of_and_eq_zero (and_not_and_and x m), and_not_add_and]

/-- Clearing bits does not make a word larger. -/
lemma toNat_and_not_le {w : Nat} (x m : BitVec w) : (x &&& ~~~m).toNat ≤ x.toNat := by
  have := toNat_and_not_add x m
  omega

/-- Clearing the bits of a mask takes away at most the mask. -/
lemma toNat_le_and_not_add {w : Nat} (x m : BitVec w) :
    x.toNat ≤ (x &&& ~~~m).toNat + m.toNat := by
  have hsum := toNat_and_not_add x m
  have hle : (x &&& m).toNat ≤ m.toNat := by
    rw [BitVec.toNat_and]
    exact Nat.and_le_right
  omega

/-- A mask one below a multiple of `2 ^ k` clears the low `k` bits. -/
lemma dvd_and_not {w k : Nat} (x m : BitVec w) (hk : 2 ^ k ∣ m.toNat + 1) :
    2 ^ k ∣ (x &&& ~~~m).toNat := by
  have hle : 2 ^ k ≤ 2 ^ w := by
    have := Nat.le_of_dvd (Nat.succ_pos _) hk
    have := m.isLt
    omega
  have hw : 2 ^ k ∣ 2 ^ w := Nat.pow_dvd_pow 2 ((Nat.pow_le_pow_iff_right (by omega)).mp hle)
  have hnot : 2 ^ k ∣ (~~~m).toNat := by
    rw [BitVec.toNat_not, Nat.sub_sub, Nat.add_comm 1]
    exact Nat.dvd_sub hw hk
  apply Nat.dvd_of_mod_eq_zero
  rw [BitVec.toNat_and, Nat.and_mod_two_pow, Nat.mod_eq_zero_of_dvd hnot, Nat.and_zero]

/-- The difference of two multiples of a power of two is a multiple of it, also when it wraps. -/
lemma dvd_sub_word {k : Nat} {x y : Word} (hk : k ≤ 64) (hx : 2 ^ k ∣ x.toNat) (hy : 2 ^ k ∣ y.toNat) :
    2 ^ k ∣ (x - y).toNat := by
  have h64 : 2 ^ k ∣ 2 ^ 64 := Nat.pow_dvd_pow 2 hk
  rw [BitVec.toNat_sub]
  refine (Nat.dvd_mod_iff h64).mpr (Nat.dvd_add ?_ hx)
  exact Nat.dvd_sub h64 hy

/-- The little-endian number in the `n` bytes from `p` on. -/
def leBytes (f : Word → Byte) (p : Word) : Nat → Nat
  | 0 => 0
  | n + 1 => (f p).toNat + 256 * leBytes f (p + 1) n

/-- A little-endian number of `n` bytes at `p`, as a `w`-bit word. -/
def le (f : Word → Byte) (p : Word) (n w : Nat) : BitVec w := BitVec.ofNat w (leBytes f p n)

/-- The eight bytes of a word. -/
def bytes64 (v k : Word) : Byte := (v >>> (8 * k.toNat)).setWidth 8

/-- The function `f` with the `n` words from `p` on taken from `g`, which is indexed from `0`. -/
def splice {α : Type} (f : Word → α) (p : Word) (n : Word) (g : Word → α) : Word → α :=
  fun x => if x - p < n then g (x - p) else f x

/-- In the range, -/
lemma splice_of_lt {α : Type} {f g : Word → α} {p n x : Word} (h : x - p < n) :
    splice f p n g x = g (x - p) := if_pos h

/-- and out of it. -/
lemma splice_of_not_lt {α : Type} {f g : Word → α} {p n x : Word} (h : ¬ x - p < n) :
    splice f p n g x = f x := if_neg h

end Libtux.Lib
