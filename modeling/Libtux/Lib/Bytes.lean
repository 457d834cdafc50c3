import Libtux.Lib.Word

/-!
# Words and strings in memory

A memory is a function from addresses to bytes. `putWords` stores a list of 64-bit words one after the
other; what is stored is what is read (`le_putWords`), and nothing else changes (`putWords_outside`).
Both need that the words do not wrap around the end of memory, which is why they are stated over the
numbers of the addresses.

`CString` is a string as C has it, its bytes and then a zero. A place holds at most one
(`CString.unique`).
-/

namespace Libtux.Lib

/-- The addresses of a splice that does not wrap. -/
lemma sub_lt_iff {p n x : Word} (h : p.toNat + n.toNat ≤ 2 ^ 64) :
    x - p < n ↔ p.toNat ≤ x.toNat ∧ x.toNat < p.toNat + n.toNat := by
  bv_omega

/-- Nothing changes before the range and behind it. -/
lemma splice_outside {α : Type} {f g : Word → α} {p n x : Word} (h : p.toNat + n.toNat ≤ 2 ^ 64)
    (hx : x.toNat < p.toNat ∨ p.toNat + n.toNat ≤ x.toNat) : splice f p n g x = f x := by
  apply splice_of_not_lt
  rw [sub_lt_iff h]
  omega

/-- In the range are the new bytes. -/
lemma splice_inside {α : Type} {f g : Word → α} {p n x : Word} (h : p.toNat + n.toNat ≤ 2 ^ 64)
    (hlo : p.toNat ≤ x.toNat) (hhi : x.toNat < p.toNat + n.toNat) : splice f p n g x = g (x - p) := by
  apply splice_of_lt
  rw [sub_lt_iff h]
  exact ⟨hlo, hhi⟩

/-- An address inside an array. -/
lemma toNat_add_ofNat {p : Word} {k : Nat} (h : p.toNat + k < 2 ^ 64) :
    (p + BitVec.ofNat 64 k).toNat = p.toNat + k := by
  rw [BitVec.toNat_add, BitVec.toNat_ofNat, Nat.mod_eq_of_lt (a := k) (by omega), Nat.mod_eq_of_lt h]

/-- To go on by one and then by `k`. -/
lemma add_ofNat_succ (p : Word) (k : Nat) : p + 1 + BitVec.ofNat 64 k = p + BitVec.ofNat 64 (k + 1) := by
  bv_omega

/-- A number is read from its bytes. -/
lemma leBytes_eq {f : Word → Byte} {p : Word} {n x : Nat}
    (h : ∀ k < n, (f (p + BitVec.ofNat 64 k)).toNat = x / 256 ^ k % 256) :
    leBytes f p n = x % 256 ^ n := by
  induction n generalizing p x with
  | zero => rw [leBytes, Nat.pow_zero, Nat.mod_one]
  | succ n ih =>
    have h0 := h 0 (by omega)
    rw [BitVec.add_zero, Nat.pow_zero, Nat.div_one] at h0
    have hrest : leBytes f (p + 1) n = x / 256 % 256 ^ n := by
      apply ih
      intro k hk
      rw [add_ofNat_succ, h (k + 1) (by omega), Nat.pow_succ', Nat.div_div_eq_div_mul]
    rw [leBytes, h0, hrest, Nat.pow_succ', Nat.mod_mul]

/-- A load depends on the bytes that it reads, -/
lemma leBytes_congr {f g : Word → Byte} {p : Word} {n : Nat}
    (h : ∀ k < n, f (p + BitVec.ofNat 64 k) = g (p + BitVec.ofNat 64 k)) : leBytes f p n = leBytes g p n := by
  induction n generalizing p with
  | zero => rfl
  | succ n ih =>
    have h0 := h 0 (by omega)
    rw [BitVec.add_zero] at h0
    have hrest : leBytes f (p + 1) n = leBytes g (p + 1) n := by
      apply ih
      intro k hk
      rw [add_ofNat_succ]
      exact h (k + 1) (by omega)
    rw [leBytes, leBytes, h0, hrest]

/-- whatever its width. -/
lemma le_congr {f g : Word → Byte} {p : Word} {n w : Nat}
    (h : ∀ k < n, f (p + BitVec.ofNat 64 k) = g (p + BitVec.ofNat 64 k)) : le f p n w = le g p n w := by
  rw [le, le, leBytes_congr h]

/-- The `k`-th byte of a word. -/
lemma toNat_bytes64 {v : Word} {k : Nat} (hk : k < 8) :
    (bytes64 v (BitVec.ofNat 64 k)).toNat = v.toNat / 256 ^ k % 256 := by
  have hknat : (BitVec.ofNat 64 k).toNat = k := by
    rw [BitVec.toNat_ofNat]
    exact Nat.mod_eq_of_lt (by omega)
  rw [bytes64, BitVec.toNat_setWidth, BitVec.toNat_ushiftRight, hknat, Nat.shiftRight_eq_div_pow,
    Nat.pow_mul]

/-- A number is read in two parts. -/
lemma leBytes_add (f : Word → Byte) (p : Word) (m n : Nat) :
    leBytes f p (m + n) = leBytes f p m + 256 ^ m * leBytes f (p + BitVec.ofNat 64 m) n := by
  induction m generalizing p with
  | zero =>
    rw [Nat.zero_add, BitVec.add_zero, Nat.pow_zero, Nat.one_mul]
    exact (Nat.zero_add _).symm
  | succ m ih =>
    rw [Nat.succ_add, leBytes, leBytes, ih, add_ofNat_succ, Nat.pow_succ', Nat.mul_add, Nat.mul_assoc,
      Nat.add_assoc]

/-- A word that was stored is read back. -/
lemma le_splice (f : Word → Byte) (p v : Word) : le (splice f p 8 (bytes64 v)) p 8 64 = v := by
  have h : leBytes (splice f p 8 (bytes64 v)) p 8 = v.toNat % 256 ^ 8 := by
    apply leBytes_eq
    intro k hk
    have hsub : p + BitVec.ofNat 64 k - p = BitVec.ofNat 64 k := by
      rw [BitVec.add_comm, BitVec.add_sub_cancel]
    have hlt : p + BitVec.ofNat 64 k - p < 8 := by
      rw [hsub, BitVec.lt_def, BitVec.toNat_ofNat, Nat.mod_eq_of_lt (by omega)]
      exact hk
    rw [splice_of_lt hlt, hsub, toNat_bytes64 hk]
  rw [le, h]
  apply BitVec.eq_of_toNat_eq
  rw [BitVec.toNat_ofNat, show (256 : Nat) ^ 8 = 2 ^ 64 by norm_num, Nat.mod_mod]
  exact Nat.mod_eq_of_lt v.isLt

/-! ## Lists of words -/

/-- Store the words of a list from `p` on. -/
def putWords (f : Word → Byte) (p : Word) : List Word → Word → Byte
  | [] => f
  | v :: l => putWords (splice f p 8 (bytes64 v)) (p + 8) l

/-- A byte does not depend on the memory that the words are stored in, but for what it held there. -/
lemma putWords_congr {f g : Word → Byte} {p x : Word} {l : List Word} (h : f x = g x) :
    putWords f p l x = putWords g p l x := by
  induction l generalizing f g p with
  | nil => exact h
  | cons v l ih =>
    refine ih ?_
    by_cases hx : x - p < 8
    · rw [splice_of_lt hx, splice_of_lt hx]
    · rw [splice_of_not_lt hx, splice_of_not_lt hx, h]

/-- Words are stored one after the other. -/
lemma putWords_append (f : Word → Byte) (p : Word) (l l' : List Word) :
    putWords f p (l ++ l') = putWords (putWords f p l) (p + 8 * BitVec.ofNat 64 l.length) l' := by
  induction l generalizing f p with
  | nil => simp [putWords]
  | cons v l ih =>
    have hp : p + 8 + 8 * BitVec.ofNat 64 l.length = p + 8 * BitVec.ofNat 64 (l.length + 1) := by
      bv_omega
    rw [List.cons_append, putWords, putWords, ih, List.length_cons, hp]

/-- Nothing changes before the words and behind them. -/
lemma putWords_outside {f : Word → Byte} {p x : Word} {l : List Word}
    (h : p.toNat + 8 * l.length ≤ 2 ^ 64)
    (hx : x.toNat < p.toNat ∨ p.toNat + 8 * l.length ≤ x.toNat) : putWords f p l x = f x := by
  induction l generalizing f p with
  | nil => rfl
  | cons v l ih =>
    rw [List.length_cons] at h hx
    have h8 : (8 : Word).toNat = 8 := rfl
    have hout : splice f p 8 (bytes64 v) x = f x := by
      apply splice_outside
      · omega
      · omega
    cases l with
    | nil => exact hout
    | cons v' l' =>
      have hp : (p + 8).toNat = p.toNat + 8 := by
        rw [List.length_cons] at h
        bv_omega
      rw [putWords, ih (by omega) (by omega), hout]

/-- The words that were stored are read back. -/
lemma le_putWords {f : Word → Byte} {p : Word} {l : List Word} {i : Nat}
    (h : p.toNat + 8 * l.length ≤ 2 ^ 64) (hi : i < l.length) :
    le (putWords f p l) (p + 8 * BitVec.ofNat 64 i) 8 64 = l[i] := by
  induction l generalizing f p i with
  | nil => cases hi
  | cons v l ih =>
    rw [List.length_cons] at h hi
    cases i with
    | zero =>
      rw [putWords, show p + 8 * BitVec.ofNat 64 0 = p by bv_omega, List.getElem_cons_zero]
      refine Eq.trans (le_congr ?_) (le_splice f p v)
      intro k hk
      cases l with
      | nil => rfl
      | cons v' l' =>
        rw [List.length_cons] at h
        have hp : (p + 8).toNat = p.toNat + 8 := by bv_omega
        have hk' : (p + BitVec.ofNat 64 k).toNat = p.toNat + k := toNat_add_ofNat (by omega)
        rw [putWords_outside]
        · rw [hp, List.length_cons]
          omega
        · rw [hp, hk']
          omega
    | succ i =>
      have hp : (p + 8).toNat = p.toNat + 8 := by bv_omega
      have hq : p + 8 * BitVec.ofNat 64 (i + 1) = p + 8 + 8 * BitVec.ofNat 64 i := by bv_omega
      rw [putWords, hq, ih (by omega) (by omega), List.getElem_cons_succ]

/-! ## Words at slots -/

/-- A word that is apart from what was stored is as it was. -/
lemma le_splice_apart {f : Word → Byte} {p q v : Word} (h : ∀ x, x - q < 8 → ¬ x - p < 8) :
    le (splice f p 8 (bytes64 v)) q 8 64 = le f q 8 64 := by
  refine le_congr fun k hk => splice_of_not_lt (h _ ?_)
  bv_omega

/-- Store words in slots of eight bytes from `p` on, in the order of the list. -/
def putSlots (f : Word → Byte) (p : Word) : List (Nat × Word) → Word → Byte
  | [] => f
  | (i, v) :: l => putSlots (splice f (p + BitVec.ofNat 64 (8 * i)) 8 (bytes64 v)) p l

/-- Nothing changes where no slot is. -/
lemma putSlots_outside {f : Word → Byte} {p x : Word} {l : List (Nat × Word)}
    (h : ∀ a ∈ l, ¬ x - (p + BitVec.ofNat 64 (8 * a.1)) < 8) : putSlots f p l x = f x := by
  induction l generalizing f with
  | nil => rfl
  | cons a l ih =>
    rw [putSlots, ih fun b hb => h b (List.mem_cons_of_mem _ hb)]
    exact splice_of_not_lt (h a List.mem_cons_self)

/-- A slot that is not stored to is as it was. -/
lemma le_putSlots_of_notMem {f : Word → Byte} {p : Word} {l : List (Nat × Word)} {i : Nat}
    (hi : i < 2 ^ 32) (hl : ∀ a ∈ l, a.1 < 2 ^ 32 ∧ a.1 ≠ i) :
    le (putSlots f p l) (p + BitVec.ofNat 64 (8 * i)) 8 64 = le f (p + BitVec.ofNat 64 (8 * i)) 8 64 := by
  refine le_congr fun k hk => putSlots_outside fun a ha => ?_
  obtain ⟨hlt, hne⟩ := hl a ha
  bv_omega

/-- A slot is read back that is stored to once. -/
lemma le_putSlots {f : Word → Byte} {p v : Word} {l : List (Nat × Word)} {i : Nat}
    (hl : ∀ a ∈ l, a.1 < 2 ^ 32) (hnd : (l.map Prod.fst).Nodup) (hi : (i, v) ∈ l) :
    le (putSlots f p l) (p + BitVec.ofNat 64 (8 * i)) 8 64 = v := by
  induction l generalizing f with
  | nil => cases hi
  | cons a l ih =>
    rw [List.map_cons, List.nodup_cons] at hnd
    rw [putSlots]
    rcases List.mem_cons.mp hi with rfl | hi
    · rw [le_putSlots_of_notMem (hl (i, v) List.mem_cons_self)]
      · exact le_splice f _ v
      · intro b hb
        refine ⟨hl b (List.mem_cons_of_mem _ hb), ?_⟩
        rintro rfl
        exact hnd.1 (List.mem_map.mpr ⟨b, hb, rfl⟩)
    · exact ih (fun b hb => hl b (List.mem_cons_of_mem _ hb)) hnd.2 hi

/-! ## Strings -/

/-- The string at `p`: its bytes, none of which is zero, and then a zero. -/
structure CString (f : Word → Byte) (p : Word) (s : List Byte) : Prop where
  byte : ∀ k (h : k < s.length), f (p + BitVec.ofNat 64 k) = s[k]
  nonzero : ∀ b ∈ s, b ≠ 0
  stop : f (p + BitVec.ofNat 64 s.length) = 0

namespace CString

variable {f : Word → Byte} {p : Word} {s t : List Byte}

/-- The first zero ends the string. -/
lemma length_le (hs : CString f p s) (ht : CString f p t) : s.length ≤ t.length := by
  by_contra hlt
  have hlt : t.length < s.length := Nat.lt_of_not_le hlt
  have hz := hs.byte t.length hlt
  rw [ht.stop] at hz
  exact hs.nonzero _ (List.getElem_mem hlt) hz.symm

/-- A place holds at most one string. -/
lemma unique (hs : CString f p s) (ht : CString f p t) : s = t := by
  apply List.ext_getElem (le_antisymm (hs.length_le ht) (ht.length_le hs))
  intro k hk hk'
  rw [← hs.byte k hk, ht.byte k hk']

/-- A string is there in every memory with the same bytes. -/
lemma congr {g : Word → Byte} (hs : CString f p s)
    (h : ∀ k ≤ s.length, g (p + BitVec.ofNat 64 k) = f (p + BitVec.ofNat 64 k)) : CString g p s where
  byte k hk := (h k hk.le).trans (hs.byte k hk)
  nonzero := hs.nonzero
  stop := (h _ le_rfl).trans hs.stop

end CString
end Libtux.Lib
