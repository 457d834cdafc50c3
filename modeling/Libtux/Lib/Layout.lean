import Libtux.Lib.Bytes

/-!
# Structures in memory

A C structure is a list of members, each of them as aligned as it is wide. `place` lays them out by the
rule of C, one after the other, each at the next multiple of its size, so that they never overlap
(`slot_apart`). `putMembers` assigns to members in any order; a member that was assigned to is read back,
cut to its width (`leBytes_putMembers`), and bytes of no such member are as before
(`putMembers_outside`).
-/

namespace Libtux.Lib

/-- A member: its name, `none` for padding, and its size. -/
structure Member (ι : Type) where
  name : Option ι
  size : Nat

section
variable {ι : Type} [DecidableEq ι]

/-- The members with their offsets, from `o` on. -/
def place : Nat → List (Member ι) → List (Nat × Member ι)
  | _, [] => []
  | o, m :: ms =>
    let start := (o + m.size - 1) / m.size * m.size
    (start, m) :: place (start + m.size) ms

/-- The offset and the size of a member. A name that does not occur has no bytes. -/
def slot (ms : List (Member ι)) (i : ι) : Nat × Nat :=
  match (place 0 ms).find? fun m => m.2.name = some i with
  | some m => (m.1, m.2.size)
  | none => (0, 0)

/-- Two ranges of bytes do not meet. -/
def Apart (a b : Nat × Nat) : Prop := a.1 + a.2 ≤ b.1 ∨ b.1 + b.2 ≤ a.1

omit [DecidableEq ι] in
/-- Members are placed in order. -/
lemma place_ge {o : Nat} {ms : List (Member ι)} (h : ∀ m ∈ ms, 0 < m.size) :
    ∀ a ∈ place o ms, o ≤ a.1 := by
  induction ms generalizing o with
  | nil => exact fun a ha => absurd ha List.not_mem_nil
  | cons m ms ih =>
    have hm : 0 < m.size := h m List.mem_cons_self
    have hstart : o ≤ (o + m.size - 1) / m.size * m.size := by
      have := Nat.lt_div_mul_add (a := o + m.size - 1) hm
      omega
    intro a ha
    cases List.mem_cons.mp ha with
    | inl e =>
      rw [e]
      exact hstart
    | inr ha =>
      have := ih (fun m hm => h m (List.mem_cons_of_mem _ hm)) a ha
      omega

omit [DecidableEq ι] in
/-- A member ends before the next one begins. -/
lemma place_pairwise {o : Nat} {ms : List (Member ι)} (h : ∀ m ∈ ms, 0 < m.size) :
    (place o ms).Pairwise fun a b => Apart (a.1, a.2.size) (b.1, b.2.size) := by
  induction ms generalizing o with
  | nil => exact .nil
  | cons m ms ih =>
    have hms : ∀ m ∈ ms, 0 < m.size := fun m hm => h m (List.mem_cons_of_mem _ hm)
    exact .cons (fun b hb => .inl (place_ge hms b hb)) (ih hms)

/-- Different members are apart. -/
lemma slot_apart {ms : List (Member ι)} (h : ∀ m ∈ ms, 0 < m.size) {i j : ι} (hij : i ≠ j)
    (hi : (slot ms i).2 ≠ 0) (hj : (slot ms j).2 ≠ 0) : Apart (slot ms i) (slot ms j) := by
  unfold slot at hi hj ⊢
  split at hi
  case h_2 => exact absurd rfl hi
  case h_1 a ha =>
    split at hj
    case h_2 => exact absurd rfl hj
    case h_1 b hb =>
      have hna := List.find?_some ha
      have hnb := List.find?_some hb
      rw [decide_eq_true_eq] at hna hnb
      have hne : a ≠ b := by
        rintro rfl
        exact hij (Option.some.inj (hna.symm.trans hnb))
      have : Std.Symm fun a b : Nat × Member ι => Apart (a.1, a.2.size) (b.1, b.2.size) :=
        ⟨fun _ _ h => h.symm⟩
      exact (place_pairwise h).forall (List.mem_of_find?_eq_some ha)
        (List.mem_of_find?_eq_some hb) hne

/-! ## Assignments -/

/-- Assign to one member of the structure at `p`. -/
def putMember (ms : List (Member ι)) (p : Word) (mem : Word → Byte) (i : ι) (v : Word) : Word → Byte :=
  splice mem (p + BitVec.ofNat 64 (slot ms i).1) (BitVec.ofNat 64 (slot ms i).2) (bytes64 v)

/-- Assign to members, in the order of the list. -/
def putMembers (ms : List (Member ι)) (p : Word) (vals : ι → Word) (mem : Word → Byte) :
    List ι → Word → Byte
  | [] => mem
  | i :: is => putMembers ms p vals (putMember ms p mem i (vals i)) is

/-- A member of at most eight bytes that does not wrap around. -/
def Small (ms : List (Member ι)) (i : ι) : Prop :=
  (slot ms i).1 + (slot ms i).2 ≤ 2 ^ 62 ∧ (slot ms i).2 ≤ 8

instance (ms : List (Member ι)) (i : ι) : Decidable (Small ms i) := inferInstanceAs (Decidable (_ ∧ _))

variable {ms : List (Member ι)} {p : Word} {vals : ι → Word} {mem : Word → Byte}

/-- A member is stored in its slot, -/
lemma putMember_outside {i : ι} {v : Word} {k : Nat} (hs : Small ms i) (hk : k < 2 ^ 64)
    (h : k < (slot ms i).1 ∨ (slot ms i).1 + (slot ms i).2 ≤ k) :
    putMember ms p mem i v (p + BitVec.ofNat 64 k) = mem (p + BitVec.ofNat 64 k) := by
  obtain ⟨h1, h2⟩ := hs
  apply splice_of_not_lt
  bv_omega

/-- byte by byte. -/
lemma putMember_inside {i : ι} {v : Word} {k : Nat} (hs : Small ms i) (hk : k < (slot ms i).2) :
    (putMember ms p mem i v (p + BitVec.ofNat 64 ((slot ms i).1 + k))).toNat =
      v.toNat / 256 ^ k % 256 := by
  obtain ⟨h1, h2⟩ := hs
  have hsub : p + BitVec.ofNat 64 ((slot ms i).1 + k) - (p + BitVec.ofNat 64 (slot ms i).1) =
      BitVec.ofNat 64 k := by
    bv_omega
  have hlt : p + BitVec.ofNat 64 ((slot ms i).1 + k) - (p + BitVec.ofNat 64 (slot ms i).1) <
      BitVec.ofNat 64 (slot ms i).2 := by
    rw [hsub]
    bv_omega
  rw [putMember, splice_of_lt hlt, hsub, toNat_bytes64 (by omega)]

/-- Bytes that belong to no member that was assigned to are as before. -/
lemma putMembers_outside {is : List ι} {k : Nat} (hs : ∀ i ∈ is, Small ms i) (hk : k < 2 ^ 64)
    (h : ∀ i ∈ is, k < (slot ms i).1 ∨ (slot ms i).1 + (slot ms i).2 ≤ k) :
    putMembers ms p vals mem is (p + BitVec.ofNat 64 k) = mem (p + BitVec.ofNat 64 k) := by
  induction is generalizing mem with
  | nil => rfl
  | cons i is ih =>
    rw [putMembers, ih (fun j hj => hs j (List.mem_cons_of_mem _ hj))
      fun j hj => h j (List.mem_cons_of_mem _ hj)]
    exact putMember_outside (hs i List.mem_cons_self) hk (h i List.mem_cons_self)

/-- The bytes of a member that was assigned to, once. -/
lemma putMembers_inside (hpos : ∀ m ∈ ms, 0 < m.size) {is : List ι} (hnd : is.Nodup) {i : ι}
    (hi : i ∈ is) {k : Nat} (hs : ∀ i ∈ is, Small ms i) (hk : k < (slot ms i).2) :
    (putMembers ms p vals mem is (p + BitVec.ofNat 64 ((slot ms i).1 + k))).toNat =
      (vals i).toNat / 256 ^ k % 256 := by
  induction is generalizing mem with
  | nil => cases hi
  | cons j is ih =>
    obtain ⟨hnot, hnd⟩ := List.nodup_cons.mp hnd
    have hrest : ∀ i ∈ is, Small ms i := fun i hi => hs i (List.mem_cons_of_mem _ hi)
    rw [putMembers]
    cases List.mem_cons.mp hi with
    | inr hi => exact ih hnd hi hrest
    | inl e =>
      subst e
      have hbyte := hs i List.mem_cons_self
      have hk64 : (slot ms i).1 + k < 2 ^ 64 := by
        have := hbyte.1
        omega
      rw [putMembers_outside hrest hk64 ?_]
      · exact putMember_inside hbyte hk
      · intro j hj
        by_cases hz : (slot ms j).2 = 0
        · omega
        · have hap := slot_apart hpos (fun e : i = j => hnot (e ▸ hj)) (by omega) hz
          obtain h | h := hap
          · omega
          · omega

/-- A member that was assigned to is read back, cut to its width. -/
lemma leBytes_putMembers (hpos : ∀ m ∈ ms, 0 < m.size) {is : List ι} (hnd : is.Nodup) {i : ι}
    (hi : i ∈ is) (hs : ∀ i ∈ is, Small ms i) :
    leBytes (putMembers ms p vals mem is) (p + BitVec.ofNat 64 (slot ms i).1) (slot ms i).2 =
      (vals i).toNat % 256 ^ (slot ms i).2 := by
  apply leBytes_eq
  intro k hk
  have haddr : p + BitVec.ofNat 64 (slot ms i).1 + BitVec.ofNat 64 k =
      p + BitVec.ofNat 64 ((slot ms i).1 + k) := by
    bv_omega
  rw [haddr]
  exact putMembers_inside hpos hnd hi hs hk

end
end Libtux.Lib
