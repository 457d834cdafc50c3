import Libtux.Lib.Run
import Mathlib.Order.Bounds.Basic

/-!
# Partial maps on the first numbers

A `Slots n α` is a partial map on the numbers below `n`, as a function on all integers. A table of `n` entries
is one way to keep it (`Slots.ofTable`): changing an entry binds or unbinds a number, and searching the table
from its start for an empty entry finds the least number that is not bound (`find_isLeast`).
-/

namespace Libtux.Lib

/-- A partial map on the numbers below `n`. -/
@[ext] structure Slots (n : Nat) (α : Type) where
  get : Int → Option α
  range : ∀ {k a}, get k = some a → 0 ≤ k ∧ k < n

namespace Slots
variable {n : Nat} {α : Type}

/-- The numbers that are not bound. -/
def free (m : Slots n α) : Set (Fin n) := {k | m.get k.val = none}

/-- The map in which nothing is bound. -/
def empty : Slots n α where
  get _ := none
  range h := absurd h.symm (Option.some_ne_none _)

/-- Bind a number. -/
def bind (m : Slots n α) (k : Fin n) (a : α) : Slots n α where
  get := Function.update m.get k.val (some a)
  range {x b} h := by
    rw [Function.update_apply] at h
    split at h
    next hx =>
      rw [hx]
      exact ⟨Int.natCast_nonneg _, Int.ofNat_lt.mpr k.isLt⟩
    next => exact m.range h

/-- Unbind a number. -/
def unbind (m : Slots n α) (k : Int) : Slots n α where
  get := Function.update m.get k none
  range {x b} h := by
    rw [Function.update_apply] at h
    split at h
    · cases h
    · exact m.range h

/-- The map that a table keeps. -/
def ofTable (t : Fin n → Option α) : Slots n α where
  get k := if h : 0 ≤ k ∧ k < n then t ⟨k.toNat, by omega⟩ else none
  range h := (Option.dite_none_right_eq_some.mp h).1

section
variable {t : Fin n → Option α}

/-- At an index is what the table has there, -/
lemma ofTable_coe (i : Fin n) : (ofTable t).get i.val = t i := by
  have h : 0 ≤ (i.val : Int) ∧ (i.val : Int) < n := ⟨Int.natCast_nonneg _, Int.ofNat_lt.mpr i.isLt⟩
  exact dif_pos h

/-- and out of range is nothing. -/
lemma ofTable_out {k : Int} (h : ¬ (0 ≤ k ∧ k < n)) : (ofTable t).get k = none := dif_neg h

/-- A number is an index of the table or out of range. -/
lemma index_cases (n : Nat) (k : Int) : (∃ i : Fin n, k = i.val) ∨ ¬ (0 ≤ k ∧ k < n) := by
  by_cases h : 0 ≤ k ∧ k < n
  · exact .inl ⟨⟨k.toNat, by omega⟩, (Int.toNat_of_nonneg h.1).symm⟩
  · exact .inr h

/-- A number is free when its entry is. -/
lemma ofTable_free : (ofTable t).free = {i | t i = none} := by
  ext i
  exact Eq.congr_left (ofTable_coe i)

/-- A change of one entry is a change of the map there. -/
lemma ofTable_update (i : Fin n) (o : Option α) (k : Int) :
    (ofTable (Function.update t i o)).get k = Function.update (ofTable t).get (i.val : Int) o k := by
  obtain ⟨j, rfl⟩ | hk := index_cases n k
  · rw [ofTable_coe, Function.update_apply, Function.update_apply, ofTable_coe]
    refine if_congr ?_ rfl rfl
    rw [Nat.cast_inj, Fin.val_inj]
  · have hne : k ≠ (i.val : Int) := by
      rintro rfl
      exact hk ⟨Int.natCast_nonneg _, Int.ofNat_lt.mpr i.isLt⟩
    rw [ofTable_out hk, Function.update_of_ne hne, ofTable_out hk]

/-- An entry is filled, -/
lemma ofTable_bind (i : Fin n) (a : α) :
    ofTable (Function.update t i (some a)) = (ofTable t).bind i a := by
  ext1
  funext k
  exact ofTable_update i (some a) k

/-- or cleared. -/
lemma ofTable_unbind (i : Fin n) : ofTable (Function.update t i none) = (ofTable t).unbind i.val := by
  ext1
  funext k
  exact ofTable_update i none k

end
end Slots

/-- A search from the start finds the least number with a property. -/
lemma find_isLeast {n : Nat} {p : Fin n → Bool} {i : Fin n} :
    (List.finRange n).find? p = some i ↔ IsLeast {j | p j = true} i := by
  have hleast : ∀ {i}, (List.finRange n).find? p = some i → IsLeast {j | p j = true} i := by
    intro i h
    obtain ⟨hi, as, bs, hsplit, has⟩ := List.find?_eq_some_iff_append.mp h
    refine ⟨hi, fun j hj => ?_⟩
    have hsorted := List.pairwise_lt_finRange n
    have hmem := List.mem_finRange j
    rw [hsplit] at hsorted hmem
    rcases List.mem_append.mp hmem with hmem | hmem
    · exact absurd hj (by simpa using has j hmem)
    · rcases List.mem_cons.mp hmem with rfl | hmem
      · exact le_rfl
      · exact ((List.pairwise_cons.mp (List.pairwise_append.mp hsorted).2.1).1 j hmem).le
  refine ⟨hleast, fun h => ?_⟩
  cases hfind : (List.finRange n).find? p with
  | none => exact absurd h.1 (List.find?_eq_none.mp hfind i (List.mem_finRange i))
  | some j => rw [(hleast hfind).unique h]

end Libtux.Lib
