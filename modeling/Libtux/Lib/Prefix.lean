import Mathlib.Data.List.Basic
import Mathlib.Data.List.Flatten

/-!
# Prefixes of lists that are put together from parts

When `D j` is what was done of the part `P j`, and the parts are known apart by a tag, all that was done is a
prefix of all parts exactly when that is so for each part, and every part before one that was begun is done
(`flatMap_prefix_iff`).
-/

namespace Libtux.Lib

variable {α : Type}

/-- The prefixes of two parts, none of which goes over into the other one. -/
lemma append_prefix_iff {d e p q : List α} (hd : ∀ x ∈ d, x ∉ q) (he : ∀ x ∈ e, x ∉ p) :
    d ++ e <+: p ++ q ↔ d <+: p ∧ (e = [] ∨ d = p ∧ e <+: q) := by
  constructor
  · intro h
    have hdp : d <+: p := by
      rcases List.prefix_or_prefix_of_prefix ((List.prefix_append d e).trans h) (List.prefix_append p q) with hdp | hpd
      · exact hdp
      · obtain ⟨t, rfl⟩ := hpd
        rw [List.append_assoc, List.prefix_append_right_inj] at h
        cases t with
        | nil => exact ⟨[], by rw [List.append_nil, List.append_nil]⟩
        | cons x t =>
          have hx : x ∈ q := h.subset List.mem_cons_self
          exact absurd hx (hd x (List.mem_append_right _ List.mem_cons_self))
    refine ⟨hdp, ?_⟩
    obtain ⟨t, rfl⟩ := hdp
    rw [List.append_assoc, List.prefix_append_right_inj] at h
    cases t with
    | nil => exact .inr ⟨(List.append_nil d).symm, h⟩
    | cons y t =>
      cases e with
      | nil => exact .inl rfl
      | cons x e =>
        have hx : x = y := (List.cons_prefix_cons.mp h).1
        refine absurd (List.mem_append_right d ?_) (he x List.mem_cons_self)
        rw [hx]
        exact List.mem_cons_self
  · rintro ⟨hdp, rfl | ⟨rfl, heq⟩⟩
    · rw [List.append_nil]
      exact List.prefix_append_of_prefix hdp
    · exact (List.prefix_append_right_inj d).mpr heq

/-- The prefixes of any number of parts. -/
lemma flatMap_prefix_iff {D P : Nat → List α} {t : α → Nat} (hD : ∀ {j x}, x ∈ D j → t x = j)
    (hP : ∀ {j x}, x ∈ P j → t x = j) {l : List Nat} (hl : l.Nodup) :
    l.flatMap D <+: l.flatMap P ↔
      (∀ j ∈ l, D j <+: P j) ∧ l.Pairwise fun j k => D k ≠ [] → D j = P j := by
  induction l with
  | nil => exact iff_of_true (List.prefix_refl _) ⟨fun j hj => absurd hj List.not_mem_nil, .nil⟩
  | cons i l ih =>
    obtain ⟨hi, hl⟩ := List.nodup_cons.mp hl
    have hhead : ∀ x ∈ D i, x ∉ l.flatMap P := by
      intro x hx hmem
      obtain ⟨j, hj, hxj⟩ := List.mem_flatMap.mp hmem
      rw [← hD hx, hP hxj] at hi
      exact hi hj
    have hrest : ∀ x ∈ l.flatMap D, x ∉ P i := by
      intro x hmem hx
      obtain ⟨j, hj, hxj⟩ := List.mem_flatMap.mp hmem
      rw [← hP hx, hD hxj] at hi
      exact hi hj
    rw [List.flatMap_cons, List.flatMap_cons, append_prefix_iff hhead hrest, ih hl, List.forall_mem_cons,
      List.pairwise_cons, and_assoc]
    refine and_congr_right fun _ => ?_
    rw [List.flatMap_eq_nil_iff]
    constructor
    · rintro (hnil | ⟨heq, hparts, hpairs⟩)
      · refine ⟨fun j hj => ?_, fun k hk hne => absurd (hnil k hk) hne, ?_⟩
        · rw [hnil j hj]
          exact List.nil_prefix
        · exact List.pairwise_of_forall_mem_list fun j _ k hk hne => absurd (hnil k hk) hne
      · exact ⟨hparts, fun _ _ _ => heq, hpairs⟩
    · rintro ⟨hparts, hfirst, hpairs⟩
      by_cases hnil : ∀ k ∈ l, D k = []
      · exact .inl hnil
      · obtain ⟨k, hk, hne⟩ := not_forall₂.mp hnil
        exact .inr ⟨hfirst k hk hne, hparts, hpairs⟩

/-- The pairs of a range. -/
lemma pairwise_range {R : Nat → Nat → Prop} {n : Nat} :
    (List.range n).Pairwise R ↔ ∀ j k, j < k → k < n → R j k := by
  rw [List.pairwise_iff_getElem]
  simp only [List.length_range, List.getElem_range]
  exact ⟨fun h j k hjk hk => h j k (Nat.lt_trans hjk hk) hk hjk, fun h j k _ hk hjk => h j k hjk hk⟩

end Libtux.Lib
