import Libtux.Lib.Exec

/-!
# What a program does, told by its trace

`Respects R x` says that a run of `x` takes its first state to its last one as `R` allows for the events it
emits, whether it returns or stops. For a relation that composes (`Composes`) the rules take a program apart
along its syntax. `RespectsAt` is the same for one first state, for the programs that read the state first.
-/

namespace Libtux.Lib.Exec

variable {ε ω σ τ α β : Type}

/-- A relation between two states, in terms of the events between them, that holds of runs put together. -/
structure Composes (R : σ → List ω → σ → Prop) : Prop where
  nil : ∀ s, R s [] s
  append : ∀ {s s' s'' : σ} {l l' : List ω}, R s l s' → R s' l' s'' → R s (l ++ l') s''

/-- The run from `s` is as `R` allows. -/
def RespectsAt (R : σ → List ω → σ → Prop) (x : Exec ε ω σ α) (s : σ) : Prop :=
  R s (x.run s).out (x.run s).st

/-- Every run is as `R` allows. -/
def Respects (R : σ → List ω → σ → Prop) (x : Exec ε ω σ α) : Prop := ∀ s, RespectsAt R x s

section
variable {R : σ → List ω → σ → Prop}

/-- A run that is known. -/
lemma respectsAt_of_run {x : Exec ε ω σ α} {s s' : σ} {v : Except ε α} {l : List ω}
    (h : x.run s = ⟨v, s', l⟩) : RespectsAt R x s ↔ R s l s' := by
  rw [RespectsAt, h]

/-- A relation that says less. -/
lemma Respects.mono {R' : σ → List ω → σ → Prop} (h : ∀ {s l s'}, R s l s' → R' s l s')
    {x : Exec ε ω σ α} (hx : Respects R x) : Respects R' x := fun s => h (hx s)

/-- A change. -/
lemma respects_modify {f : σ → σ} (h : ∀ s, R s [] (f s)) : Respects R (modify f : Exec ε ω σ Unit) := by
  intro s
  rw [respectsAt_of_run (modify_run f s)]
  exact h s

/-- An event. -/
lemma respects_tell {e : ω} (h : ∀ s, R s [e] s) : Respects R (tell e : Exec ε ω σ Unit) := by
  intro s
  rw [respectsAt_of_run (tell_run e s)]
  exact h s

/-- A program on a part of the state. -/
lemma Respects.zoom {R' : τ → List ω → τ → Prop} {read : σ → τ} {write : τ → σ → σ} {x : Exec ε ω τ α}
    (hx : Respects R' x) (h : ∀ {s l t}, R' (read s) l t → R s l (write t s)) :
    Respects R (zoom read write x) := by
  intro s
  rw [RespectsAt, Exec.zoom, mk_run]
  exact h (hx (read s))

variable (hR : Composes R)
include hR

/-- A value changes nothing. -/
lemma respects_pure (a : α) : Respects R (pure a : Exec ε ω σ α) := by
  intro s
  rw [respectsAt_of_run (pure_run a s)]
  exact hR.nil s

/-- A look at the state changes nothing, -/
lemma respects_get : Respects R (get : Exec ε ω σ σ) := by
  intro s
  rw [respectsAt_of_run (get_run s)]
  exact hR.nil s

/-- nor does one at a part of it, -/
lemma respects_gets (f : σ → α) : Respects R (gets f : Exec ε ω σ α) := by
  intro s
  rw [respectsAt_of_run (gets_run f s)]
  exact hR.nil s

/-- nor does a stop. -/
lemma respects_stop (e : ε) : Respects R (stop e : Exec ε ω σ α) := by
  intro s
  rw [respectsAt_of_run (stop_run e s)]
  exact hR.nil s

/-- The rule of composition, from one first state. -/
lemma RespectsAt.bind {x : Exec ε ω σ α} {f : α → Exec ε ω σ β} {s : σ} (hx : RespectsAt R x s)
    (hf : ∀ a, (x.run s).val = .ok a → RespectsAt R (f a) (x.run s).st) : RespectsAt R (x >>= f) s := by
  unfold RespectsAt at hx hf ⊢
  rw [bind_run]
  generalize x.run s = r at hx hf
  obtain ⟨v, t, l⟩ := r
  cases v with
  | error e =>
    rw [andThen_error]
    exact hx
  | ok a =>
    rw [andThen_ok]
    exact hR.append hx (hf a rfl)

/-- Two halves. -/
lemma Respects.bind {x : Exec ε ω σ α} {f : α → Exec ε ω σ β} (hx : Respects R x)
    (hf : ∀ a, Respects R (f a)) : Respects R (x >>= f) :=
  fun s => RespectsAt.bind hR (hx s) fun a _ => hf a _

omit hR in
/-- A program that reads the state first. -/
lemma respectsAt_get {f : σ → Exec ε ω σ α} {s : σ} (h : RespectsAt R (f s) s) :
    RespectsAt R (get >>= f) s := by
  unfold RespectsAt at h ⊢
  rw [bind_run, get_run, andThen_ok_nil]
  exact h

omit hR in
/-- Two branches, each under its condition. -/
lemma RespectsAt.ite {p : Prop} [Decidable p] {x y : Exec ε ω σ α} {s : σ} (hx : p → RespectsAt R x s)
    (hy : ¬ p → RespectsAt R y s) : RespectsAt R (if p then x else y) s := by
  split
  · rename_i hp
    exact hx hp
  · rename_i hp
    exact hy hp

omit hR in
/-- Two branches. -/
lemma Respects.ite {p : Prop} [Decidable p] {x y : Exec ε ω σ α} (hx : Respects R x) (hy : Respects R y) :
    Respects R (if p then x else y) := by
  split
  · exact hx
  · exact hy

/-- An assertion changes nothing. -/
lemma respects_check (p : Prop) [Decidable p] (e : ε) : Respects R (check p e : Exec ε ω σ Unit) :=
  Respects.ite (respects_pure hR ()) (respects_stop hR e)

/-- What follows a check runs only when the condition holds. -/
lemma RespectsAt.check {p : Prop} [Decidable p] {e : ε} {f : Unit → Exec ε ω σ α} {s : σ}
    (h : p → RespectsAt R (f ()) s) : RespectsAt R (check p e >>= f) s := by
  refine RespectsAt.bind hR (respects_check hR p e s) fun u hu => ?_
  rw [check_run] at hu ⊢
  split at hu
  · rename_i hp
    rw [if_pos hp]
    exact h hp
  · cases hu

end

/-- A kept part of the state is a relation that composes. -/
lemma composes_keeps (f : σ → τ) : Composes fun (s : σ) (_ : List ω) s' => f s' = f s where
  nil _ := rfl
  append h h' := h'.trans h

end Libtux.Lib.Exec
