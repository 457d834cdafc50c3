import Libtux.Lib.Exec

/-!
# Two runs of a program

`Agrees I P x` says that two runs of `x`, from states that `I` relates, end alike (`Alike`): with the same
result, after the same events, and in states that `I` relates. It is asked only when the events of the first run
satisfy `P`. Where the events announce what is read, `P` bounds it, and `Agrees` says what the run depends on.
The rules take a program apart along its syntax; `AgreesAt` compares two programs, for what comes after a read
of the state.
-/

namespace Libtux.Lib.Exec

variable {ε ω σ τ α β : Type}

/-- Two runs that ended in the same way, in states that `I` relates. -/
structure Alike (I : σ → σ → Prop) (r r' : Res ε ω σ α) : Prop where
  val : r'.val = r.val
  out : r'.out = r.out
  st : I r.st r'.st

/-- The runs of `x` from `s` and of `y` from `s'` end alike, if the events of the first satisfy `P`. -/
def AgreesAt (I : σ → σ → Prop) (P : ω → Prop) (x y : Exec ε ω σ α) (s s' : σ) : Prop :=
  (∀ e ∈ (x.run s).out, P e) → Alike I (x.run s) (y.run s')

/-- Two runs from related states end alike, if the events satisfy `P`. -/
def Agrees (I : σ → σ → Prop) (P : ω → Prop) (x : Exec ε ω σ α) : Prop :=
  ∀ ⦃s s'⦄, I s s' → AgreesAt I P x x s s'

section
variable {I : σ → σ → Prop} {P : ω → Prop}

/-- A value is the same. -/
lemma agrees_pure (a : α) : Agrees I P (pure a : Exec ε ω σ α) := by
  intro s s' h _
  rw [pure_run, pure_run]
  exact ⟨rfl, rfl, h⟩

/-- So is a stop. -/
lemma agrees_stop (e : ε) : Agrees I P (stop e : Exec ε ω σ α) := by
  intro s s' h _
  rw [stop_run, stop_run]
  exact ⟨rfl, rfl, h⟩

/-- A part of the state that related states have in common. -/
lemma agrees_gets {f : σ → α} (hf : ∀ {s s'}, I s s' → f s' = f s) : Agrees I P (gets f : Exec ε ω σ α) := by
  intro s s' h _
  rw [gets_run, gets_run]
  exact ⟨congrArg Except.ok (hf h), rfl, h⟩

/-- A change that leads from related states to related ones. -/
lemma agrees_modify {f : σ → σ} (hf : ∀ {s s'}, I s s' → I (f s) (f s')) :
    Agrees I P (modify f : Exec ε ω σ Unit) := by
  intro s s' h _
  rw [modify_run, modify_run]
  exact ⟨rfl, rfl, hf h⟩

/-- The same event. -/
lemma agrees_tell (e : ω) : Agrees I P (tell e : Exec ε ω σ Unit) := by
  intro s s' h _
  rw [tell_run, tell_run]
  exact ⟨rfl, rfl, h⟩

/-- The rule of composition. What follows runs only from related states, on what the first part returned and
after events that satisfy `P`. -/
lemma AgreesAt.bind {x y : Exec ε ω σ α} {f g : α → Exec ε ω σ β} {s s' : σ} (hx : AgreesAt I P x y s s')
    (hf : ∀ a {t t'}, I t t' → (x.run s).val = .ok a → (∀ e ∈ (x.run s).out, P e) →
      AgreesAt I P (f a) (g a) t t') :
    AgreesAt I P (x >>= f) (y >>= g) s s' := by
  unfold AgreesAt at hx hf ⊢
  rw [bind_run, bind_run]
  generalize x.run s = r at hx hf
  obtain ⟨v, t, l⟩ := r
  intro hP
  have hl : ∀ e ∈ l, P e := by
    intro e he
    refine hP e ?_
    cases v with
    | error e => exact he
    | ok a => exact List.mem_append_left _ he
  have hxy := hx hl
  generalize y.run s' = r' at hxy
  obtain ⟨v', t', l'⟩ := r'
  obtain ⟨hv, hout, ht⟩ := hxy
  cases hv
  cases hout
  cases v with
  | error e =>
    rw [andThen_error, andThen_error]
    exact ⟨rfl, rfl, ht⟩
  | ok a =>
    rw [andThen_ok] at hP
    obtain ⟨hval, hout, hst⟩ := hf a ht rfl hl fun e he => hP e (List.mem_append_right _ he)
    rw [andThen_ok, andThen_ok]
    exact ⟨hval, congrArg (l ++ ·) hout, hst⟩

/-- Two halves agree together. -/
lemma Agrees.bind {x : Exec ε ω σ α} {f : α → Exec ε ω σ β} (hx : Agrees I P x) (hf : ∀ a, Agrees I P (f a)) :
    Agrees I P (x >>= f) := fun _ _ h => AgreesAt.bind (hx h) fun a _ _ ht _ _ => hf a ht

/-- What follows an event may use that the event satisfies `P`. -/
lemma AgreesAt.of_tell {e : ω} {f : Unit → Exec ε ω σ α} {y : Exec ε ω σ α} {s s' : σ}
    (h : P e → AgreesAt I P (tell e >>= f) y s s') : AgreesAt I P (tell e >>= f) y s s' := by
  intro hP
  refine h (hP e ?_) hP
  rw [bind_run, tell_run, andThen_ok]
  exact List.mem_append_left _ (List.mem_singleton_self e)

/-- An event, and what follows if it is as asked for. -/
lemma Agrees.tell_bind {e : ω} {f : Unit → Exec ε ω σ α} (hf : P e → Agrees I P (f ())) :
    Agrees I P (tell e >>= f) :=
  fun _ _ h => AgreesAt.of_tell fun he => Agrees.bind (agrees_tell e) (fun _ => hf he) h

/-- A read of the state, by two programs that go on alike. -/
lemma agrees_get {f : σ → Exec ε ω σ α} (hf : ∀ {s s'}, I s s' → AgreesAt I P (f s) (f s') s s') :
    Agrees I P (get >>= f) := by
  intro s s' h
  unfold AgreesAt at hf ⊢
  rw [bind_run, get_run, andThen_ok_nil, bind_run, get_run, andThen_ok_nil]
  exact hf h

/-- A read of the state, where related states are read as the same. -/
lemma Agrees.get_bind {f : σ → Exec ε ω σ α} (heq : ∀ {s s'}, I s s' → f s' = f s)
    (hf : ∀ s, Agrees I P (f s)) : Agrees I P (get >>= f) := by
  refine agrees_get fun {s s'} h => ?_
  rw [heq h]
  exact hf s h

/-- The same, for a part of the state. -/
lemma agrees_gets_bind {g : σ → τ} {f : τ → Exec ε ω σ α}
    (hf : ∀ {s s'}, I s s' → AgreesAt I P (f (g s)) (f (g s')) s s') : Agrees I P (gets g >>= f) := by
  intro s s' h
  unfold AgreesAt at hf ⊢
  rw [bind_run, gets_run, andThen_ok_nil, bind_run, gets_run, andThen_ok_nil]
  exact hf h

/-- Two branches of the same condition. -/
lemma Agrees.ite {p : Prop} [Decidable p] {x y : Exec ε ω σ α} (hx : Agrees I P x) (hy : Agrees I P y) :
    Agrees I P (if p then x else y) := by
  split
  · exact hx
  · exact hy

/-- An assertion on both sides. -/
lemma agrees_check (p : Prop) [Decidable p] (e : ε) : Agrees I P (check p e : Exec ε ω σ Unit) :=
  Agrees.ite (agrees_pure ()) (agrees_stop e)

/-- A program on a part of the state. -/
lemma Agrees.zoom {J : τ → τ → Prop} {read : σ → τ} {write : τ → σ → σ} {x : Exec ε ω τ α} (hx : Agrees J P x)
    (hread : ∀ {s s'}, I s s' → J (read s) (read s'))
    (hwrite : ∀ {s s' t t'}, I s s' → J t t' → I (write t s) (write t' s')) :
    Agrees I P (zoom read write x) := by
  intro s s' h
  unfold AgreesAt
  rw [Exec.zoom, mk_run, mk_run]
  intro hP
  obtain ⟨hval, hout, hst⟩ := hx (hread h) hP
  exact ⟨hval, hout, hwrite h hst⟩

end

end Libtux.Lib.Exec
