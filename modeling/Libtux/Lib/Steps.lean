import Libtux.Lib.Relate

/-!
# Programs that make one access at a time

`Steps` is a program between whose accesses others may go on. Run without interruption it has one meaning
(`Steps.exec`), and `Splits p x` says that this is the meaning of the program `x`. Two predicates are about the
accesses one by one: `Blind R`, that none of them looks at what `R` leaves open, and `Keeps I`, that each of them
keeps `I`. All three are proved along the syntax.
-/

namespace Libtux.Lib

/-- A program that makes its accesses to the state one at a time. What comes next may depend on what it saw. -/
inductive Steps (ε σ α : Type) where
  | ret (a : α)
  | stop (e : ε)
  | step (f : σ → σ) (k : σ → Steps ε σ α)

namespace Steps

variable {ε ω σ α β : Type}

/-- The run without interruption. -/
def exec : Steps ε σ α → σ → Except ε α × σ
  | ret a, s => (.ok a, s)
  | stop e, s => (.error e, s)
  | step f k, s => (k s).exec (f s)

/-- One program after another. -/
def bind : Steps ε σ α → (α → Steps ε σ β) → Steps ε σ β
  | ret a, q => q a
  | stop e, _ => stop e
  | step f k, q => step f fun s => (k s).bind q

instance : Monad (Steps ε σ) where
  pure := ret
  bind := bind

/-- What is left of an access. -/
def result : Except ε α → Steps ε σ α
  | .ok a => ret a
  | .error e => stop e

/-- One access, which is a whole program of its own. -/
def access (x : Exec ε ω σ α) : Steps ε σ α :=
  step (fun s => (x.run s).st) fun s => result (x.run s).val

/-- Stop with `e` unless `c` holds. -/
def check (c : Prop) [Decidable c] (e : ε) : Steps ε σ Unit := if c then pure () else stop e

/-- The program makes the accesses of `x` one at a time. -/
def Splits (p : Steps ε σ α) (x : Exec ε ω σ α) : Prop := ∀ s, p.exec s = ((x.run s).val, (x.run s).st)

/-- One access. -/
lemma splits_access (x : Exec ε ω σ α) : Splits (access x) x := by
  intro s
  rw [access, exec]
  cases (x.run s).val with
  | ok a => rfl
  | error e => rfl

/-- A value. -/
lemma splits_pure (a : α) : Splits (pure a) (pure a : Exec ε ω σ α) := by
  intro s
  rw [Exec.pure_run]
  rfl

/-- The second half goes on from what the first one left. -/
lemma exec_bind (p : Steps ε σ α) (q : α → Steps ε σ β) (s : σ) : (p >>= q).exec s =
    match p.exec s with
    | (.ok a, t) => (q a).exec t
    | (.error e, t) => (.error e, t) := by
  show (p.bind q).exec s = _
  induction p generalizing s with
  | ret a => rfl
  | stop e => rfl
  | step f k ih => exact ih s (f s)

/-- Two halves are split one after the other. -/
lemma Splits.bind {p : Steps ε σ α} {x : Exec ε ω σ α} {q : α → Steps ε σ β} {f : α → Exec ε ω σ β}
    (hp : Splits p x) (hq : ∀ a, Splits (q a) (f a)) : Splits (p >>= q) (x >>= f) := by
  intro s
  rw [exec_bind, hp s, Exec.bind_run]
  generalize x.run s = r
  obtain ⟨v, t, l⟩ := r
  cases v with
  | error e => rw [Exec.andThen_error]
  | ok a =>
    rw [Exec.andThen_ok]
    exact hq a t

/-- A read of a part of the state. -/
lemma Splits.read_bind {g : σ → α} {q : α → Steps ε σ β} {f : σ → Exec ε ω σ β}
    (hq : ∀ s, Splits (q (g s)) (f s)) :
    Splits (access (Exec.gets g : Exec ε ω σ α) >>= q) (Exec.get >>= f) := by
  intro s
  rw [exec_bind, splits_access, Exec.gets_run, Exec.bind_run, Exec.get_run, Exec.andThen_ok_nil]
  exact hq s s

/-- An event is no access. -/
lemma Splits.tell_bind {e : ω} {p : Steps ε σ α} {f : Unit → Exec ε ω σ α} (hp : Splits p (f ())) :
    Splits p (Exec.tell e >>= f) := by
  intro s
  rw [hp s, Exec.bind_run, Exec.tell_run, Exec.andThen_ok]

/-- An assertion. -/
lemma splits_check (c : Prop) [Decidable c] (e : ε) :
    Splits (check c e) (Exec.check c e : Exec ε ω σ Unit) := by
  unfold check Exec.check
  split
  · exact splits_pure ()
  · intro s
    rw [Exec.stop_run]
    rfl

/-- Two branches. -/
lemma Splits.ite {c : Prop} [Decidable c] {p q : Steps ε σ α} {x y : Exec ε ω σ α} (hp : Splits p x)
    (hq : Splits q y) : Splits (if c then p else q) (if c then x else y) := by
  split
  · exact hp
  · exact hq

/-- The program does not look at what `R` leaves open. -/
def Blind (R : σ → σ → Prop) : Steps ε σ α → Prop
  | ret _ => True
  | stop _ => True
  | step f k => (∀ s s', R s s' → R (f s) (f s') ∧ k s' = k s) ∧ ∀ s, (k s).Blind R

variable {R : σ → σ → Prop}

/-- A result needs no state. -/
lemma blind_result (v : Except ε α) : (result v : Steps ε σ α).Blind R := by
  cases v with
  | ok a => trivial
  | error e => trivial

/-- An access that agrees on related states. -/
lemma blind_access {x : Exec ε ω σ α} (hx : Exec.Agrees R (fun _ => True) x) : (access x).Blind R := by
  refine ⟨fun s s' h => ?_, fun s => blind_result _⟩
  obtain ⟨hval, -, hst⟩ := hx h fun _ _ => trivial
  exact ⟨hst, congrArg result hval⟩

/-- Two halves. -/
lemma Blind.bind {p : Steps ε σ α} {q : α → Steps ε σ β} (hp : p.Blind R) (hq : ∀ a, (q a).Blind R) :
    (p >>= q).Blind R := by
  show (p.bind q).Blind R
  induction p with
  | ret a => exact hq a
  | stop e => trivial
  | step f k ih =>
    refine ⟨fun s s' h => ⟨(hp.1 s s' h).1, ?_⟩, fun s => ih s (hp.2 s)⟩
    dsimp only
    rw [(hp.1 s s' h).2]

/-- Two branches. -/
lemma Blind.ite {c : Prop} [Decidable c] {p q : Steps ε σ α} (hp : p.Blind R) (hq : q.Blind R) :
    (if c then p else q).Blind R := by
  split
  · exact hp
  · exact hq

/-- An assertion. -/
lemma blind_check (c : Prop) [Decidable c] (e : ε) : (check c e : Steps ε σ Unit).Blind R := by
  unfold check
  split
  · trivial
  · trivial

/-- From related states it ends in the same way, in related ones. -/
lemma Blind.exec {p : Steps ε σ α} (hp : p.Blind R) {s s' : σ} (h : R s s') :
    (p.exec s').1 = (p.exec s).1 ∧ R (p.exec s).2 (p.exec s').2 := by
  induction p generalizing s s' with
  | ret a => exact ⟨rfl, h⟩
  | stop e => exact ⟨rfl, h⟩
  | step f k ih =>
    obtain ⟨hf, hk⟩ := hp.1 s s' h
    rw [Steps.exec, Steps.exec, hk]
    exact ih s (hp.2 s) hf

/-! ## What every access keeps -/

section
variable {I : σ → Prop}

/-- Every access keeps `I`. -/
def Keeps (I : σ → Prop) : Steps ε σ α → Prop
  | ret _ => True
  | stop _ => True
  | step f k => ∀ s, I s → I (f s) ∧ (k s).Keeps I

/-- A result changes nothing. -/
lemma keeps_result (v : Except ε α) : (result v : Steps ε σ α).Keeps I := by
  cases v with
  | ok a => trivial
  | error e => trivial

/-- An access that keeps what should hold. -/
lemma keeps_access {x : Exec ε ω σ α} (hx : ∀ s, I s → I (x.run s).st) : (access x).Keeps I :=
  fun s hs => ⟨hx s hs, keeps_result _⟩

/-- Two halves. -/
lemma Keeps.bind {p : Steps ε σ α} {q : α → Steps ε σ β} (hp : p.Keeps I) (hq : ∀ a, (q a).Keeps I) :
    (p >>= q).Keeps I := by
  show (p.bind q).Keeps I
  induction p with
  | ret a => exact hq a
  | stop e => trivial
  | step f k ih => exact fun s hs => ⟨(hp s hs).1, ih s (hp s hs).2⟩

/-- A read of the state, where what comes next may use that `I` held. -/
lemma Keeps.read_bind {g : σ → α} {q : α → Steps ε σ β} (hq : ∀ s, I s → (q (g s)).Keeps I) :
    (access (Exec.gets g : Exec ε ω σ α) >>= q).Keeps I := by
  intro s hs
  show I ((Exec.gets g : Exec ε ω σ α).run s).st ∧
    ((result ((Exec.gets g : Exec ε ω σ α).run s).val).bind q).Keeps I
  rw [Exec.gets_run]
  exact ⟨hs, hq s hs⟩

/-- Two branches, each under its condition. -/
lemma Keeps.ite {c : Prop} [Decidable c] {p q : Steps ε σ α} (hp : c → p.Keeps I) (hq : ¬ c → q.Keeps I) :
    (if c then p else q).Keeps I := by
  split
  · rename_i hc
    exact hp hc
  · rename_i hc
    exact hq hc

/-- What follows an assertion may rely on it. -/
lemma Keeps.check_bind {c : Prop} [Decidable c] {e : ε} {q : Unit → Steps ε σ α} (hq : c → (q ()).Keeps I) :
    (check c e >>= q).Keeps I := by
  unfold check
  split
  · rename_i hc
    exact hq hc
  · trivial

end

end Steps

end Libtux.Lib
