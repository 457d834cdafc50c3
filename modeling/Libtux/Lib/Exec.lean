import Mathlib.Tactic

/-!
# Programs that run, stop and leave a trace

`Exec ε ω σ α` is the shape of a modelled C function: from a state `σ` it either returns a value
of `α` or stops with an `ε` (a failed assertion, a thread that exits), and in both cases it leaves a
state and the list of events `ω` it went through. The events are what the memory-safety results are
about, so they survive a stop.

The rules below are the ones the development runs on. `bind_run` says how two programs compose;
`all_bind` distributes a property of every event over a composition, and `bind_ok` inverts a
composition that returned. The rules for `>>=` and `andThen` are proved by `simp` and not by `rfl` on
purpose: a rewriting step then carries its proof, and the kernel never has to evaluate a condition of
the program to follow it.
-/

namespace Libtux.Lib

/-- What one run of a program leaves behind. -/
structure Res (ε ω σ α : Type) where
  val : Except ε α
  st : σ
  out : List ω

/-- A result is its parts. -/
lemma Res.eq_mk {ε ω σ α : Type} {r : Res ε ω σ α} {v : Except ε α} (h : r.val = v) :
    r = ⟨v, r.st, r.out⟩ := by
  rw [← h]

/-- A program over the state `σ` that may stop with an `ε` and emits events `ω`. -/
structure Exec (ε ω σ α : Type) where
  body : σ → Res ε ω σ α

namespace Exec

variable {ε ω σ τ α β : Type}

/-- Run a program. This is not the projection: two runs are compared by comparing the programs and the
states, and not by running them. -/
def run (x : Exec ε ω σ α) (s : σ) : Res ε ω σ α := x.body s

/-- Programs with the same runs are the same. -/
lemma ext {x y : Exec ε ω σ α} (h : ∀ s, x.run s = y.run s) : x = y := by
  cases x
  cases y
  exact congrArg Exec.mk (funext h)

/-- A function is run. -/
@[simp] lemma mk_run (f : σ → Res ε ω σ α) (s : σ) : (Exec.mk f).run s = f s := by
  rw [run]

/-- Run `f` on what `r` returned, after the events of `r`. -/
def andThen (r : Res ε ω σ α) (f : α → Exec ε ω σ β) : Res ε ω σ β :=
  match r with
  | ⟨.ok a, s, l⟩ => ⟨((f a).run s).val, ((f a).run s).st, l ++ ((f a).run s).out⟩
  | ⟨.error e, s, l⟩ => ⟨.error e, s, l⟩

instance : Monad (Exec ε ω σ) where
  pure a := ⟨fun s => ⟨.ok a, s, []⟩⟩
  bind x f := ⟨fun s => andThen (x.run s) f⟩

/-- Read the state. -/
def get : Exec ε ω σ σ := ⟨fun s => ⟨.ok s, s, []⟩⟩

/-- Read a part of the state. -/
def gets (f : σ → α) : Exec ε ω σ α := ⟨fun s => ⟨.ok (f s), s, []⟩⟩

/-- Change the state. -/
def modify (f : σ → σ) : Exec ε ω σ Unit := ⟨fun s => ⟨.ok (), f s, []⟩⟩

/-- Emit an event. -/
def tell (e : ω) : Exec ε ω σ Unit := ⟨fun s => ⟨.ok (), s, [e]⟩⟩

/-- Stop. -/
def stop (e : ε) : Exec ε ω σ α := ⟨fun s => ⟨.error e, s, []⟩⟩

/-- Stop with `e` unless `p` holds. -/
def check (p : Prop) [Decidable p] (e : ε) : Exec ε ω σ Unit :=
  if p then pure () else stop e

/-- Run a program on a part of the state. -/
def zoom (read : σ → τ) (write : τ → σ → σ) (x : Exec ε ω τ α) : Exec ε ω σ α :=
  ⟨fun s => ⟨(x.run (read s)).val, write (x.run (read s)).st s, (x.run (read s)).out⟩⟩

/-- A value is returned. -/
@[simp] lemma pure_run (a : α) (s : σ) : (pure a : Exec ε ω σ α).run s = ⟨.ok a, s, []⟩ := by
  simp only [pure, mk_run]

/-- The state is read, -/
@[simp] lemma get_run (s : σ) : (get : Exec ε ω σ σ).run s = ⟨.ok s, s, []⟩ := by
  rw [get, mk_run]

/-- or a part of it, -/
@[simp] lemma gets_run (f : σ → α) (s : σ) :
    (gets f : Exec ε ω σ α).run s = ⟨.ok (f s), s, []⟩ := by
  rw [gets, mk_run]

/-- or it is changed. -/
@[simp] lemma modify_run (f : σ → σ) (s : σ) :
    (modify f : Exec ε ω σ Unit).run s = ⟨.ok (), f s, []⟩ := by
  rw [modify, mk_run]

/-- An event is gone through. -/
@[simp] lemma tell_run (e : ω) (s : σ) : (tell e : Exec ε ω σ Unit).run s = ⟨.ok (), s, [e]⟩ := by
  rw [tell, mk_run]

/-- A run is stopped. -/
@[simp] lemma stop_run (e : ε) (s : σ) : (stop e : Exec ε ω σ α).run s = ⟨.error e, s, []⟩ := by
  rw [stop, mk_run]

/-- The second half follows what the first one left. -/
@[simp] lemma bind_run (x : Exec ε ω σ α) (f : α → Exec ε ω σ β) (s : σ) :
    (x >>= f).run s = andThen (x.run s) f := by
  simp only [bind, mk_run]

/-- After a half that returned, the events come one after the other. -/
@[simp] lemma andThen_ok (a : α) (s : σ) (l : List ω) (f : α → Exec ε ω σ β) :
    andThen ⟨.ok a, s, l⟩ f =
      ⟨((f a).run s).val, ((f a).run s).st, l ++ ((f a).run s).out⟩ := by
  simp only [andThen]

/-- After a half without events, they are those of the second. -/
@[simp high] lemma andThen_ok_nil (a : α) (s : σ) (f : α → Exec ε ω σ β) :
    andThen ⟨.ok a, s, []⟩ f = (f a).run s := by
  simp only [andThen, List.nil_append]

/-- The result is that of the second half. -/
lemma andThen_ok_val (a : α) (s : σ) (l : List ω) (f : α → Exec ε ω σ β) :
    (andThen ⟨.ok a, s, l⟩ f).val = ((f a).run s).val := by
  rw [andThen_ok]

/-- A half that stopped is the end. -/
@[simp] lemma andThen_error (e : ε) (s : σ) (l : List ω) (f : α → Exec ε ω σ β) :
    andThen ⟨.error e, s, l⟩ f = ⟨.error e, s, l⟩ := by
  simp only [andThen]

/-- Three programs in a row. -/
lemma bind_assoc_run {γ : Type} (x : Exec ε ω σ α) (f : α → Exec ε ω σ β) (g : β → Exec ε ω σ γ) (s : σ) :
    (x >>= f >>= g).run s = (x >>= fun a => f a >>= g).run s := by
  simp only [bind_run]
  generalize x.run s = r
  obtain ⟨v, t, l⟩ := r
  cases v with
  | error e => simp only [andThen_error]
  | ok a =>
    simp only [andThen_ok, bind_run]
    generalize (f a).run t = r
    obtain ⟨v, t', l'⟩ := r
    cases v with
    | error e => simp only [andThen_error]
    | ok b => simp only [andThen_ok, List.append_assoc]

/-- A branch is run. -/
@[simp] lemma ite_run (p : Prop) [Decidable p] (x y : Exec ε ω σ α) (s : σ) :
    (if p then x else y).run s = if p then x.run s else y.run s := by
  split <;> rfl

/-- Reading the state and branching on it. The condition is abstract here, so that the kernel has no
instance to evaluate when the rule is used. -/
lemma get_ite_run (p : σ → Prop) [∀ s, Decidable (p s)] (x y : σ → Exec ε ω σ α) (s : σ) :
    (get >>= fun s => if p s then x s else y s).run s =
      if p s then (x s).run s else (y s).run s := by
  rw [bind_run, get_run, andThen_ok_nil, ite_run]

/-- A branch on what the first half returned. -/
lemma andThen_ok_ite (a : α) (s : σ) (l : List ω) (p : α → Prop) [∀ a, Decidable (p a)]
    (x y : α → Exec ε ω σ β) :
    andThen ⟨.ok a, s, l⟩ (fun a => if p a then x a else y a) =
      if p a then andThen ⟨.ok a, s, l⟩ x else andThen ⟨.ok a, s, l⟩ y := by
  rw [andThen_ok, andThen_ok, andThen_ok]
  split <;> rfl

/-- An assertion returns, or stops the run. -/
lemma check_run (p : Prop) [Decidable p] (e : ε) (s : σ) :
    (check p e : Exec ε ω σ Unit).run s = if p then ⟨.ok (), s, []⟩ else ⟨.error e, s, []⟩ := by
  unfold check
  split <;> rfl

/-- An assertion before a program. -/
lemma check_bind_run (p : Prop) [Decidable p] (e : ε) (x : Exec ε ω σ α) (s : σ) :
    (check p e >>= fun _ => x).run s = if p then x.run s else ⟨.error e, s, []⟩ := by
  rw [bind_run, check_run]
  split
  · rw [andThen_ok_nil]
  · rw [andThen_error]

/-- Every event of the run satisfies `P`. -/
def All (P : ω → Prop) (x : Exec ε ω σ α) (s : σ) : Prop := ∀ e ∈ (x.run s).out, P e

/-- A composition emits only good events when both of its halves do. -/
lemma all_bind {P : ω → Prop} {x : Exec ε ω σ α} {f : α → Exec ε ω σ β} {s : σ} :
    All P (x >>= f) s ↔
      All P x s ∧ ∀ a, (x.run s).val = .ok a → All P (f a) (x.run s).st := by
  simp only [All, bind_run]
  rcases x.run s with ⟨v, t, l⟩
  cases v with
  | error e => simp
  | ok a => simp [or_imp, forall_and]

/-- Every event of every run satisfies `P`. -/
def Emits (P : ω → Prop) (x : Exec ε ω σ α) : Prop := ∀ s, All P x s

section
variable {P : ω → Prop}

/-- A program without events. -/
lemma emits_of_out {x : Exec ε ω σ α} (h : ∀ s, (x.run s).out = []) : Emits P x := by
  intro s e he
  rw [h s] at he
  cases he

/-- A value has none. -/
lemma emits_pure (a : α) : Emits P (pure a : Exec ε ω σ α) := emits_of_out fun _ => rfl

/-- The state is read without one, -/
lemma emits_get : Emits P (get : Exec ε ω σ σ) := emits_of_out fun _ => rfl

/-- and so is a part of it. -/
lemma emits_gets (f : σ → α) : Emits P (gets f : Exec ε ω σ α) := emits_of_out fun _ => rfl

/-- A change is none, -/
lemma emits_modify (f : σ → σ) : Emits P (modify f : Exec ε ω σ Unit) := emits_of_out fun _ => rfl

/-- and neither is a stop. -/
lemma emits_stop (e : ε) : Emits P (stop e : Exec ε ω σ α) := emits_of_out fun _ => rfl

/-- An event that is as asked for. -/
lemma emits_tell {e : ω} (h : P e) : Emits P (tell e : Exec ε ω σ Unit) := by
  intro s e' he
  rw [tell_run] at he
  cases List.mem_singleton.mp he
  exact h

/-- The events of two halves are those of the one and of the other. -/
lemma Emits.bind {x : Exec ε ω σ α} {f : α → Exec ε ω σ β} (hx : Emits P x) (hf : ∀ a, Emits P (f a)) :
    Emits P (x >>= f) := fun s => all_bind.mpr ⟨hx s, fun a _ => hf a _⟩

/-- The events of both branches. -/
lemma Emits.ite {p : Prop} [Decidable p] {x y : Exec ε ω σ α} (hx : Emits P x) (hy : Emits P y) :
    Emits P (if p then x else y) := by
  split
  · exact hx
  · exact hy

/-- An assertion has none. -/
lemma emits_check (p : Prop) [Decidable p] (e : ε) : Emits P (check p e : Exec ε ω σ Unit) :=
  Emits.ite (emits_pure ()) (emits_stop e)

/-- A program on a part of the state has the events that it has there. -/
lemma Emits.zoom {x : Exec ε ω τ α} (hx : Emits P x) (read : σ → τ) (write : τ → σ → σ) :
    Emits P (zoom read write x) := by
  intro s e he
  rw [Exec.zoom, mk_run] at he
  exact hx (read s) e he

end

/-- Nothing is emitted, and `f` of the state is kept. -/
def Quiet (f : σ → τ) (x : Exec ε ω σ α) : Prop := ∀ s, (x.run s).out = [] ∧ f (x.run s).st = f s

section
variable {f : σ → τ}

/-- A value leaves everything. -/
lemma quiet_pure (a : α) : Quiet f (pure a : Exec ε ω σ α) := fun _ => ⟨rfl, rfl⟩

/-- So does a look at the state, -/
lemma quiet_get : Quiet f (get : Exec ε ω σ σ) := fun _ => ⟨rfl, rfl⟩

/-- or at a part of it. -/
lemma quiet_gets (g : σ → α) : Quiet f (gets g : Exec ε ω σ α) := fun _ => ⟨rfl, rfl⟩

/-- A change that leaves the part. -/
lemma quiet_modify {g : σ → σ} (h : ∀ s, f (g s) = f s) : Quiet f (modify g : Exec ε ω σ Unit) :=
  fun s => ⟨rfl, h s⟩

/-- An assertion leaves everything. -/
lemma quiet_check (p : Prop) [Decidable p] (e : ε) : Quiet f (check p e : Exec ε ω σ Unit) := by
  intro s
  rw [check_run]
  split <;> exact ⟨rfl, rfl⟩

/-- Two quiet halves are quiet together. -/
lemma Quiet.bind {x : Exec ε ω σ α} {g : α → Exec ε ω σ β} (hx : Quiet f x)
    (hg : ∀ a, Quiet f (g a)) : Quiet f (x >>= g) := by
  intro s
  have hs := hx s
  rw [bind_run]
  generalize x.run s = r at hs
  obtain ⟨v, t, l⟩ := r
  cases v with
  | error e =>
    rw [andThen_error]
    exact hs
  | ok a =>
    obtain ⟨rfl, ht⟩ := hs
    rw [andThen_ok_nil]
    exact ⟨(hg a t).1, (hg a t).2.trans ht⟩

/-- So are two branches. -/
lemma Quiet.ite {p : Prop} [Decidable p] {x y : Exec ε ω σ α} (hx : Quiet f x) (hy : Quiet f y) :
    Quiet f (if p then x else y) := by
  split
  · exact hx
  · exact hy

end

/-- `f` of the state is kept, whatever is emitted. -/
def Keeps (f : σ → τ) (x : Exec ε ω σ α) : Prop := ∀ s, f (x.run s).st = f s

section
variable {f : σ → τ}

/-- A quiet program leaves the part, -/
lemma Quiet.keeps {x : Exec ε ω σ α} (h : Quiet f x) : Keeps f x := fun s => (h s).2

/-- as a value does -/
lemma keeps_pure (a : α) : Keeps f (pure a : Exec ε ω σ α) := (quiet_pure a).keeps

/-- and a look at the state. -/
lemma keeps_get : Keeps f (get : Exec ε ω σ σ) := quiet_get.keeps

/-- Two halves that leave a part do so together. -/
lemma Keeps.bind {x : Exec ε ω σ α} {g : α → Exec ε ω σ β} (hx : Keeps f x)
    (hg : ∀ a, Keeps f (g a)) : Keeps f (x >>= g) := by
  intro s
  have hs := hx s
  rw [bind_run]
  generalize x.run s = r at hs
  obtain ⟨v, t, l⟩ := r
  cases v with
  | error e =>
    rw [andThen_error]
    exact hs
  | ok a =>
    rw [andThen_ok]
    exact (hg a t).trans hs

/-- So do two branches. -/
lemma Keeps.ite {p : Prop} [Decidable p] {x y : Exec ε ω σ α} (hx : Keeps f x) (hy : Keeps f y) :
    Keeps f (if p then x else y) := by
  split
  · exact hx
  · exact hy

end

/-- Inversion of a composition that returned. -/
lemma bind_ok {x : Exec ε ω σ α} {f : α → Exec ε ω σ β} {s : σ} {b : β}
    (h : ((x >>= f).run s).val = .ok b) :
    ∃ a, (x.run s).val = .ok a ∧ ((f a).run (x.run s).st).val = .ok b ∧
      ((x >>= f).run s).st = ((f a).run (x.run s).st).st ∧
      ((x >>= f).run s).out = (x.run s).out ++ ((f a).run (x.run s).st).out := by
  simp only [bind_run] at h ⊢
  generalize x.run s = r at h ⊢
  obtain ⟨v, t, l⟩ := r
  cases v with
  | error e => cases h
  | ok a => exact ⟨a, rfl, h, rfl, rfl⟩

end Exec
end Libtux.Lib
