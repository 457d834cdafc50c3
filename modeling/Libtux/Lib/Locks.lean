import Libtux.Lib.Run
import Libtux.Lib.Steps
import Mathlib.Data.List.ReduceOption

/-!
# Calls under two locks are atomic

Threads make calls on a state of two parts, each under a lock of its own. A call takes the lock of the inner part
alone, or the lock of the outer part and under it, perhaps, that of the inner one (`Critical`). It makes its accesses
one at a time (`Steps`), and the threads interleave in any way (`Step`). All the while others may change the inner
part within `R`, which the calls do not look at (`Steps.Blind`).

In the `Atomic` system a call is one step. Whatever the threads of the first system see, in the order in which
they see it, they see in a run of the second (`Run.atomic`): a call takes effect when it has taken its last lock.
From every state that is reached all calls can come to an end (`Run.ends`), as the locks are taken in one order.
And what every access keeps holds in every state, also amid the calls (`Run.keeps`).
-/

namespace Libtux.Lib

/-! ## Calls -/

/-- What a call does once it has read the outer part: it stops, it writes the outer part and returns, or it goes
on with the inner part. -/
inductive Plan (ε B S ρ : Type) where
  | stop (e : ε)
  | finish (b : B) (r : ρ)
  | nested (x : Steps ε S ρ) (fin : ρ → B × ρ)

/-- A call under the inner lock, or under the outer one and what it plans there. -/
inductive Critical (ε B S ρ : Type) where
  | inner (x : Steps ε S ρ)
  | outer (plan : B → Plan ε B S ρ)

section
variable {ε B S ρ T C : Type}

/-- What a call that has planned does to both parts, at once. -/
def Plan.exec (p : Plan ε B S ρ) (s : B × S) : Except ε ρ × B × S :=
  match p with
  | .stop e => (.error e, s)
  | .finish b r => (.ok r, b, s.2)
  | .nested x fin =>
    match x.exec s.2 with
    | (.ok v, t) => (.ok (fin v).2, (fin v).1, t)
    | (.error e, t) => (.error e, s.1, t)

/-- A plan whose inner part returns. -/
lemma Plan.exec_nested_ok {x : Steps ε S ρ} {fin : ρ → B × ρ} {b : B} {i t : S} {v : ρ}
    (h : x.exec i = (.ok v, t)) : (Plan.nested x fin).exec (b, i) = (.ok (fin v).2, (fin v).1, t) := by
  simp only [Plan.exec, h]

/-- A plan whose inner part stops. -/
lemma Plan.exec_nested_error {x : Steps ε S ρ} {fin : ρ → B × ρ} {b : B} {i t : S} {e : ε}
    (h : x.exec i = (.error e, t)) : (Plan.nested x fin).exec (b, i) = (.error e, b, t) := by
  simp only [Plan.exec, h]

/-- What a call does to both parts, at once. -/
def Critical.exec (c : Critical ε B S ρ) (s : B × S) : Except ε ρ × B × S :=
  match c with
  | .inner x => ((x.exec s.2).1, s.1, (x.exec s.2).2)
  | .outer plan => (plan s.1).exec s

/-- A plan does the same with parts that the others cannot tell apart. -/
def Plan.Blind (R : S → S → Prop) : Plan ε B S ρ → Prop
  | .nested x _ => x.Blind R
  | _ => True

/-- So does a call. -/
def Critical.Blind (R : S → S → Prop) : Critical ε B S ρ → Prop
  | .inner x => x.Blind R
  | .outer plan => ∀ b, (plan b).Blind R

/-- What is seen of the threads: a call starts, returns, or aborts. -/
inductive Label (T C ε ρ : Type) where
  | call (t : T) (c : C)
  | ret (t : T) (r : ρ)
  | abort (t : T) (e : ε)

/-! ## Threads that interleave -/

/-- Where a thread is. -/
inductive Pc (ε B S ρ : Type) where
  | idle
  /-- Before its first lock. -/
  | start (c : Critical ε B S ρ)
  /-- With the inner lock. -/
  | inner (x : Steps ε S ρ)
  /-- With the outer lock, before it reads the outer part. -/
  | plan (p : B → Plan ε B S ρ)
  /-- With the outer lock, before the inner one. -/
  | nest (x : Steps ε S ρ) (fin : ρ → B × ρ)
  /-- With both locks. -/
  | both (x : Steps ε S ρ) (fin : ρ → B × ρ)
  /-- With the outer lock, before it writes the outer part. -/
  | write (b : B) (r : ρ)
  /-- With the outer lock, at the end. -/
  | leave (r : ρ)
  /-- Without locks, before it returns. -/
  | done (r : ρ)
  /-- Aborted, with the locks that it has. -/
  | dead (lkOuter lkInner : Bool)

/-- The state of the threads and of what they share. -/
structure Conf (T ε B S ρ : Type) where
  outer : B
  inner : S
  lkOuter : Option T
  lkInner : Option T
  pc : T → Pc ε B S ρ

variable [DecidableEq T]

/-- Thread `t` goes on at `p`. -/
def Conf.go (c : Conf T ε B S ρ) (t : T) (p : Pc ε B S ρ) : Conf T ε B S ρ :=
  { c with pc := Function.update c.pc t p }

/-- The steps. A step of a thread is one access, or takes or gives back one lock. -/
inductive Step (impl : C → Critical ε B S ρ) (R : S → S → Prop) :
    Conf T ε B S ρ → Option (Label T C ε ρ) → Conf T ε B S ρ → Prop where
  | call {s t} (c : C) : s.pc t = .idle → Step impl R s (some (.call t c)) (s.go t (.start (impl c)))
  | lockInner {s t x} : s.pc t = .start (.inner x) → s.lkInner = none →
    Step impl R s none { s.go t (.inner x) with lkInner := some t }
  | inner {s t f k} : s.pc t = .inner (.step f k) →
    Step impl R s none { s.go t (.inner (k s.inner)) with inner := f s.inner }
  | unlockInner {s t r} : s.pc t = .inner (.ret r) → Step impl R s none { s.go t (.done r) with lkInner := none }
  | innerAbort {s t e} : s.pc t = .inner (.stop e) → Step impl R s (some (.abort t e)) (s.go t (.dead false true))
  | lockOuter {s t p} : s.pc t = .start (.outer p) → s.lkOuter = none →
    Step impl R s none { s.go t (.plan p) with lkOuter := some t }
  | planAbort {s t p e} : s.pc t = .plan p → p s.outer = .stop e →
    Step impl R s (some (.abort t e)) (s.go t (.dead true false))
  | planFinish {s t p b r} : s.pc t = .plan p → p s.outer = .finish b r → Step impl R s none (s.go t (.write b r))
  | planNested {s t p x fin} : s.pc t = .plan p → p s.outer = .nested x fin →
    Step impl R s none (s.go t (.nest x fin))
  | lockBoth {s t x fin} : s.pc t = .nest x fin → s.lkInner = none →
    Step impl R s none { s.go t (.both x fin) with lkInner := some t }
  | both {s t f k fin} : s.pc t = .both (.step f k) fin →
    Step impl R s none { s.go t (.both (k s.inner) fin) with inner := f s.inner }
  | unlockBoth {s t r fin} : s.pc t = .both (.ret r) fin →
    Step impl R s none { s.go t (.write (fin r).1 (fin r).2) with lkInner := none }
  | bothAbort {s t e fin} : s.pc t = .both (.stop e) fin →
    Step impl R s (some (.abort t e)) (s.go t (.dead true true))
  | write {s t b r} : s.pc t = .write b r → Step impl R s none { s.go t (.leave r) with outer := b }
  | unlockOuter {s t r} : s.pc t = .leave r → Step impl R s none { s.go t (.done r) with lkOuter := none }
  | ret {s t r} : s.pc t = .done r → Step impl R s (some (.ret t r)) (s.go t .idle)
  | other {s i} : R s.inner i → Step impl R s none { s with inner := i }

/-! ## Calls that are one step -/

/-- Where a thread is in its call. -/
inductive Place (C ε ρ : Type) where
  | idle
  | called (c : C)
  | decided (v : Except ε ρ)
  | dead

/-- The state, as the calls see it. -/
structure Atomic (T C ε B S ρ : Type) where
  outer : B
  inner : S
  place : T → Place C ε ρ

/-- Thread `t` is at `p`. -/
def Atomic.go (a : Atomic T C ε B S ρ) (t : T) (p : Place C ε ρ) : Atomic T C ε B S ρ :=
  { a with place := Function.update a.place t p }

/-- The steps. A call has its effect in one of them. -/
inductive Atomic.Step (spec : C → B × S → Except ε ρ × B × S) :
    Atomic T C ε B S ρ → Option (Label T C ε ρ) → Atomic T C ε B S ρ → Prop where
  | call {a t} (c : C) : a.place t = .idle → Step spec a (some (.call t c)) (a.go t (.called c))
  | commit {a t c v b s} : a.place t = .called c → spec c (a.outer, a.inner) = (v, b, s) →
    Step spec a none { a.go t (.decided v) with outer := b, inner := s }
  | ret {a t r} : a.place t = .decided (.ok r) → Step spec a (some (.ret t r)) (a.go t .idle)
  | abort {a t e} : a.place t = .decided (.error e) → Step spec a (some (.abort t e)) (a.go t .dead)

/-! ## The simulation -/

omit [DecidableEq T] in
/-- A thread that takes a lock changes nothing for the others. -/
lemma taken_iff {lk : Option T} {t u : T} (hfree : lk = none) (hu : u ≠ t) : some t = some u ↔ lk = some u := by
  rw [hfree]
  exact iff_of_false (fun he => hu (Option.some.inj he).symm) fun he => by cases he

omit [DecidableEq T] in
/-- Nor does one that gives it back. -/
lemma given_iff {lk : Option T} {t u : T} (hlk : lk = some t) (hu : u ≠ t) : none = some u ↔ lk = some u := by
  rw [hlk]
  exact iff_of_false (fun he => by cases he) fun he => hu (Option.some.inj he).symm

namespace Pc

/-- The thread has the outer lock. -/
def HoldsOuter : Pc ε B S ρ → Prop
  | plan _ | nest _ _ | both _ _ | write _ _ | leave _ => True
  | dead o _ => o
  | _ => False

/-- The thread has the inner lock. -/
def HoldsInner : Pc ε B S ρ → Prop
  | inner _ | both _ _ => True
  | dead _ i => i
  | _ => False

/-- What the outer part is in the end, if the thread goes on alone. A call that has not taken its last lock has
not had its effect. -/
def endOuter (p : Pc ε B S ρ) (b : B) (i : S) : B :=
  match p with
  | write b' _ => b'
  | both x fin => ((Plan.nested x fin).exec (b, i)).2.1
  | _ => b

/-- What the inner part is in the end, if the thread goes on alone. -/
def endInner (p : Pc ε B S ρ) (i : S) : S :=
  match p with
  | inner x => (x.exec i).2
  | both x _ => (x.exec i).2
  | _ => i

end Pc

namespace Conf

/-- What the outer part is when its lock is free again. -/
def endOuter (s : Conf T ε B S ρ) : B :=
  match s.lkOuter with
  | none => s.outer
  | some t => (s.pc t).endOuter s.outer s.inner

/-- What the inner part is when its lock is free again. -/
def endInner (s : Conf T ε B S ρ) : S :=
  match s.lkInner with
  | none => s.inner
  | some t => (s.pc t).endInner s.inner

end Conf

/-- A thread in its call, beside the call in one step. -/
inductive At (impl : C → Critical ε B S ρ) (R : S → S → Prop) (b : B) (i : S) :
    Pc ε B S ρ → Place C ε ρ → Prop where
  | idle : At impl R b i .idle .idle
  | start {c x} : impl c = x → At impl R b i (.start x) (.called c)
  | inner {x} : x.Blind R → At impl R b i (.inner x) (.decided (x.exec i).1)
  | plan {p c} : impl c = .outer p → At impl R b i (.plan p) (.called c)
  | nest {p x fin c} : impl c = .outer p → p b = .nested x fin → At impl R b i (.nest x fin) (.called c)
  | both {x fin} : x.Blind R → At impl R b i (.both x fin) (.decided ((Plan.nested x fin).exec (b, i)).1)
  | write (b' r) : At impl R b i (.write b' r) (.decided (.ok r))
  | leave (r) : At impl R b i (.leave r) (.decided (.ok r))
  | done (r) : At impl R b i (.done r) (.decided (.ok r))
  | dead (o i' : Bool) : At impl R b i (.dead o i') .dead

variable {impl : C → Critical ε B S ρ} {R : S → S → Prop} {spec : C → B × S → Except ε ρ × B × S}

/-- A planned run of the inner part, from related inner parts. -/
lemma Plan.nested_exec {x : Steps ε S ρ} (hx : x.Blind R) (fin : ρ → B × ρ) (b : B) {i i' : S} (h : R i i') :
    ((Plan.nested x fin).exec (b, i')).1 = ((Plan.nested x fin).exec (b, i)).1 ∧
      ((Plan.nested x fin).exec (b, i')).2.1 = ((Plan.nested x fin).exec (b, i)).2.1 ∧
        ((Plan.nested x fin).exec (b, i)).2.2 = (x.exec i).2 := by
  obtain ⟨hval, -⟩ := hx.exec h
  unfold Plan.exec
  dsimp only
  generalize x.exec i = r at hval
  generalize x.exec i' = r' at hval
  obtain ⟨v, t⟩ := r
  obtain ⟨v', t'⟩ := r'
  cases hval
  cases v with
  | ok v => exact ⟨rfl, rfl, rfl⟩
  | error e => exact ⟨rfl, rfl, rfl⟩

/-- What other threads do to the parts that a thread has not locked makes no difference to it. -/
lemma At.other {b b' : B} {i i' : S} {p : Pc ε B S ρ} {pl : Place C ε ρ} (h : At impl R b i p pl)
    (hb : p.HoldsOuter → b' = b) (hi : p.HoldsInner → R i i') : At impl R b' i' p pl := by
  cases h with
  | idle => exact .idle
  | start hc => exact .start hc
  | inner hx =>
    rw [← (hx.exec (hi trivial)).1]
    exact .inner hx
  | plan hc => exact .plan hc
  | nest hc hp =>
    rw [← hb trivial] at hp
    exact .nest hc hp
  | both hx =>
    rw [← hb trivial, ← (Plan.nested_exec hx _ _ (hi trivial)).1]
    exact .both hx
  | write b r => exact .write b r
  | leave r => exact .leave r
  | done r => exact .done r
  | dead o i' => exact .dead o i'

/-- A state of the threads, beside one in which their calls are one step each: the parts are as the threads with
the locks will leave them. -/
structure Rel (impl : C → Critical ε B S ρ) (R : S → S → Prop) (s : Conf T ε B S ρ) (a : Atomic T C ε B S ρ) :
    Prop where
  outer : a.outer = s.endOuter
  inner : R s.endInner a.inner
  lkOuter : ∀ t, s.lkOuter = some t ↔ (s.pc t).HoldsOuter
  lkInner : ∀ t, s.lkInner = some t ↔ (s.pc t).HoldsInner
  thread : ∀ t, At impl R s.outer s.inner (s.pc t) (a.place t)

namespace Conf

variable {s : Conf T ε B S ρ} {t : T} {p : Pc ε B S ρ}

/-- A step that does not change what the outer part will be. -/
lemma endOuter_go (h : p.endOuter s.outer s.inner = (s.pc t).endOuter s.outer s.inner) :
    (s.go t p).endOuter = s.endOuter := by
  unfold endOuter go
  dsimp only
  cases s.lkOuter with
  | none => rfl
  | some u =>
    dsimp only
    rcases eq_or_ne u t with rfl | hne
    · rw [Function.update_self, h]
    · rw [Function.update_of_ne hne]

/-- A step that does not change what the inner part will be. -/
lemma endInner_go (h : p.endInner s.inner = (s.pc t).endInner s.inner) : (s.go t p).endInner = s.endInner := by
  unfold endInner go
  dsimp only
  cases s.lkInner with
  | none => rfl
  | some u =>
    dsimp only
    rcases eq_or_ne u t with rfl | hne
    · rw [Function.update_self, h]
    · rw [Function.update_of_ne hne]

end Conf

/-- Without the inner lock a thread does not look at the inner part. -/
lemma Pc.endOuter_inner {p : Pc ε B S ρ} (h : ¬ p.HoldsInner) (b : B) (i i' : S) :
    p.endOuter b i' = p.endOuter b i := by
  cases p with
  | both x fin => exact absurd trivial h
  | _ => rfl

namespace Rel

variable {s s' : Conf T ε B S ρ} {a a' : Atomic T C ε B S ρ} {t u : T} {p : Pc ε B S ρ} {q : Place C ε ρ}

omit [DecidableEq T] in
/-- Nobody else has the outer lock, -/
lemma outer_ne (h : Rel impl R s a) (ht : (s.pc t).HoldsOuter) (hne : u ≠ t) : ¬ (s.pc u).HoldsOuter := by
  intro hu
  have htu := ((h.lkOuter t).mpr ht).symm.trans ((h.lkOuter u).mpr hu)
  exact hne (Option.some.inj htu).symm

omit [DecidableEq T] in
/-- or the inner one. -/
lemma inner_ne (h : Rel impl R s a) (ht : (s.pc t).HoldsInner) (hne : u ≠ t) : ¬ (s.pc u).HoldsInner := by
  intro hu
  have htu := ((h.lkInner t).mpr ht).symm.trans ((h.lkInner u).mpr hu)
  exact hne (Option.some.inj htu).symm

omit [DecidableEq T] in
/-- A thread that goes on at `p` has the outer lock as before. -/
lemma has_outer (h : Rel impl R s a) {p' : Pc ε B S ρ} (hp : s.pc t = p') (ho : p.HoldsOuter ↔ p'.HoldsOuter) :
    s.lkOuter = some t ↔ p.HoldsOuter := by
  rw [h.lkOuter, hp]
  exact ho.symm

omit [DecidableEq T] in
/-- A thread that goes on at `p` has the inner lock as before. -/
lemma has_inner (h : Rel impl R s a) {p' : Pc ε B S ρ} (hp : s.pc t = p') (hi : p.HoldsInner ↔ p'.HoldsInner) :
    s.lkInner = some t ↔ p.HoldsInner := by
  rw [h.lkInner, hp]
  exact hi.symm

omit [DecidableEq T] in
/-- Where no thread has the lock, the outer parts are the same. -/
lemma free_outer (h : Rel impl R s a) (hfree : s.lkOuter = none) : a.outer = s.outer := by
  rw [h.outer, Conf.endOuter, hfree]

omit [DecidableEq T] in
/-- Where no thread has the lock, the inner parts are related. -/
lemma free_inner (h : Rel impl R s a) (hfree : s.lkInner = none) : R s.inner a.inner := by
  have hinner := h.inner
  rwa [Conf.endInner, hfree] at hinner

omit [DecidableEq T] in
/-- Where a thread has the outer lock and will not write, the outer parts are the same. -/
lemma held_outer (h : Rel impl R s a) (hp : s.pc t = p) (ho : p.HoldsOuter)
    (heo : p.endOuter s.outer s.inner = s.outer) : s.lkOuter = some t ∧ a.outer = s.outer := by
  have hlk : s.lkOuter = some t := (h.lkOuter t).mpr (hp ▸ ho)
  refine ⟨hlk, ?_⟩
  rw [h.outer, Conf.endOuter, hlk]
  dsimp only
  rw [hp, heo]

/-- A step of thread `t`, which goes on at `p` and is beside `q`. The other threads have no lock that it changes,
and none on what it writes. -/
lemma next (h : Rel impl R s a) (hR : ∀ i, R i i) (hpc : s'.pc = Function.update s.pc t p)
    (hpl : a'.place = Function.update a.place t q)
    (hb : ∀ u ≠ t, (s.pc u).HoldsOuter → s'.outer = s.outer)
    (hi : ∀ u ≠ t, (s.pc u).HoldsInner → s'.inner = s.inner)
    (hlo : ∀ u ≠ t, s'.lkOuter = some u ↔ s.lkOuter = some u) (hlo' : s'.lkOuter = some t ↔ p.HoldsOuter)
    (hli : ∀ u ≠ t, s'.lkInner = some u ↔ s.lkInner = some u) (hli' : s'.lkInner = some t ↔ p.HoldsInner)
    (hat : At impl R s'.outer s'.inner p q) (houter : a'.outer = s'.endOuter)
    (hinner : R s'.endInner a'.inner) : Rel impl R s' a' where
  outer := houter
  inner := hinner
  lkOuter u := by
    rw [hpc]
    rcases eq_or_ne u t with rfl | hne
    · rw [Function.update_self]
      exact hlo'
    · rw [Function.update_of_ne hne]
      exact (hlo u hne).trans (h.lkOuter u)
  lkInner u := by
    rw [hpc]
    rcases eq_or_ne u t with rfl | hne
    · rw [Function.update_self]
      exact hli'
    · rw [Function.update_of_ne hne]
      exact (hli u hne).trans (h.lkInner u)
  thread u := by
    rw [hpc, hpl]
    rcases eq_or_ne u t with rfl | hne
    · rw [Function.update_self, Function.update_self]
      exact hat
    · rw [Function.update_of_ne hne, Function.update_of_ne hne]
      refine (h.thread u).other (hb u hne) fun hu => ?_
      rw [hi u hne hu]
      exact hR _

/-- A step that changes nothing that is shared. -/
lemma move (h : Rel impl R s a) (hR : ∀ i, R i i) (ho : p.HoldsOuter ↔ (s.pc t).HoldsOuter)
    (hi : p.HoldsInner ↔ (s.pc t).HoldsInner)
    (heo : p.endOuter s.outer s.inner = (s.pc t).endOuter s.outer s.inner)
    (hei : p.endInner s.inner = (s.pc t).endInner s.inner) (hat : At impl R s.outer s.inner p q) :
    Rel impl R (s.go t p) (a.go t q) := by
  refine h.next hR (p := p) (q := q) rfl rfl (fun _ _ _ => rfl) (fun _ _ _ => rfl) (fun _ _ => Iff.rfl)
    ((h.lkOuter t).trans ho.symm) (fun _ _ => Iff.rfl) ((h.lkInner t).trans hi.symm) hat ?_ ?_
  · rw [Conf.endOuter_go heo]
    exact h.outer
  · rw [Conf.endInner_go hei]
    exact h.inner

end Rel

/-- The runs of a relation that are seen as one label, or as nothing. -/
def Follows (spec : C → B × S → Except ε ρ × B × S) (a : Atomic T C ε B S ρ) (l : Option (Label T C ε ρ))
    (a' : Atomic T C ε B S ρ) : Prop :=
  ∃ l', Run (Atomic.Step spec) a l' a' ∧ l'.reduceOption = [l].reduceOption

/-- Nothing is done. -/
lemma Follows.refl (a : Atomic T C ε B S ρ) : Follows spec a none a := ⟨[], .nil a, rfl⟩

/-- One step is done. -/
lemma Follows.one {a a' : Atomic T C ε B S ρ} {l : Option (Label T C ε ρ)} (h : Atomic.Step spec a l a') :
    Follows spec a l a' := ⟨[l], .snoc (.nil a) h, rfl⟩

/-- A commit and what is seen after it. -/
lemma Follows.commit {a a1 a' : Atomic T C ε B S ρ} {l : Option (Label T C ε ρ)}
    (h : Atomic.Step spec a none a1) (h' : Atomic.Step spec a1 l a') : Follows spec a l a' :=
  ⟨[none, l], .snoc (.snoc (.nil a) h) h', by cases l <;> rfl⟩

variable (hspec : ∀ c s, spec c s = (impl c).exec s) (hblind : ∀ c, (impl c).Blind R) (hR : Equivalence R)
include hspec hblind hR

namespace Rel

variable {s : Conf T ε B S ρ} {a : Atomic T C ε B S ρ} {t : T} (h : Rel impl R s a)
include h

omit hblind hspec in
/-- A step that aborts, with the locks that the thread has. -/
lemma die {p : Pc ε B S ρ} {v : Except ε ρ} {o i : Bool} {e : ε} (hp : s.pc t = p)
    (hpl : a.place t = .decided v) (hv : v = .error e) (ho : o ↔ p.HoldsOuter) (hi : i ↔ p.HoldsInner)
    (heo : p.endOuter s.outer s.inner = s.outer) (hei : p.endInner s.inner = s.inner) :
    ∃ a', Follows spec a (some (.abort t e)) a' ∧ Rel impl R (s.go t (.dead o i)) a' := by
  subst hv
  refine ⟨_, .one (.abort hpl), h.move hR.refl ?_ ?_ ?_ ?_ (.dead o i)⟩
  · rw [hp]
    exact ho
  · rw [hp]
    exact hi
  · rw [hp]
    exact heo.symm
  · rw [hp]
    exact hei.symm

/-- With the inner lock, a call that needs no other has its effect. -/
lemma lockInner {x : Steps ε S ρ} (hp : s.pc t = .start (.inner x)) (hfree : s.lkInner = none) :
    ∃ a', Follows spec a none a' ∧ Rel impl R { s.go t (.inner x) with lkInner := some t } a' := by
  have hat := h.thread t
  rw [hp] at hat
  generalize hpl : a.place t = pl at hat
  cases hat with
  | @start c _ hc =>
    have hx : x.Blind R := by
      have := hblind c
      rwa [hc] at this
    have hfrom := h.free_inner hfree
    obtain ⟨hval, hend⟩ := hx.exec hfrom
    have hrun : spec c (a.outer, a.inner) = ((x.exec a.inner).1, a.outer, (x.exec a.inner).2) := by
      rw [hspec, hc]
      rfl
    refine ⟨_, .one (.commit hpl hrun), h.next hR.refl (p := .inner x) (q := .decided (x.exec a.inner).1) rfl rfl
      (fun _ _ _ => rfl) (fun _ _ _ => rfl) (fun _ _ => Iff.rfl) ?_ (fun u hu => ?_) ?_ ?_ ?_ ?_⟩
    · exact h.has_outer hp Iff.rfl
    · exact taken_iff hfree hu
    · exact iff_of_true rfl trivial
    · rw [hval]
      exact .inner hx
    · show a.outer = (s.go t (.inner x)).endOuter
      rw [Conf.endOuter_go (by rw [hp]; rfl)]
      exact h.outer
    · unfold Conf.endInner Conf.go
      dsimp only
      rw [Function.update_self]
      exact hend

omit hspec hblind in
/-- An access to the inner part, by a thread that has its lock. -/
lemma access {p p' : Pc ε B S ρ} {f : S → S} (hp : s.pc t = p') (hin : p'.HoldsInner) (hin' : p.HoldsInner)
    (ho : p.HoldsOuter ↔ p'.HoldsOuter) (heo : p.endOuter s.outer (f s.inner) = p'.endOuter s.outer s.inner)
    (hei : p.endInner (f s.inner) = p'.endInner s.inner)
    (hat : At impl R s.outer (f s.inner) p (a.place t)) :
    Rel impl R { s.go t p with inner := f s.inner } a := by
  have hlk : s.lkInner = some t := (h.lkInner t).mpr (hp ▸ hin)
  have hne : ∀ u ≠ t, ¬ (s.pc u).HoldsInner := fun u hu => h.inner_ne (hp ▸ hin) hu
  refine h.next hR.refl (p := p) rfl (Function.update_eq_self t a.place).symm (fun _ _ _ => rfl)
    (fun u hu hin => absurd hin (hne u hu)) (fun _ _ => Iff.rfl) ?_ (fun _ _ => Iff.rfl)
    (iff_of_true hlk hin') hat ?_ ?_
  · exact h.has_outer hp ho
  · rw [h.outer]
    unfold Conf.endOuter Conf.go
    dsimp only
    cases s.lkOuter with
    | none => rfl
    | some u =>
      dsimp only
      rcases eq_or_ne u t with rfl | hu
      · rw [Function.update_self, heo, hp]
      · rw [Function.update_of_ne hu, Pc.endOuter_inner (hne u hu)]
  · have hinner := h.inner
    unfold Conf.endInner Conf.go at *
    rw [hlk] at hinner ⊢
    dsimp only at hinner ⊢
    rw [Function.update_self, hei, ← hp]
    exact hinner

omit hspec hblind in
/-- A thread gives the inner lock back. -/
lemma unlockInner {p p' : Pc ε B S ρ} (hp : s.pc t = p') (hin : p'.HoldsInner) (hout : ¬ p.HoldsInner)
    (ho : p.HoldsOuter ↔ p'.HoldsOuter) (heo : p.endOuter s.outer s.inner = p'.endOuter s.outer s.inner)
    (hei : p'.endInner s.inner = s.inner) (hat : At impl R s.outer s.inner p (a.place t)) :
    Rel impl R { s.go t p with lkInner := none } a := by
  have hlk : s.lkInner = some t := (h.lkInner t).mpr (hp ▸ hin)
  refine h.next hR.refl (p := p) rfl (Function.update_eq_self t a.place).symm (fun _ _ _ => rfl)
    (fun _ _ _ => rfl) (fun _ _ => Iff.rfl) ?_ (fun u hu => ?_) ?_ hat ?_ ?_
  · exact h.has_outer hp ho
  · exact given_iff hlk hu
  · exact iff_of_false (fun he => by cases he) hout
  · show a.outer = (s.go t p).endOuter
    rw [Conf.endOuter_go (by rw [hp]; exact heo)]
    exact h.outer
  · have hinner := h.inner
    unfold Conf.endInner at hinner ⊢
    rw [hlk] at hinner
    dsimp only at hinner ⊢
    rw [hp, hei] at hinner
    exact hinner

omit hspec hblind in
/-- The outer lock is taken. -/
lemma lockOuter {p : B → Plan ε B S ρ} (hp : s.pc t = .start (.outer p)) (hfree : s.lkOuter = none) :
    Rel impl R { s.go t (.plan p) with lkOuter := some t } a := by
  have hat := h.thread t
  rw [hp] at hat
  refine h.next hR.refl (p := .plan p) rfl (Function.update_eq_self t a.place).symm (fun _ _ _ => rfl)
    (fun _ _ _ => rfl) (fun u hu => ?_) ?_ (fun _ _ => Iff.rfl) ?_ ?_ ?_ ?_
  · exact taken_iff hfree hu
  · exact iff_of_true rfl trivial
  · exact h.has_inner hp Iff.rfl
  · generalize a.place t = pl at hat ⊢
    cases hat with
    | start hc => exact .plan hc
  · rw [h.outer]
    unfold Conf.endOuter Conf.go
    dsimp only
    rw [Function.update_self, hfree]
    rfl
  · show R (s.go t (.plan p)).endInner a.inner
    rw [Conf.endInner_go (by rw [hp]; rfl)]
    exact h.inner

/-- With both locks, a call that needs both has its effect. -/
lemma lockBoth {x : Steps ε S ρ} {fin : ρ → B × ρ} (hp : s.pc t = .nest x fin) (hfree : s.lkInner = none) :
    ∃ a', Follows spec a none a' ∧ Rel impl R { s.go t (.both x fin) with lkInner := some t } a' := by
  have hat := h.thread t
  rw [hp] at hat
  obtain ⟨hlk, houter⟩ := h.held_outer hp trivial rfl
  have hfrom := h.free_inner hfree
  generalize hpl : a.place t = pl at hat
  cases hat with
  | @nest p _ _ c hc hplan =>
    have hx : x.Blind R := by
      have := hblind c
      rw [hc] at this
      have := this s.outer
      rwa [hplan] at this
    obtain ⟨hval, hend, -⟩ := Plan.nested_exec hx fin s.outer hfrom
    have hstate : ((Plan.nested x fin).exec (s.outer, a.inner)).2.2 = (x.exec a.inner).2 :=
      (Plan.nested_exec hx fin s.outer (hR.refl a.inner)).2.2
    have hrun : spec c (a.outer, a.inner) = (Plan.nested x fin).exec (s.outer, a.inner) := by
      rw [hspec, hc, houter]
      show (p s.outer).exec _ = _
      rw [hplan]
    generalize (Plan.nested x fin).exec (s.outer, a.inner) = r at hval hend hstate hrun
    obtain ⟨v, b', i'⟩ := r
    cases hstate
    refine ⟨_, .one (.commit hpl hrun), h.next hR.refl (p := .both x fin) (q := .decided v) rfl rfl
      (fun _ _ _ => rfl) (fun _ _ _ => rfl) (fun _ _ => Iff.rfl) ?_ (fun u hu => ?_) ?_ ?_ ?_ ?_⟩
    · exact iff_of_true hlk trivial
    · exact taken_iff hfree hu
    · exact iff_of_true rfl trivial
    · cases hval
      exact .both hx
    · unfold Conf.endOuter Conf.go
      dsimp only
      rw [hlk]
      dsimp only
      rw [Function.update_self]
      exact hend
    · unfold Conf.endInner Conf.go
      dsimp only
      rw [Function.update_self]
      exact (hx.exec hfrom).2

omit hblind in
/-- A call that plans without the inner part has its effect when it has read the outer one. -/
lemma planFinish {p : B → Plan ε B S ρ} {b : B} {r : ρ} (hp : s.pc t = .plan p) (hplan : p s.outer = .finish b r) :
    ∃ a', Follows spec a none a' ∧ Rel impl R (s.go t (.write b r)) a' := by
  have hat := h.thread t
  rw [hp] at hat
  obtain ⟨hlk, houter⟩ := h.held_outer hp trivial rfl
  generalize hpl : a.place t = pl at hat
  cases hat with
  | @plan _ c hc =>
    have hrun : spec c (a.outer, a.inner) = (.ok r, b, a.inner) := by
      rw [hspec, hc, houter]
      show (p s.outer).exec _ = _
      rw [hplan]
      rfl
    refine ⟨_, .one (.commit hpl hrun), h.next hR.refl (p := .write b r) (q := .decided (.ok r)) rfl rfl
      (fun _ _ _ => rfl) (fun _ _ _ => rfl) (fun _ _ => Iff.rfl) (iff_of_true hlk trivial) (fun _ _ => Iff.rfl)
      ?_ (.write b r) ?_ ?_⟩
    · exact h.has_inner hp Iff.rfl
    · unfold Conf.endOuter Conf.go
      dsimp only
      rw [hlk]
      dsimp only
      rw [Function.update_self]
      rfl
    · rw [Conf.endInner_go (by rw [hp]; rfl)]
      exact h.inner

omit hblind in
/-- A call that aborts when it has read the outer part. -/
lemma planAbort {p : B → Plan ε B S ρ} {e : ε} (hp : s.pc t = .plan p) (hplan : p s.outer = .stop e) :
    ∃ a', Follows spec a (some (.abort t e)) a' ∧ Rel impl R (s.go t (.dead true false)) a' := by
  have hat := h.thread t
  rw [hp] at hat
  obtain ⟨hlk, houter⟩ := h.held_outer hp trivial rfl
  generalize hpl : a.place t = pl at hat
  cases hat with
  | @plan _ c hc =>
    have hrun : spec c (a.outer, a.inner) = (.error e, a.outer, a.inner) := by
      rw [hspec, hc, houter]
      show (p s.outer).exec _ = _
      rw [hplan]
      rfl
    have hdead : Rel impl R (s.go t (.dead true false)) (a.go t .dead) := by
      refine h.move hR.refl ?_ ?_ ?_ ?_ (.dead true false)
      · rw [hp]
        exact iff_of_true rfl trivial
      · rw [hp]
        exact iff_of_false Bool.false_ne_true id
      · rw [hp]
        rfl
      · rw [hp]
        rfl
    refine ⟨_, .commit (.commit hpl hrun) (.abort (Function.update_self ..)), ?_⟩
    have hgo : Atomic.go { a.go t (.decided (.error e)) with outer := a.outer, inner := a.inner } t .dead =
        a.go t .dead := by
      unfold Atomic.go
      dsimp only
      rw [Function.update_idem]
    rw [hgo]
    exact hdead

omit hspec hblind in
/-- The outer part is written, which the call has had as its effect already. -/
lemma write {b : B} {r : ρ} (hp : s.pc t = .write b r) : Rel impl R { s.go t (.leave r) with outer := b } a := by
  have hat := h.thread t
  rw [hp] at hat
  have hlk : s.lkOuter = some t := by
    rw [h.lkOuter, hp]
    trivial
  refine h.next hR.refl (p := .leave r) rfl (Function.update_eq_self t a.place).symm (fun u hu hout => ?_)
    (fun _ _ _ => rfl) (fun _ _ => Iff.rfl) (iff_of_true hlk trivial) (fun _ _ => Iff.rfl) ?_ ?_ ?_ ?_
  · exact absurd hout (h.outer_ne (by rw [hp]; trivial) hu)
  · exact h.has_inner hp Iff.rfl
  · generalize a.place t = pl at hat ⊢
    cases hat
    exact .leave r
  · rw [h.outer]
    unfold Conf.endOuter Conf.go
    dsimp only
    rw [hlk]
    dsimp only
    rw [Function.update_self, hp]
    rfl
  · show R (s.go t (.leave r)).endInner a.inner
    rw [Conf.endInner_go (by rw [hp]; rfl)]
    exact h.inner

omit hspec hblind in
/-- The outer lock is given back. -/
lemma unlockOuter {r : ρ} (hp : s.pc t = .leave r) : Rel impl R { s.go t (.done r) with lkOuter := none } a := by
  have hat := h.thread t
  rw [hp] at hat
  have hlk : s.lkOuter = some t := by
    rw [h.lkOuter, hp]
    trivial
  refine h.next hR.refl (p := .done r) rfl (Function.update_eq_self t a.place).symm (fun _ _ _ => rfl)
    (fun _ _ _ => rfl) (fun u hu => ?_) ?_ (fun _ _ => Iff.rfl) ?_ ?_ ?_ ?_
  · exact given_iff hlk hu
  · exact iff_of_false (fun he => by cases he) id
  · exact h.has_inner hp Iff.rfl
  · generalize a.place t = pl at hat ⊢
    cases hat
    exact .done r
  · rw [h.outer]
    unfold Conf.endOuter
    rw [hlk]
    dsimp only
    rw [hp]
    rfl
  · show R (s.go t (.done r)).endInner a.inner
    rw [Conf.endInner_go (by rw [hp]; rfl)]
    exact h.inner

omit hspec hblind [DecidableEq T] in
/-- Others may change the inner part within `R`. -/
lemma other {i : S} (hi : R s.inner i) : Rel impl R { s with inner := i } a where
  outer := by
    rw [h.outer]
    unfold Conf.endOuter
    dsimp only
    cases s.lkOuter with
    | none => rfl
    | some u =>
      dsimp only
      have hat := h.thread u
      generalize s.pc u = p at hat
      generalize a.place u = pl at hat
      cases hat with
      | both hx => exact (Plan.nested_exec hx _ _ hi).2.1.symm
      | _ => rfl
  inner := by
    have hinner := h.inner
    unfold Conf.endInner at hinner ⊢
    dsimp only at hinner ⊢
    cases hlk : s.lkInner with
    | none =>
      rw [hlk] at hinner
      exact hR.trans (hR.symm hi) hinner
    | some u =>
      rw [hlk] at hinner
      dsimp only at hinner ⊢
      refine hR.trans (hR.symm ?_) hinner
      have hat := h.thread u
      generalize s.pc u = p at hat
      generalize a.place u = pl at hat
      cases hat with
      | both hx => exact (hx.exec hi).2
      | inner hx => exact (hx.exec hi).2
      | _ => exact hi
  lkOuter := h.lkOuter
  lkInner := h.lkInner
  thread u := (h.thread u).other (fun _ => rfl) fun _ => hi

end Rel

/-- Each step of the threads is followed. -/
lemma Rel.step {s s' : Conf T ε B S ρ} {a : Atomic T C ε B S ρ} {l : Option (Label T C ε ρ)}
    (h : Rel impl R s a) (hst : Step impl R s l s') : ∃ a', Follows spec a l a' ∧ Rel impl R s' a' := by
  have hplace : ∀ {t p}, s.pc t = p → At impl R s.outer s.inner p (a.place t) := fun {t p} hp => hp ▸ h.thread t
  cases hst with
  | @call t c hp =>
    have hat := hplace hp
    generalize hpl : a.place t = pl at hat
    cases hat
    refine ⟨_, .one (.call c hpl), h.move hR.refl ?_ ?_ ?_ ?_ (.start rfl)⟩ <;> rw [hp] <;> rfl
  | @lockInner t x hp hfree => exact h.lockInner hspec hblind hR hp hfree
  | @inner t f k hp =>
    have hat := hplace hp
    refine ⟨a, .refl a, h.access hR hp trivial trivial Iff.rfl rfl rfl ?_⟩
    generalize a.place t = pl at hat ⊢
    cases hat with
    | inner hx => exact .inner (hx.2 s.inner)
  | @unlockInner t r hp =>
    have hat := hplace hp
    refine ⟨a, .refl a, h.unlockInner hR hp trivial id Iff.rfl rfl rfl ?_⟩
    generalize a.place t = pl at hat ⊢
    cases hat with
    | inner hx => exact .done r
  | @innerAbort t e hp =>
    have hat := hplace hp
    generalize hpl : a.place t = pl at hat
    cases hat
    exact h.die hR hp hpl rfl (iff_of_false Bool.false_ne_true id) (iff_of_true rfl trivial) rfl rfl
  | @lockOuter t p hp hfree => exact ⟨a, .refl a, h.lockOuter hR hp hfree⟩
  | @planAbort t p e hp hplan => exact h.planAbort hspec hR hp hplan
  | @planFinish t p b r hp hplan => exact h.planFinish hspec hR hp hplan
  | @planNested t p x fin hp hplan =>
    have hat := hplace hp
    generalize hpl : a.place t = pl at hat
    cases hat with
    | @plan _ c hc =>
      have hmove : Rel impl R (s.go t (.nest x fin)) (a.go t (.called c)) := by
        refine h.move hR.refl ?_ ?_ ?_ ?_ (.nest hc hplan) <;> rw [hp] <;> rfl
      have hgo : a.go t (.called c) = a := by
        rw [Atomic.go, ← hpl, Function.update_eq_self]
      rw [hgo] at hmove
      exact ⟨a, .refl a, hmove⟩
  | @lockBoth t x fin hp hfree => exact h.lockBoth hspec hblind hR hp hfree
  | @both t f k fin hp =>
    have hat := hplace hp
    refine ⟨a, .refl a, h.access hR hp trivial trivial Iff.rfl rfl rfl ?_⟩
    generalize a.place t = pl at hat ⊢
    cases hat with
    | both hx => exact .both (hx.2 s.inner)
  | @unlockBoth t r fin hp =>
    have hat := hplace hp
    refine ⟨a, .refl a, h.unlockInner hR hp trivial id Iff.rfl rfl rfl ?_⟩
    generalize a.place t = pl at hat ⊢
    cases hat with
    | both hx => exact .write _ _
  | @bothAbort t e fin hp =>
    have hat := hplace hp
    generalize hpl : a.place t = pl at hat
    cases hat
    exact h.die hR hp hpl rfl (iff_of_true rfl trivial) (iff_of_true rfl trivial) rfl rfl
  | @write t b r hp => exact ⟨a, .refl a, h.write hR hp⟩
  | @unlockOuter t r hp => exact ⟨a, .refl a, h.unlockOuter hR hp⟩
  | @ret t r hp =>
    have hat := hplace hp
    generalize hpl : a.place t = pl at hat
    cases hat
    refine ⟨_, .one (.ret hpl), h.move hR.refl ?_ ?_ ?_ ?_ .idle⟩ <;> rw [hp] <;> rfl
  | @other i hi => exact ⟨a, .refl a, h.other hR hi⟩

end

/-! ## Runs -/

section
variable {ε B S ρ T C : Type}

/-- No thread is in a call, and no lock is taken. -/
def Conf.start (b : B) (i : S) : Conf T ε B S ρ := ⟨b, i, none, none, fun _ => .idle⟩

/-- No thread is in a call. -/
def Atomic.start (b : B) (i : S) : Atomic T C ε B S ρ := ⟨b, i, fun _ => .idle⟩

/-- A step that no thread takes to start a call. -/
def NoCall (l : Option (Label T C ε ρ)) : Prop := ∀ t c, l ≠ some (.call t c)

/-- A step that is not seen starts no call, -/
lemma noCall_none : NoCall (none : Option (Label T C ε ρ)) := by
  intro t c h
  cases h

/-- nor does one in which a call returns -/
lemma noCall_ret (t : T) (r : ρ) : NoCall (some (.ret t r) : Option (Label T C ε ρ)) := by
  intro u c h
  cases h

/-- or aborts. -/
lemma noCall_abort (t : T) (e : ε) : NoCall (some (.abort t e) : Option (Label T C ε ρ)) := by
  intro u c h
  cases h

variable [DecidableEq T] {impl : C → Critical ε B S ρ} {R : S → S → Prop} {spec : C → B × S → Except ε ρ × B × S}

omit [DecidableEq T] in
/-- At the start both are alike. -/
lemma Rel.start (hR : ∀ i, R i i) (b : B) (i : S) :
    Rel impl R (Conf.start b i : Conf T ε B S ρ) (Atomic.start b i) where
  outer := rfl
  inner := hR i
  lkOuter t := iff_of_false (fun h => by cases h) id
  lkInner t := iff_of_false (fun h => by cases h) id
  thread t := .idle

/-- Runs are followed, with what is seen of them. -/
theorem Run.atomic (hspec : ∀ c s, spec c s = (impl c).exec s) (hblind : ∀ c, (impl c).Blind R)
    (hR : Equivalence R) {s s' : Conf T ε B S ρ} {a : Atomic T C ε B S ρ} {l : List (Option (Label T C ε ρ))}
    (h : Rel impl R s a) (hrun : Run (Step impl R) s l s') :
    ∃ l' a', Run (Atomic.Step spec) a l' a' ∧ l'.reduceOption = l.reduceOption ∧ Rel impl R s' a' := by
  induction hrun with
  | nil => exact ⟨[], a, .nil a, rfl, h⟩
  | snoc _ hst ih =>
    obtain ⟨l', a', hrun', hl, hrel⟩ := ih
    obtain ⟨a'', ⟨l'', hrun'', hl'⟩, hrel'⟩ := hrel.step hspec hblind hR hst
    refine ⟨l' ++ l'', a'', hrun'.append hrun'', ?_, hrel'⟩
    rw [List.reduceOption_append, List.reduceOption_append, hl, hl']

/-- A run leads from related states to related ones. -/
lemma Run.related (hblind : ∀ c, (impl c).Blind R) (hR : Equivalence R) {s s' : Conf T ε B S ρ}
    {a : Atomic T C ε B S ρ} {l : List (Option (Label T C ε ρ))} (h : Rel impl R s a)
    (hrun : Run (Step impl R) s l s') : ∃ a' : Atomic T C ε B S ρ, Rel impl R s' a' := by
  have hspec : ∀ c s, (fun c s => (impl c).exec s) c s = (impl c).exec s := fun _ _ => rfl
  obtain ⟨-, a', -, -, hrel⟩ := Run.atomic hspec hblind hR h hrun
  exact ⟨a', hrel⟩

/-! ## Threads that go on alone -/

/-- Thread `t` can go on alone until its call has ended. -/
def Ends (impl : C → Critical ε B S ρ) (R : S → S → Prop) (s : Conf T ε B S ρ) (t : T) : Prop :=
  ∃ l s', Run (Step impl R) s l s' ∧ (∀ o ∈ l, NoCall o) ∧ (∀ u ≠ t, s'.pc u = s.pc u) ∧
    (s'.pc t = .idle ∨ ∃ o i, s'.pc t = .dead o i)

namespace Ends

variable {s s' : Conf T ε B S ρ} {t : T} {l : Option (Label T C ε ρ)} {p : Pc ε B S ρ}

/-- A step of the thread, after which it can go on. -/
lemma step (hst : Step impl R s l s') (hl : NoCall l) (hpc : s'.pc = Function.update s.pc t p)
    (h : Ends impl R s' t) : Ends impl R s t := by
  obtain ⟨l', s'', hrun, hl', hpc', hend⟩ := h
  refine ⟨[l] ++ l', s'', (Run.snoc (.nil s) hst).append hrun, ?_, fun u hu => ?_, hend⟩
  · intro o ho
    rcases List.mem_append.mp ho with ho | ho
    · cases List.mem_singleton.mp ho
      exact hl
    · exact hl' o ho
  · rw [hpc' u hu, hpc, Function.update_of_ne hu]

/-- A thread without a call has ended it. -/
lemma idle (h : s.pc t = .idle) : Ends impl R s t :=
  ⟨[], s, .nil s, List.forall_mem_nil _, fun _ _ => rfl, .inl h⟩

/-- So has one that aborted. -/
lemma dead {o i : Bool} (h : s.pc t = .dead o i) : Ends impl R s t :=
  ⟨[], s, .nil s, List.forall_mem_nil _, fun _ _ => rfl, .inr ⟨o, i, h⟩⟩

/-- A result is returned, -/
lemma done {r : ρ} (h : s.pc t = .done r) : Ends impl R s t :=
  step (.ret h) (noCall_ret t r) rfl (idle (Function.update_self ..))

/-- after the outer lock was given back, -/
lemma leave {r : ρ} (h : s.pc t = .leave r) : Ends impl R s t :=
  step (.unlockOuter h) noCall_none rfl (done (Function.update_self ..))

/-- after the outer part was written. -/
lemma write {b : B} {r : ρ} (h : s.pc t = .write b r) : Ends impl R s t :=
  step (.write h) noCall_none rfl (leave (Function.update_self ..))

/-- With both locks. -/
lemma both {x : Steps ε S ρ} {fin : ρ → B × ρ} (h : s.pc t = .both x fin) : Ends impl R s t := by
  induction x generalizing s with
  | ret r => exact step (.unlockBoth h) noCall_none rfl (write (Function.update_self ..))
  | stop e => exact step (.bothAbort h) (noCall_abort t e) rfl (dead (Function.update_self ..))
  | step f k ih => exact step (.both h) noCall_none rfl (ih s.inner (Function.update_self ..))

/-- With the inner lock alone. -/
lemma inner {x : Steps ε S ρ} (h : s.pc t = .inner x) : Ends impl R s t := by
  induction x generalizing s with
  | ret r => exact step (.unlockInner h) noCall_none rfl (done (Function.update_self ..))
  | stop e => exact step (.innerAbort h) (noCall_abort t e) rfl (dead (Function.update_self ..))
  | step f k ih => exact step (.inner h) noCall_none rfl (ih s.inner (Function.update_self ..))

/-- Before the inner lock, with the outer one. -/
lemma nest {x : Steps ε S ρ} {fin : ρ → B × ρ} (h : s.pc t = .nest x fin) (hi : s.lkInner = none) :
    Ends impl R s t :=
  step (.lockBoth h hi) noCall_none rfl (both (Function.update_self ..))

/-- With the outer lock. -/
lemma plan {p : B → Plan ε B S ρ} (h : s.pc t = .plan p) (hi : s.lkInner = none) : Ends impl R s t := by
  cases hp : p s.outer with
  | stop e => exact step (.planAbort h hp) (noCall_abort t e) rfl (dead (Function.update_self ..))
  | finish b r => exact step (.planFinish h hp) noCall_none rfl (write (Function.update_self ..))
  | nested x fin => exact step (.planNested h hp) noCall_none rfl (nest (Function.update_self ..) hi)

/-- Before its first lock. -/
lemma start {c : Critical ε B S ρ} (h : s.pc t = .start c) (hi : s.lkInner = none) (ho : s.lkOuter = none) :
    Ends impl R s t := by
  cases c with
  | inner x => exact step (.lockInner h hi) noCall_none rfl (inner (Function.update_self ..))
  | outer p => exact step (.lockOuter h ho) noCall_none rfl (plan (Function.update_self ..) hi)

/-- Without the locks being taken by others, as far as it needs them. -/
lemma of_locks (hi : (s.pc t).HoldsInner ∨ s.lkInner = none)
    (ho : (s.pc t).HoldsInner ∨ (s.pc t).HoldsOuter ∨ s.lkOuter = none) : Ends impl R s t := by
  cases h : s.pc t with
  | idle => exact idle h
  | start c =>
    rw [h] at hi ho
    exact start h (hi.resolve_left id) ((ho.resolve_left id).resolve_left id)
  | inner x => exact inner h
  | plan p =>
    rw [h] at hi
    exact plan h (hi.resolve_left id)
  | nest x fin =>
    rw [h] at hi
    exact nest h (hi.resolve_left id)
  | both x fin => exact both h
  | write b r => exact write h
  | leave r => exact leave h
  | done r => exact done h
  | dead o i => exact dead h

end Ends

omit [DecidableEq T] in
/-- The locks are taken in one order. So the thread with the inner lock can go on, if there is one, else that with
the outer lock, and else every thread. -/
lemma Rel.exists_ends {s : Conf T ε B S ρ} {a : Atomic T C ε B S ρ} (h : Rel impl R s a) (t : T) :
    ∃ u, (u = t ∨ s.pc u ≠ .idle) ∧ ((s.pc u).HoldsInner ∨ s.lkInner = none) ∧
      ((s.pc u).HoldsInner ∨ (s.pc u).HoldsOuter ∨ s.lkOuter = none) := by
  have hbusy : ∀ {u}, (s.pc u).HoldsInner ∨ (s.pc u).HoldsOuter → s.pc u ≠ .idle := by
    intro u hu hidle
    rw [hidle] at hu
    exact hu.elim id id
  cases hi : s.lkInner with
  | some u =>
    have hu := (h.lkInner u).mp hi
    exact ⟨u, .inr (hbusy (.inl hu)), .inl hu, .inl hu⟩
  | none =>
    cases ho : s.lkOuter with
    | some u =>
      have hu := (h.lkOuter u).mp ho
      exact ⟨u, .inr (hbusy (.inr hu)), .inr rfl, .inr (.inl hu)⟩
    | none => exact ⟨t, .inl rfl, .inr rfl, .inr (.inr rfl)⟩

/-- The threads in a call are finitely many. -/
def Conf.Fin (s : Conf T ε B S ρ) : Prop := ∃ F : Finset T, ∀ t ∉ F, s.pc t = .idle

/-- A step leaves it so. -/
lemma Step.fin {s s' : Conf T ε B S ρ} {l : Option (Label T C ε ρ)} (h : s.Fin) (hst : Step impl R s l s') :
    s'.Fin := by
  have hgo : ∀ t p, ∃ F : Finset T, ∀ u ∉ F, Function.update s.pc t p u = .idle := by
    intro t p
    obtain ⟨F, hF⟩ := h
    refine ⟨insert t F, fun u hu => ?_⟩
    obtain ⟨hne, hu⟩ := not_or.mp (Finset.mem_insert.not.mp hu)
    rw [Function.update_of_ne hne]
    exact hF u hu
  cases hst with
  | other _ => exact h
  | _ => exact hgo _ _

/-- No deadlock: from every state that is reached, the calls that were started can all come to an end, without new
ones, unless one of them aborts. -/
theorem Run.ends (hblind : ∀ c, (impl c).Blind R) (hR : Equivalence R) {b : B} {i : S} {s : Conf T ε B S ρ}
    {l : List (Option (Label T C ε ρ))} (hrun : Run (Step impl R) (Conf.start b i) l s) :
    ∃ l' s', Run (Step impl R) s l' s' ∧ (∀ o ∈ l', NoCall o) ∧
      ((∀ t, s'.pc t = .idle) ∨ ∃ t o i, s'.pc t = .dead o i) := by
  obtain ⟨a, hrel⟩ := Run.related hblind hR (Rel.start hR.refl b i) hrun
  obtain ⟨F, hF⟩ : s.Fin := Run.invariant (I := Conf.Fin) (fun h hst => Step.fin h hst) ⟨∅, fun _ _ => rfl⟩ hrun
  clear hrun
  -- Of the threads in a call, one can go on to its end; then there is one less.
  induction hn : F.card generalizing s a F with
  | zero =>
    rw [Finset.card_eq_zero.mp hn] at hF
    exact ⟨[], s, .nil s, List.forall_mem_nil _, .inl fun t => hF t (Finset.notMem_empty t)⟩
  | succ n ih =>
    obtain ⟨t, ht⟩ := Finset.card_pos.mp (Nat.lt_of_lt_of_eq (Nat.succ_pos n) hn.symm)
    obtain ⟨u, hu, hi, ho⟩ := hrel.exists_ends t
    have huF : u ∈ F := by
      rcases hu with rfl | hu
      · exact ht
      · by_contra h
        exact hu (hF u h)
    have hends : Ends impl R s u := Ends.of_locks hi ho
    obtain ⟨l', s', hrun', hl', hpc, hend⟩ := hends
    rcases hend with hidle | ⟨o, i, hdead⟩
    · obtain ⟨a', hrel'⟩ := Run.related hblind hR hrel hrun'
      have hF' : ∀ t ∉ F.erase u, s'.pc t = .idle := by
        intro v hv
        rcases eq_or_ne v u with rfl | hne
        · exact hidle
        · rw [hpc v hne]
          exact hF v fun h => hv (Finset.mem_erase.mpr ⟨hne, h⟩)
      have hcard : (F.erase u).card = n := by
        rw [Finset.card_erase_of_mem huF, hn]
        rfl
      obtain ⟨l'', s'', hrun'', hl'', hend'⟩ := ih a' hrel' (F.erase u) hF' hcard
      refine ⟨l' ++ l'', s'', hrun'.append hrun'', fun o ho => ?_, hend'⟩
      rcases List.mem_append.mp ho with ho | ho
      · exact hl' o ho
      · exact hl'' o ho
    · exact ⟨l', s', hrun', hl', .inr ⟨u, o, i, hdead⟩⟩

/-! ## What every access keeps -/

/-- The planned accesses keep `I`, and what is written to the outer part satisfies `J`. -/
def Plan.Keeps (J : B → Prop) (I : S → Prop) : Plan ε B S ρ → Prop
  | .stop _ => True
  | .finish b _ => J b
  | .nested x fin => x.Keeps I ∧ ∀ r, J (fin r).1

/-- A call leaves both parts as they should be. -/
def Critical.Keeps (J : B → Prop) (I : S → Prop) : Critical ε B S ρ → Prop
  | .inner x => x.Keeps I
  | .outer plan => ∀ b, J b → (plan b).Keeps J I

/-- The same of what a thread has yet to do. -/
def Pc.Keeps (J : B → Prop) (I : S → Prop) : Pc ε B S ρ → Prop
  | .start c => c.Keeps J I
  | .inner x => x.Keeps I
  | .plan p => ∀ b, J b → (p b).Keeps J I
  | .nest x fin => x.Keeps I ∧ ∀ r, J (fin r).1
  | .both x fin => x.Keeps I ∧ ∀ r, J (fin r).1
  | .write b _ => J b
  | _ => True

/-- The parts are as they should be, and no thread will change that. -/
structure Conf.Keeps (J : B → Prop) (I : S → Prop) (s : Conf T ε B S ρ) : Prop where
  outer : J s.outer
  inner : I s.inner
  pc : ∀ t, (s.pc t).Keeps J I

section
variable {J : B → Prop} {I : S → Prop}

omit [DecidableEq T] in
/-- At the start no thread has anything to do. -/
lemma Conf.keeps_start {b : B} {i : S} (hb : J b) (hi : I i) : (Conf.start b i : Conf T ε B S ρ).Keeps J I :=
  ⟨hb, hi, fun _ => trivial⟩

/-- A step leaves the parts as they should be, if what others may do to the inner one does. -/
lemma Step.keeps (hother : ∀ i i', R i i' → I i → I i') {s s' : Conf T ε B S ρ} {l : Option (Label T C ε ρ)}
    (h : s.Keeps J I) (hcall : ∀ t c, l = some (.call t c) → (impl c).Keeps J I) (hst : Step impl R s l s') :
    s'.Keeps J I := by
  have hgo : ∀ {t p}, Pc.Keeps J I p → ∀ u, (Function.update s.pc t p u).Keeps J I := by
    intro t p hp u
    rcases eq_or_ne u t with rfl | hne
    · rw [Function.update_self]
      exact hp
    · rw [Function.update_of_ne hne]
      exact h.pc u
  have hpc : ∀ {t p}, s.pc t = p → p.Keeps J I := fun hp => hp ▸ h.pc _
  cases hst with
  | call c hp => exact ⟨h.outer, h.inner, hgo (hcall _ c rfl)⟩
  | @lockInner t x hp _ =>
    have hx := hpc hp
    exact ⟨h.outer, h.inner, hgo (p := .inner x) hx⟩
  | inner hp =>
    obtain ⟨hf, hk⟩ := hpc hp s.inner h.inner
    exact ⟨h.outer, hf, hgo hk⟩
  | unlockInner hp => exact ⟨h.outer, h.inner, hgo trivial⟩
  | innerAbort hp => exact ⟨h.outer, h.inner, hgo trivial⟩
  | @lockOuter t p hp _ =>
    have hx := hpc hp
    exact ⟨h.outer, h.inner, hgo (p := .plan p) hx⟩
  | planAbort hp _ => exact ⟨h.outer, h.inner, hgo trivial⟩
  | planFinish hp hplan =>
    have hfin := hpc hp s.outer h.outer
    rw [hplan] at hfin
    exact ⟨h.outer, h.inner, hgo hfin⟩
  | planNested hp hplan =>
    have hnest := hpc hp s.outer h.outer
    rw [hplan] at hnest
    exact ⟨h.outer, h.inner, hgo hnest⟩
  | @lockBoth t x fin hp _ =>
    have hx := hpc hp
    exact ⟨h.outer, h.inner, hgo (p := .both x fin) hx⟩
  | both hp =>
    obtain ⟨hx, hfin⟩ := hpc hp
    obtain ⟨hf, hk⟩ := hx s.inner h.inner
    exact ⟨h.outer, hf, hgo ⟨hk, hfin⟩⟩
  | unlockBoth hp => exact ⟨h.outer, h.inner, hgo ((hpc hp).2 _)⟩
  | bothAbort hp => exact ⟨h.outer, h.inner, hgo trivial⟩
  | write hp => exact ⟨hpc hp, h.inner, hgo trivial⟩
  | unlockOuter hp => exact ⟨h.outer, h.inner, hgo trivial⟩
  | ret hp => exact ⟨h.outer, h.inner, hgo trivial⟩
  | other hi => exact ⟨h.outer, hother _ _ hi h.inner, h.pc⟩

/-- What every access of the calls that are made keeps holds in every state. -/
theorem Run.keeps (hother : ∀ i i', R i i' → I i → I i') {s s' : Conf T ε B S ρ}
    {l : List (Option (Label T C ε ρ))} (h : s.Keeps J I)
    (hcall : ∀ t c, some (.call t c) ∈ l → (impl c).Keeps J I) (hrun : Run (Step impl R) s l s') :
    s'.Keeps J I := by
  induction hrun with
  | nil => exact h
  | snoc _ hst ih =>
    refine Step.keeps hother (ih fun t c hc => hcall t c (List.mem_append_left _ hc)) (fun t c hl => ?_) hst
    subst hl
    exact hcall t c (List.mem_append_right _ (List.mem_singleton_self _))

end

end
end Libtux.Lib
