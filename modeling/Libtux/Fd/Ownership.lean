import Libtux.Fd.Table
import Libtux.Lib.Run

/-!
# Who holds a file object

The reference count of a file object is the number of its holders: the slots of descriptor tables, the
current directories that were set by `fchdir`, and the three standard files of `Tux`. `Owns` says so for
a heap and a bag of holders, together with the second way in which a handle is owned, by a current
directory that was set by `chdir`. It comes with one rule for each thing the code does to the heap
(`Owns.release`, `Owns.addref`, `Owns.hostOpen`, ...), stated over arbitrary bags, so that the calls of
one process are verified with the holders of all the others as a frame.

`Effect` records what such a step does on the way: which close handlers run, and that an object keeps
its host file as long as it lives.
-/

namespace Libtux
open Lib

/-- A bag with the value of an option. -/
def one {α : Type} : Option α → Multiset α
  | none => 0
  | some a => {a}

/-- Nothing is held, -/
@[simp] lemma one_none {α : Type} : one (none : Option α) = 0 := rfl

/-- or one object is. -/
@[simp] lemma one_some {α : Type} (a : α) : one (some a) = {a} := rfl

/-- The heap `s` when `H` are the holders of its objects and `W` the handles that are owned by no object. -/
structure Owns (s : Files) (H : Multiset FileRef) (W : Multiset HostFile) : Prop where
  held : ∀ f ∈ H, ∃ o, s.objs f = some o ∧ o.refs.toNat = H.count f ∧ o.has .close = true
  fresh : ∀ {f o}, s.objs f = some o → f < s.nobj
  handle : ∀ {f o}, s.objs f = some o → s.isOpen o.file = true ∧ o.file < s.nhandle
  inj : ∀ {f g o o'}, s.objs f = some o → s.objs g = some o' → o.file = o'.file → f = g
  own : ∀ h ∈ W, s.isOpen h = true ∧ h < s.nhandle ∧ ∀ {f o}, s.objs f = some o → o.file ≠ h
  nodup : W.Nodup
  closed : ∀ f ∈ s.closed, s.objs f = none ∧ f < s.nobj

/-- What happens to a heap while its holders go from `H` to `H'`: the close handlers that run are those
of the objects that lose their last holder, and objects that live on keep their host file. -/
structure Effect (s s' : Files) (H H' : Multiset FileRef) : Prop where
  closes : ∀ f, s'.closed.count f = s.closed.count f + if f ∈ H ∧ f ∉ H' then 1 else 0
  keeps : ∀ {f o'}, s'.objs f = some o' → f < s.nobj → ∃ o, s.objs f = some o ∧ o.file = o'.file
  nobj : s.nobj ≤ s'.nobj

namespace Owns

variable {s s' : Files} {H : Multiset FileRef} {W : Multiset HostFile} {f : FileRef} {h : HostFile}

/-- What is held was made before. -/
lemma lt_nobj (I : Owns s H W) (hf : f ∈ H) : f < s.nobj := by
  obtain ⟨o, ho, _⟩ := I.held f hf
  exact I.fresh ho

/-- What is held was not closed. -/
lemma not_closed (I : Owns s H W) (hf : f ∈ H) : f ∉ s.closed := by
  intro hc
  obtain ⟨o, ho, _⟩ := I.held f hf
  rw [(I.closed f hc).1] at ho
  cases ho

/-- A handle may be forgotten. -/
lemma forget (I : Owns s H (h ::ₘ W)) : Owns s H W where
  held := I.held
  fresh := I.fresh
  handle := I.handle
  inj := I.inj
  own h' hh := I.own h' (Multiset.mem_cons_of_mem hh)
  nodup := (Multiset.nodup_cons.mp I.nodup).2
  closed := I.closed

/-- The heap with the count of one object changed. -/
lemma setref {o : FDFile} {refs : Word} {H' : Multiset FileRef} (I : Owns s H W)
    (ho : s.objs f = some o) (hclose : o.has .close = true) (hrefs : f ∈ H' → refs.toNat = H'.count f)
    (hH : ∀ g, g ≠ f → H'.count g = H.count g) :
    Owns { s with objs := Function.update s.objs f (some { o with refs }) } H' W := by
  have hcases : ∀ {g o'}, Function.update s.objs f (some { o with refs }) g = some o' →
      ∃ o'', s.objs g = some o'' ∧ o''.file = o'.file := by
    intro g o' hg
    by_cases hgf : g = f
    · subst hgf
      rw [Function.update_self] at hg
      cases hg
      exact ⟨o, ho, rfl⟩
    · rw [Function.update_of_ne hgf] at hg
      exact ⟨o', hg, rfl⟩
  refine ⟨?_, ?_, ?_, ?_, ?_, I.nodup, ?_⟩
  · intro g hg
    by_cases hgf : g = f
    · subst hgf
      exact ⟨{ o with refs }, Function.update_self .., hrefs hg, hclose⟩
    · have hmem : g ∈ H := by
        rw [← Multiset.count_pos, ← hH g hgf, Multiset.count_pos]
        exact hg
      obtain ⟨o', ho', hr, hc⟩ := I.held g hmem
      exact ⟨o', (Function.update_of_ne hgf ..).trans ho', by rw [hr, hH g hgf], hc⟩
  · intro g o' hg
    obtain ⟨o'', ho'', _⟩ := hcases hg
    exact I.fresh ho''
  · intro g o' hg
    obtain ⟨o'', ho'', heq⟩ := hcases hg
    exact heq ▸ I.handle ho''
  · intro g g' o1 o2 h1 h2 heq
    obtain ⟨o1', h1', he1⟩ := hcases h1
    obtain ⟨o2', h2', he2⟩ := hcases h2
    exact I.inj h1' h2' (by rw [he1, he2, heq])
  · intro h hh
    obtain ⟨hop, hlt, hno⟩ := I.own h hh
    refine ⟨hop, hlt, fun {g o'} hg => ?_⟩
    obtain ⟨o'', ho'', heq⟩ := hcases hg
    exact heq ▸ hno ho''
  · intro g hg
    obtain ⟨hno, hlt⟩ := I.closed g hg
    refine ⟨?_, hlt⟩
    have hgf : g ≠ f := by
      rintro rfl
      rw [ho] at hno
      cases hno
    rw [← hno]
    exact Function.update_of_ne hgf ..

/-- The effect of changing a count. -/
lemma setref_effect {o : FDFile} {refs : Word} {H' : Multiset FileRef} (ho : s.objs f = some o)
    (hH : ∀ g ∈ H, g ∈ H') :
    Effect s { s with objs := Function.update s.objs f (some { o with refs }) } H H' where
  closes g := by
    by_cases hg : g ∈ H
    · simp [hH g hg]
    · simp [hg]
  keeps {g o'} hg _ := by
    by_cases hgf : g = f
    · subst hgf
      simp only [Function.update_self, Option.some.injEq] at hg
      exact ⟨o, ho, by rw [← hg]⟩
    · simp only [Function.update_of_ne hgf] at hg
      exact ⟨o', hg, rfl⟩
  nobj := le_rfl

/-- One more holder. -/
lemma addref {o : FDFile} (I : Owns s H W) (ho : s.objs f = some o) (hclose : o.has .close = true)
    (hrefs : o.refs.toNat = H.count f) (hlt : H.count f + 1 < 2 ^ 64) :
    Owns (s.addref f) (f ::ₘ H) W ∧ Effect s (s.addref f) H (f ::ₘ H) := by
  have heq : s.addref f =
      { s with objs := Function.update s.objs f (some { o with refs := o.refs + 1 }) } := by
    rw [Files.addref, ho]
    rfl
  rw [heq]
  refine ⟨I.setref ho hclose (fun _ => ?_) fun g hg => Multiset.count_cons_of_ne hg _,
    setref_effect ho fun g hg => Multiset.mem_cons_of_mem hg⟩
  rw [Multiset.count_cons_self, BitVec.toNat_add, hrefs]
  exact Nat.mod_eq_of_lt hlt

/-- One holder less. The close handler runs when it was the last one. -/
lemma release (I : Owns s H W) (hf : f ∈ H) :
    Owns (s.fdrelease f) (H.erase f) W ∧ Effect s (s.fdrelease f) H (H.erase f) := by
  obtain ⟨o, ho, hrefs, hclose⟩ := I.held f hf
  have hpos : 0 < H.count f := Multiset.count_pos.mpr hf
  have hcount : (H.erase f).count f = H.count f - 1 := Multiset.count_erase_self ..
  have hne : ∀ g, g ≠ f → (H.erase f).count g = H.count g := fun g hg =>
    Multiset.count_erase_of_ne hg _
  by_cases hone : o.refs - 1 = 0
  · -- the last holder: the object is closed and freed
    have hlast : H.count f = 1 := by bv_omega
    have hnot : f ∉ H.erase f := by
      rw [← Multiset.count_pos, hcount]
      omega
    have heq : s.fdrelease f =
        { s.hostClose o.file with
          objs := Function.update s.objs f none
          closed := s.closed ++ [f] } := by
      simp only [Files.fdrelease, ho, if_pos hone, Files.close, if_pos hclose, Files.hostClose]
    rw [heq]
    have hother : ∀ {g o'}, Function.update s.objs f none g = some o' → g ≠ f ∧ s.objs g = some o' := by
      intro g o' hg
      by_cases hgf : g = f
      · subst hgf
        rw [Function.update_self] at hg
        cases hg
      · rw [Function.update_of_ne hgf] at hg
        exact ⟨hgf, hg⟩
    have hopen : ∀ h', h' ≠ o.file → Function.update s.isOpen o.file false h' = s.isOpen h' :=
      fun h' hh => Function.update_of_ne hh ..
    refine ⟨⟨?_, ?_, ?_, ?_, ?_, I.nodup, ?_⟩, ⟨?_, ?_, le_rfl⟩⟩
    · intro g hg
      have hgf : g ≠ f := fun heq => hnot (heq ▸ hg)
      obtain ⟨o', ho', hr, hc⟩ := I.held g (Multiset.mem_of_mem_erase hg)
      exact ⟨o', by simp only [Function.update_of_ne hgf, ho'], by rw [hr, hne g hgf], hc⟩
    · intro g o' hg
      exact I.fresh (hother hg).2
    · intro g o' hg
      obtain ⟨hgf, ho'⟩ := hother hg
      have hfile : o'.file ≠ o.file := fun he => hgf (I.inj ho' ho he)
      simp only [Files.hostClose, hopen _ hfile]
      exact I.handle ho'
    · intro g g' o1 o2 h1 h2
      exact I.inj (hother h1).2 (hother h2).2
    · intro h hh
      obtain ⟨hop, hlt, hno⟩ := I.own h hh
      refine ⟨?_, hlt, fun {g o'} hg => hno (hother hg).2⟩
      simp only [Files.hostClose, hopen h (Ne.symm (hno ho)), hop]
    · intro g hg
      rcases List.mem_append.mp hg with hg | hg
      · obtain ⟨hno, hlt⟩ := I.closed g hg
        refine ⟨?_, hlt⟩
        by_cases hgf : g = f
        · subst hgf
          exact Function.update_self ..
        · simp only [Function.update_of_ne hgf, hno]
      · rw [List.mem_singleton] at hg
        subst hg
        exact ⟨Function.update_self .., I.fresh ho⟩
    · intro g
      rw [List.count_append]
      congr 1
      by_cases hgf : g = f
      · subst hgf
        simp [hf, hnot]
      · have : ¬ (g ∈ H ∧ g ∉ H.erase f) := by
          rw [Multiset.mem_erase_of_ne hgf]
          exact fun h => h.2 h.1
        rw [if_neg this]
        simp [Ne.symm hgf]
    · intro g o' hg _
      exact ⟨o', (hother hg).2, rfl⟩
  · have heq : s.fdrelease f =
        { s with objs := Function.update s.objs f (some { o with refs := o.refs - 1 }) } := by
      simp only [Files.fdrelease, ho, if_neg hone]
    rw [heq]
    refine ⟨I.setref ho hclose (fun _ => ?_) hne, setref_effect ho fun g hg => ?_⟩
    · rw [hcount, ← hrefs]
      bv_omega
    · by_cases hgf : g = f
      · subst hgf
        rw [← Multiset.count_pos, hcount]
        bv_omega
      · exact (Multiset.mem_erase_of_ne hgf).mpr hg

/-- A new object that nobody holds is released: its count wraps, and it stays. -/
lemma release_new {o : FDFile} (I : Owns s H W) (ho : s.objs f = some o) (hclose : o.has .close = true)
    (hrefs : o.refs = 0) (hf : f ∉ H) : Owns (s.fdrelease f) H W ∧ Effect s (s.fdrelease f) H H := by
  have hne : o.refs - 1 ≠ 0 := by
    rw [hrefs]
    decide
  have heq : s.fdrelease f =
      { s with objs := Function.update s.objs f (some { o with refs := o.refs - 1 }) } := by
    simp only [Files.fdrelease, ho, if_neg hne]
  rw [heq]
  exact ⟨I.setref ho hclose (fun hmem => absurd hmem hf) fun _ _ => rfl, setref_effect ho fun _ hg => hg⟩

/-- Opening a handle. -/
lemma hostOpen (I : Owns s H W) :
    Owns s.hostOpen H (s.nhandle ::ₘ W) ∧ Effect s s.hostOpen H H := by
  have hopen : ∀ h', h' < s.nhandle → Function.update s.isOpen s.nhandle true h' = s.isOpen h' :=
    fun h' hh => Function.update_of_ne hh.ne ..
  refine ⟨⟨I.held, I.fresh, fun {g o} hg => ?_, I.inj, fun h hh => ?_, ?_, I.closed⟩,
    fun g => by simp [Files.hostOpen], fun {g o} hg _ => ⟨o, hg, rfl⟩, le_rfl⟩
  · obtain ⟨hop, hlt⟩ := I.handle hg
    exact ⟨(hopen _ hlt).trans hop, Nat.lt_succ_of_lt hlt⟩
  · obtain rfl | hh := Multiset.mem_cons.mp hh
    · exact ⟨Function.update_self .., Nat.lt_succ_self _, fun {g o} hg => (I.handle hg).2.ne⟩
    · obtain ⟨hop, hlt, hno⟩ := I.own h hh
      exact ⟨(hopen h hlt).trans hop, Nat.lt_succ_of_lt hlt, hno⟩
  · exact Multiset.nodup_cons.mpr ⟨fun hh => (I.own _ hh).2.1.ne rfl, I.nodup⟩

/-- Closing a handle that is owned by no object. -/
lemma hostClose (I : Owns s H (h ::ₘ W)) :
    Owns (s.hostClose h) H W ∧ Effect s (s.hostClose h) H H := by
  obtain ⟨-, -, hno⟩ := I.own h (Multiset.mem_cons_self h W)
  obtain ⟨hnot, hnodup⟩ := Multiset.nodup_cons.mp I.nodup
  have hopen : ∀ h', h' ≠ h → Function.update s.isOpen h false h' = s.isOpen h' :=
    fun h' hh => Function.update_of_ne hh ..
  refine ⟨⟨I.held, I.fresh, fun {g o} hg => ?_, I.inj, fun h' hh => ?_, hnodup, I.closed⟩,
    fun g => by simp [Files.hostClose], fun {g o} hg _ => ⟨o, hg, rfl⟩, le_rfl⟩
  · obtain ⟨hop, hlt⟩ := I.handle hg
    exact ⟨(hopen _ (hno hg)).trans hop, hlt⟩
  · obtain ⟨hop, hlt, hno'⟩ := I.own h' (Multiset.mem_cons_of_mem hh)
    exact ⟨(hopen h' fun he => hnot (he ▸ hh)).trans hop, hlt, hno'⟩

/-- A new object takes over a handle. -/
lemma filefnew (I : Owns s H (h ::ₘ W)) :
    Owns (s.filefnew h) H W ∧ Effect s (s.filefnew h) H H := by
  obtain ⟨hop, hlt, hno⟩ := I.own h (Multiset.mem_cons_self h W)
  obtain ⟨hnot, hnodup⟩ := Multiset.nodup_cons.mp I.nodup
  have hcases : ∀ {g o}, (s.filefnew h).objs g = some o →
      (g = s.nobj ∧ o.file = h) ∨ (g < s.nobj ∧ s.objs g = some o) := by
    intro g o hg
    by_cases hgf : g = s.nobj
    · subst hgf
      simp only [Files.filefnew, Function.update_self, Option.some.injEq] at hg
      exact .inl ⟨rfl, by rw [← hg]⟩
    · simp only [Files.filefnew, Function.update_of_ne hgf] at hg
      exact .inr ⟨I.fresh hg, hg⟩
  have hold : ∀ {g}, g < s.nobj → (s.filefnew h).objs g = s.objs g := fun {g} hg =>
    Function.update_of_ne hg.ne ..
  refine ⟨⟨fun g hg => ?_, fun {g o} hg => ?_, fun {g o} hg => ?_, fun {g g' o o'} h1 h2 he => ?_,
    fun h' hh => ?_, hnodup, fun g hg => ?_⟩, fun g => by simp [Files.filefnew], fun {g o} hg hlt => ?_,
    Nat.le_succ _⟩
  · obtain ⟨o, ho, hr⟩ := I.held g hg
    exact ⟨o, (hold (I.fresh ho)).trans ho, hr⟩
  · obtain ⟨rfl, _⟩ | ⟨hg, _⟩ := hcases hg
    · exact Nat.lt_succ_self _
    · exact Nat.lt_succ_of_lt hg
  · obtain ⟨_, he⟩ | ⟨_, hg⟩ := hcases hg
    · rw [he]
      exact ⟨hop, hlt⟩
    · exact I.handle hg
  · obtain ⟨rfl, he1⟩ | ⟨_, h1⟩ := hcases h1
    · obtain ⟨rfl, _⟩ | ⟨_, h2⟩ := hcases h2
      · rfl
      · exact absurd (he.symm.trans he1) (hno h2)
    · obtain ⟨rfl, he2⟩ | ⟨_, h2⟩ := hcases h2
      · exact absurd (he.trans he2) (hno h1)
      · exact I.inj h1 h2 he
  · obtain ⟨hop', hlt', hno'⟩ := I.own h' (Multiset.mem_cons_of_mem hh)
    refine ⟨hop', hlt', fun {g o} hg => ?_⟩
    obtain ⟨_, he⟩ | ⟨_, hg⟩ := hcases hg
    · rw [he]
      exact fun heq => hnot (heq ▸ hh)
    · exact hno' hg
  · obtain ⟨hno, hlt⟩ := I.closed g hg
    exact ⟨(hold hlt).trans hno, Nat.lt_succ_of_lt hlt⟩
  · exact ⟨o, (hold hlt).symm.trans hg, rfl⟩

end Owns

namespace Effect

variable {s s1 s2 : Files} {H H1 H2 : Multiset FileRef}

/-- Nothing happens. -/
lemma refl (s : Files) (H : Multiset FileRef) : Effect s s H H :=
  ⟨fun f => by simp, fun {f o} hf _ => ⟨o, hf, rfl⟩, le_rfl⟩

/-- Two steps, where the first adds no object and what it drops is not added again. -/
lemma trans (h1 : Effect s s1 H H1) (h2 : Effect s1 s2 H1 H2) (hsub : ∀ f ∈ H1, f ∈ H)
    (hdrop : ∀ f ∈ H, f ∉ H1 → f ∉ H2) : Effect s s2 H H2 where
  closes f := by
    rw [h2.closes, h1.closes]
    by_cases hf : f ∈ H
    · by_cases hf1 : f ∈ H1
      · simp [hf, hf1]
      · simp [hf, hf1, hdrop f hf hf1]
    · have hf1 : f ∉ H1 := fun h => hf (hsub f h)
      simp [hf, hf1]
  keeps {f o} hf hlt := by
    obtain ⟨o1, hf1, he1⟩ := h2.keeps hf (hlt.trans_le h1.nobj)
    obtain ⟨o0, hf0, he0⟩ := h1.keeps hf1 hlt
    exact ⟨o0, hf0, he0.trans he1⟩
  nobj := h1.nobj.trans h2.nobj

end Effect
/-! ## The calls of one process -/

/-- The objects a table holds. -/
def FDTable.refs (t : FDTable) : Multiset FileRef := ∑ i, one (t.files i)

/-- The objects a process holds. -/
def ProcFiles.refs (p : ProcFiles) : Multiset FileRef := p.fdtable.refs + one p.cwd.fd

/-- The handles a process owns. -/
def ProcFiles.owns (p : ProcFiles) : Multiset HostFile :=
  if p.cwd.fd = none then one p.cwd.file else 0

namespace FDTable

variable {t : FDTable} {fd : Fin TUX_NOFILE} {f : FileRef}

/-- One slot is replaced. -/
lemma refs_update (t : FDTable) (fd : Fin TUX_NOFILE) (v : Option FileRef) :
    (FDTable.mk (Function.update t.files fd v)).refs + one (t.files fd) = t.refs + one v :=
  sum_update one t.files (Finset.mem_univ fd) v

/-- One slot is cleared. -/
lemma refs_remove (h : t.files fd = some f) :
    t.refs = f ::ₘ (FDTable.mk (Function.update t.files fd none)).refs := by
  have := refs_update t fd none
  rw [h, one_none, one_some, add_zero] at this
  rw [← this, add_comm, Multiset.singleton_add]

/-- A free slot is filled. -/
lemma refs_assign (h : t.files fd = none) :
    (FDTable.mk (Function.update t.files fd (some f))).refs = f ::ₘ t.refs := by
  have := refs_update t fd (some f)
  rw [h, one_none, one_some, add_zero] at this
  rw [this, add_comm, Multiset.singleton_add]

/-- What is in a slot is held. -/
lemma mem_refs (h : t.files fd = some f) : f ∈ t.refs := by
  rw [refs_remove h]
  exact Multiset.mem_cons_self ..

/-- The slot that is picked is free. -/
lemma fdalloc_free (h : t.fdalloc = some fd) : t.files fd = none := by
  have := List.find?_some h
  exact Option.isNone_iff_eq_none.mp this

end FDTable

/-- A step from `s` to `s'` that turns holders `H` and handles `W` into `H'` and `W'`. -/
structure Moves (s s' : Files) (H H' : Multiset FileRef) (W' : Multiset HostFile) : Prop where
  owns : Owns s' H' W'
  effect : Effect s s' H H'

section
variable {s : Files} {t : FDTable} {p : ProcFiles} {R : Multiset FileRef} {W : Multiset HostFile}
  {f : FileRef}

/-- A reference is given up. -/
lemma Owns.drop {H : Multiset FileRef} (I : Owns s (f ::ₘ H) W) :
    Moves s (s.fdrelease f) (f ::ₘ H) H W := by
  obtain ⟨h1, h2⟩ := I.release (Multiset.mem_cons_self f H)
  rw [Multiset.erase_cons_head] at h1 h2
  exact ⟨h1, h2⟩

/-- A few holders hold no object too often. -/
lemma count_lt_of_card {H : Multiset FileRef} {n : Nat} (hcard : (f ::ₘ H).card < n) :
    H.count f + 1 < n := by
  rw [Multiset.card_cons] at hcard
  exact lt_of_le_of_lt (Nat.succ_le_succ (Multiset.count_le_card ..)) hcard

/-- One more holder of an object that has some. -/
lemma Owns.share {H : Multiset FileRef} (I : Owns s H W) (hf : f ∈ H)
    (hlt : H.count f + 1 < 2 ^ 64) : Moves s (s.addref f) H (f ::ₘ H) W := by
  obtain ⟨o, ho, hrefs, hclose⟩ := I.held f hf
  obtain ⟨h1, h2⟩ := I.addref ho hclose hrefs hlt
  exact ⟨h1, h2⟩

/-- A slot is cleared and its reference released, -/
lemma fdremoveSlot_ok (I : Owns s (t.refs + R) W) (fd : Fin TUX_NOFILE) :
    Moves s (t.fdremoveSlot s fd).2 (t.refs + R) ((t.fdremoveSlot s fd).1.refs + R) W ∧
      (t.fdremoveSlot s fd).1.refs ≤ t.refs := by
  unfold FDTable.fdremoveSlot
  cases h : t.files fd with
  | none => exact ⟨⟨I, .refl _ _⟩, le_rfl⟩
  | some f =>
    simp only [FDTable.refs_remove h, Multiset.cons_add] at I ⊢
    exact ⟨I.drop, Multiset.le_cons_self ..⟩

/-- and so are all slots of a list, by induction. -/
lemma fdclearFrom_ok (fds : List (Fin TUX_NOFILE)) (I : Owns s (t.refs + R) W) :
    Moves s (FDTable.fdclearFrom fds t s).2 (t.refs + R)
      ((FDTable.fdclearFrom fds t s).1.refs + R) W ∧
      (FDTable.fdclearFrom fds t s).1.refs ≤ t.refs := by
  induction fds generalizing t s with
  | nil => exact ⟨⟨I, .refl _ _⟩, le_rfl⟩
  | cons fd fds ih =>
    obtain ⟨h1, hle1⟩ := fdremoveSlot_ok I fd
    obtain ⟨h2, hle2⟩ := ih h1.owns
    refine ⟨⟨h2.owns, h1.effect.trans h2.effect ?_ ?_⟩, hle2.trans hle1⟩
    · exact fun g hg => Multiset.mem_of_le (add_le_add_left hle1 R) hg
    · exact fun g _ hg hg2 => hg (Multiset.mem_of_le (add_le_add_left hle2 R) hg2)

/-- The table does not change with the directory. -/
lemma leave_fdtable (p : ProcFiles) (s : Files) : (p.leave s).1.fdtable = p.fdtable := by
  unfold ProcFiles.leave
  split <;> rfl

/-- Giving up the current directory leaves the table. -/
lemma leave_ok (I : Owns s (p.refs + R) (p.owns + W)) :
    Moves s (p.leave s).2 (p.refs + R) (p.fdtable.refs + R) W ∧
      (p.leave s).1.fdtable = p.fdtable ∧ (p.leave s).1.cwd.fd = none := by
  unfold ProcFiles.leave
  simp only [ProcFiles.refs, ProcFiles.owns] at I ⊢
  cases hfd : p.cwd.fd with
  | some f =>
    simp only [hfd, one_some, reduceCtorEq, if_false, zero_add] at I ⊢
    rw [add_right_comm, add_comm, Multiset.singleton_add] at I ⊢
    exact ⟨I.drop, trivial, trivial⟩
  | none =>
    simp only [hfd, one_none, if_true, add_zero] at I ⊢
    cases hfile : p.cwd.file with
    | none =>
      simp only [hfile, one_none, zero_add] at I ⊢
      exact ⟨⟨I, .refl _ _⟩, trivial, hfd⟩
    | some h =>
      simp only [hfile, one_some, Multiset.singleton_add] at I ⊢
      exact ⟨⟨I.hostClose.1, I.hostClose.2⟩, trivial, hfd⟩

/-- `chdir` releases the old directory, and owns the new one. -/
lemma chdir_ok (opened : Bool) (I : Owns s (p.refs + R) (p.owns + W)) :
    Moves s (p.chdir s opened).2 (p.refs + R) ((p.chdir s opened).1.refs + R)
      ((p.chdir s opened).1.owns + W) := by
  unfold ProcFiles.chdir
  cases opened with
  | false =>
    obtain ⟨h, ht, hc⟩ := leave_ok I
    rcases hl : p.leave s with ⟨p', s'⟩
    simp only [hl] at h ht hc
    simp only [Bool.false_eq_true, if_false, hl, ProcFiles.owns, ProcFiles.refs, ht, hc, one_none,
      add_zero, if_true, zero_add] at h ⊢
    exact h
  | true =>
    obtain ⟨I1, e1⟩ := I.hostOpen
    rw [← Multiset.add_cons] at I1
    obtain ⟨h, ht, hc⟩ := leave_ok I1
    rcases hl : p.leave s.hostOpen with ⟨p', s'⟩
    simp only [hl] at h ht hc
    simp only [if_true, hl, ProcFiles.owns, ProcFiles.refs, ht, hc, one_none, one_some, add_zero,
      Multiset.singleton_add] at h e1 ⊢
    exact ⟨h.owns, e1.trans h.effect (fun _ hg => hg) fun _ hg hn => absurd hg hn⟩

/-- `fchdir` releases the old directory, and holds the new one. -/
lemma fchdirTo_ok {file : HostFile} (I : Owns s (p.refs + R) (p.owns + W))
    (hmem : f ∈ p.fdtable.refs + R) (hlt : (p.fdtable.refs + R).count f + 1 < 2 ^ 64) :
    Moves s (p.fchdirTo s f file).2 (p.refs + R) ((p.fchdirTo s f file).1.refs + R)
      ((p.fchdirTo s f file).1.owns + W) := by
  obtain ⟨h, ht, hc⟩ := leave_ok I
  unfold ProcFiles.fchdirTo
  rcases hl : p.leave s with ⟨p', s'⟩
  simp only [hl] at h ht hc
  simp only [ProcFiles.owns, ProcFiles.refs, ht, one_some, reduceCtorEq, if_false, zero_add] at h ⊢
  have hR : p.fdtable.refs + {f} + R = f ::ₘ (p.fdtable.refs + R) := by
    rw [add_right_comm, add_comm, Multiset.singleton_add]
  rw [hR]
  obtain ⟨I2, e2⟩ := h.owns.share hmem hlt
  refine ⟨I2, h.effect.trans e2 (fun g hg => ?_) fun g _ hn hg => ?_⟩
  · rw [Multiset.mem_add] at hg ⊢
    exact hg.imp_left fun hg => Multiset.mem_add.mpr (.inl hg)
  · obtain rfl | hg := Multiset.mem_cons.mp hg
    · exact hn hmem
    · exact hn hg

/-- `openat` stores a new object, which the table then holds. -/
lemma openat_ok (r : NewFile) (I : Owns s (p.refs + R) (p.owns + W))
    (hcard : ((p.openat s r).2.1.refs + R).card < 2 ^ 64) :
    Moves s (p.openat s r).2.2 (p.refs + R) ((p.openat s r).2.1.refs + R)
      ((p.openat s r).2.1.owns + W) := by
  unfold ProcFiles.openat at hcard ⊢
  cases r with
  | nofile => exact ⟨I, .refl _ _⟩
  | nomem =>
    obtain ⟨I1, e1⟩ := I.hostOpen
    exact ⟨I1.forget, e1⟩
  | ok =>
    obtain ⟨I1, e1⟩ := I.hostOpen
    obtain ⟨I2, e2⟩ := I1.filefnew
    have e12 := e1.trans e2 (fun _ hg => hg) fun _ hg hn => absurd hg hn
    have hobj : (s.hostOpen.filefnew s.nhandle).objs s.nobj = some ⟨s.nhandle, 0, fun _ => true⟩ :=
      Function.update_self ..
    have hnew : s.nobj ∉ p.refs + R := fun hm => (I.lt_nobj hm).ne rfl
    simp only [filenew] at hcard ⊢
    cases ha : p.fdtable.fdalloc with
    | none =>
      obtain ⟨I3, e3⟩ := I2.release_new hobj rfl rfl hnew
      exact ⟨I3, e12.trans e3 (fun _ hg => hg) fun _ hg hn => absurd hg hn⟩
    | some fd =>
      have hfree := FDTable.fdalloc_free ha
      simp only [ha, FDTable.fdassign, ProcFiles.refs, FDTable.refs_assign hfree, Multiset.cons_add,
        ProcFiles.owns] at hcard I2 hnew ⊢
      have hzero : (p.fdtable.refs + one p.cwd.fd + R).count s.nobj = 0 :=
        Multiset.count_eq_zero.mpr hnew
      obtain ⟨I3, e3⟩ := I2.addref hobj rfl (by rw [hzero]; rfl) (by rw [hzero]; decide)
      exact ⟨I3, e12.trans e3 (fun _ hg => hg) fun _ hg hn => absurd hg hn⟩

end
end Libtux
