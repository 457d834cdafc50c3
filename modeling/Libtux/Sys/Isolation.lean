import Libtux.Sys.System

/-!
# Isolation

What holds of every run of a `System` from its start, by `System.Ok.step` and an induction on the run. A process
is as it was after a run of others (`isolation`), the memory of the host is never changed (`host_memory`), and in
every state the sys page of a process is the table that the runtime wrote, and its guards are closed
(`sys_pages`).
-/

namespace Libtux
open Lib Exec

namespace System

variable {L : LibMMap} {A : Arch} {E : Host L} {s0 s s' s'' : System L A} {p : Nat}

/-- A process in two states: its region, what is recorded of it, its descriptors and its threads. -/
structure Unchanged (s s' : System L A) (p : Nat) : Prop where
  space : s'.spaces p = s.spaces p
  files : s'.tux.procs p = s.tux.procs p
  mem : ∀ x, (s.info p).Region x → s'.mem x = s.mem x ∧ s'.prot x = s.prot x
  contexts : ∀ c : Context A.machine, c.proc = p → ∀ n : Nat, s'.contexts[n]? = some c ↔ s.contexts[n]? = some c

/-- Nothing happened. -/
lemma Unchanged.refl : Unchanged s s p := ⟨rfl, rfl, fun _ _ => ⟨rfl, rfl⟩, fun _ _ _ => Iff.rfl⟩

/-- What neither of two runs changes. -/
lemma Unchanged.trans (h : Unchanged s s' p) (h' : Unchanged s' s'' p) : Unchanged s s'' p where
  space := h'.space.trans h.space
  files := h'.files.trans h.files
  mem := by
    intro x hx
    have hx' : (s'.info p).Region x := by
      rw [info, h.space]
      exact hx
    exact ⟨(h'.mem x hx').1.trans (h.mem x hx).1, (h'.mem x hx').2.trans (h.mem x hx).2⟩
  contexts c hc n := (h'.contexts c hc n).trans (h.contexts c hc n)

/-- The memory of the host is not changed: what no process has as its region is as it was in the start. -/
theorem host_memory {l : List Act} (h0 : s0.Initial) (hr : Runs E s0 l s) {x : Word}
    (hx : ∀ p < s.tux.nproc, ¬ (s.info p).Region x) : s.mem x = s0.mem x ∧ s.prot x = s0.prot x := by
  induction hr with
  | nil => exact ⟨rfl, rfl⟩
  | @snoc s1 s2 l a hr hst ih =>
    have ok1 : s1.Ok E := h0.ok.run hr
    obtain ⟨ok2, hof⟩ := ok1.step hst.1 hst.2
    have hx1 : ∀ p < s1.tux.nproc, ¬ (s1.info p).Region x := by
      intro p hp hin
      refine hx p (hp.trans_le hof.nproc) ?_
      by_cases hown : p = a.proc s1.tux.nproc
      · rw [hown, hof.info (hown ▸ hp)]
        exact hown ▸ hin
      · rw [info, hof.space hown]
        exact hin
    obtain ⟨hm, hpr⟩ := hof.mem fun hlt => hx _ hlt
    exact ⟨hm.trans (ih hx1).1, hpr.trans (ih hx1).2⟩

/-- The memory below the two processes is as it was. -/
theorem host_memory_closed : closed.mem 4096 = 0 ∧ closed.prot 4096 = LFI_PROT_NONE := by
  refine host_memory initial_start (runs_oneProc.append runs_closed) fun p hp hin => ?_
  have hp : p < 2 := hp
  interval_cases p
  · exact absurd hin (by decide +kernel)
  · exact absurd hin (by decide +kernel)

/-- In every state of a run, the regions of two processes have no address in common. A process cannot change how
it is let out: from its sys page, which is read-only, it loads the entry points of the runtime and its base, and
every thread has that page; what is left of its region outside of the window is not accessible. -/
theorem sys_pages {l : List Act} (h0 : s0.Initial) (hr : Runs E s0 l s) :
    (∀ p < s.tux.nproc, ∀ q < s.tux.nproc, p ≠ q → ∀ x, (s.info p).Region x → ¬ (s.info q).Region x) ∧
    ∀ p < s.tux.nproc,
      (∀ k (hk : k < E.rt.words.length),
        le s.mem ((s.info p).base + 8 * BitVec.ofNat 64 k) 8 64 = E.rt.words[k]) ∧
      le s.mem ((s.info p).base + 2048) 8 64 = (s.info p).base ∧
      (∀ x, (s.info p).OnSysPage x → s.prot x = LFI_PROT_READ) ∧
      (∀ x, (s.info p).Region x → ¬ (s.info p).OnSysPage x → ¬ (s.info p).Within x → s.prot x = LFI_PROT_NONE) ∧
      ∀ c ∈ s.contexts, c.proc = p → c.sys = (s.info p).base := by
  have ok : s.Ok E := h0.ok.run hr
  refine ⟨fun p hp q hq hne x hx hin => hne (ok.apart hp hq (hx.eq hin)), fun p hp => ?_⟩
  have hloads := (ok.sys hp).loads (by rw [ok.page hp]; exact E.page_sys)
  refine ⟨hloads.1, hloads.2, (ok.sys hp).prot, fun x => ok.guard hp, fun c hc hproc => ?_⟩
  rw [← hproc]
  exact (ok.context hc).2

/-- The entry point that the second process loads for its system calls. -/
theorem sys_pages_closed : le closed.mem (second.base + 8 * BitVec.ofNat 64 0) 8 64 = 0x1000 ∧
    closed.prot second.base = LFI_PROT_READ := by
  obtain ⟨-, h⟩ := sys_pages initial_start (runs_oneProc.append runs_closed)
  obtain ⟨hcalls, -, hprot, -, -⟩ := h 1 (by decide +kernel)
  have hbase : (closed.info 1).base = second.base := by decide +kernel
  rw [hbase] at hcalls
  exact ⟨hcalls 0 (by decide), hprot second.base (by decide +kernel)⟩

end System
end Libtux
