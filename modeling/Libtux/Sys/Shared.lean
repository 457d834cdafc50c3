import Libtux.Sys.Descriptors
import Libtux.Sys.System

/-!
# What sandboxes share

The counter of thread ids (C `nexttid`) and the file objects are the same for all processes of a `System`.

Ids are handed out in order, so two threads have the same id only after the counter wrapped (`thread_ids`). Every
run of the system is a run of its `Tux` (`files_refine`), as a system call does to the file objects what a `Call`
of its process does, or nothing.
-/

namespace Libtux
open Lib Exec

namespace System

variable {L : LibMMap} {A : Arch} {E : Host L} {s s' : System L A}

/-! ## Thread ids -/

/-- The `k`-th id that `nexttid` hands out. -/
def tidAt (k : Nat) : CInt := 10000 + BitVec.ofNat 32 k

/-- The ids of the threads, in the order in which the threads were started, were handed out in that order. -/
structure Ids (s : System L A) (k : Nat) (ks : List Nat) : Prop where
  next : s.nexttid = tidAt k
  tids : s.contexts.map Context.tid = ks.map tidAt
  sorted : ks.Pairwise (· < ·)
  lt : ∀ j ∈ ks, j < k

/-- The ids are counted up. -/
lemma tidAt_succ (k : Nat) : tidAt k + 1 = tidAt (k + 1) := by
  rw [tidAt, tidAt, BitVec.add_assoc, BitVec.ofNat_add]
  rfl

/-- The counter does not come back in 2^32 steps. -/
lemma tidAt_inj {j k : Nat} (hj : j < 2 ^ 32) (hk : k < 2 ^ 32) (h : tidAt j = tidAt k) : j = k := by
  have := congrArg BitVec.toNat (BitVec.add_right_inj 10000 |>.mp h)
  rw [BitVec.toNat_ofNat, BitVec.toNat_ofNat, Nat.mod_eq_of_lt hj, Nat.mod_eq_of_lt hk] at this
  exact this

/-- A thread is started with the next id. -/
lemma Ids.snoc {k : Nat} {ks : List Nat} (h : Ids s k ks) {t : Context A.machine} (htid : t.tid = s.nexttid)
    (hnext : s'.nexttid = s.nexttid + 1)
    (hcs : s'.contexts.map Context.tid = s.contexts.map Context.tid ++ [t.tid]) : Ids s' (k + 1) (ks ++ [k]) where
  next := by rw [hnext, h.next, tidAt_succ]
  tids := by rw [hcs, h.tids, htid, h.next, List.map_append, List.map_singleton]
  sorted := by
    refine List.pairwise_append.mpr ⟨h.sorted, List.pairwise_singleton _ _, fun j hj m hm => ?_⟩
    rw [List.mem_singleton.mp hm]
    exact h.lt j hj
  lt := by
    intro j hj
    rcases List.mem_append.mp hj with hj | hj
    · exact Nat.lt_succ_of_lt (h.lt j hj)
    · rw [List.mem_singleton.mp hj]
      exact Nat.lt_succ_self k

/-- No thread is started. -/
lemma Ids.same {k : Nat} {ks : List Nat} (h : Ids s k ks) (hnext : s'.nexttid = s.nexttid)
    (hcs : s'.contexts.map Context.tid = s.contexts.map Context.tid) : Ids s' k ks :=
  ⟨hnext.trans h.next, hcs.trans h.tids, h.sorted, h.lt⟩

/-- Writing back a context with its id does not change the ids. -/
lemma map_tid_set {n : Nat} {c c' : Context A.machine} (hn : s.contexts[n]? = some c) (htid : c'.tid = c.tid) :
    (s.contexts.set n c').map Context.tid = s.contexts.map Context.tid := by
  obtain ⟨hlt, hget⟩ := List.getElem?_eq_some_iff.mp hn
  have hlt' : n < (s.contexts.map Context.tid).length := by
    rw [List.length_map]
    exact hlt
  have hself : (s.contexts.map Context.tid)[n] = c.tid := by rw [List.getElem_map, hget]
  rw [List.map_set, htid, ← hself, List.set_getElem_self hlt']

/-- A system call hands out at most one id. -/
lemma Ids.after {k : Nat} {ks : List Nat} (h : Ids s k ks) {n : Nat} {c : Context A.machine}
    {w : World L A.machine} {live : Bool} (hn : s.contexts[n]? = some c) (hst : Starts (s.world c) w)
    (htid : w.p.tid = c.tid) : ∃ k' ks', k' ≤ k + 1 ∧ Ids (s.after n c w live) k' ks' := by
  have hmap : (s.contexts.set n ⟨c.proc, w.p.regs, w.p.sys, w.p.tp, w.p.ctid, w.p.tid, live⟩).map Context.tid =
      s.contexts.map Context.tid := map_tid_set hn htid
  cases hst with
  | none hst hnext =>
    refine ⟨k, ks, Nat.le_succ k, h.same hnext ?_⟩
    rw [System.after, List.map_append, hmap, hst]
    exact List.append_nil _
  | one t hst ht _ hnext =>
    refine ⟨k + 1, ks ++ [k], le_rfl, h.snoc (t := t.context c.proc) ht hnext ?_⟩
    rw [System.after, List.map_append, hmap, hst]
    rfl

/-- A step uses up an id or none. -/
lemma Ids.step {k : Nat} {ks : List Nat} (h : Ids s k ks) {a : Act} (hst : Step E s a s') :
    ∃ k' ks', k' ≤ k + 1 ∧ Ids s' k' ks' := by
  cases hst with
  | refused =>
    refine ⟨k + 1, ks, le_rfl, ⟨?_, h.tids, h.sorted, fun j hj => Nat.lt_succ_of_lt (h.lt j hj)⟩⟩
    rw [← tidAt_succ, ← h.next]
  | @procNew prog interp argv i as1 as2 p l1 l2 l _ _ _ _ _ hproc =>
    have htid : p.tid = s.nexttid := (procsetup_self hproc).2
    refine ⟨k + 1, ks ++ [k], le_rfl, h.snoc (t := ⟨s.tux.nproc, p.regs, p.sys, p.tp, p.ctid, p.tid, true⟩) htid
      rfl ?_⟩
    rw [create, List.map_append, List.map_singleton]
  | guest hn _ _ => exact ⟨k, ks, Nat.le_succ k, h.same rfl (map_tid_set hn rfl)⟩
  | returns hn _ hrun =>
    obtain ⟨hst, -, htid⟩ := call_starts (returns_not_assertion (congrArg Res.val hrun))
    rw [hrun] at hst htid
    exact h.after hn hst htid
  | leaves hn _ hrun he =>
    obtain ⟨hst, -, htid⟩ := call_starts (leaves_not_assertion (congrArg Res.val hrun) he)
    rw [hrun] at hst htid
    exact h.after hn hst htid

/-- A run hands out at most one id a step. -/
lemma Initial.ids {l : List Act} (h0 : s.Initial) (hr : Run (Step E) s l s') :
    ∃ k ks, k ≤ l.length ∧ Ids s' k ks := by
  induction hr with
  | nil =>
    refine ⟨0, [], le_rfl, ⟨h0.nexttid, ?_, .nil, fun j hj => absurd hj List.not_mem_nil⟩⟩
    rw [h0.contexts]
    rfl
  | snoc hr hst ih =>
    obtain ⟨k, ks, hk, h⟩ := ih
    obtain ⟨k', ks', hk', h'⟩ := h.step hst
    refine ⟨k', ks', ?_, h'⟩
    rw [List.length_append, List.length_singleton]
    omega

/-- No two threads have the same id, in all processes and whether they still run or not, as long as there were
no more than `2 ^ 32` steps. -/
theorem thread_ids {l : List Act} (h0 : s.Initial) (hr : Run (Step E) s l s') (hlen : l.length ≤ 2 ^ 32) :
    (s'.contexts.map Context.tid).Nodup := by
  obtain ⟨k, ks, hk, h⟩ := h0.ids hr
  have hlt : ∀ j ∈ ks, j < 2 ^ 32 := fun j hj => (h.lt j hj).trans_le (hk.trans hlen)
  have hnodup : ks.Nodup := h.sorted.imp fun hlt => hlt.ne
  rw [h.tids]
  exact hnodup.map_on fun i hi j hj heq => tidAt_inj (hlt i hi) (hlt j hj) heq

/-- Two processes have two ids. -/
theorem thread_ids_closed : (closed.contexts.map Context.tid).Nodup :=
  thread_ids initial_start ((runs_oneProc.append runs_closed).map (f := id) fun h => h.2) (by decide)

/-! ## File objects -/

/-- What happened to the files of a process is what a call of it does. -/
def DidCall {M : Machine} (p : Nat) (w w' : World L M) : Prop :=
  ∀ T : Tux, T.procs p = w.fds → T.files = w.files → ∃ c, Tux.Call.proc c = some p ∧
    T.exec c = { T with procs := Function.update T.procs p w'.fds, files := w'.files }

section
variable {M : Machine} {O : HostOs} {w w' : World L M} {p : Nat}

/-- A call that was refused. -/
lemma DidCall.none (hfds : w'.fds = w.fds) (hfiles : w'.files = w.files) : DidCall p w w' := by
  intro T hq hs
  refine ⟨.openat p Option.none, rfl, ?_⟩
  have hupd : Function.update T.procs p w'.fds = T.procs := by
    rw [hfds, ← hq]
    exact Function.update_eq_self ..
  rw [hupd, hfiles, ← hs]
  rfl

/-- A call that runs `f` on the files of the process. -/
lemma DidCall.onProc (f : ProcFiles → Files → ProcFiles × Files) {c : Call} (hc : Tux.Call.proc c = some p)
    (hexec : ∀ T : Tux, T.exec c = T.onProc p f) (hf : f w.fds w.files = (w'.fds, w'.files)) : DidCall p w w' := by
  intro T hq hs
  refine ⟨c, hc, ?_⟩
  rw [hexec, Tux.onProc, hq, hs, hf]

/-- `sys_openat` is an open of the process, or nothing. -/
lemma sysOpenat_did (dirfd : CInt) (pathp : Word) : DidCall p w ((sysOpenat O dirfd pathp).run w).st := by
  obtain ⟨out, hrun⟩ := sysOpenat_run O dirfd pathp w
  rw [hrun]
  split
  · exact .onProc (fun q s => (q.openat s (O.newfile (w.ncall + w.lookups dirfd))).2)
      (c := .openat p (some (O.newfile (w.ncall + w.lookups dirfd)))) rfl (fun _ => rfl) rfl
  · exact .none rfl rfl
  · exact .none rfl rfl

/-- `sys_close` is a close. -/
lemma sysClose_did (fd : CInt) : DidCall p w ((sysClose fd).run w).st := by
  have hrun : ((sysClose fd).run w).st =
      { w with fds := (w.fds.close w.files fd).1, files := (w.fds.close w.files fd).2 } := by
    rw [sysClose, bind_run, get_run, andThen_ok_nil, bind_run, modify_run, andThen_ok_nil]
    split <;> rw [pure_run]
  rw [hrun]
  exact .onProc (fun q s => q.close s fd) (c := .close p fd) rfl (fun _ => rfl) rfl

/-- `sys_chdir` is a `chdir`, or nothing. -/
lemma sysChdir_did (pathp : Word) : DidCall p w ((sysChdir O pathp).run w).st := by
  rw [sysChdir_run]
  split
  · exact .none rfl rfl
  · exact .onProc (fun q s => q.chdir s (O.ret w.ncall).isSome) (c := .chdir p (some (O.ret w.ncall).isSome))
      rfl (fun _ => rfl) rfl

/-- `sys_fchdir` is an `fchdir`, or nothing. -/
lemma sysFchdir_did (fd : CInt) : DidCall p w ((sysFchdir O fd).run w).st := by
  rw [sysFchdir_run]
  split
  · exact .none rfl rfl
  · split
    · split
      · exact .onProc (fun q s => q.fchdir s fd true) (c := .fchdir p fd true) rfl (fun _ => rfl) rfl
      · exact .none rfl rfl
    · exact .none rfl rfl

end

/-- A system call does to the files what one call of the process does. -/
lemma syshandle_did {H : HostVm} {O : HostOs} {opts : TuxOptions} {num : Word} {a : Args} {w : World L A.machine}
    {p : Nat} : DidCall p w ((syshandle H O opts A num a).run w).st := by
  unfold syshandle
  cases hn : A.sysno num with
  | none => exact .none rfl rfl
  | some n =>
    by_cases hfiles : n.changes .files = false
    · have hframe := (syscall_respects H O opts n a w).files hfiles
      exact .none hframe.1 hframe.2
    · cases n with
      | openat => exact sysOpenat_did _ _
      | «open» => exact sysOpenat_did _ _
      | close => exact sysClose_did _
      | chdir => exact sysChdir_did _
      | fchdir => exact sysFchdir_did _
      | _ => exact absurd rfl hfiles

/-- A system call of a context is one call of its process. -/
lemma call_did (c : Context A.machine) :
    DidCall c.proc (s.world c) ((archSyshandle E.H E.O E.opts A).run (s.world c)).st := by
  obtain ⟨⟨regs, hst⟩, -⟩ := archSyshandle_st E.H E.O E.opts (s.world c)
  rw [hst]
  exact syshandle_did

/-- A process holds no more than 129 objects. -/
lemma refs_card (q : ProcFiles) : q.refs.card ≤ 129 := by
  have hone : ∀ f : Option FileRef, (one f).card ≤ 1 := by
    intro f
    cases f <;> simp
  have htable : q.fdtable.refs.card ≤ 128 := by
    rw [FDTable.refs, Multiset.card_sum]
    refine (Finset.sum_le_card_nsmul _ _ 1 fun i _ => hone _).trans ?_
    simp
  have hcwd := hone q.cwd.fd
  rw [ProcFiles.refs, Multiset.card_add]
  omega

/-- Processes are in regions of their own, and threads belong to processes that exist. Unlike `Ok`, every step
keeps this. -/
structure Regions (s : System L A) : Prop where
  apart : ∀ {p q}, p < s.tux.nproc → q < s.tux.nproc → (s.info p).base = (s.info q).base → p = q
  context : ∀ {c}, c ∈ s.contexts → c.proc < s.tux.nproc

/-- The region of a process is the same after a system call. -/
lemma call_info (c : Context A.machine) :
    ((archSyshandle E.H E.O E.opts A).run (s.world c)).st.p.as.info = s.info c.proc := by
  obtain ⟨⟨regs, hst⟩, -⟩ := archSyshandle_st E.H E.O E.opts (s.world c)
  rw [hst]
  change ((syshandle E.H E.O E.opts A _ _).run (s.world c)).st.p.as.info = (s.world c).p.as.info
  unfold syshandle
  cases hn : A.sysno (A.request c.regs).1 with
  | none =>
    rw [show A.sysno (A.request (s.world c).p.regs).1 = none from hn]
    rfl
  | some n =>
    rw [show A.sysno (A.request (s.world c).p.regs).1 = some n from hn]
    exact (syscall_respects E.H E.O E.opts n _ (s.world c)).info

/-- A system call leaves the regions. -/
lemma Regions.after (h : Regions s) {n : Nat} {c : Context A.machine} {w : World L A.machine} {live : Bool}
    (hn : s.contexts[n]? = some c) (hinfo : w.p.as.info = s.info c.proc) : Regions (s.after n c w live) := by
  have hsame : ∀ q, (s.after n c w live).info q = s.info q := by
    intro q
    unfold info
    by_cases hq : q = c.proc
    · subst hq
      rw [after_self]
      exact hinfo
    · rw [after_other hq]
  have hc := h.context (List.mem_of_getElem? hn)
  refine ⟨fun {p q} hp hq heq => ?_, fun {c'} hc' => ?_⟩
  · rw [hsame, hsame] at heq
    exact h.apart hp hq heq
  · rcases List.mem_append.mp hc' with hc' | hc'
    · rcases List.mem_or_eq_of_mem_set hc' with hc' | rfl
      · exact h.context hc'
      · exact hc
    · obtain ⟨t, -, rfl⟩ := List.mem_map.mp hc'
      exact hc

/-- A new process is in a region of its own. -/
lemma Regions.create (h : Regions s) {i : LFIAddrSpaceInfo} {p : TuxThread L A.machine} (hinfo : p.as.info = i)
    (hfresh : ∀ q < s.tux.nproc, (s.info q).base ≠ i.base) : Regions (s.create p) := by
  have hself : (s.create p).info s.tux.nproc = i := by
    rw [info, create_self]
    exact hinfo
  have hcases : ∀ {q}, q < (s.create p).tux.nproc → q < s.tux.nproc ∨ q = s.tux.nproc := fun hq =>
    Nat.lt_or_eq_of_le (Nat.lt_succ_iff.mp hq)
  refine ⟨fun {q r} hq hr heq => ?_, fun {c} hc => ?_⟩
  · rcases hcases hq with hq | rfl <;> rcases hcases hr with hr | rfl
    · rw [create_info hq, create_info hr] at heq
      exact h.apart hq hr heq
    · rw [create_info hq, hself] at heq
      exact absurd heq (hfresh q hq)
    · rw [create_info hr, hself] at heq
      exact absurd heq.symm (hfresh r hr)
    · rfl
  · rcases List.mem_append.mp hc with hc | hc
    · exact Nat.lt_succ_of_lt (h.context hc)
    · obtain rfl := List.mem_singleton.mp hc
      exact Nat.lt_succ_self _

/-- One step leaves them, or adds one. -/
lemma Regions.step {a : Act} (h : Regions s) (hst : Step E s a s') : Regions s' := by
  cases hst with
  | refused => exact ⟨h.apart, h.context⟩
  | @procNew prog interp argv i as1 as2 p l1 l2 l hpage hfresh _ halloc hsetup hproc =>
    have hinfo : as2.info = i := by rw [syssetup_true hsetup, sysalloc_true halloc]; rfl
    have hpg : as2.info.pagesize.toNat ≤ 2 ^ 20 := by
      rw [hinfo, hpage]
      exact E.page_le
    obtain ⟨_, _, _, hkept, _⟩ := procsetup_entry (p := procnewfile as2 s.nexttid) hpg (congrArg Res.val hproc)
    rw [hproc] at hkept
    exact h.create (hkept.trans hinfo) hfresh
  | @guest n c regs tp mem hn _ _ =>
    refine ⟨h.apart, fun {c'} hc' => ?_⟩
    rcases List.mem_or_eq_of_mem_set hc' with hc' | rfl
    · exact h.context hc'
    · exact h.context (c := c) (List.mem_of_getElem? hn)
  | @returns n c w l hn _ hrun =>
    have hinfo := call_info (E := E) (s := s) c
    rw [hrun] at hinfo
    exact h.after hn hinfo
  | @leaves n c w l e code hn _ hrun _ =>
    have hinfo := call_info (E := E) (s := s) c
    rw [hrun] at hinfo
    exact h.after hn hinfo

/-- They hold at the start, when there is no process. -/
lemma Initial.regions (h : s.Initial) : Regions s := by
  refine ⟨fun {p _} hp => ?_, fun {c} hc => ?_⟩
  · rw [h.tux] at hp
    exact absurd hp (Nat.not_lt_zero p)
  · rw [h.contexts] at hc
    cases hc

/-- There are no more processes than regions of 4 GiB, so the holders can be counted in 64 bits. -/
lemma Regions.holders_lt (h : Regions s) : s.tux.holders.card < 2 ^ 64 := by
  have hnproc : s.tux.nproc ≤ 2 ^ 32 := by
    have hcard := Finset.card_le_card_of_injOn (s := Finset.range s.tux.nproc) (t := Finset.range (2 ^ 32))
      (fun p => (s.info p).base.toNat / 2 ^ 32) (fun p _ => ?_) fun p hp q hq heq => ?_
    · rw [Finset.card_range, Finset.card_range] at hcard
      exact hcard
    · exact Finset.mem_coe.mpr (Finset.mem_range.mpr (Nat.div_lt_of_lt_mul (s.info p).base.isLt))
    · obtain ⟨m, hm⟩ := (s.info p).base_aligned
      obtain ⟨n, hn⟩ := (s.info q).base_aligned
      refine h.apart (Finset.mem_range.mp hp) (Finset.mem_range.mp hq) (BitVec.eq_of_toNat_eq ?_)
      have heq : (s.info p).base.toNat / 2 ^ 32 = (s.info q).base.toNat / 2 ^ 32 := heq
      rw [hm, hn] at heq ⊢
      omega
  have hsum : (∑ p ∈ Finset.range s.tux.nproc, (s.tux.procs p).refs).card ≤ s.tux.nproc * 129 := by
    rw [Multiset.card_sum]
    refine (Finset.sum_le_card_nsmul _ _ 129 fun p _ => refs_card _).trans ?_
    rw [Finset.card_range, smul_eq_mul]
  rw [Tux.holders, Multiset.card_add]
  have hstd : s.tux.std.card = 3 := rfl
  omega

/-- A step is a call of the `Tux`, or is none of its business. -/
lemma Regions.tux_step {a : Act} (h : Regions s) (hst : Step E s a s') :
    s'.tux = s.tux ∨ ∃ c, s.tux.step c s'.tux := by
  have hcard := (h.step hst).holders_lt
  have hcall : ∀ {n : Nat} {c : Context A.machine} {w : World L A.machine} {live : Bool}, s.contexts[n]? = some c →
      DidCall c.proc (s.world c) w → s' = s.after n c w live → ∃ k, s.tux.step k s'.tux := by
    rintro n c w live hn hdid rfl
    obtain ⟨k, hk, hexec⟩ := hdid s.tux rfl rfl
    refine ⟨k, fun p hp => ?_, hexec.symm, hcard⟩
    rw [hk] at hp
    cases hp
    exact h.context (List.mem_of_getElem? hn)
  cases hst with
  | refused => exact .inl rfl
  | procNew =>
    refine .inr ⟨.procNew, fun p hp => ?_, rfl, hcard⟩
    cases hp
  | guest => exact .inl rfl
  | @returns _ c w l hn _ hrun =>
    have hdid := call_did (E := E) (s := s) c
    rw [hrun] at hdid
    exact .inr (hcall hn hdid rfl)
  | @leaves _ c w l e code hn _ hrun _ =>
    have hdid := call_did (E := E) (s := s) c
    rw [hrun] at hdid
    exact .inr (hcall hn hdid rfl)

/-- The files of a run are a run of the files. -/
lemma Regions.tux_run {l : List Act} (h : Regions s) (hr : Run (Step E) s l s') :
    ∃ cs, Run Tux.step s.tux cs s'.tux := by
  induction hr with
  | nil => exact ⟨[], .nil _⟩
  | @snoc s1 s2 l a hr hst ih =>
    obtain ⟨cs, hcs⟩ := ih
    have h1 : Regions s1 := hr.invariant (fun h hst => h.step hst) h
    rcases h1.tux_step hst with heq | ⟨c, hc⟩
    · exact ⟨cs, heq ▸ hcs⟩
    · exact ⟨cs ++ [c], .snoc hcs hc⟩

/-- Every run of the system is a run of its `Tux`: what the system calls of all processes do to the file objects,
in whatever order, is what calls of the `Tux` do. So what a process has in its table is an object that counts all
its holders, in all processes, and its host file is open. -/
theorem files_refine {l : List Act} (h0 : s.Initial) (hr : Run (Step E) s l s') :
    (∃ cs, Run Tux.step lfiTuxNew cs s'.tux) ∧
    ∀ p < s'.tux.nproc, ∀ fd f, (s'.tux.procs p).fdtable.files fd = some f →
      ∃ o, s'.tux.files.objs f = some o ∧ o.refs.toNat = s'.tux.holders.count f ∧
        s'.tux.files.isOpen o.file = true := by
  obtain ⟨cs, hcs⟩ := h0.regions.tux_run hr
  rw [h0.tux] at hcs
  have ok := Tux.Ok.init.run hcs
  refine ⟨⟨cs, hcs⟩, fun p hp fd f hf => ?_⟩
  have hmem : f ∈ s'.tux.holders := by
    rw [Tux.holders_eq hp, ProcFiles.refs, add_assoc]
    exact Multiset.mem_add.mpr (.inl (FDTable.mem_refs hf))
  obtain ⟨o, ho, hrefs, -⟩ := ok.owns.held f hmem
  exact ⟨o, ho, hrefs, (ok.owns.handle ho).1⟩

/-- The second process closed its standard output, and that of the first is open. -/
theorem files_refine_closed : (closed.tux.procs 1).fdtable.files 1 = none ∧
    ∃ o, closed.tux.files.objs 1 = some o ∧ o.refs.toNat = closed.tux.holders.count 1 ∧
      closed.tux.files.isOpen o.file = true := by
  refine ⟨by decide +kernel, ?_⟩
  exact (files_refine initial_start ((runs_oneProc.append runs_closed).map (f := id) fun h => h.2)).2 0
    (by decide +kernel) 1 1 (by decide +kernel)

end System
end Libtux
