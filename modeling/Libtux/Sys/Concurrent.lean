import Libtux.Lib.Locks
import Libtux.Pal.Local
import Libtux.Sys.Window

/-!
# Threads that map memory

The threads of a process share its address space and its break, each under a lock (C `lk_as` and `lk_brk`). The
mapping calls take `lk_as`; `sys_brk` takes `lk_brk`, and under it `lk_as` to grow the heap. In `Locked` are the
functions of `src/pal/vm.c` again, with one step for each access that they make. Between the steps the other
threads make theirs, and all the while guest code and other system calls store to memory.

Each of these functions makes the accesses of the one in `Libtux.Pal.Vm` (`Steps.Splits`) and does not look at
memory (`Steps.Blind`). So the calls are as those of one thread after another (`mem_calls_atomic`), they do not
wait for each other forever (`mem_calls_end`), and even amid a call nothing changed outside of the window
(`mem_calls_window`).
-/

namespace Libtux
open Lib Exec

namespace Locked
open Steps

section
variable {L : LibMMap} (H : HostVm)

/-- A computation on an address space, an access at a time. -/
abbrev VmSteps (L : LibMMap) := Steps Stop (LFIAddrSpace L)

/-- The placement and the records. -/
def records : VmSteps L (LFIAddrSpaceInfo × L.Table) := access (gets fun as => (as.info, as.mm) : Vm L _)

/-- The records are written. -/
def setRecords (mm : L.Table) : VmSteps L Unit := access (modify fun as => { as with mm } : Vm L Unit)

/-- `asmap`. -/
def asmap (start size : Word) (prot : CInt) (hf : Option HostFile) : VmSteps L Int := do
  let n ← access (gets (·.nmmap) : Vm L Nat)
  let ok ← access (hostMmap H start size prot hf)
  if ok then pure 0 else pure (-(H.errno n))

/-- `cbunmap`. -/
def cbunmap (start len : Word) : VmSteps L Unit := do
  let ok ← access (hostMmap H start len LFI_PROT_NONE none)
  Steps.check (ok = true) (.assertion .cbunmap)

/-- The pieces are made inaccessible, one after the other. -/
def cbunmaps : List (Word × Word) → VmSteps L Unit
  | [] => pure ()
  | (start, len) :: ps => do
    cbunmap H start len
    cbunmaps ps

/-- The end of the mapping calls: map what is recorded, or drop the record. -/
def mapRecorded (addr size : Word) (prot : CInt) (hf : Option HostFile) : VmSteps L Word := do
  let r ← asmap H addr size prot hf
  if r < 0 then
    access (mmUnmap addr size)
    pure mapFailed
  else pure addr

/-- `lfi_as_mapany`. -/
def lfiAsMapany (size : Word) (prot : CInt) (hf : Option HostFile) : VmSteps L Word := do
  let as ← records
  match L.mapany as.2 size with
  | none => pure 0
  | some (mm, addr) =>
    setRecords mm
    mapRecorded H addr size prot hf

/-- `lfi_as_mapat`. -/
def lfiAsMapat (addr size : Word) (prot : CInt) (hf : Option HostFile) : VmSteps L Word := do
  let as ← records
  Steps.check (addr ≥ as.1.minaddr ∧ addr + size ≤ as.1.maxaddr) (.assertion .mapatRange)
  match L.mapat as.2 addr size with
  | none => pure mapFailed
  | some (mm, pieces) =>
    setRecords mm
    cbunmaps H pieces
    mapRecorded H addr size prot hf

/-- `lfi_as_mprotect`. -/
def lfiAsMprotect (addr size : Word) (prot : CInt) : VmSteps L Int := do
  let as ← records
  Steps.check (addr ≥ as.1.minaddr ∧ addr + size ≤ as.1.maxaddr) (.assertion .mprotectRange)
  access (hostMprotect H addr size prot)

/-- `lfi_as_munmap`. -/
def lfiAsMunmap (addr size : Word) : VmSteps L Int := do
  let as ← records
  if addr ≥ as.1.minaddr ∧ addr + size < as.1.maxaddr then
    match L.unmap as.2 addr size with
    | none => pure (-1)
    | some (mm, pieces) =>
      setRecords mm
      cbunmaps H pieces
      pure 0
  else pure (-1)

/-! ## The same accesses -/

variable {H}

/-- One mapping. -/
lemma asmap_splits (addr size : Word) (prot : CInt) (hf : Option HostFile) :
    Splits (asmap H addr size prot hf : VmSteps L Int) (Libtux.asmap H addr size prot hf) :=
  Splits.bind (splits_access _) fun _ => Splits.bind (splits_access _) fun _ =>
    Splits.ite (splits_pure _) (splits_pure _)

/-- The pieces, by induction. -/
lemma cbunmaps_splits (ps : List (Word × Word)) :
    Splits (cbunmaps H ps : VmSteps L Unit) (Libtux.cbunmaps H ps) := by
  induction ps with
  | nil => exact splits_pure ()
  | cons p ps ih => exact Splits.bind (Splits.bind (splits_access _) fun _ => splits_check _ _) fun _ => ih

/-- The end of the mapping calls. -/
lemma mapRecorded_splits (addr size : Word) (prot : CInt) (hf : Option HostFile) :
    Splits (mapRecorded H addr size prot hf) (Libtux.asmap H addr size prot hf >>= fun r =>
      if r < 0 then mmUnmap addr size >>= fun _ => pure mapFailed else pure addr : Vm L Word) :=
  Splits.bind (asmap_splits _ _ _ _) fun _ =>
    Splits.ite (Splits.bind (splits_access _) fun _ => splits_pure _) (splits_pure _)

/-- `lfi_as_mapany`. -/
lemma lfiAsMapany_splits (size : Word) (prot : CInt) (hf : Option HostFile) :
    Splits (lfiAsMapany H size prot hf : VmSteps L Word) (Libtux.lfiAsMapany H size prot hf) := by
  refine Splits.read_bind fun as => ?_
  dsimp only
  cases L.mapany as.mm size with
  | none => exact splits_pure _
  | some r => exact Splits.bind (splits_access _) fun _ => mapRecorded_splits _ _ _ _

/-- `lfi_as_mapat`. -/
lemma lfiAsMapat_splits (addr size : Word) (prot : CInt) (hf : Option HostFile) :
    Splits (lfiAsMapat H addr size prot hf : VmSteps L Word) (Libtux.lfiAsMapat H addr size prot hf) := by
  refine Splits.read_bind fun as => Splits.tell_bind (Splits.bind (splits_check _ _) fun _ => ?_)
  dsimp only
  cases L.mapat as.mm addr size with
  | none => exact splits_pure _
  | some r =>
    exact Splits.bind (splits_access _) fun _ => Splits.bind (cbunmaps_splits _) fun _ =>
      mapRecorded_splits _ _ _ _

/-- `lfi_as_mprotect`. -/
lemma lfiAsMprotect_splits (addr size : Word) (prot : CInt) :
    Splits (lfiAsMprotect H addr size prot : VmSteps L Int) (Libtux.lfiAsMprotect H addr size prot) :=
  Splits.read_bind fun _ => Splits.bind (splits_check _ _) fun _ => splits_access _

/-- `lfi_as_munmap`. -/
lemma lfiAsMunmap_splits (addr size : Word) :
    Splits (lfiAsMunmap H addr size : VmSteps L Int) (Libtux.lfiAsMunmap H addr size) := by
  refine Splits.read_bind fun as => Splits.ite (Splits.tell_bind ?_) (splits_pure _)
  dsimp only
  cases L.unmap as.mm addr size with
  | none => exact splits_pure _
  | some r =>
    exact Splits.bind (splits_access _) fun _ => Splits.bind (cbunmaps_splits _) fun _ => splits_pure _

/-! ## Memory is not looked at -/

variable {D : Word → Prop}

/-- The records are read, -/
lemma records_blind : (records : VmSteps L _).Blind (LFIAddrSpace.Same D) :=
  blind_access (agrees_gets fun h => by rw [h.info, h.mm])

/-- or written. -/
lemma setRecords_blind (mm : L.Table) : (setRecords mm : VmSteps L Unit).Blind (LFIAddrSpace.Same D) :=
  blind_access (setMm_agrees mm)

/-- The pieces, by induction. -/
lemma cbunmaps_blind (ps : List (Word × Word)) :
    (cbunmaps H ps : VmSteps L Unit).Blind (LFIAddrSpace.Same D) := by
  induction ps with
  | nil => trivial
  | cons p ps ih =>
    exact Blind.bind (Blind.bind (blind_access (hostMmap_agrees _ _ _ _)) fun _ => blind_check _ _) fun _ => ih

/-- The end of the mapping calls. -/
lemma mapRecorded_blind (addr size : Word) (prot : CInt) (hf : Option HostFile) :
    (mapRecorded H addr size prot hf : VmSteps L Word).Blind (LFIAddrSpace.Same D) := by
  refine Blind.bind (Blind.bind (blind_access (agrees_gets fun h => h.nmmap)) fun _ =>
    Blind.bind (blind_access (hostMmap_agrees _ _ _ _)) fun _ => Blind.ite trivial trivial) fun _ => ?_
  exact Blind.ite (Blind.bind (blind_access (mmUnmap_agrees _ _)) fun _ => trivial) trivial

/-- `lfi_as_mapany` does not look at memory, -/
lemma lfiAsMapany_blind (size : Word) (prot : CInt) (hf : Option HostFile) :
    (lfiAsMapany H size prot hf : VmSteps L Word).Blind (LFIAddrSpace.Same D) := by
  refine Blind.bind records_blind fun as => ?_
  cases L.mapany as.2 size with
  | none => trivial
  | some r => exact Blind.bind (setRecords_blind _) fun _ => mapRecorded_blind _ _ _ _

/-- nor does `lfi_as_mapat`, -/
lemma lfiAsMapat_blind (addr size : Word) (prot : CInt) (hf : Option HostFile) :
    (lfiAsMapat H addr size prot hf : VmSteps L Word).Blind (LFIAddrSpace.Same D) := by
  refine Blind.bind records_blind fun as => Blind.bind (blind_check _ _) fun _ => ?_
  cases L.mapat as.2 addr size with
  | none => trivial
  | some r =>
    exact Blind.bind (setRecords_blind _) fun _ => Blind.bind (cbunmaps_blind _) fun _ =>
      mapRecorded_blind _ _ _ _

/-- `lfi_as_mprotect` -/
lemma lfiAsMprotect_blind (addr size : Word) (prot : CInt) :
    (lfiAsMprotect H addr size prot : VmSteps L Int).Blind (LFIAddrSpace.Same D) :=
  Blind.bind records_blind fun _ => Blind.bind (blind_check _ _) fun _ =>
    blind_access (hostMprotect_agrees _ _ _)

/-- or `lfi_as_munmap`. -/
lemma lfiAsMunmap_blind (addr size : Word) :
    (lfiAsMunmap H addr size : VmSteps L Int).Blind (LFIAddrSpace.Same D) := by
  refine Blind.bind records_blind fun as => Blind.ite ?_ trivial
  cases L.unmap as.2 addr size with
  | none => trivial
  | some r => exact Blind.bind (setRecords_blind _) fun _ => Blind.bind (cbunmaps_blind _) fun _ => trivial

/-! ## In the window, access by access -/

variable {i : LFIAddrSpaceInfo} {ok : L.Table → Prop} {as0 : LFIAddrSpace L}

/-- An access in the window. -/
lemma outOf_keeps {α : Type} {x : Vm L α} (hx : Respects (OutOf i ok) x) :
    (access x).Keeps (Inward i ok as0) := by
  refine keeps_access fun s hs => ?_
  obtain ⟨hinfo, hrecs, hmem, hprot⟩ := hx s hs.info hs.recs
  exact ⟨hinfo, hrecs, fun x hx => (hmem x hx).trans (hs.mem x hx), fun x hx => (hprot x hx).trans (hs.prot x hx)⟩

/-- Records of the window are written, -/
lemma setRecords_keeps {mm : L.Table} (hmm : ok mm) : (setRecords mm).Keeps (Inward i ok as0) :=
  keeps_access fun _ hs => by
    rw [modify_run]
    exact ⟨hs.info, hmm, hs.mem, hs.prot⟩

variable (hP : i.Paged H.pagesize)
include hP

/-- its pieces are made inaccessible, -/
lemma cbunmaps_keeps {ps : List (Word × Word)} (hps : ∀ p ∈ ps, i.Spans p.1 p.2) :
    (cbunmaps H ps : VmSteps L Unit).Keeps (Inward i ok as0) := by
  induction ps with
  | nil => trivial
  | cons p ps ih =>
    have hp : i.Spans p.1 p.2 := hps p (List.mem_cons_self ..)
    refine Keeps.bind (Keeps.bind (outOf_keeps (hostMmap_outOf hP hp _ _)) fun _ => ?_) fun _ =>
      ih fun q hq => hps q (List.mem_cons_of_mem _ hq)
    exact Keeps.ite (fun _ => trivial) fun _ => trivial

variable (hL : L.Confines i ok)
include hL

/-- and its ranges are mapped. -/
lemma mapRecorded_keeps {addr size : Word} (hs : i.Spans addr size) (prot : CInt) (hf : Option HostFile) :
    (mapRecorded H addr size prot hf : VmSteps L Word).Keeps (Inward i ok as0) := by
  refine Keeps.bind (Keeps.bind (outOf_keeps (respects_gets outOf_composes _)) fun _ =>
    Keeps.bind (outOf_keeps (hostMmap_outOf hP hs _ _)) fun _ =>
      Keeps.ite (fun _ => trivial) fun _ => trivial) fun _ => Keeps.ite (fun _ => ?_) fun _ => trivial
  exact Keeps.bind (outOf_keeps (mmUnmap_outOf hL _ _)) fun _ => trivial

/-- `lfi_as_mapany` stays in the window, -/
lemma lfiAsMapany_keeps (size : Word) (prot : CInt) (hf : Option HostFile) :
    (lfiAsMapany H size prot hf : VmSteps L Word).Keeps (Inward i ok as0) := by
  refine Keeps.read_bind fun as hs => ?_
  dsimp only
  cases hm : L.mapany as.mm size with
  | none => trivial
  | some r =>
    obtain ⟨hmm, hspans⟩ := hL.mapany hs.recs hm
    exact Keeps.bind (setRecords_keeps hmm) fun _ => mapRecorded_keeps hP hL hspans _ _

/-- A fixed mapping of a range that does not wrap. -/
lemma lfiAsMapat_keeps {addr size : Word} (hnw : addr.toNat + size.toNat < 2 ^ 64) (prot : CInt)
    (hf : Option HostFile) : (lfiAsMapat H addr size prot hf : VmSteps L Word).Keeps (Inward i ok as0) := by
  refine Keeps.read_bind fun as hs => Keeps.check_bind fun hg => ?_
  have hspans : i.Spans addr size := hs.info ▸ InGuard.spans hg hnw
  dsimp only
  cases hm : L.mapat as.mm addr size with
  | none => trivial
  | some r =>
    obtain ⟨mm, ps⟩ := r
    have hps : ∀ p ∈ ps, i.Spans p.1 p.2 := by
      intro p hp
      obtain ⟨hlo, hhi⟩ := L.mapat_piece hm (b := p.1) (n := p.2) hp
      exact ⟨hspans.1.trans hlo, hhi.trans hspans.2⟩
    exact Keeps.bind (setRecords_keeps (hL.mapat hs.recs hm hspans)) fun _ =>
      Keeps.bind (cbunmaps_keeps hP hps) fun _ => mapRecorded_keeps hP hL hspans _ _

omit hL in
/-- A change of the protection of a range that does not wrap. -/
lemma lfiAsMprotect_keeps {addr size : Word} (hnw : addr.toNat + size.toNat < 2 ^ 64) (prot : CInt) :
    (lfiAsMprotect H addr size prot : VmSteps L Int).Keeps (Inward i ok as0) := by
  refine Keeps.read_bind fun as hs => Keeps.check_bind fun hg => keeps_access fun s hs' => ?_
  have hspans : i.Spans addr size := hs.info ▸ InGuard.spans hg hnw
  have hout : ∀ x, ¬ i.Within x → ¬ covers H.pagesize addr size x := fun x hx hc => hx (hP.within hspans hc)
  rw [hostMprotect, mk_run]
  refine ⟨hs'.info, hs'.recs, hs'.mem, fun x hx => ?_⟩
  exact (if_neg fun hc => hout x hx hc.1).trans (hs'.prot x hx)

/-- and so does `lfi_as_munmap`. -/
lemma lfiAsMunmap_keeps (addr size : Word) :
    (lfiAsMunmap H addr size : VmSteps L Int).Keeps (Inward i ok as0) := by
  refine Keeps.read_bind fun as hs => Keeps.ite (fun _ => ?_) fun _ => trivial
  dsimp only
  cases hm : L.unmap as.mm addr size with
  | none => trivial
  | some r =>
    obtain ⟨hmm, hps⟩ := hL.unmap hs.recs hm
    exact Keeps.bind (setRecords_keeps hmm) fun _ => Keeps.bind (cbunmaps_keeps hP hps) fun _ => trivial

end
end Locked

/-! ## Calls -/

/-- What a thread calls to change the memory of its process, from where it takes its first lock. The file of a
mapping is looked up before. -/
inductive LockedCall where
  | brk (addr : Word)
  | mapat (start size : Word) (prot : CInt) (hf : Option HostFile)
  | mapany (size : Word) (prot : CInt) (hf : Option HostFile)
  | mprotect (addrup length : Word) (prot : CInt)
  | munmap (addrup length : Word)

namespace LockedCall

section
variable {L : LibMMap} {M : Machine} (H : HostVm) (opts : TuxOptions)

/-- The call in one piece. -/
def sys : LockedCall → Sys L M Word
  | brk addr => sysBrk H opts addr
  | mapat start size prot hf => do
    let addr ← onSpace (lfiAsMapat H start size prot hf)
    if addr = mapFailed then pure (negErr TUX_EINVAL) else pure start
  | mapany size prot hf => do
    let addr ← onSpace (lfiAsMapany H size prot hf)
    if addr = mapFailed then pure (negErr TUX_EINVAL) else pure addr
  | mprotect addrup length prot => sysMprotect H addrup length prot
  | munmap addrup length => sysMunmap H addrup length

/-- What a call in one piece does to the break and the address space of `w`. -/
def spec (w : World L M) (c : LockedCall) (s : Word × LFIAddrSpace L) :
    Except Stop Word × Word × LFIAddrSpace L :=
  let r := (c.sys H opts).run ((w.setAs s.2).setBrk s.1)
  (r.val, r.st.p.brksize, r.st.p.as)

/-- The call of `lfi_as_mapat` in `sys_brk`. -/
def brkMapSteps (p : TuxThread L M) (newsize : Word) : Locked.VmSteps L Word :=
  let prot := LFI_PROT_READ ||| LFI_PROT_WRITE
  if p.brksize = 0 then Locked.lfiAsMapat H p.brkbase newsize prot none
  else Locked.lfiAsMapat H (ceilp (p.brkbase + p.brksize) opts.pagesize) (newsize - p.brksize) prot none

/-- `sys_brk` with `lk_brk`. A branch that returns at once leaves the break what it was. -/
def brkPlan (p : TuxThread L M) (addr : Word) : Plan Stop Word (LFIAddrSpace L) Word :=
  if brkSize p addr < TUX_BRKMAXSIZE then
    if brkSize p addr = p.brksize then .finish p.brksize (brkTo p addr)
    else if brkTo p addr ≥ p.brkbase + p.brksize then
      .nested (brkMapSteps H opts p (brkSize p addr)) fun map =>
        if map = mapFailed then (p.brksize, -1) else (brkSize p addr, p.brkbase + brkSize p addr)
    else .finish (brkSize p addr) (p.brkbase + brkSize p addr)
  else .stop (.assertion .brkNewsize)

/-- The call under its locks. -/
def steps (p : TuxThread L M) : LockedCall → Critical Stop Word (LFIAddrSpace L) Word
  | brk addr => .outer fun brksize => brkPlan H opts { p with brksize } addr
  | mapat start size prot hf => .inner do
    let addr ← Locked.lfiAsMapat H start size prot hf
    pure (if addr = mapFailed then negErr TUX_EINVAL else start)
  | mapany size prot hf => .inner do
    let addr ← Locked.lfiAsMapany H size prot hf
    pure (if addr = mapFailed then negErr TUX_EINVAL else addr)
  | mprotect addrup length prot => .inner do
    let r ← Locked.lfiAsMprotect H (procaddr addrup) length prot
    pure (BitVec.ofInt 64 r)
  | munmap addrup length => .inner do
    let r ← Locked.lfiAsMunmap H (procaddr addrup) length
    pure (BitVec.ofInt 64 r)

variable {H opts}

/-- The file of a mapping is looked up without a change. -/
lemma mapfile_run (fd : CInt) (w : World L M) : ∃ v, (mapfile fd).run w = ⟨.ok v, w, []⟩ := by
  rw [mapfile, bind_run, get_run, andThen_ok_nil]
  split
  · exact ⟨_, pure_run _ w⟩
  · split
    · exact ⟨_, pure_run _ w⟩
    · split
      · exact ⟨_, pure_run _ w⟩
      · exact ⟨_, pure_run _ w⟩

/-- `sys_mmap` returns at once, or it makes one of these calls. -/
lemma sysMmap_sys (addrup length : Word) (prot flags fd : CInt) (w : World L M) :
    (∃ v, (sysMmap H opts addrup length prot flags fd).run w = ⟨.ok v, w, []⟩) ∨
      ∃ c : LockedCall, (sysMmap H opts addrup length prot flags fd).run w = (c.sys H opts).run w := by
  obtain ⟨r, hr⟩ := mapfile_run fd w
  unfold sysMmap
  dsimp only
  split
  · exact .inl ⟨_, pure_run _ w⟩
  · split
    · exact .inl ⟨_, pure_run _ w⟩
    · split
      · rw [procmapat, bind_run, hr, andThen_ok_nil]
        cases r with
        | error e => exact .inl ⟨e, pure_run e w⟩
        | ok hf => exact .inr ⟨.mapat _ _ prot hf, rfl⟩
      · rw [procmapany, bind_run, hr, andThen_ok_nil]
        cases r with
        | error e => exact .inl ⟨e, pure_run e w⟩
        | ok hf => exact .inr ⟨.mapany _ prot hf, rfl⟩

/-! ### Each call is as its steps -/

/-- How the heap grows, access by access. -/
lemma brkMapSteps_splits (p : TuxThread L M) (newsize : Word) :
    Steps.Splits (brkMapSteps H opts p newsize) (brkMap H opts p newsize) :=
  Steps.Splits.ite (Locked.lfiAsMapat_splits _ _ _ _) (Locked.lfiAsMapat_splits _ _ _ _)

/-- It maps from the page behind the heap. -/
lemma brkMapSteps_eq (p : TuxThread L M) (newsize : Word) : brkMapSteps H opts p newsize =
    Locked.lfiAsMapat H (brkNext opts p) (newsize - p.brksize) (LFI_PROT_READ ||| LFI_PROT_WRITE) none := by
  unfold brkMapSteps brkNext
  split
  · rename_i h
    have hz : newsize - 0 = newsize := by bv_omega
    rw [h, hz]
  · rfl

/-- A call that takes `lk_as` only. -/
lemma inner_spec {α : Type} {x : Vm L α} {p : Locked.VmSteps L α} {f : α → Sys L M Word} {g : α → Word}
    (hx : Steps.Splits p x) (hf : ∀ a, f a = pure (g a)) (w : World L M) (s : Word × LFIAddrSpace L) :
    (((onSpace x >>= f).run ((w.setAs s.2).setBrk s.1)).val,
      ((onSpace x >>= f).run ((w.setAs s.2).setBrk s.1)).st.p.brksize,
        ((onSpace x >>= f).run ((w.setAs s.2).setBrk s.1)).st.p.as) =
      (Critical.inner (p >>= fun a => pure (g a)) : Critical Stop Word (LFIAddrSpace L) Word).exec s := by
  show _ = (((p >>= fun a => pure (g a)).exec s.2).1, s.1, ((p >>= fun a => pure (g a)).exec s.2).2)
  rw [Steps.exec_bind, hx s.2, bind_run, onSpace_run, World.setBrk_as, World.setAs_as]
  generalize x.run s.2 = r
  obtain ⟨v, t, l⟩ := r
  cases v with
  | error e =>
    rw [andThen_error]
    rfl
  | ok a =>
    rw [andThen_ok, hf, pure_run]
    rfl

/-- What `sys_brk` does with `lk_brk` is what it does in one piece. -/
lemma brkPlan_exec (addr : Word) (w : World L M) :
    (brkPlan H opts w.p addr).exec (w.p.brksize, w.p.as) =
      (((sysBrk H opts addr).run w).val, ((sysBrk H opts addr).run w).st.p.brksize,
        ((sysBrk H opts addr).run w).st.p.as) := by
  have hsteps : Steps.Splits (brkMapSteps H opts w.p (brkSize w.p addr)) _ := brkMapSteps_splits _ _
  have hsplits := hsteps w.p.as
  have hway := sysBrk_inv H opts addr w
  generalize (sysBrk H opts addr).run w = r at hway
  cases hway with
  | stop hsize =>
    rw [brkPlan, if_neg hsize]
    rfl
  | same hsize hsame =>
    rw [brkPlan, if_pos hsize, if_pos hsame]
    rfl
  | shrink hsize hne hlt =>
    rw [brkPlan, if_pos hsize, if_neg hne, if_neg hlt]
    rfl
  | abort hsize hne hge hr =>
    rw [hr] at hsplits
    rw [brkPlan, if_pos hsize, if_neg hne, if_pos hge, Plan.exec_nested_error hsplits]
    rfl
  | fail hsize hne hge hr =>
    rw [hr] at hsplits
    rw [brkPlan, if_pos hsize, if_neg hne, if_pos hge, Plan.exec_nested_ok hsplits, if_pos rfl]
    rfl
  | grow hsize hne hge hmap hr =>
    rw [hr] at hsplits
    rw [brkPlan, if_pos hsize, if_neg hne, if_pos hge, Plan.exec_nested_ok hsplits, if_neg hmap]
    rfl

/-- The plan does not depend on the address space. -/
lemma brkPlan_as (p : TuxThread L M) (addr : Word) (as : LFIAddrSpace L) :
    brkPlan H opts { p with as } addr = brkPlan H opts p addr := by
  have hsize : brkSize { p with as } addr = brkSize p addr := rfl
  have hto : brkTo { p with as } addr = brkTo p addr := rfl
  have hmap : brkMapSteps H opts { p with as } = brkMapSteps H opts p := rfl
  unfold brkPlan
  rw [hsize, hto, hmap]

/-- The ways through the plan. -/
lemma brkPlan_cases {P : Plan Stop Word (LFIAddrSpace L) Word → Prop} (p : TuxThread L M) (addr : Word)
    (hstop : P (.stop (.assertion .brkNewsize))) (hsame : P (.finish p.brksize (brkTo p addr)))
    (hgrow : brkSize p addr < TUX_BRKMAXSIZE → brkTo p addr ≥ p.brkbase + p.brksize →
      P (.nested (brkMapSteps H opts p (brkSize p addr)) fun map =>
        if map = mapFailed then (p.brksize, -1) else (brkSize p addr, p.brkbase + brkSize p addr)))
    (hmove : brkSize p addr < TUX_BRKMAXSIZE → P (.finish (brkSize p addr) (p.brkbase + brkSize p addr))) :
    P (brkPlan H opts p addr) := by
  unfold brkPlan
  split
  · rename_i hsize
    split
    · exact hsame
    · split
      · rename_i hge
        exact hgrow hsize hge
      · exact hmove hsize
  · exact hstop

-- Not to be evaluated: the limit of the heap is a large number.
attribute [irreducible] brkPlan

/-- A call in one piece does what its steps do when nothing comes between them. -/
lemma spec_eq (w : World L M) (c : LockedCall) (s : Word × LFIAddrSpace L) :
    c.spec H opts w s = (c.steps H opts w.p).exec s := by
  cases c with
  | brk addr =>
    obtain ⟨b, as⟩ := s
    have hp : ({ { w.p with brksize := b } with as } : TuxThread L M) = ((w.setAs as).setBrk b).p := rfl
    show _ = (brkPlan H opts { w.p with brksize := b } addr).exec (b, as)
    rw [← brkPlan_as _ _ as, hp]
    refine Eq.trans ?_ (brkPlan_exec addr ((w.setAs as).setBrk b)).symm
    simp only [spec, sys]
  | mapat start size prot hf =>
    refine inner_spec (Locked.lfiAsMapat_splits _ _ _ _) (fun a => ?_) w s
    split <;> rfl
  | mapany size prot hf =>
    refine inner_spec (Locked.lfiAsMapany_splits _ _ _) (fun a => ?_) w s
    split <;> rfl
  | mprotect addrup length prot => exact inner_spec (Locked.lfiAsMprotect_splits _ _ _) (fun _ => rfl) w s
  | munmap addrup length => exact inner_spec (Locked.lfiAsMunmap_splits _ _) (fun _ => rfl) w s

/-- What a `sys_brk` does under its lock does not look at memory, -/
lemma brkPlan_blind {D : Word → Prop} (p : TuxThread L M) (addr : Word) :
    (brkPlan H opts p addr).Blind (LFIAddrSpace.Same D) := by
  refine brkPlan_cases (P := fun q => q.Blind (LFIAddrSpace.Same D)) p addr trivial trivial (fun _ _ => ?_)
    fun _ => trivial
  rw [brkMapSteps_eq]
  exact Locked.lfiAsMapat_blind _ _ _ _

/-- and neither does any of the calls. -/
lemma steps_blind {D : Word → Prop} (p : TuxThread L M) (c : LockedCall) :
    (c.steps H opts p).Blind (LFIAddrSpace.Same D) := by
  cases c with
  | brk addr => exact fun _ => brkPlan_blind _ addr
  | mapat start size prot hf => exact Steps.Blind.bind (Locked.lfiAsMapat_blind _ _ _ _) fun _ => trivial
  | mapany size prot hf => exact Steps.Blind.bind (Locked.lfiAsMapany_blind _ _ _) fun _ => trivial
  | mprotect addrup length prot => exact Steps.Blind.bind (Locked.lfiAsMprotect_blind _ _ _) fun _ => trivial
  | munmap addrup length => exact Steps.Blind.bind (Locked.lfiAsMunmap_blind _ _) fun _ => trivial

/-! ### The window -/

/-- The ranges of the fixed mapping calls do not wrap. -/
def NoWrap : LockedCall → Prop
  | mapat start size _ _ => start.toNat + size.toNat < 2 ^ 64
  | mprotect addrup length _ => addrup.toNat + length.toNat < 2 ^ 64
  | _ => True

variable {i : LFIAddrSpaceInfo} {ok : L.Table → Prop} {as0 : LFIAddrSpace L} {p : TuxThread L M}

/-- The growth of a heap that is placed does not wrap. -/
lemma brkPlan_keeps (hP : i.Paged H.pagesize) (hL : L.Confines i ok) (h : Placed opts p) (addr : Word) :
    (brkPlan H opts p addr).Keeps (fun brksize => Placed opts { p with brksize }) (Inward i ok as0) := by
  refine brkPlan_cases
    (P := fun q => q.Keeps (fun brksize => Placed opts { p with brksize }) (Inward i ok as0)) p addr trivial h
    (fun hsize hgrow => ?_) fun hsize => h.move rfl hsize
  have hnw : (brkNext opts p).toNat + (brkSize p addr - p.brksize).toNat < 2 ^ 64 := by
    have hlt : (brkSize p addr).toNat < 2 ^ 29 := hsize
    have hle := (h.grows_iff addr).mp hgrow
    have hnext := h.next.2
    have htop := h.page_top
    rw [BitVec.toNat_sub_of_le hle]
    omega
  refine ⟨?_, fun map => ?_⟩
  · rw [brkMapSteps_eq]
    exact Locked.lfiAsMapat_keeps hP hL hnw _ _
  · dsimp only
    by_cases hmap : map = mapFailed
    · rw [if_pos hmap]
      exact h
    · rw [if_neg hmap]
      exact h.move rfl hsize

/-- Every call leaves the heap in place and stays in the window. -/
lemma steps_keeps (hP : i.Paged H.pagesize) (hL : L.Confines i ok) {c : LockedCall} (hnw : c.NoWrap) :
    (c.steps H opts p).Keeps (fun brksize => Placed opts { p with brksize }) (Inward i ok as0) := by
  cases c with
  | brk addr => exact fun _ hb => brkPlan_keeps hP hL hb addr
  | mapat start size prot hf => exact Steps.Keeps.bind (Locked.lfiAsMapat_keeps hP hL hnw _ _) fun _ => trivial
  | mapany size prot hf => exact Steps.Keeps.bind (Locked.lfiAsMapany_keeps hP hL _ _ _) fun _ => trivial
  | mprotect addrup length prot =>
    exact Steps.Keeps.bind (Locked.lfiAsMprotect_keeps hP hnw _) fun _ => trivial
  | munmap addrup length => exact Steps.Keeps.bind (Locked.lfiAsMunmap_keeps hP hL _ _) fun _ => trivial

end
end LockedCall

/-! ## Any number of threads -/

section
variable {L : LibMMap} {M : Machine} {H : HostVm} {opts : TuxOptions} {T : Type} [DecidableEq T]

/-- Others may store to the memory that is not in `D`. -/
lemma LFIAddrSpace.Same.equivalence (D : Word → Prop) : Equivalence (LFIAddrSpace.Same (L := L) D) where
  refl := .refl
  symm h := ⟨by rw [h.eq], fun x hx => (h.mem x hx).symm⟩
  trans h h' := ⟨by rw [h'.eq, h.eq], fun x hx => (h'.mem x hx).trans (h.mem x hx)⟩

/-- The threads of the process of `w`, which make these calls while others store to memory outside of `D`. -/
abbrev MemStep (H : HostVm) (opts : TuxOptions) (w : World L M) (D : Word → Prop) :=
  Lib.Step (T := T) (LockedCall.steps H opts w.p) (LFIAddrSpace.Same D)

/-- The start of the threads of the process of `w`. -/
abbrev World.threads (w : World L M) : Conf T Stop Word (LFIAddrSpace L) Word := .start w.p.brksize w.p.as

/-- The calls of the threads that map memory are atomic. However their accesses to the address space and the
break interleave, with each other and with stores to memory, what the threads see of their calls, in the order in
which they see it, they see when the calls are made in one piece, one after another. Where no thread has a lock,
the break and the address space are the same, but for the memory that was stored to. -/
theorem mem_calls_atomic {D : Word → Prop} {w : World L M} {l : List (Option (Label T LockedCall Stop Word))}
    {s : Conf T Stop Word (LFIAddrSpace L) Word} (hr : Run (MemStep H opts w D) w.threads l s) :
    ∃ l' a, Run (Atomic.Step (LockedCall.spec H opts w)) (.start w.p.brksize w.p.as) l' a ∧
      l'.reduceOption = l.reduceOption ∧ (s.lkOuter = none → a.outer = s.outer) ∧
        (s.lkInner = none → s.inner.Same D a.inner) := by
  have hR := LFIAddrSpace.Same.equivalence (L := L) D
  obtain ⟨l', a, hr', hl, hrel⟩ := Run.atomic (LockedCall.spec_eq w) (LockedCall.steps_blind w.p) hR
    (Rel.start hR.refl _ _) hr
  exact ⟨l', a, hr', hl, hrel.free_outer, hrel.free_inner⟩

/-- The threads do not wait for each other forever. From every state that they reach, all calls that were made can
come to an end, without new ones, unless one fails an assertion. -/
theorem mem_calls_end {D : Word → Prop} {w : World L M} {l : List (Option (Label T LockedCall Stop Word))}
    {s : Conf T Stop Word (LFIAddrSpace L) Word} (hr : Run (MemStep H opts w D) w.threads l s) :
    ∃ l' s', Run (MemStep H opts w D) s l' s' ∧ (∀ o ∈ l', NoCall o) ∧
      ((∀ t, s'.pc t = .idle) ∨ ∃ t o i, s'.pc t = .dead o i) :=
  Run.ends (LockedCall.steps_blind w.p) (LFIAddrSpace.Same.equivalence D) hr

/-- The threads stay in the window of their process at every moment, also amid a call. As long as the ranges of
the fixed calls do not wrap and others store to the window only, memory and protections outside of it are as in the
start, and the heap is in its reservation. -/
theorem mem_calls_window {i : LFIAddrSpaceInfo} {ok : L.Table → Prop} {w : World L M} (hP : i.Paged H.pagesize)
    (hL : L.Confines i ok) (hi : w.p.as.info = i) (hok : ok w.p.as.mm) (hplaced : Placed opts w.p)
    {l : List (Option (Label T LockedCall Stop Word))} {s : Conf T Stop Word (LFIAddrSpace L) Word}
    (hr : Run (MemStep H opts w fun x => ¬ i.Within x) w.threads l s)
    (hnw : ∀ t c, some (.call t c) ∈ l → c.NoWrap) :
    Inward i ok w.p.as s.inner ∧ Placed opts { w.p with brksize := s.outer } := by
  have hkeeps : s.Keeps (fun brksize => Placed opts { w.p with brksize }) (Inward i ok w.p.as) := by
    refine Run.keeps (fun as as' hsame hin => ?_) (Conf.keeps_start hplaced (Inward.refl hi hok))
      (fun t c hc => LockedCall.steps_keeps hP hL (hnw t c hc)) hr
    refine ⟨hsame.info.trans hin.info, ?_, fun x hx => (hsame.mem x hx).trans (hin.mem x hx), fun x hx => ?_⟩
    · rw [hsame.mm]
      exact hin.recs
    · rw [hsame.eq]
      exact hin.prot x hx
  exact ⟨hkeeps.inner, hkeeps.outer⟩

end

/-! ## Two threads -/

/-- A process with an empty heap. -/
def quietWorld : World .ofRanges .x64 := .ofThread (procnewfile (.fresh .plain) 10000)

/-- What asks for the break there. -/
def askBrk (brksize : Word) : Plan Stop Word (LFIAddrSpace .ofRanges) Word :=
  LockedCall.brkPlan .open .plain { quietWorld.p with brksize } 0

/-- One thread asks for the break while another unmaps. -/
def twoCalls : Conf Bool Stop Word (LFIAddrSpace .ofRanges) Word :=
  (quietWorld.threads.go true (.start (.outer askBrk))).go false
    (.start (LockedCall.steps .open .plain quietWorld.p (.munmap 0 4096)))

/-- Each of them has its lock. -/
def bothLocked : Conf Bool Stop Word (LFIAddrSpace .ofRanges) Word :=
  let brking := { twoCalls.go true (.plan askBrk) with lkOuter := some true }
  { brking.go false (.inner (Locked.lfiAsMunmap .open 0 4096 >>= fun r => pure (BitVec.ofInt 64 r))) with
    lkInner := some false }

/-- They take both locks. -/
lemma runs_bothLocked (D : Word → Prop) : Run (MemStep .open .plain quietWorld D) quietWorld.threads
    [some (.call true (LockedCall.brk 0)), some (.call false (LockedCall.munmap 0 4096)), none, none] bothLocked := by
  have hcalls : Run (MemStep .open .plain quietWorld D) quietWorld.threads
      ([] ++ [some (.call true (LockedCall.brk 0))] ++ [some (.call false (LockedCall.munmap 0 4096))]) twoCalls :=
    .snoc (.snoc (.nil _) (.call (LockedCall.brk 0) rfl)) (.call (LockedCall.munmap 0 4096) rfl)
  exact .snoc (.snoc hcalls (.lockOuter rfl rfl)) (.lockInner rfl rfl)

/-- The first thread has its answer, and gave `lk_brk` back. -/
def brkDone : Conf Bool Stop Word (LFIAddrSpace .ofRanges) Word :=
  let left := { (bothLocked.go true (.write 0 0)).go true (.leave 0) with outer := 0 }
  { left.go true (.done 0) with lkOuter := none }.go true .idle

/-- The break is asked for. -/
lemma askBrk_zero : askBrk 0 = .finish 0 0 := by
  unfold askBrk LockedCall.brkPlan
  rw [if_pos (by decide), if_pos (by decide)]
  rfl

/-- Then the first of them returns. -/
lemma runs_brkDone (D : Word → Prop) : Run (MemStep .open .plain quietWorld D) quietWorld.threads
    [some (.call true (LockedCall.brk 0)), some (.call false (LockedCall.munmap 0 4096)), none, none, none, none, none,
      some (.ret true 0)] brkDone := by
  have hplan : MemStep .open .plain quietWorld D bothLocked none (bothLocked.go true (.write 0 0)) :=
    .planFinish rfl askBrk_zero
  have hrun := ((runs_bothLocked D).snoc hplan).snoc (.write (t := true) rfl)
  exact (hrun.snoc (.unlockOuter (t := true) rfl)).snoc (.ret (t := true) rfl)

/-- The break is asked for and answered as if nothing else went on. -/
theorem mem_calls_atomic_brk : ∃ l' a,
    Run (Atomic.Step (LockedCall.spec .open .plain quietWorld)) (.start 0 quietWorld.p.as) l' a ∧
      l'.reduceOption = [.call true (.brk 0), .call false (.munmap 0 4096), .ret true 0] ∧ a.outer = 0 := by
  obtain ⟨l', a, hr, hl, hout, -⟩ := mem_calls_atomic (runs_brkDone fun _ => False)
  exact ⟨l', a, hr, hl, hout rfl⟩

/-- Both calls can come to an end. -/
theorem mem_calls_end_both : ∃ l' s', Run (MemStep .open .plain quietWorld fun _ => False) bothLocked l' s' ∧
    (∀ o ∈ l', NoCall o) ∧ ((∀ t, s'.pc t = .idle) ∨ ∃ t o i, s'.pc t = .dead o i) :=
  mem_calls_end (runs_bothLocked _)

/-- Amid both calls nothing changed outside of the window. -/
theorem mem_calls_window_both :
    Inward .plain (Ranges.Inside .plain) quietWorld.p.as bothLocked.inner ∧
      Placed .plain { quietWorld.p with brksize := bothLocked.outer } := by
  have hpaged : LFIAddrSpaceInfo.plain.Paged HostVm.open.pagesize :=
    LFIAddrSpaceInfo.paged (by decide) (by decide) (by decide)
  have hplaced : Placed .plain quietWorld.p :=
    ⟨by decide, by decide, ⟨2 ^ 29, by decide, by decide, by decide⟩, by decide⟩
  refine mem_calls_window hpaged LibMMap.ofRanges_confines rfl ⟨rfl, rfl, fun _ h => by cases h⟩ hplaced
    (runs_bothLocked _) fun t c hc => ?_
  simp only [List.mem_cons, Option.some.injEq, Label.call.injEq, reduceCtorEq, List.not_mem_nil, or_false] at hc
  rcases hc with ⟨-, rfl⟩ | ⟨-, rfl⟩
  · trivial
  · trivial

end Libtux
