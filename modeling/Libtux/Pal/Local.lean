import Libtux.Lib.Bytes
import Libtux.Lib.Relate
import Libtux.Pal.Vm

/-!
# Address spaces that differ in their memory

`LFIAddrSpace.Same D` relates two address spaces that differ in nothing but their memory, outside of `D`. The
memory calls do not look at it: from related address spaces they end alike, and in related ones
(`lfiAsMapat_agrees` and the lemmas that follow).
-/

namespace Libtux
open Lib Exec

/-- The two address spaces differ at most in their memory outside of `D`. -/
structure LFIAddrSpace.Same {L : LibMMap} (D : Word → Prop) (as as' : LFIAddrSpace L) : Prop where
  eq : as' = { as with mem := as'.mem }
  mem : ∀ x, D x → as'.mem x = as.mem x

section
variable {L : LibMMap} {H : HostVm} {D : Word → Prop} {P : Ev → Prop}

namespace LFIAddrSpace.Same

variable {as as' : LFIAddrSpace L}

/-- An address space does not differ from itself. -/
lemma refl (as : LFIAddrSpace L) : Same D as as := ⟨rfl, fun _ _ => rfl⟩

/-- Both are at the same place. -/
lemma info (h : Same D as as') : as'.info = as.info := by rw [h.eq]

/-- The host has mapped as often for both. -/
lemma nmmap (h : Same D as as') : as'.nmmap = as.nmmap := by rw [h.eq]

/-- It has changed protections as often. -/
lemma nmprotect (h : Same D as as') : as'.nmprotect = as.nmprotect := by rw [h.eq]

/-- Both have the same records. -/
lemma mm (h : Same D as as') : as'.mm = as.mm := by rw [h.eq]

/-- The host takes the same from both. -/
lemma lost (h : Same D as as') (addr len x : Word) : as'.Lost H addr len x ↔ as.Lost H addr len x := by
  unfold LFIAddrSpace.Lost
  rw [h.nmmap]

/-- A change of the memory, by functions that agree on `D` where the memories do. -/
lemma setMem (h : Same D as as') {f g : Word → Byte} (hfg : ∀ x, D x → g x = f x) :
    Same D { as with mem := f } { as' with mem := g } where
  eq := by rw [h.eq]
  mem := hfg

/-- A change of the records. -/
lemma setMm (h : Same D as as') (mm : L.Table) : Same D { as with mm } { as' with mm } where
  eq := by rw [h.eq]
  mem := h.mem

end LFIAddrSpace.Same

/-! ## Memory calls -/

/-- An `mmap` of the host does the same to both: a page that it opens has bytes of the file, or zeros. -/
lemma hostMmap_agrees (addr len : Word) (prot : CInt) (hf : Option HostFile) :
    Agrees (LFIAddrSpace.Same D) P (hostMmap H addr len prot hf : Vm L Bool) := by
  intro as as' h _
  simp only [hostMmap, mk_run]
  rw [h.nmmap]
  split
  · refine ⟨rfl, rfl, ?_, fun x hx => ?_⟩
    · rw [h.eq]
      rfl
    · rw [LFIAddrSpace.mapped, LFIAddrSpace.mapped, h.nmmap]
      dsimp only
      rw [h.mem x hx]
  · refine ⟨rfl, rfl, ?_, fun x hx => ?_⟩
    · rw [h.eq]
      rfl
    · simp only [LFIAddrSpace.refused, h.lost, h.mem x hx]

/-- So does an `mprotect`, which changes no byte. -/
lemma hostMprotect_agrees (addr len : Word) (prot : CInt) :
    Agrees (LFIAddrSpace.Same D) P (hostMprotect H addr len prot : Vm L Int) := by
  intro as as' h _
  simp only [hostMprotect, mk_run]
  rw [h.nmprotect]
  refine ⟨rfl, rfl, ?_, h.mem⟩
  rw [h.eq]
  rfl

/-- `asmap` does what the host does. -/
lemma asmap_agrees (addr len : Word) (prot : CInt) (hf : Option HostFile) :
    Agrees (LFIAddrSpace.Same D) P (asmap H addr len prot hf : Vm L Int) :=
  Agrees.bind (agrees_gets fun h => h.nmmap) fun _ =>
    Agrees.bind (hostMmap_agrees _ _ _ _) fun _ => Agrees.ite (agrees_pure _) (agrees_pure _)

/-- The callbacks of libmmap, by induction on the pieces. -/
lemma cbunmaps_agrees (ps : List (Word × Word)) :
    Agrees (LFIAddrSpace.Same D) P (cbunmaps H ps : Vm L Unit) := by
  induction ps with
  | nil => exact agrees_pure _
  | cons p ps ih =>
    exact Agrees.bind (Agrees.bind (hostMmap_agrees _ _ _ _) fun _ => agrees_check _ _) fun _ => ih

/-- A record is dropped from both. -/
lemma mmUnmap_agrees (addr size : Word) :
    Agrees (LFIAddrSpace.Same D) P (mmUnmap addr size : Vm L Unit) := by
  refine agrees_modify fun {as as'} h => ?_
  rw [h.mm]
  cases L.unmap as.mm addr size with
  | none => exact h
  | some r => exact h.setMm r.1

/-- The end of the mapping calls. -/
lemma asmap_tail_agrees (addr len : Word) (prot : CInt) (hf : Option HostFile) :
    Agrees (LFIAddrSpace.Same D) P (asmap H addr len prot hf >>= fun r =>
      if r < 0 then mmUnmap addr len >>= fun _ => pure mapFailed else pure addr : Vm L Word) :=
  Agrees.bind (asmap_agrees _ _ _ _) fun _ =>
    Agrees.ite (Agrees.bind (mmUnmap_agrees _ _) fun _ => agrees_pure _) (agrees_pure _)

/-- The records are replaced in both. -/
lemma setMm_agrees (mm : L.Table) :
    Agrees (LFIAddrSpace.Same D) P (modify fun as => { as with mm } : Vm L Unit) :=
  agrees_modify fun h => h.setMm mm

/-- `lfi_as_mapany` does not look at memory. -/
lemma lfiAsMapany_agrees (size : Word) (prot : CInt) (hf : Option HostFile) :
    Agrees (LFIAddrSpace.Same D) P (lfiAsMapany H size prot hf : Vm L Word) := by
  refine Agrees.get_bind (fun h => by rw [h.mm]) fun as => ?_
  cases L.mapany as.mm size with
  | none => exact agrees_pure _
  | some r => exact Agrees.bind (setMm_agrees _) fun _ => asmap_tail_agrees _ _ _ _

/-- `lfi_as_mapat` does not. -/
lemma lfiAsMapat_agrees (addr size : Word) (prot : CInt) (hf : Option HostFile) :
    Agrees (LFIAddrSpace.Same D) P (lfiAsMapat H addr size prot hf : Vm L Word) := by
  refine Agrees.get_bind (fun h => by rw [h.info, h.mm]) fun as => ?_
  refine Agrees.bind (agrees_tell _) fun _ => Agrees.bind (agrees_check _ _) fun _ => ?_
  cases L.mapat as.mm addr size with
  | none => exact agrees_pure _
  | some r =>
    exact Agrees.bind (setMm_agrees _) fun _ =>
      Agrees.bind (cbunmaps_agrees _) fun _ => asmap_tail_agrees _ _ _ _

/-- `lfi_as_mprotect` does not. -/
lemma lfiAsMprotect_agrees (addr size : Word) (prot : CInt) :
    Agrees (LFIAddrSpace.Same D) P (lfiAsMprotect H addr size prot : Vm L Int) :=
  Agrees.get_bind (fun h => by rw [h.info]) fun _ =>
    Agrees.bind (agrees_check _ _) fun _ => hostMprotect_agrees _ _ _

/-- `lfi_as_munmap` does not. -/
lemma lfiAsMunmap_agrees (addr size : Word) :
    Agrees (LFIAddrSpace.Same D) P (lfiAsMunmap H addr size : Vm L Int) := by
  refine Agrees.get_bind (fun h => by rw [h.info, h.mm]) fun as => ?_
  refine Agrees.ite (Agrees.bind (agrees_tell _) fun _ => ?_) (agrees_pure _)
  cases L.unmap as.mm addr size with
  | none => exact agrees_pure _
  | some r =>
    exact Agrees.bind (setMm_agrees _) fun _ => Agrees.bind (cbunmaps_agrees _) fun _ => agrees_pure _

/-! ## Loads and stores -/

end
end Libtux
