import Libtux.Pal.Calls
import Libtux.Sys.Misc

/-!
# The break

What `sys_brk` (`src/syscalls/sys_mem.c`) can do. `brkNext` is the address it maps from when the heap
grows; `sysBrk_inv` lists its ways, and `lfiAsMapat_spec` says of the one call it makes all that the
heap needs: a success leaves exactly the pages of the range fresh, and a failure changes nothing below
its start.
-/

namespace Libtux
open Lib

section
variable {L : LibMMap} {M : Machine} (H : HostVm) (opts : TuxOptions)

/-- Where a growth of the heap maps from. -/
def brkNext (p : TuxThread L M) : Word :=
  if p.brksize = 0 then p.brkbase else ceilp (p.brkbase + p.brksize) opts.pagesize

/-- The world with another address space. -/
def World.setAs (w : World L M) (as : LFIAddrSpace L) : World L M := { w with p := { w.p with as } }

/-- The world with another break. -/
def World.setBrk (w : World L M) (brksize : Word) : World L M := { w with p := { w.p with brksize } }

/-- The address space is the new one, -/
@[simp] lemma World.setAs_as (w : World L M) (as : LFIAddrSpace L) : (w.setAs as).p.as = as := rfl

/-- the heap starts where it did, -/
@[simp] lemma World.setAs_brkbase (w : World L M) (as : LFIAddrSpace L) :
    (w.setAs as).p.brkbase = w.p.brkbase := rfl

/-- and is as large. -/
@[simp] lemma World.setAs_brksize (w : World L M) (as : LFIAddrSpace L) :
    (w.setAs as).p.brksize = w.p.brksize := rfl

/-- A new break leaves the address space, -/
@[simp] lemma World.setBrk_as (w : World L M) (n : Word) : (w.setBrk n).p.as = w.p.as := rfl

/-- and where the heap starts. -/
@[simp] lemma World.setBrk_brkbase (w : World L M) (n : Word) :
    (w.setBrk n).p.brkbase = w.p.brkbase := rfl

/-- The heap has the new size. -/
@[simp] lemma World.setBrk_brksize (w : World L M) (n : Word) : (w.setBrk n).p.brksize = n := rfl

/-- The ways through `sys_brk`. -/
inductive BrkWay (w : World L M) (addr : Word) : Res Stop Ev (World L M) Word → Prop where
  | stop : ¬ brkSize w.p addr < TUX_BRKMAXSIZE →
    BrkWay w addr ⟨.error (.assertion .brkNewsize), w, []⟩
  | same : brkSize w.p addr < TUX_BRKMAXSIZE → brkSize w.p addr = w.p.brksize →
    BrkWay w addr ⟨.ok (brkTo w.p addr), w, []⟩
  | shrink : brkSize w.p addr < TUX_BRKMAXSIZE → brkSize w.p addr ≠ w.p.brksize →
    ¬ brkTo w.p addr ≥ w.p.brkbase + w.p.brksize →
    BrkWay w addr ⟨.ok (w.p.brkbase + brkSize w.p addr), w.setBrk (brkSize w.p addr), []⟩
  | abort {e st out} : brkSize w.p addr < TUX_BRKMAXSIZE → brkSize w.p addr ≠ w.p.brksize →
    brkTo w.p addr ≥ w.p.brkbase + w.p.brksize →
    (brkMap H opts w.p (brkSize w.p addr)).run w.p.as = ⟨.error e, st, out⟩ →
    BrkWay w addr ⟨.error e, w.setAs st, out⟩
  | fail {st out} : brkSize w.p addr < TUX_BRKMAXSIZE → brkSize w.p addr ≠ w.p.brksize →
    brkTo w.p addr ≥ w.p.brkbase + w.p.brksize →
    (brkMap H opts w.p (brkSize w.p addr)).run w.p.as = ⟨.ok mapFailed, st, out⟩ →
    BrkWay w addr ⟨.ok (-1), w.setAs st, out⟩
  | grow {map st out} : brkSize w.p addr < TUX_BRKMAXSIZE → brkSize w.p addr ≠ w.p.brksize →
    brkTo w.p addr ≥ w.p.brkbase + w.p.brksize → map ≠ mapFailed →
    (brkMap H opts w.p (brkSize w.p addr)).run w.p.as = ⟨.ok map, st, out⟩ →
    BrkWay w addr
      ⟨.ok (w.p.brkbase + brkSize w.p addr), (w.setAs st).setBrk (brkSize w.p addr), out⟩

variable {H opts}

/-- A call on the address space of the thread. -/
lemma onSpace_run {α : Type} (x : Vm L α) (w : World L M) :
    (onSpace x).run w = ⟨(x.run w.p.as).val, w.setAs (x.run w.p.as).st, (x.run w.p.as).out⟩ := by
  rw [onSpace, Exec.zoom, Exec.mk_run]
  rfl

/-- The new break is stored and returned. -/
lemma setbrk_run (newsize : Word) (w : World L M) :
    (setbrk newsize).run w = ⟨.ok (w.p.brkbase + newsize), w.setBrk newsize, []⟩ := rfl

/-- A growth maps the difference of the sizes, whatever the old size was. -/
lemma brkMap_eq (p : TuxThread L M) (newsize : Word) :
    brkMap H opts p newsize =
      lfiAsMapat H (brkNext opts p) (newsize - p.brksize) (LFI_PROT_READ ||| LFI_PROT_WRITE) none := by
  unfold brkMap brkNext
  split
  · rename_i h
    have hz : newsize - 0 = newsize := by bv_omega
    rw [h, hz]
  · rfl

/-- A run of `sys_brk` takes one of its ways. -/
lemma sysBrk_inv (H : HostVm) (opts : TuxOptions) (addr : Word) (w : World L M) :
    BrkWay H opts w addr ((sysBrk H opts addr).run w) := by
  rw [sysBrk, Exec.bind_run, Exec.gets_run, Exec.andThen_ok_nil, Exec.check_bind_run]
  split
  · rename_i hsize
    rw [Exec.ite_run]
    split
    · rename_i hsame
      exact .same hsize hsame
    · rename_i hne
      rw [Exec.ite_run]
      split
      · rename_i hge
        rw [Exec.bind_run, onSpace_run]
        cases hr : (brkMap H opts w.p (brkSize w.p addr)).run w.p.as with
        | mk v st out =>
          cases v with
          | error e => exact .abort hsize hne hge hr
          | ok map =>
            rw [Exec.andThen_ok, Exec.ite_run]
            by_cases hmap : map = mapFailed
            · subst hmap
              rw [if_pos rfl, Exec.pure_run, List.append_nil]
              exact .fail hsize hne hge hr
            · rw [if_neg hmap, setbrk_run, List.append_nil]
              exact .grow hsize hne hge hmap hr
      · rename_i hlt
        rw [setbrk_run]
        exact .shrink hsize hne hlt
  · rename_i hsize
    exact .stop hsize

end
end Libtux
