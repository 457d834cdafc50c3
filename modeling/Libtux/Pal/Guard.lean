import Libtux.Pal.Calls
import Libtux.Pal.Ranges

/-!
# The guards of the mapping calls

`lfi_as_mapat`, `lfi_as_mprotect` and `lfi_as_munmap` (`src/pal/vm.c`) each compare `addr` and the
64-bit sum `addr + size` with the bounds of the address space before they call libmmap or the host. The
sum wraps, so the guard is a guard of the interval `[addr, addr + size)` only as long as the interval
ends below the top of memory. `guards_confine` is the exact statement.
-/

namespace Libtux
open Lib

/-- The mapping calls that take an address, with the operands that are not the range. -/
inductive VmCall where
  | mapat (prot : CInt) (hf : Option HostFile)
  | mprotect (prot : CInt)
  | munmap

/-- Every integer of `[addr, addr + size)` is an address of the address space. -/
def Contained (i : LFIAddrSpaceInfo) (addr size : Word) : Prop :=
  ∀ n : Nat, addr.toNat ≤ n → n < addr.toNat + size.toNat →
    i.minaddr.toNat ≤ n ∧ n < i.maxaddr.toNat

namespace VmCall

variable {L : LibMMap} {H : HostVm}

/-- The call goes past its guard, to libmmap or the host. -/
def Past (H : HostVm) (as : LFIAddrSpace L) (addr size : Word) : VmCall → Prop
  | mapat prot hf => ((lfiAsMapat H addr size prot hf).run as).val ≠ .error (.assertion .mapatRange)
  | mprotect prot => ((lfiAsMprotect H addr size prot).run as).val ≠ .error (.assertion .mprotectRange)
  | munmap => .munmap addr size ∈ ((lfiAsMunmap H addr size).run as).out

/-- The sum of a range, as the guard of the call compares it. -/
def Below (i : LFIAddrSpaceInfo) (sum : Word) : VmCall → Prop
  | mapat _ _ => sum ≤ i.maxaddr
  | mprotect _ => sum ≤ i.maxaddr
  | munmap => sum < i.maxaddr

instance (i : LFIAddrSpaceInfo) (sum : Word) (c : VmCall) : Decidable (c.Below i sum) :=
  match c with
  | mapat _ _ => inferInstanceAs (Decidable (_ ≤ _))
  | mprotect _ => inferInstanceAs (Decidable (_ ≤ _))
  | munmap => inferInstanceAs (Decidable (_ < _))

/-- A range that ends below the top does so by its sum. -/
lemma Below.le {i : LFIAddrSpaceInfo} {sum : Word} {c : VmCall} (h : c.Below i sum) :
    sum.toNat ≤ i.maxaddr.toNat := by
  cases c with
  | mapat prot hf => exact h
  | mprotect prot => exact h
  | munmap => exact le_of_lt h

/-- A call goes past its guard exactly when the guard holds of the 64-bit sum. -/
lemma past_iff (c : VmCall) (as : LFIAddrSpace L) (addr size : Word) :
    c.Past H as addr size ↔ as.info.minaddr ≤ addr ∧ c.Below as.info (addr + size) := by
  cases c with
  | mapat prot hf =>
    simp only [Past, Below]
    have hinv := lfiAsMapat_inv (H := H) addr size prot hf as
    generalize (lfiAsMapat H addr size prot hf).run as = r at hinv
    cases hinv with
    | guard hg => exact iff_of_false (fun h => h rfl) hg
    | full hg _ => exact iff_of_true nofun hg
    | stop hg _ _ => exact iff_of_true nofun hg
    | fail hg _ _ _ => exact iff_of_true nofun hg
    | ok hg _ _ _ => exact iff_of_true nofun hg
  | mprotect prot =>
    simp only [Past, Below]
    rcases lfiAsMprotect_cases (H := H) addr size prot as with ⟨hg, hr⟩ | ⟨hg, r, _, hr⟩
    · rw [hr]
      exact iff_of_false (fun h => h rfl) hg
    · rw [hr]
      exact iff_of_true nofun hg
  | munmap =>
    simp only [Past, Below]
    have hinv := lfiAsMunmap_inv (H := H) addr size as
    generalize (lfiAsMunmap H addr size).run as = r at hinv
    cases hinv with
    | guard hg => exact iff_of_false nofun hg
    | full hg _ => exact iff_of_true (List.mem_singleton.mpr rfl) hg
    | stop hg _ _ => exact iff_of_true (List.mem_singleton.mpr rfl) hg
    | ok hg _ _ => exact iff_of_true (List.mem_singleton.mpr rfl) hg

end VmCall

variable {L : LibMMap} {H : HostVm}

/-- A guard confines its call to the address space exactly when the range does not wrap, or wraps to a
sum that the guard refuses. -/
theorem guards_confine (c : VmCall) (as : LFIAddrSpace L) (addr size : Word) :
    (c.Past H as addr size → Contained as.info addr size) ↔
      addr.toNat + size.toNat < 2 ^ 64 ∨ addr < as.info.minaddr ∨
        ¬ c.Below as.info (addr + size) := by
  rw [c.past_iff]
  constructor
  · intro h
    by_contra hno
    rw [not_or, not_or, not_not, not_lt, BitVec.not_lt] at hno
    obtain ⟨hwrap, hmin, hbelow⟩ := hno
    -- the last address of memory is in the range, and not below the end of the address space
    have hlast := h ⟨hmin, hbelow⟩ (2 ^ 64 - 1) (by have := addr.isLt; omega) (by omega)
    have := as.info.maxaddr.isLt
    omega
  · rintro (hnowrap | hlow | hno) ⟨hmin, hbelow⟩
    · intro n hlo hhi
      have hmin : as.info.minaddr.toNat ≤ addr.toNat := hmin
      have hmax := hbelow.le
      rw [BitVec.toNat_add, Nat.mod_eq_of_lt hnowrap] at hmax
      omega
    · exact absurd hmin (BitVec.not_le.mpr hlow)
    · exact absurd hbelow hno

/-- Two pages at the top of memory pass all three guards of a new address space, and are not in it. -/
theorem guards_overrun :
    (VmCall.mapat 3 none).Past (.plain fun _ _ _ => true) (.fresh .plain) (-4096) 8192 ∧
    (VmCall.mprotect 3).Past (.plain fun _ _ _ => true) (.fresh .plain) (-4096) 8192 ∧
    VmCall.munmap.Past (.plain fun _ _ _ => true) (.fresh .plain) (-4096) 8192 ∧
    ¬ Contained LFIAddrSpaceInfo.plain (-4096) 8192 := by
  refine ⟨?_, ?_, ?_, fun h => ?_⟩
  · exact (VmCall.past_iff ..).mpr ⟨by decide, by decide⟩
  · exact (VmCall.past_iff ..).mpr ⟨by decide, by decide⟩
  · exact (VmCall.past_iff ..).mpr ⟨by decide, by decide⟩
  · have := (h (2 ^ 64 - 4096) (by decide) (by decide)).2
    revert this
    decide

end Libtux
