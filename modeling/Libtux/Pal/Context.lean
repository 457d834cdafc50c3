import Libtux.Lib.Bytes
import Libtux.Pal.Window

/-!
# The sys page

Model of `sysalloc` and `syssetup` (`src/pal/ctx.c`): the first context of an address space maps a page at its
base and fills in `struct Sys`, the table through which the sandbox calls the runtime. The page is then made
read-only. It lies below the guard, so it is in the region that belongs to the address space
(`LFIAddrSpaceInfo.Region`) but not in the window that the mapping calls work on.
-/

namespace Libtux
open Lib Exec

/-- The entry points of the runtime (`lfi_syscall_entry`, `lfi_get_tp`, `lfi_set_tp` and `lfi_ret`), in the
order in which `syssetup` stores them. -/
structure Rtcalls where
  syscallEntry : Word
  getTp : Word
  setTp : Word
  ret : Word

/-- The table, in the order of its entries. -/
def Rtcalls.words (rt : Rtcalls) : List Word := [rt.syscallEntry, rt.getTp, rt.setTp, rt.ret]

/-- The bytes of `struct Sys` in a fresh page: the entry points at the start of `rtcalls`, and the base after
its 256 words. -/
def sysBytes (rt : Rtcalls) (i : LFIAddrSpaceInfo) : Word → Byte :=
  putWords (putWords (fun _ => 0) i.base rt.words) (i.base + 2048) [i.base]

/-- An address of the sys page. -/
def LFIAddrSpaceInfo.OnSysPage (i : LFIAddrSpaceInfo) (x : Word) : Prop :=
  i.base.toNat ≤ x.toNat ∧ x.toNat < i.base.toNat + i.pagesize.toNat

/-- An address of the region that libboxmap handed out. -/
def LFIAddrSpaceInfo.Region (i : LFIAddrSpaceInfo) (x : Word) : Prop :=
  i.base.toNat ≤ x.toNat ∧ x.toNat < i.base.toNat + 2 ^ 32

instance (i : LFIAddrSpaceInfo) (x : Word) : Decidable (i.OnSysPage x) := inferInstanceAs (Decidable (_ ∧ _))

instance (i : LFIAddrSpaceInfo) (x : Word) : Decidable (i.Region x) := inferInstanceAs (Decidable (_ ∧ _))

section
variable {L : LibMMap} (H : HostVm)

/-- `sysalloc`. -/
def sysalloc (i : LFIAddrSpaceInfo) : Vm L Bool :=
  hostMmap H i.base i.pagesize (LFI_PROT_READ ||| LFI_PROT_WRITE) none

/-- `syssetup`, with what it asserts in the end as the result. -/
def syssetup (rt : Rtcalls) (i : LFIAddrSpaceInfo) : Vm L Bool := do
  Exec.modify fun as => { as with mem := putWords as.mem i.base rt.words }
  Exec.modify fun as => { as with mem := putWords as.mem (i.base + 2048) [i.base] }
  let err ← hostMprotect H i.base i.pagesize LFI_PROT_READ
  pure (decide (err = 0))

end

/-- The memory of a sys page. -/
structure SysPage (rt : Rtcalls) (i : LFIAddrSpaceInfo) (mem : Word → Byte) (prot : Word → CInt) : Prop where
  mem : ∀ x, i.OnSysPage x → mem x = sysBytes rt i x
  prot : ∀ x, i.OnSysPage x → prot x = LFI_PROT_READ

section
variable {i : LFIAddrSpaceInfo}

/-- Regions are as large as they are aligned, so two of them are the same or apart. -/
lemma LFIAddrSpaceInfo.Region.eq {j : LFIAddrSpaceInfo} {x : Word} (hi : i.Region x) (hj : j.Region x) :
    i.base = j.base := by
  obtain ⟨m, hm⟩ := i.base_aligned
  obtain ⟨n, hn⟩ := j.base_aligned
  obtain ⟨hlo, hhi⟩ := hi
  obtain ⟨hlo', hhi'⟩ := hj
  apply BitVec.eq_of_toNat_eq
  rw [hm] at hlo hhi ⊢
  rw [hn] at hlo' hhi' ⊢
  omega

/-- The window is in the region, above the sys page. -/
lemma LFIAddrSpaceInfo.Within.region (hpg : i.pagesize.toNat ≤ 2 ^ 20) {x : Word} (hx : i.Within x) :
    i.Region x ∧ ¬ i.OnSysPage x := by
  obtain ⟨hlo, hhi⟩ := hx
  have hmin := i.minaddr_toNat (by omega)
  have hmax := i.maxaddr_toNat
  have := i.base_top
  rw [BitVec.le_def] at hlo
  rw [BitVec.lt_def] at hhi
  constructor
  · constructor <;> omega
  · rintro ⟨_, hlt⟩
    omega

/-- The sys page is in the region. -/
lemma LFIAddrSpaceInfo.OnSysPage.region (hpg : i.pagesize.toNat ≤ 2 ^ 20) {x : Word} (hx : i.OnSysPage x) :
    i.Region x := ⟨hx.1, lt_of_lt_of_le hx.2 (by omega)⟩

/-- What the sandbox loads from the table are the entry points of the runtime, and from the word after it the
base. -/
lemma SysPage.loads {rt : Rtcalls} {mem : Word → Byte} {prot : Word → CInt} (h : SysPage rt i mem prot)
    (hpg : 2064 ≤ i.pagesize.toNat) :
    (∀ k (hk : k < rt.words.length), le mem (i.base + 8 * BitVec.ofNat 64 k) 8 64 = rt.words[k]) ∧
      le mem (i.base + 2048) 8 64 = i.base := by
  have htop := i.base_top
  have hlen : rt.words.length = 4 := rfl
  have hpage : ∀ k, k < 2056 → mem (i.base + BitVec.ofNat 64 k) = sysBytes rt i (i.base + BitVec.ofNat 64 k) := by
    intro k hk
    have hx : (i.base + BitVec.ofNat 64 k).toNat = i.base.toNat + k := toNat_add_ofNat (by omega)
    exact h.mem _ ⟨by omega, by omega⟩
  have hread : ∀ n, n + 8 ≤ 2056 → le mem (i.base + BitVec.ofNat 64 n) 8 64 =
      le (sysBytes rt i) (i.base + BitVec.ofNat 64 n) 8 64 := by
    intro n hn
    refine le_congr fun k hk => ?_
    have hadd : i.base + BitVec.ofNat 64 n + BitVec.ofNat 64 k = i.base + BitVec.ofNat 64 (n + k) := by
      rw [BitVec.add_assoc, ← BitVec.ofNat_add]
    rw [hadd]
    exact hpage _ (by omega)
  have hend : (i.base + 2048).toNat = i.base.toNat + 2048 := by
    rw [BitVec.toNat_add]
    exact Nat.mod_eq_of_lt (by rw [show (2048 : Word).toNat = 2048 from rfl]; omega)
  constructor
  · intro k hk
    rw [hlen] at hk
    have hmul : (8 : Word) * BitVec.ofNat 64 k = BitVec.ofNat 64 (8 * k) := by
      rw [BitVec.ofNat_mul]
      rfl
    have hsame : le (sysBytes rt i) (i.base + BitVec.ofNat 64 (8 * k)) 8 64 =
        le (putWords (fun _ => 0) i.base rt.words) (i.base + BitVec.ofNat 64 (8 * k)) 8 64 := by
      refine le_congr fun m hm => putWords_outside ?_ (.inl ?_)
      · rw [hend, List.length_singleton]
        omega
      · have hadd : i.base + BitVec.ofNat 64 (8 * k) + BitVec.ofNat 64 m = i.base + BitVec.ofNat 64 (8 * k + m) := by
          rw [BitVec.add_assoc, ← BitVec.ofNat_add]
        rw [hadd, toNat_add_ofNat (by omega), hend]
        omega
    rw [hmul, hread (8 * k) (by omega), hsame, ← hmul]
    exact le_putWords (by rw [hlen]; omega) (by rw [hlen]; exact hk)
  · have hzero : i.base + 2048 = i.base + 2048 + 8 * BitVec.ofNat 64 0 := by bv_omega
    have hw : le (sysBytes rt i) (i.base + 2048) 8 64 = i.base := by
      rw [hzero]
      exact le_putWords (l := [i.base]) (by rw [hend, List.length_singleton]; omega) (Nat.zero_lt_one)
    exact (hread 2048 (by omega)).trans hw

end

section
variable {L : LibMMap} {H : HostVm} {i : LFIAddrSpaceInfo} {rt : Rtcalls}

/-- A page that `sysalloc` could map. -/
lemma sysalloc_true {as as1 : LFIAddrSpace L} {l : List Ev} (h : (sysalloc H i).run as = ⟨.ok true, as1, l⟩) :
    as1 = as.mapped H i.base i.pagesize (LFI_PROT_READ ||| LFI_PROT_WRITE) none := by
  rw [sysalloc, hostMmap, mk_run] at h
  split at h
  · exact (Res.mk.inj h).2.1.symm
  · cases (Res.mk.inj h).1

/-- A page that `syssetup` could protect. -/
lemma syssetup_true {as as1 : LFIAddrSpace L} {l : List Ev} (h : (syssetup H rt i).run as = ⟨.ok true, as1, l⟩) :
    as1 = { as with
      mem := putWords (putWords as.mem i.base rt.words) (i.base + 2048) [i.base]
      prot := fun x => if covers H.pagesize i.base i.pagesize x then mmapprot LFI_PROT_READ else as.prot x
      nmprotect := as.nmprotect + 1 } := by
  rw [syssetup, bind_run, modify_run, andThen_ok_nil, bind_run, modify_run, andThen_ok_nil, bind_run,
    hostMprotect, mk_run, andThen_ok_nil, pure_run] at h
  obtain ⟨hval, hst, -⟩ := Res.mk.inj h
  have hval := Except.ok.inj hval
  rw [decide_eq_true_eq] at hval
  by_cases hok : H.mprotect as.nmprotect i.base i.pagesize = true
  case neg =>
    have hne : ¬ tuxerr (H.errno as.nmprotect) = 0 := by
      have := H.errno_pos as.nmprotect
      rw [tuxerr, if_pos (by omega)]
      omega
    rw [if_neg hok] at hval
    exact absurd hval hne
  have hall : ∀ x, H.protects as.nmprotect i.base i.pagesize x = true := fun x => by
    rw [HostVm.protects, hok, Bool.true_or]
  rw [← hst]
  simp only [LFIAddrSpace.mprotected, hall, and_true]

/-- The two leave a read-only sys page, and everything else as it was. -/
lemma syspage_made {as as1 as2 : LFIAddrSpace L} {l1 l2 : List Ev} (hP : i.pagesize = H.pagesize)
    (h32 : i.pagesize.toNat ∣ 2 ^ 32) (hpg : 2064 ≤ i.pagesize.toNat)
    (halloc : (sysalloc H i).run as = ⟨.ok true, as1, l1⟩)
    (hsetup : (syssetup H rt i).run as1 = ⟨.ok true, as2, l2⟩) :
    SysPage rt i as2.mem as2.prot ∧ as2.info = as.info ∧ as2.mm = as.mm ∧
      ∀ x, ¬ i.OnSysPage x → as2.mem x = as.mem x ∧ as2.prot x = as.prot x := by
  have htop := i.base_top
  have hend : (i.base + 2048).toNat = i.base.toNat + 2048 := by
    rw [BitVec.toNat_add, show (2048 : Word).toNat = 2048 from rfl]
    omega
  have hcov : ∀ x, covers H.pagesize i.base i.pagesize x ↔ i.OnSysPage x := fun x => by
    rw [← hP]
    exact covers_iff (hP ▸ H.pagesize_pos) (dvd_trans h32 i.base_aligned) dvd_rfl
  have hlen : rt.words.length = 4 := rfl
  obtain rfl := sysalloc_true halloc
  obtain rfl := syssetup_true hsetup
  refine ⟨⟨fun x hx => ?_, fun x hx => ?_⟩, rfl, rfl, fun x hx => ⟨?_, ?_⟩⟩
  · refine putWords_congr (putWords_congr ?_)
    simp only [LFIAddrSpace.mapped, (hcov x).mpr hx, if_true, Option.isSome_none, Bool.false_eq_true, if_false]
  · simp only [(hcov x).mpr hx, if_true]
    decide
  · have hlow : x.toNat < i.base.toNat ∨ i.base.toNat + 2064 ≤ x.toNat := by
      unfold LFIAddrSpaceInfo.OnSysPage at hx
      omega
    simp only [LFIAddrSpace.mapped]
    rw [putWords_outside, putWords_outside, if_neg ((hcov x).not.mpr hx)]
    all_goals simp only [hlen, hend, List.length_singleton]
    all_goals omega
  · simp only [LFIAddrSpace.mapped, (hcov x).not.mpr hx, if_false]

end
end Libtux
