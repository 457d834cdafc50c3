import Libtux.Elf.Copy
import Libtux.Pal.Window
import Libtux.Proc.Stack

/-!
# Setting up a process stays in its window

`procsetup` maps and fills pages before the process has run an instruction. Whatever the images ask for and
however it ends, it changes nothing outside of the window of its address space, if the copies of the segments
stay in their pages (`Copying`); images whose headers fit (`Elf.CopyFits`) do that. The words and the strings
of the stack are below its top, which is the end of the window.
-/

namespace Libtux
open Lib Exec Elf

variable {L : LibMMap} {H : HostVm} {i : LFIAddrSpaceInfo} {ok : L.Table → Prop}

/-- Stores to the window. -/
lemma store_outOf {f : LFIAddrSpace L → Word → Byte} (h : ∀ as x, f as x ≠ as.mem x → i.Within x) :
    Respects (OutOf i ok) (Exec.modify fun as => { as with mem := f as } : Vm L Unit) := by
  refine respects_modify fun as hi hok => ⟨hi, hok, fun x hx => ?_, fun _ _ => rfl⟩
  by_contra hne
  exact hx (h as x hne)

/-- A splice of a range of the window. -/
lemma splice_within {f g : Word → Byte} {p n x : Word} (hlo : i.minaddr.toNat ≤ p.toNat)
    (hhi : p.toNat + n.toNat ≤ i.maxaddr.toNat) (h : splice f p n g x ≠ f x) : i.Within x := by
  have hlt : x - p < n := by
    by_contra hge
    exact h (splice_of_not_lt hge)
  have := i.maxaddr.isLt
  constructor
  · rw [BitVec.le_def]
    bv_omega
  · rw [BitVec.lt_def]
    bv_omega

/-! ## The stack -/

section
variable (hpg : i.pagesize.toNat ≤ 2 ^ 20)
include hpg

/-- The `n`-th word from the stack pointer of a new process on. -/
structure Slot (i : LFIAddrSpaceInfo) (n : Nat) (p : Word) : Prop where
  le : n ≤ 4096
  eq : p.toNat + 8192 = i.maxaddr.toNat + 8 * n

omit hpg in
/-- A later word. -/
lemma Slot.add {n m : Nat} {p q : Word} (h : Slot i n p) (hle : n + m ≤ 4096)
    (hq : q = p + 8 * BitVec.ofNat 64 m) : Slot i (n + m) q := by
  have := h.eq
  have := i.maxaddr_toNat
  have := i.base_top
  refine ⟨hle, ?_⟩
  rw [hq]
  bv_omega

/-- A word that is stored below the top of the stack. -/
lemma stackStore_outOf {n : Nat} {p : Word} (h : Slot i n p) (v : Word) :
    Respects (OutOf i ok) (stackStore i.maxaddr p v : Vm L Unit) := by
  intro as
  refine RespectsAt.check outOf_composes fun hlt => store_outOf (fun as x hx => ?_) as
  have hmin := i.minaddr_toNat (by omega)
  have hmax := i.maxaddr_toNat
  have hbase := i.base_aligned
  have heq := h.eq
  have hlt : p.toNat < i.maxaddr.toNat := hlt
  refine splice_within ?_ ?_ hx
  · omega
  · rw [show (8 : Word).toNat = 8 from rfl]
    omega

/-- The entries of the vector, by induction. -/
lemma stackAuxv_outOf {n : Nat} {av : Word} {auxv : List (Word × Word)} (h : Slot i n av)
    (hle : n + 2 * auxv.length ≤ 4096) :
    Respects (OutOf i ok) (stackAuxv i.maxaddr av auxv : Vm L Unit) := by
  induction auxv generalizing n av with
  | nil => exact respects_pure outOf_composes _
  | cons e auxv ih =>
    rw [List.length_cons] at hle
    have h1 : Slot i (n + 1) (av + 8) := h.add (by omega) rfl
    have h2 : Slot i (n + 2) (av + 16) := h.add (by omega) rfl
    exact Respects.bind outOf_composes (stackStore_outOf hpg h _) fun _ =>
      Respects.bind outOf_composes (stackStore_outOf hpg h1 _) fun _ => ih h2 (by omega)

/-- The pointers of the arguments, by induction. -/
lemma stackPointers_outOf {k : Nat} {p : Word} {ptrs : List Word} (h : Slot i 1 p)
    (hle : k + ptrs.length ≤ 4095) :
    Respects (OutOf i ok) (stackPointers i.maxaddr p k ptrs : Vm L Bool) := by
  induction ptrs generalizing k with
  | nil => exact respects_pure outOf_composes _
  | cons ptr ptrs ih =>
    rw [List.length_cons] at hle
    have hk : Slot i (1 + k) (p + 8 * BitVec.ofNat 64 k) := h.add (by omega) rfl
    refine Respects.ite (respects_pure outOf_composes _) ?_
    refine Respects.bind outOf_composes ?_ fun v =>
      Respects.bind outOf_composes (stackStore_outOf hpg hk v) fun _ => ih (by omega)
    exact Respects.bind outOf_composes (respects_get outOf_composes) fun _ =>
      Respects.bind outOf_composes (respects_check outOf_composes _ _) fun _ => respects_pure outOf_composes _

omit hpg in
/-- The strings are as many as the pointers, and fit into `argv_ptrs`. -/
lemma stackStrings_length {stack_top p : Word} {argv : List (List Byte)} {ptrs0 ptrs : List Word}
    {as : LFIAddrSpace L} (h : ((stackStrings stack_top p argv ptrs0).run as).val = .ok (some ptrs)) :
    ptrs.length = ptrs0.length + argv.length ∧ (argv ≠ [] → ptrs.length ≤ ARGC_MAX) := by
  induction argv generalizing p ptrs0 as with
  | nil =>
    rw [stackStrings, pure_run] at h
    obtain rfl := Option.some.inj (Except.ok.inj h)
    exact ⟨rfl, fun hne => absurd rfl hne⟩
  | cons arg argv ih =>
    rw [stackStrings, ite_run] at h
    split at h
    · cases h
    · rw [bind_run, modify_run, andThen_ok_nil, check_bind_run] at h
      split at h
      · rename_i hlt
        obtain ⟨hlen, hmax⟩ := ih h
        rw [List.length_append, List.length_singleton] at hlen
        refine ⟨by rw [List.length_cons]; omega, fun _ => ?_⟩
        cases argv with
        | nil =>
          rw [List.length_nil] at hlen
          omega
        | cons a l => exact hmax (List.cons_ne_nil _ _)
      · cases h

omit hpg in
/-- The strings of the arguments, by induction. -/
lemma stackStrings_outOf {p : Word} {argv : List (List Byte)} {ptrs : List Word}
    (hlo : i.minaddr.toNat ≤ p.toNat) (hhi : p.toNat ≤ i.maxaddr.toNat) :
    Respects (OutOf i ok) (stackStrings i.maxaddr p argv ptrs : Vm L (Option (List Word))) := by
  induction argv generalizing p ptrs with
  | nil => exact respects_pure outOf_composes _
  | cons arg argv ih =>
    rw [stackStrings]
    intro as
    refine RespectsAt.ite (fun _ => respects_pure outOf_composes _ as) fun hroom => ?_
    have hlen : (BitVec.ofNat 64 (strnlen arg ARGV_MAX + 1)).toNat ≤ 1025 := by
      have hle : strnlen arg ARGV_MAX ≤ ARGV_MAX := by
        unfold strnlen
        exact Nat.min_le_right _ _
      have harg : ARGV_MAX = 1024 := rfl
      rw [BitVec.toNat_ofNat]
      omega
    have hmax := i.maxaddr_toNat
    have hbase := i.base_aligned
    have htop := i.base_top
    rw [ge_iff_le, BitVec.not_le, BitVec.lt_def] at hroom
    generalize BitVec.ofNat 64 (strnlen arg ARGV_MAX + 1) = len at hlen hroom ⊢
    have hsum : (p + len).toNat = p.toNat + len.toNat := by
      rw [BitVec.toNat_add]
      omega
    refine Respects.bind outOf_composes (store_outOf fun as x hx => ?_) (fun _ => ?_) as
    · exact splice_within hlo (by omega) hx
    · exact Respects.bind outOf_composes (respects_check outOf_composes _ _) fun _ => ih (by omega) (by omega)

omit hpg in
/-- A pointer that is read back and translated. -/
lemma toptr_outOf {α : Type} (p : Word) {f : Word → Vm L α} (hf : ∀ v, Respects (OutOf i ok) (f v)) :
    Respects (OutOf i ok) (load64 p >>= fun v => lfiAsToptr v >>= f) := by
  refine Respects.bind outOf_composes (respects_gets outOf_composes _) fun v =>
    Respects.bind outOf_composes ?_ hf
  exact Respects.bind outOf_composes (respects_get outOf_composes) fun _ =>
    Respects.bind outOf_composes (respects_check outOf_composes _ _) fun _ => respects_pure outOf_composes _

/-- The words behind the pointers. -/
lemma stackTail_outOf {sp pagesize : Word} {argc : Nat} {info : LFILoadInfo} (h : Slot i 0 sp)
    (hargc : argc ≤ 1024) :
    Respects (OutOf i ok) (stackTail i.maxaddr sp pagesize (BitVec.ofNat 64 argc) info :
      Vm L (Option Word)) := by
  have hslot : ∀ {q : Word} (m : Nat), m ≤ 2048 → q = sp + 8 * BitVec.ofNat 64 m → Slot i m q := by
    intro q m hm hq
    have := h.add (m := m) (by omega) hq
    rwa [Nat.zero_add] at this
  have h0 := hslot (1 + argc) (by omega) (q := sp + 8 + 8 * BitVec.ofNat 64 argc) (by bv_omega)
  have h1 := hslot (2 + argc) (by omega) (q := sp + 8 + 8 * (BitVec.ofNat 64 argc + 1)) (by bv_omega)
  have h2 := hslot (3 + argc) (by omega) (q := sp + 8 + 8 * (BitVec.ofNat 64 argc + 1) + 8) (by bv_omega)
  have h3 := h2.add (m := 12) (by omega) (q := _ + 16 * 6) rfl
  have h4 := h2.add (m := 20) (by omega) (q := _ + 16 * 10) rfl
  refine Respects.bind outOf_composes (stackStore_outOf hpg h0 _) fun _ =>
    Respects.bind outOf_composes (stackStore_outOf hpg h1 _) fun _ =>
      Respects.bind outOf_composes (stackAuxv_outOf hpg h2 ?_) fun _ => toptr_outOf _ fun execfn => ?_
  · simp only [stackAux1, List.length_cons, List.length_nil]
    omega
  refine Respects.bind outOf_composes (stackAuxv_outOf hpg h3 ?_) fun _ => toptr_outOf _ fun random => ?_
  · simp only [stackAux2, List.length_cons, List.length_nil]
    omega
  refine Respects.bind outOf_composes (stackAuxv_outOf hpg h4 ?_) fun _ => respects_pure outOf_composes _
  simp only [stackAux3, List.length_cons, List.length_nil]
  omega

/-- `stacksetup` fills the top of the window, at most. -/
lemma stacksetup_outOf (pagesize : Word) (argv : List (List Byte)) {info : LFILoadInfo}
    (htop : info.stack + info.stacksize = i.maxaddr) :
    Respects (OutOf i ok) (stacksetup pagesize argv info : Vm L (Option Word)) := by
  have hmin := i.minaddr_toNat (by omega)
  have hmax := i.maxaddr_toNat
  have hblock : ARG_BLOCK.toNat = 4096 := rfl
  have hstr : (i.maxaddr - ARG_BLOCK).toNat = i.maxaddr.toNat - 4096 := by
    rw [BitVec.toNat_sub_of_le (by rw [BitVec.le_def]; omega), hblock]
  have hslot : Slot i 0 (i.maxaddr - 2 * ARG_BLOCK) := by
    refine ⟨Nat.zero_le _, ?_⟩
    have htwo : (2 * ARG_BLOCK).toNat = 8192 := rfl
    rw [BitVec.toNat_sub_of_le (by rw [BitVec.le_def]; omega), htwo]
    omega
  rw [stacksetup_eq, htop]
  intro as
  refine RespectsAt.bind outOf_composes (stackStrings_outOf (by omega) (by omega) as) fun o ho => ?_
  cases o with
  | none => exact respects_pure outOf_composes _ _
  | some ptrs =>
    obtain ⟨hlen, hfit⟩ := stackStrings_length ho
    rw [List.length_nil, Nat.zero_add] at hlen
    have hargc : argv.length ≤ 1024 := by
      by_cases hne : argv = []
      · rw [hne]
        exact Nat.zero_le _
      · exact hlen ▸ hfit hne
    have h1 : Slot i 1 (i.maxaddr - 2 * ARG_BLOCK + 8) := by
      have := hslot.add (m := 1) (by omega) (q := i.maxaddr - 2 * ARG_BLOCK + 8) rfl
      rwa [Nat.zero_add] at this
    refine Respects.bind outOf_composes (stackStore_outOf hpg hslot _) (fun _ =>
      Respects.bind outOf_composes (stackPointers_outOf hpg h1 (by omega)) fun done => ?_) _
    cases done with
    | false => exact respects_pure outOf_composes _
    | true => exact stackTail_outOf hpg hslot hargc

end

/-! ## Images -/

/-- A run in the window, if the segments were copied into their pages. -/
def Copying (i : LFIAddrSpaceInfo) (ok : L.Table → Prop) (as : LFIAddrSpace L) (l : List Ev)
    (as' : LFIAddrSpace L) : Prop := CopiesInside l → OutOf i ok as l as'

/-- If the copies of both runs are in their pages, those of the first are. -/
lemma copying_composes : Composes (Copying i ok) where
  nil as _ := outOf_composes.nil as
  append h h' hl := outOf_composes.append
    (h fun lo hi dst n hev => hl lo hi dst n (List.mem_append_left _ hev))
    (h' fun lo hi dst n hev => hl lo hi dst n (List.mem_append_right _ hev))

/-- A run that stays in the window whatever was copied. -/
lemma OutOf.copying {α : Type} {x : Vm L α} (h : Respects (OutOf i ok) x) : Respects (Copying i ok) x :=
  fun as _ => h as

variable (hP : i.Paged H.pagesize) (hL : L.Confines i ok)
include hP hL

omit hP hL in
/-- The copy of a segment into pages of the window, if it stays in them. -/
lemma segcopy_copying {α : Type} {lo hi dst n offset : Word} {buf : Buf} {f : Unit → Vm L α}
    (hlo : i.minaddr.toNat ≤ lo.toNat) (hhi : hi.toNat ≤ i.maxaddr.toNat)
    (hf : Respects (Copying i ok) (f ())) :
    Respects (Copying i ok) (Exec.tell (.segcopy lo hi dst n) >>= fun _ => memcpy dst n buf offset >>= f) := by
  intro as hl
  rw [bind_run, tell_run, andThen_ok, bind_run, memcpy, mk_run] at hl ⊢
  have hcopy : CopyInside lo hi dst n := hl _ _ _ _ (List.mem_cons_self ..)
  split at hl
  case isFalse hc =>
    rw [if_neg hc, andThen_error, List.append_nil]
    exact fun hinfo hok => ⟨hinfo, hok, fun _ _ => rfl, fun _ _ => rfl⟩
  rename_i hc
  rw [andThen_ok_nil] at hl
  rw [if_pos hc, andThen_ok_nil]
  refine outOf_composes.append (l := [.segcopy lo hi dst n]) ?_
    (hf _ fun lo hi dst n hev => hl lo hi dst n (List.mem_cons_of_mem _ hev))
  intro hinfo hok
  refine ⟨hinfo, hok, fun x hx => ?_, fun _ _ => rfl⟩
  change splice as.mem dst n (fun k => buf.data (offset + k)) x = as.mem x
  by_contra hne
  rcases hcopy with h0 | ⟨hle, hge⟩
  · refine hne (splice_of_not_lt fun hlt => ?_)
    rw [h0] at hlt
    exact Nat.not_lt_zero _ hlt
  · exact hx (splice_within (by omega) (by omega) hne)

/-- One segment, from a range that does not wrap. -/
lemma bufreadelfseg_copying {start stop : Word} (offset p_offset filesz : Word) (prot : CInt) (buf : Buf)
    (hle : start.toNat ≤ stop.toNat) :
    Respects (Copying i ok) (bufreadelfseg H start offset stop p_offset filesz prot buf : Vm L Bool) := by
  have hsize : start.toNat + (stop - start).toNat = stop.toNat := by
    rw [BitVec.toNat_sub_of_le hle]
    omega
  have hnw : start.toNat + (stop - start).toNat < 2 ^ 64 := by
    rw [hsize]
    exact stop.isLt
  intro as
  by_cases hi : as.info = i
  case neg => exact fun _ hi' => absurd hi' hi
  refine RespectsAt.bind copying_composes (OutOf.copying (lfiAsMapat_outOf hP hL hnw _ _) as) fun p hp => ?_
  refine RespectsAt.ite (fun _ => respects_pure copying_composes _ _) fun hne => ?_
  have hs : i.Spans start (stop - start) := by
    have hinv := lfiAsMapat_inv (H := H) start (stop - start) (LFI_PROT_READ ||| LFI_PROT_WRITE) none as
    generalize (lfiAsMapat H start (stop - start) _ none).run as = r at hinv hp
    cases hinv with
    | guard _ => cases hp
    | full _ _ => exact absurd (Except.ok.inj hp).symm hne
    | stop _ _ _ => cases hp
    | fail _ _ _ _ => exact absurd (Except.ok.inj hp).symm hne
    | ok hg _ _ _ => exact hi ▸ hg.spans hnw
  refine segcopy_copying hs.1 (by rw [← hsize]; exact hs.2) ?_ _
  refine Respects.ite (respects_pure copying_composes _) (Respects.bind copying_composes ?_ fun _ => ?_)
  · exact OutOf.copying (lfiAsMprotect_outOf hP hnw _)
  · exact Respects.ite (respects_pure copying_composes _) (respects_pure copying_composes _)

/-- One iteration of the loop of `load`, from a load base below the top of memory. -/
lemma loadSeg_copying {buf : Buf} {pagesize elfbase : Word} {st : LoadState} (p : ProgHeader)
    (hb : st.base.toNat + 2 ^ 31 < 2 ^ 64) :
    Respects (Copying i ok) (loadSeg H buf pagesize elfbase st p : Vm L (Option LoadState)) := by
  refine Respects.bind copying_composes (respects_get copying_composes) fun as => ?_
  cases hplan : segPlan as.info buf.ehdr.type st.base pagesize p with
  | skip => exact respects_pure copying_composes _
  | refuse => exact respects_pure copying_composes _
  | map s =>
    have pl := segPlan_map.mp hplan
    have hlt := pl.lt
    have hstop := pl.stop_lt
    simp only [CODEMAX] at hstop
    refine Respects.bind copying_composes (bufreadelfseg_copying hP hL _ _ _ _ _ (by bv_omega)) fun done => ?_
    exact Respects.ite (respects_pure copying_composes _) (respects_pure copying_composes _)

/-- The segments of an image, by induction. -/
lemma loadSegs_copying {buf : Buf} {pagesize elfbase : Word} {st : LoadState} (ps : List ProgHeader)
    (hb : st.base.toNat + 2 ^ 31 < 2 ^ 64) :
    Respects (Copying i ok) (loadSegs H buf pagesize elfbase st ps : Vm L (Option LoadState)) := by
  induction ps generalizing st with
  | nil => exact respects_pure copying_composes _
  | cons p ps ih =>
    intro as
    refine RespectsAt.bind copying_composes (loadSeg_copying hP hL p hb as) fun o ho => ?_
    cases o with
    | none => exact respects_pure copying_composes _ _
    | some st1 =>
      refine ih ?_ _
      obtain ⟨_, rfl, _⟩ | ⟨s, pl, _, _, rfl⟩ := loadSeg_some ho
      · exact hb
      · have hstart := pl.start_lt
        simp only [CODEMAX] at hstart
        simp only [LoadState.next]
        split
        · rename_i h0
          rw [h0]
          bv_omega
        · exact hb

/-- `load`, from a load base below the top of memory. -/
lemma load_copying (buf : Buf) {base pagesize : Word} (hb : base.toNat + 2 ^ 31 < 2 ^ 64) :
    Respects (Copying i ok) (load H buf base pagesize : Vm L (Option LoadOut)) := by
  refine Respects.bind copying_composes (respects_get copying_composes) fun as => ?_
  refine Respects.ite (respects_pure copying_composes _) (Respects.ite (respects_pure copying_composes _)
    (Respects.ite (respects_pure copying_composes _) ?_))
  refine Respects.bind copying_composes (respects_check copying_composes _ _) fun _ =>
    Respects.bind copying_composes (respects_check copying_composes _ _) fun _ => ?_
  refine Respects.ite (respects_pure copying_composes _) (Respects.ite (respects_pure copying_composes _) ?_)
  refine Respects.bind copying_composes (loadSegs_copying hP hL _ hb) fun o => ?_
  cases o with
  | none => exact respects_pure copying_composes _
  | some st => exact respects_pure copying_composes _

omit hP hL in
/-- The end of an image that was loaded from above the bottom of memory, or from `0`. -/
lemma load_last_le {buf : Buf} {base pagesize : Word} {out : LoadOut} {as : LFIAddrSpace L}
    (hpg : as.info.pagesize.toNat ≤ 2 ^ 20) (hb : base.toNat + 2 ^ 31 < 2 ^ 64)
    (h : ((load H buf base pagesize).run as).val = .ok (some out)) :
    out.last.toNat ≤ base.toNat + 2 ^ 30 := by
  by_cases h0 : base = 0
  · subst h0
    rw [load_at_zero hpg h]
    exact Nat.zero_le _
  · exact (load_bounds hb h0 h).2.1

variable (hpg : i.pagesize.toNat ≤ 2 ^ 20)
include hpg

/-- `lfi_proc_loadelf`, with a stack that is not larger than the window. -/
lemma lfiProcLoadelf_copying (prog : Buf) (interp : Option Buf) {opts : LFILoadOpts}
    (hstk : opts.stacksize ≤ i.maxaddr) :
    Respects (Copying i ok) (lfiProcLoadelf H prog interp opts : Vm L (Option LFILoadInfo)) := by
  have hmin := i.minaddr_toNat (by omega)
  have htop := i.base_top
  have hbase := i.base_aligned
  have hstack : (i.maxaddr - opts.stacksize).toNat + opts.stacksize.toNat < 2 ^ 64 := by
    have := i.maxaddr.isLt
    rw [BitVec.toNat_sub_of_le hstk]
    rw [BitVec.le_def] at hstk
    omega
  intro as
  by_cases hi : as.info = i
  case neg => exact fun _ hi' => absurd hi' hi
  refine respectsAt_get (R := Copying i ok) ?_
  rw [hi]
  refine RespectsAt.bind copying_composes (OutOf.copying (lfiAsMapat_outOf hP hL hstack _ _) as) fun stack _ => ?_
  refine RespectsAt.ite (fun _ => respects_pure copying_composes _ _) fun _ => ?_
  have hinfo : ((lfiAsMapat H (i.maxaddr - opts.stacksize) opts.stacksize
      (LFI_PROT_READ ||| LFI_PROT_WRITE) none).run as).st.info = i :=
    (keeps_lfiAsMapat _ _ _ as).trans hi
  generalize ((lfiAsMapat H (i.maxaddr - opts.stacksize) opts.stacksize
      (LFI_PROT_READ ||| LFI_PROT_WRITE) none).run as).st = as1 at hinfo ⊢
  refine RespectsAt.bind copying_composes (load_copying hP hL prog (by omega) as1) fun o ho => ?_
  cases o with
  | none => exact respects_pure copying_composes _ _
  | some p =>
    have hlast := load_last_le (by rw [hinfo]; exact hpg) (by omega) ho
    refine Respects.bind copying_composes ?_ (fun r => ?_) _
    · cases interp with
      | none => exact respects_pure copying_composes _
      | some ib =>
        refine Respects.bind copying_composes (load_copying hP hL ib (by omega)) fun o => ?_
        cases o with
        | none => exact respects_pure copying_composes _
        | some o => exact respects_pure copying_composes _
    · cases r with
      | none => exact respects_pure copying_composes _
      | some r =>
        refine Respects.ite (respects_pure copying_composes _) ?_
        exact Respects.bind copying_composes (respects_check copying_composes _ _) fun _ =>
          respects_pure copying_composes _

omit hP hL in
/-- The end of the images of a process. -/
lemma lfiProcLoadelf_lastva {prog : Buf} {interp : Option Buf} {opts : LFILoadOpts} {info : LFILoadInfo}
    {as : LFIAddrSpace L} (hi : as.info = i)
    (h : ((lfiProcLoadelf H prog interp opts).run as).val = .ok (some info)) :
    info.stack + info.stacksize = i.maxaddr ∧ info.lastva.toNat ≤ i.minaddr.toNat + 2 ^ 31 := by
  obtain ⟨p, r, le, rfl⟩ := lfiProcLoadelf_some h
  refine ⟨?_, ?_⟩
  · rw [hi]
    exact BitVec.sub_add_cancel _ _
  have hmin := i.minaddr_toNat (by omega)
  have hbtop := i.base_top
  have hbase := i.base_aligned
  have hstk : (stackRun H opts as).st.info = i := le.info.trans hi
  have hprog : (progRun H opts prog as).st.info = i :=
    (keeps_load prog as.info.minaddr opts.pagesize _).trans hstk
  have hlast := load_last_le (by rw [hstk]; exact hpg) (by rw [hi]; omega) le.prog_ok
  rw [hi] at hlast
  cases interp with
  | none =>
    obtain rfl := le.no_interp rfl
    simp only [loadInfo, Option.map_none, Option.getD_none]
    omega
  | some ib =>
    obtain ⟨o, rfl, ho⟩ := le.interp_ok ib rfl
    have := load_last_le (by rw [hprog]; exact hpg) (by omega) ho
    simp only [loadInfo, Option.map_some, Option.getD_some]
    omega

/-- Setting up a process. -/
lemma procsetup_copying {M : Machine} (opts : TuxOptions) (prog : Buf) (interp : Option Buf)
    (argv : List (List Byte)) :
    Respects (fun (p : TuxThread L M) l p' => Copying i ok p.as l p'.as)
      (procsetup H opts prog interp argv : Setup L M Bool) := by
  have hcomp : Composes fun (p : TuxThread L M) l p' => Copying i ok p.as l p'.as :=
    ⟨fun p => copying_composes.nil p.as, fun h h' => copying_composes.append h h'⟩
  have hon : ∀ {α : Type} {x : Vm L α} {p : TuxThread L M}, RespectsAt (Copying i ok) x p.as →
      RespectsAt (fun (p : TuxThread L M) l p' => Copying i ok p.as l p'.as) (onAs x) p := by
    intro α x p hx
    rw [RespectsAt, onAs_run]
    exact hx
  have hmin := i.minaddr_toNat (by omega)
  have hmax := i.maxaddr_toNat
  have hbase := i.base_aligned
  have htop := i.base_top
  have hstk : opts.load.stacksize ≤ i.maxaddr := by
    rw [BitVec.le_def, hmax]
    have hsize : STACKSIZE.toNat = 2 ^ 21 := rfl
    have hload : opts.load.stacksize = STACKSIZE := rfl
    rw [hload]
    omega
  have hbrk : TUX_BRKMAXSIZE.toNat = 2 ^ 29 := rfl
  intro p
  by_cases hi : p.as.info = i
  case neg => exact fun _ hi' => absurd hi' hi
  refine RespectsAt.bind hcomp (hon (lfiProcLoadelf_copying hP hL hpg prog interp hstk p.as)) fun o ho => ?_
  cases o with
  | none => exact respects_pure hcomp _ _
  | some info =>
    obtain ⟨as1, out, he, -⟩ := onAs_ok ho
    obtain ⟨htop, hlast⟩ := lfiProcLoadelf_lastva hpg hi (congrArg Res.val he)
    refine RespectsAt.bind hcomp (hon (OutOf.copying (stacksetup_outOf hpg _ _ htop) _)) fun o _ => ?_
    cases o with
    | none => exact respects_pure hcomp _ _
    | some sp =>
      refine Respects.bind hcomp (respects_modify fun p => copying_composes.nil p.as) (fun _ => ?_) _
      refine Respects.bind hcomp (fun p => hon ?_) fun _ => Respects.ite (respects_pure hcomp _) (respects_pure hcomp _)
      exact OutOf.copying (lfiAsMapat_outOf hP hL (by omega) _ _) p.as

/-! ## Images whose headers fit -/

/-- Every header of the image, if `load` gets to them, copies no further than its pages. -/
def Elf.Buf.Fits (buf : Buf) : Prop :=
  bufread buf FileHeader.bytes 0 = FileHeader.bytes → bufread buf buf.phbytes buf.ehdr.phoff = buf.phbytes →
    ∀ p ∈ buf.phdrs, CopyFits buf p

instance (buf : Buf) (p : ProgHeader) : Decidable (CopyFits buf p) := inferInstanceAs (Decidable (_ ∨ _))

instance (buf : Buf) : Decidable buf.Fits := inferInstanceAs (Decidable (_ → _ → ∀ _ ∈ _, _))

/-- The copies of a run stay in their pages. -/
def Copied (i : LFIAddrSpaceInfo) (as : LFIAddrSpace L) (l : List Ev) (as' : LFIAddrSpace L) : Prop :=
  as.info = i → as'.info = i ∧ CopiesInside l

omit hP hL hpg

/-- Copies of two runs are copies of the first or of the second. -/
lemma copied_composes : Composes (Copied (L := L) i) where
  nil as hi := ⟨hi, fun _ _ _ _ hev => absurd hev (List.not_mem_nil)⟩
  append h h' hi := by
    obtain ⟨hi1, hl⟩ := h hi
    obtain ⟨hi2, hl'⟩ := h' hi1
    refine ⟨hi2, fun lo hi dst n hev => ?_⟩
    rcases List.mem_append.mp hev with hev | hev
    · exact hl _ _ _ _ hev
    · exact hl' _ _ _ _ hev

/-- A mapping copies nothing. -/
lemma lfiAsMapat_copied (addr size : Word) (prot : CInt) :
    Respects (Copied i) (lfiAsMapat H addr size prot none : Vm L Word) := by
  intro as hi
  refine ⟨(keeps_lfiAsMapat addr size prot as).trans hi, fun lo hi' dst n hev => ?_⟩
  have hinv := lfiAsMapat_inv (H := H) addr size prot none as
  generalize (lfiAsMapat H addr size prot none).run as = r at hinv hev
  cases hinv with
  | guard _ => simp at hev
  | full _ _ => simp at hev
  | stop _ _ _ => simp at hev
  | fail _ _ _ _ => simp at hev
  | ok _ _ _ _ => simp at hev

section
variable {pagesize : Word} {k : Nat} (hk : pagesize.toNat = 2 ^ k) (hpage : i.pagesize = pagesize)
include hk hpage

/-- `load` copies into the pages of the segments of an image that fits. -/
lemma load_copied {buf : Buf} (hbuf : buf.Fits) (base : Word) :
    Respects (Copied i) (load H buf base pagesize : Vm L (Option LoadOut)) := by
  refine Respects.bind copied_composes (respects_get copied_composes) fun as as0 => ?_
  refine RespectsAt.ite (fun _ => respects_pure copied_composes _ _) fun hhead =>
    RespectsAt.ite (fun _ => respects_pure copied_composes _ _) fun hck =>
      RespectsAt.ite (fun _ => respects_pure copied_composes _ _) fun _ => ?_
  refine Respects.bind copied_composes (respects_check copied_composes _ _) (fun _ =>
    Respects.bind copied_composes (respects_check copied_composes _ _) fun _ => ?_) as0
  refine fun as1 => RespectsAt.ite (fun _ => respects_pure copied_composes _ as1) fun htable =>
    RespectsAt.ite (fun _ => respects_pure copied_composes _ as1) fun _ => ?_
  refine Respects.bind copied_composes (fun as hi => ?_) (fun o => ?_) as1
  · refine ⟨(keeps_loadSegs _ _ _ _ _ as).trans hi, ?_⟩
    have hty : buf.ehdr.type = ET_DYN ∨ buf.ehdr.type = ET_EXEC := by
      have hck := not_not.mp hck
      simp only [elfcheck, decide_eq_true_eq] at hck
      exact hck.2.2.2
    exact loadSegs_copies hty hk (by rw [hi, hpage]) fun n p h =>
      hbuf (not_not.mp hhead) (not_not.mp htable) p (List.mem_of_getElem? h.1)
  · cases o with
    | none => exact respects_pure copied_composes _
    | some st => exact respects_pure copied_composes _

/-- So does `lfi_proc_loadelf` for both its images, -/
lemma lfiProcLoadelf_copied {prog : Buf} {interp : Option Buf} {opts : LFILoadOpts}
    (hopts : opts.pagesize = pagesize) (hprog : prog.Fits) (hinterp : ∀ ib, interp = some ib → ib.Fits) :
    Respects (Copied i) (lfiProcLoadelf H prog interp opts : Vm L (Option LFILoadInfo)) := by
  subst hopts
  refine Respects.bind copied_composes (respects_get copied_composes) fun as => ?_
  refine Respects.bind copied_composes (lfiAsMapat_copied _ _ _) fun stack => ?_
  refine Respects.ite (respects_pure copied_composes _) ?_
  refine Respects.bind copied_composes (load_copied hk hpage hprog _) fun o => ?_
  cases o with
  | none => exact respects_pure copied_composes _
  | some p =>
    refine Respects.bind copied_composes ?_ fun r => ?_
    · cases interp with
      | none => exact respects_pure copied_composes _
      | some ib =>
        refine Respects.bind copied_composes (load_copied hk hpage (hinterp ib rfl) _) fun o => ?_
        cases o with
        | none => exact respects_pure copied_composes _
        | some o => exact respects_pure copied_composes _
    · cases r with
      | none => exact respects_pure copied_composes _
      | some r =>
        refine Respects.ite (respects_pure copied_composes _) ?_
        exact Respects.bind copied_composes (respects_check copied_composes _ _) fun _ =>
          respects_pure copied_composes _

/-- and with it `procsetup`. -/
lemma procsetup_copied {M : Machine} {opts : TuxOptions} {prog : Buf} {interp : Option Buf}
    (argv : List (List Byte)) (hopts : opts.pagesize = pagesize) (hprog : prog.Fits)
    (hinterp : ∀ ib, interp = some ib → ib.Fits) :
    Respects (fun (p : TuxThread L M) l p' => Copied i p.as l p'.as)
      (procsetup H opts prog interp argv : Setup L M Bool) := by
  have hcomp : Composes fun (p : TuxThread L M) l p' => Copied i p.as l p'.as :=
    ⟨fun p => copied_composes.nil p.as, fun h h' => copied_composes.append h h'⟩
  have hon : ∀ {α : Type} {x : Vm L α}, Respects (Copied i) x →
      Respects (fun (p : TuxThread L M) l p' => Copied i p.as l p'.as) (onAs x) :=
    fun hx => hx.zoom fun h => h
  refine Respects.bind hcomp (hon (lfiProcLoadelf_copied hk hpage hopts hprog hinterp)) fun o => ?_
  cases o with
  | none => exact respects_pure hcomp _
  | some info =>
    refine Respects.bind hcomp (hon fun as hi => ?_) fun o => ?_
    · obtain ⟨hout, hinfo⟩ := quiet_stacksetup opts.pagesize argv info as
      rw [hout]
      exact ⟨hinfo.trans hi, fun _ _ _ _ hev => absurd hev List.not_mem_nil⟩
    cases o with
    | none => exact respects_pure hcomp _
    | some sp =>
      refine Respects.bind hcomp (respects_modify fun p => copied_composes.nil p.as) fun _ => ?_
      exact Respects.bind hcomp (hon (lfiAsMapat_copied _ _ _)) fun _ =>
        Respects.ite (respects_pure hcomp _) (respects_pure hcomp _)

/-- The setup of a process from images whose headers fit stays in its window, however it ends. -/
lemma procsetup_inward {M : Machine} {opts : TuxOptions} {prog : Buf} {interp : Option Buf}
    (argv : List (List Byte)) (hL : L.Confines i ok) (hP : i.Paged H.pagesize)
    (hpg : i.pagesize.toNat ≤ 2 ^ 20) (hopts : opts.pagesize = pagesize) (hprog : prog.Fits)
    (hinterp : ∀ ib, interp = some ib → ib.Fits) {p : TuxThread L M} (hi : p.as.info = i)
    (hok : ok p.as.mm) : Inward i ok p.as ((procsetup H opts prog interp argv).run p).st.as :=
  procsetup_copying hP hL hpg opts prog interp argv p
    (procsetup_copied hk hpage argv hopts hprog hinterp p hi).2 hi hok

end

end Libtux
