import Libtux.Proc.Refuse

/-!
# Which programs are refused

`procsetup` returns, on every host and from every address space, exactly for the inputs that are not
`Fatal`. That the others do stop it is shown on a host that grants everything.
-/

namespace Libtux
open Lib Elf

variable {L : LibMMap} {M : Machine} {H : HostVm}

namespace Elf

/-- On a host that grants everything the stack is mapped. -/
lemma stackRun_granted {g : Bool} {ds : Option (List Piece)} (opts : LFILoadOpts) {as : LFIAddrSpace .ofRanges}
    (hpg : as.info.pagesize.toNat ≤ 2 ^ 20) (hs : opts.stacksize = STACKSIZE) (hsh : Shows ds as) :
    as.info.maxaddr - STACKSIZE ≠ mapFailed ∧
      (stackRun (granting g) opts as).val = .ok (as.info.maxaddr - STACKSIZE) ∧
      Shows (stacked as.info ds) (stackRun (granting g) opts as).st := by
  have hmin := as.info.minaddr_toNat (by omega)
  have hmax := as.info.maxaddr_toNat
  have hbase := as.info.base_top
  have hsize : STACKSIZE.toNat = 2 ^ 21 := rfl
  have hsub : (as.info.maxaddr - STACKSIZE).toNat = as.info.maxaddr.toNat - 2 ^ 21 :=
    BitVec.toNat_sub_of_le (by rw [BitVec.le_def]; omega)
  have htop : (as.info.maxaddr - STACKSIZE).toNat + STACKSIZE.toNat < 2 ^ 64 := by
    rw [hsub]
    omega
  obtain ⟨as1, hf, hr⟩ := lfiAsMapat_granted (g := g) (LFI_PROT_READ ||| LFI_PROT_WRITE)
    (inGuard_stack hpg) htop
  refine ⟨(inGuard_stack hpg).ne_mapFailed htop, ?_, ?_⟩
  · rw [stackRun, hs, hr]
  · rw [stackRun, hs, hr]
    exact hsh.fresh hf

/-- On a host that grants everything a program that is accepted is loaded. -/
lemma progRun_granted {g : Bool} {ds ds' : Option (List Piece)} (opts : LFILoadOpts)
    {as : LFIAddrSpace .ofRanges} {prog : Buf} {st : LoadState} (hpg : as.info.pagesize.toNat ≤ 2 ^ 20)
    (hs : opts.stacksize = STACKSIZE) (hsh : Shows ds as) (hg : ds.isSome = g)
    (he : prog.Ends as.info opts.pagesize as.info.minaddr (stacked as.info ds) st ds') :
    ∃ p, (progRun (granting g) opts prog as).val = .ok (some p) ∧ p.last = st.last ∧
      Shows ds' (progRun (granting g) opts prog as).st := by
  have hinfo := stackRun_info (H := granting g) opts as
  obtain ⟨-, -, hsh1⟩ := stackRun_granted (g := g) opts hpg hs hsh
  have he1 : prog.Ends (stackRun (granting g) opts as).st.info opts.pagesize as.info.minaddr
      (stacked as.info ds) st ds' := by
    rw [hinfo]
    exact he
  rw [progRun]
  exact load_ends hsh1 ((push_isSome ..).trans hg) he1

/-- On a host that grants everything, `lfi_proc_loadelf` comes to the interpreter. -/
lemma lfiProcLoadelf_granted {opts : LFILoadOpts} {prog : Buf} (interp : Option Buf) {p : LoadOut}
    {as : LFIAddrSpace .ofRanges} (hpg : as.info.pagesize.toNat ≤ 2 ^ 20) (hs : opts.stacksize = STACKSIZE)
    (hperf : opts.perf = none) (hsh : Shows (some []) as) (wf : Wellformed prog)
    (h : (progRun (granting true) opts prog as).val = .ok (some p)) :
    ∃ stack, ((lfiProcLoadelf (granting true) prog interp opts).run as).val =
      ((loadInterp (granting true) interp p.last opts.pagesize >>= fun o =>
        match o with
        | none => pure none
        | some i => pure (some (loadInfo prog stack opts.stacksize p i))).run
          (progRun (granting true) opts prog as).st).val := by
  obtain ⟨hne, hstack, -⟩ := stackRun_granted (g := true) opts hpg hs hsh
  rw [stackRun] at hstack
  have hprog : ((load (granting true) prog as.info.minaddr opts.pagesize).run
      ((lfiAsMapat (granting true) (as.info.maxaddr - opts.stacksize) opts.stacksize
        (LFI_PROT_READ ||| LFI_PROT_WRITE) none).run as).st).val = .ok (some p) := h
  refine ⟨as.info.maxaddr - STACKSIZE, ?_⟩
  rw [lfiProcLoadelf, Exec.bind_run, Exec.get_run, Exec.andThen_ok_nil, Exec.bind_run, Res.eq_mk hstack,
    Exec.andThen_ok_val, if_neg hne, Exec.bind_run, Res.eq_mk hprog, Exec.andThen_ok_val]
  dsimp only
  rw [Exec.bind_run, Exec.bind_run, progRun, stackRun]
  generalize (loadInterp (granting true) interp p.last opts.pagesize).run _ = r
  obtain ⟨v, st, l⟩ := r
  cases v with
  | error e => rw [Exec.andThen_error, Exec.andThen_error]
  | ok o =>
    rw [Exec.andThen_ok_val, Exec.andThen_ok_val]
    cases o with
    | none => rfl
    | some i =>
      dsimp only
      rw [hperf, if_neg (by decide), Exec.bind_run, Exec.check_run, if_pos wf.header, Exec.andThen_ok_val]

/-- Images that are accepted are loaded. -/
lemma ImagesEnd.loaded (opts : LFILoadOpts) {prog : Buf} {interp : Option Buf} {last : Word}
    {as : LFIAddrSpace .ofRanges} (hpg : as.info.pagesize.toNat ≤ 2 ^ 20) (hs : opts.stacksize = STACKSIZE)
    (hperf : opts.perf = none) (hsh : Shows (some []) as)
    (h : ImagesEnd as.info opts.pagesize prog interp last) :
    ∃ info, ((lfiProcLoadelf (granting true) prog interp opts).run as).val = .ok (some info) ∧
      info.lastva = last := by
  have hinfo := progRun_info (H := granting true) opts prog as
  cases h with
  | alone he =>
    obtain ⟨p, hv, hl, -⟩ := progRun_granted (g := true) opts hpg hs hsh rfl he
    obtain ⟨stack, h⟩ := lfiProcLoadelf_granted none hpg hs hperf hsh he.1 hv
    refine ⟨loadInfo prog stack opts.stacksize p none, ?_, hl⟩
    rw [h, loadInterp, Exec.bind_run, Exec.pure_run, Exec.andThen_ok_val, Exec.pure_run]
  | @both ib _ _ ds _ he hi =>
    obtain ⟨p, hv, hl, hsh2⟩ := progRun_granted (g := true) opts hpg hs hsh rfl he
    obtain ⟨stack, h⟩ := lfiProcLoadelf_granted (some ib) hpg hs hperf hsh he.1 hv
    generalize (progRun (granting true) opts prog as).st = as2 at hinfo h hsh2
    rw [← hinfo, ← hl] at hi
    obtain ⟨o, ho, hol, -⟩ := load_ends (g := true) hsh2 (he.isSome rfl) hi
    have hv : ((loadInterp (granting true) (some ib) p.last opts.pagesize).run as2).val =
        .ok (some (some o)) := by
      rw [loadInterp, Exec.bind_run, Res.eq_mk ho, Exec.andThen_ok_val, Exec.pure_run]
    refine ⟨loadInfo prog stack opts.stacksize p (some o), ?_, hol⟩
    rw [h, Exec.bind_run, Res.eq_mk hv, Exec.andThen_ok_val, Exec.pure_run]

/-- Images that stop the process stop the load. -/
lemma ImagesStop.stops (opts : LFILoadOpts) {prog : Buf} {interp : Option Buf} {as : LFIAddrSpace .ofRanges}
    (hpg : as.info.pagesize.toNat ≤ 2 ^ 20) (hs : opts.stacksize = STACKSIZE) (hperf : opts.perf = none)
    (hsh : Shows (some []) as) (h : ImagesStop as.info opts.pagesize prog interp) :
    ∃ e, e ≠ .assertion .cbunmap ∧ ((lfiProcLoadelf (granting true) prog interp opts).run as).val = .error e := by
  cases h with
  | prog h =>
    have hinfo := stackRun_info (H := granting true) opts as
    obtain ⟨hne, hstack, hsh1⟩ := stackRun_granted (g := true) opts hpg hs hsh
    have h1 : prog.Stops (stackRun (granting true) opts as).st.info opts.pagesize as.info.minaddr
        (stacked as.info (some [])) := by
      rw [hinfo]
      exact h
    obtain ⟨e, he, hv⟩ := load_stops (g := true) hsh1 ((push_isSome ..).trans rfl) h1
    refine ⟨e, he, ?_⟩
    rw [stackRun] at hstack hv
    rw [lfiProcLoadelf, Exec.bind_run, Exec.get_run, Exec.andThen_ok_nil, Exec.bind_run, Res.eq_mk hstack,
      Exec.andThen_ok_val, if_neg hne, Exec.bind_run, Res.eq_mk hv, Exec.andThen_error]
  | @interp ib _ ds he hstop =>
    have hinfo := progRun_info (H := granting true) opts prog as
    obtain ⟨p, hv, hl, hsh2⟩ := progRun_granted (g := true) opts hpg hs hsh rfl he
    obtain ⟨stack, h⟩ := lfiProcLoadelf_granted (some ib) hpg hs hperf hsh he.1 hv
    generalize (progRun (granting true) opts prog as).st = as2 at hinfo h hsh2
    rw [← hinfo, ← hl] at hstop
    obtain ⟨e, hne, hv⟩ := load_stops (g := true) hsh2 (he.isSome rfl) hstop
    refine ⟨e, hne, ?_⟩
    rw [h, loadInterp, Exec.bind_run, Exec.bind_run, Res.eq_mk hv, Exec.andThen_error, Exec.andThen_error]

end Elf

/-- A fatal input does not let the granting host answer. -/
lemma Fatal.stops {i : LFIAddrSpaceInfo} {pagesize : Word} {prog : Buf} {interp : Option Buf}
    {argv : List (List Byte)} (hpg : i.pagesize.toNat ≤ 2 ^ 20) (hz : ∀ s ∈ argv, ∀ b ∈ s, b ≠ 0)
    (hf : Fatal i pagesize prog interp argv) (tid : CInt) :
    ¬ Answers ((procsetup (M := M) (granting true) ⟨pagesize, none, false⟩ prog interp argv).run
      (procnewfile (.fresh i) tid)) := by
  let opts : TuxOptions := ⟨pagesize, none, false⟩
  obtain hf | ⟨last, he, hs⟩ := hf
  · obtain ⟨e, hne, hv⟩ := ImagesStop.stops opts.load hpg rfl rfl (shows_fresh i) hf
    exact not_answers_bind _ ((onAs_val _ _).trans hv) hne
  · obtain ⟨info, h, rfl⟩ := ImagesEnd.loaded opts.load hpg rfl rfl (shows_fresh i) he
    obtain ⟨htop, hlast⟩ := lfiProcLoadelf_end hpg h
    rw [procsetup_answers_iff (procnewfile (.fresh i) tid) hpg hz h htop hlast]
    exact not_not.mpr hs

/-- `procsetup` returns, whatever the host and libmmap answer, exactly for the inputs that are not
fatal. -/
theorem procsetup_answers {i : LFIAddrSpaceInfo} {pagesize : Word} {prog : Buf} {interp : Option Buf}
    {argv : List (List Byte)} (hpg : i.pagesize.toNat ≤ 2 ^ 20) (hz : ∀ s ∈ argv, ∀ b ∈ s, b ≠ 0) :
    (∀ (L : LibMMap) (H : HostVm) (as : LFIAddrSpace L) (opts : TuxOptions) (tid : CInt),
      as.info = i → opts.pagesize = pagesize → H.Divides pagesize →
      Answers ((procsetup (M := M) H opts prog interp argv).run (procnewfile as tid))) ↔
    ¬ Fatal i pagesize prog interp argv := by
  constructor
  · intro h hf
    exact hf.stops hpg hz 0 (h _ _ _ _ _ rfl rfl ⟨0, rfl, one_dvd _⟩)
  · rintro hf L H as opts tid rfl rfl hd
    have hn : ¬ ImagesStop as.info opts.load.pagesize prog interp := fun hstop => hf (.inl hstop)
    have ha : Answers ((elfload H opts prog interp).run as) := lfiProcLoadelf_answers hpg rfl hd hn
    cases hv : ((elfload H opts prog interp).run as).val with
    | error e =>
      refine answers_bind (answers_onAs ha) fun o ho => ?_
      rw [onAs_val] at ho
      exact absurd (hv.symm.trans ho) (by simp)
    | ok o =>
      cases o with
      | none =>
        rw [procsetup, answers_bind_ok _ ((onAs_val _ _).trans hv)]
        exact answers_pure _ _
      | some info =>
        obtain ⟨htop, hlast⟩ := lfiProcLoadelf_end hpg hv
        refine (procsetup_answers_iff (procnewfile as tid) hpg hz hv htop hlast).mpr fun hs => hf ?_
        exact .inr ⟨info.lastva, lfiProcLoadelf_course rfl hd hn hv, hs⟩

/-- `textImage` is mapped in one page. -/
lemma textImage_course : course .plain 4096 textImage
    (elfBase .plain textImage.ehdr.type LFIAddrSpaceInfo.plain.minaddr) ⟨LFIAddrSpaceInfo.plain.minaddr, 0, 0⟩
    (stacked .plain (some [])) textImage.phdrs =
    .ends ⟨LFIAddrSpaceInfo.plain.minaddr, LFIAddrSpaceInfo.plain.minaddr, LFIAddrSpaceInfo.plain.minaddr + 4096⟩
      (push LFIAddrSpaceInfo.plain.minaddr 4096 5 (stacked .plain (some []))) := by
  decide +kernel

/-- `textImage` with one argument is not fatal. -/
theorem procsetup_answers_text :
    Answers ((procsetup (M := .x64) (.plain fun _ _ _ => true) .plain textImage none [[97]]).run
      (procnewfile (.fresh .plain) 10000)) := by
  have hd : (HostVm.plain fun _ _ _ => true).Divides 4096 := ⟨12, rfl, dvd_rfl⟩
  refine (procsetup_answers (by decide) (by decide)).mpr ?_ _ _ (.fresh .plain) .plain 10000 rfl rfl hd
  have wf : Wellformed textImage :=
    ⟨by decide +kernel, by decide +kernel, by decide +kernel, by decide +kernel, by decide +kernel⟩
  rintro (hstop | ⟨last, hend, hs⟩)
  · cases hstop with
    | prog h =>
      obtain ov | ⟨-, hc⟩ := h
      · exact wf.not_overruns ov
      · cases textImage_course.symm.trans hc
  · cases hend with
    | alone he =>
      cases textImage_course.symm.trans he.2
      obtain hnil | ⟨-, hover | hl⟩ := hs
      · cases hnil
      · revert hover
        decide
      · revert hl
        decide

/-- An image without segments. -/
def noSegs : Buf := .write ET_DYN 8 [] []

/-- A program without arguments fails the assertion of `lfi_as_toptr`. An image without segments fails the
range assertion of `lfi_as_mapat`: alone at the heap, and before an interpreter at the first segment of the
latter. A segment whose bytes would start behind the image stops at its copy. -/
theorem procsetup_aborts :
    ((procsetup (M := .x64) (.plain fun _ _ _ => true) .plain textImage none []).run
      (procnewfile (.fresh .plain) 10000)).val = .error (.assertion .toptr) ∧
    ((procsetup (M := .x64) (.plain fun _ _ _ => true) .plain noSegs none [[97]]).run
      (procnewfile (.fresh .plain) 10000)).val = .error (.assertion .mapatRange) ∧
    ((procsetup (M := .x64) (.plain fun _ _ _ => true) .plain noSegs (some textImage) [[97]]).run
      (procnewfile (.fresh .plain) 10000)).val = .error (.assertion .mapatRange) ∧
    ¬ Answers ((procsetup (M := .x64) (granting true) ⟨4096, none, false⟩ farImage none [[97]]).run
      (procnewfile (.fresh .plain) 10000)) := by
  refine ⟨by decide +kernel, by decide +kernel, by decide +kernel, ?_⟩
  exact Fatal.stops (by decide) (by decide) (.inl (.prog (farImage_stops _))) 10000

end Libtux
