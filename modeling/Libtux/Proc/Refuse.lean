import Libtux.Elf.Course
import Libtux.Proc.Args

/-!
# Malformed programs

Which inputs `procsetup` answers. The program is followed on paper from `minaddr` on and its interpreter from
the end of the program on, after the stack was mapped.

Three kinds of input are fatal (`Fatal`). The course of an image can stop: at a copy that overruns, or at the
first segment of an interpreter after a program that maps nothing, whose end is `0`; the heap of such a program
goes to `0` as well. Without arguments there is no string for `AT_EXECFN`. With too many the scratch array or
the stack is overrun.
-/

namespace Libtux
open Lib Elf

variable {L : LibMMap} {M : Machine} {H : HostVm}

/-! ## Loading -/

namespace Elf

/-- The load bases from which every accepted segment is inside the usable addresses. -/
def InReach (i : LFIAddrSpaceInfo) (base : Word) : Prop :=
  i.minaddr.toNat ≤ base.toNat ∧ base.toNat + 2 ^ 31 ≤ i.maxaddr.toNat

/-- What is known of a load base: it is `0`, after an image that mapped nothing, or in reach. -/
def LoadBase (i : LFIAddrSpaceInfo) (base : Word) : Prop := base = 0 ∨ InReach i base

/-- A load base in reach is not `0`. -/
lemma InReach.ne_zero {i : LFIAddrSpaceInfo} {base : Word} (hpg : i.pagesize.toNat ≤ 2 ^ 20)
    (h : InReach i base) : base ≠ 0 := by
  rintro rfl
  have hmin := i.minaddr_toNat (by omega)
  have hle : i.minaddr.toNat ≤ 0 := h.1
  omega

/-- A `load` that returned true ends at `0`, or above its load base. -/
lemma load_end {buf : Buf} {base pagesize : Word} {as : LFIAddrSpace L} {out : LoadOut}
    (hpg : as.info.pagesize.toNat ≤ 2 ^ 20) (hb : LoadBase as.info base)
    (h : ((load H buf base pagesize).run as).val = .ok (some out)) :
    out.last = 0 ∨ InReach as.info base ∧ base.toNat < out.last.toNat ∧
      out.last.toNat ≤ base.toNat + 2 ^ 30 := by
  obtain rfl | hb := hb
  · exact .inl (load_at_zero hpg h)
  · have hmax := as.info.maxaddr_toNat
    have htop := as.info.base_top
    obtain ⟨hlo, hhi⟩ := hb
    obtain ⟨hm, hle, -⟩ := load_bounds (by omega) (InReach.ne_zero hpg ⟨hlo, hhi⟩) h
    by_cases hmaps : buf.Maps
    · exact .inr ⟨⟨hlo, hhi⟩, hm hmaps, hle⟩
    · exact .inl (load_last_zero hmaps h)

/-- The program is loaded from a load base in reach. -/
lemma inReach_minaddr {i : LFIAddrSpaceInfo} (hpg : i.pagesize.toNat ≤ 2 ^ 20) : InReach i i.minaddr := by
  have hmin := i.minaddr_toNat (by omega)
  have hmax := i.maxaddr_toNat
  exact ⟨le_rfl, by omega⟩

/-- The end of the program is a load base for the interpreter. -/
lemma loadBase_last {i : LFIAddrSpaceInfo} {last : Word} (hpg : i.pagesize.toNat ≤ 2 ^ 20)
    (h : last = 0 ∨ InReach i i.minaddr ∧ i.minaddr.toNat < last.toNat ∧
      last.toNat ≤ i.minaddr.toNat + 2 ^ 30) : LoadBase i last := by
  have hmin := i.minaddr_toNat (by omega)
  have hmax := i.maxaddr_toNat
  refine h.imp_right fun ⟨_, hlo, hhi⟩ => ⟨hlo.le, ?_⟩
  omega

/-- The stack of an `lfi_proc_loadelf` that returned true ends the address space, and its images end at `0` or
with room for the heap. -/
lemma lfiProcLoadelf_end {opts : LFILoadOpts} {prog : Buf} {interp : Option Buf} {info : LFILoadInfo}
    {as : LFIAddrSpace L} (hpg : as.info.pagesize.toNat ≤ 2 ^ 20)
    (h : ((lfiProcLoadelf H prog interp opts).run as).val = .ok (some info)) :
    info.stack + info.stacksize = as.info.maxaddr ∧
      (info.lastva = 0 ∨ InGuard as.info info.lastva TUX_BRKMAXSIZE) := by
  obtain ⟨p, i, le, rfl⟩ := lfiProcLoadelf_some h
  have hmin := as.info.minaddr_toNat (by omega)
  have hmax := as.info.maxaddr_toNat
  have htop := as.info.base_top
  have hprog := le.prog_ok
  rw [progRun] at hprog
  have hinfo : (progRun H opts prog as).st.info = as.info :=
    (keeps_load prog as.info.minaddr opts.pagesize (stackRun H opts as).st).trans le.info
  have hstk : (stackRun H opts as).st.info.pagesize.toNat ≤ 2 ^ 20 := by
    rw [le.info]
    exact hpg
  have hreach : InReach (stackRun H opts as).st.info as.info.minaddr := by
    rw [le.info]
    exact inReach_minaddr hpg
  have hplast := load_end hstk (.inr hreach) hprog
  rw [le.info] at hplast
  have hbrk : ∀ x : Word, as.info.minaddr.toNat ≤ x.toNat → x.toNat ≤ as.info.minaddr.toNat + 2 ^ 31 →
      InGuard as.info x TUX_BRKMAXSIZE := by
    intro x h1 h2
    have hbs : TUX_BRKMAXSIZE.toNat = 2 ^ 29 := rfl
    refine ⟨h1, ?_⟩
    rw [BitVec.le_def, BitVec.toNat_add, Nat.mod_eq_of_lt (by omega)]
    omega
  refine ⟨BitVec.sub_add_cancel .., ?_⟩
  cases interp with
  | none =>
    rw [le.no_interp rfl]
    exact hplast.imp_right fun ⟨_, h1, h2⟩ => hbrk p.last h1.le (by omega)
  | some ib =>
    obtain ⟨o, rfl, ho⟩ := le.interp_ok ib rfl
    have hoe := load_end (hinfo ▸ hpg) (hinfo ▸ loadBase_last hpg hplast) ho
    rw [hinfo] at hoe
    refine hoe.imp_right fun ⟨hr, h1, h2⟩ => ?_
    obtain h0 | ⟨_, h3, h4⟩ := hplast
    · rw [h0] at hr
      exact absurd rfl (hr.ne_zero hpg)
    · exact hbrk o.last (by omega) (by omega)

/-! ## Both images -/

/-- The pieces after the stack was mapped. -/
def stacked (i : LFIAddrSpaceInfo) (ds : Option (List Piece)) : Option (List Piece) :=
  push (i.maxaddr - STACKSIZE) STACKSIZE (LFI_PROT_READ ||| LFI_PROT_WRITE) ds

/-- One of the images stops the process. The interpreter is loaded from the end of the program on. -/
inductive ImagesStop (i : LFIAddrSpaceInfo) (pagesize : Word) (prog : Buf) : Option Buf → Prop where
  | prog {interp : Option Buf} : prog.Stops i pagesize i.minaddr (stacked i (some [])) →
    ImagesStop i pagesize prog interp
  | interp {ib : Buf} {st : LoadState} {ds : Option (List Piece)} :
    prog.Ends i pagesize i.minaddr (stacked i (some [])) st ds → ib.Stops i pagesize st.last ds →
    ImagesStop i pagesize prog (some ib)

/-- The images are accepted, and end at `last`. -/
inductive ImagesEnd (i : LFIAddrSpaceInfo) (pagesize : Word) (prog : Buf) : Option Buf → Word → Prop where
  | alone {st : LoadState} {ds : Option (List Piece)} :
    prog.Ends i pagesize i.minaddr (stacked i (some [])) st ds → ImagesEnd i pagesize prog none st.last
  | both {ib : Buf} {st st' : LoadState} {ds ds' : Option (List Piece)} :
    prog.Ends i pagesize i.minaddr (stacked i (some [])) st ds → ib.Ends i pagesize st.last ds st' ds' →
    ImagesEnd i pagesize prog (some ib) st'.last

/-- Fresh pages are open to writes. -/
lemma Backed.fresh {addr size pagesize : Word} {ds : Option (List Piece)} {as as' : LFIAddrSpace L}
    (hb : Backed H pagesize ds as) (hf : FreshAt H addr size (LFI_PROT_READ ||| LFI_PROT_WRITE) as as') :
    Backed H pagesize (Elf.push addr size (LFI_PROT_READ ||| LFI_PROT_WRITE) ds) as' := by
  intro hds
  rw [push_isSome] at hds
  obtain ⟨hd, hopen⟩ := hb hds
  refine ⟨hd, fun x hx => ?_⟩
  rw [hf.prot]
  split
  case isTrue => decide
  rename_i hc
  rw [opens_push, if_neg fun hin => hc (hin.covers H.pagesize_pos)] at hx
  exact hopen x hx

/-- The stack leaves the address space where it is, -/
lemma stackRun_info (opts : LFILoadOpts) (as : LFIAddrSpace L) : (stackRun H opts as).st.info = as.info :=
  keeps_lfiAsMapat _ _ _ as

/-- and so does the program. -/
lemma progRun_info (opts : LFILoadOpts) (prog : Buf) (as : LFIAddrSpace L) :
    (progRun H opts prog as).st.info = as.info :=
  (keeps_load prog as.info.minaddr opts.pagesize (stackRun H opts as).st).trans (stackRun_info opts as)

/-- A stack that was mapped is open to writes. -/
lemma Backed.stack {opts : LFILoadOpts} {ds : Option (List Piece)} {as : LFIAddrSpace L} {stack : Word}
    (hs : opts.stacksize = STACKSIZE) (hb : Backed H opts.pagesize ds as)
    (hv : (stackRun H opts as).val = .ok stack) (hne : stack ≠ mapFailed) :
    Backed H opts.pagesize (stacked as.info ds) (stackRun H opts as).st := by
  rw [stackRun, hs] at hv ⊢
  obtain ⟨_, hr⟩ | ⟨_, st, _, hr | hr⟩ | ⟨_, _, _, st, hf, hr⟩ := lfiAsMapat_cases (H := H)
    (as.info.maxaddr - STACKSIZE) STACKSIZE (LFI_PROT_READ ||| LFI_PROT_WRITE) as
  · rw [hr] at hv
    cases hv
  · rw [hr] at hv
    exact absurd (Except.ok.inj hv).symm hne
  · rw [hr] at hv
    cases hv
  · rw [hr]
    exact hb.fresh hf

/-- A program that was loaded took its course. -/
lemma progRun_course {opts : LFILoadOpts} {prog : Buf} {p : LoadOut} {ds : Option (List Piece)}
    {as : LFIAddrSpace L} {stack : Word} (hs : opts.stacksize = STACKSIZE) (hb : Backed H opts.pagesize ds as)
    (hn : ds = none ∨ ¬ prog.Stops as.info opts.pagesize as.info.minaddr (stacked as.info ds))
    (hv : (stackRun H opts as).val = .ok stack) (hne : stack ≠ mapFailed)
    (h : (progRun H opts prog as).val = .ok (some p)) :
    ∃ st ds', prog.Ends as.info opts.pagesize as.info.minaddr (stacked as.info ds) st ds' ∧ p.last = st.last ∧
      Backed H opts.pagesize ds' (progRun H opts prog as).st := by
  have hinfo := stackRun_info (H := H) opts as
  have hb1 := hb.stack hs hv hne
  rw [progRun] at h ⊢
  rw [← hinfo] at hn
  have hn1 : stacked as.info ds = none ∨
      ¬ prog.Stops (stackRun H opts as).st.info opts.pagesize as.info.minaddr (stacked as.info ds) := by
    refine hn.imp (fun h => ?_) fun h => ?_
    · rw [h]
      rfl
    · rw [hinfo] at h ⊢
      exact h
  obtain ⟨st, ds', he, hl, hb2⟩ := load_course hb1 hn1 h
  rw [hinfo] at he
  exact ⟨st, ds', he, hl, hb2⟩

/-- The stack lies inside the usable addresses. -/
lemma inGuard_stack {i : LFIAddrSpaceInfo} (hpg : i.pagesize.toNat ≤ 2 ^ 20) :
    InGuard i (i.maxaddr - STACKSIZE) STACKSIZE := by
  have hmin := i.minaddr_toNat (by omega)
  have hmax := i.maxaddr_toNat
  have hbase := i.base_top
  have hs : STACKSIZE.toNat = 2 ^ 21 := rfl
  refine ⟨?_, ?_⟩
  · rw [ge_iff_le, BitVec.le_def, BitVec.toNat_sub_of_le (by rw [BitVec.le_def]; omega)]
    omega
  · rw [BitVec.sub_add_cancel]
    exact BitVec.le_refl _

/-- The stack of an `lfi_proc_loadelf` that returned true was mapped. -/
lemma lfiProcLoadelf_stack {opts : LFILoadOpts} {prog : Buf} {interp : Option Buf} {info : LFILoadInfo}
    {as : LFIAddrSpace L} (h : ((lfiProcLoadelf H prog interp opts).run as).val = .ok (some info)) :
    ∃ stack, (stackRun H opts as).val = .ok stack ∧ stack ≠ mapFailed := by
  unfold lfiProcLoadelf at h
  obtain ⟨as', has, h, -⟩ := Exec.bind_ok h
  cases has
  obtain ⟨stack, hstack, h, -⟩ := Exec.bind_ok h
  refine ⟨stack, hstack, fun hne => ?_⟩
  rw [if_pos hne] at h
  cases h

/-- Nothing is known of an address space to begin with. -/
lemma backed_nothing {pagesize : Word} (hd : H.Divides pagesize) (as : LFIAddrSpace L) :
    Backed H pagesize (some []) as := fun _ => ⟨hd, fun x hx => by simp [Opens, opens] at hx⟩

/-- Images that do not stop the process take their course. -/
lemma lfiProcLoadelf_course {opts : LFILoadOpts} {prog : Buf} {interp : Option Buf} {info : LFILoadInfo}
    {as : LFIAddrSpace L} (hs : opts.stacksize = STACKSIZE) (hd : H.Divides opts.pagesize)
    (hn : ¬ ImagesStop as.info opts.pagesize prog interp)
    (h : ((lfiProcLoadelf H prog interp opts).run as).val = .ok (some info)) :
    ImagesEnd as.info opts.pagesize prog interp info.lastva := by
  obtain ⟨stack, hv, hne⟩ := lfiProcLoadelf_stack h
  obtain ⟨p, i, le, rfl⟩ := lfiProcLoadelf_some h
  have hinfo := progRun_info (H := H) opts prog as
  obtain ⟨st, ds, he, hl, hb⟩ :=
    progRun_course hs (backed_nothing hd as) (.inr fun hstop => hn (.prog hstop)) hv hne le.prog_ok
  cases interp with
  | none =>
    rw [le.no_interp rfl]
    have hend : (loadInfo prog (as.info.maxaddr - opts.stacksize) opts.stacksize p none).lastva = st.last := hl
    rw [hend]
    exact .alone he
  | some ib =>
    obtain ⟨o, rfl, ho⟩ := le.interp_ok ib rfl
    have hstop : ¬ ib.Stops (progRun H opts prog as).st.info opts.pagesize p.last ds := by
      rw [hinfo, hl]
      exact fun hstop => hn (.interp he hstop)
    obtain ⟨st', ds', he', hl', -⟩ := load_course hb (.inr hstop) ho
    rw [hinfo, hl] at he'
    have hend : (loadInfo prog (as.info.maxaddr - opts.stacksize) opts.stacksize p (some o)).lastva = st'.last :=
      hl'
    rw [hend]
    exact .both he he'

/-- The images are loaded or refused, unless one of them stops the process. -/
lemma lfiProcLoadelf_answers {opts : LFILoadOpts} {prog : Buf} {interp : Option Buf} {as : LFIAddrSpace L}
    (hpg : as.info.pagesize.toNat ≤ 2 ^ 20) (hs : opts.stacksize = STACKSIZE) (hd : H.Divides opts.pagesize)
    (hn : ¬ ImagesStop as.info opts.pagesize prog interp) :
    Answers ((lfiProcLoadelf H prog interp opts).run as) := by
  unfold lfiProcLoadelf
  refine answers_bind (answers_ok rfl) fun _ has => ?_
  cases has
  rw [Exec.get_run]
  refine answers_bind (answers_mapat (by rw [hs]; exact inGuard_stack hpg)) fun stack hv => ?_
  split
  · exact answers_pure _ _
  rename_i hne
  have hb := (backed_nothing hd as).stack hs hv hne
  have hinfo := stackRun_info (H := H) opts as
  have hstop : ¬ prog.Stops (stackRun H opts as).st.info opts.pagesize as.info.minaddr
      (stacked as.info (some [])) := by
    rw [hinfo]
    exact fun hstop => hn (.prog hstop)
  refine answers_bind (load_answers hb rfl hstop) fun o ho => ?_
  cases o with
  | none => exact answers_pure _ _
  | some p =>
    have hinfo2 := progRun_info (H := H) opts prog as
    obtain ⟨st, ds, he, hl, hb2⟩ :=
      progRun_course hs (backed_nothing hd as) (.inr fun hstop => hn (.prog hstop)) hv hne ho
    refine answers_bind ?_ fun i _ => ?_
    · cases interp with
      | none => exact answers_pure _ _
      | some ib =>
        have hstop : ¬ ib.Stops (progRun H opts prog as).st.info opts.pagesize p.last ds := by
          rw [hinfo2, hl]
          exact fun hstop => hn (.interp he hstop)
        rw [loadInterp]
        refine answers_bind (load_answers hb2 (Buf.Ends.isSome he rfl) hstop) fun o _ => ?_
        cases o with
        | none => exact answers_pure _ _
        | some o => exact answers_pure _ _
    · cases i with
      | none => exact answers_pure _ _
      | some i =>
        dsimp only
        split
        · exact answers_pure _ _
        · refine answers_bind (answers_ok (a := ()) ?_) fun _ _ => answers_pure _ _
          rw [Exec.check_run, if_pos he.1.header]

end Elf

/-! ## Setting up -/

/-- An end of the images and an argument vector for which the rest of the setup does not answer. -/
def StackFatal (argv : List (List Byte)) (last : Word) : Prop :=
  argv = [] ∨ stringBytes (argv.take (ARGC_MAX + 1)) < ARG_BLOCK.toNat ∧
    (2 * ARG_BLOCK.toNat < blockBytes argv.length ∨ last = 0)

/-- The inputs for which `procsetup` does not answer. -/
def Fatal (i : LFIAddrSpaceInfo) (pagesize : Word) (prog : Buf) (interp : Option Buf) (argv : List (List Byte)) :
    Prop :=
  ImagesStop i pagesize prog interp ∨ ∃ last, ImagesEnd i pagesize prog interp last ∧ StackFatal argv last

/-- What is done to the address space of a thread returns what it does there, -/
lemma onAs_val {α : Type} (x : Vm L α) (p : TuxThread L M) : ((onAs x).run p).val = (x.run p.as).val := by
  rw [onAs_run]

/-- leaves the address space that it leaves there, -/
lemma onAs_as {α : Type} (x : Vm L α) (p : TuxThread L M) : ((onAs x).run p).st.as = (x.run p.as).st := by
  rw [onAs_run]

/-- and answers if it does. -/
lemma answers_onAs {α : Type} {x : Vm L α} {p : TuxThread L M} (h : Answers (x.run p.as)) :
    Answers ((onAs x).run p) := by
  intro e he
  rw [onAs_val] at he
  exact h e he

/-- A run that stopped otherwise did not answer. -/
lemma not_answers {α σ : Type} {r : Res Stop Ev σ α} {e : Stop} (h : r.val = .error e)
    (he : e ≠ .assertion .cbunmap) : ¬ Answers r := fun ha => he (ha e h)

/-- A composition whose first half stopped otherwise did not answer. -/
lemma not_answers_bind {α β σ : Type} {x : Exec Stop Ev σ α} (f : α → Exec Stop Ev σ β) {s : σ} {e : Stop}
    (h : (x.run s).val = .error e) (he : e ≠ .assertion .cbunmap) : ¬ Answers ((x >>= f).run s) := by
  refine not_answers (e := e) ?_ he
  rw [Exec.bind_run, Res.eq_mk h, Exec.andThen_error]

/-- A composition whose first half returned answers if the rest does. -/
lemma answers_bind_ok {α β σ : Type} {x : Exec Stop Ev σ α} (f : α → Exec Stop Ev σ β) {s : σ} {a : α}
    (h : (x.run s).val = .ok a) : Answers ((x >>= f).run s) ↔ Answers ((f a).run (x.run s).st) := by
  unfold Answers
  rw [Exec.bind_run, Res.eq_mk h, Exec.andThen_ok_val]

/-- The heap reservation answers unless the images end at `0`. -/
lemma brk_answers {lastva : Word} {p : TuxThread L M} (hpg : p.as.info.pagesize.toNat ≤ 2 ^ 20)
    (hlast : lastva = 0 ∨ InGuard p.as.info lastva TUX_BRKMAXSIZE) :
    Answers ((onAs (lfiAsMapat H lastva TUX_BRKMAXSIZE LFI_PROT_NONE none) >>= fun brkregion =>
      if brkregion = mapFailed then pure false else pure true : Setup L M Bool).run p) ↔ lastva ≠ 0 := by
  constructor
  · intro ha h0
    obtain ⟨_, hr⟩ | ⟨hg, _⟩ | ⟨hg, _⟩ :=
      lfiAsMapat_cases (H := H) lastva TUX_BRKMAXSIZE LFI_PROT_NONE p.as
    · exact not_answers_bind _ ((onAs_val _ _).trans (congrArg Res.val hr)) (by decide) ha
    all_goals
      rw [h0] at hg
      exact not_inGuard_of_lt hpg (by decide) hg
  · intro h0
    refine answers_bind (answers_onAs (answers_mapat (hlast.resolve_left h0))) fun a _ => ?_
    split
    · exact answers_pure _ _
    · exact answers_pure _ _

/-- `procsetup` after its images were loaded. -/
lemma procsetup_answers_iff {opts : TuxOptions} {prog : Buf} {interp : Option Buf} (p : TuxThread L M)
    {argv : List (List Byte)} {info : LFILoadInfo} (hpg : p.as.info.pagesize.toNat ≤ 2 ^ 20)
    (hz : ∀ s ∈ argv, ∀ b ∈ s, b ≠ 0)
    (h : ((elfload H opts prog interp).run p.as).val = .ok (some info))
    (htop : info.stack + info.stacksize = p.as.info.maxaddr)
    (hlast : info.lastva = 0 ∨ InGuard p.as.info info.lastva TUX_BRKMAXSIZE) :
    Answers ((procsetup H opts prog interp argv).run p) ↔ ¬ StackFatal argv info.lastva := by
  have hinfo : ((elfload H opts prog interp).run p.as).st.info = p.as.info :=
    keeps_lfiProcLoadelf prog interp opts.load p.as
  rw [procsetup, answers_bind_ok _ ((onAs_val (M := M) _ p).trans h)]
  have hst := onAs_as (M := M) (elfload H opts prog interp) p
  generalize ((onAs (M := M) (elfload H opts prog interp)).run p).st = p1 at hst ⊢
  rw [← hst] at hinfo
  dsimp only
  have hstack := stacksetup_val opts.pagesize (hinfo ▸ hpg) (hinfo ▸ htop) hz
  have hinfo2 : ((stacksetup opts.pagesize argv info).run p1.as).st.info = p1.as.info :=
    (quiet_stacksetup opts.pagesize argv info p1.as).2
  have hval := onAs_val (M := M) (stacksetup opts.pagesize argv info) p1
  rw [← onAs_as (M := M) (stacksetup opts.pagesize argv info) p1] at hinfo2
  generalize ((stacksetup opts.pagesize argv info).run p1.as).val = x at hstack hval
  cases hstack with
  | empty hnil => exact iff_of_false (not_answers_bind _ hval (by decide)) (not_not.mpr (.inl hnil))
  | overrun hb hover =>
    exact iff_of_false (not_answers_bind _ hval (by decide)) (not_not.mpr (.inr ⟨hb, .inl hover⟩))
  | long hlong =>
    refine iff_of_true ?_ ?_
    · rw [answers_bind_ok _ hval]
      exact answers_pure _ _
    · rintro (rfl | ⟨hb, _⟩)
      · rw [List.take_nil] at hlong
        exact absurd hlong (by decide)
      · omega
  | ready hne hb hfit =>
    have hrest : ¬ StackFatal argv info.lastva ↔ info.lastva ≠ 0 := by
      constructor
      · exact fun hf h0 => hf (.inr ⟨hb, .inr h0⟩)
      · rintro h0 (hnil | ⟨_, hover | hl⟩)
        · exact hne hnil
        · omega
        · exact h0 hl
    rw [hrest, answers_bind_ok _ hval]
    generalize ((onAs (M := M) (stacksetup opts.pagesize argv info)).run p1).st = p2 at hinfo2 ⊢
    dsimp only
    rw [answers_bind_ok _ (by rw [Exec.modify_run]), Exec.modify_run]
    have hinfo3 : p2.as.info = p.as.info := hinfo2.trans hinfo
    rw [← hinfo3] at hpg hlast
    exact brk_answers hpg hlast

end Libtux
