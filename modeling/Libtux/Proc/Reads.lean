import Libtux.Proc.Fatal

/-!
# Reads of the images

Every `bufread` that is made while a program is started: by `elfinterp` (`src/elfload.h`), which looks for
the path of the interpreter, by `load` and `bufreadelfseg` for both images, and by `lfi_proc_loadelf`.

`InImage` is what a clamped read should do. `bufread` takes a signed offset and clamps with unsigned
arithmetic, and does it exactly when `Fits`: the offset is not negative and not past the end, and the end of
the read does not wrap back into the image. Offset and count are fields of the headers that nothing checks,
so the images decide (`ReadsFit`).
-/

namespace Libtux.Elf
open Lib

variable {L : LibMMap} {H : HostVm}

/-! ## One read -/

/-- A read of `count` bytes at `offset` copies the bytes of the image from there on, as many as there are,
and none from outside. The offset is signed (C `off_t`). -/
def InImage (buf : Buf) (count offset : Word) : Prop :=
  ((bufread buf count offset).toNat : Int) =
      min (count.toNat : Int) (max 0 (buf.size.toNat - offset.toInt)) ∧
    ∀ k : Nat, k < (bufread buf count offset).toNat →
      0 ≤ offset.toInt + k ∧ offset.toInt + k < buf.size.toNat

/-- The reads for which the clamp of `bufread` is right. -/
def Fits (buf : Buf) (count offset : Word) : Prop :=
  offset.toNat ≤ buf.size.toNat ∧
    (offset.toNat + count.toNat < 2 ^ 64 ∨ buf.size.toNat + 2 ^ 64 < offset.toNat + count.toNat) ∧
    (0 ≤ offset.toInt ∨ count = 0)

/-- The number of bytes, with both sums as they wrap. -/
lemma bufread_toNat (buf : Buf) (count offset : Word) :
    (bufread buf count offset).toNat =
      if buf.size.toNat < (offset.toNat + count.toNat) % 2 ^ 64 then
        (2 ^ 64 - offset.toNat + buf.size.toNat) % 2 ^ 64
      else count.toNat := by
  unfold bufread
  rw [apply_ite BitVec.toNat, BitVec.toNat_sub]
  simp only [gt_iff_lt, BitVec.lt_def, BitVec.toNat_add]

/-- `bufread` clamps as it should exactly when the read fits. -/
lemma inImage_iff {buf : Buf} {count offset : Word} : InImage buf count offset ↔ Fits buf count offset := by
  have hs := buf.size.isLt
  have hc := count.isLt
  have ho := offset.isLt
  have hzero : count = 0 ↔ count.toNat = 0 := by
    rw [BitVec.toNat_eq]
    rfl
  have hint := BitVec.toInt_eq_toNat_cond offset
  unfold InImage Fits
  rw [bufread_toNat, hzero]
  generalize offset.toInt = o at hint
  generalize offset.toNat = u at ho hint
  generalize count.toNat = c at hc
  generalize buf.size.toNat = s at hs
  -- The sum wraps at most once, and the clamp takes the difference or leaves the count.
  have hmod : (u + c) % 2 ^ 64 = if u + c < 2 ^ 64 then u + c else u + c - 2 ^ 64 := by
    split
    · omega
    · omega
  have hsub : (2 ^ 64 - u + s) % 2 ^ 64 = if u ≤ s then s - u else 2 ^ 64 - u + s := by
    split
    · omega
    · omega
  rw [hmod, hsub]
  constructor
  · rintro ⟨hn, hk⟩
    have hfirst := hk 0
    clear hmod hsub hk
    split_ifs at * <;> omega
  · rintro ⟨h1, h2, h3⟩
    clear hmod hsub
    refine ⟨?_, fun k hk => ?_⟩
    · split_ifs at * <;> omega
    · split_ifs at * <;> omega

/-! ## The path of the interpreter -/

def PT_INTERP : BitVec 32 := 3
def INTERP_MAX : Word := 1024
def PHNUM_MAX : BitVec 16 := 64

/-- A computation that reads an image; it logs the count and the offset of every `bufread`. -/
abbrev Reader := Exec Empty (Word × Word) Unit

/-- `bufread`, logged. -/
def readAt (buf : Buf) (count offset : Word) : Reader Word := do
  Exec.tell (count, offset)
  pure (bufread buf count offset)

/-- `elfinterp`: the bytes of the path, or `none` (C `NULL`). `malloc` is the host's answer. -/
def elfinterp (malloc : Word → Bool) (prog : Buf) : Reader (Option (List Byte)) := do
  let n ← readAt prog FileHeader.bytes 0
  if n ≠ FileHeader.bytes then pure none
  else if prog.ehdr.phnum ≥ PHNUM_MAX then pure none
  else do
    let n ← readAt prog prog.phbytes prog.ehdr.phoff
    if n ≠ prog.phbytes then pure none
    else
      match prog.phdrs.find? fun p => p.type = PT_INTERP with
      | none => pure none
      | some p =>
        if p.filesz ≥ INTERP_MAX then pure none
        else if ¬ malloc p.filesz then pure none
        else do
          let n ← readAt prog p.filesz p.offset
          if n ≠ p.filesz then pure none
          else pure (some ((List.range p.filesz.toNat).map fun k => prog.data (p.offset + BitVec.ofNat 64 k)))

/-- The reads that the headers lead `elfinterp` to, after that of the file header. -/
inductive PathRead (prog : Buf) : Word → Word → Prop where
  | table : bufread prog FileHeader.bytes 0 = FileHeader.bytes → prog.ehdr.phnum < PHNUM_MAX →
    PathRead prog prog.phbytes prog.ehdr.phoff
  | path {p : ProgHeader} : bufread prog FileHeader.bytes 0 = FileHeader.bytes →
    prog.ehdr.phnum < PHNUM_MAX → bufread prog prog.phbytes prog.ehdr.phoff = prog.phbytes →
    prog.phdrs.find? (fun p => p.type = PT_INTERP) = some p → p.filesz < INTERP_MAX →
    PathRead prog p.filesz p.offset

/-- The read of the file header fits whatever the image. -/
lemma fits_header (buf : Buf) : Fits buf FileHeader.bytes 0 := by
  refine ⟨Nat.zero_le _, .inl (by decide), .inl (by decide)⟩

/-- A read is the first of the reads. -/
lemma readAt_bind_out {α : Type} (buf : Buf) (count offset : Word) (f : Word → Reader α) :
    ((readAt buf count offset >>= f).run ()).out =
      (count, offset) :: ((f (bufread buf count offset)).run ()).out := by
  simp only [readAt, Exec.bind_run, Exec.tell_run, Exec.andThen_ok, Exec.pure_run, List.append_nil,
    List.cons_append, List.nil_append]

/-- The reads of `elfinterp` are those its headers lead to. -/
lemma elfinterp_reads {malloc : Word → Bool} {prog : Buf} {r : Word × Word}
    (h : r ∈ ((elfinterp malloc prog).run ()).out) : r = (FileHeader.bytes, 0) ∨ PathRead prog r.1 r.2 := by
  have hnone : r ∉ ((pure none : Reader (Option (List Byte))).run ()).out := by
    rw [Exec.pure_run]
    exact List.not_mem_nil
  rw [elfinterp, readAt_bind_out] at h
  obtain rfl | h := List.mem_cons.mp h
  · exact .inl rfl
  refine .inr ?_
  split at h
  · exact absurd h hnone
  rename_i hhead
  rw [not_not] at hhead
  split at h
  · exact absurd h hnone
  rename_i hnum
  rw [ge_iff_le, BitVec.not_le] at hnum
  rw [readAt_bind_out] at h
  obtain rfl | h := List.mem_cons.mp h
  · exact .table hhead hnum
  split at h
  · exact absurd h hnone
  rename_i htable
  rw [not_not] at htable
  cases hp : prog.phdrs.find? fun p => p.type = PT_INTERP with
  | none =>
    rw [hp] at h
    exact absurd h hnone
  | some p =>
    rw [hp] at h
    dsimp only at h
    split at h
    · exact absurd h hnone
    rename_i hmax
    split at h
    · exact absurd h hnone
    rw [readAt_bind_out] at h
    obtain rfl | h := List.mem_cons.mp h
    · exact .path hhead hnum htable hp (BitVec.not_le.mp hmax)
    split at h
    · exact absurd h hnone
    · rw [Exec.pure_run] at h
      cases h

/-- If the host has memory, `elfinterp` makes all of them. -/
lemma PathRead.made {prog : Buf} {count offset : Word} (h : PathRead prog count offset) :
    (count, offset) ∈ ((elfinterp (fun _ => true) prog).run ()).out := by
  rw [elfinterp, readAt_bind_out]
  refine List.mem_cons_of_mem _ ?_
  cases h with
  | table hhead hnum =>
    rw [if_neg (not_not.mpr hhead), if_neg (BitVec.not_le.mpr hnum), readAt_bind_out]
    exact List.mem_cons_self
  | path hhead hnum htable hp hmax =>
    rw [if_neg (not_not.mpr hhead), if_neg (BitVec.not_le.mpr hnum), readAt_bind_out]
    refine List.mem_cons_of_mem _ ?_
    rw [if_neg (not_not.mpr htable), hp]
    dsimp only
    rw [if_neg (BitVec.not_le.mpr hmax), if_neg (by decide), readAt_bind_out]
    exact List.mem_cons_self

/-! ## Loading -/

/-- The reads of a run of `load`. A segment is read after the headers before it went through and its pages
were mapped. -/
inductive LoadRead (H : HostVm) (buf : Buf) (base pagesize : Word) (as : LFIAddrSpace L) :
    Word → Word → Prop where
  | header : LoadRead H buf base pagesize as FileHeader.bytes 0
  | table : bufread buf FileHeader.bytes 0 = FileHeader.bytes → elfcheck buf.ehdr = true →
    H.malloc as.nmmap buf.phbytes = true → LoadRead H buf base pagesize as buf.phbytes buf.ehdr.phoff
  | seg {pre post : List ProgHeader} {p : ProgHeader} {st : LoadState} {as1 : LFIAddrSpace L}
    {out : List Ev} {s : Seg} {a : Word} :
    Accepted H buf as.nmmap → buf.phdrs = pre ++ p :: post →
    (loadSegs H buf pagesize (elfBase as.info buf.ehdr.type base) ⟨base, 0, 0⟩ pre).run as =
      ⟨.ok (some st), as1, out⟩ →
    segPlan as1.info buf.ehdr.type st.base pagesize p = .map s →
    ((lfiAsMapat H (st.base + s.start) (st.base + s.stop - (st.base + s.start))
      (LFI_PROT_READ ||| LFI_PROT_WRITE) none).run as1).val = .ok a → a ≠ mapFailed →
    LoadRead H buf base pagesize as p.filesz p.offset

/-- The reads that the headers of an image lead `load` to, after that of the file header. -/
inductive PlanRead (i : LFIAddrSpaceInfo) (pagesize : Word) (buf : Buf) (base : Word) :
    Word → Word → Prop where
  | table : bufread buf FileHeader.bytes 0 = FileHeader.bytes → elfcheck buf.ehdr = true →
    PlanRead i pagesize buf base buf.phbytes buf.ehdr.phoff
  | seg {pre post : List ProgHeader} {p : ProgHeader} {st : LoadState} {ds : Option (List Piece)} {s : Seg} :
    Wellformed buf → buf.phdrs = pre ++ p :: post →
    course i pagesize buf (elfBase i buf.ehdr.type base) ⟨base, 0, 0⟩ none pre = .ends st ds →
    segPlan i buf.ehdr.type st.base pagesize p = .map s →
    InGuard i (st.base + s.start) (s.stop - s.start) →
    (st.base + s.start).toNat + (s.stop - s.start).toNat < 2 ^ 64 → PlanRead i pagesize buf base p.filesz p.offset

/-- No pieces are kept of a memory that is open everywhere. -/
lemma backed_none {pagesize : Word} (as : LFIAddrSpace L) : Backed H pagesize none as := nofun

/-- The reads of `load` are those its headers lead to. -/
lemma LoadRead.planned {buf : Buf} {base pagesize count offset : Word} {as : LFIAddrSpace L}
    (h : LoadRead H buf base pagesize as count offset) :
    count = FileHeader.bytes ∧ offset = 0 ∨ PlanRead as.info pagesize buf base count offset := by
  cases h with
  | header => exact .inl ⟨rfl, rfl⟩
  | table hhead hcheck => exact .inr (.table hhead hcheck)
  | @seg pre post p st as1 out s a ac hps hrun hseg hmap hne =>
    obtain ⟨hinfo, ds, hc, -⟩ := loadSegs_course (backed_none as) (.inl rfl) (congrArg Res.val hrun)
    rw [hrun] at hinfo
    have hinfo : as1.info = as.info := hinfo
    have hg : InGuard as1.info (st.base + s.start) (s.stop - s.start) ∧
        (st.base + s.start).toNat + (s.stop - s.start).toNat < 2 ^ 64 := by
      rw [← size_of_base st.base s]
      obtain ⟨-, hr⟩ | ⟨hg, _, _, hr | hr⟩ | ⟨hg, -, htop, -⟩ := lfiAsMapat_cases (H := H) (st.base + s.start)
        (st.base + s.stop - (st.base + s.start)) (LFI_PROT_READ ||| LFI_PROT_WRITE) as1
      · rw [hr] at hmap
        cases hmap
      · rw [hr] at hmap
        exact absurd (Except.ok.inj hmap).symm hne
      · rw [hr] at hmap
        cases hmap
      · exact ⟨hg, htop⟩
    rw [hinfo] at hseg hg
    exact .inr (.seg ac.wellformed hps hc hseg hg.1 hg.2)

/-- On a host that grants every mapping, `load` makes all of them, from an address space that is open to
writes. -/
lemma PlanRead.made {buf : Buf} {base pagesize count offset : Word} {as : LFIAddrSpace .ofRanges}
    (hs : Shows none as) (h : PlanRead as.info pagesize buf base count offset) :
    LoadRead (granting false) buf base pagesize as count offset := by
  cases h with
  | table hhead hcheck => exact .table hhead hcheck rfl
  | @seg pre post p st ds s wf hps hc hseg hg htop =>
    obtain ⟨hv, -⟩ := loadSegs_ends (g := false) hs rfl hc
    obtain ⟨hinfo, -⟩ := loadSegs_course (H := granting false) (backed_none as) (.inl rfl) hv
    have hrun := Res.eq_mk hv
    generalize ((loadSegs (granting false) buf pagesize (elfBase as.info buf.ehdr.type base) ⟨base, 0, 0⟩ pre).run
      as).st = as1 at hinfo hrun
    rw [← hinfo] at hseg hg
    rw [← size_of_base st.base s] at hg htop
    obtain ⟨as2, -, hmap⟩ := lfiAsMapat_granted (g := false) (LFI_PROT_READ ||| LFI_PROT_WRITE) hg htop
    exact .seg (wf.accepted rfl) hps hrun hseg (congrArg Res.val hmap) (hg.ne_mapFailed htop)

/-! ## Both images -/

/-- The reads of a run of `lfi_proc_loadelf`, with the image that is read. -/
inductive LoadelfRead (H : HostVm) (opts : LFILoadOpts) (prog : Buf) (interp : Option Buf)
    (as : LFIAddrSpace L) : Buf → Word → Word → Prop where
  | prog {stack count offset : Word} : (stackRun H opts as).val = .ok stack → stack ≠ mapFailed →
    LoadRead H prog as.info.minaddr opts.pagesize (stackRun H opts as).st count offset →
    LoadelfRead H opts prog interp as prog count offset
  | interp {stack count offset : Word} {p : LoadOut} {ib : Buf} :
    (stackRun H opts as).val = .ok stack → stack ≠ mapFailed →
    (progRun H opts prog as).val = .ok (some p) → interp = some ib →
    LoadRead H ib p.last opts.pagesize (progRun H opts prog as).st count offset →
    LoadelfRead H opts prog interp as ib count offset
  | header {stack : Word} {p : LoadOut} {i : Option LoadOut} :
    (stackRun H opts as).val = .ok stack → stack ≠ mapFailed →
    (progRun H opts prog as).val = .ok (some p) →
    ((loadInterp H interp p.last opts.pagesize).run (progRun H opts prog as).st).val = .ok (some i) →
    opts.perf ≠ some false → LoadelfRead H opts prog interp as prog FileHeader.bytes 0

/-- The headers of the images lead to reads that fit only. The interpreter is loaded from the end of the
program on. -/
structure ReadsFit (i : LFIAddrSpaceInfo) (pagesize : Word) (prog : Buf) (interp : Option Buf) : Prop where
  pathFits {count offset : Word} : PathRead prog count offset → Fits prog count offset
  progFits {count offset : Word} : PlanRead i pagesize prog i.minaddr count offset → Fits prog count offset
  interpFits {ib : Buf} {st : LoadState} {ds : Option (List Piece)} {count offset : Word} : interp = some ib →
    prog.Ends i pagesize i.minaddr none st ds → PlanRead i pagesize ib st.last count offset → Fits ib count offset

/-- Images whose reads fit are read inside, on every host. -/
lemma ReadsFit.loadelf {opts : LFILoadOpts} {prog : Buf} {interp : Option Buf} {as : LFIAddrSpace L}
    (hf : ReadsFit as.info opts.pagesize prog interp) {buf : Buf} {count offset : Word}
    (h : LoadelfRead H opts prog interp as buf count offset) : Fits buf count offset := by
  cases h with
  | prog _ _ hr =>
    have hinfo := stackRun_info (H := H) opts as
    obtain ⟨rfl, rfl⟩ | hp := hr.planned
    · exact fits_header _
    · rw [hinfo] at hp
      exact hf.progFits hp
  | interp _ _ hprog hib hr =>
    have hinfo := progRun_info (H := H) opts prog as
    have hstk := stackRun_info (H := H) opts as
    obtain ⟨st, ds, he, hl, -⟩ := load_course (backed_none _) (.inl rfl) hprog
    rw [hstk] at he
    obtain ⟨rfl, rfl⟩ | hp := hr.planned
    · exact fits_header _
    · rw [hinfo, hl] at hp
      exact hf.interpFits hib he hp
  | header => exact fits_header _

/-- A new address space, but open to writes everywhere. -/
def openSpace (i : LFIAddrSpaceInfo) : LFIAddrSpace .ofRanges :=
  { LFIAddrSpace.fresh i with prot := fun _ => LFI_PROT_READ ||| LFI_PROT_WRITE }

/-- Of an address space that is open everywhere nothing has to be known. -/
lemma shows_open (i : LFIAddrSpaceInfo) : Shows none (openSpace i) := fun x =>
  iff_of_true (show (LFI_PROT_READ ||| LFI_PROT_WRITE) &&& LFI_PROT_WRITE ≠ 0 by decide) rfl

/-- Images that are read inside on a host that grants every mapping have reads that fit only. -/
lemma readsFit_of_granted {i : LFIAddrSpaceInfo} {pagesize : Word} {prog : Buf} {interp : Option Buf}
    (hpg : i.pagesize.toNat ≤ 2 ^ 20)
    (hpath : ∀ r ∈ ((elfinterp (fun _ => true) prog).run ()).out, Fits prog r.1 r.2)
    (hload : ∀ buf count offset,
      LoadelfRead (granting false) ⟨STACKSIZE, pagesize, none⟩ prog interp (openSpace i) buf count offset →
      Fits buf count offset) : ReadsFit i pagesize prog interp := by
  let opts : LFILoadOpts := ⟨STACKSIZE, pagesize, none⟩
  obtain ⟨hne, hstack, hs⟩ := stackRun_granted (g := false) opts hpg rfl (shows_open i)
  refine ⟨fun h => hpath _ h.made, fun h => ?_, ?_⟩
  · have hinfo := stackRun_info (H := granting false) opts (openSpace i)
    refine hload _ _ _ (.prog hstack hne (PlanRead.made hs ?_))
    rw [hinfo]
    exact h
  · rintro ib st ds count offset rfl he h
    have hinfo := progRun_info (H := granting false) opts prog (openSpace i)
    obtain ⟨p, hv, hl, hs2⟩ := progRun_granted (g := false) opts hpg rfl (shows_open i)
      rfl he
    have hnone : ds = none := by
      have hsome := course_isSome he.2
      exact Option.not_isSome_iff_eq_none.mp (by rw [hsome]; exact Bool.false_ne_true)
    rw [hnone] at hs2
    refine hload _ _ _ (.interp hstack hne hv rfl (PlanRead.made hs2 ?_))
    rw [hinfo, hl]
    exact h

/-- Every `bufread` that the start of a program makes, whatever the host and libmmap answer, stays in its
image exactly when the reads its headers lead to fit. -/
theorem reads_inImage_iff {i : LFIAddrSpaceInfo} {pagesize : Word} {prog : Buf} {interp : Option Buf}
    (hpg : i.pagesize.toNat ≤ 2 ^ 20) :
    ((∀ malloc, ∀ r ∈ ((elfinterp malloc prog).run ()).out, InImage prog r.1 r.2) ∧
      ∀ (L : LibMMap) (H : HostVm) (as : LFIAddrSpace L) (opts : LFILoadOpts), as.info = i →
        opts.pagesize = pagesize → ∀ buf count offset,
        LoadelfRead H opts prog interp as buf count offset → InImage buf count offset) ↔
    ReadsFit i pagesize prog interp := by
  constructor
  · rintro ⟨hpath, hload⟩
    refine readsFit_of_granted hpg (fun r hr => ?_) fun buf count offset hr => ?_
    · exact inImage_iff.mp (hpath _ r hr)
    · exact inImage_iff.mp (hload _ _ _ _ rfl rfl buf count offset hr)
  · intro hf
    refine ⟨fun malloc r hr => inImage_iff.mpr ?_, ?_⟩
    · obtain rfl | hp := elfinterp_reads hr
      · exact fits_header prog
      · exact hf.pathFits hp
    · rintro L H as opts rfl rfl buf count offset hr
      exact inImage_iff.mpr (hf.loadelf hr)

instance (buf : Buf) (count offset : Word) : Decidable (Fits buf count offset) :=
  inferInstanceAs (Decidable (_ ∧ _ ∧ _))

/-- All reads of the image are in it. -/
lemma readsFit_textImage : ReadsFit .plain 4096 textImage none := by
  have hps : textImage.phdrs = [textHeader] := by decide +kernel
  refine ⟨fun h => ?_, fun h => ?_, fun h => by cases h⟩
  · cases h with
    | table => decide +kernel
    | path _ _ _ hp =>
      rw [hps, List.find?_cons_of_neg (by decide), List.find?_nil] at hp
      cases hp
  · cases h with
    | table => decide +kernel
    | @seg pre _ p _ _ _ _ hpp =>
      have hp : p ∈ textImage.phdrs := by
        rw [hpp]
        exact List.mem_append_right _ List.mem_cons_self
      rw [hps, List.mem_singleton] at hp
      rw [hp]
      decide +kernel

/-- The header of `textImage` is read inside it. -/
theorem reads_textImage :
    (56, 64) ∈ ((elfinterp (fun _ => true) textImage).run ()).out ∧ InImage textImage 56 64 := by
  have hread : (56, 64) ∈ ((elfinterp (fun _ => true) textImage).run ()).out := by decide +kernel
  exact ⟨hread, ((reads_inImage_iff (by decide)).mpr readsFit_textImage).1 (fun _ => true) (56, 64) hread⟩

/-- The read of a segment behind the image is not clamped to `0`: it copies almost all of memory. -/
theorem farImage_reads_outside :
    LoadelfRead (.plain fun _ _ _ => true) ⟨STACKSIZE, 4096, none⟩ farImage none (.fresh .plain) farImage
      farHeader.filesz 8192 ∧
    bufread farImage farHeader.filesz 8192 = farImage.size - 8192 ∧
    ¬ InImage farImage farHeader.filesz 8192 := by
  refine ⟨?_, by decide +kernel, ?_⟩
  · have hstack : (stackRun (.plain fun _ _ _ => true) ⟨STACKSIZE, 4096, none⟩ (.fresh .plain)).val =
        .ok (LFIAddrSpaceInfo.plain.maxaddr - STACKSIZE) := by decide +kernel
    have hinfo := stackRun_info (H := .plain fun _ _ _ => true) ⟨STACKSIZE, 4096, none⟩ (.fresh .plain)
    have hps : farImage.phdrs = [] ++ farHeader :: [] := by decide +kernel
    have hseg : segPlan .plain farImage.ehdr.type LFIAddrSpaceInfo.plain.minaddr 4096 farHeader =
        .map ⟨0, 4096, 8⟩ := by decide +kernel
    refine .prog hstack (by decide +kernel) (.seg (a := LFIAddrSpaceInfo.plain.minaddr) ?_ hps
      (Exec.pure_run _ _) (by rw [hinfo]; exact hseg) ?_ (by decide +kernel))
    · exact ⟨by decide +kernel, by decide +kernel, rfl, by decide +kernel, by decide +kernel, by decide +kernel⟩
    · decide +kernel
  · rw [inImage_iff]
    decide +kernel

end Libtux.Elf
