import Libtux.Elf.Faithful
import Libtux.Pal.Ranges

/-!
# The course of a load

What `load` does with an image depends on the host only in that the host can make it end earlier. So an
image is followed on paper first. `fate` is what becomes of one header, `course` of a list of them: they
are refused, they stop the process, or they go through. A stop is a segment outside the usable addresses,
or a copy that reads what cannot be read or writes where nothing is open to it. What is open is kept along
the way, as the list of the pieces that were mapped; `none` stands for a memory that is open everywhere.

Every run agrees with the course: it answers if the course does not stop (`load_answers`), and goes through
only as the course does (`load_course`). On a host that grants everything it follows the course to its end
(`load_stops`, `load_ends`).
-/

namespace Libtux
open Lib

variable {L : LibMMap} {H : HostVm}

/-- The page of the host is a power of two and divides the configured one, as `lfi_run` asks for. -/
def HostVm.Divides (H : HostVm) (pagesize : Word) : Prop :=
  ∃ j, H.pagesize.toNat = 2 ^ j ∧ 2 ^ j ∣ pagesize.toNat

/-- The only stop that is left: the host refuses to make a page inaccessible that libmmap replaced. -/
def Answers {α σ : Type} (r : Res Stop Ev σ α) : Prop :=
  ∀ e, r.val = .error e → e = .assertion .cbunmap

/-- A run that returned answers. -/
lemma answers_ok {α σ : Type} {r : Res Stop Ev σ α} {a : α} (h : r.val = .ok a) : Answers r := by
  intro e he
  rw [h] at he
  cases he

/-- A composition answers if its first half does and what follows it does. -/
lemma answers_bind {α β σ : Type} {x : Exec Stop Ev σ α} {f : α → Exec Stop Ev σ β} {s : σ}
    (hx : Answers (x.run s))
    (hf : ∀ a, (x.run s).val = .ok a → Answers ((f a).run (x.run s).st)) : Answers ((x >>= f).run s) := by
  intro e he
  rw [Exec.bind_run] at he
  generalize x.run s = r at hx hf he
  obtain ⟨v, t, l⟩ := r
  cases v with
  | error e' =>
    rw [Exec.andThen_error] at he
    exact hx e (congrArg Except.error (Except.error.inj he))
  | ok a =>
    rw [Exec.andThen_ok_val] at he
    exact hf a rfl e he

/-- A value is an answer. -/
lemma answers_pure {α σ : Type} (a : α) (s : σ) : Answers ((pure a : Exec Stop Ev σ α).run s) :=
  answers_ok (by rw [Exec.pure_run])

/-- A mapping inside the usable addresses answers. -/
lemma answers_mapat {addr size : Word} {prot : CInt} {as : LFIAddrSpace L}
    (hg : InGuard as.info addr size) : Answers ((lfiAsMapat H addr size prot none).run as) := by
  obtain ⟨hn, _⟩ | ⟨_, st, _, h | h⟩ | ⟨_, _, _, st, _, h⟩ :=
    lfiAsMapat_cases (H := H) addr size prot as
  · exact absurd hg hn
  · exact answers_ok (congrArg Res.val h)
  · intro e he
    rw [h] at he
    exact (Except.error.inj he).symm
  · exact answers_ok (congrArg Res.val h)

namespace Elf

/-! ## What is open to writes -/

/-- Pages that were mapped, and what for. -/
structure Piece where
  addr : Word
  size : Word
  prot : CInt
  deriving DecidableEq

/-- The pieces leave `x` open to writes. The last one that was mapped there decides. -/
def opens : List Piece → Word → Bool
  | [], _ => false
  | d :: ds, x =>
    if InSpan d.addr d.size x then decide (mmapprot d.prot &&& LFI_PROT_WRITE ≠ 0) else opens ds x

/-- `x` is open to writes. -/
def Opens (ds : Option (List Piece)) (x : Word) : Prop := ds.all (opens · x) = true

instance (ds : Option (List Piece)) (x : Word) : Decidable (Opens ds x) :=
  inferInstanceAs (Decidable (_ = true))

/-- A piece is mapped. -/
def push (addr size : Word) (prot : CInt) (ds : Option (List Piece)) : Option (List Piece) :=
  ds.map (⟨addr, size, prot⟩ :: ·)

/-- Pieces are known after a mapping if they were before. -/
lemma push_isSome (addr size : Word) (prot : CInt) (ds : Option (List Piece)) :
    (push addr size prot ds).isSome = ds.isSome := Option.isSome_map

/-- A mapping decides for its own addresses, and for no others. -/
lemma opens_push {addr size : Word} {prot : CInt} {ds : Option (List Piece)} {x : Word} :
    Opens (push addr size prot ds) x ↔
      if InSpan addr size x then ds.isSome = true → mmapprot prot &&& LFI_PROT_WRITE ≠ 0 else Opens ds x := by
  cases ds with
  | none => simp [Opens, push]
  | some l =>
    simp only [Opens, push, Option.map_some, Option.all_some, opens, Option.isSome_some, true_imp_iff]
    split
    · exact decide_eq_true_iff
    · exact Iff.rfl

/-- A copy of `n` bytes from `offset` to `dst` goes through. -/
def Copies (buf : Buf) (ds : Option (List Piece)) (dst offset n : Word) : Prop :=
  buf.Readable offset n ∧ ∀ k : Nat, k < n.toNat → Opens ds (dst + BitVec.ofNat 64 k)

instance (buf : Buf) (ds : Option (List Piece)) (dst offset n : Word) :
    Decidable (Copies buf ds dst offset n) :=
  haveI : Decidable (∀ k : Nat, k < n.toNat → Opens ds (dst + BitVec.ofNat 64 k)) :=
    Nat.decidableBallLT n.toNat fun k _ => Opens ds (dst + BitVec.ofNat 64 k)
  inferInstanceAs (Decidable (_ ∧ _))

/-! ## The course -/

/-- What becomes of a header. -/
inductive Fate where
  | skip
  | refuse
  | stop
  | load (s : Seg)

/-- What becomes of a header, with the load base `base` and `ds` open to writes. -/
def fate (i : LFIAddrSpaceInfo) (pagesize : Word) (buf : Buf) (base : Word) (ds : Option (List Piece))
    (p : ProgHeader) : Fate :=
  match segPlan i buf.ehdr.type base pagesize p with
  | .skip => .skip
  | .refuse => .refuse
  | .map s =>
    let addr := base + s.start
    let size := s.stop - s.start
    let n := bufread buf p.filesz p.offset
    if ¬ InGuard i addr size then .stop
    else if 2 ^ 64 ≤ addr.toNat + size.toNat then .refuse
    else if ¬ Copies buf (push addr size (LFI_PROT_READ ||| LFI_PROT_WRITE) ds) (addr + s.offset) p.offset n then
      .stop
    else if n ≠ p.filesz then .refuse
    else .load s

/-- What becomes of a list of headers. -/
inductive Course where
  | refused
  | stops
  | ends (st : LoadState) (ds : Option (List Piece))
  deriving DecidableEq

/-- The loop of `load` on paper. -/
def course (i : LFIAddrSpaceInfo) (pagesize : Word) (buf : Buf) (elfbase : Word) :
    LoadState → Option (List Piece) → List ProgHeader → Course
  | st, ds, [] => .ends st ds
  | st, ds, p :: ps =>
    match fate i pagesize buf st.base ds p with
    | .skip => course i pagesize buf elfbase st ds ps
    | .refuse => .refused
    | .stop => .stops
    | .load s =>
      course i pagesize buf elfbase (st.next elfbase p s)
        (push (st.base + s.start) (s.stop - s.start) (pflags p.flags) ds) ps

/-- The image loaded at `base` stops the process. -/
def Buf.Stops (i : LFIAddrSpaceInfo) (pagesize : Word) (buf : Buf) (base : Word) (ds : Option (List Piece)) :
    Prop :=
  Overruns buf ∨
    Wellformed buf ∧ course i pagesize buf (elfBase i buf.ehdr.type base) ⟨base, 0, 0⟩ ds buf.phdrs = .stops

/-- The image loaded at `base` is accepted, with these loop variables and pieces at the end. -/
def Buf.Ends (i : LFIAddrSpaceInfo) (pagesize : Word) (buf : Buf) (base : Word) (ds : Option (List Piece))
    (st : LoadState) (ds' : Option (List Piece)) : Prop :=
  Wellformed buf ∧
    course i pagesize buf (elfBase i buf.ehdr.type base) ⟨base, 0, 0⟩ ds buf.phdrs = .ends st ds'

/-- What becomes of a planned segment. -/
inductive Planned (i : LFIAddrSpaceInfo) (pagesize : Word) (buf : Buf) (base : Word) (ds : Option (List Piece))
    (p : ProgHeader) (s : Seg) : Fate → Prop where
  | outside : ¬ InGuard i (base + s.start) (s.stop - s.start) → Planned i pagesize buf base ds p s .stop
  | top : InGuard i (base + s.start) (s.stop - s.start) →
    2 ^ 64 ≤ (base + s.start).toNat + (s.stop - s.start).toNat → Planned i pagesize buf base ds p s .refuse
  | copy : InGuard i (base + s.start) (s.stop - s.start) →
    (base + s.start).toNat + (s.stop - s.start).toNat < 2 ^ 64 →
    ¬ Copies buf (push (base + s.start) (s.stop - s.start) (LFI_PROT_READ ||| LFI_PROT_WRITE) ds)
      (base + s.start + s.offset) p.offset (bufread buf p.filesz p.offset) →
    Planned i pagesize buf base ds p s .stop
  | short : InGuard i (base + s.start) (s.stop - s.start) →
    (base + s.start).toNat + (s.stop - s.start).toNat < 2 ^ 64 →
    Copies buf (push (base + s.start) (s.stop - s.start) (LFI_PROT_READ ||| LFI_PROT_WRITE) ds)
      (base + s.start + s.offset) p.offset (bufread buf p.filesz p.offset) →
    bufread buf p.filesz p.offset ≠ p.filesz → Planned i pagesize buf base ds p s .refuse
  | load : InGuard i (base + s.start) (s.stop - s.start) →
    (base + s.start).toNat + (s.stop - s.start).toNat < 2 ^ 64 →
    Copies buf (push (base + s.start) (s.stop - s.start) (LFI_PROT_READ ||| LFI_PROT_WRITE) ds)
      (base + s.start + s.offset) p.offset (bufread buf p.filesz p.offset) →
    bufread buf p.filesz p.offset = p.filesz → Planned i pagesize buf base ds p s (.load s)

section
variable {i : LFIAddrSpaceInfo} {pagesize base elfbase : Word} {buf : Buf} {ds : Option (List Piece)}
  {p : ProgHeader} {s : Seg}

/-- The fate of a header without a segment, -/
lemma fate_skip (h : segPlan i buf.ehdr.type base pagesize p = .skip) : fate i pagesize buf base ds p = .skip := by
  rw [fate, h]

/-- and of one that is refused. -/
lemma fate_refuse (h : segPlan i buf.ehdr.type base pagesize p = .refuse) :
    fate i pagesize buf base ds p = .refuse := by
  rw [fate, h]

/-- A segment whose bytes cannot be read is a stop. -/
lemma fate_unreadable (h : segPlan i buf.ehdr.type base pagesize p = .map s)
    (hg : InGuard i (base + s.start) (s.stop - s.start))
    (htop : (base + s.start).toNat + (s.stop - s.start).toNat < 2 ^ 64)
    (hr : ¬ buf.Readable p.offset (bufread buf p.filesz p.offset)) : fate i pagesize buf base ds p = .stop := by
  rw [fate, h]
  dsimp only
  rw [if_neg (not_not.mpr hg), if_neg (not_le.mpr htop), if_pos fun hc => hr hc.1]

/-- Headers of which the first stops. -/
lemma course_stop {st : LoadState} {ps : List ProgHeader} (h : fate i pagesize buf st.base ds p = .stop) :
    course i pagesize buf elfbase st ds (p :: ps) = .stops := by
  rw [course, h]

/-- What becomes of a segment that is planned. -/
lemma fate_map (h : segPlan i buf.ehdr.type base pagesize p = .map s) :
    Planned i pagesize buf base ds p s (fate i pagesize buf base ds p) := by
  rw [fate, h]
  dsimp only
  split
  case isTrue hg => exact .outside hg
  rename_i hg
  rw [not_not] at hg
  split
  case isTrue htop => exact .top hg htop
  rename_i htop
  rw [not_le] at htop
  split
  case isTrue hc => exact .copy hg htop hc
  rename_i hc
  rw [not_not] at hc
  split
  case isTrue hn => exact .short hg htop hc hn
  rename_i hn
  exact .load hg htop hc (not_not.mp hn)

end

/-- A memory of which pieces are known stays one. -/
lemma course_isSome {i : LFIAddrSpaceInfo} {pagesize elfbase : Word} {buf : Buf} {st st' : LoadState}
    {ds ds' : Option (List Piece)} {ps : List ProgHeader}
    (h : course i pagesize buf elfbase st ds ps = .ends st' ds') : ds'.isSome = ds.isSome := by
  induction ps generalizing st ds with
  | nil =>
    cases h
    rfl
  | cons p ps ih =>
    rw [course] at h
    split at h
    · exact ih h
    · cases h
    · cases h
    · exact (ih h).trans (push_isSome ..)

/-- Pieces are known at the end if they were at the start. -/
lemma Buf.Ends.isSome {i : LFIAddrSpaceInfo} {pagesize base : Word} {buf : Buf} {st : LoadState}
    {ds ds' : Option (List Piece)} (h : buf.Ends i pagesize base ds st ds') (hds : ds.isSome = true) :
    ds'.isSome = true := (course_isSome h.2).trans hds

/-! ## Every host -/

/-- What is known of an address space: it is open to writes where the pieces say so. The pages of the host
divide the configured ones, so that a piece does not reach into the pages of another. -/
def Backed (H : HostVm) (pagesize : Word) (ds : Option (List Piece)) (as : LFIAddrSpace L) : Prop :=
  ds.isSome = true → H.Divides pagesize ∧ ∀ x, Opens ds x → as.prot x &&& LFI_PROT_WRITE ≠ 0

section
variable {pagesize elfbase : Word} {buf : Buf} {ds : Option (List Piece)} {st : LoadState} {p : ProgHeader}
  {s : Seg} {as as1 : LFIAddrSpace L}

/-- The pages of a segment, once they are mapped, are a piece. -/
lemma SegMapped.inSpan {start stop : Word} {j : Nat} (sm : SegMapped H start stop as as1)
    (hj : H.pagesize.toNat = 2 ^ j) (hs : 2 ^ j ∣ (stop - start).toNat) {x : Word} :
    covers H.pagesize start (stop - start) x ↔ InSpan start (stop - start) x :=
  covers_iff H.pagesize_pos sm.aligned (hj ▸ hs)

/-- A page that is a power of two is below the top of memory. -/
lemma pow_le_of_page {P : Word} {j : Nat} (hj : P.toNat = 2 ^ j) : j ≤ 64 := by
  have := P.isLt
  rw [hj] at this
  exact ((Nat.pow_lt_pow_iff_right (by omega)).mp this).le

/-- What is copied on paper is copied. -/
lemma Backed.writable {base dst n offset : Word} (hb : Backed H pagesize ds as) (hds : ds.isSome = true)
    (pl : Placed as.info buf.ehdr.type base pagesize p s)
    (sm : SegMapped H (base + s.start) (base + s.stop) as as1)
    (hc : Copies buf (push (base + s.start) (s.stop - s.start) (LFI_PROT_READ ||| LFI_PROT_WRITE) ds) dst
      offset n) : as1.Writable dst n := by
  intro k hk
  obtain ⟨⟨j, hj, hd⟩, hopen⟩ := hb hds
  have hx := hc.2 k hk
  have hcov := @SegMapped.inSpan L H _ _ _ _ j sm hj
    (by rw [size_of_base]; exact pl.dvd_size (pow_le_of_page hj) hd) (dst + BitVec.ofNat 64 k)
  rw [size_of_base] at hcov
  rw [opens_push] at hx
  rw [sm.fresh.prot, size_of_base]
  by_cases hin : InSpan (base + s.start) (s.stop - s.start) (dst + BitVec.ofNat 64 k)
  · rw [if_pos (hcov.mpr hin)]
    decide
  · rw [if_neg hin] at hx
    rw [if_neg fun h => hin (hcov.mp h)]
    exact hopen _ hx

/-- A segment that was loaded is one more piece. -/
lemma Backed.push {base : Word} (hb : Backed H pagesize ds as)
    (pl : Placed as.info buf.ehdr.type base pagesize p s) (sd : SegDone H buf base p s as as1) :
    Backed H pagesize (push (base + s.start) (s.stop - s.start) (pflags p.flags) ds) as1 := by
  intro hds
  rw [push_isSome] at hds
  obtain ⟨⟨j, hj, hd⟩, hopen⟩ := hb hds
  refine ⟨⟨j, hj, hd⟩, fun x hx => ?_⟩
  have hcov := @covers_iff H.pagesize (base + s.start) (s.stop - s.start) x H.pagesize_pos sd.aligned
    (by rw [hj]; exact pl.dvd_size (pow_le_of_page hj) hd)
  rw [opens_push] at hx
  rw [sd.prot]
  by_cases hin : InSpan (base + s.start) (s.stop - s.start) x
  · rw [if_pos hin] at hx
    rw [if_pos (hcov.mpr hin)]
    split
    · exact hx hds
    · decide
  · rw [if_neg hin] at hx
    rw [if_neg fun h => hin (hcov.mp h)]
    exact hopen x hx

/-- One iteration of the loop of `load` answers, if it is not a stop. -/
lemma loadSeg_answers (hb : Backed H pagesize ds as) (hds : ds.isSome = true)
    (h : fate as.info pagesize buf st.base ds p ≠ .stop) :
    Answers ((loadSeg H buf pagesize elfbase st p).run as) := by
  rw [loadSeg, Exec.bind_run, Exec.get_run, Exec.andThen_ok_nil]
  cases hp : segPlan as.info buf.ehdr.type st.base pagesize p with
  | skip => exact answers_pure _ _
  | refuse => exact answers_pure _ _
  | map s =>
    have hf := @fate_map _ _ _ _ ds _ _ hp
    have hcopy : InGuard as.info (st.base + s.start) (s.stop - s.start) ∧
        ((st.base + s.start).toNat + (s.stop - s.start).toNat < 2 ^ 64 →
          Copies buf (Elf.push (st.base + s.start) (s.stop - s.start) (LFI_PROT_READ ||| LFI_PROT_WRITE) ds)
            (st.base + s.start + s.offset) p.offset (bufread buf p.filesz p.offset)) := by
      generalize fate as.info pagesize buf st.base ds p = f at hf h
      cases hf with
      | outside _ => exact absurd rfl h
      | top hg htop => exact ⟨hg, fun hlt => absurd hlt (not_lt.mpr htop)⟩
      | copy _ _ _ => exact absurd rfl h
      | short hg _ hc _ => exact ⟨hg, fun _ => hc⟩
      | load hg _ hc _ => exact ⟨hg, fun _ => hc⟩
    obtain ⟨hg, hc⟩ := hcopy
    refine answers_bind ?_ fun ok _ => ?_
    · have hinv := bufreadelfseg_inv (H := H) (st.base + s.start) s.offset (st.base + s.stop) p.offset
        p.filesz (pflags p.flags) buf as
      generalize (bufreadelfseg H (st.base + s.start) s.offset (st.base + s.stop) p.offset p.filesz
        (pflags p.flags) buf).run as = r at hinv
      cases hinv with
      | outside hn =>
        rw [size_of_base] at hn
        exact absurd hg hn
      | unmapped _ hv _ =>
        obtain rfl | rfl := hv
        · exact answers_ok rfl
        · exact fun e he => (Except.error.inj he).symm
      | fault sm hn =>
        have htop := sm.top
        rw [size_of_base] at htop
        exact absurd ⟨(hc htop).1, hb.writable hds (segPlan_map.mp hp) sm (hc htop)⟩ hn
      | short _ _ => exact answers_ok rfl
      | done _ _ _ _ => exact answers_ok rfl
    · split
      · exact answers_pure _ _
      · exact answers_pure _ _

/-- An iteration that goes on was not refused, and does not stop on paper unless the paper knows less than
the host. -/
lemma loadSeg_fate {st' : LoadState} (hb : Backed H pagesize ds as)
    (hn : ds = none ∨ fate as.info pagesize buf st.base ds p ≠ .stop)
    (h : ((loadSeg H buf pagesize elfbase st p).run as).val = .ok (some st')) :
    (fate as.info pagesize buf st.base ds p = .skip ∧ st' = st ∧
      (loadSeg H buf pagesize elfbase st p).run as = ⟨.ok (some st), as, []⟩) ∨
    ∃ s, fate as.info pagesize buf st.base ds p = .load s ∧ st' = st.next elfbase p s ∧
      ((loadSeg H buf pagesize elfbase st p).run as).st.info = as.info ∧
      Backed H pagesize (Elf.push (st.base + s.start) (s.stop - s.start) (pflags p.flags) ds)
        ((loadSeg H buf pagesize elfbase st p).run as).st := by
  obtain ⟨hm, rfl, hr⟩ | ⟨s, pl, sd, -, rfl⟩ := loadSeg_some h
  · exact .inl ⟨fate_skip (segPlan_skip.mpr hm), rfl, hr⟩
  refine .inr ⟨s, ?_, rfl, sd.info, hb.push pl sd⟩
  have hf := @fate_map _ _ _ _ ds _ _ (segPlan_map.mpr pl)
  generalize fate as.info pagesize buf st.base ds p = f at hf hn ⊢
  cases hf with
  | outside hg => exact absurd sd.guard hg
  | top _ htop => exact absurd sd.top (not_lt.mpr htop)
  | copy _ _ hc =>
    obtain rfl | hn := hn
    · refine absurd ⟨?_, fun _ _ => rfl⟩ hc
      rw [sd.full]
      exact sd.readable
    · exact absurd rfl hn
  | short _ _ _ hfull => exact absurd sd.full hfull
  | load _ _ _ _ => rfl

/-- The loop of `load` answers, if its course does not stop. -/
lemma loadSegs_answers {ps : List ProgHeader} (hb : Backed H pagesize ds as) (hds : ds.isSome = true)
    (h : course as.info pagesize buf elfbase st ds ps ≠ .stops) :
    Answers ((loadSegs H buf pagesize elfbase st ps).run as) := by
  induction ps generalizing st ds as with
  | nil => exact answers_pure _ _
  | cons p ps ih =>
    rw [course] at h
    have hstop : fate as.info pagesize buf st.base ds p ≠ .stop := by
      intro hf
      rw [hf] at h
      exact h rfl
    rw [loadSegs]
    refine answers_bind (loadSeg_answers hb hds hstop) fun o ho => ?_
    cases o with
    | none => exact answers_pure _ _
    | some st1 =>
      obtain ⟨hf, rfl, hr⟩ | ⟨s, hf, rfl, hinfo, hb1⟩ := loadSeg_fate hb (.inr hstop) ho
      · rw [hf] at h
        rw [hr]
        exact ih hb hds h
      · rw [hf, ← hinfo] at h
        exact ih hb1 ((push_isSome ..).trans hds) h

/-- The loop of `load` goes through only as its course does. -/
lemma loadSegs_course {ps : List ProgHeader} {st' : LoadState} (hb : Backed H pagesize ds as)
    (hn : ds = none ∨ course as.info pagesize buf elfbase st ds ps ≠ .stops)
    (h : ((loadSegs H buf pagesize elfbase st ps).run as).val = .ok (some st')) :
    ((loadSegs H buf pagesize elfbase st ps).run as).st.info = as.info ∧
    ∃ ds', course as.info pagesize buf elfbase st ds ps = .ends st' ds' ∧
      Backed H pagesize ds' ((loadSegs H buf pagesize elfbase st ps).run as).st := by
  induction ps generalizing st ds as with
  | nil =>
    simp only [loadSegs, Exec.pure_run, Except.ok.injEq, Option.some.injEq] at h ⊢
    exact ⟨trivial, ds, by rw [course, h], hb⟩
  | cons p ps ih =>
    rw [course] at hn ⊢
    obtain ⟨st1, h1, h2, hst, -⟩ := loadSegs_cons_some h
    have hstop : ds = none ∨ fate as.info pagesize buf st.base ds p ≠ .stop := by
      refine hn.imp_right fun hc hf => ?_
      rw [hf] at hc
      exact hc rfl
    rw [hst]
    obtain ⟨hf, rfl, hr⟩ | ⟨s, hf, rfl, hinfo, hb1⟩ := loadSeg_fate hb hstop h1
    · rw [hf] at hn ⊢
      rw [hr] at h2 ⊢
      exact ih hb hn h2
    · rw [hf, ← hinfo] at hn
      rw [hf, ← hinfo]
      refine ih hb1 (hn.imp_left ?_) h2
      rintro rfl
      rfl

end

/-! ## A host that grants everything -/

/-- A host with pages of one byte, so that every mapping below the top of memory is granted. -/
def granting (mprotects : Bool) : HostVm := .paged 1 (by decide) fun _ _ _ => mprotects

/-- There a call acts on its range, and on nothing around it. -/
lemma covers_granting {g : Bool} {addr size x : Word} :
    covers (granting g).pagesize addr size x ↔ InSpan addr size x :=
  covers_iff (granting g).pagesize_pos (one_dvd _) (one_dvd _)

/-- There a mapping inside the usable addresses is made. -/
lemma lfiAsMapat_granted {g : Bool} {addr size : Word} (prot : CInt) {as : LFIAddrSpace .ofRanges}
    (hg : InGuard as.info addr size) (htop : addr.toNat + size.toNat < 2 ^ 64) :
    ∃ st, FreshAt (granting g) addr size prot as st ∧
      (lfiAsMapat (granting g) addr size prot none).run as = ⟨.ok addr, st, [.mapat addr size]⟩ := by
  have hmm : Ranges.Aligned (1 : Word).toNat as.mm := fun r _ => ⟨one_dvd _, one_dvd _⟩
  obtain ⟨st, -, -, hr⟩ := lfiAsMapat_paged (k := 0) (by decide) (fun _ _ _ => g) prot rfl hmm hg
    (one_dvd _) (one_dvd _) htop
  have hv : ((lfiAsMapat (granting g) addr size prot none).run as).val = .ok addr := congrArg Res.val hr
  obtain ⟨hn, _⟩ | ⟨_, _, _, h | h⟩ | ⟨_, _, _, st', hf, h⟩ :=
    lfiAsMapat_cases (H := granting g) addr size prot as
  · exact absurd hg hn
  · rw [h] at hv
    exact absurd (Except.ok.inj hv).symm (hg.ne_mapFailed htop)
  · rw [h] at hv
    cases hv
  · exact ⟨st', hf, h⟩

/-- The pieces say exactly where an address space is open to writes. -/
def Shows (ds : Option (List Piece)) (as : LFIAddrSpace L) : Prop :=
  ∀ x, as.prot x &&& LFI_PROT_WRITE ≠ 0 ↔ Opens ds x

/-- Nothing of a new address space is open to writes. -/
lemma shows_fresh (i : LFIAddrSpaceInfo) : Shows (some []) (LFIAddrSpace.fresh i) := by
  intro x
  have hnone : (LFIAddrSpace.fresh i).prot x &&& LFI_PROT_WRITE = 0 :=
    show LFI_PROT_NONE &&& LFI_PROT_WRITE = 0 by decide
  rw [hnone]
  exact iff_of_false (fun h => h rfl) (by simp [Opens, opens])

section
variable {pagesize elfbase : Word} {buf : Buf} {ds : Option (List Piece)} {st : LoadState} {p : ProgHeader}
  {s : Seg} {g : Bool}

/-- Fresh pages are one more piece. -/
lemma Shows.fresh {addr size : Word} {as as' : LFIAddrSpace L} (hs : Shows ds as)
    (hf : FreshAt (granting g) addr size (LFI_PROT_READ ||| LFI_PROT_WRITE) as as') :
    Shows (Elf.push addr size (LFI_PROT_READ ||| LFI_PROT_WRITE) ds) as' := by
  intro x
  rw [opens_push, hf.prot]
  by_cases hin : InSpan addr size x
  · rw [if_pos (covers_granting.mpr hin), if_pos hin]
    exact iff_of_true (by decide) fun _ => by decide
  · rw [if_neg fun h => hin (covers_granting.mp h), if_neg hin]
    exact hs x

/-- A segment that was loaded is one more piece. -/
lemma Shows.push {base : Word} {as as' : LFIAddrSpace L} (hs : Shows ds as) (hg : ds.isSome = g)
    (sd : SegDone (granting g) buf base p s as as') :
    Shows (Elf.push (base + s.start) (s.stop - s.start) (pflags p.flags) ds) as' := by
  intro x
  rw [opens_push, sd.prot]
  by_cases hin : InSpan (base + s.start) (s.stop - s.start) x
  · rw [if_pos (covers_granting.mpr hin), if_pos hin, hg]
    cases g with
    | false => exact iff_of_true (by rw [if_neg (by exact Bool.false_ne_true)]; decide) nofun
    | true => exact ⟨fun h _ => h, fun h => h rfl⟩
  · rw [if_neg fun h => hin (covers_granting.mp h), if_neg hin]
    exact hs x

/-- A segment inside the usable addresses is mapped, and its copy decides. -/
lemma bufreadelfseg_granted {start stop offset p_offset filesz : Word} {prot : CInt} {as : LFIAddrSpace .ofRanges}
    (hs : Shows ds as) (hg : InGuard as.info start (stop - start))
    (htop : start.toNat + (stop - start).toNat < 2 ^ 64) :
    ((bufreadelfseg (granting g) start offset stop p_offset filesz prot buf).run as).val =
      if Copies buf (Elf.push start (stop - start) (LFI_PROT_READ ||| LFI_PROT_WRITE) ds) (start + offset) p_offset
          (bufread buf filesz p_offset) then
        .ok (decide (bufread buf filesz p_offset = filesz))
      else .error .fault := by
  obtain ⟨as1, hf, hr⟩ := lfiAsMapat_granted (g := g) (LFI_PROT_READ ||| LFI_PROT_WRITE) hg htop
  have hshow := hs.fresh hf
  rw [bufreadelfseg_mapped ⟨hg, one_dvd _, htop, hf⟩ (hg.ne_mapFailed htop) hr]
  have hc : Copies buf (Elf.push start (stop - start) (LFI_PROT_READ ||| LFI_PROT_WRITE) ds) (start + offset)
        p_offset (bufread buf filesz p_offset) ↔
      buf.Readable p_offset (bufread buf filesz p_offset) ∧
        as1.Writable (start + offset) (bufread buf filesz p_offset) :=
    and_congr_right fun _ => forall₂_congr fun _ _ => (hshow _).symm
  rw [if_congr hc rfl rfl]
  dsimp only
  split
  · split
    case isTrue hn => rw [decide_eq_true hn]
    case isFalse hn => rw [decide_eq_false hn]
  · rfl

/-- A stop on paper stops the process. -/
lemma loadSeg_stops (elfbase : Word) {as : LFIAddrSpace .ofRanges} (hs : Shows ds as)
    (h : fate as.info pagesize buf st.base ds p = .stop) :
    ∃ e, e ≠ .assertion .cbunmap ∧ ((loadSeg (granting g) buf pagesize elfbase st p).run as).val = .error e := by
  rw [loadSeg, Exec.bind_run, Exec.get_run, Exec.andThen_ok_nil]
  cases hp : segPlan as.info buf.ehdr.type st.base pagesize p with
  | skip =>
    rw [fate_skip hp] at h
    cases h
  | refuse =>
    rw [fate_refuse hp] at h
    cases h
  | map s =>
    have hf := @fate_map _ _ _ _ ds _ _ hp
    rw [h] at hf
    dsimp only
    suffices hv : ∃ e, e ≠ .assertion .cbunmap ∧ ((bufreadelfseg (granting g) (st.base + s.start) s.offset
        (st.base + s.stop) p.offset p.filesz (pflags p.flags) buf).run as).val = .error e by
      obtain ⟨e, hne, hv⟩ := hv
      exact ⟨e, hne, by rw [Exec.bind_run, Res.eq_mk hv, Exec.andThen_error]⟩
    cases hf with
    | outside hn =>
      rw [← size_of_base st.base s] at hn
      refine ⟨.assertion .mapatRange, by decide, ?_⟩
      obtain ⟨_, hr⟩ | ⟨hg, _⟩ | ⟨hg, _⟩ := lfiAsMapat_cases (H := granting g) (st.base + s.start)
        (st.base + s.stop - (st.base + s.start)) (LFI_PROT_READ ||| LFI_PROT_WRITE) as
      · rw [bufreadelfseg, Exec.bind_run, hr, Exec.andThen_error]
      · exact absurd hg hn
      · exact absurd hg hn
    | copy hg htop hc =>
      rw [← size_of_base st.base s] at hg htop hc
      exact ⟨.fault, by decide, by rw [bufreadelfseg_granted hs hg htop, if_neg hc]⟩

/-- A segment that is loaded on paper is loaded. -/
lemma loadSeg_loads (elfbase : Word) {as : LFIAddrSpace .ofRanges} (hs : Shows ds as) (hg : ds.isSome = g)
    (h : fate as.info pagesize buf st.base ds p = .load s) :
    ((loadSeg (granting g) buf pagesize elfbase st p).run as).val = .ok (some (st.next elfbase p s)) ∧
      ((loadSeg (granting g) buf pagesize elfbase st p).run as).st.info = as.info ∧
      Shows (Elf.push (st.base + s.start) (s.stop - s.start) (pflags p.flags) ds)
        ((loadSeg (granting g) buf pagesize elfbase st p).run as).st := by
  suffices hv : ∃ st', ((loadSeg (granting g) buf pagesize elfbase st p).run as).val = .ok (some st') by
    obtain ⟨st', hv⟩ := hv
    obtain ⟨hm, -⟩ | ⟨s', pl, sd, -, rfl⟩ := loadSeg_some hv
    · rw [fate_skip (segPlan_skip.mpr hm)] at h
      cases h
    · have hf := @fate_map _ _ _ _ ds _ _ (segPlan_map.mpr pl)
      rw [h] at hf
      cases hf
      exact ⟨hv, sd.info, hs.push hg sd⟩
  rw [loadSeg, Exec.bind_run, Exec.get_run, Exec.andThen_ok_nil]
  cases hp : segPlan as.info buf.ehdr.type st.base pagesize p with
  | skip =>
    rw [fate_skip hp] at h
    cases h
  | refuse =>
    rw [fate_refuse hp] at h
    cases h
  | map s' =>
    have hf := @fate_map _ _ _ _ ds _ _ hp
    rw [h] at hf
    cases hf with
    | load hg htop hc hn =>
      rw [← size_of_base st.base s] at hg htop hc
      dsimp only
      refine ⟨st.next elfbase p s, ?_⟩
      rw [Exec.bind_run, Res.eq_mk (bufreadelfseg_granted hs hg htop), if_pos hc, decide_eq_true hn,
        Exec.andThen_ok_val, if_pos rfl, Exec.pure_run]
      rfl

/-- A header that is skipped on paper is skipped. -/
lemma loadSeg_skips {as : LFIAddrSpace L} (h : fate as.info pagesize buf st.base ds p = .skip) :
    (loadSeg H buf pagesize elfbase st p).run as = ⟨.ok (some st), as, []⟩ := by
  rw [loadSeg, Exec.bind_run, Exec.get_run, Exec.andThen_ok_nil]
  cases hp : segPlan as.info buf.ehdr.type st.base pagesize p with
  | skip => rw [Exec.pure_run]
  | refuse =>
    rw [fate_refuse hp] at h
    cases h
  | map s =>
    have hf := @fate_map _ _ _ _ ds _ _ hp
    rw [h] at hf
    cases hf

/-- The loop of `load` stops if its course does. -/
lemma loadSegs_stops {ps : List ProgHeader} {as : LFIAddrSpace .ofRanges} (hs : Shows ds as)
    (hg : ds.isSome = g) (h : course as.info pagesize buf elfbase st ds ps = .stops) :
    ∃ e, e ≠ .assertion .cbunmap ∧
      ((loadSegs (granting g) buf pagesize elfbase st ps).run as).val = .error e := by
  induction ps generalizing st ds as with
  | nil => cases h
  | cons p ps ih =>
    rw [course] at h
    rw [loadSegs, Exec.bind_run]
    cases hf : fate as.info pagesize buf st.base ds p with
    | skip =>
      rw [hf] at h
      rw [loadSeg_skips hf, Exec.andThen_ok_nil]
      exact ih hs hg h
    | refuse =>
      rw [hf] at h
      cases h
    | stop =>
      obtain ⟨e, hne, hv⟩ := loadSeg_stops (g := g) elfbase hs hf
      exact ⟨e, hne, by rw [Res.eq_mk hv, Exec.andThen_error]⟩
    | load s =>
      obtain ⟨hv, hinfo, hs1⟩ := loadSeg_loads elfbase hs hg hf
      rw [hf, ← hinfo] at h
      rw [Res.eq_mk hv, Exec.andThen_ok_val]
      exact ih hs1 ((push_isSome ..).trans hg) h

/-- The loop of `load` goes through if its course does. -/
lemma loadSegs_ends {ps : List ProgHeader} {st' : LoadState} {ds' : Option (List Piece)}
    {as : LFIAddrSpace .ofRanges} (hs : Shows ds as) (hg : ds.isSome = g)
    (h : course as.info pagesize buf elfbase st ds ps = .ends st' ds') :
    ((loadSegs (granting g) buf pagesize elfbase st ps).run as).val = .ok (some st') ∧
      Shows ds' ((loadSegs (granting g) buf pagesize elfbase st ps).run as).st := by
  induction ps generalizing st ds as with
  | nil =>
    cases h
    exact ⟨by rw [loadSegs, Exec.pure_run], hs⟩
  | cons p ps ih =>
    rw [course] at h
    rw [loadSegs, Exec.bind_run]
    cases hf : fate as.info pagesize buf st.base ds p with
    | skip =>
      rw [hf] at h
      rw [loadSeg_skips hf, Exec.andThen_ok_nil]
      exact ih hs hg h
    | refuse =>
      rw [hf] at h
      cases h
    | stop =>
      rw [hf] at h
      cases h
    | load s =>
      obtain ⟨hv, hinfo, hs1⟩ := loadSeg_loads elfbase hs hg hf
      rw [hf, ← hinfo] at h
      rw [Res.eq_mk hv, Exec.andThen_ok]
      exact ih hs1 ((push_isSome ..).trans hg) h

end

/-! ## Images -/

section
variable {base pagesize : Word} {buf : Buf} {ds : Option (List Piece)}

/-- An image whose first segment does not begin in what can be read stops the process. -/
lemma Buf.Stops.of_unreadable {i : LFIAddrSpaceInfo} (p : ProgHeader) (ps : List ProgHeader) (s : Seg)
    (wf : Wellformed buf) (hps : buf.phdrs = p :: ps) (hseg : segPlan i buf.ehdr.type base pagesize p = .map s)
    (hg : InGuard i (base + s.start) (s.stop - s.start))
    (htop : (base + s.start).toNat + (s.stop - s.start).toNat < 2 ^ 64)
    (hn : 0 < (bufread buf p.filesz p.offset).toNat) (hr : buf.readable (p.offset + BitVec.ofNat 64 0) = false) :
    buf.Stops i pagesize base ds := by
  refine .inr ⟨wf, ?_⟩
  rw [hps]
  refine course_stop (fate_unreadable hseg hg htop fun h => ?_)
  rw [h 0 hn] at hr
  cases hr

/-- `load` answers, if its image does not stop the process. -/
lemma load_answers {as : LFIAddrSpace L} (hb : Backed H pagesize ds as) (hds : ds.isSome = true)
    (h : ¬ buf.Stops as.info pagesize base ds) : Answers ((load H buf base pagesize).run as) := by
  by_cases ac : Accepted H buf as.nmmap
  case neg => exact answers_ok (congrArg Res.val (load_refused ac fun ov => absurd (.inl ov) h))
  rw [load_accepted ac, ← Exec.bind_run]
  refine answers_bind (loadSegs_answers hb hds fun hc => h (.inr ⟨ac.wellformed, hc⟩)) fun o _ => ?_
  cases o with
  | none => exact answers_pure _ _
  | some st => exact answers_pure _ _

/-- `load` returns true only as its image ends. -/
lemma load_course {as : LFIAddrSpace L} {out : LoadOut} (hb : Backed H pagesize ds as)
    (hn : ds = none ∨ ¬ buf.Stops as.info pagesize base ds)
    (h : ((load H buf base pagesize).run as).val = .ok (some out)) :
    ∃ st ds', buf.Ends as.info pagesize base ds st ds' ∧ out.last = st.last ∧
      Backed H pagesize ds' ((load H buf base pagesize).run as).st := by
  obtain ⟨ac, st, hs, hst, -, rfl⟩ := load_some h
  obtain ⟨-, ds', hc, hb'⟩ :=
    loadSegs_course hb (hn.imp_right fun hc hstop => hc (.inr ⟨ac.wellformed, hstop⟩)) hs
  exact ⟨st, ds', ⟨ac.wellformed, hc⟩, rfl, hst ▸ hb'⟩

/-- An image that stops the process stops `load`. -/
lemma load_stops {as : LFIAddrSpace .ofRanges} {g : Bool} (hs : Shows ds as) (hg : ds.isSome = g)
    (h : buf.Stops as.info pagesize base ds) :
    ∃ e, e ≠ .assertion .cbunmap ∧ ((load (granting g) buf base pagesize).run as).val = .error e := by
  obtain ov | ⟨wf, hc⟩ := h
  · obtain ⟨e, he, hr⟩ := load_overruns (H := granting g) base pagesize as ov rfl
    refine ⟨e, ?_, congrArg Res.val hr⟩
    obtain rfl | rfl := he
    · decide
    · decide
  · obtain ⟨e, hne, hv⟩ := loadSegs_stops hs hg hc
    refine ⟨e, hne, ?_⟩
    rw [load_accepted (wf.accepted rfl), Res.eq_mk hv, Exec.andThen_error]

/-- An image that is accepted is loaded. -/
lemma load_ends {as : LFIAddrSpace .ofRanges} {g : Bool} {st : LoadState} {ds' : Option (List Piece)}
    (hs : Shows ds as) (hg : ds.isSome = g) (h : buf.Ends as.info pagesize base ds st ds') :
    ∃ out, ((load (granting g) buf base pagesize).run as).val = .ok (some out) ∧ out.last = st.last ∧
      Shows ds' ((load (granting g) buf base pagesize).run as).st := by
  obtain ⟨wf, hc⟩ := h
  obtain ⟨hv, hs'⟩ := loadSegs_ends hs hg hc
  rw [load_accepted (wf.accepted rfl), Res.eq_mk hv, Exec.andThen_ok]
  exact ⟨_, by rw [Exec.pure_run], rfl, by rw [Exec.pure_run]; exact hs'⟩

end

/-- A segment of two bytes that starts behind the image. -/
def farHeader : ProgHeader := { textHeader with offset := 8192 }

/-- An image with this segment only. -/
def farImage : Buf := .write ET_DYN 8 [farHeader] [0x0f, 0x05]

/-- Its copy starts behind the image, where nothing can be read. -/
lemma farImage_stops (ds : Option (List Piece)) :
    farImage.Stops .plain 4096 LFIAddrSpaceInfo.plain.minaddr ds := by
  refine .of_unreadable farHeader [] ⟨0, 4096, 8⟩
    ⟨by decide +kernel, by decide +kernel, by decide +kernel, by decide +kernel, by decide +kernel⟩ ?_ ?_ ?_ ?_ ?_ ?_
  all_goals decide +kernel

end Elf
end Libtux
