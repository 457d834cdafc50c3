import Libtux.Proc.Reads

/-!
# The path of the interpreter

`elfinterp` reads the program headers a second time, before `load` does. It should find the interpreter of
every image that `load` accepts, and return its path as a string that ends inside of it, as `procfile` uses
it as one. It does so exactly when the image keeps the limits that only `elfinterp` has, and when the file
holds the path and its zero, which nobody looks at (`interp_found_iff`).
-/

namespace Libtux.Elf
open Lib

variable {L : LibMMap} {H : HostVm}

/-- The first header of an interpreter. -/
def Buf.interp (prog : Buf) : Option ProgHeader := prog.phdrs.find? fun p => p.type = PT_INTERP

/-- The bytes of a header, as `bufread` copies them. -/
def Buf.content (prog : Buf) (p : ProgHeader) : List Byte :=
  (List.range p.filesz.toNat).map fun k => prog.data (p.offset + BitVec.ofNat 64 k)

/-- The bytes of a header are bytes of the file. -/
def Buf.Holds (prog : Buf) (p : ProgHeader) : Prop := p.offset.toNat + p.filesz.toNat ≤ prog.size.toNat

instance (prog : Buf) (p : ProgHeader) : Decidable (prog.Holds p) := inferInstanceAs (Decidable (_ ≤ _))

/-- What `elfinterp` should return: a buffer when there is an interpreter, and then the bytes of the first
one, with a zero among them. -/
def InterpFound (malloc : Word → Bool) (prog : Buf) : Prop :=
  ∃ o, ((elfinterp malloc prog).run ()).val = .ok o ∧
    (o.isSome = true ↔ ∃ p ∈ prog.phdrs, p.type = PT_INTERP) ∧
    ∀ b, o = some b → ∃ p, prog.interp = some p ∧ prog.Holds p ∧ b = prog.content p ∧ 0 ∈ b

/-- An interpreter within the limits, whose path the file holds, with its zero. -/
structure InterpFits (malloc : Word → Bool) (prog : Buf) (p : ProgHeader) : Prop where
  phnum : prog.ehdr.phnum < PHNUM_MAX
  filesz : p.filesz < INTERP_MAX
  room : malloc p.filesz = true
  holds : prog.Holds p
  zero : 0 ∈ prog.content p

/-- Past its reads of the headers, `elfinterp` decides on the first interpreter. -/
lemma elfinterp_val (malloc : Word → Bool) {prog : Buf}
    (hheader : bufread prog FileHeader.bytes 0 = FileHeader.bytes)
    (htable : bufread prog prog.phbytes prog.ehdr.phoff = prog.phbytes) :
    ((elfinterp malloc prog).run ()).val = .ok (if prog.ehdr.phnum ≥ PHNUM_MAX then none
      else prog.interp.bind fun p =>
        if p.filesz ≥ INTERP_MAX then none
        else if ¬ malloc p.filesz then none
        else if bufread prog p.filesz p.offset ≠ p.filesz then none
        else some (prog.content p)) := by
  have hread : ∀ {α : Type} (count offset : Word) (f : Word → Reader α),
      ((readAt prog count offset >>= f).run ()).val = ((f (bufread prog count offset)).run ()).val := by
    intro α count offset f
    simp only [readAt, Exec.bind_run, Exec.tell_run, Exec.andThen_ok, Exec.pure_run]
  rw [elfinterp, hread, hheader, if_neg (not_not.mpr rfl), Exec.ite_run]
  split
  · rw [Exec.pure_run]
  · rw [hread, htable, if_neg (not_not.mpr rfl), Buf.interp]
    cases prog.phdrs.find? fun p => p.type = PT_INTERP with
    | none => rfl
    | some p =>
      dsimp only [Option.bind_some]
      rw [Exec.ite_run]
      split
      · rw [Exec.pure_run]
      · rw [Exec.ite_run]
        split
        · rw [Exec.pure_run]
        · rw [hread, Exec.ite_run]
          split
          · rw [Exec.pure_run]
          · rw [Exec.pure_run, Buf.content]

/-- The interpreter of an accepted image is found exactly when it is within the limits and in the file. -/
theorem interp_found_iff (malloc : Word → Bool) {prog : Buf} {base pagesize : Word} {as : LFIAddrSpace L}
    {out : LoadOut} (h : ((load H prog base pagesize).run as).val = .ok (some out)) :
    InterpFound malloc prog ↔ ∀ p, prog.interp = some p → InterpFits malloc prog p := by
  obtain ⟨ac, -⟩ := load_some h
  have hval := elfinterp_val malloc ac.header ac.table
  have hfind : (∃ p ∈ prog.phdrs, p.type = PT_INTERP) ↔ prog.interp.isSome = true := by
    simp [Buf.interp, List.find?_isSome]
  unfold InterpFound
  rw [hval]
  cases hp : prog.interp with
  | none =>
    refine iff_of_true ⟨none, ?_, ?_, nofun⟩ nofun
    · rw [Option.bind_none, ite_self]
    · rw [hfind, hp]
      rfl
  | some p =>
    have hsome : ∃ p ∈ prog.phdrs, p.type = PT_INTERP := by
      rw [hfind, hp]
      rfl
    rw [Option.bind_some]
    constructor
    · rintro ⟨o, ho, hiff, hb⟩ q hq
      cases hq
      obtain ⟨b, rfl⟩ := Option.isSome_iff_exists.mp (hiff.mpr hsome)
      obtain ⟨q, hq, hholds, rfl, hzero⟩ := hb b rfl
      cases hq
      have hret := Except.ok.inj ho
      split at hret
      · cases hret
      next hnum =>
        split at hret
        · cases hret
        next hsz =>
          split at hret
          · cases hret
          next hroom => exact ⟨BitVec.not_le.mp hnum, BitVec.not_le.mp hsz, not_not.mp hroom, hholds, hzero⟩
    · intro hfits
      obtain ⟨hnum, hsz, hroom, hholds, hzero⟩ := hfits p rfl
      have hfull : bufread prog p.filesz p.offset = p.filesz := bufread_of_le hholds
      refine ⟨some (prog.content p), ?_, iff_of_true rfl hsome, fun b hb => ?_⟩
      · rw [if_neg (BitVec.not_le.mpr hnum), if_neg (BitVec.not_le.mpr hsz),
          if_neg (not_not.mpr hroom), if_neg (not_not.mpr hfull)]
      · cases hb
        exact ⟨p, rfl, hholds, rfl, hzero⟩

/-- The header of a path of four bytes. -/
def interpHeader : ProgHeader where
  type := PT_INTERP
  flags := PF_R
  offset := 120
  vaddr := 120
  filesz := 4
  memsz := 4
  align := 1

/-- An image with this header only. -/
def interpImage (path : List Byte) : Buf := .write ET_DYN 8 [interpHeader] path

/-- The path `/ld` with its zero is found. -/
theorem interp_found_ld : InterpFound (fun _ => true) (interpImage [0x2f, 0x6c, 0x64, 0]) := by
  have hload : ((load (.plain fun _ _ _ => true) (interpImage [0x2f, 0x6c, 0x64, 0])
      LFIAddrSpaceInfo.plain.minaddr 4096).run (.fresh .plain)).val =
      .ok (some ⟨0, 0, LFIAddrSpaceInfo.plain.minaddr + 8⟩) := by decide +kernel
  have hinterp : (interpImage [0x2f, 0x6c, 0x64, 0]).interp = some interpHeader := by decide +kernel
  refine (interp_found_iff _ hload).mpr fun p hp => ?_
  cases hinterp.symm.trans hp
  exact ⟨by decide +kernel, by decide +kernel, rfl, by decide +kernel, by decide +kernel⟩

/-- The path `/lds` without a zero is returned as it is. -/
theorem interp_unterminated :
    ((load (.plain fun _ _ _ => true) (interpImage [0x2f, 0x6c, 0x64, 0x73])
      LFIAddrSpaceInfo.plain.minaddr 4096).run (.fresh .plain)).val =
      .ok (some ⟨0, 0, LFIAddrSpaceInfo.plain.minaddr + 8⟩) ∧
    ((elfinterp (fun _ => true) (interpImage [0x2f, 0x6c, 0x64, 0x73])).run ()).val =
      .ok (some [0x2f, 0x6c, 0x64, 0x73]) ∧
    ¬ InterpFound (fun _ => true) (interpImage [0x2f, 0x6c, 0x64, 0x73]) := by
  have hval : ((elfinterp (fun _ => true) (interpImage [0x2f, 0x6c, 0x64, 0x73])).run ()).val =
      .ok (some [0x2f, 0x6c, 0x64, 0x73]) := by decide +kernel
  refine ⟨by decide +kernel, hval, ?_⟩
  rintro ⟨o, ho, -, hb⟩
  cases hval.symm.trans ho
  obtain ⟨p, -, -, -, hzero⟩ := hb _ rfl
  exact absurd hzero (by decide)

end Libtux.Elf
