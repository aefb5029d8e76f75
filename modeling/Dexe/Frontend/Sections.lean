import Dexe.Bits.Checked
import Dexe.Frontend.Starts

/-! The section that is taken for the text (`find_text_section`), and the ends of ranges. The
object file is a parameter. A result `none` is an overflow of the source. -/

namespace Dexe.Frontend

open Bits

structure Section where
  address : U64
  size : U64
  data : Except Text (List UInt8)

structure ObjectFile where
  sectionByName : Text → Option Section
  sections : List Section

def Section.range (sec : Section) : Except Text (U64 × List UInt8) :=
  sec.data.map fun data => (sec.address, data)

def spanningSection (entry : U64) : List Section → Option (Option Section)
  | [] => some none
  | sec :: sections => do
    let start := sec.address
    let stop ← checkedAdd start sec.size
    if start ≤ entry ∧ entry < stop then return some sec
    else spanningSection entry sections

def findTextSection (obj : ObjectFile) (entry : U64) : Option (Except Text (U64 × List UInt8)) :=
  match obj.sectionByName ".text" with
  | some sec => some sec.range
  | none => do
    match ← spanningSection entry obj.sections with
    | some sec => return sec.range
    | none =>
      return .error "Could not locate a .text section or a section containing the entry point"

namespace Section

variable (sec : Section)

def Contains (a : U64) : Prop :=
  sec.address.toNat ≤ a.toNat ∧ a.toNat < sec.address.toNat + sec.size.toNat

instance (a : U64) : Decidable (sec.Contains a) := inferInstanceAs (Decidable (_ ∧ _))

def Ends : Prop := sec.address.toNat + sec.size.toNat < 2 ^ 64

end Section

variable {entry : U64} {sections : List Section}

lemma spanningSection_cons {sec : Section} :
    spanningSection entry (sec :: sections) = (checkedAdd sec.address sec.size).bind fun _ =>
      if sec.Contains entry then some (some sec) else spanningSection entry sections := by
  rw [spanningSection]
  by_cases hends : sec.Ends
  · have hcontains : sec.address ≤ entry ∧ entry < sec.address + sec.size ↔ sec.Contains entry := by
      rw [lt_add_iff hends]
      rfl
    rw [checkedAdd_of_lt hends]
    exact if_congr hcontains rfl rfl
  · rw [checkedAdd_eq_none_iff.mpr (not_lt.mp hends)]
    rfl

def lookedAt (entry : U64) : List Section → List Section
  | [] => []
  | sec :: sections => sec :: if sec.Contains entry then [] else lookedAt entry sections

def ScanEnds (entry : U64) (sections : List Section) : Prop :=
  ∀ sec ∈ lookedAt entry sections, sec.Ends

lemma spanningSection_of_ends (h : ScanEnds entry sections) :
    spanningSection entry sections = some (sections.find? fun sec => sec.Contains entry) := by
  induction sections with
  | nil => rfl
  | cons sec sections ih =>
    rw [ScanEnds, lookedAt, List.forall_mem_cons] at h
    obtain ⟨hends, hrest⟩ := h
    rw [spanningSection_cons, checkedAdd_of_lt hends, Option.bind_some, List.find?_cons]
    by_cases hcontains : sec.Contains entry
    · simp [hcontains]
    · simp only [hcontains, if_false, decide_false] at hrest ⊢
      exact ih hrest

lemma spanningSection_of_not_ends (h : ¬ ScanEnds entry sections) :
    spanningSection entry sections = none := by
  induction sections with
  | nil => exact absurd (by simp [ScanEnds, lookedAt]) h
  | cons sec sections ih =>
    rw [ScanEnds, lookedAt, List.forall_mem_cons] at h
    rw [spanningSection_cons]
    by_cases hends : sec.Ends
    · rw [checkedAdd_of_lt hends, Option.bind_some]
      by_cases hcontains : sec.Contains entry
      · simp [hends, hcontains] at h
      · simp only [hcontains, if_false] at h ⊢
        exact ih fun hrest => h ⟨hends, hrest⟩
    · rw [checkedAdd_eq_none_iff.mpr (not_lt.mp hends), Option.bind_none]

variable {obj : ObjectFile}

lemma findTextSection_fallback (hname : obj.sectionByName ".text" = none)
    (hends : ScanEnds entry obj.sections) :
    findTextSection obj entry = some
      (match obj.sections.find? fun sec => sec.Contains entry with
      | some sec => sec.range
      | none => .error
          "Could not locate a .text section or a section containing the entry point") := by
  rw [findTextSection, hname, spanningSection_of_ends hends]
  cases obj.sections.find? fun sec => sec.Contains entry <;> rfl

lemma findTextSection_eq_none (hname : obj.sectionByName ".text" = none)
    (hends : ¬ ScanEnds entry obj.sections) : findTextSection obj entry = none := by
  rw [findTextSection, hname, spanningSection_of_not_ends hends]
  rfl

/-- The text is the first section that contains the entry point, and there is none only if no
section contains it. -/
structure FallbackExact (obj : ObjectFile) (entry : U64) : Prop where
  first : ∀ sec ∈ obj.sections.find? (fun sec => sec.Contains entry), ∃ data,
    sec.data = .ok data ∧ findTextSection obj entry = some (.ok (sec.address, data))
  missing : obj.sections.find? (fun sec => sec.Contains entry) = none →
    ∃ e, findTextSection obj entry = some (.error e)

lemma fallbackExact_iff (hname : obj.sectionByName ".text" = none) :
    FallbackExact obj entry ↔ ScanEnds entry obj.sections ∧
      ∀ sec ∈ obj.sections.find? (fun sec => sec.Contains entry), ∃ data, sec.data = .ok data := by
  constructor
  · intro h
    refine ⟨?_, fun sec hsec => ?_⟩
    · by_contra hends
      have hnone := findTextSection_eq_none hname hends
      cases hfind : obj.sections.find? fun sec => sec.Contains entry with
      | none =>
        obtain ⟨e, hmissing⟩ := h.missing hfind
        rw [hmissing] at hnone
        cases hnone
      | some sec =>
        obtain ⟨data, -, hfound⟩ := h.first sec hfind
        rw [hfound] at hnone
        cases hnone
    · obtain ⟨data, hdata, -⟩ := h.first sec hsec
      exact ⟨data, hdata⟩
  · rintro ⟨hends, hdata⟩
    have hfallback := findTextSection_fallback hname hends
    refine ⟨fun sec hsec => ?_, fun hnone => ?_⟩
    · obtain ⟨data, hok⟩ := hdata sec hsec
      rw [Option.mem_def.mp hsec] at hfallback
      refine ⟨data, hok, hfallback.trans ?_⟩
      show some sec.range = _
      rw [Section.range, hok]
      rfl
    · rw [hfallback, hnone]
      exact ⟨_, rfl⟩

structure TextExact (info : BinaryInfo) : Prop where
  stop : checkedAdd info.textSectionAddr (BitVec.ofNat 64 info.textData.length) =
    some (endOfText info)
  tested : ∀ a, Tested info a ↔ InSection info a

lemma textExact_iff (info : BinaryInfo) : TextExact info ↔ Fits info := by
  constructor
  · intro h
    by_contra hge
    -- the last address is in the text then, but no address is above it
    have htop : (BitVec.allOnes 64).toNat = 2 ^ 64 - 1 := by decide
    have haddr := info.textSectionAddr.isLt
    rw [Fits] at hge
    have hin : InSection info (BitVec.allOnes 64) := by
      rw [InSection]
      omega
    have hlt := ((h.tested _).mpr hin).2
    rw [BitVec.lt_def] at hlt
    have hend := (endOfText info).isLt
    omega
  · intro h
    have hlen := toNat_length h.length_lt
    exact ⟨checkedAdd_of_lt (hlen.symm ▸ h), fun a => tested_iff h⟩

/-- The fallback of the text section and the tests for addresses in the text are exact and do not
overflow exactly where no section that is looked at, and not the text, reaches the top of the
address space, and the section that is taken can be read. -/
theorem ranges_exact_iff {obj : ObjectFile} {entry : U64} (info : BinaryInfo)
    (hname : obj.sectionByName ".text" = none) :
    (FallbackExact obj entry ↔ ScanEnds entry obj.sections ∧
      ∀ sec ∈ obj.sections.find? (fun sec => sec.Contains entry), ∃ data, sec.data = .ok data) ∧
    (TextExact info ↔ Fits info) :=
  ⟨fallbackExact_iff hname, textExact_iff info⟩

def plainObject : ObjectFile where
  sectionByName _ := none
  sections := [⟨0x1000, 0x10, .ok []⟩, ⟨0x2000, 2, .ok [0x55, 0xc3]⟩]

theorem plainObject_ranges_exact_iff :
    (FallbackExact plainObject 0x2001 ↔ ScanEnds 0x2001 plainObject.sections ∧
      ∀ sec ∈ plainObject.sections.find? (fun sec => sec.Contains 0x2001),
        ∃ data, sec.data = .ok data) ∧
    (TextExact smallText ↔ Fits smallText) :=
  ranges_exact_iff smallText rfl

def topSection : Section := ⟨0xfffffffffffff000, 0x1000, .ok []⟩

def topObject : ObjectFile where
  sectionByName _ := none
  sections := [topSection]

theorem topSection_not_found :
    topObject.sectionByName ".text" = none ∧ topSection.Contains 0xfffffffffffff800 ∧
      ¬ FallbackExact topObject 0xfffffffffffff800 := by
  refine ⟨rfl, by decide, fun h => ?_⟩
  have hends := ((fallbackExact_iff rfl).mp h).1 topSection List.mem_cons_self
  rw [Section.Ends] at hends
  exact absurd hends (by decide)

end Dexe.Frontend
