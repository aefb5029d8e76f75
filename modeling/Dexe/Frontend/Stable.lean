import Dexe.Frontend.Load

/-! Symbols for the functions that are found: they are found again. -/

namespace Dexe.Frontend

open Std Collections

variable {cs : Capstone} {info : BinaryInfo} {insns : List DisassembledInsn} {starts : List U64}
  {textEnd : U64} {symbols symbols' : SymbolTable} {functions : List DisassembledFunction}

structure Renames (symbols symbols' : SymbolTable) (functions : List DisassembledFunction) :
    Prop where
  named : ∀ f ∈ functions, symbols'[f.startAddr]? = some f.name
  other : ∀ a, (∀ f ∈ functions, f.startAddr ≠ a) → symbols'[a]? = symbols[a]?

lemma Renames.mem_iff (h : Renames symbols symbols' functions) (a : U64) :
    a ∈ symbols' ↔ a ∈ symbols ∨ ∃ f ∈ functions, f.startAddr = a := by
  have hmem : ∀ t : SymbolTable, a ∈ t ↔ t[a]?.isSome := fun t => TreeMap.mem_iff_isSome_getElem?
  by_cases ha : ∃ f ∈ functions, f.startAddr = a
  · obtain ⟨f, hf, rfl⟩ := ha
    rw [hmem, h.named f hf]
    exact iff_of_true rfl (.inr ⟨f, hf, rfl⟩)
  · have hne : ∀ f ∈ functions, f.startAddr ≠ a := fun f hf hfa => ha ⟨f, hf, hfa⟩
    rw [hmem, h.other a hne, ← hmem]
    exact (or_iff_left ha).symm

lemma sortedStarts_renamed (h : Renames info.symbols symbols' functions)
    (hstarts : ∀ f ∈ functions, f.startAddr ∈ sortedStarts info insns) :
    sortedStarts { info with symbols := symbols' } insns = sortedStarts info insns := by
  apply toList_congr
  intro a
  rw [mem_funcStarts, mem_funcStarts]
  have hother : (∃ i ∈ insns, isPrologue i ∧ i.address = a) ∨
      IsCallTarget { info with symbols := symbols' } insns a ↔
      (∃ i ∈ insns, isPrologue i ∧ i.address = a) ∨ IsCallTarget info insns a := Iff.rfl
  rw [hother]
  constructor
  · rintro (⟨hsection, hsymbol | hentry⟩ | hrest)
    · rcases (h.mem_iff a).mp hsymbol with hold | ⟨f, hf, rfl⟩
      · exact .inl ⟨hsection, .inl hold⟩
      · exact mem_funcStarts.mp (mem_sortedStarts.mp (hstarts f hf))
    · exact .inl ⟨hsection, .inr hentry⟩
    · exact .inr hrest
  · rintro (⟨hsection, hsymbol | hentry⟩ | hrest)
    · exact .inl ⟨hsection, .inl ((h.mem_iff a).mpr (.inl hsymbol))⟩
    · exact .inl ⟨hsection, .inr hentry⟩
    · exact .inr hrest

lemma functionAt_renamed {start stop : U64}
    (h : ∀ f ∈ functionAt symbols insns start stop, symbols'[f.startAddr]? = some f.name) :
    functionAt symbols' insns start stop = functionAt symbols insns start stop := by
  cases hf : functionAt symbols insns start stop with
  | none =>
    simp only [functionAt]
    rw [if_pos (functionAt_none hf)]
  | some f =>
    have hname := h f hf
    obtain rfl := functionAt_some hf
    have hnonempty := (functionAt_slice hf).nonempty
    simp only [functionAt]
    rw [if_neg hnonempty, funcName, hname]
    rfl

lemma splitFunctions_renamed
    (h : ∀ f ∈ splitFunctions symbols insns starts textEnd, symbols'[f.startAddr]? = some f.name) :
    splitFunctions symbols' insns starts textEnd = splitFunctions symbols insns starts textEnd := by
  induction starts with
  | nil => rfl
  | cons start starts ih =>
    rw [splitFunctions_cons] at h
    rw [splitFunctions_cons, splitFunctions_cons, ih, functionAt_renamed]
    · intro f hf
      exact h f (List.mem_append_left _ (Option.mem_toList.mpr hf))
    · intro f hf
      exact h f (List.mem_append_right _ hf)

lemma name_splitFunctions {f : DisassembledFunction}
    (h : f ∈ splitFunctions symbols insns starts textEnd) :
    f.name = funcName symbols f.startAddr := by
  obtain ⟨p, -, hp⟩ := List.mem_filterMap.mp h
  rw [functionAt_some hp]

lemma nodup_startAddr (h : discoverFunctions cs info = .ok functions) :
    (functions.map DisassembledFunction.startAddr).Nodup := by
  obtain ⟨insns, hd, -⟩ := discoverFunctions_slices h
  rw [List.Nodup, List.pairwise_map, discoverFunctions_eq h hd]
  exact (separated_splitFunctions sortedStarts_sorted).ascending.imp BitVec.ne_of_lt

lemma discoverFunctions_renamed (h : discoverFunctions cs info = .ok functions)
    (hr : Renames info.symbols symbols' functions) :
    discoverFunctions cs { info with symbols := symbols' } = .ok functions := by
  obtain ⟨insns, hd, -⟩ := discoverFunctions_slices h
  have hsplit := discoverFunctions_eq h hd
  have hstarts : ∀ f ∈ functions, f.startAddr ∈ sortedStarts info insns := by
    intro f hf
    rw [hsplit] at hf
    exact startAddr_mem hf
  have hsame := splitFunctions_renamed (hsplit ▸ hr.named)
  cases hb : cs.build with
  | error e =>
    rw [discoverFunctions, hb] at h
    cases h
  | ok u =>
    have hagain : discoverFunctions cs { info with symbols := symbols' } =
        .ok (splitFunctions symbols' insns
          (sortedStarts { info with symbols := symbols' } insns) (endOfText info)) := by
      rw [discoverFunctions, hb, hd]
      rfl
    rw [hagain, sortedStarts_renamed hr hstarts, hsame, ← hsplit]

end Dexe.Frontend
