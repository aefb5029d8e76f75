import Dexe.Cfg.Leaders
import Dexe.Frontend

/-! The functions that the text section is split into. -/

namespace Dexe.Frontend

open Cfg

/-- The instructions that Capstone decodes in the text are in the order of their addresses. -/
def DecodesInOrder (cs : Capstone) (info : BinaryInfo) : Prop :=
  ∀ insns, cs.disasmAll info.textData info.textSectionAddr = .ok insns → Increasing insns

lemma decodesInOrder {cs : Capstone} {info : BinaryInfo} {insns : List DisassembledInsn}
    (hd : cs.disasmAll info.textData info.textSectionAddr = .ok insns) (hinc : Increasing insns) :
    DecodesInOrder cs info := fun _ h => Except.ok.inj (hd.symm.trans h) ▸ hinc

structure IsSlice (insns : List DisassembledInsn) (f : DisassembledFunction) : Prop where
  nonempty : f.instructions ≠ []
  instructions : f.instructions =
    insns.filter fun i => decide (f.startAddr ≤ i.address ∧ i.address < f.endAddr)

lemma functionAt_slice {symbols : SymbolTable} {insns : List DisassembledInsn} {start stop : U64}
    {f : DisassembledFunction} (h : functionAt symbols insns start stop = some f) :
    IsSlice insns f := by
  simp only [functionAt] at h
  split at h
  · cases h
  · rename_i hne
    cases h
    exact ⟨hne, rfl⟩

lemma splitFunctions_slice {symbols : SymbolTable} {insns : List DisassembledInsn}
    {starts : List U64} {textEnd : U64} {f : DisassembledFunction}
    (h : f ∈ splitFunctions symbols insns starts textEnd) : IsSlice insns f := by
  obtain ⟨p, _, hp⟩ := List.mem_filterMap.mp h
  exact functionAt_slice hp

lemma discoverFunctions_slices {cs : Capstone} {info : BinaryInfo}
    {functions : List DisassembledFunction} (h : discoverFunctions cs info = .ok functions) :
    ∃ insns, cs.disasmAll info.textData info.textSectionAddr = .ok insns ∧
      ∀ f ∈ functions, IsSlice insns f := by
  rw [discoverFunctions] at h
  cases hb : cs.build with
  | error e =>
    rw [hb] at h
    cases h
  | ok u =>
    cases hd : cs.disasmAll info.textData info.textSectionAddr with
    | error e =>
      rw [hb, hd] at h
      cases h
    | ok insns =>
      rw [hb, hd] at h
      cases h
      exact ⟨insns, rfl, fun f hf => splitFunctions_slice hf⟩

section Slices

variable {insns : List DisassembledInsn} {f g : DisassembledFunction}

lemma IsSlice.increasing (h : IsSlice insns f) (hinc : Increasing insns) :
    Increasing f.instructions := h.instructions ▸ hinc.filter _

lemma IsSlice.mem_range (h : IsSlice insns f) {i : DisassembledInsn} (hi : i ∈ f.instructions) :
    f.startAddr ≤ i.address ∧ i.address < f.endAddr := by
  rw [h.instructions, List.mem_filter] at hi
  simpa using hi.2

lemma IsSlice.address_ne (hf : IsSlice insns f) (hg : IsSlice insns g)
    (hend : f.endAddr = g.startAddr) {i j : DisassembledInsn} (hi : i ∈ f.instructions)
    (hj : j ∈ g.instructions) : j.address ≠ i.address := by
  intro he
  have hlt := (hf.mem_range hi).2
  have hle := (hg.mem_range hj).1
  rw [hend, ← he] at hlt
  exact absurd hle (BitVec.not_le.mpr hlt)

end Slices

lemma discoverFunctions_increasing {cs : Capstone} {info : BinaryInfo}
    {functions : List DisassembledFunction} (hcs : DecodesInOrder cs info)
    (h : discoverFunctions cs info = .ok functions) {f : DisassembledFunction}
    (hf : f ∈ functions) :
    f.instructions ≠ [] ∧ Increasing f.instructions := by
  obtain ⟨insns, hins, hslices⟩ := discoverFunctions_slices h
  exact ⟨(hslices f hf).nonempty, (hslices f hf).increasing (hcs _ hins)⟩

def decoderOf (data : List UInt8) (addr : U64) (insns : List DisassembledInsn) : Capstone where
  build := .ok ()
  disasmAll d a := if d = data ∧ a = addr then .ok insns else .error "unknown text"

lemma decoderOf_eq_ok {data d : List UInt8} {addr a : U64} {insns insns' : List DisassembledInsn}
    (h : (decoderOf data addr insns).disasmAll d a = .ok insns') : insns' = insns := by
  simp only [decoderOf] at h
  split at h
  · exact (Except.ok.inj h).symm
  · cases h

lemma decoderOf_inOrder {data : List UInt8} {addr : U64} {insns : List DisassembledInsn}
    (info : BinaryInfo) (h : Increasing insns) : DecodesInOrder (decoderOf data addr insns) info :=
  fun _ hd => decoderOf_eq_ok hd ▸ h

end Dexe.Frontend
