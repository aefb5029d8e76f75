import Dexe.Backend.Declarations
import Dexe.Control.Layout
import Dexe.Pipeline

/-! What becomes of the instructions of a text section: from the first function on, each one is
emitted once, in the order of the addresses. -/

namespace Dexe.Control

open Std Cfg Ir Frontend Backend

lemma events_instructionLines {a : U64} {irs : List IRInstruction} (hne : irs ≠ [])
    (haddr : ∀ ir ∈ irs, ir.addr = a) : (instructionLines irs).filterMap Line.event = [a] := by
  induction irs with
  | nil => exact absurd rfl hne
  | cons ir irs ih =>
    have hir : ir.addr = a := haddr ir List.mem_cons_self
    cases irs with
    | nil => simp [instructionLines, Line.event, hir]
    | cons next irs =>
      have hnext : next.addr = a := haddr next (by simp)
      have hrest := ih (by simp) fun x hx => haddr x (List.mem_cons_of_mem _ hx)
      rw [instructionLines, List.filterMap_cons_none, hrest]
      simp [Line.event, hir, hnext]

lemma Layout.filterMap_event {p : DisassembledInsn → Bool} {insns : List DisassembledInsn}
    {lines : List Line} (h : Layout p insns lines) :
    lines.filterMap Line.event = insns.map DisassembledInsn.address := by
  have hstart : ∀ i, (startLines p i).filterMap Line.event = [] := by
    intro i
    rw [startLines]
    split <;> rfl
  have hend : ∀ rest, (endLines p rest).filterMap Line.event = [] := by
    intro rest
    rw [endLines]
    split <;> rfl
  induction h with
  | nil => rfl
  | @cons i rest irs lines hi hrest ih =>
    rw [List.filterMap_append, List.filterMap_append, List.filterMap_append, hstart, hend, ih,
      events_instructionLines hi.ne_nil hi.addr]
    rfl

section Stream

variable {info : BinaryInfo} {insns : List DisassembledInsn} {start : U64}

variable {cs : Capstone} {functions : List DisassembledFunction} {irs : List IRFunction}

lemma events_functions (hlift : liftAll functions = some irs)
    (hfunctions : ∀ f ∈ functions, f.instructions ≠ [] ∧ Increasing f.instructions) :
    (irs.flatMap functionLines).filterMap Line.event =
      (functions.flatMap (·.instructions)).map DisassembledInsn.address := by
  have hall := forall₂_of_mapM hlift
  clear hlift
  induction hall with
  | nil => rfl
  | @cons f ir functions irs hir _ ih =>
    obtain ⟨hne, hinc⟩ := hfunctions f List.mem_cons_self
    rw [List.flatMap_cons, List.flatMap_cons, List.filterMap_append, List.map_append,
      (layout_functionLines hne hinc hir).filterMap_event,
      ih fun f hf => hfunctions f (List.mem_cons_of_mem _ hf)]

/-- The bodies of the emitted file are lines that finish each instruction from the first function
on exactly once, in the order of the stream, and no other instruction. -/
theorem emitted_once (h : discoverFunctions cs info = .ok functions)
    (hd : cs.disasmAll info.textData info.textSectionAddr = .ok insns) (hinc : Increasing insns)
    (hfits : Fits info) (hin : ∀ i ∈ insns, InSection info i.address)
    (hstart : start ∈ (funcStarts info insns).min?) (hlift : liftAll functions = some irs) :
    bodies irs info.symbols = (irs.map fun ir =>
        renderFunction info.symbols (funcNameMap irs) ir.name (functionLines ir) ++
          line "").flatten ∧
      (irs.flatMap functionLines).filterMap Line.event =
        (insns.filter fun i => decide (start ≤ i.address)).map DisassembledInsn.address := by
  refine ⟨?_, ?_⟩
  · simp only [bodies, emitFunction_eq_render]
  · have hcs : DecodesInOrder cs info := decodesInOrder hd hinc
    have htested : ∀ i ∈ insns, Tested info i.address := fun i hi =>
      (tested_iff hfits).mpr (hin i hi)
    rw [events_functions hlift fun f hf => discoverFunctions_increasing hcs h hf,
      discoverFunctions_eq h hd, flatMap_sortedStarts hinc htested hstart]

lemma lift_smallFunctions : (liftAll smallFunctions).isSome = true := by decide

theorem smallText_emitted_once : ∃ irs, liftAll smallFunctions = some irs ∧
    (bodies irs smallText.symbols = (irs.map fun ir =>
        renderFunction smallText.symbols (funcNameMap irs) ir.name (functionLines ir) ++
          line "").flatten ∧
      (irs.flatMap functionLines).filterMap Line.event =
        (smallInsns.filter fun i => decide (0x1000 ≤ i.address)).map DisassembledInsn.address) := by
  have hlift := (Option.some_get lift_smallFunctions).symm
  have hstart : 0x1000 ∈ (funcStarts smallText smallInsns).min? := by
    rw [TreeSet.min?_eq_head?_toList]
    rfl
  exact ⟨_, hlift, emitted_once smallFunctions_ok smallDecoder_ok (by decide) (by decide)
    (by decide) hstart hlift⟩

end Stream

end Dexe.Control
