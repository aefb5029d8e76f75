import Dexe.Control.BlockEnds
import Dexe.Control.Simulation

/-! What an emitted function does where the text was cut: it returns, and runs no code of the
function after it. -/

namespace Dexe.Control

open Cfg Ir Frontend Trace Collections

section Events

variable {all lines : List Line} {P : U64 → Prop}

lemma atLabel_suffix {addr : U64} (h : atLabel all addr = some lines) : lines <:+ all :=
  fromFirst_suffix h

lemma runs_events (hP : ∀ l ∈ all, ∀ a ∈ l.event, P a) {os : List Bool} {tr : List U64}
    {fin : Bool} (h : Runs (next all) lines os tr fin) (hlines : lines <:+ all) :
    ∀ a ∈ tr, P a := by
  have hcons : ∀ {l : Line} {tr : List U64}, l ∈ all → (∀ a ∈ tr, P a) →
      ∀ a ∈ l.event.toList ++ tr, P a := by
    intro l tr hl htr a ha
    rcases List.mem_append.mp ha with ha | ha
    · exact hP l hl a (Option.mem_toList.mp ha)
    · exact htr a ha
  induction h with
  | here => simp
  | @stop s e h =>
    cases s with
    | nil => cases h
    | cons l rest =>
      have hstep := next_step all l rest
      rw [h] at hstep
      cases hstep with
      | stop =>
        have hnil : ∀ a ∈ ([] : List U64), P a := by simp
        simpa using hcons (hlines.subset List.mem_cons_self) hnil
  | @go s s' e os tr fin h hr ih =>
    cases s with
    | nil => cases h
    | cons l rest =>
      have hstep := next_step all l rest
      rw [h] at hstep
      have hl : l ∈ all := hlines.subset List.mem_cons_self
      cases hstep with
      | on => exact hcons hl (ih ((List.suffix_cons l _).trans hlines))
      | jump ha => exact hcons hl (ih (atLabel_suffix ha))
  | @test s yes no e o os tr fin h hr ih =>
    cases s with
    | nil => cases h
    | cons l rest =>
      have hstep := next_step all l rest
      rw [h] at hstep
      have hl : l ∈ all := hlines.subset List.mem_cons_self
      cases hstep with
      | branch ha =>
        refine hcons hl (ih ?_)
        cases o
        · exact (List.suffix_cons l _).trans hlines
        · exact atLabel_suffix ha

end Events

section Layout

variable {p : DisassembledInsn → Bool} {insns : List DisassembledInsn} {lines : List Line}

lemma addr_of_mem_event {ir : IRInstruction} {complete : Bool} {a : U64}
    (h : a ∈ (Line.instr ir complete).event) : ir.addr = a := by
  cases complete with
  | false => cases h
  | true => exact Option.some.inj h

lemma event_instructionLines {irs : List IRInstruction} {l : Line} {a : U64}
    (hl : l ∈ instructionLines irs) (ha : a ∈ l.event) : ∃ ir ∈ irs, ir.addr = a := by
  induction irs with
  | nil => cases hl
  | cons ir irs ih =>
    rcases List.mem_cons.mp hl with rfl | hl
    · exact ⟨ir, List.mem_cons_self, addr_of_mem_event ha⟩
    · obtain ⟨ir', hir', h⟩ := ih hl
      exact ⟨ir', List.mem_cons_of_mem _ hir', h⟩

lemma Layout.events (h : Layout p insns lines) :
    ∀ l ∈ lines, ∀ a ∈ l.event, ∃ i ∈ insns, i.address = a := by
  induction h with
  | nil => simp [Line.event]
  | @cons i rest irs ls hi hrest ih =>
    intro l hl a ha
    simp only [List.mem_append] at hl
    rcases hl with ((hl | hl) | hl) | hl
    · rw [startLines] at hl
      split at hl
      · simp only [List.mem_cons, List.not_mem_nil, or_false] at hl
        rcases hl with rfl | rfl <;> cases ha
      · cases hl
    · obtain ⟨ir, hir, rfl⟩ := event_instructionLines hl ha
      exact ⟨i, List.mem_cons_self, (hi.addr ir hir).symm⟩
    · rw [endLines] at hl
      split at hl
      · rw [List.mem_singleton.mp hl] at ha
        cases ha
      · cases hl
    · obtain ⟨j, hj, h⟩ := ih l hl a ha
      exact ⟨j, List.mem_cons_of_mem _ hj, h⟩

lemma instructionLines_last {i : DisassembledInsn} {irs : List IRInstruction}
    (h : IsLiftOf i irs) : ∃ before ir, instructionLines irs = before ++ [.instr ir true] ∧
      ir.addr = i.address ∧ ir.opcode.transfer = transferOf i := by
  obtain ⟨before, op, rfl, -, hop⟩ := h
  suffices ∃ lines, instructionLines ((before ++ [op]).map (⟨i.address, ·⟩)) =
      lines ++ [.instr ⟨i.address, op⟩ true] by
    obtain ⟨lines, hlines⟩ := this
    exact ⟨lines, _, hlines, rfl, hop⟩
  induction before with
  | nil => exact ⟨[], rfl⟩
  | cons o before ih =>
    obtain ⟨lines, hlines⟩ := ih
    exact ⟨_ :: lines, by rw [List.cons_append, List.map_cons, instructionLines, hlines]; rfl⟩

lemma Layout.last (h : Layout p insns lines) {i : DisassembledInsn}
    (hlast : insns.getLast? = some i) : ∃ before ir,
      lines = before ++ [.instr ir true, .blockEnd, .defaultReturn] ∧ ir.addr = i.address ∧
        ir.opcode.transfer = transferOf i := by
  induction h with
  | nil => cases hlast
  | @cons j rest irs ls hj hrest ih =>
    cases rest with
    | nil =>
      obtain rfl : j = i := by simpa using hlast
      obtain ⟨before, ir, hlines, haddr, htransfer⟩ := instructionLines_last hj
      cases hrest
      refine ⟨startLines p j ++ before, ir, ?_, haddr, htransfer⟩
      rw [hlines]
      simp [endLines]
    | cons k rest =>
      rw [List.getLast?_cons_cons] at hlast
      obtain ⟨before, ir, rfl, haddr, htransfer⟩ := ih hlast
      exact ⟨_ ++ before, ir, (List.append_assoc _ _ _).symm, haddr, htransfer⟩

end Layout

/-- Where a function was cut off at the start of the next one, its body ends in the default
return, and no run of the body comes to an instruction of the next function. -/
theorem returns_at_boundary {cs : Capstone} {info : BinaryInfo}
    {functions : List DisassembledFunction} (hcs : DecodesInOrder cs info)
    (hfunctions : discoverFunctions cs info = .ok functions) {f g : DisassembledFunction}
    (hf : f ∈ functions) (hg : g ∈ functions) (hend : f.endAddr = g.startAddr)
    {last : DisassembledInsn} (hlast : f.instructions.getLast? = some last) {ir : IRFunction}
    (hlift : liftFunction (buildCfg f) = some ir) :
    (∃ before lastIr,
      functionLines ir = before ++ [.instr lastIr true, .blockEnd, .defaultReturn] ∧
      lastIr.addr = last.address ∧ lastIr.opcode.transfer = transferOf last) ∧
    Runs (next (functionLines ir)) [.blockEnd, .defaultReturn] [] [] true ∧
    ∀ outcomes trace stopped,
      Runs (next (functionLines ir)) (functionLines ir) outcomes trace stopped →
        ∀ a ∈ trace, (∃ i ∈ f.instructions, i.address = a) ∧
          ∀ j ∈ g.instructions, j.address ≠ a := by
  obtain ⟨insns, hins, hslices⟩ := discoverFunctions_slices hfunctions
  obtain ⟨hne, hinc⟩ := discoverFunctions_increasing hcs hfunctions hf
  have hlayout := layout_functionLines hne hinc hlift
  have hend' : next (functionLines ir) [.blockEnd, .defaultReturn] =
      .go none [.defaultReturn] := rfl
  have hreturn : next (functionLines ir) [.defaultReturn] = .stop none := rfl
  refine ⟨hlayout.last hlast, .go hend' (.stop hreturn), ?_⟩
  intro outcomes trace stopped hruns a ha
  obtain ⟨i, hi, rfl⟩ := runs_events hlayout.events hruns (List.suffix_refl _) a ha
  exact ⟨⟨i, hi, rfl⟩, fun j hj => (hslices f hf).address_ne (hslices g hg) hend hi hj⟩

def cutText : List UInt8 := [0x90, 0x55, 0xc3]

def cutInfo : BinaryInfo := ⟨.elf, 0x1000, 0x1000, cutText, ∅⟩

def cutHead : DisassembledFunction :=
  ⟨"func_0x1000", 0x1000, 0x1001, [⟨0x1000, 1, "nop", "", [0x90]⟩]⟩

def cutTail : DisassembledFunction :=
  ⟨"func_0x1001", 0x1001, 0x1003,
    [⟨0x1001, 1, "push", "rbp", [0x55]⟩, ⟨0x1002, 1, "ret", "", [0xc3]⟩]⟩

def cutDecoder : Capstone :=
  decoderOf cutText 0x1000 (cutHead.instructions ++ cutTail.instructions)

lemma cut_functions : discoverFunctions cutDecoder cutInfo = .ok [cutHead, cutTail] := by rfl

lemma lift_cutHead : (liftFunction (buildCfg cutHead)).isSome = true := by decide

theorem cutHead_returns : DecodesInOrder cutDecoder cutInfo ∧
    discoverFunctions cutDecoder cutInfo = .ok [cutHead, cutTail] ∧
    cutHead.endAddr = cutTail.startAddr ∧
    (∃ last, cutHead.instructions.getLast? = some last ∧ ¬ IsUnconditional last.mnemonic) ∧
    ∃ ir, liftFunction (buildCfg cutHead) = some ir ∧
      Runs (next (functionLines ir)) (functionLines ir) [] [0x1000] true ∧
      ∀ outcomes trace stopped,
        Runs (next (functionLines ir)) (functionLines ir) outcomes trace stopped →
          (0x1001 : U64) ∉ trace := by
  have hlift := (Option.some_get lift_cutHead).symm
  have hlayout := layout_functionLines (by decide) (by decide) hlift
  refine ⟨decoderOf_inOrder _ (by decide), cut_functions, rfl, ⟨_, rfl, by decide⟩, _, hlift, ?_,
    ?_⟩
  · have hsim := simulation_body (by decide) (by decide) hlayout
    have hnop : machineNext cutHead.instructions cutHead.instructions = .go (some 0x1000) [] := rfl
    have hend : machineNext cutHead.instructions [] = .stop none := rfl
    exact hsim.runs ⟨List.suffix_refl _, _, .refl _, hlayout⟩ (.go hnop (.stop hend))
  · intro outcomes trace stopped hruns hmem
    obtain ⟨i, hi, ha⟩ := runs_events hlayout.events hruns (List.suffix_refl _) _ hmem
    rw [List.mem_singleton.mp hi] at ha
    exact absurd ha (by decide)

theorem cutHead_returns_at_boundary :
    ∃ ir, liftFunction (buildCfg cutHead) = some ir ∧
      (∃ before lastIr,
        functionLines ir = before ++ [.instr lastIr true, .blockEnd, .defaultReturn] ∧
        lastIr.addr = 0x1000 ∧ lastIr.opcode.transfer =
          transferOf ⟨0x1000, 1, "nop", "", [0x90]⟩) ∧
      Runs (next (functionLines ir)) [.blockEnd, .defaultReturn] [] [] true ∧
      ∀ outcomes trace stopped,
        Runs (next (functionLines ir)) (functionLines ir) outcomes trace stopped →
          ∀ a ∈ trace, (∃ i ∈ cutHead.instructions, i.address = a) ∧
            ∀ j ∈ cutTail.instructions, j.address ≠ a :=
  have hlift := (Option.some_get lift_cutHead).symm
  ⟨_, hlift, returns_at_boundary (decoderOf_inOrder _ (by decide)) cut_functions (by decide)
    (by decide) rfl rfl hlift⟩

end Dexe.Control
