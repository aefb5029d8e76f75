import Dexe.Control.Layout
import Dexe.Frontend.Split

/-! The labels of an emitted body and its gotos. -/

namespace Dexe

def Transfer.target : Transfer → Option U64
  | .jump t => some t
  | .branch t => some t
  | .ret => none

namespace Control

open Backend Cfg Ir Frontend Text

def labelOf : Line → Option U64
  | .label a => some a
  | _ => none

def gotoOf (l : Line) : Option U64 := l.transfer.bind Transfer.target

def labels (lines : List Line) : List U64 := lines.filterMap labelOf
def gotos (lines : List Line) : List U64 := lines.filterMap gotoOf

def GotosClosed (lines : List Line) : Prop := ∀ a ∈ gotos lines, (labels lines).count a = 1

lemma blockLabel_injective : Function.Injective blockLabel := by
  intro a b h
  exact BitVec.eq_of_toNat_eq (hex_injective (List.append_cancel_left h))

section Text

variable {ir : IRInstruction} {t : U64} (symbols : SymbolTable) (funcNames : Std.TreeMap U64 Text)

lemma emitInstruction_jump (h : ir.opcode.transfer = some (.jump t)) :
    emitInstruction ir symbols funcNames = "goto " ++ blockLabel t ++ ";" := by
  rw [emitInstruction, Opcode.transfer_eq_jump h]

lemma emitInstruction_branch (h : ir.opcode.transfer = some (.branch t)) :
    ∃ condition, emitInstruction ir symbols funcNames =
      "if " ++ getCondExpr condition ++ " goto " ++ blockLabel t ++ ";" := by
  obtain ⟨condition, fallthrough, hop⟩ := Opcode.transfer_eq_branch h
  exact ⟨condition, by rw [emitInstruction, hop]⟩

lemma emitInstruction_ret (h : ir.opcode.transfer = some .ret) :
    emitInstruction ir symbols funcNames = "return cpu.rax;" := by
  rw [emitInstruction, Opcode.transfer_eq_ret h]

end Text

section Layout

variable {p : DisassembledInsn → Bool} {insns : List DisassembledInsn} {lines : List Line}

lemma labels_instructionLines (irs : List IRInstruction) : labels (instructionLines irs) = [] := by
  induction irs with
  | nil => rfl
  | cons ir irs ih => exact ih

lemma gotos_instructionLines {i : DisassembledInsn} {irs : List IRInstruction}
    (h : IsLiftOf i irs) :
    gotos (instructionLines irs) = ((transferOf i).bind Transfer.target).toList := by
  obtain ⟨before, op, rfl, hbefore, hop⟩ := h
  induction before with
  | nil =>
    rw [← hop]
    simp only [List.nil_append, List.map_cons, List.map_nil, instructionLines, gotos,
      List.filterMap_cons, List.filterMap_nil, gotoOf, Line.transfer]
    cases op.transfer.bind Transfer.target <;> rfl
  | cons o before ih =>
    have ho : o.transfer = none := hbefore o List.mem_cons_self
    have hrest := ih fun o' h' => hbefore o' (List.mem_cons_of_mem _ h')
    rw [← hrest]
    simp [instructionLines, gotos, gotoOf, Line.transfer, ho]

lemma Layout.labels (h : Layout p insns lines) :
    labels lines = (insns.filter p).map DisassembledInsn.address := by
  induction h with
  | nil => rfl
  | @cons i rest irs ls hi hrest ih =>
    have hstart : Control.labels (startLines p i) = if p i then [i.address] else [] := by
      rw [startLines]
      split <;> rfl
    have hend : Control.labels (endLines p rest) = [] := by
      rw [endLines]
      split <;> rfl
    have hsplit : ∀ l l', Control.labels (l ++ l') = Control.labels l ++ Control.labels l' :=
      fun l l' => List.filterMap_append
    rw [hsplit, hsplit, hsplit, hstart, labels_instructionLines, hend, ih]
    by_cases hp : p i = true <;> simp [hp]

lemma Layout.gotos (h : Layout p insns lines) :
    gotos lines = insns.filterMap fun i => (transferOf i).bind Transfer.target := by
  induction h with
  | nil => rfl
  | @cons i rest irs ls hi hrest ih =>
    have hstart : Control.gotos (startLines p i) = [] := by
      rw [startLines]
      split <;> rfl
    have hend : Control.gotos (endLines p rest) = [] := by
      rw [endLines]
      split <;> rfl
    have hsplit : ∀ l l', Control.gotos (l ++ l') = Control.gotos l ++ Control.gotos l' :=
      fun l l' => List.filterMap_append
    rw [hsplit, hsplit, hsplit, hstart, gotos_instructionLines hi, hend, ih, List.filterMap_cons]
    cases (transferOf i).bind Transfer.target <;> simp

end Layout

/-- The gotos of every function are closed exactly when every jump that is lifted goes to an
instruction of the same function at which the graph builder starts a block. -/
theorem gotosClosed_iff {cs : Capstone} {info : BinaryInfo} {functions : List DisassembledFunction}
    (hcs : DecodesInOrder cs info) (hfunctions : discoverFunctions cs info = .ok functions)
    {func : DisassembledFunction} (hfunc : func ∈ functions) {ir : IRFunction}
    (hlift : liftFunction (buildCfg func) = some ir) :
    GotosClosed (functionLines ir) ↔
      ∀ i ∈ func.instructions, ∀ a ∈ (transferOf i).bind Transfer.target,
        ∃ j ∈ func.instructions, j.address = a ∧ IsLeader func.instructions j := by
  obtain ⟨hne, hinc⟩ := discoverFunctions_increasing hcs hfunctions hfunc
  have hlayout := layout_functionLines hne hinc hlift
  have hnodup : (labels (functionLines ir)).Nodup := by
    rw [hlayout.labels]
    exact (List.pairwise_map.mpr ((hinc.filter _).imp ne_of_lt))
  have hmem : ∀ a, (labels (functionLines ir)).count a = 1 ↔
      ∃ j ∈ func.instructions, j.address = a ∧ IsLeader func.instructions j := by
    intro a
    have hone : (labels (functionLines ir)).count a = 1 ↔ a ∈ labels (functionLines ir) := by
      refine ⟨fun h => List.count_pos_iff.mp (by omega), List.count_eq_one_of_mem hnodup⟩
    rw [hone, hlayout.labels]
    simp only [List.mem_map, List.mem_filter, lead, decide_eq_true_iff]
    constructor
    · rintro ⟨j, ⟨hj, hlead⟩, rfl⟩
      exact ⟨j, hj, rfl, hlead⟩
    · rintro ⟨j, hj, rfl, hlead⟩
      exact ⟨j, ⟨hj, hlead⟩, rfl⟩
  rw [GotosClosed, hlayout.gotos]
  simp only [hmem, List.mem_filterMap]
  constructor
  · intro h i hi a ha
    exact h a ⟨i, hi, ha⟩
  · rintro h a ⟨i, hi, ha⟩
    exact h i hi a ha

def tailCallText : List UInt8 := [0x55, 0xe9, 0, 0, 0, 0, 0x55, 0xc3]

def tailCallInfo : BinaryInfo := ⟨.elf, 0x1000, 0x1000, tailCallText, ∅⟩

def tailCaller : DisassembledFunction :=
  ⟨"func_0x1000", 0x1000, 0x1006,
    [⟨0x1000, 1, "push", "rbp", [0x55]⟩, ⟨0x1001, 5, "jmp", "0x1006", [0xe9, 0, 0, 0, 0]⟩]⟩

def tailCallee : DisassembledFunction :=
  ⟨"func_0x1006", 0x1006, 0x1008,
    [⟨0x1006, 1, "push", "rbp", [0x55]⟩, ⟨0x1007, 1, "ret", "", [0xc3]⟩]⟩

def tailCallDecoder : Capstone :=
  decoderOf tailCallText 0x1000 (tailCaller.instructions ++ tailCallee.instructions)

lemma tailCall_functions :
    discoverFunctions tailCallDecoder tailCallInfo = .ok [tailCaller, tailCallee] := by rfl

lemma lift_tailCaller : (liftFunction (buildCfg tailCaller)).isSome = true := by decide

theorem tailCaller_not_gotosClosed :
    DecodesInOrder tailCallDecoder tailCallInfo ∧
    discoverFunctions tailCallDecoder tailCallInfo = .ok [tailCaller, tailCallee] ∧
    ∃ ir, liftFunction (buildCfg tailCaller) = some ir ∧ ¬ GotosClosed (functionLines ir) := by
  have hlift := (Option.some_get lift_tailCaller).symm
  refine ⟨decoderOf_inOrder _ (by decide), tailCall_functions, _, hlift, ?_⟩
  have hlayout := layout_functionLines (by decide) (by decide) hlift
  rw [GotosClosed, hlayout.gotos, hlayout.labels]
  intro h
  exact absurd (h 0x1006 (by decide)) (by decide)

theorem tailCaller_gotosClosed_iff :
    ∃ ir, liftFunction (buildCfg tailCaller) = some ir ∧
      (GotosClosed (functionLines ir) ↔
        ∀ i ∈ tailCaller.instructions, ∀ a ∈ (transferOf i).bind Transfer.target,
          ∃ j ∈ tailCaller.instructions, j.address = a ∧ IsLeader tailCaller.instructions j) :=
  have hlift := (Option.some_get lift_tailCaller).symm
  ⟨_, hlift, gotosClosed_iff (decoderOf_inOrder _ (by decide)) tailCall_functions (by decide)
    hlift⟩

end Control

end Dexe
