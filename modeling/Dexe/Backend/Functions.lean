import Dexe.Backend.Declarations
import Dexe.Backend.Reading
import Dexe.Clang.FunctionTexts

/-! The emitted functions, as C reads them. -/

namespace Dexe.Backend

open Std Text Clang

variable (symbols : SymbolTable) (funcNames : TreeMap U64 Text)

def instructionItems (ir : IRInstruction) : List Item :=
  (opcodeStmts symbols funcNames ir.opcode).map .stmt

def blockItems (b : IRBlock) : List Item :=
  .label (blockLabel b.startAddr) ::
    .opened :: (b.instructions.flatMap (instructionItems symbols funcNames) ++ [.closed])

def returnItem : Item := .stmt (.ret (cpuField "rax"))

def discardItem : Item := .stmt (.expr (.cast .void (.var "tmp")))

def functionDef (func : IRFunction) : FunctionDef where
  name := sanitiseCIdent func.name
  localName := "tmp"
  localValue := ⟨false, 0, .none⟩
  body := discardItem ::
    ((sortedBlocks func).flatMap (blockItems symbols funcNames) ++ [returnItem])

/-- C takes the names in the function for names, and the comments in it end. -/
structure Readable (func : IRFunction) : Prop where
  name : IsIdent (sanitiseCIdent func.name)
  reads : ∀ b ∈ func.blockList, ∀ ir ∈ b.instructions, Reads symbols funcNames ir.opcode

lemma isIdent_blockLabel (addr : U64) : IsIdent (blockLabel addr) := by
  have hall : ∀ w ∈ keywords ++ typeWords, w.head? ≠ some 'B' := by decide
  have hnot : blockLabel addr ∉ keywords ++ typeWords := fun h => hall _ h rfl
  rw [List.mem_append, not_or] at hnot
  exact ⟨isWord_blockLabel addr, hnot⟩

lemma closed_newline : Closed "\n" [] := by
  intro u
  simp [lexFrom, lexStep, beginToken, isSpace]

lemma closed_indent : Closed "    " [] := by
  intro u
  simp [lexFrom_start_space]

variable {symbols funcNames}

lemma spells_block {b : IRBlock} (h : ∀ ir ∈ b.instructions, Reads symbols funcNames ir.opcode) :
    Spells (emitBlock symbols funcNames b) (blockItems symbols funcNames b) := by
  have hinstructions : Spells (b.instructions.flatMap (emitInstructionLine symbols funcNames))
      (b.instructions.flatMap (instructionItems symbols funcNames)) := by
    apply Spells.flatMap
    intro ir hir
    exact .stmts (closed_emitInstructionLine (h ir hir))
      (fits_opcodeStmts symbols funcNames (h ir hir).calls)
  have hnewline := Spells.space closed_newline
  have hindent := Spells.space closed_indent
  have hbraces := ((hnewline.append hinstructions).append hindent).block
  have hlabel := Spells.label (isIdent_blockLabel b.startAddr)
  have hall := hlabel.append ((hindent.append hbraces).append hnewline)
  convert hall using 1
  · simp [emitBlock, line, List.flatMap_def]
  · simp [blockItems]

lemma isIdent_tmp : IsIdent "tmp" := by decide

def zero : Literal := ⟨false, 0, .none⟩

lemma spells_discard : Spells " (void)tmp;\n" [discardItem] := by
  have hfits : ∀ s ∈ [Stmt.expr (.cast .void (.var "tmp"))], s.Fits := by
    intro s hs
    rw [List.mem_singleton.mp hs]
    exact ⟨by decide, isIdent_tmp⟩
  have hstmt := Spells.stmts (closed_stmts hfits) hfits
  have htext : (" (void)tmp;\n" : Text) =
      " " ++ stmtsText [.expr (.cast .void (.var "tmp"))] ++ "\n" := by decide
  rw [htext]
  exact ((Spells.space closed_gap).append hstmt).append (.space closed_newline)

lemma spells_return : Spells "    return cpu.rax;\n" [returnItem] := by
  have hfits : ∀ s ∈ [Stmt.ret (cpuField "rax")], s.Fits := by
    intro s hs
    rw [List.mem_singleton.mp hs]
    exact ⟨isIdent_cpu, isIdent_fieldName .rax⟩
  have hstmt := Spells.stmts (closed_stmts hfits) hfits
  have htext : ("    return cpu.rax;\n" : Text) =
      "    " ++ stmtsText [.ret (cpuField "rax")] ++ "\n" := by decide
  rw [htext]
  exact ((Spells.space closed_indent).append hstmt).append (.space closed_newline)

lemma headText_append {start stop gap : Text} {c : Char} (hstart : start = "uint64_t" ++ [' '])
    (hstop : stop = '(' :: ("void" ++ ") ") ++ [c]) (name : Text) :
    start ++ name ++ stop ++ gap = headText name ++ c :: gap := by
  subst hstart hstop
  unfold headText
  generalize ("uint64_t" : Text) = w
  generalize ("void" : Text) = v
  simp

lemma line_head (name : Text) :
    line ("uint64_t " ++ name ++ "(void) \x7b") = headText name ++ '\x7b' :: "\n" :=
  headText_append (by decide) (by decide) name

lemma line_local :
    line "    uint64_t tmp = 0; (void)tmp;" =
      "    " ++ Clang.declarationText "tmp" zero ++ " (void)tmp;\n" := by
  decide

lemma emitFunction_eq (func : IRFunction) :
    emitFunction symbols funcNames func =
      definitionText (sanitiseCIdent func.name) ("\n" ++ "    ") "tmp" zero
        (" (void)tmp;\n" ++ (sortedBlocks func).flatMap (emitBlock symbols funcNames) ++
          "    return cpu.rax;\n") ++ "\n" := by
  rw [emitFunction, line_head, line_local, ← List.flatMap_def, definitionText]
  have hreturn : line "    return cpu.rax;" = "    return cpu.rax;\n" := by decide
  have hclose : line "\x7d" = ['\x7d'] ++ "\n" := by decide
  rw [hreturn, hclose]
  generalize headText (sanitiseCIdent func.name) = head
  generalize Clang.declarationText "tmp" zero = declaration
  simp only [List.append_assoc, List.cons_append, List.nil_append]

theorem defines_emitFunction {func : IRFunction} (h : Readable symbols funcNames func) :
    Defines (emitFunction symbols funcNames func) (functionDef symbols funcNames func) := by
  have hblocks : Spells ((sortedBlocks func).flatMap (emitBlock symbols funcNames))
      ((sortedBlocks func).flatMap (blockItems symbols funcNames)) := by
    apply Spells.flatMap
    intro b hb
    exact spells_block (h.reads b ((List.perm_insertionSort _ _).mem_iff.mp hb))
  have hbody := (spells_discard.append hblocks).append spells_return
  have hdefines := defines_definitionText h.name (closed_newline.append closed_indent) isIdent_tmp
    zero hbody
  rw [emitFunction_eq]
  exact hdefines.append closed_newline

theorem parseDefinitions_bodies {functions : List IRFunction} {symbols : SymbolTable}
    (h : ∀ f ∈ functions, Readable symbols (funcNameMap functions) f) :
    parseDefinitions (bodies functions symbols) =
      some (functions.map (functionDef symbols (funcNameMap functions))) := by
  apply Defines.parseDefinitions
  rw [List.forall₂_map_left_iff, List.forall₂_map_right_iff, List.forall₂_same]
  intro f hf
  exact (defines_emitFunction (h f hf)).append closed_newline

/-- The emitted file is read as the definitions of its functions, and a direct call of the address
of one of them calls its definition. -/
theorem emitC_definitions {functions : List IRFunction} {symbols : SymbolTable}
    (h : ∀ f ∈ functions, Readable symbols (funcNameMap functions) f)
    (hnd : (functions.map IRFunction.addr).Nodup) :
    emitC functions symbols =
        fileHeader ++ declarationText functions symbols ++ bodies functions symbols ∧
      parseDefinitions (bodies functions symbols) =
        some (functions.map (functionDef symbols (funcNameMap functions))) ∧
      ∀ f ∈ functions, resolveCallName f.addr symbols (funcNameMap functions) =
        (functionDef symbols (funcNameMap functions) f).name := by
  refine ⟨emitC_eq functions symbols, parseDefinitions_bodies h, fun f hf => ?_⟩
  rw [resolveCallName, funcNameMap_of_mem hnd hf]
  rfl

def waiter : IRFunction where
  name := "get-value"
  addr := 0x2000
  blocks := ((∅ : TreeMap BlockId IRBlock).insert 0 ⟨0, 0x2000,
    [⟨0x2000, .unknown "rdtsc" 0x2000⟩, ⟨0x2002, .jcc .notEqual 0x2000 0x2004⟩]⟩).insert 1
      ⟨1, 0x2004, [⟨0x2004, .atomicRMW "add" (.var ⟨.rdi, 0⟩) (.imm 1)⟩, ⟨0x2008, .nop⟩,
        ⟨0x2009, .ret⟩]⟩
  entryBlock := 0
  blockAddrs := ((∅ : TreeMap BlockId U64).insert 0 0x2000).insert 1 0x2004

lemma readable_of_blocks {func : IRFunction} {bs : List IRBlock}
    (hname : IsIdent (sanitiseCIdent func.name))
    (hbs : func.blockList = bs)
    (h : ∀ ir ∈ bs.flatMap IRBlock.instructions, Reads symbols funcNames ir.opcode) :
    Readable symbols funcNames func := by
  subst hbs
  exact ⟨hname, fun b hb ir hir => h ir (List.mem_flatMap.mpr ⟨b, hb, hir⟩)⟩

lemma readable_calls : ∀ f ∈ [caller, waiter], Readable ∅ (funcNameMap [caller, waiter]) f := by
  have hcaller : Readable ∅ (funcNameMap [caller, waiter]) caller := by
    apply readable_of_blocks (by decide) rfl
    have hprintf : IsIdent (sanitiseCIdent "printf") := by decide
    have hwaiter : IsIdent (resolveCallName 0x2000 ∅ (funcNameMap [caller, waiter])) := by decide
    intro ir hir
    fin_cases hir
    · exact ⟨hprintf, by simp [CommentEnds, comment]⟩
    · exact ⟨hwaiter, by simp [CommentEnds, comment]⟩
    · exact ⟨trivial, by simp [CommentEnds, comment]⟩
  have hwait : Readable ∅ (funcNameMap [caller, waiter]) waiter := by
    apply readable_of_blocks (by decide) rfl
    intro ir hir
    fin_cases hir
    all_goals
      refine ⟨trivial, ?_⟩
      rw [CommentEnds]
      decide
  intro f hf
  rcases List.mem_pair.mp hf with rfl | rfl
  · exact hcaller
  · exact hwait

theorem calls_definitions :
    emitC [caller, waiter] ∅ =
        fileHeader ++ declarationText [caller, waiter] ∅ ++ bodies [caller, waiter] ∅ ∧
      parseDefinitions (bodies [caller, waiter] ∅) =
        some ([caller, waiter].map (functionDef ∅ (funcNameMap [caller, waiter]))) ∧
      ∀ f ∈ [caller, waiter], resolveCallName f.addr ∅ (funcNameMap [caller, waiter]) =
        (functionDef ∅ (funcNameMap [caller, waiter]) f).name :=
  emitC_definitions readable_calls (by decide)

end Dexe.Backend
