import Dexe.Backend.Names
import Dexe.Backend.Statements

/-! C reads an emitted instruction as its statements. -/

namespace Dexe.Backend

open Std Text Clang

lemma isWord_blockLabel (addr : U64) : IsWord (blockLabel addr) := isWord_append_hex (by decide) _

variable (symbols : SymbolTable) (funcNames : TreeMap U64 Text)

def NamesWords : Prop := ∀ (addr : U64) (name : Text), funcNames[addr]? = some name → IsWord name

lemma isWord_resolveCallName {funcNames : TreeMap U64 Text} (h : NamesWords funcNames)
    (addr : U64) :
    IsWord (resolveCallName addr symbols funcNames) := by
  rw [resolveCallName]
  split
  · exact h addr _ ‹_›
  · split
    · exact isWord_sanitiseCIdent _
    · exact isWord_append_hex (by decide) _

def CallsIdent : Opcode → Prop
  | .call (.direct addr) _ => IsIdent (resolveCallName addr symbols funcNames)
  | .call (.external name) _ => IsIdent (sanitiseCIdent name)
  | _ => True

lemma fits_setTo (dst : VarId) {e : Expr} (he : e.Fits (BinOp.assign.level + 1)) :
    (setTo dst e).Fits := ⟨by decide, fits_varTree _ dst, he⟩

lemma fits_binaryStmt {op : BinOp} (hop : BinOp.assign.level + 1 ≤ op.level)
    (hne : op.isAssign = false)
    (hle : op.level ≤ unaryLevel) (dst : VarId) (lhs rhs : Operand) :
    (binaryStmt op dst lhs rhs).Fits := by
  have hl : (operandTree lhs).Fits op.level := fits_operandTree (by omega) lhs
  have hr : (operandTree rhs).Fits (op.level + 1) := fits_operandTree (by omega) rhs
  refine fits_setTo dst ⟨hop, ?_, hr⟩
  rw [hne]
  exact hl

lemma fits_stackSlot (k : ℕ) (hk : k ≤ unaryLevel + 1) : stackSlot.Fits k :=
  ⟨hk, separate_of_head rfl, by decide, by decide, isIdent_cpu, isIdent_fieldName .rsp⟩

lemma fits_stackPointer (k : ℕ) : stackPointer.Fits k := ⟨isIdent_cpu, isIdent_fieldName .rsp⟩

lemma fits_pushStmts {e : Expr} (he : e.Fits (BinOp.assign.level + 1)) :
    ∀ s ∈ pushStmts e, s.Fits := by
  intro s hs
  simp only [pushStmts, List.mem_cons, List.not_mem_nil, or_false] at hs
  rcases hs with rfl | rfl
  · exact ⟨by decide, fits_stackPointer _, trivial⟩
  · exact ⟨by decide, fits_stackSlot _ le_rfl, he⟩

lemma fits_compareTree {op : BinOp} (hop : 1 ≤ op.level) (hle : op.level ≤ unaryLevel)
    (hne : op.isAssign = false) (k : ℕ) (ty : TypeName) (lhs rhs : Operand) :
    (compareTree op ty lhs rhs).Fits k := by
  have hoperand : ∀ o, (operandTree o).Fits 1 := fun o => fits_operandTree (by decide) o
  refine ⟨hop, ?_, by omega, hoperand rhs⟩
  rw [hne]
  exact ⟨by simp only [Bool.false_eq_true, if_false]; omega, hoperand lhs⟩

lemma fits_cmpTree (lhs rhs : Operand) : (cmpTree lhs rhs).Fits (BinOp.assign.level + 1) := by
  have heq : ∀ k, (compareTree .eq .uint64 lhs rhs).Fits k :=
    fun k => fits_compareTree (by decide) (by decide) rfl k _ lhs rhs
  have hlt : ∀ ty k n, (shiftedTree (compareTree .lt ty lhs rhs) n).Fits k :=
    fun ty k n => ⟨by decide, fits_compareTree (by decide) (by decide) rfl _ _ lhs rhs, trivial⟩
  exact ⟨by decide, ⟨le_rfl, heq _, hlt _ _ _⟩, hlt _ _ _⟩

lemma fits_testTree (lhs rhs : Operand) : (testTree lhs rhs).Fits (BinOp.assign.level + 1) :=
  ⟨by decide, ⟨by decide, ⟨by decide, fits_operandTree (by decide) lhs,
    fits_operandTree (by decide) rhs⟩, trivial⟩, trivial, trivial⟩

lemma fits_chooseTree (c : Condition) {a b : Expr} (ha : a.Fits (condLevel + 1))
    (hb : b.Fits (condLevel + 1)) : (chooseTree c a b).Fits (BinOp.assign.level + 1) :=
  ⟨by decide, fits_condTree c, ha, hb⟩

lemma fits_argumentTree : argumentTree.Fits 1 := by
  have hfield : ∀ k base, (cpuField (fieldName base)).Fits k :=
    fun _ base => ⟨isIdent_cpu, isIdent_fieldName base⟩
  exact ⟨by decide, ⟨by decide, ⟨by decide, ⟨by decide, ⟨by decide, hfield _ .rdi, hfield _ .rsi⟩,
    hfield _ .rdx⟩, hfield _ .rcx⟩, hfield _ .r8⟩, hfield _ .r9⟩

lemma fits_atomicTree (addr src : Operand) : (atomicTree addr src).Fits 1 :=
  ⟨by decide, ⟨by decide, fits_memAddrTree addr⟩, fits_operandTree (by decide) src⟩

lemma isIdent_atomicBuiltin {op : Text} (hop : op ∈ atomicOps) : IsIdent (atomicBuiltin op) := by
  revert op
  decide

lemma fits_opcodeStmts {op : Opcode} (h : CallsIdent symbols funcNames op) :
    ∀ s ∈ opcodeStmts symbols funcNames op, s.Fits := by
  have hsingle : ∀ {s : Stmt}, s.Fits → ∀ s' ∈ [s], s'.Fits := by
    intro s hs s' hs'
    rwa [List.mem_singleton.mp hs']
  cases op with
  | mov dst src => exact hsingle (fits_setTo dst (fits_operandTree (by decide) src))
  | load dst addr =>
    exact hsingle (fits_setTo dst (fits_derefTree (by decide) (fits_memAddrTree addr)))
  | store addr src =>
    exact hsingle ⟨by decide, fits_derefTree le_rfl (fits_memAddrTree addr),
      fits_operandTree (by decide) src⟩
  | add | sub | mul | and | or | xor | shl | shr =>
    exact hsingle (fits_binaryStmt (by decide) rfl (by decide) _ _ _)
  | not dst src =>
    exact hsingle (fits_setTo dst ⟨by decide, fun _ _ => rfl, fits_operandTree (by decide) src⟩)
  | neg dst src =>
    exact hsingle (fits_setTo dst ⟨by decide, by decide, separate_of_head rfl, by decide,
      fits_operandTree (by decide) src⟩)
  | lea dst addr => exact hsingle (fits_setTo dst ⟨by decide, fits_memAddrTree addr⟩)
  | cmp lhs rhs => exact hsingle ⟨by decide, fits_rflags _, fits_cmpTree lhs rhs⟩
  | test lhs rhs => exact hsingle ⟨by decide, fits_rflags _, fits_testTree lhs rhs⟩
  | jmp target => exact hsingle (isWord_blockLabel target)
  | jcc condition target fallthrough =>
    exact hsingle ⟨fits_condTree condition, isWord_blockLabel target⟩
  | cmovcc condition dst src =>
    exact hsingle (fits_setTo dst (fits_chooseTree condition (fits_operandTree (by decide) src)
      (fits_varTree _ dst)))
  | setcc condition dst =>
    exact hsingle (fits_setTo dst (fits_chooseTree condition trivial trivial))
  | call target fallthrough =>
    have hcall : (callTree symbols funcNames target).Fits (BinOp.assign.level + 1) := by
      cases target with
      | direct addr => exact h
      | external name => exact ⟨h, fits_argumentTree⟩
      | indirect op => exact ⟨by decide, fits_operandTree (by decide) op⟩
    intro s hs
    rcases List.mem_append.mp hs with hs | hs
    · exact fits_pushStmts (e := hexNum _ _) trivial s hs
    · rw [List.mem_singleton.mp hs]
      exact ⟨by decide, ⟨isIdent_cpu, isIdent_fieldName .rax⟩, hcall⟩
  | ret => exact hsingle ⟨isIdent_cpu, isIdent_fieldName .rax⟩
  | nop => simp [opcodeStmts]
  | push src => exact fits_pushStmts (fits_operandTree (by decide) src)
  | pop dst =>
    intro s hs
    simp only [opcodeStmts, List.mem_cons, List.not_mem_nil, or_false] at hs
    rcases hs with rfl | rfl
    · exact fits_setTo dst (fits_stackSlot _ (by decide))
    · exact ⟨by decide, fits_stackPointer _, trivial⟩
  | atomicRMW op addr src =>
    by_cases hop : op ∈ atomicOps
    · rw [opcodeStmts, if_pos hop]
      exact hsingle ⟨isIdent_atomicBuiltin hop, fits_atomicTree addr src⟩
    · rw [opcodeStmts, if_neg hop]
      exact hsingle (fits_atomicTree addr src)
  | unknown mnemonic addr => simp [opcodeStmts]

lemma lexFrom_comment {m : Text} (hm : '*' ∉ m) (u : Text) :
    lexFrom .comment (m ++ u) = lexFrom .comment u := by
  induction m with
  | nil => rfl
  | cons c m ih =>
    have hc : c ≠ '*' := by
      rintro rfl
      exact hm List.mem_cons_self
    rw [List.cons_append, lexFrom, lexStep, if_neg hc, Option.bind_some,
      ih fun h => hm (List.mem_cons_of_mem _ h)]
    simp

lemma closed_commentText {m : Text} (hm : '*' ∉ m) : Closed (commentText m) [] := by
  intro u
  have hopen : ∀ t, lexFrom .start ("/* " ++ t) = lexFrom .comment t := by
    intro t
    simp [lexFrom, lexStep, beginToken, isSpace, isWordChar, Function.comp_def]
  have hclose : lexFrom .comment (" */" ++ u) = lexFrom .start u := by
    simp [lexFrom, lexStep, Function.comp_def]
  rw [commentText, List.append_assoc, List.append_assoc, hopen, lexFrom_comment hm, hclose]
  simp

def CommentEnds (op : Opcode) : Prop := ∀ m ∈ comment op, '*' ∉ m

variable {symbols funcNames}

structure Reads (symbols : SymbolTable) (funcNames : TreeMap U64 Text) (op : Opcode) : Prop where
  calls : CallsIdent symbols funcNames op
  comments : CommentEnds op

lemma closed_emitInstruction {instr : IRInstruction} (h : Reads symbols funcNames instr.opcode) :
    Closed (emitInstruction instr symbols funcNames)
      ((opcodeStmts symbols funcNames instr.opcode).flatMap Stmt.tokens) := by
  have hstmts := closed_stmts (fits_opcodeStmts symbols funcNames h.calls)
  rw [emitInstruction_eq]
  cases hc : comment instr.opcode with
  | none => exact hstmts
  | some m => exact (closed_commentText (h.comments m hc)).append hstmts

theorem parse_emitInstruction {instr : IRInstruction} (h : Reads symbols funcNames instr.opcode) :
    parse (emitInstruction instr symbols funcNames) =
      some (opcodeStmts symbols funcNames instr.opcode) :=
  parse_of_closed (closed_emitInstruction h) (fits_opcodeStmts symbols funcNames h.calls)

lemma closed_emitInstructionLine {instr : IRInstruction}
    (h : Reads symbols funcNames instr.opcode) :
    Closed (emitInstructionLine symbols funcNames instr)
      ((opcodeStmts symbols funcNames instr.opcode).flatMap Stmt.tokens) := by
  have hinstr := closed_emitInstruction h
  have hindent : Closed "        " [] := by
    intro u
    simp [lexFrom_start_space]
  have hnewline : Closed "\n" [] := by
    intro u
    simp [lexFrom, lexStep, beginToken, isSpace]
  unfold emitInstructionLine
  dsimp only
  split
  · rename_i hnil
    rwa [hnil] at hinstr
  · simpa [line] using (hindent.append hinstr).append hnewline

theorem parse_emitInstructionLines {irs : List IRInstruction}
    (h : ∀ ir ∈ irs, Reads symbols funcNames ir.opcode) :
    parse ((irs.map (emitInstructionLine symbols funcNames)).flatten) =
      some (irs.flatMap fun ir => opcodeStmts symbols funcNames ir.opcode) := by
  refine parse_of_closed ?_ ?_
  · induction irs with
    | nil =>
      intro u
      simp
    | cons ir irs ih =>
      have hir := closed_emitInstructionLine (h ir List.mem_cons_self)
      have hirs := ih fun ir hir => h ir (List.mem_cons_of_mem _ hir)
      rw [List.map_cons, List.flatten_cons, List.flatMap_cons, List.flatMap_append]
      exact hir.append hirs
  · intro s hs
    obtain ⟨ir, hir, hs⟩ := List.mem_flatMap.mp hs
    exact fits_opcodeStmts symbols funcNames (h ir hir).calls s hs

end Dexe.Backend
