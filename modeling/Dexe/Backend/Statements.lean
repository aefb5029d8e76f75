import Dexe.Backend.Trees
import Dexe.Clang.RoundTrip

/-! What an emitted instruction is, read as C. -/

namespace Dexe.Backend

open Std Text Clang

def setTo (dst : VarId) (e : Expr) : Stmt := .expr (.bin .assign (varTree dst) e)

def binaryStmt (op : BinOp) (dst : VarId) (lhs rhs : Operand) : Stmt :=
  setTo dst (.bin op (operandTree lhs) (operandTree rhs))

def stackPointer : Expr := cpuField "rsp"

def stackSlot : Expr := .un .deref (.cast .uint64Ptr (.cast .uintptr (.paren stackPointer)))

def pushStmts (e : Expr) : List Stmt :=
  [.expr (.bin .subAssign stackPointer (decNum 8)), .expr (.bin .assign stackSlot e)]

def compareTree (op : BinOp) (ty : TypeName) (lhs rhs : Operand) : Expr :=
  .paren (.bin op (.cast ty (.paren (operandTree lhs))) (.cast ty (.paren (operandTree rhs))))

def shiftedTree (e : Expr) (n : ℕ) : Expr := .paren (.bin .shl e (decNum n))

def cmpTree (lhs rhs : Operand) : Expr :=
  .bin .bor (.bin .bor (compareTree .eq .uint64 lhs rhs)
    (shiftedTree (compareTree .lt .uint64 lhs rhs) 1))
    (shiftedTree (compareTree .lt .int64 lhs rhs) 2)

def testTree (lhs rhs : Operand) : Expr :=
  .cond (.paren (.bin .eq (.paren (.bin .band (operandTree lhs) (operandTree rhs))) (decNum 0)))
    (decNum 1) (decNum 0)

def chooseTree (c : Condition) (a b : Expr) : Expr := .cond (.paren (.paren (condTree c))) a b

def argumentTree : Expr :=
  .bin .comma (.bin .comma (.bin .comma (.bin .comma (.bin .comma (cpuField "rdi")
    (cpuField "rsi")) (cpuField "rdx")) (cpuField "rcx")) (cpuField "r8")) (cpuField "r9")

def callTree (symbols : SymbolTable) (funcNames : TreeMap U64 Text) : CallTarget → Expr
  | .direct addr => .call0 (.var (resolveCallName addr symbols funcNames))
  | .external name => .call (.var (sanitiseCIdent name)) argumentTree
  | .indirect op => .call0 (.paren (.cast .function (.paren (operandTree op))))

def atomicOps : List Text := ["add", "sub", "and", "or", "xor"]

def atomicTree (addr src : Operand) : Expr :=
  .bin .comma (.cast .uint64Ptr (.paren (memAddrTree addr))) (operandTree src)

variable (symbols : SymbolTable) (funcNames : TreeMap U64 Text)

def opcodeStmts : Opcode → List Stmt
  | .mov dst src => [setTo dst (operandTree src)]
  | .load dst addr => [setTo dst (derefTree (memAddrTree addr))]
  | .store addr src => [.expr (.bin .assign (derefTree (memAddrTree addr)) (operandTree src))]
  | .add dst lhs rhs => [binaryStmt .add dst lhs rhs]
  | .sub dst lhs rhs => [binaryStmt .sub dst lhs rhs]
  | .mul dst lhs rhs => [binaryStmt .mul dst lhs rhs]
  | .and dst lhs rhs => [binaryStmt .band dst lhs rhs]
  | .or dst lhs rhs => [binaryStmt .bor dst lhs rhs]
  | .xor dst lhs rhs => [binaryStmt .bxor dst lhs rhs]
  | .shl dst lhs rhs => [binaryStmt .shl dst lhs rhs]
  | .shr dst lhs rhs => [binaryStmt .shr dst lhs rhs]
  | .not dst src => [setTo dst (.un .bitNot (operandTree src))]
  | .neg dst src =>
    [setTo dst (.cast .uint64 (.paren (.un .neg (.cast .int64 (operandTree src)))))]
  | .lea dst addr => [setTo dst (.cast .uint64 (.paren (memAddrTree addr)))]
  | .cmp lhs rhs => [.expr (.bin .assign rflags (cmpTree lhs rhs))]
  | .test lhs rhs => [.expr (.bin .assign rflags (testTree lhs rhs))]
  | .jmp target => [.goto (blockLabel target)]
  | .jcc condition target _ => [.ifGoto (condTree condition) (blockLabel target)]
  | .cmovcc condition dst src =>
    [setTo dst (chooseTree condition (operandTree src) (varTree dst))]
  | .setcc condition dst => [setTo dst (chooseTree condition (decNum 1) (decNum 0))]
  | .atomicRMW op addr src =>
    if op ∈ atomicOps then [.expr (.call (.var (atomicBuiltin op)) (atomicTree addr src))]
    else [.expr (.paren (atomicTree addr src))]
  | .call target fallthrough =>
    pushStmts (hexNum fallthrough.toNat .none) ++
      [.expr (.bin .assign (cpuField "rax") (callTree symbols funcNames target))]
  | .ret => [.ret (cpuField "rax")]
  | .push src => pushStmts (operandTree src)
  | .pop dst => [setTo dst stackSlot, .expr (.bin .addAssign stackPointer (decNum 8))]
  | .nop | .unknown _ _ => []

def comment : Opcode → Option Text
  | .nop => some "nop"
  | .unknown mnemonic addr => some ("UNKNOWN: " ++ mnemonic ++ " at 0x" ++ hex addr.toNat)
  | .atomicRMW op _ _ => if op ∈ atomicOps then none else some "unknown lock"
  | _ => none

def commentText (m : Text) : Text := "/* " ++ m ++ " */"

lemma bin_text (op : BinOp) (a b : Expr) : (Expr.bin op a b).text = a.text ++ op.spaced ++ b.text :=
  rfl

lemma setTo_text (dst : VarId) (e : Expr) :
    (setTo dst e).text = varName dst ++ " = " ++ e.text ++ ";" := by
  rw [setTo, Stmt.text_expr, bin_text, varTree_text]
  rfl

lemma binaryStmt_text {op : BinOp} {s : Text} (hop : op.spaced = " " ++ s ++ " ") (dst : VarId)
    (lhs rhs : Operand) : (binaryStmt op dst lhs rhs).text = emitBinary s dst lhs rhs := by
  rw [binaryStmt, setTo_text, bin_text, operandTree_text, operandTree_text, hop, emitBinary]
  simp

lemma stackSlot_text : stackSlot.text = "*(uint64_t*)(uintptr_t)(cpu.rsp)" := by decide

lemma stmtsText_pair (s s' : Stmt) : stmtsText [s, s'] = s.text ++ " " ++ s'.text := rfl

lemma pushStmts_text (e : Expr) :
    stmtsText (pushStmts e) =
      "cpu.rsp -= 8; *(uint64_t*)(uintptr_t)(cpu.rsp) = " ++ e.text ++ ";" := by
  have hsub : (Stmt.expr (.bin .subAssign stackPointer (decNum 8))).text = "cpu.rsp -= 8;" := by
    decide
  have hset : (Stmt.expr (.bin .assign stackSlot e)).text =
      "*(uint64_t*)(uintptr_t)(cpu.rsp)" ++ BinOp.assign.spaced ++ e.text ++ ";" := by
    rw [Stmt.text_expr, bin_text, stackSlot_text]
  have hassign : BinOp.assign.spaced = " = " := by decide
  rw [pushStmts, stmtsText_pair, hsub, hset, hassign]
  simp

lemma popStmts_text (dst : VarId) :
    stmtsText [setTo dst stackSlot, .expr (.bin .addAssign stackPointer (decNum 8))] =
      varName dst ++ " = *(uint64_t*)(uintptr_t)(cpu.rsp); cpu.rsp += 8;" := by
  have hadd : (Stmt.expr (.bin .addAssign stackPointer (decNum 8))).text = "cpu.rsp += 8;" := by
    decide
  rw [stmtsText_pair, setTo_text, stackSlot_text, hadd]
  simp

lemma castTree_text {ty : TypeName} {s : Text} (hty : "(" ++ ty.text ++ ")" = s) (e : Expr) :
    (Expr.cast ty (.paren e)).text = s ++ "(" ++ e.text ++ ")" := by
  rw [Expr.text, Expr.text, hty]
  simp

lemma compareTree_text {op : BinOp} {ty : TypeName} {s t : Text}
    (hty : "(" ++ ty.text ++ ")" = s) (hop : op.spaced = " " ++ t ++ " ") (lhs rhs : Operand) :
    (compareTree op ty lhs rhs).text = "(" ++ s ++ "(" ++ emitOperand lhs ++ ") " ++ t ++ " " ++
      s ++ "(" ++ emitOperand rhs ++ "))" := by
  rw [compareTree, Expr.text, bin_text, castTree_text hty, castTree_text hty, operandTree_text,
    operandTree_text, hop]
  simp

lemma shiftedTree_text (e : Expr) (n : ℕ) :
    (shiftedTree e n).text = "(" ++ e.text ++ " << " ++ dec n ++ ")" := by
  have hshl : BinOp.shl.spaced = " << " := by decide
  rw [shiftedTree, Expr.text, bin_text, hshl, decNum_text]
  simp

lemma cmpStmt_text (lhs rhs : Operand) :
    (Stmt.expr (.bin .assign rflags (cmpTree lhs rhs))).text =
      "cpu.rflags = ((uint64_t)(" ++ emitOperand lhs ++ ") == (uint64_t)(" ++ emitOperand rhs ++
      ")) | (((uint64_t)(" ++ emitOperand lhs ++ ") < (uint64_t)(" ++ emitOperand rhs ++
      ")) << 1) | (((int64_t)(" ++ emitOperand lhs ++ ") < (int64_t)(" ++ emitOperand rhs ++
      ")) << 2);" := by
  have hu : (("(" : Text) ++ TypeName.text .uint64 ++ ")") = "(uint64_t)" := by decide
  have hi : (("(" : Text) ++ TypeName.text .int64 ++ ")") = "(int64_t)" := by decide
  have heq : BinOp.eq.spaced = " " ++ "==" ++ " " := by decide
  have hlt : BinOp.lt.spaced = " " ++ "<" ++ " " := by decide
  have hor : BinOp.bor.spaced = " | " := by decide
  have hassign : rflags.text ++ BinOp.assign.spaced = "cpu.rflags = " := by decide
  have h1 : dec 1 = "1" := by decide
  have h2 : dec 2 = "2" := by decide
  rw [Stmt.text_expr, bin_text, hassign, cmpTree, bin_text, bin_text, shiftedTree_text,
    shiftedTree_text, compareTree_text hu heq, compareTree_text hu hlt, compareTree_text hi hlt,
    hor, h1, h2]
  simp

lemma testStmt_text (lhs rhs : Operand) :
    (Stmt.expr (.bin .assign rflags (testTree lhs rhs))).text =
      "cpu.rflags = ((" ++ emitOperand lhs ++ " & " ++ emitOperand rhs ++ ") == 0) ? 1 : 0;" := by
  have hand : BinOp.band.spaced = " & " := by decide
  have heq : BinOp.eq.spaced = " == " := by decide
  have hassign : rflags.text ++ BinOp.assign.spaced = "cpu.rflags = " := by decide
  have h0 : (decNum 0).text = "0" := by decide
  have h1 : (decNum 1).text = "1" := by decide
  rw [Stmt.text_expr, bin_text, hassign, testTree]
  simp only [Expr.text, operandTree_text, hand, heq, h0, h1]
  simp

lemma chooseTree_text (c : Condition) (a b : Expr) :
    (chooseTree c a b).text = "(" ++ getCondExpr c ++ ") ? " ++ a.text ++ " : " ++ b.text := by
  rw [chooseTree, Expr.text, Expr.text, Expr.text, condTree_text]
  simp

lemma jccStmt_text (c : Condition) (label : Text) :
    (Stmt.ifGoto (condTree c) label).text = "if " ++ getCondExpr c ++ " goto " ++ label ++ ";" := by
  rw [Stmt.text_ifGoto, ← condTree_text]
  simp

lemma atomicTree_text (addr src : Operand) :
    (atomicTree addr src).text =
      "(uint64_t*)(" ++ emitMemAddr addr ++ "), " ++ emitOperand src := by
  have hcomma : BinOp.comma.spaced = ", " := by decide
  have hty : (("(" : Text) ++ TypeName.text .uint64Ptr ++ ")") = "(uint64_t*)" := by decide
  rw [atomicTree, bin_text, hcomma, castTree_text hty, memAddrTree_text, operandTree_text]
  simp

lemma argumentTree_text :
    argumentTree.text = "cpu.rdi, cpu.rsi, cpu.rdx, cpu.rcx, cpu.r8, cpu.r9" := by decide

lemma functionCast_text (op : Operand) :
    (Expr.call0 (.paren (.cast .function (.paren (operandTree op))))).text =
      "((uint64_t(*)(void))(" ++ emitOperand op ++ "))()" := by
  have hty : (("(" : Text) ++ TypeName.text .function ++ ")") = "(uint64_t(*)(void))" := by decide
  rw [Expr.text, Expr.text, castTree_text hty, operandTree_text]
  simp

lemma callTree_text (target : CallTarget) :
    (callTree symbols funcNames target).text =
      match target with
      | .direct addr => resolveCallName addr symbols funcNames ++ "()"
      | .external name =>
        sanitiseCIdent name ++ "(cpu.rdi, cpu.rsi, cpu.rdx, cpu.rcx, cpu.r8, cpu.r9)"
      | .indirect op => "((uint64_t(*)(void))(" ++ emitOperand op ++ "))()" := by
  cases target with
  | direct addr => rfl
  | external name =>
    rw [callTree, Expr.text, argumentTree_text]
    simp [Expr.text]
  | indirect op => exact functionCast_text op

lemma pushStmts_append_text (e : Expr) (s : Stmt) :
    stmtsText (pushStmts e ++ [s]) = stmtsText (pushStmts e) ++ " " ++ s.text := by
  simp [pushStmts, stmtsText]

lemma callStmts_text (target : CallTarget) (fallthrough : U64) :
    stmtsText (opcodeStmts symbols funcNames (.call target fallthrough)) =
      "cpu.rsp -= 8; *(uint64_t*)(uintptr_t)(cpu.rsp) = 0x" ++ hex fallthrough.toNat ++
        "; cpu.rax = " ++ (callTree symbols funcNames target).text ++ ";" := by
  have hassign : (cpuField "rax").text ++ BinOp.assign.spaced = "cpu.rax = " := by decide
  rw [opcodeStmts, pushStmts_append_text, pushStmts_text, hexNum_text,
    Stmt.text_expr, bin_text, hassign]
  simp [Suffix.text]

lemma atomicStmts_text (op : Text) (addr src : Operand) :
    atomicBuiltin op ++ "((uint64_t*)(" ++ emitMemAddr addr ++ "), " ++ emitOperand src ++ ");" =
      (comment (.atomicRMW op addr src)).elim [] commentText ++
        stmtsText (opcodeStmts symbols funcNames (.atomicRMW op addr src)) := by
  by_cases hop : op ∈ atomicOps
  · rw [comment, opcodeStmts, if_pos hop, if_pos hop, stmtsText, Stmt.text_expr, Expr.text,
      atomicTree_text]
    simp [Expr.text]
  · have hbuiltin : atomicBuiltin op = commentText "unknown lock" := by
      simp only [atomicOps, List.mem_cons, List.not_mem_nil, or_false, not_or] at hop
      obtain ⟨h1, h2, h3, h4, h5⟩ := hop
      rw [atomicBuiltin, if_neg h1, if_neg h2, if_neg h3, if_neg h4, if_neg h5]
      decide
    rw [comment, opcodeStmts, if_neg hop, if_neg hop, stmtsText, Stmt.text_expr, Expr.text,
      atomicTree_text, hbuiltin]
    simp

theorem emitInstruction_eq (instr : IRInstruction) :
    emitInstruction instr symbols funcNames =
      (comment instr.opcode).elim [] commentText ++
        stmtsText (opcodeStmts symbols funcNames instr.opcode) := by
  rcases instr with ⟨addr, opcode⟩
  cases opcode with
  | mov dst src =>
    show varName dst ++ " = " ++ emitOperand src ++ ";" = (setTo dst (operandTree src)).text
    rw [setTo_text, operandTree_text]
  | load dst addr =>
    show varName dst ++ " = *(uint64_t*)(" ++ emitMemAddr addr ++ ");" =
      (setTo dst (derefTree (memAddrTree addr))).text
    rw [setTo_text, derefTree_text, memAddrTree_text]
    simp
  | store addr src =>
    have hassign : BinOp.assign.spaced = " = " := by decide
    show "*(uint64_t*)(" ++ emitMemAddr addr ++ ") = " ++ emitOperand src ++ ";" =
      (Stmt.expr (.bin .assign (derefTree (memAddrTree addr)) (operandTree src))).text
    rw [Stmt.text_expr, bin_text, derefTree_text, memAddrTree_text, operandTree_text, hassign]
    simp
  | add dst lhs rhs => exact (binaryStmt_text (by decide) dst lhs rhs).symm
  | sub dst lhs rhs => exact (binaryStmt_text (by decide) dst lhs rhs).symm
  | mul dst lhs rhs => exact (binaryStmt_text (by decide) dst lhs rhs).symm
  | and dst lhs rhs => exact (binaryStmt_text (by decide) dst lhs rhs).symm
  | or dst lhs rhs => exact (binaryStmt_text (by decide) dst lhs rhs).symm
  | xor dst lhs rhs => exact (binaryStmt_text (by decide) dst lhs rhs).symm
  | shl dst lhs rhs => exact (binaryStmt_text (by decide) dst lhs rhs).symm
  | shr dst lhs rhs => exact (binaryStmt_text (by decide) dst lhs rhs).symm
  | not dst src =>
    show varName dst ++ " = ~" ++ emitOperand src ++ ";" =
      (setTo dst (.un .bitNot (operandTree src))).text
    rw [setTo_text, Expr.text, operandTree_text]
    simp [UnOp.sym, Sym.text]
  | neg dst src =>
    have hu : (("(" : Text) ++ TypeName.text .uint64 ++ ")") = "(uint64_t)" := by decide
    have hi : (("(" : Text) ++ TypeName.text .int64 ++ ")") = "(int64_t)" := by decide
    show varName dst ++ " = (uint64_t)(-(int64_t)" ++ emitOperand src ++ ");" =
      (setTo dst (.cast .uint64 (.paren (.un .neg (.cast .int64 (operandTree src)))))).text
    rw [setTo_text, castTree_text hu, Expr.text, Expr.text, hi, operandTree_text]
    simp [UnOp.sym, Sym.text]
  | lea dst addr =>
    have hu : (("(" : Text) ++ TypeName.text .uint64 ++ ")") = "(uint64_t)" := by decide
    show varName dst ++ " = (uint64_t)(" ++ emitMemAddr addr ++ ");" =
      (setTo dst (.cast .uint64 (.paren (memAddrTree addr)))).text
    rw [setTo_text, castTree_text hu, memAddrTree_text]
    simp
  | cmp lhs rhs => exact (cmpStmt_text lhs rhs).symm
  | test lhs rhs => exact (testStmt_text lhs rhs).symm
  | jmp target => rfl
  | jcc condition target fallthrough => exact (jccStmt_text condition (blockLabel target)).symm
  | cmovcc condition dst src =>
    show varName dst ++ " = (" ++ getCondExpr condition ++ ") ? " ++ emitOperand src ++ " : " ++
      varName dst ++ ";" = (setTo dst (chooseTree condition (operandTree src) (varTree dst))).text
    rw [setTo_text, chooseTree_text, operandTree_text, varTree_text]
    simp
  | setcc condition dst =>
    have h0 : (decNum 0).text = "0" := by decide
    have h1 : (decNum 1).text = "1" := by decide
    show varName dst ++ " = (" ++ getCondExpr condition ++ ") ? 1 : 0;" =
      (setTo dst (chooseTree condition (decNum 1) (decNum 0))).text
    rw [setTo_text, chooseTree_text, h0, h1]
    simp
  | call target fallthrough =>
    have hcall := callStmts_text symbols funcNames target fallthrough
    rw [callTree_text] at hcall
    cases target with
    | direct addr =>
      show "cpu.rsp -= 8; *(uint64_t*)(uintptr_t)(cpu.rsp) = 0x" ++ hex fallthrough.toNat ++ "; " ++
        ("cpu.rax = " ++ resolveCallName addr symbols funcNames ++ "();") = stmtsText _
      rw [hcall]
      simp
    | external name =>
      show "cpu.rsp -= 8; *(uint64_t*)(uintptr_t)(cpu.rsp) = 0x" ++ hex fallthrough.toNat ++ "; " ++
        ("cpu.rax = " ++ sanitiseCIdent name ++
          "(cpu.rdi, cpu.rsi, cpu.rdx, cpu.rcx, cpu.r8, cpu.r9);") = stmtsText _
      rw [hcall]
      simp
    | indirect op =>
      show "cpu.rsp -= 8; *(uint64_t*)(uintptr_t)(cpu.rsp) = 0x" ++ hex fallthrough.toNat ++ "; " ++
        ("cpu.rax = ((uint64_t(*)(void))(" ++ emitOperand op ++ "))();") = stmtsText _
      rw [hcall]
      simp
  | ret => rfl
  | nop => rfl
  | push src =>
    show "cpu.rsp -= 8; *(uint64_t*)(uintptr_t)(cpu.rsp) = " ++ emitOperand src ++ ";" =
      stmtsText (pushStmts (operandTree src))
    rw [pushStmts_text, operandTree_text]
  | pop dst => exact (popStmts_text dst).symm
  | atomicRMW op addr src => exact atomicStmts_text symbols funcNames op addr src
  | unknown mnemonic addr =>
    show ("/* UNKNOWN: " ++ mnemonic ++ " at 0x" ++ hex addr.toNat ++ " */" : Text) =
      commentText ("UNKNOWN: " ++ mnemonic ++ " at 0x" ++ hex addr.toNat) ++ []
    simp [commentText]

end Dexe.Backend
