import Dexe.Backend.Frame
import Dexe.Debug.Readings

/-! The lifter (`ir.rs`) with the checks of a debug build. A result `none` is a panic of the
source. -/

namespace Dexe.Debug

open Ir Text Bits Collections

def newVersion (versions : Versions) (base : VarBase) : Option (VarId × Versions) := do
  let version ← checkedAdd (versions base) 1
  return (⟨base, version⟩, Function.update versions base version)

def liftBinaryAlu (mnemonic : Text) (operands : List Text) (addr : U64) (versions : Versions) :
    Lifted :=
  match operands with
  | dstStr :: second :: more => do
    let rhs ← parseSingleOperand ((second :: more).getLast (List.cons_ne_nil second more)) versions
    let lhs ← parseSingleOperand (if more = [] then dstStr else second) versions
    let dstBase ← dstRegister dstStr
    let (dst, versions) ← newVersion versions (dstBase.getD .rax)
    let opcode : Opcode :=
      if mnemonic = "add" then .add dst lhs rhs
      else if mnemonic = "sub" then .sub dst lhs rhs
      else if mnemonic = "imul" ∨ mnemonic = "mul" then .mul dst lhs rhs
      else if mnemonic = "and" then .and dst lhs rhs
      else if mnemonic = "or" then .or dst lhs rhs
      else if mnemonic = "xor" then .xor dst lhs rhs
      else if mnemonic = "shl" ∨ mnemonic = "sal" then .shl dst lhs rhs
      else if mnemonic = "shr" ∨ mnemonic = "sar" then .shr dst lhs rhs
      else .unknown mnemonic addr
    return (opcode, versions)
  | _ => unknown mnemonic addr versions

def liftMov (operands : List Text) (mnemonic : Text) (addr : U64) (versions : Versions) : Lifted :=
  match operands with
  | dstStr :: srcStr :: _ =>
    if isMemoryOperand dstStr ∧ ¬ isMemoryOperand srcStr then do
      let addrOp ← parseMemoryOperand dstStr versions
      let srcOp ← parseSingleOperand srcStr versions
      return (.store addrOp srcOp, versions)
    else if ¬ isMemoryOperand dstStr ∧ isMemoryOperand srcStr then do
      let dstBase ← dstRegister dstStr
      let (dst, versions) ← newVersion versions (dstBase.getD .rax)
      let addrOp ← parseMemoryOperand srcStr versions
      return (.load dst addrOp, versions)
    else do
      let dstBase ← dstRegister dstStr
      let (dst, versions) ← newVersion versions (dstBase.getD .rax)
      let srcOp ← parseSingleOperand srcStr versions
      return (.mov dst srcOp, versions)
  | _ => unknown mnemonic addr versions

def liftUnaryReg (kind : Text) (operands : List Text) (addr : U64) (versions : Versions) : Lifted :=
  match operands with
  | opStr :: _ =>
    if isMemoryOperand opStr then unknown kind addr versions
    else do
      let base := (← dstRegister opStr).getD .rax
      let src := Operand.var (versions.currentVar base)
      let (dst, versions) ← newVersion versions base
      if kind = "not" then return (.not dst src, versions)
      else if kind = "neg" then return (.neg dst src, versions)
      else unknown kind addr versions
  | [] => unknown kind addr versions

def liftCall (targetStr : Text) (versions : Versions) (fallthrough : U64) : Option Opcode :=
  let targetStr := targetStr.trim
  if isMemoryOperand targetStr then
    (parseMemoryOperand targetStr versions).map fun op => .call (.indirect op) fallthrough
  else match parseRegister targetStr with
    | some vb => some (.call (.indirect (.var (versions.currentVar vb))) 0)
    | none => do
      match ← parseImmediate targetStr with
      | some addr => return .call (.direct addr) fallthrough
      | none => return .call (.external targetStr) fallthrough

def liftJmp (targetStr : Text) (versions : Versions) : Option Opcode := do
  let targetStr := targetStr.trim
  match ← parseImmediate targetStr with
  | some addr => return .jmp addr
  | none =>
    if isMemoryOperand targetStr then
      (parseMemoryOperand targetStr versions).map fun op => .call (.indirect op) 0
    else match parseRegister targetStr with
      | some vb => return .call (.indirect (.var (versions.currentVar vb))) 0
      | none => return .jmp 0

def nextAddress (insn : DisassembledInsn) : Option U64 :=
  checkedAdd insn.address (insn.size.setWidth 64)

def jccTarget (operands : List Text) : Option U64 :=
  match operands with
  | op :: _ => do
    let v ← parseImmediate op.trim
    return v.getD 0
  | [] => some 0

def liftArm (arm : Arm) (m : Text) (operands : List Text) (insn : DisassembledInsn)
    (versions : Versions) : Lifted :=
  let unknown := unknown m insn.address versions
  match arm with
  | .nop => some (.nop, versions)
  | .mov => liftMov operands m insn.address versions
  | .lea =>
    match operands with
    | first :: second :: _ => do
      let dstBase ← dstRegister first
      let (dst, versions) ← newVersion versions (dstBase.getD .rax)
      let addrOp ← parseMemoryOperand second versions
      return (.lea dst addrOp, versions)
    | _ => unknown
  | .alu => liftBinaryAlu m operands insn.address versions
  | .mul =>
    match operands with
    | [first] => do
      let src ← parseSingleOperand first versions
      let lhs := Operand.var (versions.currentVar .rax)
      let (dst, versions) ← newVersion versions .rax
      return (.mul dst lhs src, versions)
    | _ => liftBinaryAlu "imul" operands insn.address versions
  | .not => liftUnaryReg "not" operands insn.address versions
  | .neg => liftUnaryReg "neg" operands insn.address versions
  | .cmp =>
    match operands with
    | first :: second :: _ => do
      let lhs ← parseSingleOperand first versions
      let rhs ← parseSingleOperand second versions
      return (.cmp lhs rhs, versions)
    | _ => unknown
  | .test =>
    match operands with
    | first :: second :: _ => do
      let lhs ← parseSingleOperand first versions
      let rhs ← parseSingleOperand second versions
      return (.test lhs rhs, versions)
    | _ => unknown
  | .push =>
    match operands with
    | first :: _ => do
      let src ← parseSingleOperand first versions
      return (.push src, versions)
    | [] => unknown
  | .pop =>
    match operands with
    | first :: _ => do
      let base ← dstRegister first
      let (dst, versions) ← newVersion versions (base.getD .rax)
      return (.pop dst, versions)
    | [] => unknown
  | .call =>
    match operands with
    | first :: _ => do
      let next ← nextAddress insn
      (liftCall first versions next).map fun op => (op, versions)
    | [] => unknown
  | .ret => some (.ret, versions)
  | .jmp =>
    match operands with
    | first :: _ => (liftJmp first versions).map fun op => (op, versions)
    | [] => unknown
  | .lock =>
    match operands with
    | first :: second :: _ => do
      let dstOp ← parseSingleOperand first versions
      let srcOp ← parseSingleOperand second versions
      return (.atomicRMW m dstOp srcOp, versions)
    | _ => unknown
  | .cmov =>
    match operands with
    | first :: second :: _ => do
      let condition ← parseConditionSuffix (← m.sliceFrom 4)
      let src ← parseSingleOperand second versions
      let dstBase ← dstRegister first
      let (dst, versions) ← newVersion versions (dstBase.getD .rax)
      return (.cmovcc condition dst src, versions)
    | _ => unknown
  | .set =>
    match operands with
    | first :: _ => do
      let condition ← parseConditionSuffix (← m.sliceFrom 3)
      let dstBase ← dstRegister first
      let (dst, versions) ← newVersion versions (dstBase.getD .rax)
      return (.setcc condition dst, versions)
    | [] => unknown
  | .condJump => do
    let condition ← parseConditionSuffix m
    let target ← jccTarget operands
    let fallthrough ← nextAddress insn
    return (.jcc condition target fallthrough, versions)
  | .inc =>
    match operands with
    | first :: _ => do
      let base := (← dstRegister first).getD .rax
      let lhs := Operand.var (versions.currentVar base)
      let (dst, versions) ← newVersion versions base
      return (.add dst lhs (.imm 1), versions)
    | [] => unknown
  | .dec =>
    match operands with
    | first :: _ => do
      let base := (← dstRegister first).getD .rax
      let lhs := Operand.var (versions.currentVar base)
      let (dst, versions) ← newVersion versions base
      return (.sub dst lhs (.imm 1), versions)
    | [] => unknown
  | .leave => do
    let (rbpNew, versions) ← newVersion versions .rbp
    return (.pop rbpNew, versions)
  | .xchg | .signExtend | .other => unknown
  | .trap => some (.ret, versions)
  | .syscall => do
    let next ← nextAddress insn
    return (.call (.external "syscall") next, versions)

def liftBefore (arm : Arm) (versions : Versions) : Option (List Opcode × Versions) :=
  match arm with
  | .leave => do
    let rbpVal := Operand.var (versions.currentVar .rbp)
    let (rspNew, versions) ← newVersion versions .rsp
    return ([.mov rspNew rbpVal], versions)
  | _ => some ([], versions)

def liftInsn (insn : DisassembledInsn) (versions : Versions) :
    Option (List IRInstruction × Versions) := do
  let (isLock, m) := lockedMnemonic insn.mnemonic
  let operands ← parseOperands insn.opStr
  let arm := armOf isLock m
  let (before, versions) ← liftBefore arm versions
  let (opcode, versions) ← liftArm arm m operands insn versions
  return ((before ++ [opcode]).map fun op => ⟨insn.address, op⟩, versions)

def liftInsns : List DisassembledInsn → Versions → Option (List IRInstruction × Versions)
  | [], versions => some ([], versions)
  | insn :: insns, versions => do
    let (irs, versions) ← liftInsn insn versions
    let (rest, versions) ← liftInsns insns versions
    return (irs ++ rest, versions)

def liftBlock (blockId : BlockId) (basicBlock : BasicBlock) : Option IRBlock := do
  let (irs, _) ← liftInsns basicBlock.instructions Versions.initial
  return ⟨blockId, basicBlock.startAddr, irs⟩

open Std in
def liftFunction (cfg : ControlFlowGraph) : Option IRFunction := do
  let blocks ← cfg.blocks.toList.mapM fun p => (liftBlock p.1 p.2).map fun b => (p.1, b)
  return {
    name := cfg.funcName
    addr := cfg.funcAddr
    blocks := TreeMap.ofList blocks
    entryBlock := cfg.entryBlock
    blockAddrs := TreeMap.ofList (cfg.blocks.toList.map fun p => (p.1, p.2.startAddr)) }

inductive Reading
  | operand | address | immediate
  deriving DecidableEq, Repr

def Reading.Ok : Reading → Text → Prop
  | .operand, s => OperandOk s
  | .address, s => AddressOk s
  | .immediate, s => ¬ NegatesLeast s

def readings (arm : Arm) (operands : List Text) : List (Reading × Text) :=
  match arm, operands with
  | .mov, first :: second :: _ =>
    if isMemoryOperand first ∧ ¬ isMemoryOperand second then [(.operand, first), (.operand, second)]
    else [(.operand, second)]
  | .lea, _ :: second :: _ => [(.address, second)]
  | .alu, first :: second :: more | .mul, first :: second :: more =>
    [(.operand, (second :: more).getLast (List.cons_ne_nil second more)),
      (.operand, if more = [] then first else second)]
  | .cmp, first :: second :: _ | .test, first :: second :: _ | .lock, first :: second :: _ =>
    [(.operand, first), (.operand, second)]
  | .cmov, _ :: second :: _ => [(.operand, second)]
  | .mul, [first] | .push, first :: _ | .call, first :: _ | .jmp, first :: _ => [(.operand, first)]
  | .condJump, first :: _ => [(.immediate, first)]
  | _, _ => []

end Dexe.Debug
