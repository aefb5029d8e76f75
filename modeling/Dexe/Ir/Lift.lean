import Dexe.Ir.Operands

/-! The lifter (`ir.rs`). A result `none` is a panic of the source. -/

namespace Dexe

namespace Ir

open Versions

abbrev Lifted := Option (Opcode × Versions)

def unknown (mnemonic : Text) (addr : U64) (versions : Versions) : Lifted :=
  some (.unknown mnemonic addr, versions)

def liftBinaryAlu (mnemonic : Text) (operands : List Text) (addr : U64) (versions : Versions) :
    Lifted :=
  match operands with
  | dstStr :: second :: more => do
    let rhs ← parseSingleOperand ((second :: more).getLast (List.cons_ne_nil second more)) versions
    let lhs ← parseSingleOperand (if more = [] then dstStr else second) versions
    let dstBase := (dstRegister dstStr).getD .rax
    let (dst, versions) := versions.newVersion dstBase
    let opcode : Opcode :=
      if mnemonic = "add" then .add dst lhs rhs
      else if mnemonic = "sub" then .sub dst lhs rhs
      else if mnemonic = "imul" ∨ mnemonic = "mul" then .mul dst lhs rhs
      else if mnemonic = "and" then .and dst lhs rhs
      else if mnemonic = "or" then .or dst lhs rhs
      else if mnemonic = "xor" then .xor dst lhs rhs
      else if mnemonic = "shl" ∨ mnemonic = "sal" then .shl dst lhs rhs
      else if mnemonic = "shr" ∨ mnemonic = "sar" then .shr dst lhs rhs
      else .unknown mnemonic addr
    return (opcode, versions)
  | _ => unknown mnemonic addr versions

def liftMov (operands : List Text) (mnemonic : Text) (addr : U64) (versions : Versions) : Lifted :=
  match operands with
  | dstStr :: srcStr :: _ =>
    if isMemoryOperand dstStr ∧ ¬ isMemoryOperand srcStr then do
      let addrOp ← parseMemoryOperand dstStr versions
      let srcOp ← parseSingleOperand srcStr versions
      return (.store addrOp srcOp, versions)
    else if ¬ isMemoryOperand dstStr ∧ isMemoryOperand srcStr then do
      let (dst, versions) := versions.newVersion ((dstRegister dstStr).getD .rax)
      let addrOp ← parseMemoryOperand srcStr versions
      return (.load dst addrOp, versions)
    else do
      let (dst, versions) := versions.newVersion ((dstRegister dstStr).getD .rax)
      let srcOp ← parseSingleOperand srcStr versions
      return (.mov dst srcOp, versions)
  | _ => unknown mnemonic addr versions

def liftUnaryReg (kind : Text) (operands : List Text) (addr : U64) (versions : Versions) : Lifted :=
  match operands with
  | opStr :: _ =>
    if isMemoryOperand opStr then unknown kind addr versions
    else
      let base := (dstRegister opStr).getD .rax
      let src := Operand.var (versions.currentVar base)
      let (dst, versions) := versions.newVersion base
      if kind = "not" then some (.not dst src, versions)
      else if kind = "neg" then some (.neg dst src, versions)
      else unknown kind addr versions
  | [] => unknown kind addr versions

def liftCall (targetStr : Text) (versions : Versions) (fallthrough : U64) : Option Opcode :=
  let targetStr := targetStr.trim
  if isMemoryOperand targetStr then
    (parseMemoryOperand targetStr versions).map fun op => .call (.indirect op) fallthrough
  else match parseRegister targetStr with
    | some vb => some (.call (.indirect (.var (versions.currentVar vb))) 0)
    | none =>
      match parseImmediate targetStr with
      | some addr => some (.call (.direct addr) fallthrough)
      | none => some (.call (.external targetStr) fallthrough)

def liftJmp (targetStr : Text) (versions : Versions) : Option Opcode :=
  let targetStr := targetStr.trim
  match parseImmediate targetStr with
  | some addr => some (.jmp addr)
  | none =>
    if isMemoryOperand targetStr then
      (parseMemoryOperand targetStr versions).map fun op => .call (.indirect op) 0
    else match parseRegister targetStr with
      | some vb => some (.call (.indirect (.var (versions.currentVar vb))) 0)
      | none => some (.jmp 0)

inductive Arm
  | nop | mov | lea | alu | mul | not | neg | cmp | test | push | pop | call | ret | jmp
  | lock | cmov | set | condJump | inc | dec | leave | xchg | signExtend | trap | syscall | other
  deriving DecidableEq, Repr

def wordArms : List (Arm × List Text) :=
  [(.nop, ["nop", "endbr64", "endbr32", "fnop", "pause"]),
    (.mov, ["mov", "movabs", "movzx", "movsx", "movsxd", "movq", "movd"]),
    (.lea, ["lea"]),
    (.alu, ["add", "sub", "imul", "and", "or", "xor", "shl", "sal", "shr", "sar"]),
    (.mul, ["mul"]),
    (.not, ["not"]),
    (.neg, ["neg"]),
    (.cmp, ["cmp"]),
    (.test, ["test"]),
    (.push, ["push"]),
    (.pop, ["pop"]),
    (.call, ["call"]),
    (.ret, ["ret", "retn", "retf"]),
    (.jmp, ["jmp"])]

def lateWordArms : List (Arm × List Text) :=
  [(.inc, ["inc"]),
    (.dec, ["dec"]),
    (.leave, ["leave"]),
    (.xchg, ["xchg"]),
    (.signExtend, ["cdq", "cdqe", "cqo", "cwd", "cbw", "cwde"]),
    (.trap, ["int3", "ud2", "hlt", "int"]),
    (.syscall, ["syscall"])]

def findArm (arms : List (Arm × List Text)) (m : Text) : Option Arm :=
  (arms.find? fun p => m ∈ p.2).map Prod.fst

def isConditionalJump (mnemonic : Text) : Prop := mnemonic.startsWith "j" = true ∧ mnemonic ≠ "jmp"

instance (mnemonic : Text) : Decidable (isConditionalJump mnemonic) :=
  inferInstanceAs (Decidable (_ ∧ _))

def armOf (isLock : Bool) (m : Text) : Arm :=
  match findArm wordArms m with
  | some arm => arm
  | none =>
    if isLock then .lock
    else if m.startsWith "cmov" then .cmov
    else if m.startsWith "set" then .set
    else if isConditionalJump m then .condJump
    else (findArm lateWordArms m).getD .other

/-- `insn.address + insn.size as u64`, as a release build computes it. -/
def nextAddress (insn : DisassembledInsn) : U64 := insn.address + insn.size.setWidth 64

def jccTarget (operands : List Text) : U64 :=
  match operands with
  | op :: _ => (parseImmediate op.trim).getD 0
  | [] => 0

def lockedMnemonic (mnemonic : Text) : Bool × Text :=
  let m := mnemonic.toLowercase
  if m.startsWith "lock " then (true, m.trimStartMatches "lock ") else (false, m)

/-- The opcode of the mnemonic match for `leave` is the second half of its two. -/
def liftArm (arm : Arm) (m : Text) (operands : List Text) (insn : DisassembledInsn)
    (versions : Versions) : Lifted :=
  let unknown := unknown m insn.address versions
  match arm with
  | .nop => some (.nop, versions)
  | .mov => liftMov operands m insn.address versions
  | .lea =>
    match operands with
    | first :: second :: _ => do
      let (dst, versions) := versions.newVersion ((dstRegister first).getD .rax)
      let addrOp ← parseMemoryOperand second versions
      return (.lea dst addrOp, versions)
    | _ => unknown
  | .alu => liftBinaryAlu m operands insn.address versions
  | .mul =>
    match operands with
    | [first] => do
      let src ← parseSingleOperand first versions
      let lhs := Operand.var (versions.currentVar .rax)
      let (dst, versions) := versions.newVersion .rax
      return (.mul dst lhs src, versions)
    | _ => liftBinaryAlu "imul" operands insn.address versions
  | .not => liftUnaryReg "not" operands insn.address versions
  | .neg => liftUnaryReg "neg" operands insn.address versions
  | .cmp =>
    match operands with
    | first :: second :: _ => do
      let lhs ← parseSingleOperand first versions
      let rhs ← parseSingleOperand second versions
      return (.cmp lhs rhs, versions)
    | _ => unknown
  | .test =>
    match operands with
    | first :: second :: _ => do
      let lhs ← parseSingleOperand first versions
      let rhs ← parseSingleOperand second versions
      return (.test lhs rhs, versions)
    | _ => unknown
  | .push =>
    match operands with
    | first :: _ => do
      let src ← parseSingleOperand first versions
      return (.push src, versions)
    | [] => unknown
  | .pop =>
    match operands with
    | first :: _ =>
      let (dst, versions) := versions.newVersion ((dstRegister first).getD .rax)
      some (.pop dst, versions)
    | [] => unknown
  | .call =>
    match operands with
    | first :: _ => (liftCall first versions (nextAddress insn)).map fun op => (op, versions)
    | [] => unknown
  | .ret => some (.ret, versions)
  | .jmp =>
    match operands with
    | first :: _ => (liftJmp first versions).map fun op => (op, versions)
    | [] => unknown
  | .lock =>
    match operands with
    | first :: second :: _ => do
      let dstOp ← parseSingleOperand first versions
      let srcOp ← parseSingleOperand second versions
      return (.atomicRMW m dstOp srcOp, versions)
    | _ => unknown
  | .cmov =>
    match operands with
    | first :: second :: _ => do
      let condition := parseConditionSuffix (m.drop 4)
      let src ← parseSingleOperand second versions
      let (dst, versions) := versions.newVersion ((dstRegister first).getD .rax)
      return (.cmovcc condition dst src, versions)
    | _ => unknown
  | .set =>
    match operands with
    | first :: _ =>
      let condition := parseConditionSuffix (m.drop 3)
      let (dst, versions) := versions.newVersion ((dstRegister first).getD .rax)
      some (.setcc condition dst, versions)
    | [] => unknown
  | .condJump =>
    some (.jcc (parseConditionSuffix m) (jccTarget operands) (nextAddress insn), versions)
  | .inc =>
    match operands with
    | first :: _ =>
      let base := (dstRegister first).getD .rax
      let lhs := Operand.var (versions.currentVar base)
      let (dst, versions) := versions.newVersion base
      some (.add dst lhs (.imm 1), versions)
    | [] => unknown
  | .dec =>
    match operands with
    | first :: _ =>
      let base := (dstRegister first).getD .rax
      let lhs := Operand.var (versions.currentVar base)
      let (dst, versions) := versions.newVersion base
      some (.sub dst lhs (.imm 1), versions)
    | [] => unknown
  | .leave =>
    let (rbpNew, versions) := versions.newVersion .rbp
    some (.pop rbpNew, versions)
  | .xchg | .signExtend | .other => unknown
  | .trap => some (.ret, versions)
  | .syscall => some (.call (.external "syscall") (nextAddress insn), versions)

def liftBefore (arm : Arm) (versions : Versions) : List Opcode × Versions :=
  match arm with
  | .leave =>
    let rbpVal := Operand.var (versions.currentVar .rbp)
    let (rspNew, versions) := versions.newVersion .rsp
    ([.mov rspNew rbpVal], versions)
  | _ => ([], versions)

lemma liftBefore_of_ne {arm : Arm} (h : arm ≠ .leave) (versions : Versions) :
    liftBefore arm versions = ([], versions) := by
  cases arm with
  | leave => exact absurd rfl h
  | _ => rfl

def liftInsn (insn : DisassembledInsn) (versions : Versions) :
    Option (List IRInstruction × Versions) := do
  let (isLock, m) := lockedMnemonic insn.mnemonic
  let operands := parseOperands insn.opStr
  let arm := armOf isLock m
  let (before, versions) := liftBefore arm versions
  let (opcode, versions) ← liftArm arm m operands insn versions
  return ((before ++ [opcode]).map fun op => ⟨insn.address, op⟩, versions)

def liftInsns : List DisassembledInsn → Versions → Option (List IRInstruction × Versions)
  | [], versions => some ([], versions)
  | insn :: insns, versions => do
    let (irs, versions) ← liftInsn insn versions
    let (rest, versions) ← liftInsns insns versions
    return (irs ++ rest, versions)

def liftBlock (blockId : BlockId) (basicBlock : BasicBlock) : Option IRBlock := do
  let (irs, _) ← liftInsns basicBlock.instructions Versions.initial
  return ⟨blockId, basicBlock.startAddr, irs⟩

end Ir

open Ir Std in
def liftFunction (cfg : ControlFlowGraph) : Option IRFunction := do
  let blocks ← cfg.blocks.toList.mapM fun p => (liftBlock p.1 p.2).map fun b => (p.1, b)
  return {
    name := cfg.funcName
    addr := cfg.funcAddr
    blocks := TreeMap.ofList blocks
    entryBlock := cfg.entryBlock
    blockAddrs := TreeMap.ofList (cfg.blocks.toList.map fun p => (p.1, p.2.startAddr)) }

end Dexe
