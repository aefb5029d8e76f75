import Dexe.Cfg

/-! The IR (`ir.rs`) and its SSA version map. -/

namespace Dexe

open Std

inductive VarBase
  | rax | rbx | rcx | rdx | rsi | rdi | rsp | rbp
  | r8 | r9 | r10 | r11 | r12 | r13 | r14 | r15
  | rflags
  | temp (n : BitVec 32)
  deriving DecidableEq, Repr

structure VarId where
  base : VarBase
  version : BitVec 32
  deriving DecidableEq, Repr

inductive Operand
  | var (v : VarId)
  | imm (n : I64)
  | mem (base index : Option VarId) (scale : BitVec 8) (disp : I64)
  deriving DecidableEq, Repr

inductive Condition
  | equal | notEqual | less | lessEqual | greater | greaterEqual
  | below | belowEqual | above | aboveEqual
  | sign | notSign | overflow | notOverflow | parity | notParity
  deriving DecidableEq, Repr

inductive CallTarget
  | direct (addr : U64)
  | indirect (op : Operand)
  | external (name : Text)
  deriving DecidableEq, Repr

inductive Opcode
  | mov (dst : VarId) (src : Operand)
  | load (dst : VarId) (addr : Operand)
  | store (addr src : Operand)
  | add (dst : VarId) (lhs rhs : Operand)
  | sub (dst : VarId) (lhs rhs : Operand)
  | mul (dst : VarId) (lhs rhs : Operand)
  | and (dst : VarId) (lhs rhs : Operand)
  | or (dst : VarId) (lhs rhs : Operand)
  | xor (dst : VarId) (lhs rhs : Operand)
  | shl (dst : VarId) (lhs rhs : Operand)
  | shr (dst : VarId) (lhs rhs : Operand)
  | not (dst : VarId) (src : Operand)
  | neg (dst : VarId) (src : Operand)
  | lea (dst : VarId) (addr : Operand)
  | cmp (lhs rhs : Operand)
  | test (lhs rhs : Operand)
  | jmp (target : U64)
  | jcc (condition : Condition) (target fallthrough : U64)
  | cmovcc (condition : Condition) (dst : VarId) (src : Operand)
  | setcc (condition : Condition) (dst : VarId)
  | call (target : CallTarget) (fallthrough : U64)
  | ret
  | nop
  | push (src : Operand)
  | pop (dst : VarId)
  | atomicRMW (op : Text) (addr src : Operand)
  | unknown (mnemonic : Text) (addr : U64)
  deriving DecidableEq, Repr

structure IRInstruction where
  addr : U64
  opcode : Opcode
  deriving DecidableEq, Repr

structure IRBlock where
  id : BlockId
  startAddr : U64
  instructions : List IRInstruction
  deriving DecidableEq, Repr

structure IRFunction where
  name : Text
  addr : U64
  blocks : TreeMap BlockId IRBlock
  entryBlock : BlockId
  blockAddrs : TreeMap BlockId U64

def IRFunction.blockList (f : IRFunction) : List IRBlock := f.blocks.toList.map Prod.snd

/-- The version map of a block: a register never written has version 0. -/
abbrev Versions := VarBase → BitVec 32

namespace Versions

def initial : Versions := fun _ => 0

def newVersion (versions : Versions) (base : VarBase) : VarId × Versions :=
  let version := versions base + 1
  (⟨base, version⟩, Function.update versions base version)

def currentVar (versions : Versions) (base : VarBase) : VarId := ⟨base, versions base⟩

@[simp] lemma newVersion_base (versions : Versions) (base : VarBase) :
    (versions.newVersion base).1.base = base := rfl

@[simp] lemma currentVar_base (versions : Versions) (base : VarBase) :
    (versions.currentVar base).base = base := rfl

end Versions

end Dexe
