import Dexe.X86.Operands
import Dexe.X86.Parts

/-! Moves that extend a narrow value. -/

namespace Dexe.X86

inductive WideningOp
  | movzx | movsx | movsxd
  deriving DecidableEq, Repr

namespace WideningOp

def mnemonic : WideningOp → Text
  | movzx => "movzx"
  | movsx => "movsx"
  | movsxd => "movsxd"

def signed : WideningOp → Bool
  | movzx => false
  | movsx | movsxd => true

def number (op : WideningOp) (w : ℕ) (v : U64) : ℤ :=
  if op.signed then (v.setWidth w).toInt else (v.setWidth w).toNat

end WideningOp

inductive Target
  | whole (r : Reg)
  | part (r : SubReg)

namespace Target

def name : Target → Text
  | whole r => r.name
  | part r => r.name

def parent : Target → Reg
  | whole r => r
  | part r => r.parent

def width : Target → ℕ
  | whole _ => 64
  | part r => r.part.width

def value (s : State) : Target → U64
  | whole r => s.regs r
  | part r => r.value s

end Target

inductive Narrow
  | part (r : SubReg)
  | mem (m : MemOperand) (size : Size)

namespace Narrow

def text : Narrow → Text
  | part r => r.name
  | mem m size => m.text size

def width : Narrow → ℕ
  | part r => r.part.width
  | mem _ size => 8 * size.bytes

def value (s : State) : Narrow → U64
  | part r => r.value s
  | mem m size => BitVec.ofNat 64 (s.mem.load (m.address s.regs) size.bytes)

end Narrow

structure WideningInsn where
  op : WideningOp
  dst : Target
  src : Narrow
  wider : src.width < dst.width

end Dexe.X86
