import Dexe.X86.Semantics

/-! Shifts, and instructions whose destination is memory. -/

namespace Dexe.X86

inductive ShiftOp
  | shl | sal | shr | sar
  deriving DecidableEq, Repr

namespace ShiftOp

def mnemonic : ShiftOp → Text
  | shl => "shl"
  | sal => "sal"
  | shr => "shr"
  | sar => "sar"

def result : ShiftOp → U64 → ℕ → U64
  | shl, a, n | sal, a, n => a <<< n
  | shr, a, n => a >>> n
  | sar, a, n => a.sshiftRight n

end ShiftOp

inductive Count
  | imm (n : Numeral)
  | cl

namespace Count

def text : Count → Text
  | imm n => n.text
  | cl => "cl"

def source : Count → Source
  | imm n => .imm n
  | cl => .reg .rcx

def places (s : State) (c : Count) : ℕ := (s.read c.source).toNat % 64

end Count

inductive Update
  | alu (op : AluOp) (h : op ≠ .imul) (src : Stored)
  | shl (count : Count)
  | shr (count : Count)
  | unary (op : UnaryOp)

namespace Update

def mnemonic : Update → Text
  | alu op _ _ => op.mnemonic
  | shl _ => ShiftOp.shl.mnemonic
  | shr _ => ShiftOp.shr.mnemonic
  | unary op => op.mnemonic

def operands (m : MemRef) : Update → List Text
  | alu _ _ src => [m.text, src.source.text]
  | shl count | shr count => [m.text, count.text]
  | unary _ => [m.text]

def result (s : State) (old : U64) : Update → U64
  | alu op _ src => op.result old (s.read src.source)
  | shl count => ShiftOp.shl.result old (count.places s)
  | shr count => ShiftOp.shr.result old (count.places s)
  | unary op => op.result old

end Update

def State.update (s : State) (u : Update) (m : MemRef) : State :=
  let a := m.address s.regs
  { s with mem := s.mem.store64 a (u.result s (s.mem.load64 a)) }

end Dexe.X86
