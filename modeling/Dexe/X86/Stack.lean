import Dexe.X86.Operands

/-! Instructions on the stack. -/

namespace Dexe.X86

inductive Pushed
  | reg (r : Reg)
  | imm (n : Numeral)
  | mem (m : MemOperand)

namespace Pushed

def text : Pushed → Text
  | reg r => r.name
  | imm n => n.text
  | mem m => m.text .qword

def value (s : State) : Pushed → U64
  | reg r => s.regs r
  | imm n => n.value
  | mem m => s.mem.load64 (m.address s.regs)

end Pushed

inductive Called
  | reg (r : Reg)
  | mem (m : MemOperand)

def Called.target : Called → Pushed
  | reg r => .reg r
  | mem m => .mem m

inductive StackInsn
  | push (src : Pushed)
  | pop (dst : Reg)
  | call (target : Called)

namespace StackInsn

def mnemonic : StackInsn → Text
  | push _ => "push"
  | pop _ => "pop"
  | call _ => "call"

def operands : StackInsn → List Text
  | push src => [src.text]
  | pop dst => [dst.name]
  | call target => [target.target.text]

end StackInsn

namespace State

variable (s : State)

def lower : State := s.set .rsp (s.regs .rsp - 8)

def push (v : U64) : State := { s.lower with mem := s.mem.store64 (s.regs .rsp - 8) v }

def pop (r : Reg) : State :=
  (s.set .rsp (s.regs .rsp + 8)).set r (s.mem.load64 (s.regs .rsp))

end State

/-- An instruction that the order of its parts makes no difference to: its operand is the same once
the stack pointer has moved. For an operand in memory, the word at the address that base, index and
displacement then give is the word that is meant; for a call, with the return address stored. A call
through a register is to return to address 0. -/
def StackInsn.Unordered (s : State) (next : U64) : StackInsn → Prop
  | push (.reg r) | pop r => r ≠ .rsp
  | push (.imm _) => True
  | push (.mem m) => s.mem.load64 (m.ref.address s.lower.regs) = s.mem.load64 (m.address s.regs)
  | call (.reg r) => r ≠ .rsp ∧ next = 0
  | call (.mem m) =>
    (s.push next).mem.load64 (m.ref.address s.lower.regs) = s.mem.load64 (m.address s.regs)

end Dexe.X86
