import Dexe.X86.Widening

/-! Moves between registers of any width, segment registers and memory operands with a size. -/

namespace Dexe.X86

inductive Given
  | reg (t : Target)
  | segment (r : Segment)
  | imm (n : Numeral)

def Given.text : Given → Text
  | reg t => t.name
  | segment r => r.name
  | imm n => n.text

inductive Loaded
  | reg (t : Target)
  | segment (r : Segment)

def Loaded.text : Loaded → Text
  | reg t => t.name
  | segment r => r.name

inductive Access
  | store (m : MemOperand) (size : Size) (src : Given)
  | load (dst : Loaded) (m : MemOperand) (size : Size)

def Access.operands : Access → List Text
  | store m size src => [m.text size, src.text]
  | load dst m size => [dst.text, m.text size]

end Dexe.X86
