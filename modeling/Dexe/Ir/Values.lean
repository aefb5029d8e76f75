import Dexe.Bytes
import Dexe.Ir.Syntax

/-! What operands stand for, given what the registers and memory hold. -/

namespace Dexe.Ir

variable (regs : VarBase → U64) (mem : Memory)

def addrValue (base index : Option VarId) (scale : BitVec 8) (disp : I64) : U64 :=
  base.elim 0 (fun b => regs b.base) +
    index.elim 0 (fun i => regs i.base * if scale.toNat > 1 then scale.setWidth 64 else 1) + disp

def operandValue : Operand → U64
  | .var v => regs v.base
  | .imm n => n
  | .mem base index scale disp => mem.load64 (addrValue regs base index scale disp)

def addressValue : Operand → U64
  | .mem base index scale disp => addrValue regs base index scale disp
  | op => operandValue regs mem op

end Dexe.Ir
