import Dexe.X86.Operands

/-! Multiplications with a product of two words. -/

namespace Dexe.X86

inductive MulOp
  | mul | imul
  deriving DecidableEq, Repr

namespace MulOp

def mnemonic : MulOp → Text
  | mul => "mul"
  | imul => "imul"

def widen (op : MulOp) (a : U64) : BitVec 128 :=
  match op with
  | mul => a.setWidth 128
  | imul => a.signExtend 128

def product (op : MulOp) (a b : U64) : BitVec 128 := op.widen a * op.widen b

def low (op : MulOp) (a b : U64) : U64 := (op.product a b).setWidth 64

def high (op : MulOp) (a b : U64) : U64 := (op.product a b).extractLsb' 64 64

lemma low_eq (op : MulOp) (a b : U64) : op.low a b = a * b := by
  rw [low, product, BitVec.setWidth_mul _ _ (by norm_num)]
  have hwiden : ∀ x, (op.widen x).setWidth 64 = x := by
    intro x
    cases op with
    | mul => simp [widen]
    | imul =>
      apply BitVec.eq_of_getLsbD_eq
      intro i hi
      simp [widen, BitVec.getLsbD_signExtend, hi]
      omega
  rw [hwiden, hwiden]

end MulOp

inductive Multiplier
  | reg (r : Reg)
  | mem (m : MemOperand)

namespace Multiplier

def text : Multiplier → Text
  | reg r => r.name
  | mem m => m.text .qword

def value (s : State) : Multiplier → U64
  | reg r => s.regs r
  | mem m => s.mem.load64 (m.address s.regs)

end Multiplier

def State.multiply (s : State) (op : MulOp) (src : Multiplier) : State :=
  let a := s.regs .rax
  let b := src.value s
  (s.set .rax (op.low a b)).set .rdx (op.high a b)

end Dexe.X86
